import GoSpidermonkey.Lib.Chunks
import GoSpidermonkey.Lib.Utf8

/-!
# UTF-8 in chunks

A decoder that is given UTF-8 in chunks holds back a sequence that is not finished: a byte whose
bits announce a longer sequence than there are bytes, and continuation bytes after it
(`Unfinished`). Nothing is said about whether the sequence is well formed. What is held back then
depends on the stream only and not on the chunks (`HoldsBack.stable`), and no cut is inside an
encoding (`HoldsBack.not_begins`).
-/

namespace Utf8

open List

def announced (l : UInt8) : ℕ :=
  if l < 0xC0 then 1 else if l < 0xE0 then 2 else if l < 0xF0 then 3 else if l < 0xF8 then 4 else 1

/-- A byte and fewer continuation bytes than it announces. -/
def Unfinished (h : List UInt8) : Prop :=
  ∃ l q, h = l :: q ∧ (∀ x ∈ q, Cont x) ∧ q.length + 1 < announced l

/-- The unfinished sequence at the end of a text, if there is one. -/
def Tail (d h : List UInt8) : Prop :=
  h <:+ d ∧ (Unfinished h ∨ h = [] ∧ ∀ h', h' <:+ d → ¬ Unfinished h')

/-- Unfinished sequences are held back. -/
def HoldsBack (keep : List UInt8 → ℕ) : Prop := ∀ d, Tail d (Chunks.rest keep d)

variable {l : UInt8} {d h q r t : List UInt8}

lemma announced_spec (l : UInt8) : announced l ≤ 4 ∧ (1 < announced l → ¬ Cont l) ∧
    (Lead l → ¬ Cont l ∧ announced l = need l + 1) := by
  revert l
  decide +kernel

lemma Unfinished.not_cont (h : Unfinished (l :: q)) : ¬ Cont l := by
  obtain ⟨l', q', heq, -, hlen⟩ := h
  obtain ⟨rfl, rfl⟩ := List.cons.inj heq
  exact (announced_spec l).2.1 (by omega)

lemma partial_unfinished {p : List UInt8} (hp : p ≠ []) (h : code.Partial p) : Unfinished p := by
  obtain ⟨l, q, rfl⟩ := exists_cons_of_ne_nil hp
  obtain ⟨hlead, hlen, hfollows⟩ := partial_iff.mp h
  refine ⟨l, q, rfl, hfollows.2, ?_⟩
  rw [((announced_spec l).2.2 hlead).2]
  omega

lemma Unfinished.eq_nil_of_append (h₁ : Unfinished (t ++ h ++ r))
    (h₂ : Unfinished h) : t = [] := by
  obtain ⟨l, q, heq, hcont, -⟩ := h₁
  cases t with
  | nil => rfl
  | cons b t =>
    obtain ⟨l', q', rfl, -, hlen⟩ := id h₂
    obtain ⟨-, rfl⟩ := List.cons.inj heq
    exact absurd (hcont l' (by simp)) h₂.not_cont

lemma Unfinished.of_append (h : Unfinished (t ++ r)) (ht : t ≠ []) :
    Unfinished t := by
  obtain ⟨l, q, heq, hcont, hlen⟩ := h
  obtain ⟨b, t, rfl⟩ := exists_cons_of_ne_nil ht
  obtain ⟨rfl, rfl⟩ := List.cons.inj heq
  refine ⟨b, t, rfl, fun x hx => hcont x (mem_append_left _ hx), ?_⟩
  simp only [append_eq, length_append] at hlen
  omega

lemma Tail.unique {h' : List UInt8} (hh : Tail d h) (hh' : Tail d h') : h = h' := by
  obtain ⟨hs, hu | ⟨rfl, hnone⟩⟩ := hh
  · obtain ⟨hs', hu' | ⟨-, hnone⟩⟩ := hh'
    · rcases suffix_or_suffix_of_suffix hs hs' with ⟨t, rfl⟩ | ⟨t, rfl⟩
      · have := Unfinished.eq_nil_of_append (r := []) (by simpa using hu') hu
        simp [this]
      · have := Unfinished.eq_nil_of_append (r := []) (by simpa using hu) hu'
        simp [this]
    · exact absurd hu (hnone h hs)
  · obtain ⟨hs', hu' | ⟨rfl, -⟩⟩ := hh'
    · exact absurd hu' (hnone h' hs')
    · rfl

/-! ### Finding it -/

lemma tail_of_lead (a : List UInt8) (hl : ¬ Cont l)
    (hq : ∀ x ∈ q, Cont x) :
    Tail (a ++ l :: q) (if q.length + 1 < announced l then l :: q else []) := by
  split_ifs with hlen
  · exact ⟨suffix_append _ _, .inl ⟨l, q, rfl, hq, hlen⟩⟩
  · refine ⟨nil_suffix, .inr ⟨rfl, fun h' hs hu => ?_⟩⟩
    rcases suffix_or_suffix_of_suffix hs (suffix_append a (l :: q)) with hs | ⟨t, rfl⟩
    · rcases suffix_cons_iff.mp hs with rfl | hs
      · obtain ⟨l', q', heq, -, hlen'⟩ := hu
        obtain ⟨rfl, rfl⟩ := List.cons.inj heq
        exact hlen hlen'
      · obtain ⟨l', q', rfl, -, -⟩ := id hu
        exact hu.not_cont (hq l' (hs.subset mem_cons_self))
    · obtain ⟨l', q', heq, hcont, hlen'⟩ := hu
      cases t with
      | nil =>
        obtain ⟨rfl, rfl⟩ := List.cons.inj heq
        exact hlen hlen'
      | cons b t =>
        obtain ⟨-, rfl⟩ := List.cons.inj heq
        exact hl (hcont l (by simp))

lemma tail_of_conts (hd : ∀ x ∈ d, Cont x) : Tail d [] := by
  refine ⟨nil_suffix, .inr ⟨rfl, fun h' hs hu => ?_⟩⟩
  obtain ⟨l, q, rfl, -, -⟩ := id hu
  exact hu.not_cont (hd l (hs.subset mem_cons_self))

lemma tail_of_three (a : List UInt8) (hq : ∀ x ∈ q, Cont x) (hlen : 3 ≤ q.length) :
    Tail (a ++ q) [] := by
  refine ⟨nil_suffix, .inr ⟨rfl, fun h' hs hu => ?_⟩⟩
  obtain ⟨l, r, rfl, -, hshort⟩ := id hu
  have hle := (announced_spec l).1
  rcases suffix_or_suffix_of_suffix hs (suffix_append a q) with hs | hs
  · exact hu.not_cont (hq l (hs.subset mem_cons_self))
  · have := hs.length_le
    rw [length_cons] at this
    have heq : q = l :: r := hs.eq_of_length (by rw [length_cons]; omega)
    exact hu.not_cont (hq l (heq ▸ mem_cons_self))

/-! ### Holding it back -/

variable {keep : List UInt8 → ℕ}

lemma Tail.append {c : List UInt8} (hd : Tail d h) (ht : Tail (h ++ c) t) : Tail (d ++ c) t := by
  obtain ⟨⟨a, rfl⟩, hh⟩ := hd
  obtain ⟨hs, hu⟩ := ht
  rw [append_assoc]
  refine ⟨hs.trans (suffix_append _ _), hu.imp_right fun ⟨hnil, hnone⟩ =>
    ⟨hnil, fun h' hs' hu' => ?_⟩⟩
  rcases suffix_or_suffix_of_suffix hs' (suffix_append a (h ++ c)) with hs' | ⟨b, rfl⟩
  · exact hnone h' hs' hu'
  · -- the sequence would begin before what was held back
    by_cases hb : b = []
    · subst hb
      exact hnone _ (suffix_refl _) hu'
    · rcases hh with hh | ⟨rfl, hnone'⟩
      · rw [← append_assoc] at hu'
        exact hb (hu'.eq_nil_of_append hh)
      · rw [nil_append] at hu' hs'
        have hba : b <:+ a := by
          obtain ⟨x, hx⟩ := hs'
          exact ⟨x, append_cancel_right (by rw [append_assoc, hx])⟩
        exact hnone' b (by simpa using hba) (hu'.of_append hb)

lemma tail_word (c : Char) : Tail (code.word c) [] := by
  obtain ⟨l, q, hc⟩ := exists_cons_of_ne_nil (code.word_ne_nil c)
  obtain ⟨⟨hlead, hlen⟩, hfollows, -⟩ := encode_iff.mp hc
  obtain ⟨hl, hneed⟩ := (announced_spec l).2.2 hlead
  have htail := tail_of_lead [] hl hfollows.2
  rw [if_neg (by omega)] at htail
  rw [hc]
  exact htail

lemma HoldsBack.append_word (h : HoldsBack keep) (c : Char) (d : List UInt8) :
    Chunks.ready keep (code.word c ++ d) = code.word c ++ Chunks.ready keep d ∧
      Chunks.rest keep (code.word c ++ d) = Chunks.rest keep d := by
  have hrest : Chunks.rest keep (code.word c ++ d) = Chunks.rest keep d :=
    (h _).unique ((tail_word c).append (h d))
  refine ⟨?_, hrest⟩
  have hsplit : Chunks.ready keep (code.word c ++ d) ++ Chunks.rest keep d =
      code.word c ++ Chunks.ready keep d ++ Chunks.rest keep d := by
    rw [append_assoc, Chunks.ready_append_rest, ← hrest, Chunks.ready_append_rest]
  exact append_cancel_right hsplit

lemma HoldsBack.stable (h : HoldsBack keep) : Chunks.Stable keep := by
  constructor
  · exact suffix_nil.mp (h []).1
  · intro d c
    exact ((h d).append (h _)).unique (h (d ++ c))

lemma HoldsBack.not_begins (h : HoldsBack keep) {p : List UInt8} {b : UInt8} (hp : p ≠ [])
    (hs : p <:+ Chunks.ready keep d) (hb : b ∈ (Chunks.rest keep d ++ r).head?) :
    ¬ code.Begins (p ++ [b]) := by
  intro hbegins
  obtain ⟨c, q, hc⟩ := hbegins
  have hpart : code.Partial p := ⟨c, b, q, by rw [← hc]; simp⟩
  obtain ⟨l, p, rfl⟩ := exists_cons_of_ne_nil hp
  have hcont : Cont b := by
    rw [cons_append, cons_append] at hc
    exact (encode_iff.mp hc.symm).2.1.2 b (by simp)
  obtain ⟨-, hu | ⟨hnil, hnone⟩⟩ := h d
  · obtain ⟨l', q', hrest, -, -⟩ := id hu
    rw [hrest] at hu hb
    cases hb
    exact hu.not_cont hcont
  · refine hnone (l :: p) ?_ (partial_unfinished hp hpart)
    have hready := Chunks.ready_append_rest keep d
    rw [hnil, append_nil] at hready
    rwa [hready] at hs

lemma HoldsBack.word_ready (h : HoldsBack keep) {c : Char}
    (hready : Chunks.ready keep d ≠ []) (hc : code.word c <+: d ++ r) :
    code.word c <+: Chunks.ready keep d := by
  have hsplit : Chunks.ready keep d <+: d ++ r :=
    ⟨Chunks.rest keep d ++ r, by rw [← append_assoc, Chunks.ready_append_rest]⟩
  rcases prefix_or_prefix_of_prefix hc hsplit with hword | ⟨q, hq⟩
  · exact hword
  · cases q with
    | nil => exact ⟨[], by rw [← hq]; simp⟩
    | cons b q =>
      refine absurd ⟨c, q, by rw [← hq]; simp⟩
        (h.not_begins (b := b) (r := r) hready (suffix_refl _) ?_)
      obtain ⟨t, ht⟩ := hc
      have hrest : b :: q ++ t = Chunks.rest keep d ++ r := by
        have hsplit : Chunks.ready keep d ++ (b :: q ++ t) =
            Chunks.ready keep d ++ (Chunks.rest keep d ++ r) := by
          rw [← append_assoc, hq, ht, ← append_assoc, Chunks.ready_append_rest]
        exact append_cancel_left hsplit
      rw [← hrest]
      rfl

end Utf8
