import Mathlib

/-!
# Streams in chunks

A stream comes in chunks. With each of them, a consumer takes what it has held back and the chunk,
holds back the last `keep` symbols of it and processes the others; at the end it processes what is
left. The stream is cut into `parts` that way, and where the function it computes can be cut there
(`Cuts`), the results for the parts make up the result for the stream (`flatMap_parts`).

A function may also drop a mark at the beginning of what it is given. Then the results for the parts
make up the result for the stream if and only if no part after the beginning has the mark at its own
beginning (`flatMap_strip_parts_iff`).
-/

namespace Chunks

open List

variable {α β : Type*}

section Parts

variable (keep : List α → ℕ)

def ready (d : List α) : List α := d.take (d.length - keep d)

def rest (d : List α) : List α := d.drop (d.length - keep d)

def taken : List α → List (List α) → List (List α)
  | _, [] => []
  | held, c :: cs => ready keep (held ++ c) :: taken (rest keep (held ++ c)) cs

def left : List α → List (List α) → List α
  | held, [] => held
  | held, c :: cs => left (rest keep (held ++ c)) cs

def parts (held : List α) (cs : List (List α)) : List (List α) :=
  taken keep held cs ++ [left keep held cs]

lemma ready_append_rest (d : List α) : ready keep d ++ rest keep d = d := take_append_drop _ _

lemma parts_nil (held : List α) : parts keep held [] = [held] := rfl

lemma parts_cons (held c : List α) (cs : List (List α)) :
    parts keep held (c :: cs)
      = ready keep (held ++ c) :: parts keep (rest keep (held ++ c)) cs := rfl

lemma flatten_parts (held : List α) (cs : List (List α)) :
    (parts keep held cs).flatten = held ++ cs.flatten := by
  induction cs generalizing held with
  | nil => simp [parts_nil]
  | cons c cs ih =>
    rw [parts_cons, flatten_cons, ih, ← append_assoc, ready_append_rest, flatten_cons,
      append_assoc]

lemma parts_append (held : List α) (cs cs' : List (List α)) :
    parts keep held (cs ++ cs') = taken keep held cs ++ parts keep (left keep held cs) cs' := by
  induction cs generalizing held with
  | nil => rfl
  | cons c cs ih =>
    rw [cons_append, parts_cons, ih]
    rfl

lemma exists_chunks {held p : List α} {cs pre post : List (List α)}
    (h : parts keep held cs = pre ++ p :: post) :
    ∃ cs₁ cs₂, cs = cs₁ ++ cs₂ ∧ pre = taken keep held cs₁ ∧
      p :: post = parts keep (left keep held cs₁) cs₂ := by
  induction pre generalizing held cs with
  | nil => exact ⟨[], cs, rfl, rfl, h.symm⟩
  | cons q pre ih =>
    cases cs with
    | nil =>
      have hlen := congrArg List.length h
      simp [parts_nil] at hlen
    | cons c cs =>
      rw [parts_cons] at h
      obtain ⟨rfl, htail⟩ := List.cons.inj h
      obtain ⟨cs₁, cs₂, rfl, rfl, hparts⟩ := ih htail
      exact ⟨c :: cs₁, cs₂, rfl, rfl, hparts⟩

variable {keep}

/-- What is held back depends on the whole stream only. -/
def Stable (keep : List α → ℕ) : Prop :=
  rest keep [] = [] ∧ ∀ d c, rest keep (rest keep d ++ c) = rest keep (d ++ c)

lemma left_eq (h : Stable keep) (cs : List (List α)) : left keep [] cs = rest keep cs.flatten := by
  suffices hleft : ∀ d, left keep (rest keep d) cs = rest keep (d ++ cs.flatten) by
    have := hleft []
    rwa [h.1] at this
  induction cs with
  | nil => exact fun d => by rw [flatten_nil, append_nil]; rfl
  | cons c cs ih =>
    intro d
    rw [left, h.2, ih, flatten_cons, append_assoc]

lemma flatten_taken (h : Stable keep) (cs : List (List α)) :
    (taken keep [] cs).flatten = ready keep cs.flatten := by
  have hflatten := flatten_parts keep [] cs
  rw [parts, flatten_append, flatten_singleton, left_eq h, nil_append] at hflatten
  exact append_cancel_right (hflatten.trans (ready_append_rest keep _).symm)

lemma rest_eq {d a h : List α} (hd : d = a ++ h) (hkeep : keep d = h.length) :
    ready keep d = a ∧ rest keep d = h := by
  have hlen : d.length - keep d = a.length := by
    rw [hkeep, hd, length_append, Nat.add_sub_cancel]
  rw [ready, rest, hlen, hd]
  exact ⟨take_left, drop_left⟩

/-! ### Functions of a stream -/

/-- The function can be cut where symbols are held back. -/
def Cuts (keep : List α → ℕ) (f : List α → List β) : Prop :=
  ∀ d r, f (d ++ r) = f (ready keep d) ++ f (rest keep d ++ r)

theorem flatMap_parts {f : List α → List β} (hf : Cuts keep f) (held : List α)
    (cs : List (List α)) :
    (parts keep held cs).flatMap f = f (held ++ cs.flatten) := by
  induction cs generalizing held with
  | nil => simp [parts_nil]
  | cons c cs ih =>
    rw [parts_cons, flatMap_cons, ih, ← hf, flatten_cons, append_assoc]

/-! ### Groups of symbols -/

/-- Whole groups of `u` symbols are processed. -/
def keepMod (u : ℕ) (d : List α) : ℕ := d.length % u

lemma length_rest_keepMod (u : ℕ) (d : List α) : (rest (keepMod u) d).length = d.length % u := by
  have hle := Nat.mod_le d.length u
  rw [rest, keepMod, length_drop]
  omega

lemma dvd_length_ready_keepMod (u : ℕ) (d : List α) : u ∣ (ready (keepMod u) d).length := by
  rw [ready, keepMod, length_take, Nat.min_eq_left (Nat.sub_le _ _)]
  exact Nat.dvd_sub_mod d.length

lemma stable_keepMod (u : ℕ) : Stable (keepMod u : List α → ℕ) := by
  refine ⟨by simp [rest], fun d c => ?_⟩
  have hsuffix : rest (keepMod u) (rest (keepMod u) d ++ c) <:+ d ++ c := by
    refine (drop_suffix _ _).trans ?_
    obtain ⟨a, ha⟩ := drop_suffix (d.length - keepMod u d) d
    exact ⟨a, by rw [← append_assoc]; exact congrArg (· ++ c) ha⟩
  have hlen : (rest (keepMod u) (rest (keepMod u) d ++ c)).length =
      (rest (keepMod u) (d ++ c)).length := by
    simp only [length_rest_keepMod, length_append, Nat.mod_add_mod]
  exact (suffix_of_suffix_length_le hsuffix (drop_suffix _ _) hlen.le).eq_of_length hlen

lemma cuts_keepMod {u : ℕ} {f : List α → List β}
    (hf : ∀ a b, u ∣ a.length → f (a ++ b) = f a ++ f b) : Cuts (keepMod u) f := by
  intro d r
  rw [← hf _ _ (dvd_length_ready_keepMod u d), ← append_assoc, ready_append_rest]

end Parts

/-! ### A mark at the beginning -/

section Mark

variable (bom : List α)

/-- The function can be cut between the parts, and no cut is inside a mark that begins a part. -/
def Seamed (f : List α → List β) : List (List α) → Prop
  | [] => True
  | p :: ps =>
    f (p ++ ps.flatten) = f p ++ f ps.flatten ∧
      (p ≠ [] → bom <+: p ++ ps.flatten → bom <+: p) ∧ Seamed f ps

/-- No part after the beginning of the stream begins with the mark. -/
def NoLateMark (ps : List (List α)) : Prop :=
  ∀ pre p post, ps = pre ++ p :: post → bom <+: p → pre.flatten = []

variable {bom} {keep : List α → ℕ} {f : List α → List β} {mark : List β}

lemma seamed_parts (hf : Cuts keep f)
    (hbom : ∀ d r, ready keep d ≠ [] → bom <+: d ++ r → bom <+: ready keep d) (hnil : f [] = [])
    (held : List α) (cs : List (List α)) : Seamed bom f (parts keep held cs) := by
  induction cs generalizing held with
  | nil => exact ⟨by simp [hnil], fun _ h => by simpa using h, trivial⟩
  | cons c cs ih =>
    have hflatten := flatten_parts keep (rest keep (held ++ c)) cs
    rw [parts_cons]
    refine ⟨?_, ?_, ih _⟩
    · rw [hflatten, ← append_assoc, ready_append_rest, hf]
    · rw [hflatten, ← append_assoc, ready_append_rest]
      exact hbom (held ++ c) cs.flatten

lemma Seamed.exists_part (hbom : bom ≠ []) {ps : List (List α)} (hps : Seamed bom f ps)
    (h : bom <+: ps.flatten) :
    ∃ pre p post, ps = pre ++ p :: post ∧ bom <+: p ∧ pre.flatten = [] := by
  induction ps with
  | nil => exact absurd (prefix_nil.mp h) hbom
  | cons p ps ih =>
    obtain ⟨-, hwhole, hps⟩ := hps
    by_cases hp : p = []
    · subst hp
      obtain ⟨pre, q, post, rfl, hq, hpre⟩ := ih hps h
      exact ⟨[] :: pre, q, post, rfl, hq, hpre⟩
    · exact ⟨[], p, ps, rfl, hwhole hp h, rfl⟩

lemma noLateMark_nil_cons {ps : List (List α)} :
    NoLateMark bom ([] :: ps) ↔ NoLateMark bom ps := by
  constructor
  · intro h pre p post hps hp
    have hpre := h ([] :: pre) p post (by rw [hps]; rfl) hp
    simpa using hpre
  · intro h pre p post hps hp
    cases pre with
    | nil => rfl
    | cons q pre =>
      obtain ⟨rfl, htail⟩ := List.cons.inj hps
      simpa using h pre p post htail hp

lemma noLateMark_cons {q : List α} (hq : q ≠ []) {ps : List (List α)} :
    NoLateMark bom (q :: ps) ↔ ∀ p ∈ ps, ¬ bom <+: p := by
  constructor
  · intro h p hp hb
    obtain ⟨pre, post, rfl⟩ := append_of_mem hp
    have hpre := h (q :: pre) p post rfl hb
    rw [flatten_cons] at hpre
    exact hq (append_eq_nil_iff.mp hpre).1
  · intro h pre p post hps hp
    cases pre with
    | nil => rfl
    | cons q' pre =>
      obtain ⟨rfl, rfl⟩ := List.cons.inj hps
      exact absurd hp (h p (by simp))

/-- A part begins with the mark exactly where the mark follows what was processed before. -/
theorem noLateMark_parts_iff (hstable : Stable keep) (hbom : bom ≠ [])
    (hseamed : ∀ held cs, Seamed bom f (parts keep held cs)) (chunks : List (List α)) :
    NoLateMark bom (parts keep [] chunks) ↔
      ∀ cs cs', chunks = cs ++ cs' → bom <+: rest keep cs.flatten ++ cs'.flatten →
        ready keep cs.flatten = [] := by
  constructor
  · rintro h cs cs' rfl hmark
    rw [← left_eq hstable, ← flatten_parts keep] at hmark
    obtain ⟨pre, p, post, hparts, hp, -⟩ := (hseamed _ _).exists_part hbom hmark
    have hpre := h (taken keep [] cs ++ pre) p post
      (by rw [parts_append, hparts, append_assoc]) hp
    rw [flatten_append] at hpre
    rw [← flatten_taken hstable]
    exact (append_eq_nil_iff.mp hpre).1
  · intro h pre p post hparts hp
    obtain ⟨cs, cs', rfl, rfl, hrest⟩ := exists_chunks keep hparts
    rw [flatten_taken hstable]
    refine h cs cs' rfl ?_
    rw [← left_eq hstable, ← flatten_parts keep, ← hrest, flatten_cons]
    exact hp.trans (prefix_append _ _)

variable [DecidableEq α] (bom) in
def strip (bs : List α) : List α := if bom <+: bs then bs.drop bom.length else bs

variable [DecidableEq α] (bom) in
lemma strip_append (bs : List α) : strip bom (bom ++ bs) = bs := by
  rw [strip, if_pos (prefix_append _ _), drop_left]

variable [DecidableEq α]

private lemma length_flatMap_strip_le (hmark : ∀ r, f (bom ++ r) = mark ++ f r) {ps : List (List α)}
    (hps : Seamed bom f ps) :
    (ps.flatMap fun p => f (strip bom p)).length ≤ (f ps.flatten).length := by
  induction ps with
  | nil => simp
  | cons p ps ih =>
    obtain ⟨hcut, -, hps⟩ := hps
    have hp : (f (strip bom p)).length ≤ (f p).length := by
      by_cases hb : bom <+: p
      · obtain ⟨r, rfl⟩ := hb
        rw [strip_append, hmark, length_append]
        exact Nat.le_add_left _ _
      · rw [strip, if_neg hb]
    rw [flatMap_cons, length_append, flatten_cons, hcut, length_append]
    exact Nat.add_le_add hp (ih hps)

private lemma flatMap_strip_eq_flatten_iff (hmark : ∀ r, f (bom ++ r) = mark ++ f r)
    (hne : mark ≠ []) (hnil : f [] = []) {ps : List (List α)} (hps : Seamed bom f ps) :
    (ps.flatMap fun p => f (strip bom p)) = f ps.flatten ↔ ∀ p ∈ ps, ¬ bom <+: p := by
  induction ps with
  | nil => simp [hnil]
  | cons p ps ih =>
    obtain ⟨hcut, -, hps⟩ := hps
    rw [flatMap_cons, flatten_cons, hcut, forall_mem_cons, ← ih hps]
    by_cases hb : bom <+: p
    · refine iff_of_false (fun h => ?_) (fun h => h.1 hb)
      obtain ⟨r, rfl⟩ := hb
      have hle := length_flatMap_strip_le hmark hps
      have hlen := congrArg List.length h
      rw [strip_append, hmark] at hlen
      simp only [length_append] at hlen
      have := length_pos_of_ne_nil hne
      omega
    · rw [strip, if_neg hb, and_iff_right hb, append_right_inj]

/-- The results without marks make up the result without the mark at the beginning if and only if
there is no mark at the beginning of a later part. -/
theorem flatMap_strip_iff (hmark : ∀ r, f (bom ++ r) = mark ++ f r) (hbom : bom ≠ [])
    (hne : mark ≠ []) (hnil : f [] = []) {ps : List (List α)} (hps : Seamed bom f ps) :
    (ps.flatMap fun p => f (strip bom p)) = f (strip bom ps.flatten) ↔ NoLateMark bom ps := by
  have hstrip : strip bom [] = [] := if_neg fun h => hbom (prefix_nil.mp h)
  induction ps with
  | nil =>
    refine iff_of_true (by simp [hstrip, hnil]) fun pre p post h => ?_
    exact absurd h.symm (by simp)
  | cons p ps ih =>
    obtain ⟨hcut, hwhole, hps'⟩ := hps
    rw [flatMap_cons, flatten_cons]
    by_cases hp : p = []
    · subst hp
      rw [hstrip, hnil, nil_append, nil_append, noLateMark_nil_cons]
      exact ih hps'
    · have hsplit : f (strip bom (p ++ ps.flatten)) = f (strip bom p) ++ f ps.flatten := by
        by_cases hb : bom <+: p ++ ps.flatten
        · obtain ⟨r, rfl⟩ := hwhole hp hb
          rw [append_assoc, hmark, hmark, append_assoc, append_right_inj] at hcut
          rw [append_assoc, strip_append, strip_append, hcut]
        · have hb' : ¬ bom <+: p := fun h => hb (h.trans (prefix_append _ _))
          rw [strip, strip, if_neg hb, if_neg hb', hcut]
      rw [hsplit, append_right_inj, flatMap_strip_eq_flatten_iff hmark hne hnil hps',
        noLateMark_cons hp]

end Mark

end Chunks
