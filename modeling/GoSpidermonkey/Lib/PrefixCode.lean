import Mathlib

/-!
# Decoding a prefix code

A code gives every letter a word, and no word begins another. A text is decoded from its start: a
word gives its letter, a symbol that begins no word gives an error, and so does a beginning of a
word as far as the text follows one (`Decodes`). A text has at most one decoding
(`Decodes.unique`), the texts decoded without an error are those made of words (`Decodes.eq_words`),
and a text can be cut in front of a symbol that goes on with none of the beginnings it ends in
(`Decodes.append`).
-/

/-- A code in which no word is empty or begins another. -/
structure PrefixCode (α β : Type*) where
  word : α → List β
  word_ne_nil : ∀ a, word a ≠ []
  eq_of_begins : ∀ a b, word a <+: word b → a = b

namespace PrefixCode

open List

variable {α β : Type*} (C : PrefixCode α β)

/-- Some word begins with `p`. -/
def Begins (p : List β) : Prop := ∃ a, p <+: C.word a

/-- Some word begins with `p` and goes on. -/
def Partial (p : List β) : Prop := ∃ a b q, C.word a = p ++ b :: q

/-- The decoding of a text, with `none` for an error. -/
inductive Decodes : List β → List (Option α) → Prop where
  | nil : Decodes [] []
  | word (a : α) {bs : List β} {os : List (Option α)} (h : Decodes bs os) :
      Decodes (C.word a ++ bs) (some a :: os)
  | stray {b : β} {bs : List β} {os : List (Option α)} (hb : ¬ C.Begins [b]) (h : Decodes bs os) :
      Decodes (b :: bs) (none :: os)
  | broken {p bs : List β} {os : List (Option α)} (hp : p ≠ []) (hpart : C.Partial p)
      (hnext : ∀ b ∈ bs.head?, ¬ C.Begins (p ++ [b])) (h : Decodes bs os) :
      Decodes (p ++ bs) (none :: os)

variable {C}

lemma Partial.begins {p : List β} (h : C.Partial p) : C.Begins p := by
  obtain ⟨a, b, q, ha⟩ := h
  exact ⟨a, ha ▸ prefix_append p (b :: q)⟩

lemma Begins.of_append {p q : List β} (h : C.Begins (p ++ q)) : C.Begins p := by
  obtain ⟨a, ha⟩ := h
  exact ⟨a, (prefix_append p q).trans ha⟩

lemma Partial.word_ne {p : List β} (h : C.Partial p) (a : α) : p ≠ C.word a := by
  obtain ⟨a', b, q, ha'⟩ := h
  rintro rfl
  have haa : a = a' := C.eq_of_begins a a' (ha' ▸ prefix_append _ (b :: q))
  subst haa
  simpa using congrArg List.length ha'

lemma Begins.cases {p : List β} (h : C.Begins p) : C.Partial p ∨ ∃ a, p = C.word a := by
  obtain ⟨a, q, ha⟩ := h
  cases q with
  | nil => exact .inr ⟨a, by rw [← ha, append_nil]⟩
  | cons b q => exact .inl ⟨a, b, q, ha.symm⟩

/-! ### Uniqueness -/

/-- A text that begins with `p` and with `p'` begins with one of them and goes on to the other. -/
private lemma begin_or_begin {p p' bs bs' : List β} (h : p ++ bs = p' ++ bs') :
    (∃ q, p' = p ++ q ∧ bs = q ++ bs') ∨ ∃ q, p = p' ++ q ∧ bs' = q ++ bs := by
  rcases append_eq_append_iff.mp h with ⟨q, hp', hbs⟩ | ⟨q, hp, hbs⟩
  · exact .inl ⟨q, hp', hbs⟩
  · exact .inr ⟨q, hp, hbs⟩

private lemma broken_unique {p p' bs bs' : List β} (h : p ++ bs = p' ++ bs')
    (hbegins : C.Begins p') (hnext : ∀ b ∈ bs.head?, ¬ C.Begins (p ++ [b]))
    (hle : p.length ≤ p'.length) : p = p' ∧ bs = bs' := by
  obtain ⟨q, rfl, rfl⟩ : ∃ q, p' = p ++ q ∧ bs = q ++ bs' := by
    rcases begin_or_begin h with h | ⟨q, rfl, rfl⟩
    · exact h
    · have hq : q = [] := by
        rw [length_append] at hle
        exact eq_nil_of_length_eq_zero (by omega)
      exact ⟨[], by simp [hq], by simp [hq]⟩
  cases q with
  | nil => simp
  | cons b q =>
    refine absurd ?_ (hnext b rfl)
    rw [← singleton_append, ← append_assoc] at hbegins
    exact hbegins.of_append

private lemma word_append_ne_stray {a : α} {b : β} {bs bs' : List β} (hb : ¬ C.Begins [b]) :
    C.word a ++ bs ≠ b :: bs' := by
  intro heq
  obtain ⟨c, q, hq⟩ := exists_cons_of_ne_nil (C.word_ne_nil a)
  rw [hq] at heq
  obtain ⟨rfl, -⟩ := List.cons.inj heq
  exact hb ⟨a, q, hq.symm⟩

private lemma word_append_ne_broken {a : α} {p bs bs' : List β} (hpart : C.Partial p)
    (hnext : ∀ b ∈ bs'.head?, ¬ C.Begins (p ++ [b])) : C.word a ++ bs ≠ p ++ bs' := by
  intro heq
  rcases begin_or_begin heq with ⟨q, hq, -⟩ | ⟨q, hq, rfl⟩
  · -- the word would begin the word that goes on after `p`
    obtain ⟨a', b, q', ha'⟩ := hpart
    obtain rfl : a = a' := C.eq_of_begins a a' ⟨q ++ b :: q', by rw [ha', hq, append_assoc]⟩
    have hlen := congrArg List.length ha'
    simp [hq] at hlen
  · cases q with
    | nil => exact hpart.word_ne a (by simpa using hq.symm)
    | cons b q => exact hnext b rfl ⟨a, q, by simp [hq]⟩

private lemma stray_ne_broken {b : β} {p bs bs' : List β} (hb : ¬ C.Begins [b]) (hp : p ≠ [])
    (hpart : C.Partial p) : b :: bs ≠ p ++ bs' := by
  intro heq
  obtain ⟨c, q, rfl⟩ := exists_cons_of_ne_nil hp
  obtain ⟨rfl, -⟩ := List.cons.inj heq
  exact hb (Begins.of_append (q := q) hpart.begins)

theorem Decodes.unique {bs : List β} {os os' : List (Option α)} (h : C.Decodes bs os)
    (h' : C.Decodes bs os') : os = os' := by
  induction h generalizing os' with
  | nil =>
    generalize heq : ([] : List β) = bs at h'
    cases h' with
    | nil => rfl
    | word a _ => exact absurd (append_eq_nil_iff.mp heq.symm).1 (C.word_ne_nil a)
    | stray _ _ => cases heq
    | broken hp _ _ _ => exact absurd (append_eq_nil_iff.mp heq.symm).1 hp
  | @word a bs os _ ih =>
    generalize heq : C.word a ++ bs = text at h'
    cases h' with
    | nil => exact absurd (append_eq_nil_iff.mp heq).1 (C.word_ne_nil a)
    | @word a' bs' os' h' =>
      obtain rfl : a = a' := by
        rcases begin_or_begin heq with ⟨q, hq, -⟩ | ⟨q, hq, -⟩
        · exact C.eq_of_begins a a' ⟨q, hq.symm⟩
        · exact (C.eq_of_begins a' a ⟨q, hq.symm⟩).symm
      rw [ih (append_cancel_left heq ▸ h')]
    | stray hb _ => exact absurd heq (word_append_ne_stray hb)
    | broken _ hpart hnext _ => exact absurd heq (word_append_ne_broken hpart hnext)
  | stray hb _ ih =>
    generalize heq : _ :: _ = text at h'
    cases h' with
    | nil => cases heq
    | word a _ => exact absurd heq.symm (word_append_ne_stray hb)
    | stray _ h' =>
      obtain ⟨rfl, rfl⟩ := List.cons.inj heq
      rw [ih h']
    | broken hp hpart _ _ => exact absurd heq (stray_ne_broken hb hp hpart)
  | @broken p bs os hp hpart hnext _ ih =>
    generalize heq : p ++ bs = text at h'
    cases h' with
    | nil => exact absurd (append_eq_nil_iff.mp heq).1 hp
    | word a _ => exact absurd heq.symm (word_append_ne_broken hpart hnext)
    | stray hb _ => exact absurd heq.symm (stray_ne_broken hb hp hpart)
    | @broken p' bs' _ hp' hpart' hnext' h' =>
      obtain ⟨-, rfl⟩ : p = p' ∧ bs = bs' := by
        rcases Nat.le_total p.length p'.length with hle | hle
        · exact broken_unique heq hpart'.begins hnext hle
        · obtain ⟨h₁, h₂⟩ := broken_unique heq.symm hpart.begins hnext' hle
          exact ⟨h₁.symm, h₂.symm⟩
      rw [ih h']

/-! ### Words and cuts -/

lemma decodes_words (as : List α) : C.Decodes (as.flatMap C.word) (as.map some) := by
  induction as with
  | nil => exact .nil
  | cons a as ih => exact .word a ih

lemma Decodes.eq_words {bs : List β} {os : List (Option α)} (h : C.Decodes bs os)
    (hos : none ∉ os) : ∃ as : List α, os = as.map some ∧ bs = as.flatMap C.word := by
  induction h with
  | nil => exact ⟨[], rfl, rfl⟩
  | word a _ ih =>
    obtain ⟨as, rfl, rfl⟩ := ih fun h => hos (mem_cons_of_mem _ h)
    exact ⟨a :: as, rfl, rfl⟩
  | stray _ _ _ | broken _ _ _ _ _ => exact absurd mem_cons_self hos

/-- A text can be cut in front of a symbol that continues no beginning of a word it ends in. -/
theorem Decodes.append {bs bs' : List β} {os os' : List (Option α)} (h : C.Decodes bs os)
    (hcut : ∀ p b, p ≠ [] → p <:+ bs → b ∈ bs'.head? → ¬ C.Begins (p ++ [b]))
    (h' : C.Decodes bs' os') : C.Decodes (bs ++ bs') (os ++ os') := by
  induction h with
  | nil => exact h'
  | word a _ ih =>
    rw [append_assoc]
    exact .word a (ih fun p b hp hsuffix => hcut p b hp (hsuffix.trans (suffix_append _ _)))
  | stray hb _ ih =>
    exact .stray hb (ih fun p b hp hsuffix => hcut p b hp (hsuffix.trans (suffix_cons _ _)))
  | @broken p bs os hp hpart hnext _ ih =>
    rw [append_assoc]
    refine .broken hp hpart (fun b hb => ?_)
      (ih fun p b hp hsuffix => hcut p b hp (hsuffix.trans (suffix_append _ _)))
    cases bs with
    | nil => exact hcut p b hp (by simp) hb
    | cons c bs => exact hnext b hb

end PrefixCode
