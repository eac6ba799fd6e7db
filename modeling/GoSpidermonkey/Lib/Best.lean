import Mathlib

/-!
# The best element of a list

A loop over candidates that remembers the best one so far. A candidate has a score or does not
qualify, and one with a higher score than the best so far takes its place. If no two candidates have
the same score, the outcome is the one candidate with the highest score, in whatever order the loop
comes to them.
-/

namespace Best

variable {α β : Type*} [LinearOrder β] (score : α → Option β)

def consider (best : Option α) (a : α) : Option α :=
  match score a with
  | none => best
  | some s => if ∀ b ∈ best, ∀ t ∈ score b, t < s then some a else best

/-- The element qualifies, and every other one that does has a lower score. -/
def IsBest (p : α → Prop) (a : α) : Prop :=
  p a ∧ ∃ s, score a = some s ∧ ∀ b, p b → b ≠ a → ∀ t, score b = some t → t < s

variable {score}

/-- The best element of the candidates seen so far, or `none` if none qualifies. -/
def BestOf (score : α → Option β) (seen : α → Prop) : Option α → Prop
  | none => ∀ b, seen b → score b = none
  | some a => seen a ∧ ∃ s, score a = some s ∧ ∀ b, seen b → ∀ t, score b = some t → t ≤ s

lemma BestOf.consider {seen : α → Prop} {best : Option α} (h : BestOf score seen best) (a : α) :
    BestOf score (fun b => b = a ∨ seen b) (consider score best a) := by
  unfold Best.consider
  cases hs : score a with
  | none =>
    cases best with
    | none =>
      rintro b (rfl | hb)
      · exact hs
      · exact h b hb
    | some c =>
      obtain ⟨hc, s, hsc, hmax⟩ := h
      refine ⟨.inr hc, s, hsc, ?_⟩
      rintro b (rfl | hb) t ht
      · simp [hs] at ht
      · exact hmax b hb t ht
  | some s =>
    cases best with
    | none =>
      refine ⟨.inl rfl, s, hs, ?_⟩
      rintro b (rfl | hb) t ht
      · exact (Option.some.inj (hs.symm.trans ht)).ge
      · simp [h b hb] at ht
    | some c =>
      obtain ⟨hc, r, hsc, hmax⟩ := h
      by_cases hlt : r < s
      · have hif : ∀ b ∈ some c, ∀ t ∈ score b, t < s := by simpa [hsc] using hlt
        simp only [if_pos hif]
        refine ⟨.inl rfl, s, hs, ?_⟩
        rintro b (rfl | hb) t ht
        · exact (Option.some.inj (hs.symm.trans ht)).ge
        · exact (hmax b hb t ht).trans hlt.le
      · have hif : ¬ ∀ b ∈ some c, ∀ t ∈ score b, t < s := by simpa [hsc] using hlt
        simp only [if_neg hif]
        refine ⟨.inr hc, r, hsc, ?_⟩
        rintro b (rfl | hb) t ht
        · exact (Option.some.inj (hs.symm.trans ht)) ▸ not_lt.mp hlt
        · exact hmax b hb t ht

lemma bestOf_foldl (as : List α) {seen : α → Prop} {best : Option α} (h : BestOf score seen best) :
    BestOf score (fun b => b ∈ as ∨ seen b) (as.foldl (consider score) best) := by
  induction as generalizing seen best with
  | nil => simpa using h
  | cons a as ih =>
    have := ih (h.consider a)
    have hseen : (fun b => b ∈ as ∨ b = a ∨ seen b) = fun b => b ∈ a :: as ∨ seen b := by
      funext b
      simp only [List.mem_cons, eq_iff_iff]
      tauto
    rwa [hseen] at this

/-- The loop over all candidates. -/
theorem bestOf_loop (as : List α) : BestOf score (· ∈ as) (as.foldl (consider score) none) := by
  have hstart : BestOf score (fun _ : α => False) none := fun _ h => h.elim
  simpa using bestOf_foldl as hstart

lemma BestOf.isBest {p : α → Prop} {a : α} (h : BestOf score p (some a))
    (hinj : ∀ a b s, score a = some s → score b = some s → a = b) : IsBest score p a := by
  obtain ⟨ha, s, hs, hmax⟩ := h
  refine ⟨ha, s, hs, fun b hb hne t ht => lt_of_le_of_ne (hmax b hb t ht) ?_⟩
  rintro rfl
  exact hne (hinj b a t ht hs)

lemma IsBest.unique {p : α → Prop} {a b : α} (ha : IsBest score p a) (hb : IsBest score p b) :
    a = b := by
  obtain ⟨hpa, s, hs, hmaxa⟩ := ha
  obtain ⟨hpb, t, ht, hmaxb⟩ := hb
  by_contra hne
  exact lt_asymm (hmaxa b hpb (Ne.symm hne) t ht) (hmaxb a hpa hne s hs)

end Best
