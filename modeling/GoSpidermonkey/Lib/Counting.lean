import Mathlib

/-!
# Counting entries of a table

A table is a function on the naturals of which the first `n` entries are in use. The number of those
with a property is `Nat.count`; the lemmas say how it moves when one entry changes, and when a
smaller property is as frequent as a larger one. For a table that is a list, `filterMap_set` says
how what its entries hold moves when one of them changes.
-/

namespace Counting

open List

section

variable {α : Type*} (p : α → Prop) [DecidablePred p] (f : ℕ → α) (x : α)

/-- The first `n` entries do not see a change beyond them. -/
lemma count_update_of_le {n k : ℕ} (hk : n ≤ k) :
    Nat.count (fun i => p (Function.update f k x i)) n = Nat.count (fun i => p (f i)) n := by
  induction n with
  | zero => simp
  | succ n ih =>
    rw [Nat.count_succ, Nat.count_succ, ih (by omega), Function.update_of_ne (by omega)]

lemma count_update {n k : ℕ} (hk : k < n) :
    Nat.count (fun i => p (Function.update f k x i)) n + (if p (f k) then 1 else 0) =
      Nat.count (fun i => p (f i)) n + (if p x then 1 else 0) := by
  induction n with
  | zero => omega
  | succ n ih =>
    rw [Nat.count_succ, Nat.count_succ]
    rcases Nat.lt_succ_iff_lt_or_eq.mp hk with hlt | rfl
    · rw [Function.update_of_ne (by omega)]
      omega
    · rw [count_update_of_le p f x le_rfl, Function.update_self]
      omega

lemma count_update_last {n : ℕ} :
    Nat.count (fun i => p (Function.update f n x i)) (n + 1) =
      Nat.count (fun i => p (f i)) n + (if p x then 1 else 0) := by
  rw [Nat.count_succ, count_update_of_le p f x le_rfl, Function.update_self]

end

/-- As many entries have both properties as have the first one exactly if the first one implies the
second one. -/
lemma count_and_eq_iff {p q : ℕ → Prop} [DecidablePred p] [DecidablePred q] {n : ℕ} :
    Nat.count p n = Nat.count (fun i => p i ∧ q i) n ↔ ∀ i < n, p i → q i := by
  induction n with
  | zero => simp
  | succ n ih =>
    have hle : Nat.count (fun i => p i ∧ q i) n ≤ Nat.count p n :=
      Nat.count_mono_left fun _ _ h => h.1
    rw [Nat.count_succ, Nat.count_succ, Nat.forall_lt_succ_right, ← ih]
    by_cases hp : p n
    · by_cases hq : q n
      · simp [hp, hq]
      · rw [if_pos hp, if_neg fun h => hq h.2]
        constructor
        · intro h
          omega
        · rintro ⟨-, h⟩
          exact absurd (h hp) hq
    · simp [hp]

lemma filterMap_set {α β : Type*} (f : α → Option β) {l : List α} {i : ℕ} {x y : α}
    (hx : l[i]? = some x) :
    ((l.set i y).filterMap f : Multiset β) + (f x).toList = l.filterMap f + (f y).toList := by
  induction l generalizing i with
  | nil => simp at hx
  | cons a l ih =>
    cases i with
    | zero =>
      obtain rfl : a = x := by simpa using hx
      simp only [set_cons_zero, filterMap_cons]
      cases f a <;> cases f y <;>
        simp only [Option.toList, Multiset.coe_nil, ← Multiset.cons_coe,
          ← Multiset.singleton_add] <;> abel
    | succ i =>
      have hrest := ih (by simpa using hx)
      simp only [set_cons_succ, filterMap_cons]
      cases f a with
      | none => exact hrest
      | some b =>
        simp only [← Multiset.cons_coe, Multiset.cons_add, hrest]

lemma countP_eraseIdx {α : Type*} (p : α → Bool) {l : List α} {i : ℕ} {a : α}
    (h : l[i]? = some a) : l.countP p = (l.eraseIdx i).countP p + (p a).toNat := by
  obtain ⟨hi, rfl⟩ := List.getElem?_eq_some_iff.mp h
  rw [← (getElem_cons_eraseIdx_perm hi).countP_eq, countP_cons]
  cases p l[i] <;> rfl

end Counting
