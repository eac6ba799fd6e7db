import Mathlib

/-!
# A queue that is served again and again

The contents of a first-in first-out queue at every time. Between two services it only grows at its
end; a service takes its head away, and may let it grow. If a queue that is not empty is always
served some time later, then everything that is ever in it gets to its head and is served.
-/

namespace Queue

variable {α : Type*}

/-- A queue in time, and the times at which it is served. -/
structure Served (q : ℕ → List α) (serves : ℕ → Prop) : Prop where
  grows : ∀ n, ¬serves n → q n <+: q (n + 1)
  takes : ∀ n, serves n → ∃ a rest, q n = a :: rest ∧ rest <+: q (n + 1)
  fair : ∀ n, q n ≠ [] → ∃ m, n ≤ m ∧ serves m

variable {q : ℕ → List α} {serves : ℕ → Prop}

lemma Served.prefix_of_quiet (h : Served q serves) {n m : ℕ} (hle : n ≤ m)
    (hquiet : ∀ k, n ≤ k → k < m → ¬serves k) : q n <+: q m := by
  induction m, hle using Nat.le_induction with
  | base => exact List.prefix_rfl
  | succ m hle ih =>
    have hm := ih fun k hk hlt => hquiet k hk (Nat.lt_succ_of_lt hlt)
    exact hm.trans (h.grows m (hquiet m hle (Nat.lt_succ_self m)))

lemma getElem?_of_longer {l l' : List α} (h : l <+: l') {i : ℕ} {a : α} (hi : l[i]? = some a) :
    l'[i]? = some a := by
  obtain ⟨more, rfl⟩ := h
  rw [List.getElem?_append_left (List.getElem?_eq_some_iff.mp hi).1]
  exact hi

/-- Until the next service the queue only grows. -/
lemma Served.next (h : Served q serves) {a : α} {n i : ℕ} (hi : (q n)[i]? = some a) :
    ∃ m, n ≤ m ∧ serves m ∧ (q m)[i]? = some a := by
  classical
  have hne : q n ≠ [] := fun hnil => by simp [hnil] at hi
  obtain ⟨hle, hserve⟩ := Nat.find_spec (h.fair n hne)
  have hprefix := h.prefix_of_quiet hle fun k hk hlt hserves =>
    Nat.find_min (h.fair n hne) hlt ⟨hk, hserves⟩
  exact ⟨_, hle, hserve, getElem?_of_longer hprefix hi⟩

/-- What is in the queue is served. -/
theorem Served.served (h : Served q serves) {a : α} {n : ℕ} (ha : a ∈ q n) :
    ∃ m, n ≤ m ∧ serves m ∧ (q m).head? = some a := by
  obtain ⟨i, hi⟩ := List.mem_iff_getElem?.mp ha
  clear ha
  -- each service brings it one place nearer to the head
  induction i generalizing n with
  | zero =>
    simp only [List.head?_eq_getElem?]
    exact h.next hi
  | succ i ih =>
    obtain ⟨k, hk, hserve, hthere⟩ := h.next hi
    obtain ⟨b, rest, hq, hrest⟩ := h.takes _ hserve
    rw [hq, List.getElem?_cons_succ] at hthere
    obtain ⟨m, hm, hserves, hhead⟩ := ih (getElem?_of_longer hrest hthere)
    exact ⟨m, by omega, hserves, hhead⟩

end Queue
