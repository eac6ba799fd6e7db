import Mathlib

/-!
# Recency

The things that were used, from the most recently used one. A new use moves a thing to the front
(`touch`), so the list is sorted by the last uses (`recent_pairwise`). A cache with a capacity that
forgets the least recently used thing holds a beginning of this list: it is enough to touch the
beginning if the thing is there (`take_touch_of_mem`), and to drop its last entry for a thing that
is new (`take_touch_of_notMem`).
-/

namespace Recency

open List

variable {ι : Type*}

/-- There is a use of `x` after all uses of `y`. -/
def UsedAfter (uses : List ι) (x y : ι) : Prop :=
  ∃ pre post, uses = pre ++ x :: post ∧ y ∉ x :: post

lemma UsedAfter.snoc {uses : List ι} {x y z : ι} (h : UsedAfter uses x y) (hz : y ≠ z) :
    UsedAfter (uses ++ [z]) x y := by
  obtain ⟨pre, post, rfl, hy⟩ := h
  refine ⟨pre, post ++ [z], by simp, ?_⟩
  rw [← cons_append, mem_append, mem_singleton]
  exact not_or.mpr ⟨hy, hz⟩

variable [DecidableEq ι]

def touch (r : List ι) (x : ι) : List ι := x :: r.erase x

def recent (uses : List ι) : List ι := uses.foldl touch []

lemma recent_snoc (uses : List ι) (x : ι) : recent (uses ++ [x]) = touch (recent uses) x :=
  foldl_append

lemma touch_of_notMem {r : List ι} {x : ι} (h : x ∉ r) : touch r x = x :: r := by
  rw [touch, erase_of_not_mem h]

lemma nodup_touch {r : List ι} (h : r.Nodup) (x : ι) : (touch r x).Nodup :=
  nodup_cons.mpr ⟨h.not_mem_erase, h.erase x⟩

lemma mem_touch {r : List ι} {x y : ι} : y ∈ touch r x ↔ y = x ∨ y ∈ r := by
  rw [touch, mem_cons]
  refine or_congr_right' fun hne => ?_
  exact mem_erase_of_ne hne

lemma nodup_recent (uses : List ι) : (recent uses).Nodup := by
  induction uses using List.reverseRecOn with
  | nil => exact nodup_nil
  | append_singleton uses x ih =>
    rw [recent_snoc]
    exact nodup_touch ih x

lemma mem_recent {uses : List ι} {x : ι} : x ∈ recent uses ↔ x ∈ uses := by
  induction uses using List.reverseRecOn with
  | nil => rfl
  | append_singleton uses y ih =>
    rw [recent_snoc, mem_touch, ih, mem_append, mem_singleton, or_comm]

/-- The list is sorted by the last uses. -/
theorem recent_pairwise (uses : List ι) : (recent uses).Pairwise (UsedAfter uses) := by
  induction uses using List.reverseRecOn with
  | nil => exact List.Pairwise.nil
  | append_singleton uses z ih =>
    rw [recent_snoc]
    have hne : ∀ y ∈ (recent uses).erase z, y ≠ z := fun y hy =>
      ((nodup_recent uses).mem_erase_iff.mp hy).1
    refine pairwise_cons.mpr ⟨fun y hy => ?_, ?_⟩
    · exact ⟨uses, [], rfl, by simpa using hne y hy⟩
    · refine (ih.sublist erase_sublist).imp_of_mem ?_
      intro x y _ hy h
      exact h.snoc (hne y hy)

lemma usedAfter_of_take {uses : List ι} {n : ℕ} {x y : ι} (hx : x ∈ (recent uses).take n)
    (hy : y ∈ uses) (hout : y ∉ (recent uses).take n) : UsedAfter uses x y := by
  have hpairwise := recent_pairwise uses
  rw [← take_append_drop n (recent uses), pairwise_append] at hpairwise
  refine hpairwise.2.2 x hx y ?_
  have hmem := mem_recent.mpr hy
  rw [← take_append_drop n (recent uses), mem_append] at hmem
  exact hmem.resolve_left hout

/-! ### Beginnings -/

private lemma take_erase {r : List ι} {n : ℕ} {x : ι} (h : x ∈ r.take (n + 1)) :
    (r.erase x).take n = (r.take (n + 1)).erase x := by
  induction r generalizing n with
  | nil => simp at h
  | cons y r ih =>
    rw [take_succ_cons] at h ⊢
    by_cases hy : y = x
    · rw [hy, erase_cons_head, erase_cons_head]
    · have hrest : x ∈ r.take n := (mem_cons.mp h).resolve_left fun h => hy h.symm
      obtain ⟨m, rfl⟩ : ∃ m, n = m + 1 :=
        Nat.exists_eq_succ_of_ne_zero fun hn => by simp [hn] at hrest
      have hne : ¬ (y == x) = true := by simpa using hy
      rw [erase_cons_tail hne, erase_cons_tail hne, take_succ_cons, ih hrest]

lemma take_touch_of_mem {r : List ι} {n : ℕ} {x : ι} (h : x ∈ r.take n) :
    (touch r x).take n = touch (r.take n) x := by
  obtain ⟨m, rfl⟩ : ∃ m, n = m + 1 := Nat.exists_eq_succ_of_ne_zero fun hn => by simp [hn] at h
  rw [touch, touch, take_succ_cons, take_erase h]

lemma take_touch_of_notMem {r : List ι} {x : ι} (n : ℕ) (h : x ∉ r) :
    (touch r x).take (n + 1) = x :: r.take n := by
  rw [touch_of_notMem h, take_succ_cons]

/-! ### Names -/

lemma map_touch {κ : Type*} [DecidableEq κ] {f : ι → κ} {r : List ι} (h : (r.map f).Nodup) {x : ι}
    (hx : x ∈ r) : (touch r x).map f = touch (r.map f) (f x) := by
  obtain ⟨pre, post, rfl⟩ := append_of_mem hx
  rw [map_append, map_cons] at h ⊢
  have hname : f x ∉ pre.map f := fun hmem =>
    (nodup_append.mp h).2.2 (f x) hmem (f x) mem_cons_self rfl
  have hpre : x ∉ pre := fun hmem => hname (mem_map_of_mem hmem)
  rw [touch, touch, erase_append_right _ hpre, erase_append_right _ hname,
    erase_cons_head, erase_cons_head, map_cons, map_append]

end Recency
