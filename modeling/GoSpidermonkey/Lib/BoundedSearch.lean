import Mathlib

/-!
# Depth-first search with a bound on the depth

A search marks the nodes it comes to and never comes to a marked node again, and it expands a node
only if there are levels left. The marks are shared by all branches: a node that is first met below
the last level is marked without being expanded, and is lost for a shorter path that leads to it
later. `search_complete_iff` says which graphs this does not hurt.
-/

namespace BoundedSearch

open List

variable {V : Type*} [DecidableEq V]

def step (visit : V → List V → List V × List V) (r : List V × List V) (w : V) : List V × List V :=
  if w ∈ r.2 then r
  else
    let r' := visit w (w :: r.2)
    (r.1 ++ r'.1, r'.2)

/-- The search from a marked node with so many levels left: the nodes expanded, and the nodes
marked. -/
def search (next : V → List V) : ℕ → V → List V → List V × List V
  | 0, _, seen => ([], seen)
  | l + 1, v, seen => (next v).foldl (step (search next l)) ([v], seen)

/-! ### Paths -/

inductive Trail (next : V → List V) (root : V) : List V → Prop
  | root : Trail next root [root]
  | link {v w : V} {p : List V} (h : Trail next root (v :: p)) (hw : w ∈ next v) :
      Trail next root (w :: v :: p)

/-- A node that a path of at most so many links leads to. -/
def Within (next : V → List V) (root : V) (k : ℕ) (v : V) : Prop :=
  ∃ p, Trail next root (v :: p) ∧ p.length ≤ k

/-- A path of just so many links without repetition leads to the node. -/
def Late (next : V → List V) (root : V) (l : ℕ) (v : V) : Prop :=
  ∃ p, Trail next root (v :: p) ∧ (v :: p).Nodup ∧ p.length = l

omit [DecidableEq V] in
lemma Trail.mono {next next' : V → List V} {root : V} {p : List V} (h : Trail next root p)
    (hsub : ∀ v, next v ⊆ next' v) : Trail next' root p := by
  induction h with
  | root => exact .root
  | link _ hw ih => exact .link ih (hsub _ hw)

variable {next : V → List V} {root : V}

/-! ### What a search has done -/

/-- A search keeps its marks; every new mark is at an expanded node or at a late one. -/
structure Marks (next : V → List V) (root : V) (levels : ℕ) (seen : List V) (r : List V × List V) :
    Prop where
  mono : ∀ w ∈ seen, w ∈ r.2
  new : ∀ w ∈ r.2, w ∈ seen ∨ w ∈ r.1 ∨ Late next root levels w
  within : ∀ u ∈ r.1, ∃ p, Trail next root (u :: p) ∧ p.length < levels

/-- All links of the expanded nodes lead to marked nodes. -/
def Closed (next : V → List V) (r : List V × List V) : Prop := ∀ u ∈ r.1, ∀ w ∈ next u, w ∈ r.2

lemma fold_marks {visit : V → List V → List V × List V} {levels : ℕ} {v : V} {seen ws : List V}
    (hvisit : ∀ w ∈ ws, ∀ seen', (∀ x ∈ seen, x ∈ seen') → w ∉ seen' →
      Marks next root levels (w :: seen') (visit w (w :: seen')) ∧
        Closed next (visit w (w :: seen')) ∧
        (w ∈ (visit w (w :: seen')).1 ∨ Late next root levels w))
    {r : List V × List V} (hr : Marks next root levels seen r)
    (hclosed : ∀ u ∈ r.1, u ≠ v → ∀ w ∈ next u, w ∈ r.2) :
    Marks next root levels seen (ws.foldl (step visit) r) ∧
      (∀ u ∈ (ws.foldl (step visit) r).1, u ≠ v → ∀ w ∈ next u, w ∈ (ws.foldl (step visit) r).2) ∧
      (∀ w, w ∈ ws ∨ w ∈ r.2 → w ∈ (ws.foldl (step visit) r).2) ∧
      ∀ u ∈ r.1, u ∈ (ws.foldl (step visit) r).1 := by
  induction ws generalizing r with
  | nil => exact ⟨hr, hclosed, fun w hw => hw.resolve_left not_mem_nil, fun u hu => hu⟩
  | cons w ws ih =>
    have hvisit' := fun x hx => hvisit x (mem_cons_of_mem w hx)
    by_cases hw : w ∈ r.2
    · have hstep : step visit r w = r := if_pos hw
      rw [foldl_cons, hstep]
      obtain ⟨hm, hc, hdone, hkeep⟩ := ih hvisit' hr hclosed
      refine ⟨hm, hc, fun x hx => hdone x ?_, hkeep⟩
      rcases hx with hx | hx
      · rcases mem_cons.mp hx with rfl | hx
        · exact .inr hw
        · exact .inl hx
      · exact .inr hx
    · obtain ⟨hmarks, hcl, hself⟩ := hvisit w (.head _) r.2 hr.mono hw
      have hstep : step visit r w = (r.1 ++ (visit w (w :: r.2)).1, (visit w (w :: r.2)).2) :=
        if_neg hw
      generalize visit w (w :: r.2) = r' at hmarks hcl hself hstep
      have hr' : Marks next root levels seen (r.1 ++ r'.1, r'.2) := by
        refine ⟨fun x hx => hmarks.mono x (.tail _ (hr.mono x hx)), fun x hx => ?_, fun u hu => ?_⟩
        · rcases hmarks.new x hx with hx | hx | hx
          · rcases mem_cons.mp hx with rfl | hx
            · exact hself.elim (fun h => .inr (.inl (mem_append_right _ h))) fun h => .inr (.inr h)
            · exact (hr.new x hx).imp_right (Or.imp_left (mem_append_left _))
          · exact .inr (.inl (mem_append_right _ hx))
          · exact .inr (.inr hx)
        · exact (mem_append.mp hu).elim (hr.within u) (hmarks.within u)
      have hclosed' : ∀ u ∈ r.1 ++ r'.1, u ≠ v → ∀ x ∈ next u, x ∈ r'.2 := by
        intro u hu hne x hx
        rcases mem_append.mp hu with hu | hu
        · exact hmarks.mono x (.tail _ (hclosed u hu hne x hx))
        · exact hcl u hu x hx
      rw [foldl_cons, hstep]
      obtain ⟨hm, hc, hdone, hkeep⟩ := ih hvisit' hr' hclosed'
      refine ⟨hm, hc, fun x hx => ?_, fun u hu => hkeep u (mem_append_left _ hu)⟩
      rcases hx with hx | hx
      · rcases mem_cons.mp hx with rfl | hx
        · exact hdone x (.inr (hmarks.mono x (.head _)))
        · exact hdone x (.inl hx)
      · exact hdone x (.inr (hmarks.mono x (.tail _ hx)))

lemma search_marks {levels l : ℕ} {v : V} {p seen : List V} (hp : Trail next root (v :: p))
    (hnodup : (v :: p).Nodup) (hlen : p.length + l = levels) (hseen : ∀ x ∈ v :: p, x ∈ seen) :
    Marks next root levels seen (search next l v seen) ∧ Closed next (search next l v seen) ∧
      (v ∈ (search next l v seen).1 ∨ Late next root levels v) := by
  induction l generalizing v p seen with
  | zero =>
    exact ⟨⟨fun w hw => hw, fun w hw => .inl hw, by simp [search]⟩, by simp [Closed, search],
      .inr ⟨p, hp, hnodup, hlen⟩⟩
  | succ l ih =>
    have hvisit : ∀ w ∈ next v, ∀ seen', (∀ x ∈ seen, x ∈ seen') → w ∉ seen' →
        Marks next root levels (w :: seen') (search next l w (w :: seen')) ∧
          Closed next (search next l w (w :: seen')) ∧
          (w ∈ (search next l w (w :: seen')).1 ∨ Late next root levels w) := by
      intro w hw seen' hsub hnot
      refine ih (.link hp hw) ?_ (by simp only [length_cons]; omega) ?_
      · exact nodup_cons.mpr ⟨fun hmem => hnot (hsub w (hseen w hmem)), hnodup⟩
      · intro x hx
        rcases mem_cons.mp hx with rfl | hx
        · exact .head _
        · exact .tail _ (hsub x (hseen x hx))
    have hstart : Marks next root levels seen ([v], seen) := by
      refine ⟨fun w hw => hw, fun w hw => .inl hw, fun u hu => ?_⟩
      rw [mem_singleton.mp hu]
      exact ⟨p, hp, by omega⟩
    obtain ⟨hm, hc, hdone, hkeep⟩ := fold_marks hvisit hstart fun u hu hne =>
      absurd (mem_singleton.mp hu) hne
    refine ⟨hm, fun u hu w hw => ?_, .inl (hkeep v (.head _))⟩
    by_cases huv : u = v
    · exact hdone w (.inl (huv ▸ hw))
    · exact hc u hu huv w hw

/-! ### Nodes that are lost -/

/-- A node is marked and not expanded. -/
def Lost (w : V) (r : List V × List V) : Prop := w ∈ r.2 ∧ w ∉ r.1

lemma fold_lost {visit : V → List V → List V × List V} {w : V}
    (hvisit : ∀ x seen, w ∈ seen → w ≠ x → Lost w (visit x seen)) (ws : List V)
    {r : List V × List V} (hr : Lost w r) : Lost w (ws.foldl (step visit) r) := by
  induction ws generalizing r with
  | nil => exact hr
  | cons x ws ih =>
    refine ih ?_
    by_cases hx : x ∈ r.2
    · rwa [step, if_pos hx]
    · have hne : w ≠ x := fun h => hx (h ▸ hr.1)
      obtain ⟨hmark, hnot⟩ := hvisit x (x :: r.2) (.tail _ hr.1) hne
      rw [step, if_neg hx]
      exact ⟨hmark, fun hmem => (mem_append.mp hmem).elim hr.2 hnot⟩

lemma search_lost {l : ℕ} {v w : V} {seen : List V} (hw : w ∈ seen) (hne : w ≠ v) :
    Lost w (search next l v seen) := by
  induction l generalizing v seen with
  | zero => exact ⟨hw, not_mem_nil⟩
  | succ l ih =>
    exact fold_lost (fun x seen hx hne => ih hx hne) _ ⟨hw, by simpa using hne⟩

/-- If every node of a path has the next one as its first link, the search follows the path. -/
lemma search_path_lost {front : List V} {v w : V} {seen : List V} (hhead : front.head? = some w)
    (hnodup : (front ++ [v]).Nodup) (hseen : ∀ x ∈ front, x ∉ seen)
    (hfirst : ∀ a b, [a, b] <:+: front ++ [v] → (next b).head? = some a) :
    Lost w (search next front.length v seen) := by
  induction front using List.reverseRecOn generalizing v seen with
  | nil => simp at hhead
  | append_singleton front a ih =>
    obtain ⟨rest, hrest⟩ : ∃ rest, next v = a :: rest :=
      head?_eq_some_iff.mp (hfirst a v ⟨front, [], by simp⟩)
    have ha : a ∉ seen := hseen a (by simp)
    have hwv : w ≠ v := by
      rintro rfl
      have hw : w ∈ front ++ [a] := mem_of_mem_head? hhead
      exact (disjoint_of_nodup_append hnodup) hw (.head _)
    have hvisit : Lost w (search next front.length a (a :: seen)) := by
      cases hfront : front with
      | nil =>
        have haw : a = w := by simpa [hfront] using hhead
        exact ⟨haw ▸ .head _, not_mem_nil⟩
      | cons b front' =>
        rw [← hfront]
        refine ih (by simpa [hfront] using hhead) hnodup.of_append_left (fun x hx => ?_)
          fun x y hxy =>
          hfirst x y (hxy.trans ⟨[], [v], by simp⟩)
        have hne : x ≠ a := by
          rintro rfl
          exact (disjoint_of_nodup_append hnodup.of_append_left) hx (.head _)
        exact fun hmem => (mem_cons.mp hmem).elim hne (hseen x (by simp [hx]))
    rw [length_append, length_singleton, search, hrest, foldl_cons]
    refine fold_lost (fun x seen hx hne => search_lost hx hne) _ ?_
    rw [step, if_neg ha]
    exact ⟨hvisit.1, fun hmem => (mem_append.mp hmem).elim (by simpa using hwv) hvisit.2⟩

/-! ### An order that follows a path -/

/-- The node after `v` on a path, which is written with its last node first. -/
def after (v : V) : List V → Option V
  | a :: b :: p => if b = v then some a else after v (b :: p)
  | _ => none

def reorder (next : V → List V) (p : List V) (v : V) : List V :=
  match after v p with
  | some a => a :: (next v).erase a
  | none => next v

lemma after_mem {p : List V} (hp : Trail next root p) {v a : V} (h : after v p = some a) :
    a ∈ next v := by
  induction hp with
  | root => simp [after] at h
  | @link u w p _ hw ih =>
    rw [after] at h
    split_ifs at h with huv
    · rw [← huv, ← Option.some.inj h]
      exact hw
    · exact ih h

lemma reorder_perm {p : List V} (hp : Trail next root p) (v : V) :
    (reorder next p v).Perm (next v) := by
  unfold reorder
  split
  · next h => exact (perm_cons_erase (after_mem hp h)).symm
  · exact .refl _

lemma after_of_infix {p : List V} (hp : p.Nodup) {a b : V} (h : [a, b] <:+: p) :
    after b p = some a := by
  induction p with
  | nil => simp at h
  | cons x p ih =>
    obtain ⟨hx, hp⟩ := nodup_cons.mp hp
    cases p with
    | nil =>
      have := h.length_le
      simp at this
    | cons y p =>
      rw [after]
      rcases infix_cons_iff.mp h with h | h
      · obtain ⟨t, ht⟩ := h
        simp only [cons_append, nil_append, List.cons.injEq] at ht
        rw [if_pos ht.2.1.symm, ht.1]
      · have hne : y ≠ b := by
          rintro rfl
          -- the node would be on the path twice
          obtain ⟨s, t, hst⟩ := h
          cases s with
          | nil =>
            simp only [nil_append, cons_append, List.cons.injEq] at hst
            obtain ⟨rfl, hst⟩ := hst
            exact (nodup_cons.mp hp).1 (hst ▸ .head _)
          | cons z s =>
            simp only [cons_append, append_assoc, nil_append, List.cons.injEq] at hst
            exact (nodup_cons.mp hp).1 (hst.2 ▸ by simp)
        rw [if_neg hne]
        exact ih hp h

omit [DecidableEq V] in
lemma Trail.eq_append {p : List V} (h : Trail next root p) : ∃ front, p = front ++ [root] := by
  induction h with
  | root => exact ⟨[], rfl⟩
  | @link v w p _ _ ih =>
    obtain ⟨front, hfront⟩ := ih
    exact ⟨w :: front, by rw [hfront]; rfl⟩

lemma exists_lost {k : ℕ} {w : V} (h : Late next root (k + 1) w) :
    ∃ next' : V → List V, (∀ v, (next' v).Perm (next v)) ∧
      Lost w (search next' (k + 1) root [root]) := by
  obtain ⟨p, hp, hnodup, hlen⟩ := h
  refine ⟨reorder next (w :: p), reorder_perm hp, ?_⟩
  obtain ⟨front, hfront⟩ := hp.eq_append
  have hk : front.length = k + 1 := by
    have := congrArg List.length hfront
    simp at this
    omega
  rw [← hk]
  rw [hfront] at hnodup
  refine search_path_lost ?_ hnodup (fun x hx hmem => ?_) fun a b hab => ?_
  · cases front with
    | nil => simp at hk
    | cons x front => exact congrArg some (List.cons.inj hfront).1.symm
  · exact (disjoint_of_nodup_append hnodup) hx hmem
  · rw [← hfront] at hab hnodup
    rw [reorder, after_of_infix hnodup hab]
    rfl

/-! ### Completeness -/

lemma search_root (next : V → List V) (root : V) (l : ℕ) :
    Marks next root l [root] (search next l root [root]) ∧ Closed next (search next l root [root]) ∧
      (root ∈ (search next l root [root]).1 ∨ Late next root l root) :=
  search_marks .root (nodup_singleton root) (Nat.zero_add l) fun _ hx => hx

lemma within_of_search {k : ℕ} {v : V} (h : v ∈ (search next (k + 1) root [root]).1) :
    Within next root k v := by
  obtain ⟨hm, -, -⟩ := search_root next root (k + 1)
  obtain ⟨p, hp, hlen⟩ := hm.within v h
  exact ⟨p, hp, Nat.lt_succ_iff.mp hlen⟩

lemma search_of_within {k : ℕ} (hlate : ∀ v, Late next root (k + 1) v → ¬ Within next root k v)
    {v : V}
    (h : Within next root k v) : v ∈ (search next (k + 1) root [root]).1 := by
  obtain ⟨hm, hc, hroot⟩ := search_root next root (k + 1)
  have hroot : root ∈ (search next (k + 1) root [root]).1 :=
    hroot.resolve_right fun hl => hlate root hl ⟨[], .root, Nat.zero_le k⟩
  obtain ⟨p, hp, hlen⟩ := h
  generalize ht : v :: p = t at hp
  induction hp generalizing v p with
  | root => exact (List.cons.inj ht).1 ▸ hroot
  | @link u w q hq hw ih =>
    obtain ⟨rfl, rfl⟩ := List.cons.inj ht
    simp only [length_cons] at hlen
    have hu := ih q (by omega) rfl
    rcases hm.new v (hc u hu v hw) with hseen | hmem | hl
    · exact mem_singleton.mp hseen ▸ hroot
    · exact hmem
    · exact absurd ⟨u :: q, .link hq hw, hlen⟩ (hlate v hl)

/-- In every order of the links the nodes within the bound are expanded, exactly if no late node is
within the bound. -/
theorem search_complete_iff (next : V → List V) (root : V) (k : ℕ) :
    (∀ next' : V → List V, (∀ v, (next' v).Perm (next v)) →
      ∀ v, Within next root k v → v ∈ (search next' (k + 1) root [root]).1) ↔
    ∀ v, Late next root (k + 1) v → ¬ Within next root k v := by
  constructor
  · intro h v hlate hv
    obtain ⟨next', hperm, hlost⟩ := exists_lost hlate
    exact hlost.2 (h next' hperm v hv)
  · intro hlate next' hperm v hv
    have hsub : ∀ v, next v ⊆ next' v := fun v => (hperm v).symm.subset
    have hsub' : ∀ v, next' v ⊆ next v := fun v => (hperm v).subset
    refine search_of_within (fun u hu hw => ?_) ?_
    · obtain ⟨p, hp, hnodup, hlen⟩ := hu
      obtain ⟨q, hq, hqlen⟩ := hw
      exact hlate u ⟨p, hp.mono hsub', hnodup, hlen⟩ ⟨q, hq.mono hsub', hqlen⟩
    · obtain ⟨p, hp, hlen⟩ := hv
      exact ⟨p, hp.mono hsub, hlen⟩

end BoundedSearch
