import GoSpidermonkey.Fs.MemFS

/-!
# The tree of a file system

The tree exists only in the names of the flat map. `WellFormed` says that the names form one: the
root is a directory, the directory of every other name is there as a directory, and directories have
no data.

The map operations that the methods are made of keep the tree: storing a node whose directory is
there, changing a node without turning a directory into a file, removing a name without entries,
and moving a directory with everything in it to a name outside of it.
-/

open GoSpidermonkey.Path

namespace GoSpidermonkey.Fs

open Finmap

structure WellFormed (m : Nodes) : Prop where
  root : ∃ n, m.lookup root = some n ∧ isDir n.mode
  proper : ∀ k n, m.lookup k = some n → k ≠ Path.root → proper k
  parent : ∀ k n, m.lookup k = some n → k ≠ Path.root →
    ∃ d, m.lookup (dir k) = some d ∧ isDir d.mode
  empty : ∀ k n, m.lookup k = some n → isDir n.mode → n.data = []

namespace WellFormed

variable {m : Nodes}

lemma no_entries (h : WellFormed m) {k p : Bytes} {n : Node} (hp : m.lookup p = some n)
    (hne : p ≠ Path.root) (hk : ∀ d, m.lookup k = some d → isDir d.mode = false) : dir p ≠ k := by
  rintro rfl
  obtain ⟨d, hd, hdir⟩ := h.parent p n hp hne
  simp [hk d hd] at hdir

/-- Storing a node keeps the tree if its directory is there, and if a directory is not replaced by a
file. -/
lemma insert (h : WellFormed m) {k : Bytes} {n : Node} (hk : Path.proper k)
    (hpar : ∃ d, m.lookup (dir k) = some d ∧ isDir d.mode) (hdata : isDir n.mode → n.data = [])
    (hdir : ∀ d, m.lookup k = some d → isDir d.mode → isDir n.mode) :
    WellFormed (m.insert k n) where
  root := by
    obtain ⟨r, hr, hrd⟩ := h.root
    exact ⟨r, by rwa [lookup_insert_of_ne _ (proper_ne_root hk).symm], hrd⟩
  proper := by
    intro j x hj hne
    by_cases hjk : j = k
    · exact hjk ▸ hk
    · exact h.proper j x (by rwa [lookup_insert_of_ne _ hjk] at hj) hne
  parent := by
    intro j x hj hne
    by_cases hjk : j = k
    · subst hjk
      rwa [lookup_insert_of_ne _ (dir_ne_self hk)]
    · rw [lookup_insert_of_ne _ hjk] at hj
      obtain ⟨d, hd, hdd⟩ := h.parent j x hj hne
      by_cases hk' : dir j = k
      · exact ⟨n, by rw [hk', lookup_insert], hdir d (hk' ▸ hd) hdd⟩
      · exact ⟨d, by rwa [lookup_insert_of_ne _ hk'], hdd⟩
  empty := by
    intro j x hj
    by_cases hjk : j = k
    · subst hjk
      rw [lookup_insert, Option.some.injEq] at hj
      exact hj ▸ hdata
    · exact h.empty j x (by rwa [lookup_insert_of_ne _ hjk] at hj)

lemma update (h : WellFormed m) {k : Bytes} {n n' : Node} (hn : m.lookup k = some n)
    (hmode : isDir n'.mode = isDir n.mode) (hdata : isDir n.mode → n'.data = []) :
    WellFormed (m.insert k n') := by
  by_cases hk : k = Path.root
  · subst hk
    obtain ⟨r, hr, hrd⟩ := h.root
    obtain rfl : n = r := by simpa [hn] using hr
    refine ⟨⟨n', lookup_insert _, hmode ▸ hrd⟩, ?_, ?_, ?_⟩
    · intro j x hj hne
      rw [lookup_insert_of_ne _ hne] at hj
      exact h.proper j x hj hne
    · intro j x hj hne
      rw [lookup_insert_of_ne _ hne] at hj
      obtain ⟨d, hd, hdd⟩ := h.parent j x hj hne
      by_cases hroot : dir j = Path.root
      · exact ⟨n', by rw [hroot, lookup_insert], hmode ▸ hrd⟩
      · exact ⟨d, by rwa [lookup_insert_of_ne _ hroot], hdd⟩
    · intro j x hj hx
      by_cases hj' : j = Path.root
      · subst hj'
        rw [lookup_insert, Option.some.injEq] at hj
        exact hj ▸ hdata hrd
      · exact h.empty j x (by rwa [lookup_insert_of_ne _ hj'] at hj) hx
  · refine h.insert (h.proper k n hn hk) (h.parent k n hn hk) (fun hd => hdata (hmode ▸ hd)) ?_
    intro d hd hdd
    obtain rfl : n = d := by simpa [hn] using hd
    exact hmode ▸ hdd

lemma erase (h : WellFormed m) {k : Bytes} (hk : k ≠ Path.root)
    (hno : ∀ p n, m.lookup p = some n → p ≠ Path.root → dir p ≠ k) : WellFormed (m.erase k) := by
  have hsub : ∀ j x, (m.erase k).lookup j = some x → m.lookup j = some x ∧ j ≠ k := by
    intro j x hj
    have hjk : j ≠ k := by
      rintro rfl
      simp [lookup_erase] at hj
    exact ⟨by rwa [lookup_erase_ne hjk] at hj, hjk⟩
  refine ⟨?_, ?_, ?_, ?_⟩
  · obtain ⟨r, hr, hrd⟩ := h.root
    exact ⟨r, by rwa [lookup_erase_ne hk.symm], hrd⟩
  · exact fun j x hj => h.proper j x (hsub j x hj).1
  · intro j x hj hne
    obtain ⟨d, hd, hdd⟩ := h.parent j x (hsub j x hj).1 hne
    exact ⟨d, by rwa [lookup_erase_ne (hno j x (hsub j x hj).1 hne)], hdd⟩
  · exact fun j x hj => h.empty j x (hsub j x hj).1

end WellFormed

/-! ### Moving a subtree -/

/-- The name `x` inside the directory `a`. -/
abbrev under (a x : Bytes) : Bytes := a ++ slash :: x

variable {k p x : Bytes}

lemma isPrefixOf_slash {a : Bytes} : (a ++ [slash]).isPrefixOf p ↔ ∃ x, p = under a x := by
  rw [List.isPrefixOf_iff_prefix]
  constructor
  · rintro ⟨x, rfl⟩
    exact ⟨x, by simp⟩
  · rintro ⟨x, rfl⟩
    exact ⟨x, by simp⟩

lemma under_injective {a y : Bytes} (h : under a x = under a y) : x = y := by
  simpa using h

variable {a b : Bytes} {m : Nodes}

lemma moveEntry_cases (a b : Bytes) (m : Nodes) (p : Bytes) :
    (moveEntry a b m p = m ∧ ∀ x, p = under a x → m.lookup p = none) ∨
      ∃ x n, p = under a x ∧ m.lookup p = some n ∧
        moveEntry a b m p = (m.erase p).insert (under b x) n := by
  cases hm : m.lookup p with
  | none => exact .inl ⟨by simp [moveEntry, hm], fun _ _ => rfl⟩
  | some n =>
    by_cases hp : (a ++ [slash]).isPrefixOf p
    · obtain ⟨x, rfl⟩ := isPrefixOf_slash.mp hp
      exact .inr ⟨x, n, rfl, rfl, by simp [moveEntry, hm, hp]⟩
    · refine .inl ⟨by simp only [moveEntry, hm, if_neg hp], fun x hx => ?_⟩
      exact absurd (isPrefixOf_slash.mpr ⟨x, hx⟩) hp

lemma lookup_move_other (ha : ∀ x, k ≠ under a x) (hb : ∀ x, k ≠ under b x)
    (order : List Bytes) (m : Nodes) :
    (order.foldl (moveEntry a b) m).lookup k = m.lookup k := by
  induction order generalizing m with
  | nil => rfl
  | cons p order ih =>
    rw [List.foldl_cons, ih]
    rcases moveEntry_cases a b m p with ⟨heq, -⟩ | ⟨x, n, rfl, -, heq⟩
    · rw [heq]
    · rw [heq, lookup_insert_of_ne _ (hb x), lookup_erase_ne (ha x)]

lemma lookup_move_old (hne : ∀ y, under b y ≠ under a x) (order : List Bytes) (m : Nodes) :
    (order.foldl (moveEntry a b) m).lookup (under a x) =
      if under a x ∈ order then none else m.lookup (under a x) := by
  induction order generalizing m with
  | nil => rfl
  | cons p order ih =>
    rw [List.foldl_cons, ih]
    rcases moveEntry_cases a b m p with ⟨heq, hnone⟩ | ⟨y, n, rfl, -, heq⟩
    · rw [heq]
      by_cases hp : under a x = p
      · subst hp
        simp [hnone x rfl]
      · simp [hp]
    · rw [heq, lookup_insert_of_ne _ (hne y).symm]
      by_cases hxy : under a x = under a y
      · obtain rfl := under_injective hxy
        simp [lookup_erase]
      · simp [hxy, lookup_erase_ne hxy]

lemma lookup_move_new (hdisj : ∀ x y, under b x ≠ under a y) (x : Bytes) (order : List Bytes)
    (m : Nodes) :
    (order.foldl (moveEntry a b) m).lookup (under b x) =
      if under a x ∈ order then (m.lookup (under a x)).or (m.lookup (under b x))
      else m.lookup (under b x) := by
  induction order generalizing m with
  | nil => rfl
  | cons p order ih =>
    rw [List.foldl_cons, ih]
    rcases moveEntry_cases a b m p with ⟨heq, hnone⟩ | ⟨y, n, rfl, hm, heq⟩
    · rw [heq]
      by_cases hp : under a x = p
      · subst hp
        simp [hnone x rfl]
      · simp [hp]
    · rw [heq]
      by_cases hxy : x = y
      · subst hxy
        have hback : ((m.erase (under a x)).insert (under b x) n).lookup (under a x) = none := by
          rw [lookup_insert_of_ne _ (hdisj x x).symm, lookup_erase]
        simp [hback, hm, lookup_insert]
      · have hne : under a x ≠ under a y := fun h => hxy (under_injective h)
        have hne' : under b x ≠ under b y := fun h => hxy (under_injective h)
        rw [lookup_insert_of_ne _ hne', lookup_erase_ne (hdisj x y),
          lookup_insert_of_ne _ (hdisj y x).symm, lookup_erase_ne hne]
        simp [hne]

/-! ### Names inside a directory -/

lemma ne_under_self (c x : Bytes) : c ≠ under c x := fun h => by
  have := congrArg List.length h
  simp at this

lemma root_ne_under (c x : Bytes) : root ≠ under c x := fun h => by
  have hmem : slash ∈ root := h ▸ by simp
  simp [root, slash, dot] at hmem

lemma eq_under_dir (hk : proper k) : dir k = root ∨ ∃ y, k = under (dir k) y := by
  by_cases h : slash ∈ k
  · obtain ⟨c, y, rfl, hy⟩ := exists_last_slash h
    have hc : proper c := by
      rw [proper_append_slash, Bool.and_eq_true] at hk
      exact hk.1
    exact .inr ⟨y, by rw [dir_append_slash hc hy]⟩
  · exact .inl (dir_of_not_mem h)

/-- A name whose directory lies inside `c`, or is `c`, lies inside `c`. -/
lemma under_of_dir {c : Bytes} (hc : proper c) (hk : proper k)
    (h : dir k = c ∨ ∃ x, dir k = under c x) : ∃ x, k = under c x := by
  rcases eq_under_dir hk with hroot | ⟨y, hy⟩
  · rcases h with h | ⟨x, h⟩
    · exact absurd (h ▸ hroot) (proper_ne_root hc)
    · exact absurd (hroot ▸ h) (root_ne_under c x)
  · rcases h with h | ⟨x, h⟩
    · exact ⟨y, h ▸ hy⟩
    · exact ⟨x ++ slash :: y, by rw [hy, h]; simp⟩

/-- The directory of a name inside `c`, and of the same name inside `e`. -/
lemma dir_under {c e : Bytes} (hc : proper c) (hx : proper (under c x)) (he : proper e) :
    dir (under c x) = c ∧ dir (under e x) = e ∨
      ∃ y, y.length < x.length ∧ dir (under c x) = under c y ∧ dir (under e x) = under e y := by
  by_cases h : slash ∈ x
  · obtain ⟨y, z, rfl, hz⟩ := exists_last_slash h
    have hassoc : ∀ d : Bytes, under d (y ++ slash :: z) = under d y ++ slash :: z := by simp
    have hcy : proper (under c y) := by
      rw [hassoc, proper_append_slash, Bool.and_eq_true] at hx
      exact hx.1
    have hey : proper (under e y) := by
      rw [proper_append_slash, Bool.and_eq_true] at hcy ⊢
      exact ⟨he, hcy.2⟩
    refine .inr ⟨y, by simp, ?_, ?_⟩
    · rw [hassoc, dir_append_slash hcy hz]
    · rw [hassoc, dir_append_slash hey hz]
  · exact .inl ⟨dir_append_slash hc h, dir_append_slash he h⟩

lemma WellFormed.above (h : WellFormed m) {n : Node} (hb : Path.proper b)
    (hn : m.lookup (under b x) = some n) : ∃ d, m.lookup b = some d ∧ isDir d.mode := by
  -- by induction on the length of the name inside: the directory has a shorter one
  induction hlen : x.length using Nat.strong_induction_on generalizing x n with
  | _ len ih =>
    have hne := (root_ne_under b x).symm
    obtain ⟨d, hd, hdd⟩ := h.parent _ n hn hne
    have hp := h.proper _ n hn hne
    rcases dir_under hb hp hb with ⟨hdir, -⟩ | ⟨y, hlt, hdir, -⟩
    · exact ⟨d, hdir ▸ hd, hdd⟩
    · exact ih y.length (hlen ▸ hlt) (hdir ▸ hd) rfl

/-! ### Renaming a directory -/

/-- What is left of `m` once the directory `a` with the node `n`, and everything in it, is at
`b`. -/
structure MovedTo (m : Nodes) (a b : Bytes) (n : Node) (m' : Nodes) : Prop where
  old : m'.lookup a = none
  inOld : ∀ x, m'.lookup (under a x) = none
  new : m'.lookup b = some n
  inNew : ∀ x, m'.lookup (under b x) = m.lookup (under a x)
  other : ∀ k, k ≠ a → k ≠ b → (∀ x, k ≠ under a x) → (∀ x, k ≠ under b x) →
    m'.lookup k = m.lookup k

section

variable {n : Node} (h : WellFormed m) (ha : Path.proper a) (hb : Path.proper b)
variable (hn : m.lookup a = some n) (hdir : isDir n.mode)
variable (htarget : ∀ t, m.lookup b = some t → isDir t.mode = false)
variable (hout : ∀ x, b ≠ under a x)

include h hb htarget in
lemma no_names_under (x : Bytes) : m.lookup (under b x) = none := by
  by_contra hne
  obtain ⟨t, ht⟩ := Option.ne_none_iff_exists'.mp hne
  obtain ⟨d, hd, hdd⟩ := h.above hb ht
  simp [htarget d hd] at hdd

include hn hdir htarget in
lemma old_ne_new : a ≠ b := by
  rintro rfl
  simp [htarget n hn] at hdir

include h hb htarget hn in
lemma old_not_under_new (x : Bytes) : a ≠ under b x := by
  rintro rfl
  simp [no_names_under h hb htarget] at hn

include h hb hn hdir htarget hout in
lemma under_disjoint (x y : Bytes) : under b x ≠ under a y := by
  intro hxy
  have hab := old_ne_new hn hdir htarget
  -- one of the two names continues the other one, with a slash
  rcases List.append_eq_append_iff.mp hxy with ⟨c, hc, hcx⟩ | ⟨c, hc, hcy⟩
  · cases c with
    | nil => exact hab (by simpa using hc)
    | cons s c =>
      obtain rfl : slash = s := by simpa using congrArg List.head? hcx
      exact old_not_under_new h hb hn htarget c hc
  · cases c with
    | nil => exact hab (by simpa using hc.symm)
    | cons s c =>
      obtain rfl : slash = s := by simpa using congrArg List.head? hcy
      exact hout c hc

include h hb hn hdir htarget hout in
lemma movedTo_foldl {order : List Bytes}
    (horder : ∀ k ∈ ((m.erase a).insert b n).keys, k ∈ order) :
    MovedTo m a b n (order.foldl (moveEntry a b) ((m.erase a).insert b n)) := by
  have hab := old_ne_new hn hdir htarget
  have hdisj := under_disjoint h hb hn hdir htarget hout
  have hinb := no_names_under h hb htarget
  have hnota := old_not_under_new h hb hn htarget
  have hinOld : ∀ x, ((m.erase a).insert b n).lookup (under a x) = m.lookup (under a x) := by
    intro x
    rw [lookup_insert_of_ne _ (hout x).symm, lookup_erase_ne (ne_under_self a x).symm]
  have hinNew : ∀ x, ((m.erase a).insert b n).lookup (under b x) = none := by
    intro x
    rw [lookup_insert_of_ne _ (ne_under_self b x).symm, lookup_erase_ne (hnota x).symm,
      hinb]
  have hvisited : ∀ x, under a x ∉ order → m.lookup (under a x) = none := by
    intro x hx
    by_contra hne
    rw [← hinOld] at hne
    have hmem := mem_iff.mpr (Option.ne_none_iff_exists'.mp hne)
    exact hx (horder _ (mem_keys.mpr hmem))
  refine ⟨?_, fun x => ?_, ?_, fun x => ?_, fun k hka hkb hua hub => ?_⟩
  · rw [lookup_move_other (ne_under_self a) hnota, lookup_insert_of_ne _ hab,
      lookup_erase]
  · rw [lookup_move_old fun y => hdisj y _, hinOld]
    split
    · rfl
    · exact hvisited x ‹_›
  · rw [lookup_move_other hout (ne_under_self b), lookup_insert]
  · rw [lookup_move_new hdisj, hinOld, hinNew]
    split
    · exact Option.or_none
    · exact (hvisited x ‹_›).symm
  · rw [lookup_move_other hua hub, lookup_insert_of_ne _ hkb, lookup_erase_ne hka]

include h ha hb hdir htarget hout in
lemma WellFormed.of_movedTo {m' : Nodes} (hm : MovedTo m a b n m')
    (hn : m.lookup a = some n) (hpar : ∃ d, m.lookup (dir b) = some d ∧ isDir d.mode) :
    WellFormed m' := by
  have hinb := no_names_under h hb htarget
  -- a directory above a name that stays is one that stays
  have hdirStays : ∀ k d, Path.proper k → (∀ x, k ≠ under a x) → m.lookup (dir k) = some d →
      isDir d.mode → m'.lookup (dir k) = some d := by
    intro k d hk hka hd hdd
    rw [hm.other (dir k), hd]
    · rintro heq
      obtain ⟨x, hx⟩ := under_of_dir ha hk (.inl heq)
      exact hka x hx
    · intro heq
      simp [htarget d (heq ▸ hd)] at hdd
    · intro x heq
      obtain ⟨y, hy⟩ := under_of_dir ha hk (.inr ⟨x, heq⟩)
      exact hka y hy
    · intro x heq
      rw [heq, hinb] at hd
      cases hd
  -- every name is the new one, inside it, or one that stays
  have hcases : ∀ k x, m'.lookup k = some x →
      k = b ∧ x = n ∨ (∃ y, k = under b y ∧ m.lookup (under a y) = some x) ∨
        (∀ y, k ≠ under a y) ∧ m.lookup k = some x := by
    intro k x hk
    by_cases hkb : k = b
    · subst hkb
      exact .inl ⟨rfl, by simpa [hm.new] using hk.symm⟩
    · by_cases hub : ∃ y, k = under b y
      · obtain ⟨y, rfl⟩ := hub
        exact .inr (.inl ⟨y, rfl, by rwa [hm.inNew] at hk⟩)
      · have hka : k ≠ a := by
          rintro rfl
          simp [hm.old] at hk
        have hua : ∀ y, k ≠ under a y := by
          rintro y rfl
          simp [hm.inOld] at hk
        refine .inr (.inr ⟨hua, ?_⟩)
        rwa [hm.other k hka hkb hua fun y hy => hub ⟨y, hy⟩] at hk
  refine ⟨?_, fun k x hk hne => ?_, fun k x hk hne => ?_, fun k x hk => ?_⟩
  · obtain ⟨r, hr, hrd⟩ := h.root
    refine ⟨r, ?_, hrd⟩
    rw [hm.other _ (proper_ne_root ha).symm (proper_ne_root hb).symm (root_ne_under a)
      (root_ne_under b), hr]
  · rcases hcases k x hk with ⟨rfl, -⟩ | ⟨y, rfl, hy⟩ | ⟨-, hk'⟩
    · exact hb
    · have hp := h.proper _ x hy (root_ne_under a y).symm
      rw [proper_append_slash, Bool.and_eq_true] at hp ⊢
      exact ⟨hb, hp.2⟩
    · exact h.proper k x hk' hne
  · rcases hcases k x hk with ⟨rfl, -⟩ | ⟨y, rfl, hy⟩ | ⟨hka, hk'⟩
    · obtain ⟨d, hd, hdd⟩ := hpar
      exact ⟨d, hdirStays k d hb hout hd hdd, hdd⟩
    · have hnr := (root_ne_under a y).symm
      rcases dir_under ha (h.proper _ x hy hnr) hb with ⟨-, hbdir⟩ | ⟨z, -, hadir, hbdir⟩
      · exact ⟨n, by rw [hbdir, hm.new], hdir⟩
      · obtain ⟨d, hd, hdd⟩ := h.parent _ x hy hnr
        exact ⟨d, by rw [hbdir, hm.inNew, ← hadir, hd], hdd⟩
    · obtain ⟨d, hd, hdd⟩ := h.parent k x hk' hne
      exact ⟨d, hdirStays k d (h.proper k x hk' hne) hka hd hdd, hdd⟩
  · rcases hcases k x hk with ⟨-, rfl⟩ | ⟨y, rfl, hy⟩ | ⟨-, hk'⟩
    · exact h.empty a x hn
    · exact h.empty _ x hy
    · exact h.empty k x hk'

end

end GoSpidermonkey.Fs
