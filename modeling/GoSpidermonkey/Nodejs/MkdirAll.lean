import GoSpidermonkey.Fs.Listing
import GoSpidermonkey.Nodejs.Files

/-!
# Recursive mkdir

`opFSMkdir` does not call `MkdirAll`: it goes through the names on the way itself, and takes an
"already exists" for granted. Both functions make the missing directories from the top down
(`Grown`), and both stop at a file on the way. They differ at the name itself: a file there stops
`MkdirAll`, and is passed over by `opFSMkdir`, which then reports success.
-/

open GoSpidermonkey.Path GoSpidermonkey.Fs

namespace GoSpidermonkey.Nodejs

open List

variable {fs fs₁ fs' : MemFS} {a q : Bytes}

/-! ### Names on the way -/

/-- There is a file at the name. -/
def IsFileAt (m : Nodes) (name : Bytes) : Prop := (m.lookup name).any fun n => !isDir n.mode

instance (m : Nodes) (name : Bytes) : Decidable (IsFileAt m name) :=
  inferInstanceAs (Decidable (_ = true))

lemma isFileAt_iff {m : Nodes} {name : Bytes} :
    IsFileAt m name ↔ ∃ n, m.lookup name = some n ∧ isDir n.mode = false := by
  simp [IsFileAt, Option.any_eq_true]

/-- A file is on the way to the name, or at it. -/
def Blocked (m : Nodes) (q : Bytes) : Prop := ∃ a, Within a q ∧ IsFileAt m a

lemma within_root (h : Within a root) : a = root := by
  rcases within_iff.mp h with rfl | ⟨x, hx⟩
  · rfl
  · exact absurd hx (root_ne_under a x)

/-- A name on the way to `q` is `q` itself or on the way to its directory. -/
lemma within_dir (hq : proper q) (h : Within a q) : a = q ∨ Within a (dir q) := by
  rcases within_iff.mp h with rfl | ⟨x, rfl⟩
  · exact .inl rfl
  · have ha : proper a := by
      rw [proper_append_slash, Bool.and_eq_true] at hq
      exact hq.1
    rcases dir_under ha hq ha with ⟨hdir, -⟩ | ⟨y, -, hdir, -⟩
    · exact .inr (within_iff.mpr (.inl hdir))
    · exact .inr (within_iff.mpr (.inr ⟨y, hdir⟩))

/-- A name on the way to the directory of `q` is on the way to `q`, or the root. -/
lemma within_of_dir (hq : proper q) (h : Within a (dir q)) : Within a q ∨ a = root := by
  rcases eq_dir_append_base hq with ⟨hdir, -⟩ | ⟨-, heq, -⟩
  · exact .inr (within_root (hdir ▸ h))
  · refine .inl (within_iff.mpr (.inr ?_))
    rw [heq]
    rcases within_iff.mp h with h | ⟨x, h⟩
    · exact ⟨base q, by rw [h]⟩
    · exact ⟨x ++ slash :: base q, by rw [h]; simp⟩

/-- A name is right below the root, or below its directory. -/
lemma proper_induction {P : ∀ q, proper q → Prop}
    (top : ∀ q hq, dir q = root → slash ∉ q → P q hq)
    (below : ∀ q hq hdir, q = dir q ++ slash :: base q → slash ∉ base q → P (dir q) hdir → P q hq)
    (q : Bytes) (hq : proper q) : P q hq := by
  induction hlen : q.length using Nat.strong_induction_on generalizing q with
  | _ len ih =>
    rcases eq_dir_append_base hq with ⟨hdir, -, hslash⟩ | ⟨hdir, heq, hslash⟩
    · exact top q hq hdir hslash
    · have hshort : (dir q).length < q.length := by
        have := congrArg List.length heq
        simp only [length_append, length_cons] at this
        omega
      exact below q hq hdir heq hslash (ih (dir q).length (hlen ▸ hshort) (dir q) hdir rfl)

lemma not_within_dir (hq : proper q) : ¬ Within q (dir q) := by
  intro h
  have hne := dir_ne_self hq
  rcases within_iff.mp h with hself | ⟨x, hx⟩
  · exact hne hself
  · rcases dir_shorter q with hd | hd | hd
    · exact root_ne_under q x (hd ▸ hx)
    · have hlen := congrArg List.length (hd.symm.trans hx)
      have hpos := length_pos_iff.mpr (proper_ne_nil hq)
      simp only [length_append, length_cons, length_nil] at hlen
      omega
    · rw [hx] at hd
      simp only [length_append, length_cons] at hd
      omega

lemma not_blocked_root (hfs : WellFormed fs.nodes) : ¬ Blocked fs.nodes root := by
  rintro ⟨a, ha, hfile⟩
  obtain ⟨n, hn, hf⟩ := isFileAt_iff.mp hfile
  obtain ⟨r, hr, hrd⟩ := hfs.root
  rw [within_root ha, hr, Option.some.injEq] at hn
  simp [← hn, hrd] at hf

lemma blocked_iff (hfs : WellFormed fs.nodes) (hq : proper q) :
    Blocked fs.nodes q ↔ IsFileAt fs.nodes q ∨ Blocked fs.nodes (dir q) := by
  constructor
  · rintro ⟨a, ha, hfile⟩
    rcases within_dir hq ha with rfl | hin
    · exact .inl hfile
    · exact .inr ⟨a, hin, hfile⟩
  · rintro (hfile | ⟨a, ha, hfile⟩)
    · exact ⟨q, .inl rfl, hfile⟩
    · rcases within_of_dir hq ha with hin | rfl
      · exact ⟨a, hin, hfile⟩
      · exact absurd ⟨root, .inl rfl, hfile⟩ (not_blocked_root hfs)

lemma not_blocked_dir (hfs : WellFormed fs.nodes) {n : Node} (hq : proper q)
    (hn : fs.nodes.lookup q = some n) : ¬ Blocked fs.nodes (dir q) := by
  rintro ⟨a, ha, hfile⟩
  obtain ⟨f, hf, hff⟩ := isFileAt_iff.mp hfile
  obtain ⟨d, hd, hdd⟩ : ∃ d, fs.nodes.lookup a = some d ∧ isDir d.mode := by
    obtain ⟨d, hd, hdd⟩ := hfs.parent q n hn (proper_ne_root hq)
    rcases within_iff.mp ha with h | ⟨x, h⟩
    · exact ⟨d, h ▸ hd, hdd⟩
    · rw [h] at hd
      have hunder := hfs.proper _ d hd (root_ne_under a x).symm
      rw [proper_append_slash, Bool.and_eq_true] at hunder
      exact hfs.above hunder.1 hd
  rw [hf, Option.some.injEq] at hd
  simp [← hd, hff] at hdd

/-! ### Making the directories -/

/-- Some of the names on the way to `q` have been made, and nothing else has changed. -/
structure Grown (fs fs' : MemFS) (q : Bytes) : Prop where
  tree : WellFormed fs'.nodes
  kept : ∀ k n, fs.nodes.lookup k = some n → fs'.nodes.lookup k = some n
  only : ∀ k n, fs'.nodes.lookup k = some n → fs.nodes.lookup k = some n ∨ Within k q

/-- All names on the way to `q`, and `q`, are directories. -/
def Reached (m : Nodes) (q : Bytes) : Prop := ∀ a, Within a q → IsDirAt m a

lemma grown_root (hfs : WellFormed fs.nodes) : Grown fs fs root ∧ Reached fs.nodes root := by
  refine ⟨⟨hfs, fun _ _ h => h, fun _ _ h => .inl h⟩, fun a ha => ?_⟩
  rw [within_root ha]
  exact isDirAt_iff.mpr hfs.root

variable (h : Grown fs fs₁ (dir q)) (hr : Reached fs₁.nodes (dir q)) (hfs : WellFormed fs.nodes)
  (hq : proper q)

include h hfs hq in
lemma Grown.weaken : Grown fs fs₁ q where
  tree := h.tree
  kept := h.kept
  only k n hk := by
    rcases h.only k n hk with hold | hin
    · exact .inl hold
    · rcases within_of_dir hq hin with hin | rfl
      · exact .inr hin
      · obtain ⟨r, hr, -⟩ := hfs.root
        rw [h.kept _ r hr] at hk
        exact .inl (hr.trans hk)

include hq in
lemma mkdir_of_some {n : Node} (hn : fs.nodes.lookup q = some n) (mode : FileMode)
    (now : ℤ) : fs.mkdir q mode now = (.error ⟨str "mkdir", q, .exist⟩, fs) := by
  simp [MemFS.mkdir, validPath_of_proper hq, proper_ne_root hq, Finmap.mem_of_lookup_eq_some hn]

include h hr hfs hq in
lemma mkdir_grown (hfree : fs₁.nodes.lookup q = none) (mode : FileMode) (now : ℤ) :
    ∃ fs', fs₁.mkdir q mode now = (.ok (), fs') ∧ Grown fs fs' q ∧
      Reached fs'.nodes q := by
  let made : Node := ⟨fs₁.nextIno, [], modeDir ||| perm mode, now⟩
  have hmem : q ∉ fs₁.nodes := Finmap.lookup_eq_none.mp hfree
  have hpar : fs₁.checkParent (str "mkdir") q = .ok () :=
    MemFS.checkParent_eq_ok.mpr (isDirAt_iff.mp (hr _ (.inl rfl)))
  have heq : fs₁.mkdir q mode now = (.ok (), ⟨fs₁.nodes.insert q made, fs₁.nextIno + 1⟩) := by
    simp [MemFS.mkdir, validPath_of_proper hq, proper_ne_root hq, hmem, hpar, made]
  have htree := h.tree.mkdir q mode now
  rw [heq] at htree
  have hw := h.weaken hfs hq
  refine ⟨_, heq, ⟨htree, fun k n hk => ?_, fun k n hk => ?_⟩, fun a ha => ?_⟩
  · have hk₁ := h.kept k n hk
    have hne : k ≠ q := by
      rintro rfl
      simp [hfree] at hk₁
    simpa [Finmap.lookup_insert_of_ne _ hne] using hk₁
  · by_cases hkq : k = q
    · exact .inr (.inl hkq.symm)
    · rw [Finmap.lookup_insert_of_ne _ hkq] at hk
      exact hw.only k n hk
  · by_cases haq : a = q
    · exact isDirAt_iff.mpr ⟨made, by rw [haq, Finmap.lookup_insert], isDir_mkdir mode⟩
    · obtain ⟨d, hd, hdd⟩ := isDirAt_iff.mp (hr a ((within_dir hq ha).resolve_left haq))
      exact isDirAt_iff.mpr ⟨d, by rwa [Finmap.lookup_insert_of_ne _ haq], hdd⟩

include hr hq in
lemma Reached.of_dir (h : IsDirAt fs₁.nodes q) : Reached fs₁.nodes q := by
  intro a ha
  rcases within_dir hq ha with rfl | hin
  · exact h
  · exact hr a hin

include h hq in
lemma Grown.lookup_iff {n : Node} :
    fs₁.nodes.lookup q = some n ↔ fs.nodes.lookup q = some n := by
  constructor
  · intro hn
    rcases h.only q n hn with hold | hin
    · exact hold
    · exact absurd hin (not_within_dir hq)
  · exact h.kept q n

lemma isDirAt_of_not_file {m : Nodes} {n : Node} (hn : m.lookup q = some n)
    (hfile : ¬ IsFileAt m q) : IsDirAt m q := by
  simpa [IsFileAt, IsDirAt, hn] using hfile

/-! ### `MkdirAll` -/

include h hr hfs hq in
lemma mkdirLast_spec (mode : FileMode) (now : ℤ) :
    (¬ IsFileAt fs.nodes q → ∃ fs', fs₁.mkdirLast q mode now = (.ok (), fs') ∧ Grown fs fs' q ∧
      Reached fs'.nodes q) ∧
    (IsFileAt fs.nodes q → ∃ e fs', fs₁.mkdirLast q mode now = (.error e, fs')) := by
  cases hn : fs₁.nodes.lookup q with
  | none =>
    obtain ⟨fs', heq, hg, hr'⟩ := mkdir_grown h hr hfs hq hn mode now
    refine ⟨fun _ => ⟨fs', by rw [MemFS.mkdirLast, heq], hg, hr'⟩, fun hfile => ?_⟩
    obtain ⟨n, hold, -⟩ := isFileAt_iff.mp hfile
    simp [(h.lookup_iff hq).mpr hold] at hn
  | some n =>
    have hold := (h.lookup_iff hq).mp hn
    refine ⟨fun hfile => ?_, fun hfile => ?_⟩
    · have hdir : isDir n.mode := by simpa [IsDirAt, hold] using isDirAt_of_not_file hold hfile
      refine ⟨fs₁, ?_, h.weaken hfs hq, hr.of_dir hq (isDirAt_iff.mpr ⟨n, hn, hdir⟩)⟩
      simp [MemFS.mkdirLast, mkdir_of_some hq hn, hn, hdir]
    · have hmode : isDir n.mode = false := by simpa [IsFileAt, hold] using hfile
      exact ⟨_, fs₁, by simp [MemFS.mkdirLast, mkdir_of_some hq hn, hn, hmode]; rfl⟩

/-- `MkdirAll` makes the way to a name unless a file blocks it. -/
lemma mkdirAll_spec (hfs : WellFormed fs.nodes) (mode : FileMode) (now : ℤ) (hq : proper q) :
    (¬ Blocked fs.nodes q → ∃ fs', fs.mkdirAll q mode now = (.ok (), fs') ∧ Grown fs fs' q ∧
      Reached fs'.nodes q) ∧
    (Blocked fs.nodes q → ∃ e fs', fs.mkdirAll q mode now = (.error e, fs')) := by
  induction q, hq using proper_induction with
  | top q hq hdir _ =>
    rw [MemFS.mkdirAll_eq, blocked_iff hfs hq]
    simp only [validPath_of_proper hq, not_true_eq_false, if_false, proper_ne_root hq]
    rw [if_pos hdir]
    obtain ⟨hg, hr⟩ := grown_root hfs
    obtain ⟨hok, herr⟩ := mkdirLast_spec (hdir ▸ hg) (hdir ▸ hr) hfs hq mode now
    have hfree : ¬ Blocked fs.nodes (dir q) := hdir ▸ not_blocked_root hfs
    exact ⟨fun hb => hok (not_or.mp hb).1, fun hb => herr (hb.resolve_right hfree)⟩
  | below q hq hdir _ _ ih =>
    obtain ⟨hok, herr⟩ := ih
    rw [MemFS.mkdirAll_eq, blocked_iff hfs hq]
    simp only [validPath_of_proper hq, not_true_eq_false, if_false, proper_ne_root hq]
    rw [if_neg (proper_ne_root hdir)]
    by_cases hb : Blocked fs.nodes (dir q)
    · obtain ⟨e, fs₁, heq₁⟩ := herr hb
      rw [heq₁]
      exact ⟨fun hnot => absurd (.inr hb) hnot, fun _ => ⟨e, fs₁, rfl⟩⟩
    · obtain ⟨fs₁, heq₁, hg, hr⟩ := hok hb
      rw [heq₁]
      obtain ⟨hlast, hfail⟩ := mkdirLast_spec hg hr hfs hq mode now
      exact ⟨fun hnot => hlast (not_or.mp hnot).1, fun hyes => hfail (hyes.resolve_right hb)⟩

/-! ### `opFSMkdir` -/

/-- The names that `opFSMkdir` goes through: `strings.Join(segs[:i+1], "/")` for each `i`. -/
def wayTo (q : Bytes) : List Bytes := (q.splitOn slash).inits.tail.map [slash].intercalate

lemma wayTo_of_not_mem (hq : slash ∉ q) : wayTo q = [q] := by
  simp [wayTo, splitOn_eq_singleton hq]

lemma wayTo_append {x : Bytes} (hx : slash ∉ x) (a : Bytes) :
    wayTo (a ++ slash :: x) = wayTo a ++ [a ++ slash :: x] := by
  have hsplit : (a ++ slash :: x).splitOn slash = a.splitOn slash ++ [x] := by
    rw [splitOn_append_cons_self, splitOn_eq_singleton hx]
  have hlast : [slash].intercalate (a.splitOn slash ++ [x]) = a ++ slash :: x := by
    rw [← hsplit, intercalate_splitOn]
  have hne : (a.splitOn slash).inits ≠ [] := by
    cases a.splitOn slash <;> simp
  rw [wayTo, hsplit, inits_append, tail_append_of_ne_nil hne, map_append, wayTo]
  simp [hlast]

lemma exists_wayTo (q : Bytes) : ∃ ds, wayTo q = ds ++ [q] := by
  by_cases h : slash ∈ q
  · obtain ⟨a, x, rfl, hx⟩ := exists_last_slash h
    exact ⟨wayTo a, wayTo_append hx a⟩
  · exact ⟨[], wayTo_of_not_mem h⟩

open Files (Runtime guestPath outcome_eq_done)

lemma mkdirAll_of_dir {d : Bytes} (hdir : fs.openRead d = .ok .dir) (now : ℤ) (ds : List Bytes) :
    Runtime.mkdirAll now (d :: ds) fs = Runtime.mkdirAll now ds fs := by
  simp [Runtime.mkdirAll, hdir]

lemma mkdirAll_of_not_dir {d : Bytes} (hdir : fs.openRead d ≠ .ok .dir) (now : ℤ)
    (ds : List Bytes) :
    Runtime.mkdirAll now (d :: ds) fs =
      match fs.mkdir d 0o755 now with
      | (.ok (), fs') => Runtime.mkdirAll now ds fs'
      | (.error e, fs') => if e.err = .exist then Runtime.mkdirAll now ds fs'
        else (.error e, fs') := by
  rw [Runtime.mkdirAll]
  split
  · contradiction
  · rfl

lemma mkdirAll_append (now : ℤ) (ds : List Bytes) (q : Bytes) (fs : MemFS) :
    Runtime.mkdirAll now (ds ++ [q]) fs =
      match Runtime.mkdirAll now ds fs with
      | (.error e, fs') => (.error e, fs')
      | (.ok (), fs₁) => Runtime.mkdirAll now [q] fs₁ := by
  induction ds generalizing fs with
  | nil => rfl
  | cons d ds ih =>
    rw [cons_append]
    by_cases hdir : fs.openRead d = .ok .dir
    · rw [mkdirAll_of_dir hdir, mkdirAll_of_dir hdir, ih]
    · rw [mkdirAll_of_not_dir hdir, mkdirAll_of_not_dir hdir]
      rcases fs.mkdir d 0o755 now with ⟨⟨e⟩ | ⟨⟩, fs'⟩
      · by_cases he : e.err = .exist
        · simp only [he, if_true]
          exact ih fs'
        · simp only [he, if_false]
      · exact ih fs'

lemma openRead_eq_dir (hq : proper q) : fs.openRead q = .ok .dir ↔ IsDirAt fs.nodes q := by
  simp only [MemFS.openRead, validPath_of_proper hq, not_true_eq_false, if_false, IsDirAt]
  cases hn : fs.nodes.lookup q with
  | none => simp
  | some n =>
    by_cases hdir : isDir n.mode
    · simp [hdir]
    · simp [hdir]

include h hr hfs hq in
lemma mkdirAll_turn (now : ℤ) :
    ∃ fs', Runtime.mkdirAll now [q] fs₁ = (.ok (), fs') ∧ Grown fs fs' q ∧
      (¬ IsFileAt fs.nodes q → Reached fs'.nodes q) := by
  by_cases hdir : IsDirAt fs₁.nodes q
  · refine ⟨fs₁, ?_, h.weaken hfs hq, fun _ => hr.of_dir hq hdir⟩
    rw [mkdirAll_of_dir ((openRead_eq_dir hq).mpr hdir)]
    rfl
  have hopen : fs₁.openRead q ≠ .ok .dir := fun hok => hdir ((openRead_eq_dir hq).mp hok)
  rw [mkdirAll_of_not_dir hopen]
  cases hn : fs₁.nodes.lookup q with
  | none =>
    obtain ⟨fs', heq, hg, hr'⟩ := mkdir_grown h hr hfs hq hn 0o755 now
    exact ⟨fs', by rw [heq]; rfl, hg, fun _ => hr'⟩
  | some n =>
    have hold := (h.lookup_iff hq).mp hn
    refine ⟨fs₁, by rw [mkdir_of_some hq hn]; rfl, h.weaken hfs hq, fun hfile => ?_⟩
    obtain ⟨d, hd, hdd⟩ := isDirAt_iff.mp (isDirAt_of_not_file hold hfile)
    rw [hold, Option.some.injEq] at hd
    exact absurd (isDirAt_iff.mpr ⟨n, hn, hd ▸ hdd⟩) hdir

include h hfs hq in
lemma mkdirAll_below_file (hfile : IsFileAt fs.nodes (dir q)) (now : ℤ) :
    ∃ e fs', Runtime.mkdirAll now [q] fs₁ = (.error e, fs') := by
  obtain ⟨f, hf, hff⟩ := isFileAt_iff.mp hfile
  have habsent : fs₁.nodes.lookup q = none := by
    by_contra hne
    obtain ⟨n, hn⟩ := Option.ne_none_iff_exists'.mp hne
    obtain ⟨d, hd, hdd⟩ := hfs.parent q n ((h.lookup_iff hq).mp hn) (proper_ne_root hq)
    rw [hf, Option.some.injEq] at hd
    simp [← hd, hff] at hdd
  have hopen : fs₁.openRead q ≠ .ok .dir := by
    rw [ne_eq, openRead_eq_dir hq, IsDirAt, habsent]
    simp
  have hparent : fs₁.checkParent (str "mkdir") q = .error ⟨str "mkdir", q, .invalid⟩ := by
    simp [MemFS.checkParent, h.kept _ f hf, hff]
  have hmem : q ∉ fs₁.nodes := Finmap.lookup_eq_none.mp habsent
  refine ⟨⟨str "mkdir", q, .invalid⟩, fs₁, ?_⟩
  rw [mkdirAll_of_not_dir hopen]
  simp [MemFS.mkdir, validPath_of_proper hq, proper_ne_root hq, hmem, hparent]

lemma mkdirAll_wayTo (hfs : WellFormed fs.nodes) (now : ℤ) (hq : proper q) :
    (¬ Blocked fs.nodes (dir q) → ∃ fs', Runtime.mkdirAll now (wayTo q) fs = (.ok (), fs') ∧
      Grown fs fs' q ∧ (¬ IsFileAt fs.nodes q → Reached fs'.nodes q)) ∧
    (Blocked fs.nodes (dir q) →
      ∃ e fs', Runtime.mkdirAll now (wayTo q) fs = (.error e, fs')) := by
  induction q, hq using proper_induction with
  | top q hq hdir hslash =>
    obtain ⟨hg, hr⟩ := grown_root hfs
    refine ⟨fun _ => ?_, fun hb => absurd (hdir ▸ hb) (not_blocked_root hfs)⟩
    rw [wayTo_of_not_mem hslash]
    exact mkdirAll_turn (hdir ▸ hg) (hdir ▸ hr) hfs hq now
  | below q hq hdir heq hslash ih =>
    obtain ⟨hok, herr⟩ := ih
    have hway : wayTo q = wayTo (dir q) ++ [q] := by
      have := wayTo_append hslash (dir q)
      rwa [← heq] at this
    rw [hway, mkdirAll_append, blocked_iff hfs hdir]
    by_cases hb : Blocked fs.nodes (dir (dir q))
    · obtain ⟨e, fs₁, heq₁⟩ := herr hb
      rw [heq₁]
      exact ⟨fun hnot => absurd (.inr hb) hnot, fun _ => ⟨e, fs₁, rfl⟩⟩
    · obtain ⟨fs₁, heq₁, hg, hr⟩ := hok hb
      rw [heq₁]
      exact ⟨fun hnot => mkdirAll_turn hg (hr (not_or.mp hnot).1) hfs hq now,
        fun hyes => mkdirAll_below_file hg hfs hq (hyes.resolve_right hb) now⟩

lemma mkdirAll_wayTo_invalid (hq : validPath q = false) (now : ℤ) (fs : MemFS) :
    ∃ e fs', Runtime.mkdirAll now (wayTo q) fs = (.error e, fs') := by
  obtain ⟨ds, hds⟩ := exists_wayTo q
  rw [hds, mkdirAll_append]
  rcases Runtime.mkdirAll now ds fs with ⟨⟨e⟩ | ⟨⟩, fs₁⟩
  · exact ⟨e, fs₁, rfl⟩
  · have hopen : fs₁.openRead q ≠ .ok .dir := by simp [MemFS.openRead, hq]
    refine ⟨⟨str "mkdir", q, .invalid⟩, fs₁, ?_⟩
    show Runtime.mkdirAll now [q] fs₁ = _
    rw [mkdirAll_of_not_dir hopen]
    simp [MemFS.mkdir, hq]

/-! ### Both together -/

/-- A recursive `opFSMkdir` makes the path and everything above it, and keeps every node. -/
structure EstablishesDir (rt : Runtime) (p : Bytes) (now : ℤ) : Prop where
  agrees : ∀ mode, (rt.mkdirSync p true now).1 = .done ↔
    (rt.fs.mkdirAll (guestPath p) mode now).1 = .ok ()
  made : (rt.mkdirSync p true now).1 = .done →
    Reached (rt.mkdirSync p true now).2.fs.nodes (guestPath p)
  kept : (rt.mkdirSync p true now).1 = .done → ∀ k n, rt.fs.nodes.lookup k = some n →
    (rt.mkdirSync p true now).2.fs.nodes.lookup k = some n

lemma mkdirSync_eq (rt : Runtime) (p : Bytes) (now : ℤ) :
    rt.mkdirSync p true now = rt.onFS (Runtime.mkdirAll now (wayTo (guestPath p)) rt.fs) := rfl

section

variable {rt : Runtime} {p : Bytes} {now : ℤ}

lemma establishesDir_of_ok
    (hop : Runtime.mkdirAll now (wayTo (guestPath p)) rt.fs = (.ok (), fs')) :
    EstablishesDir rt p now ↔ (∀ mode, (rt.fs.mkdirAll (guestPath p) mode now).1 = .ok ()) ∧
      Reached fs'.nodes (guestPath p) ∧
      ∀ k n, rt.fs.nodes.lookup k = some n → fs'.nodes.lookup k = some n := by
  have hdone : (rt.mkdirSync p true now).1 = .done := by
    rw [mkdirSync_eq, hop]
    rfl
  have hfs' : (rt.mkdirSync p true now).2.fs = fs' := by
    rw [mkdirSync_eq, hop]
    rfl
  constructor
  · intro h
    have hmade := h.made hdone
    have hkept := h.kept hdone
    rw [hfs'] at hmade hkept
    exact ⟨fun mode => (h.agrees mode).mp hdone, hmade, hkept⟩
  · rintro ⟨hagrees, hmade, hkept⟩
    rw [← hfs'] at hmade hkept
    exact ⟨fun mode => iff_of_true hdone (hagrees mode), fun _ => hmade, fun _ => hkept⟩

lemma establishesDir_of_error {e : PathError}
    (hop : Runtime.mkdirAll now (wayTo (guestPath p)) rt.fs = (.error e, fs'))
    (hagrees : ∀ mode, (rt.fs.mkdirAll (guestPath p) mode now).1 ≠ .ok ()) :
    EstablishesDir rt p now := by
  have hnot : (rt.mkdirSync p true now).1 ≠ .done := by
    rw [mkdirSync_eq, hop]
    exact fun h => by cases h
  exact ⟨fun mode => iff_of_false hnot (hagrees mode), fun h => absurd h hnot,
    fun h => absurd h hnot⟩

end

/-- Recursive mkdir establishes a directory exactly if the path is not that of a file. -/
theorem establishesDir_iff (rt : Runtime) (hfs : WellFormed rt.fs.nodes) (p : Bytes) (now : ℤ) :
    EstablishesDir rt p now ↔ ¬ IsFileAt rt.fs.nodes (guestPath p) := by
  by_cases hroot : guestPath p = root
  · -- the root is there, and neither function does anything
    obtain ⟨hg, hr⟩ := grown_root hfs
    have hfile : ¬ IsFileAt rt.fs.nodes (guestPath p) := fun hfile =>
      not_blocked_root hfs ⟨root, .inl rfl, hroot ▸ hfile⟩
    have hopen : rt.fs.openRead root = .ok .dir := by
      obtain ⟨r, hr, hrd⟩ := hfs.root
      simp [MemFS.openRead, validPath, hr, hrd]
    have hop : Runtime.mkdirAll now (wayTo (guestPath p)) rt.fs = (.ok (), rt.fs) := by
      rw [hroot, wayTo_of_not_mem (by decide), mkdirAll_of_dir hopen]
      rfl
    refine iff_of_true ((establishesDir_of_ok hop).mpr ⟨fun mode => ?_, hroot ▸ hr, hg.kept⟩) hfile
    simp [hroot, MemFS.mkdirAll_eq, validPath]
  by_cases hvalid : validPath (guestPath p)
  · have hq := proper_of_validPath hvalid hroot
    obtain ⟨hok, herr⟩ := mkdirAll_wayTo hfs now hq
    by_cases hb : Blocked rt.fs.nodes (dir (guestPath p))
    · -- a file above the name stops both, and leaves no room for one at the name
      obtain ⟨e, fs', hop⟩ := herr hb
      refine iff_of_true (establishesDir_of_error hop fun mode => ?_) fun hfile => ?_
      · obtain ⟨e', fs'', heq⟩ := (mkdirAll_spec hfs mode now hq).2
          ((blocked_iff hfs hq).mpr (.inr hb))
        simp [heq]
      · obtain ⟨f, hf, -⟩ := isFileAt_iff.mp hfile
        exact not_blocked_dir hfs hq hf hb
    · obtain ⟨fs', hop, hg, hr⟩ := hok hb
      rw [establishesDir_of_ok hop]
      constructor
      · rintro ⟨hagrees, -, -⟩ hfile
        obtain ⟨e, fs'', heq⟩ := (mkdirAll_spec hfs 0o755 now hq).2 ((blocked_iff hfs hq).mpr
          (.inl hfile))
        have hok' := hagrees 0o755
        rw [heq] at hok'
        cases hok'
      · intro hfile
        refine ⟨fun mode => ?_, hr hfile, hg.kept⟩
        have hfree : ¬ Blocked rt.fs.nodes (guestPath p) := by
          rw [blocked_iff hfs hq, not_or]
          exact ⟨hfile, hb⟩
        obtain ⟨fs'', heq, -⟩ := (mkdirAll_spec hfs mode now hq).1 hfree
        simp [heq]
  · have hinvalid : validPath (guestPath p) = false := by simpa using hvalid
    obtain ⟨e, fs', hop⟩ := mkdirAll_wayTo_invalid hinvalid now rt.fs
    refine iff_of_true (establishesDir_of_error hop fun mode => ?_) fun hfile => ?_
    · simp [MemFS.mkdirAll_eq, hinvalid]
    · obtain ⟨f, hf, -⟩ := isFileAt_iff.mp hfile
      exact hvalid (validPath_of_proper (hfs.proper _ f hf hroot))

/-- A runtime with a file `f`. -/
def withFile : Runtime := ⟨((new 0).writeFile (str "f") (str "x") 0o644 1).2, ∅, 0⟩

lemma withFile_wellFormed : WellFormed withFile.fs.nodes :=
  (Session.wellFormed_start 0).writeFile (str "f") (str "x") 0o644 1

/-- Two directories are made beside the file. -/
theorem establishesDir_beside : EstablishesDir withFile (str "/a//b/") 2 :=
  (establishesDir_iff withFile withFile_wellFormed (str "/a//b/") 2).mpr (by decide +kernel)

/-- At the name of the file success is reported, there is no directory, and `MkdirAll` fails. -/
theorem mkdir_at_file : WellFormed withFile.fs.nodes ∧
    (withFile.mkdirSync (str "/f") true 2).1 = .done ∧
    IsFileAt (withFile.mkdirSync (str "/f") true 2).2.fs.nodes (guestPath (str "/f")) ∧
    (withFile.fs.mkdirAll (guestPath (str "/f")) 0o755 2).1 ≠ .ok () :=
  ⟨withFile_wellFormed, by decide +kernel, by decide +kernel, by decide +kernel⟩

end GoSpidermonkey.Nodejs
