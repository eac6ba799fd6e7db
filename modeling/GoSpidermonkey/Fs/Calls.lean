import GoSpidermonkey.Fs.Tree
import GoSpidermonkey.Lib.Machine

/-!
# Sequences of calls on a file system

A session is a file system with the write handles it has returned so far. Handles are never taken
away: any of them can be used again, whatever has happened to its name since.

Two calls do not keep the tree: renaming a directory to a name inside itself, and a write through a
handle whose name is now that of a directory. `wellFormed_iff_sane` says that the tree is there
after every call of a sequence exactly if there is no such call in it.
-/

open GoSpidermonkey.Path

namespace GoSpidermonkey.Fs

open List Finmap

/-! ### What each method keeps -/

namespace MemFS

variable {fs : MemFS}

lemma checkParent_eq_ok {op name : Bytes} :
    fs.checkParent op name = .ok () ↔ ∃ d, fs.nodes.lookup (dir name) = some d ∧ isDir d.mode := by
  unfold checkParent
  cases fs.nodes.lookup (dir name) with
  | none => simp
  | some p => simp

lemma proper_of_not_invalid {name : Bytes} (h : ¬ (¬ validPath name ∨ name = root)) :
    proper name := by
  push Not at h
  exact proper_of_validPath h.1 h.2

/-- `OpenFile` fails or opens for reading, or stores a file and returns a handle for it. -/
lemma openFile_cases (fs : MemFS) (name : Bytes) (flag : OpenFlag) (mode : FileMode) (now : ℤ) :
    (∃ r, fs.openFile name flag mode now = (r, fs) ∧ ∀ h, r ≠ .ok (.write h)) ∨
      ∃ fs₀ n, fs.openFile name flag mode now = openNode fs₀ name flag n now ∧
        fs₀.nodes = fs.nodes ∧ isDir n.mode = false ∧
        ((∃ old, fs.nodes.lookup name = some old ∧ isDir old.mode = false) ∨
          proper name ∧ fs.nodes.lookup name = none ∧
            ∃ d, fs.nodes.lookup (dir name) = some d ∧ isDir d.mode) := by
  unfold openFile
  by_cases hw : flag.write
  swap
  · refine .inl ⟨fs.openRead name, by simp [hw], fun h => ?_⟩
    unfold openRead
    repeat' split
    all_goals simp
  rw [if_neg (by simpa using hw)]
  by_cases hv : ¬ validPath name ∨ name = root
  · rw [if_pos hv]
    exact .inl ⟨_, rfl, by simp⟩
  rw [if_neg hv]
  cases hn : fs.nodes.lookup name with
  | some old =>
    by_cases hdir : isDir old.mode
    · exact .inl ⟨_, if_pos hdir, by simp⟩
    by_cases hex : flag.create ∧ flag.excl
    · exact .inl ⟨.error ⟨str "open", name, .exist⟩, by simp [hdir, hex], by simp⟩
    · refine .inr ⟨fs, if flag.trunc then { old with data := [] } else old, ?_, rfl, ?_, .inl ?_⟩
      · simp only [hdir, Bool.false_eq_true, if_false, if_neg hex]
      · split <;> simpa using hdir
      · exact ⟨old, rfl, by simpa using hdir⟩
  | none =>
    by_cases hc : flag.create
    swap
    · exact .inl ⟨_, if_pos hc, by simp⟩
    cases hp : fs.checkParent (str "open") name with
    | error e => exact .inl ⟨.error e, by simp [hc], by simp⟩
    | ok _ =>
      refine .inr ⟨{ fs with nextIno := fs.nextIno + 1 }, ⟨fs.nextIno, [], perm mode, now⟩, ?_, rfl,
        isDir_perm mode, .inr ⟨proper_of_not_invalid hv, rfl, checkParent_eq_ok.mp hp⟩⟩
      simp [hc]

end MemFS

namespace WellFormed

open MemFS

variable {fs : MemFS} (h : WellFormed fs.nodes)
include h

lemma openFile (name : Bytes) (flag : OpenFlag) (mode : FileMode) (now : ℤ) :
    WellFormed (fs.openFile name flag mode now).2.nodes := by
  rcases fs.openFile_cases name flag mode now with ⟨r, heq, -⟩ | ⟨fs₀, n, heq, h₀, hn, hcase⟩
  · rw [heq]
    exact h
  · rw [heq]
    show WellFormed (fs₀.nodes.insert name { n with modTime := now })
    rw [h₀]
    rcases hcase with ⟨old, hold, hfile⟩ | ⟨hproper, habsent, hpar⟩
    · exact h.update hold (by simp [hn, hfile]) (by simp [hfile])
    · exact h.insert hproper hpar (by simp [hn]) (by simp [habsent])

lemma mkdir (name : Bytes) (mode : FileMode) (now : ℤ) :
    WellFormed (fs.mkdir name mode now).2.nodes := by
  unfold MemFS.mkdir
  split_ifs with hv hmem
  · exact h
  · exact h
  · split
    · exact h
    · have habsent := lookup_eq_none.mpr hmem
      have hpar := checkParent_eq_ok.mp ‹_›
      exact h.insert (proper_of_not_invalid hv) hpar (fun _ => rfl) (by simp [habsent])

lemma mkdirLast (name : Bytes) (mode : FileMode) (now : ℤ) :
    WellFormed (fs.mkdirLast name mode now).2.nodes := by
  have hm := h.mkdir name mode now
  unfold MemFS.mkdirLast
  split
  next heq => rwa [heq] at hm
  next heq =>
    rw [heq] at hm
    repeat' split
    all_goals exact hm

omit h in
lemma mkdirAllLoop (mode : FileMode) (now : ℤ) (n : ℕ) {fs : MemFS} (h : WellFormed fs.nodes)
    (name : Bytes) : WellFormed (MemFS.mkdirAllLoop mode now n fs name).2.nodes := by
  induction n generalizing name with
  | zero => exact h
  | succ n ih =>
    unfold MemFS.mkdirAllLoop
    split_ifs
    · exact h
    · exact h.mkdirLast name mode now
    · have hp := ih (dir name)
      split
      next heq => rwa [heq] at hp
      next heq =>
        rw [heq] at hp
        exact hp.mkdirLast name mode now
    · exact h

lemma remove (name : Bytes) : WellFormed (fs.remove name).2.nodes := by
  unfold MemFS.remove
  split_ifs with hv
  · exact h
  · split
    · exact h
    next n hn =>
      split_ifs with hdir
      · exact h
      · refine h.erase (fun hroot => hv (.inr hroot)) fun p x hp hne hin => ?_
        by_cases hd : isDir n.mode
        · exact hdir ⟨hd, p, mem_keys.mpr (mem_of_lookup_eq_some hp), hin⟩
        · refine h.no_entries hp hne (fun d hd' => ?_) hin
          obtain rfl : n = d := by simpa [hn] using hd'
          simpa using hd

lemma chmod (name : Bytes) (mode : FileMode) : WellFormed (fs.chmod name mode).2.nodes := by
  unfold MemFS.chmod
  split_ifs
  · split
    · exact h
    next n hn => exact h.update hn (isDir_chmodMode _ _) (h.empty name n hn)
  · exact h

lemma chtimes (name : Bytes) (mtime : ℤ) : WellFormed (fs.chtimes name mtime).2.nodes := by
  unfold MemFS.chtimes
  split_ifs
  · split
    · exact h
    next n hn => exact h.update hn rfl (h.empty name n hn)
  · exact h

end WellFormed

/-! ### Writing -/

namespace MemFS

variable {fs : MemFS}

lemma length_overwrite (data : Bytes) (pos : ℕ) (p : Bytes) :
    (overwrite data pos p).length = max data.length (pos + p.length) := by
  simp only [overwrite, length_append, length_take, length_drop,
    length_replicate]
  omega

/-- A write through the handle would put data into a directory. -/
def WritesDir (fs : MemFS) (h : WriteHandle) (p : Bytes) : Prop :=
  (fs.nodes.lookup h.name).any fun n => isDir n.mode && (0 < h.start n + p.length : Bool)

instance (h : WriteHandle) (p : Bytes) : Decidable (fs.WritesDir h p) :=
  inferInstanceAs (Decidable (_ = true))

end MemFS

open MemFS

variable {fs : MemFS}

lemma wellFormed_writeAt_iff (hfs : WellFormed fs.nodes) (h : WriteHandle) (p : Bytes) (now : ℤ) :
    WellFormed (fs.writeAt h p now).2.2.nodes ↔ ¬ fs.WritesDir h p := by
  unfold writeAt WritesDir
  cases hn : fs.nodes.lookup h.name with
  | none => simpa using hfs
  | some n =>
    have hlen := length_overwrite n.data (h.start n) p
    simp only [Option.any_some, Bool.and_eq_true, decide_eq_true_eq, not_and, not_lt]
    constructor
    · intro hw hdir
      have hempty : overwrite n.data (h.start n) p = [] :=
        hw.empty h.name _ (lookup_insert _) hdir
      rw [hempty, length_nil] at hlen
      omega
    · intro hsmall
      refine hfs.update hn rfl fun hdir => eq_nil_of_length_eq_zero ?_
      have hdata := hfs.empty h.name n hn hdir
      have := hsmall hdir
      show (overwrite n.data (h.start n) p).length = 0
      rw [hlen, hdata, length_nil]
      omega

lemma WellFormed.writeFile (hfs : WellFormed fs.nodes) (name data : Bytes) (mode : FileMode)
    (now : ℤ) : WellFormed (fs.writeFile name data mode now).2.nodes := by
  have ho := hfs.openFile name { wronly := true, create := true, trunc := true } mode now
  unfold MemFS.writeFile
  rcases fs.openFile_cases name { wronly := true, create := true, trunc := true } mode now with
    ⟨r, heq, hr⟩ | ⟨fs₀, n, heq, -, hn, -⟩
  · rw [heq] at ho ⊢
    cases r with
    | error e => exact ho
    | ok o =>
      cases o with
      | dir => exact ho
      | read data => exact ho
      | write h => exact absurd rfl (hr h)
  · rw [heq] at ho ⊢
    -- the name was stored as that of a file just before
    have hw (flag : OpenFlag) (pos : ℕ) :=
      (wellFormed_writeAt_iff ho ⟨name, flag, pos⟩ data now).mpr
      (by simp [WritesDir, openNode, lookup_insert, hn])
    split
    next hopen => cases hopen
    next h fs' hopen =>
      have hr : WellFormed (fs'.writeAt h data now).2.2.nodes := by
        cases hopen
        exact hw _ _
      split
      next hres => rwa [hres] at hr
      next hres => rwa [hres] at hr
    next hopen => rwa [hopen] at ho

/-! ### Renaming -/

/-- The keys that a loop over the map visits: every name there is at the start, and any others. -/
def Visits (m : Nodes) (oldname newname : Bytes) (order : List Bytes) : Prop :=
  newname ∈ order ∧ ∀ k ∈ m.keys, k ≠ oldname → k ∈ order

instance (m : Nodes) (oldname newname : Bytes) (order : List Bytes) :
    Decidable (Visits m oldname newname order) :=
  inferInstanceAs (Decidable (_ ∧ _))

/-- There is a directory at the name. -/
def IsDirAt (m : Nodes) (name : Bytes) : Prop := (m.lookup name).any fun n => isDir n.mode

instance (m : Nodes) (name : Bytes) : Decidable (IsDirAt m name) :=
  inferInstanceAs (Decidable (_ = true))

/-- A directory is renamed to a name inside itself: to a new entry of itself or of a directory
below. -/
def IntoItself (m : Nodes) (oldname newname : Bytes) : Prop :=
  IsDirAt m oldname ∧ (oldname ++ [slash]).isPrefixOf newname ∧ validPath newname ∧
    IsDirAt m (dir newname) ∧ ¬ IsDirAt m newname

instance (m : Nodes) (oldname newname : Bytes) : Decidable (IntoItself m oldname newname) :=
  inferInstanceAs (Decidable (_ ∧ _))

variable {m : Nodes} {a b newname oldname : Bytes} {n : Node}

lemma isDirAt_iff {name : Bytes} :
    IsDirAt m name ↔ ∃ n, m.lookup name = some n ∧ isDir n.mode := by
  simp [IsDirAt, Option.any_eq_true]

lemma mem_order {order : List Bytes} (h : Visits m a b order) (n : Node) :
    ∀ k ∈ ((m.erase a).insert b n).keys, k ∈ order := by
  intro k hk
  rw [Finmap.mem_keys, Finmap.mem_insert, Finmap.mem_erase] at hk
  rcases hk with rfl | ⟨hne, hk⟩
  · exact h.1
  · exact h.2 k (Finmap.mem_keys.mpr hk) hne

lemma exists_under_foldl {c : Bytes} (order : List Bytes)
    (h : ∃ x n, m.lookup (under a x) = some n) :
    ∃ x n, (order.foldl (moveEntry a (under a c)) m).lookup (under a x) = some n := by
  induction order generalizing m with
  | nil => exact h
  | cons p order ih =>
    refine ih ?_
    rcases moveEntry_cases a (under a c) m p with ⟨heq, -⟩ | ⟨y, n, rfl, -, heq⟩
    · rwa [heq]
    · have hassoc : under (under a c) y = under a (c ++ slash :: y) := by simp
      exact ⟨c ++ slash :: y, n, by rw [heq, hassoc, lookup_insert]⟩

lemma not_wellFormed_move_into {c : Bytes} (ha : proper a)
    (order : List Bytes) :
    ¬ WellFormed (order.foldl (moveEntry a (under a c)) ((m.erase a).insert (under a c) n)) := by
  intro h
  have hnotin : ∀ x, a ≠ under (under a c) x := by simp
  obtain ⟨x, k, hk⟩ := exists_under_foldl (c := c) order
    (m := (m.erase a).insert (under a c) n) ⟨c, n, lookup_insert _⟩
  obtain ⟨d, hd, -⟩ := h.above ha hk
  rw [lookup_move_other (ne_under_self a) hnotin,
    lookup_insert_of_ne _ (ne_under_self a c), lookup_erase] at hd
  cases hd

lemma IntoItself.names (h : IntoItself m a b) :
    proper a ∧ proper b ∧ ∃ x, b = under a x := by
  obtain ⟨-, hpre, hvalid, -, -⟩ := h
  obtain ⟨x, rfl⟩ := isPrefixOf_slash.mp hpre
  have hb := proper_of_validPath hvalid (root_ne_under a x).symm
  refine ⟨?_, hb, x, rfl⟩
  rw [proper_append_slash, Bool.and_eq_true] at hb
  exact hb.1

lemma WellFormed.rename_file (h : WellFormed m)
    (ha : a ≠ Path.root) (hb : Path.proper b) (hn : m.lookup a = some n)
    (hfile : isDir n.mode = false) (htarget : ¬ IsDirAt m b) (hpar : IsDirAt m (dir b)) :
    WellFormed ((m.erase a).insert b n) := by
  have hnotDir : ∀ d, m.lookup a = some d → isDir d.mode = false := by
    intro d hd
    obtain rfl : n = d := by simpa [hn] using hd
    exact hfile
  obtain ⟨p, hp, hpd⟩ := isDirAt_iff.mp hpar
  have hdirb : dir b ≠ a := fun heq => by simp [hnotDir p (heq ▸ hp)] at hpd
  have herase := h.erase ha fun q x hq hne => h.no_entries hq hne hnotDir
  refine herase.insert hb ⟨p, by rwa [lookup_erase_ne hdirb], hpd⟩ (by simp [hfile]) ?_
  intro d hd hdd
  by_cases hba : b = a
  · subst hba
    simp [lookup_erase] at hd
  · rw [lookup_erase_ne hba] at hd
    exact absurd (isDirAt_iff.mpr ⟨d, hd, hdd⟩) htarget

/-- What a rename asks of the two names, with the node that is moved. -/
structure Renamable (m : Nodes) (oldname newname : Bytes) (n : Node) : Prop where
  old : proper oldname
  new : proper newname
  source : m.lookup oldname = some n
  target : ¬ IsDirAt m newname
  parent : IsDirAt m (dir newname)

lemma Renamable.target_file
    (h : Renamable m oldname newname n) :
    ∀ t, m.lookup newname = some t → isDir t.mode = false := by
  intro t ht
  simpa [IsDirAt, ht] using h.target

lemma Renamable.intoItself_iff
    (h : Renamable m oldname newname n) :
    IntoItself m oldname newname ↔ isDir n.mode ∧ ∃ x, newname = under oldname x := by
  constructor
  · intro hi
    obtain ⟨d, hd, hdd⟩ := isDirAt_iff.mp hi.1
    obtain rfl : n = d := by simpa [h.source] using hd
    exact ⟨hdd, hi.names.2.2⟩
  · rintro ⟨hdir, hin⟩
    exact ⟨isDirAt_iff.mpr ⟨n, h.source, hdir⟩, isPrefixOf_slash.mpr hin,
      validPath_of_proper h.new, h.parent, h.target⟩

def renameNodes (m : Nodes) (oldname newname : Bytes) (n : Node) (order : List Bytes) : Nodes :=
  if isDir n.mode then order.foldl (moveEntry oldname newname) ((m.erase oldname).insert newname n)
  else (m.erase oldname).insert newname n

lemma rename_cases (fs : MemFS) (oldname newname : Bytes) (order : List Bytes) :
    (∃ e, fs.rename oldname newname order = (.error e, fs) ∧
        ¬ IntoItself fs.nodes oldname newname) ∨
      ∃ n, Renamable fs.nodes oldname newname n ∧ fs.rename oldname newname order =
        (.ok (), { fs with nodes := renameNodes fs.nodes oldname newname n order }) := by
  unfold rename
  by_cases hold : ¬ validPath oldname ∨ oldname = root
  · rw [if_pos hold]
    refine .inl ⟨_, rfl, fun hi => ?_⟩
    rcases hold with h | h
    · exact h (validPath_of_proper hi.names.1)
    · exact proper_ne_root hi.names.1 h
  by_cases hnew : ¬ validPath newname ∨ newname = root
  · rw [if_neg hold, if_pos hnew]
    refine .inl ⟨_, rfl, fun hi => ?_⟩
    rcases hnew with h | h
    · exact h hi.2.2.1
    · exact proper_ne_root hi.names.2.1 h
  rw [if_neg hold, if_neg hnew]
  cases hn : fs.nodes.lookup oldname with
  | none => exact .inl ⟨_, rfl, fun hi => by simp [IntoItself, IsDirAt, hn] at hi⟩
  | some n =>
    by_cases ht : (fs.nodes.lookup newname).any fun t => isDir t.mode
    · exact .inl ⟨⟨str "rename", newname, .exist⟩, by simp only [ht, if_true],
        fun hi => hi.2.2.2.2 ht⟩
    cases hp : fs.checkParent (str "rename") newname with
    | error e =>
      refine .inl ⟨e, by simp only [ht]; rfl, fun hi => ?_⟩
      have hok : fs.checkParent (str "rename") newname = .ok () :=
        checkParent_eq_ok.mpr (isDirAt_iff.mp hi.2.2.2.1)
      simp [hp] at hok
    | ok _ =>
      refine .inr ⟨n, ⟨proper_of_not_invalid hold, proper_of_not_invalid hnew, hn, ht,
        isDirAt_iff.mpr (checkParent_eq_ok.mp hp)⟩, ?_⟩
      simp only [ht, renameNodes]
      by_cases hdir : isDir n.mode
      · simp [hdir]
      · simp [hdir]

lemma wellFormed_rename_iff (hfs : WellFormed fs.nodes)
    {order : List Bytes} (hvisits : Visits fs.nodes oldname newname order) :
    WellFormed (fs.rename oldname newname order).2.nodes ↔
      ¬ IntoItself fs.nodes oldname newname := by
  rcases rename_cases fs oldname newname order with ⟨e, heq, hnot⟩ | ⟨n, hr, heq⟩
  · rw [heq]
    exact iff_of_true hfs hnot
  · rw [heq, hr.intoItself_iff]
    show WellFormed (renameNodes fs.nodes oldname newname n order) ↔ _
    unfold renameNodes
    by_cases hdir : isDir n.mode
    · rw [if_pos hdir]
      by_cases hin : ∃ x, newname = under oldname x
      · obtain ⟨x, rfl⟩ := hin
        exact iff_of_false (not_wellFormed_move_into hr.old order) (not_not.mpr ⟨hdir, x, rfl⟩)
      · have hout : ∀ x, newname ≠ under oldname x := fun x hx => hin ⟨x, hx⟩
        have hmoved := movedTo_foldl hfs hr.new hr.source hdir hr.target_file hout
          (mem_order hvisits n)
        exact iff_of_true (hfs.of_movedTo hr.old hr.new hdir hr.target_file hout hmoved hr.source
          (isDirAt_iff.mp hr.parent)) fun hi => hin hi.2
    · rw [if_neg hdir]
      exact iff_of_true (hfs.rename_file (proper_ne_root hr.old) hr.new hr.source
        (by simpa using hdir) hr.target hr.parent) fun hi => hdir hi.1

/-! ### Sessions -/

/-- A file system and the write handles it has returned. -/
structure Session where
  fs : MemFS
  handles : List WriteHandle

inductive Call where
  | openFile (name : Bytes) (flag : OpenFlag) (mode : FileMode) (now : ℤ)
  | mkdir (name : Bytes) (mode : FileMode) (now : ℤ)
  | mkdirAll (name : Bytes) (mode : FileMode) (now : ℤ)
  | remove (name : Bytes)
  /-- `order` has the keys that the loop over the map visits. -/
  | rename (oldname newname : Bytes) (order : List Bytes)
  | chmod (name : Bytes) (mode : FileMode)
  | chtimes (name : Bytes) (mtime : ℤ)
  | writeFile (name data : Bytes) (mode : FileMode) (now : ℤ)
  /-- `Write` on the `i`-th handle returned. -/
  | write (i : ℕ) (p : Bytes) (now : ℤ)
  | read (i : ℕ) (len : ℕ)

namespace Session

def start (now : ℤ) : Session := ⟨new now, []⟩

def step (s : Session) : Call → Option Session
  | .openFile name flag mode now =>
    match s.fs.openFile name flag mode now with
    | (.ok (.write h), fs') => some ⟨fs', s.handles ++ [h]⟩
    | (_, fs') => some { s with fs := fs' }
  | .mkdir name mode now => some { s with fs := (s.fs.mkdir name mode now).2 }
  | .mkdirAll name mode now => some { s with fs := (s.fs.mkdirAll name mode now).2 }
  | .remove name => some { s with fs := (s.fs.remove name).2 }
  | .rename oldname newname order =>
    if Visits s.fs.nodes oldname newname order then
      some { s with fs := (s.fs.rename oldname newname order).2 }
    else none
  | .chmod name mode => some { s with fs := (s.fs.chmod name mode).2 }
  | .chtimes name mtime => some { s with fs := (s.fs.chtimes name mtime).2 }
  | .writeFile name data mode now => some { s with fs := (s.fs.writeFile name data mode now).2 }
  | .write i p now =>
    (s.handles[i]?).map fun h =>
      ⟨(s.fs.writeAt h p now).2.2, s.handles.set i (s.fs.writeAt h p now).2.1⟩
  | .read i len =>
    (s.handles[i]?).map fun h => { s with handles := s.handles.set i (s.fs.readAt h len).2 }

/-- No directory is renamed into itself, and no data is written to the name of a directory. -/
def Sane (s : Session) : Call → Prop
  | .rename oldname newname _ => ¬ IntoItself s.fs.nodes oldname newname
  | .write i p _ => ∀ h ∈ s.handles[i]?, ¬ s.fs.WritesDir h p
  | _ => True

instance (s : Session) (c : Call) : Decidable (s.Sane c) := by
  cases c <;> dsimp only [Session.Sane] <;> infer_instance

lemma wellFormed_start (now : ℤ) : WellFormed (start now).fs.nodes := by
  have hkey : ∀ k n, (new now).nodes.lookup k = some n → k = root := by
    intro k n hk
    by_contra hne
    rw [new, lookup_insert_of_ne _ hne] at hk
    simp at hk
  refine ⟨⟨_, lookup_insert _, by simp [isDir, modeDir]⟩, ?_, ?_, ?_⟩
  · exact fun k n hk hne => absurd (hkey k n hk) hne
  · exact fun k n hk hne => absurd (hkey k n hk) hne
  · intro k n hk _
    obtain rfl := hkey k n hk
    simp only [start, new, lookup_insert, Option.some.injEq] at hk
    rw [← hk]

lemma wellFormed_step_iff (s : Session) (c : Call) (s' : Session) (h : WellFormed s.fs.nodes)
    (hstep : s.step c = some s') : WellFormed s'.fs.nodes ↔ s.Sane c := by
  cases c with
  | openFile name flag mode now =>
    have ho := h.openFile name flag mode now
    simp only [step] at hstep
    split at hstep
    all_goals
      next heq =>
        rw [heq] at ho
        cases hstep
        exact iff_of_true ho trivial
  | mkdir name mode now =>
    cases hstep
    exact iff_of_true (h.mkdir name mode now) trivial
  | mkdirAll name mode now =>
    cases hstep
    exact iff_of_true (WellFormed.mkdirAllLoop mode now _ h name) trivial
  | remove name =>
    cases hstep
    exact iff_of_true (h.remove name) trivial
  | rename oldname newname order =>
    simp only [step] at hstep
    split_ifs at hstep with hv
    cases hstep
    exact wellFormed_rename_iff h hv
  | chmod name mode =>
    cases hstep
    exact iff_of_true (h.chmod name mode) trivial
  | chtimes name mtime =>
    cases hstep
    exact iff_of_true (h.chtimes name mtime) trivial
  | writeFile name data mode now =>
    cases hstep
    exact iff_of_true (h.writeFile name data mode now) trivial
  | write i p now =>
    obtain ⟨w, hw, rfl⟩ := Option.map_eq_some_iff.mp hstep
    simp [Sane, hw, wellFormed_writeAt_iff h]
  | read i len =>
    obtain ⟨w, hw, rfl⟩ := Option.map_eq_some_iff.mp hstep
    exact iff_of_true h trivial

/-- The tree is there after every call of a sequence exactly if the sequence neither renames a
directory into itself nor writes to the name of a directory. -/
theorem wellFormed_iff_sane (now : ℤ) (calls : List Call) (s : Session)
    (hrun : Machine.run step (start now) calls = some s) :
    (∀ front, front <+: calls → ∀ t, Machine.run step (start now) front = some t →
      WellFormed t.fs.nodes) ↔ Machine.Obeys step Sane (start now) calls :=
  Machine.invariant_iff_obeys wellFormed_step_iff (wellFormed_start now) hrun

/-- A file is written through its handle, its directory renamed, and the handle used again. -/
def renamedDir : List Call :=
  [.mkdir (str "a") 0o755 1, .openFile (str "a/f") { wronly := true, create := true } 0o644 2,
    .write 0 (str "x") 3, .rename (str "a") (str "b") [str ".", str "b", str "a/f"],
    .write 0 (str "y") 4]

theorem renamedDir_wellFormed : ∃ s, Machine.run step (start 0) renamedDir = some s ∧
    ∀ front, front <+: renamedDir → ∀ t, Machine.run step (start 0) front = some t →
      WellFormed t.fs.nodes := by
  obtain ⟨s, hs⟩ : ∃ s, Machine.run step (start 0) renamedDir = some s :=
    Option.isSome_iff_exists.mp (by decide +kernel)
  exact ⟨s, hs, (wellFormed_iff_sane 0 renamedDir s hs).mpr (by decide +kernel)⟩

def movedIntoItself : List Call :=
  [.mkdir (str "a") 0o755 1, .rename (str "a") (str "a/b") [str ".", str "a/b"]]

/-- A file is replaced by a directory, and written through the handle it was opened with. -/
def staleHandle : List Call :=
  [.openFile (str "f") { wronly := true, create := true } 0o644 1, .remove (str "f"),
    .mkdir (str "f") 0o755 2, .write 0 (str "x") 3]

/-- The directory of a name is missing after the first sequence, and there is a directory with data
after the second one. -/
theorem tree_broken :
    (∃ s, Machine.run step (start 0) movedIntoItself = some s ∧ ¬ WellFormed s.fs.nodes) ∧
      ∃ s, Machine.run step (start 0) staleHandle = some s ∧ ¬ WellFormed s.fs.nodes := by
  constructor
  · obtain ⟨s, hs, hbad⟩ := (Option.any_eq_true
      (fun s : Session => (s.fs.nodes.lookup (str "a/b/b")).isSome &&
        (s.fs.nodes.lookup (dir (str "a/b/b"))).isNone)
      (Machine.run step (start 0) movedIntoItself)).mp (by decide +kernel)
    rw [Bool.and_eq_true, Option.isSome_iff_exists, Option.isNone_iff_eq_none] at hbad
    obtain ⟨⟨n, hn⟩, hnone⟩ := hbad
    refine ⟨s, hs, fun h => ?_⟩
    obtain ⟨d, hd, -⟩ := h.parent (str "a/b/b") n hn (by decide)
    rw [hnone] at hd
    cases hd
  · obtain ⟨s, hs, hbad⟩ := (Option.any_eq_true
      (fun s : Session => (s.fs.nodes.lookup (str "f")).any fun n => isDir n.mode &&
        !n.data.isEmpty)
      (Machine.run step (start 0) staleHandle)).mp (by decide +kernel)
    obtain ⟨n, hn, hdata⟩ := (Option.any_eq_true _ _).mp hbad
    rw [Bool.and_eq_true] at hdata
    refine ⟨s, hs, fun h => ?_⟩
    simp [h.empty (str "f") n hn hdata.1] at hdata

end Session

end GoSpidermonkey.Fs
