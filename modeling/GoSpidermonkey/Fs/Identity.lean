import GoSpidermonkey.Fs.Calls

/-!
# Which node a handle writes to

A write handle remembers a name, not a node. `History` is a session that also has, for each handle,
the number of the node that was opened, so that one can ask whether a write reaches that node or
another one that is at the name by now.

`Edit taken` lists what a method can do to the map in one go: store a fresh node under a free name,
change a node in place, or take a node away from one of the names in `taken`. Every call is a
sequence of edits (`Session.step_edits`), and what holds of nodes and names along a run is read off
the edits: no two names share a node, and a name outside `taken` keeps the node it has.
-/

open GoSpidermonkey.Path

namespace GoSpidermonkey.Fs

open MemFS Relation List Finmap

/-! ### Edits -/

/-- One change to the file system; only the names in `taken` may lose their node. -/
inductive Edit (taken : Bytes → Prop) : MemFS → MemFS → Prop
  | create {fs : MemFS} {k : Bytes} {n : Node} (hfree : fs.nodes.lookup k = none)
      (hino : n.ino = fs.nextIno) : Edit taken fs ⟨fs.nodes.insert k n, fs.nextIno + 1⟩
  | update {fs : MemFS} {k : Bytes} {n n' : Node} (hn : fs.nodes.lookup k = some n)
      (hino : n'.ino = n.ino) : Edit taken fs { fs with nodes := fs.nodes.insert k n' }
  | erase {fs : MemFS} {k : Bytes} (hk : taken k) :
      Edit taken fs { fs with nodes := fs.nodes.erase k }
  | move {fs : MemFS} {p q : Bytes} {n : Node} (hn : fs.nodes.lookup p = some n) (hp : taken p)
      (hq : taken q) : Edit taken fs { fs with nodes := (fs.nodes.erase p).insert q n }

abbrev Edits (taken : Bytes → Prop) : MemFS → MemFS → Prop := ReflTransGen (Edit taken)

def inoAt (fs : MemFS) (name : Bytes) : Option ℕ := (fs.nodes.lookup name).map Node.ino

section

variable {taken : Bytes → Prop} {fs fs' : MemFS}

lemma Edit.keeps (h : Edit taken fs fs') {name : Bytes} (hname : ¬ taken name) {ino : ℕ}
    (hino : inoAt fs name = some ino) : inoAt fs' name = some ino := by
  obtain ⟨n₀, hn₀, rfl⟩ := Option.map_eq_some_iff.mp hino
  cases h with
  | @create k n hfree =>
    have hne : name ≠ k := by
      rintro rfl
      simp [hn₀] at hfree
    simp [inoAt, lookup_insert_of_ne _ hne, hn₀]
  | @update k n n' hn hn' =>
    by_cases hk : name = k
    · subst hk
      obtain rfl : n = n₀ := by simpa [hn] using hn₀
      simp [inoAt, hn']
    · simp [inoAt, lookup_insert_of_ne _ hk, hn₀]
  | @erase k hk =>
    have hne : name ≠ k := fun h => hname (h ▸ hk)
    simp [inoAt, lookup_erase_ne hne, hn₀]
  | @move p q n hn hp hq =>
    have hne : name ≠ p := fun h => hname (h ▸ hp)
    have hne' : name ≠ q := fun h => hname (h ▸ hq)
    simp [inoAt, lookup_insert_of_ne _ hne', lookup_erase_ne hne, hn₀]

lemma Edits.keeps (h : Edits taken fs fs') {name : Bytes} (hname : ¬ taken name) {ino : ℕ}
    (hino : inoAt fs name = some ino) : inoAt fs' name = some ino := by
  induction h with
  | refl => exact hino
  | tail _ hedit ih => exact hedit.keeps hname ih

/-- Numbers are given out in order, and no two names share a node. -/
structure Numbered (fs : MemFS) : Prop where
  below : ∀ k ino, inoAt fs k = some ino → ino < fs.nextIno
  unique : ∀ j k ino, inoAt fs j = some ino → inoAt fs k = some ino → j = k

lemma Numbered.of_renaming (h : Numbered fs) {m : Nodes} {f : Bytes → Bytes}
    (hf : ∀ k ino, inoAt ⟨m, fs.nextIno⟩ k = some ino → inoAt fs (f k) = some ino)
    (hinj : ∀ j k, j ∈ m → k ∈ m → f j = f k → j = k) : Numbered ⟨m, fs.nextIno⟩ where
  below k ino hk := h.below _ ino (hf k ino hk)
  unique j k ino hj hk := by
    have hmem : ∀ i, inoAt ⟨m, fs.nextIno⟩ i = some ino → i ∈ m := by
      intro i hi
      obtain ⟨n, hn, -⟩ := Option.map_eq_some_iff.mp hi
      exact mem_of_lookup_eq_some hn
    exact hinj j k (hmem j hj) (hmem k hk) (h.unique _ _ ino (hf j ino hj) (hf k ino hk))

lemma Edit.numbered (h : Edit taken fs fs') (hnum : Numbered fs) : Numbered fs' := by
  cases h with
  | @create k n hfree hino =>
    have hcases : ∀ j ino, inoAt ⟨fs.nodes.insert k n, fs.nextIno + 1⟩ j = some ino →
        j = k ∧ ino = fs.nextIno ∨ inoAt fs j = some ino := by
      intro j ino hj
      by_cases hjk : j = k
      · subst hjk
        refine .inl ⟨rfl, ?_⟩
        simpa [inoAt, hino, eq_comm] using hj
      · exact .inr (by simpa [inoAt, lookup_insert_of_ne _ hjk] using hj)
    refine ⟨fun j ino hj => ?_, fun i j ino hi hj => ?_⟩
    · rcases hcases j ino hj with ⟨-, rfl⟩ | hold
      · exact Nat.lt_succ_self _
      · exact Nat.lt_succ_of_lt (hnum.below j ino hold)
    · rcases hcases i ino hi with ⟨rfl, rfl⟩ | hi'
      · rcases hcases j _ hj with ⟨rfl, -⟩ | hj'
        · rfl
        · exact absurd (hnum.below j _ hj') (lt_irrefl _)
      · rcases hcases j ino hj with ⟨rfl, rfl⟩ | hj'
        · exact absurd (hnum.below i _ hi') (lt_irrefl _)
        · exact hnum.unique i j ino hi' hj'
  | @update k n n' hn hino =>
    refine hnum.of_renaming (f := id) (fun j ino hj => ?_) fun _ _ _ _ h => h
    by_cases hjk : j = k
    · subst hjk
      simpa [inoAt, hn, hino] using hj
    · simpa [inoAt, lookup_insert_of_ne _ hjk] using hj
  | @erase k hk =>
    refine hnum.of_renaming (f := id) (fun j ino hj => ?_) fun _ _ _ _ h => h
    by_cases hjk : j = k
    · subst hjk
      simp [inoAt, lookup_erase] at hj
    · simpa [inoAt, lookup_erase_ne hjk] using hj
  | @move p q n hn hp hq =>
    -- the node at the new name comes from the old one, every other node was where it is
    refine hnum.of_renaming (f := fun j => if j = q then p else j) (fun j ino hj => ?_) ?_
    · by_cases hjq : j = q
      · subst hjq
        rw [if_pos rfl, inoAt, hn]
        simpa [inoAt] using hj
      · rw [if_neg hjq]
        rw [inoAt, lookup_insert_of_ne _ hjq] at hj
        by_cases hjp : j = p
        · subst hjp
          simp [lookup_erase] at hj
        · rwa [lookup_erase_ne hjp] at hj
    · intro i j hi hj hij
      have hgone : ∀ i, i ∈ (fs.nodes.erase p).insert q n → i ≠ q → i ≠ p := by
        rintro i hi hiq rfl
        simp [mem_insert, hiq] at hi
      by_cases hiq : i = q <;> by_cases hjq : j = q
      · rw [hiq, hjq]
      · simp only [hiq, hjq, if_true, if_false] at hij
        exact absurd hij.symm (hgone j hj hjq)
      · simp only [hiq, hjq, if_true, if_false] at hij
        exact absurd hij (hgone i hi hiq)
      · simpa only [hiq, hjq, if_false] using hij

lemma Edits.numbered (h : Edits taken fs fs') (hnum : Numbered fs) : Numbered fs' := by
  induction h with
  | refl => exact hnum
  | tail _ hedit ih => exact hedit.numbered ih

end

/-! ### The edits of each method -/

section

variable {taken : Bytes → Prop} (fs : MemFS)

lemma openFile_edits (name : Bytes) (flag : OpenFlag) (mode : FileMode) (now : ℤ) :
    Edits taken fs (fs.openFile name flag mode now).2 := by
  unfold MemFS.openFile
  by_cases hw : flag.write
  swap
  · simpa [hw] using ReflTransGen.refl
  by_cases hv : ¬ validPath name ∨ name = root
  · simpa only [hw, hv, not_true_eq_false, if_false, if_true] using ReflTransGen.refl
  simp only [hw, hv, not_true_eq_false, if_false]
  split
  next n hn =>
    split_ifs
    · exact .refl
    · exact .refl
    · exact .single (.update hn rfl)
    · exact .single (.update hn rfl)
  next hn =>
    split_ifs
    · split
      · exact .refl
      · exact .single (.create hn rfl)
    · exact .refl

lemma openFile_inoAt {name : Bytes} {flag : OpenFlag} {mode : FileMode} {now : ℤ} {h : WriteHandle}
    {fs' : MemFS} (heq : fs.openFile name flag mode now = (.ok (.write h), fs')) :
    ∃ ino, inoAt fs' h.name = some ino := by
  rcases fs.openFile_cases name flag mode now with ⟨r, hr, hnot⟩ | ⟨fs₀, n, hr, -⟩
  · rw [hr] at heq
    exact absurd (congrArg Prod.fst heq) (hnot h)
  · rw [hr] at heq
    cases heq
    exact ⟨n.ino, by simp [inoAt]⟩

lemma mkdir_edits (name : Bytes) (mode : FileMode) (now : ℤ) :
    Edits taken fs (fs.mkdir name mode now).2 := by
  unfold MemFS.mkdir
  split_ifs with hv hmem
  · exact .refl
  · exact .refl
  · split
    · exact .refl
    · exact .single (.create (lookup_eq_none.mpr hmem) rfl)

lemma mkdirLast_edits (name : Bytes) (mode : FileMode) (now : ℤ) :
    Edits taken fs (fs.mkdirLast name mode now).2 := by
  have hm : Edits taken fs (fs.mkdir name mode now).2 := mkdir_edits fs name mode now
  unfold MemFS.mkdirLast
  split
  next heq => rwa [heq] at hm
  next heq =>
    rw [heq] at hm
    repeat' split
    all_goals exact hm

lemma mkdirAllLoop_edits (mode : FileMode) (now : ℤ) (n : ℕ) (name : Bytes) :
    Edits taken fs (mkdirAllLoop mode now n fs name).2 := by
  induction n generalizing name with
  | zero => exact .refl
  | succ n ih =>
    unfold mkdirAllLoop
    split_ifs
    · exact .refl
    · exact mkdirLast_edits fs name mode now
    · have hp := ih (dir name)
      split
      next heq => rwa [heq] at hp
      next heq =>
        rw [heq] at hp
        exact hp.trans (mkdirLast_edits _ name mode now)
    · exact .refl

lemma remove_edits {name : Bytes} (hname : taken name) : Edits taken fs (fs.remove name).2 := by
  unfold MemFS.remove
  split_ifs
  · exact .refl
  · split
    · exact .refl
    · split_ifs
      · exact .refl
      · exact .single (.erase hname)

lemma chmod_edits (name : Bytes) (mode : FileMode) : Edits taken fs (fs.chmod name mode).2 := by
  unfold MemFS.chmod
  split_ifs
  · split
    · exact .refl
    next n hn => exact .single (.update hn rfl)
  · exact .refl

lemma chtimes_edits (name : Bytes) (mtime : ℤ) : Edits taken fs (fs.chtimes name mtime).2 := by
  unfold MemFS.chtimes
  split_ifs
  · split
    · exact .refl
    next n hn => exact .single (.update hn rfl)
  · exact .refl

lemma writeAt_edits (h : WriteHandle) (p : Bytes) (now : ℤ) :
    Edits taken fs (fs.writeAt h p now).2.2 := by
  unfold MemFS.writeAt
  split
  · exact .refl
  next n hn => exact .single (.update hn rfl)

lemma writeFile_edits (name data : Bytes) (mode : FileMode) (now : ℤ) :
    Edits taken fs (fs.writeFile name data mode now).2 := by
  have ho : Edits taken fs
      (fs.openFile name { wronly := true, create := true, trunc := true } mode now).2 :=
    openFile_edits fs name _ mode now
  unfold MemFS.writeFile
  split
  next heq => rwa [heq] at ho
  next h fs' heq =>
    rw [heq] at ho
    have hw : Edits taken fs' (fs'.writeAt h data now).2.2 := writeAt_edits fs' h data now
    split
    next hweq =>
      rw [hweq] at hw
      exact ho.trans hw
    next hweq =>
      rw [hweq] at hw
      exact ho.trans hw
  next heq => rwa [heq] at ho

/-- A name that a rename moves, or moves something to. -/
def Affected (oldname newname k : Bytes) : Prop :=
  k = oldname ∨ k = newname ∨ (oldname ++ [slash]).isPrefixOf k ∨ (newname ++ [slash]).isPrefixOf k

instance (oldname newname k : Bytes) : Decidable (Affected oldname newname k) :=
  inferInstanceAs (Decidable (_ ∨ _))

lemma moveEntries_edits (oldname newname : Bytes) (order : List Bytes) :
    Edits (Affected oldname newname) fs
      { fs with nodes := order.foldl (moveEntry oldname newname) fs.nodes } := by
  induction order generalizing fs with
  | nil => exact .refl
  | cons p order ih =>
    refine ReflTransGen.trans ?_ (ih { fs with nodes := moveEntry oldname newname fs.nodes p })
    rcases moveEntry_cases oldname newname fs.nodes p with ⟨heq, -⟩ | ⟨x, n, rfl, hm, heq⟩
    · rw [heq]
    · rw [heq]
      exact .single (.move hm (.inr (.inr (.inl (isPrefixOf_slash.mpr ⟨x, rfl⟩))))
        (.inr (.inr (.inr (isPrefixOf_slash.mpr ⟨x, rfl⟩)))))

lemma rename_edits (oldname newname : Bytes) (order : List Bytes) :
    Edits (Affected oldname newname) fs (fs.rename oldname newname order).2 := by
  rcases rename_cases fs oldname newname order with ⟨e, heq, -⟩ | ⟨n, hr, heq⟩
  · rw [heq]
  · rw [heq]
    have hmove : Edits (Affected oldname newname) fs
        { fs with nodes := (fs.nodes.erase oldname).insert newname n } :=
      .single (.move hr.source (.inl rfl) (.inr (.inl rfl)))
    show Edits _ fs { fs with nodes := renameNodes fs.nodes oldname newname n order }
    unfold renameNodes
    split_ifs
    · exact hmove.trans (moveEntries_edits _ oldname newname order)
    · exact hmove

end

/-! ### Calls -/

/-- The names that a call may take a node away from. -/
def Call.Takes : Call → Bytes → Prop
  | .remove name, k => k = name
  | .rename oldname newname _, k => Affected oldname newname k
  | _, _ => False

instance (k : Bytes) (c : Call) : Decidable (c.Takes k) := by
  apply @Call.casesOn (Decidable <| ·.Takes k)
  case remove => exact fun name => inferInstanceAs (Decidable (k = name))
  case rename => exact fun old new _ => inferInstanceAs (Decidable (Affected old new k))
  all_goals intros; exact isFalse id

/-- What a call does to the handles: nothing, the position of one, or one more. -/
inductive Session.Handled (s s' : Session) : Prop
  | same (h : s'.handles = s.handles)
  | moved (i : ℕ) (w w' : WriteHandle) (hw : s.handles[i]? = some w) (hname : w'.name = w.name)
      (h : s'.handles = s.handles.set i w')
  | opened (w : WriteHandle) (ino : ℕ) (hino : inoAt s'.fs w.name = some ino)
      (h : s'.handles = s.handles ++ [w])

lemma Session.step_edits {s s' : Session} {c : Call} (hstep : s.step c = some s') :
    Edits c.Takes s.fs s'.fs ∧ s.Handled s' := by
  cases c with
  | openFile name flag mode now =>
    have ho : Edits (Call.openFile name flag mode now).Takes s.fs
        (s.fs.openFile name flag mode now).2 := openFile_edits s.fs name flag mode now
    simp only [step] at hstep
    split at hstep
    next w fs' heq =>
      rw [heq] at ho
      obtain ⟨ino, hino⟩ := openFile_inoAt s.fs heq
      cases hstep
      exact ⟨ho, .opened w ino hino rfl⟩
    next heq =>
      rw [heq] at ho
      cases hstep
      exact ⟨ho, .same rfl⟩
  | mkdir name mode now =>
    cases hstep
    exact ⟨mkdir_edits s.fs name mode now, .same rfl⟩
  | mkdirAll name mode now =>
    cases hstep
    exact ⟨mkdirAllLoop_edits s.fs mode now _ name, .same rfl⟩
  | remove name =>
    cases hstep
    exact ⟨remove_edits s.fs rfl, .same rfl⟩
  | rename oldname newname order =>
    simp only [step] at hstep
    split_ifs at hstep
    cases hstep
    exact ⟨rename_edits s.fs oldname newname order, .same rfl⟩
  | chmod name mode =>
    cases hstep
    exact ⟨chmod_edits s.fs name mode, .same rfl⟩
  | chtimes name mtime =>
    cases hstep
    exact ⟨chtimes_edits s.fs name mtime, .same rfl⟩
  | writeFile name data mode now =>
    cases hstep
    exact ⟨writeFile_edits s.fs name data mode now, .same rfl⟩
  | write i p now =>
    obtain ⟨w, hw, rfl⟩ := Option.map_eq_some_iff.mp hstep
    refine ⟨writeAt_edits s.fs w p now, .moved i w _ hw ?_ rfl⟩
    unfold MemFS.writeAt
    split <;> rfl
  | read i len =>
    obtain ⟨w, hw, rfl⟩ := Option.map_eq_some_iff.mp hstep
    refine ⟨.refl, .moved i w _ hw ?_ rfl⟩
    unfold MemFS.readAt
    repeat' split
    all_goals rfl

/-! ### Histories -/

/-- A session with the number of the node that each handle was opened for. -/
structure History where
  session : Session
  opened : List ℕ

namespace History

def start (now : ℤ) : History := ⟨Session.start now, []⟩

/-- A call; for a handle that it adds, the node that is at its name then is the one opened. -/
def step (t : History) (c : Call) : Option History :=
  (t.session.step c).map fun s =>
    ⟨s, t.opened ++ (s.handles.drop t.session.handles.length).filterMap fun w => inoAt s.fs w.name⟩

/-- From the nodes `m` to the nodes `m'` only the data and the modification time of the node with
the given number have changed. -/
def OnlyTouches (ino : ℕ) (m m' : Nodes) : Prop :=
  ∀ k, m'.lookup k = m.lookup k ∨ ∃ n data modTime, m.lookup k = some n ∧ n.ino = ino ∧
    m'.lookup k = some { n with data, modTime }

/-- Whatever is written through the handle, only the node it was opened for is touched. -/
def WritesOpened (t : History) (i : ℕ) : Prop :=
  ∀ w ino, t.session.handles[i]? = some w → t.opened[i]? = some ino → ∀ p now,
    OnlyTouches ino t.session.fs.nodes (t.session.fs.writeAt w p now).2.2.nodes

/-- No other node is at the name of the handle. -/
def Attached (t : History) (i : ℕ) : Prop :=
  ∀ w ino, t.session.handles[i]? = some w → t.opened[i]? = some ino →
    ∀ j, inoAt t.session.fs w.name = some j → j = ino

lemma onlyTouches_writeAt_iff (fs : MemFS) (w : WriteHandle) (ino : ℕ) :
    (∀ p now, OnlyTouches ino fs.nodes (fs.writeAt w p now).2.2.nodes) ↔
      ∀ j, inoAt fs w.name = some j → j = ino := by
  cases hn : fs.nodes.lookup w.name with
  | none =>
    have hsame : ∀ p now, (fs.writeAt w p now).2.2 = fs := by simp [writeAt, hn]
    simp [hsame, OnlyTouches, inoAt, hn]
  | some n =>
    have hwrite : ∀ p now, (fs.writeAt w p now).2.2.nodes
        = fs.nodes.insert w.name (writeNode w p now n) := by simp [writeAt, hn]
    simp only [hwrite, inoAt, hn, Option.map_some, Option.some.injEq, forall_eq']
    constructor
    · intro hall
      -- a write at another time is a change that can be seen
      rcases hall [] (n.modTime + 1) w.name with hsame | ⟨n', -, -, hn', hino, -⟩
      · rw [lookup_insert, hn, Option.some.injEq] at hsame
        have htime := congrArg Node.modTime hsame
        simp [writeNode] at htime
      · obtain rfl : n = n' := by simpa [hn] using hn'
        exact hino
    · intro hino p now k
      by_cases hk : k = w.name
      · subst hk
        exact .inr ⟨n, _, _, hn, hino, lookup_insert _⟩
      · exact .inl (lookup_insert_of_ne _ hk)

/-- A handle writes to the node it was opened for exactly if no other one is at its name. -/
lemma writesOpened_iff (t : History) (i : ℕ) : t.WritesOpened i ↔ t.Attached i := by
  unfold WritesOpened Attached
  refine forall_congr' fun w => forall_congr' fun ino => ?_
  refine forall_congr' fun _ => forall_congr' fun _ => ?_
  exact onlyTouches_writeAt_iff t.session.fs w ino

/-- No node with a handle is taken away from its name. -/
def Careful (t : History) (c : Call) : Prop := ∀ w ∈ t.session.handles, ¬ c.Takes w.name

instance (t : History) (c : Call) : Decidable (t.Careful c) :=
  inferInstanceAs (Decidable (∀ w ∈ t.session.handles, ¬ c.Takes w.name))

/-- Every handle has the node it was opened for at its name. -/
def Held (t : History) : Prop :=
  List.Forall₂ (fun w ino => inoAt t.session.fs w.name = some ino) t.session.handles t.opened

lemma drop_length_set (ws : List WriteHandle) (i : ℕ) (w : WriteHandle) :
    (ws.set i w).drop ws.length = [] :=
  drop_eq_nil_of_le (by simp)

lemma Held.step {t t' : History} {c : Call} (h : t.Held) (hcareful : t.Careful c)
    (hstep : t.step c = some t') : t'.Held := by
  obtain ⟨s, hs, rfl⟩ := Option.map_eq_some_iff.mp hstep
  obtain ⟨hedits, hhandled⟩ := Session.step_edits hs
  have hkept : List.Forall₂ (fun w ino => inoAt s.fs w.name = some ino) t.session.handles
      t.opened := by
    refine List.Forall₂.imp ?_ ((forall₂_and_left _ _).mpr ⟨hcareful, h⟩)
    rintro w ino ⟨hw, hino⟩
    exact hedits.keeps hw hino
  unfold Held
  cases hhandled with
  | same heq => simpa [heq] using hkept
  | moved i w w' hw hname heq =>
    simp only [heq, drop_length_set, filterMap_nil, append_nil]
    obtain ⟨hi, rfl⟩ := List.getElem?_eq_some_iff.mp hw
    rw [forall₂_iff_get] at hkept ⊢
    refine ⟨by simpa using hkept.1, fun j hj hj' => ?_⟩
    simp only [get_eq_getElem, getElem_set]
    split_ifs with hij
    · subst hij
      rw [hname]
      exact hkept.2 i hi hj'
    · exact hkept.2 j (by simpa using hj) hj'
  | opened w ino hino heq =>
    simp only [heq, drop_left, filterMap_cons, hino, filterMap_nil]
    exact rel_append hkept (.cons hino .nil)

lemma Held.attached {t : History} (h : t.Held) (i : ℕ) : t.Attached i := by
  intro w ino hw hino j hj
  have := List.Forall₂.get h
  obtain ⟨hi, rfl⟩ := List.getElem?_eq_some_iff.mp hw
  obtain ⟨hi', rfl⟩ := List.getElem?_eq_some_iff.mp hino
  have hat := this hi hi'
  simp only [get_eq_getElem] at hat
  rw [hat] at hj
  exact (Option.some.inj hj).symm

lemma numbered_of_run {now : ℤ} {calls : List Call} {t : History}
    (hrun : Machine.run step (start now) calls = some t) : Numbered t.session.fs := by
  refine Machine.run_invariant_all (I := fun t : History => Numbered t.session.fs) ?_ ?_ hrun
  · intro t c t' h hstep
    obtain ⟨s, hs, rfl⟩ := Option.map_eq_some_iff.mp hstep
    exact (Session.step_edits hs).1.numbered h
  · have hroot : ∀ k ino, inoAt (new now) k = some ino → k = root ∧ ino = 0 := by
      intro k ino hk
      by_cases hkr : k = root
      · subst hkr
        exact ⟨rfl, by simpa [inoAt, new, eq_comm] using hk⟩
      · simp [inoAt, new, lookup_insert_of_ne _ hkr] at hk
    refine ⟨fun k ino hk => ?_, fun j k ino hj hk => ?_⟩
    · rw [(hroot k ino hk).2]
      exact Nat.one_pos
    · rw [(hroot j ino hj).1, (hroot k ino hk).1]

lemma length_opened_of_run {now : ℤ} {calls : List Call} {t : History}
    (hrun : Machine.run step (start now) calls = some t) :
    t.opened.length = t.session.handles.length := by
  refine Machine.run_invariant_all
    (I := fun t : History => t.opened.length = t.session.handles.length) ?_ rfl hrun
  intro t c t' h hstep
  obtain ⟨s, hs, rfl⟩ := Option.map_eq_some_iff.mp hstep
  cases (Session.step_edits hs).2 with
  | same heq => simp [heq, h]
  | moved i w w' hw hname heq => simp [heq, drop_length_set, h]
  | opened w ino hino heq => simp [heq, hino, h]

/-- A handle writes only to the node it was opened for exactly if no other node is at its name. -/
theorem writes_opened_iff_attached (now : ℤ) (calls : List Call) (t : History)
    (hrun : Machine.run step (start now) calls = some t) :
    Numbered t.session.fs ∧ t.opened.length = t.session.handles.length ∧
      (∀ i, t.WritesOpened i ↔ t.Attached i) ∧
      (Machine.Obeys step Careful (start now) calls → ∀ i, t.WritesOpened i) := by
  refine ⟨numbered_of_run hrun, length_opened_of_run hrun, t.writesOpened_iff, fun hcareful i => ?_⟩
  have hstart : (start now).Held := List.Forall₂.nil
  have hheld : t.Held := Machine.run_invariant (fun s c s' hs hc => hs.step hc) hstart hcareful hrun
  exact (t.writesOpened_iff i).mpr (hheld.attached i)

def besideOther : List Call :=
  [.openFile (str "f") { wronly := true, create := true } 0o644 1,
    .writeFile (str "g") (str "x") 0o644 2, .write 0 (str "y") 3, .remove (str "g"),
    .mkdir (str "g") 0o755 4]

theorem besideOther_writes_opened : ∃ t, Machine.run step (start 0) besideOther = some t ∧
    t.opened = [1] ∧ t.WritesOpened 0 := by
  obtain ⟨t, ht, hopened⟩ := (Option.any_eq_true (fun t : History => t.opened == [1])
    (Machine.run step (start 0) besideOther)).mp (by decide +kernel)
  refine ⟨t, ht, by simpa using hopened, ?_⟩
  exact (writes_opened_iff_attached 0 besideOther t ht).2.2.2 (by decide +kernel) 0

def madeAgain : List Call :=
  [.openFile (str "f") { wronly := true, create := true } 0o644 1, .remove (str "f"),
    .openFile (str "f") { wronly := true, create := true } 0o644 2]

/-- The first handle writes to the second file. -/
theorem stale_handle_writes_other : ∃ t, Machine.run step (start 0) madeAgain = some t ∧
    t.opened = [1, 2] ∧ inoAt t.session.fs (str "f") = some 2 ∧ ¬ t.WritesOpened 0 := by
  obtain ⟨t, ht, hall⟩ := (Option.any_eq_true (fun t : History => t.opened == [1, 2] &&
      (inoAt t.session.fs (str "f") == some 2) &&
        (t.session.handles[0]?.map (·.name) == some (str "f")))
    (Machine.run step (start 0) madeAgain)).mp (by decide +kernel)
  simp only [Bool.and_eq_true, beq_iff_eq, Option.map_eq_some_iff] at hall
  obtain ⟨⟨hopened, hino⟩, w, hw, hname⟩ := hall
  refine ⟨t, ht, hopened, hino, fun hwrites => ?_⟩
  have hattached := (t.writesOpened_iff 0).mp hwrites w 1 hw (by simp [hopened]) 2 (hname ▸ hino)
  exact absurd hattached (by decide)

end History

end GoSpidermonkey.Fs
