import GoSpidermonkey.Go.Path

/-!
# The in-memory file system

`fs.MemFS`: a flat map from path names to nodes, guarded by one lock, and write handles that
remember the name they were opened under. Each method is a function from the file system before the
call to its result and the file system after it.

A node has the number of the `node` value it stands for, so that a handle's node can be told from
another one at the same name. A `range` over the map may visit entries inserted on the way or not,
in any order: `rename` takes the sequence of keys it visits.
-/

open GoSpidermonkey.Path

namespace GoSpidermonkey.Fs

/-! ### Modes and flags -/

/-- An `fs.FileMode`. -/
abbrev FileMode := BitVec 32

def modeDir : FileMode := 0x80000000

def modePerm : FileMode := 0o777

def perm (m : FileMode) : FileMode := m &&& modePerm

/-- `FileMode.IsDir`: the bit of `ModeDir`. -/
def isDir (m : FileMode) : Bool := m.getLsbD 31

@[simp] lemma isDir_perm (m : FileMode) : isDir (perm m) = false := by
  simp [isDir, perm, modePerm]

@[simp] lemma isDir_mkdir (m : FileMode) : isDir (modeDir ||| perm m) = true := by
  simp [isDir, modeDir]

/-- The mode after a `Chmod`. -/
def chmodMode (old new : FileMode) : FileMode := (old &&& ~~~modePerm) ||| perm new

@[simp] lemma isDir_chmodMode (old new : FileMode) : isDir (chmodMode old new) = isDir old := by
  simp [isDir, chmodMode, perm, modePerm]

/-- The bits of the `flag` argument of `OpenFile`. -/
structure OpenFlag where
  wronly : Bool := false
  rdwr : Bool := false
  append : Bool := false
  create : Bool := false
  excl : Bool := false
  trunc : Bool := false
  deriving DecidableEq

def OpenFlag.write (f : OpenFlag) : Bool := f.wronly || f.rdwr || f.append || f.create || f.trunc

/-! ### Nodes and handles -/

structure Node where
  ino : ℕ
  data : Bytes
  mode : FileMode
  modTime : ℤ

abbrev Nodes := Finmap fun _ : Bytes => Node

structure WriteHandle where
  name : Bytes
  flag : OpenFlag
  pos : ℕ
  deriving DecidableEq

def WriteHandle.start (h : WriteHandle) (n : Node) : ℕ :=
  if h.flag.append then n.data.length else h.pos

structure MemFS where
  nodes : Nodes
  nextIno : ℕ

/-- `NewMemFS`. -/
def new (now : ℤ) : MemFS where
  nodes := (∅ : Nodes).insert root ⟨0, [], modeDir ||| 0o755, now⟩
  nextIno := 1

inductive FsErr where
  | invalid
  | notExist
  | exist
  deriving DecidableEq

/-- An `fs.PathError`. -/
structure PathError where
  op : Bytes
  path : Bytes
  err : FsErr
  deriving DecidableEq

/-- What `OpenFile` returns. -/
inductive Opened where
  | dir
  | read (data : Bytes)
  | write (h : WriteHandle)
  deriving DecidableEq

namespace MemFS

variable (fs : MemFS)

def checkParent (op name : Bytes) : Except PathError Unit :=
  match fs.nodes.lookup (dir name) with
  | none => .error ⟨op, name, .notExist⟩
  | some p => if isDir p.mode then .ok () else .error ⟨op, name, .invalid⟩

/-- `Open`. -/
def openRead (name : Bytes) : Except PathError Opened :=
  if ¬ validPath name then .error ⟨str "open", name, .invalid⟩
  else
    match fs.nodes.lookup name with
    | none => .error ⟨str "open", name, .notExist⟩
    | some n => if isDir n.mode then .ok .dir else .ok (.read n.data)

/-- The end of `OpenFile`: the node `n` under `name` and a write handle for it. -/
def openNode (name : Bytes) (flag : OpenFlag) (n : Node) (now : ℤ) :
    Except PathError Opened × MemFS :=
  (.ok (.write ⟨name, flag, if flag.append then n.data.length else 0⟩),
    { fs with nodes := fs.nodes.insert name { n with modTime := now } })

def openFile (name : Bytes) (flag : OpenFlag) (mode : FileMode) (now : ℤ) :
    Except PathError Opened × MemFS :=
  if ¬ flag.write then (fs.openRead name, fs)
  else if ¬ validPath name ∨ name = root then (.error ⟨str "open", name, .invalid⟩, fs)
  else
    match fs.nodes.lookup name with
    | some n =>
      if isDir n.mode then (.error ⟨str "open", name, .invalid⟩, fs)
      else if flag.create ∧ flag.excl then (.error ⟨str "open", name, .exist⟩, fs)
      else fs.openNode name flag (if flag.trunc then { n with data := [] } else n) now
    | none =>
      if ¬ flag.create then (.error ⟨str "open", name, .notExist⟩, fs)
      else
        match fs.checkParent (str "open") name with
        | .error e => (.error e, fs)
        | .ok () =>
          openNode { fs with nextIno := fs.nextIno + 1 } name flag
            ⟨fs.nextIno, [], perm mode, now⟩ now

def mkdir (name : Bytes) (mode : FileMode) (now : ℤ) : Except PathError Unit × MemFS :=
  if ¬ validPath name ∨ name = root then (.error ⟨str "mkdir", name, .invalid⟩, fs)
  else if name ∈ fs.nodes then (.error ⟨str "mkdir", name, .exist⟩, fs)
  else
    match fs.checkParent (str "mkdir") name with
    | .error e => (.error e, fs)
    | .ok () =>
      (.ok (), { fs with
        nodes := fs.nodes.insert name ⟨fs.nextIno, [], modeDir ||| perm mode, now⟩
        nextIno := fs.nextIno + 1 })

/-- The part of `MkdirAll` after the parents: an existing directory is no error. -/
def mkdirLast (name : Bytes) (mode : FileMode) (now : ℤ) : Except PathError Unit × MemFS :=
  match fs.mkdir name mode now with
  | (.ok (), fs') => (.ok (), fs')
  | (.error e, fs') =>
    match fs'.nodes.lookup name with
    | some n => if isDir n.mode then (.ok (), fs') else (.error e, fs')
    | none => (.error e, fs')

/-- The recursion of `MkdirAll` over the parents. -/
def mkdirAllLoop (mode : FileMode) (now : ℤ) : ℕ → MemFS → Bytes → Except PathError Unit × MemFS
  | 0, fs, _ => (.ok (), fs)
  | n + 1, fs, name =>
    if ¬ validPath name then (.error ⟨str "mkdir", name, .invalid⟩, fs)
    else if name = root then (.ok (), fs)
    else if dir name = root then fs.mkdirLast name mode now
    else
      match mkdirAllLoop mode now n fs (dir name) with
      | (.error e, fs') => (.error e, fs')
      | (.ok (), fs') => fs'.mkdirLast name mode now

/-- `MkdirAll`; the fuel is never used up (`mkdirAll_eq`). -/
def mkdirAll (name : Bytes) (mode : FileMode) (now : ℤ) : Except PathError Unit × MemFS :=
  mkdirAllLoop mode now (name.length + 1) fs name

lemma mkdirAllLoop_congr {mode : FileMode} {now : ℤ} {n m : ℕ} {name : Bytes}
    (hn : name.length < n) (hm : name.length < m) :
    mkdirAllLoop mode now n fs name = mkdirAllLoop mode now m fs name := by
  induction n generalizing m name with
  | zero => omega
  | succ n ih =>
    obtain ⟨m, rfl⟩ : ∃ k, m = k + 1 := ⟨m - 1, by omega⟩
    simp only [mkdirAllLoop]
    split_ifs with hv hroot hdir
    · rfl
    · rfl
    · have hpos := validPath_length_pos hv
      have : mkdirAllLoop mode now n fs (dir name) = mkdirAllLoop mode now m fs (dir name) := by
        rcases dir_shorter name with h | h | h
        · exact absurd h hdir
        · obtain ⟨n, rfl⟩ : ∃ k, n = k + 1 := ⟨n - 1, by omega⟩
          obtain ⟨m, rfl⟩ : ∃ k, m = k + 1 := ⟨m - 1, by omega⟩
          simp [h, mkdirAllLoop, show validPath [slash] = false by decide]
        · exact ih (by omega) (by omega)
      rw [this]
    · rfl

lemma mkdirAll_eq (name : Bytes) (mode : FileMode) (now : ℤ) :
    fs.mkdirAll name mode now =
      if ¬ validPath name then (.error ⟨str "mkdir", name, .invalid⟩, fs)
      else if name = root then (.ok (), fs)
      else if dir name = root then fs.mkdirLast name mode now
      else
        match fs.mkdirAll (dir name) mode now with
        | (.error e, fs') => (.error e, fs')
        | (.ok (), fs') => fs'.mkdirLast name mode now := by
  rw [mkdirAll, mkdirAllLoop]
  split_ifs with hv hroot hdir
  · rfl
  · rfl
  · have : mkdirAllLoop mode now name.length fs (dir name) = fs.mkdirAll (dir name) mode now := by
      rcases dir_shorter name with h | h | h
      · exact absurd h hdir
      · have hpos := validPath_length_pos hv
        obtain ⟨k, hk⟩ : ∃ k, name.length = k + 1 := ⟨name.length - 1, by omega⟩
        simp [h, hk, mkdirAll, mkdirAllLoop, show validPath [slash] = false by decide]
      · exact mkdirAllLoop_congr fs h (Nat.lt_succ_self _)
    rw [this]
  · rfl

/-- Some entry lies directly in the directory. -/
def hasEntry (name : Bytes) : Prop := ∃ p ∈ fs.nodes.keys, dir p = name

instance (name : Bytes) : Decidable (fs.hasEntry name) :=
  inferInstanceAs (Decidable (∃ p ∈ fs.nodes.keys, dir p = name))

def remove (name : Bytes) : Except PathError Unit × MemFS :=
  if ¬ validPath name ∨ name = root then (.error ⟨str "remove", name, .invalid⟩, fs)
  else
    match fs.nodes.lookup name with
    | none => (.error ⟨str "remove", name, .notExist⟩, fs)
    | some n =>
      if isDir n.mode ∧ fs.hasEntry name then (.error ⟨str "remove", name, .invalid⟩, fs)
      else (.ok (), { fs with nodes := fs.nodes.erase name })

end MemFS

/-- One turn of the loop of `Rename`: a visited key that is (still) there moves along. -/
def moveEntry (oldname newname : Bytes) (m : Nodes) (p : Bytes) : Nodes :=
  match m.lookup p with
  | none => m
  | some child =>
    if (oldname ++ [slash]).isPrefixOf p then
      (m.erase p).insert (newname ++ slash :: p.drop (oldname.length + 1)) child
    else m

namespace MemFS

variable (fs : MemFS)

/-- `Rename`; `order` has the keys that the loop over the map visits. -/
def rename (oldname newname : Bytes) (order : List Bytes) : Except PathError Unit × MemFS :=
  if ¬ validPath oldname ∨ oldname = root then (.error ⟨str "rename", oldname, .invalid⟩, fs)
  else if ¬ validPath newname ∨ newname = root then (.error ⟨str "rename", newname, .invalid⟩, fs)
  else
    match fs.nodes.lookup oldname with
    | none => (.error ⟨str "rename", oldname, .notExist⟩, fs)
    | some n =>
      if (fs.nodes.lookup newname).any fun t => isDir t.mode then
        (.error ⟨str "rename", newname, .exist⟩, fs)
      else
        match fs.checkParent (str "rename") newname with
        | .error e => (.error e, fs)
        | .ok () =>
          let moved := (fs.nodes.erase oldname).insert newname n
          if isDir n.mode then
            (.ok (), { fs with nodes := order.foldl (moveEntry oldname newname) moved })
          else (.ok (), { fs with nodes := moved })

def chmod (name : Bytes) (mode : FileMode) : Except PathError Unit × MemFS :=
  if ¬ validPath name then (.error ⟨str "chmod", name, .invalid⟩, fs)
  else
    match fs.nodes.lookup name with
    | none => (.error ⟨str "chmod", name, .notExist⟩, fs)
    | some n =>
      (.ok (), { fs with nodes := fs.nodes.insert name { n with mode := chmodMode n.mode mode } })

def chtimes (name : Bytes) (mtime : ℤ) : Except PathError Unit × MemFS :=
  if ¬ validPath name then (.error ⟨str "chtimes", name, .invalid⟩, fs)
  else
    match fs.nodes.lookup name with
    | none => (.error ⟨str "chtimes", name, .notExist⟩, fs)
    | some n => (.ok (), { fs with nodes := fs.nodes.insert name { n with modTime := mtime } })

/-! ### Writing -/

/-- The data after a write at `pos`: grown with zeros as far as necessary, then overwritten. -/
def overwrite (data : Bytes) (pos : ℕ) (p : Bytes) : Bytes :=
  let grown := data ++ List.replicate (pos + p.length - data.length) 0
  grown.take pos ++ p ++ grown.drop (pos + p.length)

def writeNode (h : WriteHandle) (p : Bytes) (now : ℤ) (n : Node) : Node :=
  { n with data := overwrite n.data (h.start n) p, modTime := now }

/-- `writeHandle.Write` for a handle: the count, the handle and the file system after it. -/
def writeAt (h : WriteHandle) (p : Bytes) (now : ℤ) :
    Except PathError ℕ × WriteHandle × MemFS :=
  match fs.nodes.lookup h.name with
  | none => (.error ⟨str "write", h.name, .notExist⟩, h, fs)
  | some n =>
    (.ok p.length, { h with pos := h.start n + p.length },
      { fs with nodes := fs.nodes.insert h.name (writeNode h p now n) })

inductive ReadErr where
  | path (e : PathError)
  | eof

/-- `writeHandle.Read` into a buffer of length `len`: the data and the handle after it. -/
def readAt (h : WriteHandle) (len : ℕ) : Except ReadErr Bytes × WriteHandle :=
  if h.flag.wronly ∧ ¬ h.flag.rdwr then (.error (.path ⟨str "read", h.name, .invalid⟩), h)
  else
    match fs.nodes.lookup h.name with
    | none => (.error (.path ⟨str "write", h.name, .notExist⟩), h)
    | some n =>
      if n.data.length ≤ h.pos then (.error .eof, h)
      else
        let c := (n.data.drop h.pos).take len
        (.ok c, { h with pos := h.pos + c.length })

def writeFile (name data : Bytes) (mode : FileMode) (now : ℤ) : Except PathError Unit × MemFS :=
  match fs.openFile name { wronly := true, create := true, trunc := true } mode now with
  | (.error e, fs') => (.error e, fs')
  | (.ok (.write h), fs') =>
    match fs'.writeAt h data now with
    | (.error e, _, fs'') => (.error e, fs'')
    | (.ok _, _, fs'') => (.ok (), fs'')
  | (.ok _, fs') => (.ok (), fs')

end MemFS

end GoSpidermonkey.Fs
