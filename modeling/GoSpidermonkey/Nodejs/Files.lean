import GoSpidermonkey.Nodejs.RemoveAll
import GoSpidermonkey.Nodejs.Resolve

/-!
# Files and descriptors of node:fs

The file calls of `js/corelibs.js` over the host operations of `runtime.go` and `fsextra.go`, on an
in-memory file system. A descriptor is a copy of the whole file with a position: `opFSOpen` takes
the copy, reads and writes work on it, and `opFSCloseFD` writes it back when something marked it
dirty. Nothing in between touches the file system.

`Runtime.call` runs one call of the guest. Positions, offsets and lengths are the integers the guest
passes; an argument that is not a number is `none`.
-/

open GoSpidermonkey.Path GoSpidermonkey.Fs

namespace GoSpidermonkey.Nodejs.Files

/-! ### Paths -/

/-- `pathClean`: a `..` takes back the element before it, if there is one. -/
def pathClean (p : Bytes) : Bytes :=
  [slash].intercalate <| (p.splitOn slash).foldl (fun out seg =>
    if seg = [] ∨ seg = str "." then out
    else if seg = str ".." then out.dropLast
    else out ++ [seg]) []

/-- `strings.ReplaceAll(s, "//", "/")`. -/
def mergeSlashes : Bytes → Bytes
  | a :: b :: rest =>
    if a = slash ∧ b = slash then slash :: mergeSlashes rest else a :: mergeSlashes (b :: rest)
  | s => s

/-- `guestPath`: a path of the guest as a name of the file system. -/
def guestPath (p : Bytes) : Bytes :=
  let p := trimSlash p
  if p = [] then root
  else
    let cleaned := pathClean (trimSlash (mergeSlashes (slash :: p)))
    if cleaned = [] then root else cleaned

/-! ### Errors and results -/

inductive Err
  | ebadf
  | efbig
  /-- `checkExclusive` found the path. -/
  | eexist
  | unsupported (flags : Bytes)
  | isDirectory (path : Bytes)
  | fs (e : PathError)
  | tree (e : TreeErr)
  /-- The `RangeError` of a typed array. -/
  | range
  deriving DecidableEq

inductive Result
  | opened (fd : ℕ)
  /-- The number of bytes read, and the buffer of the caller after it. -/
  | read (bytesRead : ℕ) (buffer : Bytes)
  | wrote (n : ℕ)
  | done
  | error (e : Err)
  deriving DecidableEq

/-! ### The file system -/

/-- `fs.Stat` succeeds. -/
def pathExists (fs : MemFS) (p : Bytes) : Bool :=
  match fs.openRead p with
  | .ok _ => true
  | .error _ => false

def readFile (fs : MemFS) (p : Bytes) : Except Err Bytes :=
  match fs.openRead p with
  | .ok (.read data) => .ok data
  | .ok _ => .error (.isDirectory p)
  | .error e => .error (.fs e)

def outcome : Except PathError Unit → Result
  | .ok () => .done
  | .error e => .error (.fs e)

lemma outcome_eq_done {r : Except PathError Unit} : outcome r = .done ↔ r = .ok () := by
  cases r with
  | ok _ | error e => simp [outcome]

/-! ### Descriptors -/

/-- The flags `opFSOpen` knows. -/
inductive Flag
  | r
  | rPlus
  | w
  | wPlus
  | a
  | aPlus
  deriving DecidableEq

def Flag.text : Flag → Bytes
  | .r => str "r"
  | .rPlus => str "r+"
  | .w => str "w"
  | .wPlus => str "w+"
  | .a => str "a"
  | .aPlus => str "a+"

def flags : List Flag := [.r, .rPlus, .w, .wPlus, .a, .aPlus]

/-- The `switch` of `opFSOpen`. -/
def parseFlag (s : Bytes) : Option Flag := flags.find? fun f => f.text == s

/-- `openFile`. -/
structure OpenFile where
  path : Bytes
  data : Bytes
  pos : ℕ
  write : Bool
  append : Bool
  dirty : Bool
  deriving DecidableEq

def openData (fs : MemFS) (p : Bytes) : Flag → Except Err Bytes
  | .r | .rPlus => readFile fs p
  | .a | .aPlus => .ok ((readFile fs p).toOption.getD [])
  | .w | .wPlus => .ok []

/-- The descriptor `opFSOpen` makes. Only `w` and `w+` mark it dirty. -/
def openFile (p data : Bytes) (flag : Flag) : OpenFile where
  path := p
  data := data
  pos := 0
  write := flag ≠ .r
  append := flag = .a ∨ flag = .aPlus
  dirty := flag = .w ∨ flag = .wPlus

/-- The size up to which `opFSWriteFD` and `opFSFtruncate` grow a file. -/
def maxFDFileBytes : ℕ := 1 <<< 30

/-- `opFSReadFD`: the bytes read and the descriptor after it. -/
def OpenFile.read (f : OpenFile) (length : ℤ) (position : Option ℤ) : Bytes × OpenFile :=
  let pos := (position.getD f.pos).toNat
  let length := min length (f.data.length - pos)
  if f.data.length ≤ pos ∨ length ≤ 0 then ([], f)
  else
    ((f.data.drop pos).take length.toNat,
      if position.isSome then f else { f with pos := pos + length.toNat })

/-- `opFSWriteFD`. -/
def OpenFile.put (f : OpenFile) (data : Bytes) (position : Option ℤ) : Except Err ℕ × OpenFile :=
  if f.append ∨ position = none ∧ f.data.length ≤ f.pos then
    (.ok data.length, { f with
      data := f.data ++ data, pos := (f.data ++ data).length, dirty := true })
  else
    let writeAt := (position.getD f.pos).toNat
    if maxFDFileBytes < writeAt + data.length then (.error .efbig, f)
    else
      (.ok data.length, { f with
        data := MemFS.overwrite f.data writeAt data
        pos := if position.isSome then f.pos else writeAt + data.length
        dirty := true })

/-- The bytes after `ftruncate`. -/
def resize (data : Bytes) (n : ℕ) : Bytes := data.take n ++ List.replicate (n - data.length) 0

/-- `opFSFtruncate`. -/
def OpenFile.truncate (f : OpenFile) (n : ℤ) : Except Err Unit × OpenFile :=
  if ¬ f.write then (.error .ebadf, f)
  else if maxFDFileBytes < n then (.error .efbig, f)
  else (.ok (), { f with data := resize f.data n.toNat, dirty := true })

/-! ### Buffers of the guest -/

/-- A `Buffer` or `Uint8Array`: part of an `ArrayBuffer`. -/
structure View where
  backing : Bytes
  byteOffset : ℕ
  length : ℕ
  inside : byteOffset + length ≤ backing.length

def View.bytes (v : View) : Bytes := (v.backing.drop v.byteOffset).take v.length

/-- `buffer.set(chunk, offset)`: the bytes of the view after it. -/
def View.set (v : View) (chunk : Bytes) (offset : ℤ) : Option Bytes :=
  if 0 ≤ offset ∧ offset + chunk.length ≤ v.length then
    some (v.bytes.take offset.toNat ++ chunk ++ v.bytes.drop (offset.toNat + chunk.length))
  else none

/-- The bytes of
`new Uint8Array(buffer.buffer, buffer.byteOffset + (offset || 0), length ?? buffer.length)`. -/
def View.slice (v : View) (offset length : Option ℤ) : Option Bytes :=
  let start := v.byteOffset + offset.getD 0
  let length := length.getD v.length
  if 0 ≤ start ∧ 0 ≤ length ∧ start + length ≤ v.backing.length then
    some ((v.backing.drop start.toNat).take length.toNat)
  else none

/-- The two forms of `writeSync`. -/
inductive WriteArg
  | text (data : Bytes) (position : Option ℤ)
  | view (v : View) (offset length position : Option ℤ)

def WriteArg.position : WriteArg → Option ℤ
  | .text _ position => position
  | .view _ _ _ position => position

/-- The bytes `writeSync` hands to the host. -/
def WriteArg.payload : WriteArg → Option Bytes
  | .text data _ => some data
  | .view v offset length _ => v.slice offset length

/-! ### Calls -/

/-- The file system and the descriptor table of a `Runtime`. -/
structure Runtime where
  fs : MemFS
  fds : Finmap fun _ : ℕ => OpenFile
  nextFD : ℕ

namespace Runtime

variable (rt : Runtime)

def opFSOpen (p flags : Bytes) : Result × Runtime :=
  match parseFlag flags with
  | none => (.error (.unsupported flags), rt)
  | some flag =>
    match openData rt.fs p flag with
    | .error e => (.error e, rt)
    | .ok data =>
      (.opened (rt.nextFD + 1), { rt with
        nextFD := rt.nextFD + 1
        fds := rt.fds.insert (rt.nextFD + 1) (openFile p data flag) })

def checkExclusive (p flags : Bytes) : Bool := ch 'x' ∈ flags ∧ pathExists rt.fs (guestPath p)

def baseFlags (flags : Bytes) : Bytes :=
  let base := flags.filter fun c => c != ch 'x' && c != ch 's'
  if base = [] then str "r" else base

def openSync (p flags : Bytes) : Result × Runtime :=
  if rt.checkExclusive p flags then (.error .eexist, rt)
  else rt.opFSOpen (guestPath p) (baseFlags flags)

def setFD (fd : ℕ) (f : OpenFile) : Runtime := { rt with fds := rt.fds.insert fd f }

/-- `readSync`: the position has moved even when the buffer cannot take what was read. -/
def readSync (fd : ℕ) (v : View) (offset length position : Option ℤ) : Result × Runtime :=
  match rt.fds.lookup fd with
  | none => (.error .ebadf, rt)
  | some f =>
    let (chunk, f') := f.read (length.getD v.length) position
    match v.set chunk (offset.getD 0) with
    | none => (.error .range, rt.setFD fd f')
    | some buffer => (.read chunk.length buffer, rt.setFD fd f')

def writeSync (fd : ℕ) (arg : WriteArg) : Result × Runtime :=
  match arg.payload with
  | none => (.error .range, rt)
  | some data =>
    match rt.fds.lookup fd with
    | none => (.error .ebadf, rt)
    | some f =>
      match f.put data arg.position with
      | (.error e, f') => (.error e, rt.setFD fd f')
      | (.ok n, f') => (.wrote n, rt.setFD fd f')

def ftruncateSync (fd : ℕ) (len : ℤ) : Result × Runtime :=
  match rt.fds.lookup fd with
  | none => (.error .ebadf, rt)
  | some f =>
    match f.truncate len with
    | (.error e, f') => (.error e, rt.setFD fd f')
    | (.ok (), f') => (.done, rt.setFD fd f')

/-- `closeSync`: an unknown descriptor is no error, a clean one is forgotten. -/
def closeSync (fd : ℕ) (now : ℤ) : Result × Runtime :=
  match rt.fds.lookup fd with
  | none => (.done, rt)
  | some f =>
    if f.dirty then
      let stored := rt.fs.writeFile f.path f.data 0o644 now
      (outcome stored.1, { rt with fds := rt.fds.erase fd, fs := stored.2 })
    else (.done, { rt with fds := rt.fds.erase fd })

def onFS (r : Except PathError Unit × MemFS) : Result × Runtime :=
  (outcome r.1, { rt with fs := r.2 })

def opFSWriteFile (p data : Bytes) (append : Bool) (now : ℤ) : Result × Runtime :=
  if append then
    match rt.fs.openFile p { wronly := true, create := true, append := true } 0o644 now with
    | (.error e, fs') => (.error (.fs e), { rt with fs := fs' })
    | (.ok (.write h), fs') =>
      match fs'.writeAt h data now with
      | (.error e, _, fs'') => (.error (.fs e), { rt with fs := fs'' })
      | (.ok _, _, fs'') => (.done, { rt with fs := fs'' })
    | (.ok _, fs') => (.done, { rt with fs := fs' })
  else rt.onFS (rt.fs.writeFile p data 0o644 now)

/-- `writeFileSync` and, with `append` set, `appendFileSync`. -/
def writeFileSync (p data flag : Bytes) (append : Bool) (now : ℤ) : Result × Runtime :=
  if rt.checkExclusive p flag then (.error .eexist, rt)
  else rt.opFSWriteFile (guestPath p) data (append || ch 'a' ∈ flag) now

/-- The loop of a recursive `opFSMkdir` over the directories on the way. -/
def mkdirAll (now : ℤ) : List Bytes → MemFS → Except PathError Unit × MemFS
  | [], fs => (.ok (), fs)
  | d :: rest, fs =>
    match fs.openRead d with
    | .ok .dir => mkdirAll now rest fs
    | _ =>
      match fs.mkdir d 0o755 now with
      | (.ok (), fs') => mkdirAll now rest fs'
      | (.error e, fs') => if e.err = .exist then mkdirAll now rest fs' else (.error e, fs')

/-- `opFSMkdir`. -/
def mkdirSync (p : Bytes) (recursive : Bool) (now : ℤ) : Result × Runtime :=
  let p := guestPath p
  if recursive then
    let segs := p.splitOn slash
    rt.onFS (mkdirAll now (segs.inits.tail.map [slash].intercalate) rt.fs)
  else rt.onFS (rt.fs.mkdir p 0o755 now)

/-- `opFSRm`; the calls of `removeAll` are nested no deeper than the longest name is long. -/
def rmSync (p : Bytes) (recursive force : Bool) : Result × Runtime :=
  let p := guestPath p
  match rt.fs.openRead p with
  | .error e => (if force then .done else .error (.fs e), rt)
  | .ok opened =>
    if opened = .dir ∧ recursive then
      match removeAll (rt.fs.nodes.keys.sup List.length + 2) rt.fs p with
      | some (.ok (), fs') => (.done, { rt with fs := fs' })
      | some (.error e, fs') => (.error (.tree e), { rt with fs := fs' })
      | none => (.done, rt)
    else
      let removed := rt.fs.remove p
      (if force then .done else outcome removed.1, { rt with fs := removed.2 })

/-- `opFSCopyFile`. -/
def copyFileSync (src dest : Bytes) (now : ℤ) : Result × Runtime :=
  match readFile rt.fs (guestPath src) with
  | .error e => (.error e, rt)
  | .ok data => rt.onFS (rt.fs.writeFile (guestPath dest) data 0o644 now)

/-- `opFSChmod` and `opFSUtimes`: the target must exist. -/
def onExisting (p : Bytes) (change : Bytes → Except PathError Unit × MemFS) : Result × Runtime :=
  match rt.fs.openRead (guestPath p) with
  | .error e => (.error (.fs e), rt)
  | .ok _ => rt.onFS (change (guestPath p))

end Runtime

inductive Call
  | openSync (path flags : Bytes)
  | readSync (fd : ℕ) (v : View) (offset length position : Option ℤ)
  | writeSync (fd : ℕ) (arg : WriteArg)
  | ftruncateSync (fd : ℕ) (len : ℤ)
  | closeSync (fd : ℕ) (now : ℤ)
  | writeFileSync (path data flag : Bytes) (append : Bool) (now : ℤ)
  | mkdirSync (path : Bytes) (recursive : Bool) (now : ℤ)
  | unlinkSync (path : Bytes)
  | rmSync (path : Bytes) (recursive force : Bool)
  | renameSync (old new : Bytes) (order : List Bytes)
  | copyFileSync (src dest : Bytes) (now : ℤ)
  | chmodSync (path : Bytes) (mode : FileMode)
  | utimesSync (path : Bytes) (mtime : ℤ)

def Runtime.call (rt : Runtime) : Call → Result × Runtime
  | .openSync p flags => rt.openSync p flags
  | .readSync fd v offset length position => rt.readSync fd v offset length position
  | .writeSync fd arg => rt.writeSync fd arg
  | .ftruncateSync fd len => rt.ftruncateSync fd len
  | .closeSync fd now => rt.closeSync fd now
  | .writeFileSync p data flag append now => rt.writeFileSync p data flag append now
  | .mkdirSync p recursive now => rt.mkdirSync p recursive now
  | .unlinkSync p => rt.onFS (rt.fs.remove (guestPath p))
  | .rmSync p recursive force => rt.rmSync p recursive force
  | .renameSync old new order => rt.onFS (rt.fs.rename (guestPath old) (guestPath new) order)
  | .copyFileSync src dest now => rt.copyFileSync src dest now
  | .chmodSync p mode => rt.onExisting p fun name => rt.fs.chmod name mode
  | .utimesSync p mtime => rt.onExisting p fun name => rt.fs.chtimes name mtime

/-! ### Opening a file -/

lemma openSync_flag (rt : Runtime) (q : Bytes) (flag : Flag) :
    rt.openSync q flag.text =
      match openData rt.fs (guestPath q) flag with
      | .error e => (.error e, rt)
      | .ok data => (.opened (rt.nextFD + 1), { rt with
          nextFD := rt.nextFD + 1
          fds := rt.fds.insert (rt.nextFD + 1) (openFile (guestPath q) data flag) }) := by
  have hx : ch 'x' ∉ flag.text := by cases flag <;> decide
  have hbase : Runtime.baseFlags flag.text = flag.text := by cases flag <;> decide
  have hparse : parseFlag flag.text = some flag := by cases flag <;> decide
  simp only [Runtime.openSync, Runtime.checkExclusive, hx, false_and, decide_false, hbase,
    Runtime.opFSOpen, hparse]
  rfl

/-! ### Storing a file -/

/-- A file can be stored under the name: there is one, or there is a directory to make it in. -/
structure Storable (fs : MemFS) (p : Bytes) : Prop where
  valid : validPath p
  notRoot : p ≠ root
  place : (∃ n, fs.nodes.lookup p = some n ∧ isDir n.mode = false) ∨
    fs.nodes.lookup p = none ∧ ∃ d, fs.nodes.lookup (dir p) = some d ∧ isDir d.mode

def content (fs : MemFS) (p : Bytes) : Option Bytes := (readFile fs p).toOption

lemma content_eq_some_iff {fs : MemFS} {p data : Bytes} :
    content fs p = some data ↔ readFile fs p = .ok data := by
  unfold content
  cases readFile fs p with
  | error e | ok d => simp [Except.toOption]

variable {fs : MemFS} {p : Bytes}

lemma Storable.readFile_of_content (h : Storable fs p) (hc : content fs p = none) :
    readFile fs p = .error (.fs ⟨str "open", p, .notExist⟩) := by
  rcases h.place with ⟨n, hn, hfile⟩ | ⟨hnone, -⟩
  · simp [content, readFile, MemFS.openRead, h.valid, hn, hfile, Except.toOption] at hc
  · simp [readFile, MemFS.openRead, h.valid, hnone]

def replaceFlag : OpenFlag := { wronly := true, create := true, trunc := true }

lemma Storable.openFile (h : Storable fs p) (mode : FileMode) (now : ℤ) :
    ∃ (fs₁ : MemFS) (n : Node), fs.openFile p replaceFlag mode now
        = (.ok (.write ⟨p, replaceFlag, 0⟩), fs₁) ∧
      fs₁.nodes.lookup p = some n ∧ isDir n.mode = false ∧ n.data = [] := by
  rcases h.place with ⟨n, hn, hfile⟩ | ⟨hnone, d, hd, hdir⟩
  · refine ⟨{ fs with nodes := fs.nodes.insert p { n with data := [], modTime := now } }, _, ?_,
      Finmap.lookup_insert _, hfile, rfl⟩
    simp [MemFS.openFile, OpenFlag.write, replaceFlag, h.valid, h.notRoot, hn, hfile,
      MemFS.openNode]
  · refine ⟨⟨fs.nodes.insert p ⟨fs.nextIno, [], perm mode, now⟩, fs.nextIno + 1⟩, _, ?_,
      Finmap.lookup_insert _, isDir_perm mode, rfl⟩
    simp [MemFS.openFile, OpenFlag.write, replaceFlag, h.valid, h.notRoot, hnone,
      MemFS.checkParent, hd, hdir, MemFS.openNode]

lemma Storable.writeFile (h : Storable fs p) (data : Bytes) (mode : FileMode) (now : ℤ) :
    ∃ fs', fs.writeFile p data mode now = (.ok (), fs') ∧ content fs' p = some data ∧
      Storable fs' p := by
  obtain ⟨fs₁, n, hopen, hn, hfile, hempty⟩ := h.openFile mode now
  let n' := MemFS.writeNode ⟨p, replaceFlag, 0⟩ data now n
  have hdata : n'.data = data := by
    simp [n', MemFS.writeNode, WriteHandle.start, replaceFlag, hempty, MemFS.overwrite]
  have hfile' : isDir n'.mode = false := hfile
  refine ⟨{ fs₁ with nodes := fs₁.nodes.insert p n' }, ?_, ?_, h.valid, h.notRoot,
    .inl ⟨n', Finmap.lookup_insert _, hfile'⟩⟩
  · have hwrite : fs.openFile p { wronly := true, create := true, trunc := true } mode now
        = (.ok (.write ⟨p, replaceFlag, 0⟩), fs₁) := hopen
    simp only [MemFS.writeFile, hwrite, MemFS.writeAt, hn]
    rfl
  · simp [content, readFile, MemFS.openRead, h.valid, hfile', hdata, Except.toOption]

lemma storable_of_writeFile {data : Bytes} {mode : FileMode} {now : ℤ} {fs' : MemFS}
    (h : fs.writeFile p data mode now = (.ok (), fs')) : Storable fs p := by
  by_contra hnot
  obtain ⟨e, hopen⟩ : ∃ e, fs.openFile p replaceFlag mode now = (.error e, fs) := by
    by_cases hpath : ¬ validPath p ∨ p = root
    · exact ⟨_, by simp only [MemFS.openFile, OpenFlag.write, replaceFlag, hpath, if_true]; rfl⟩
    obtain ⟨hinvalid, hroot⟩ := not_or.mp hpath
    have hvalid := not_not.mp hinvalid
    have hplace := fun hplace => hnot ⟨hvalid, hroot, hplace⟩
    cases hn : fs.nodes.lookup p with
    | some n =>
      have hdir : isDir n.mode = true := by
        by_contra hfile
        exact hplace (.inl ⟨n, hn, by simpa using hfile⟩)
      exact ⟨⟨str "open", p, .invalid⟩, by
        simp [MemFS.openFile, OpenFlag.write, replaceFlag, hn, hdir]⟩
    | none =>
      cases hparent : fs.checkParent (str "open") p with
      | ok _ => exact absurd (.inr ⟨hn, MemFS.checkParent_eq_ok.mp hparent⟩) hplace
      | error e =>
        exact ⟨e, by
          simp [MemFS.openFile, OpenFlag.write, replaceFlag, hvalid, hroot, hn, hparent]⟩
  have hwrite : fs.openFile p { wronly := true, create := true, trunc := true } mode now
      = (.error e, fs) := hopen
  simp [MemFS.writeFile, hwrite] at h

end GoSpidermonkey.Nodejs.Files
