import GoSpidermonkey.Lib.Transducer
import GoSpidermonkey.Nodejs.Files

/-!
# One descriptor against a POSIX file

What a program may expect of `openSync`, `readSync`, `writeSync`, `ftruncateSync` and `closeSync` on
one file is a byte array with a current position (`Posix`): every call acts on the file at once,
reads and writes happen at the position or at the one given, a write past the end fills the gap with
zeros, and a request for part of a buffer means that part.

The descriptors of `Files` keep to this only for regular calls (`Regular`).
-/

open GoSpidermonkey.Path GoSpidermonkey.Fs Transducer

namespace GoSpidermonkey.Nodejs.Files

open List

/-- The calls of a program that works with one file through one descriptor at a time. -/
inductive FdCall
  | openSync (flag : Flag)
  | readSync (v : View) (offset length position : Option ℤ)
  | writeSync (arg : WriteArg)
  | ftruncateSync (len : ℤ)
  | closeSync (now : ℤ)

/-! ### The file a program expects -/

/-- The place `n` bytes from `offset` on in a buffer of length `len`. -/
def subrange (len : ℕ) (offset length : Option ℤ) : Option (ℕ × ℕ) :=
  let offset := offset.getD 0
  let n := length.getD (len - offset)
  if 0 ≤ offset ∧ 0 ≤ n ∧ offset + n ≤ len then some (offset.toNat, n.toNat) else none

def place (pos : ℕ) : Option ℤ → Option ℕ
  | none => some pos
  | some p => if 0 ≤ p then some p.toNat else none

def WriteArg.requested : WriteArg → Option Bytes
  | .text data _ => some data
  | .view v offset length _ =>
    (subrange v.length offset length).map fun r => (v.bytes.drop r.1).take r.2

/-- A byte array with `xs` stored from `n` on; a gap is filled with zeros. -/
def store (data : Bytes) (n : ℕ) (xs : Bytes) : Bytes :=
  data.takeD n 0 ++ xs ++ data.drop (n + xs.length)

/-- An open descriptor. -/
structure Desc where
  pos : ℕ
  write : Bool
  append : Bool

/-- A file, if there is one, and the descriptor of the program on it. -/
structure Posix where
  file : Option Bytes
  desc : Option Desc

namespace Posix

variable (t : Posix)

def openSync (p : Bytes) (flag : Flag) : Result × Posix :=
  if (flag = .r ∨ flag = .rPlus) ∧ t.file = none then
    (.error (.fs ⟨str "open", p, .notExist⟩), t)
  else
    let data := if flag = .w ∨ flag = .wPlus then [] else t.file.getD []
    (.done, ⟨some data, some ⟨0, flag ≠ .r, flag = .a ∨ flag = .aPlus⟩⟩)

def readSync (v : View) (offset length position : Option ℤ) : Result × Posix :=
  match t.desc with
  | none => (.error .ebadf, t)
  | some d =>
    match subrange v.length offset length, place d.pos position with
    | some (offset, n), some at' =>
      let chunk := ((t.file.getD []).drop at').take n
      let buffer := v.bytes.take offset ++ chunk ++ v.bytes.drop (offset + chunk.length)
      let pos := if position.isSome then d.pos else d.pos + chunk.length
      (.read chunk.length buffer, { t with desc := some { d with pos := pos } })
    | _, _ => (.error .range, t)

def writeSync (arg : WriteArg) : Result × Posix :=
  match t.desc with
  | none => (.error .ebadf, t)
  | some d =>
    match arg.requested, place d.pos arg.position with
    | some data, some at' =>
      if ¬ d.write then (.error .ebadf, t)
      else if data = [] then (.wrote 0, t)
      else
        let file := t.file.getD []
        let at' := if d.append then file.length else at'
        let pos := if arg.position.isSome then d.pos else at' + data.length
        (.wrote data.length, ⟨some (store file at' data), some { d with pos := pos }⟩)
    | _, _ => (.error .range, t)

def ftruncateSync (len : ℤ) : Result × Posix :=
  match t.desc with
  | none => (.error .ebadf, t)
  | some d =>
    if ¬ d.write then (.error .ebadf, t)
    else (.done, { t with file := some ((t.file.getD []).takeD len.toNat 0) })

def closeSync : Result × Posix :=
  match t.desc with
  | none => (.error .ebadf, t)
  | some _ => (.done, { t with desc := none })

def step (p : Bytes) (t : Posix) : FdCall → Result × Posix
  | .openSync flag => t.openSync p flag
  | .readSync v offset length position => t.readSync v offset length position
  | .writeSync arg => t.writeSync arg
  | .ftruncateSync len => t.ftruncateSync len
  | .closeSync _ => t.closeSync

end Posix

/-! ### The descriptor the program gets -/

/-- A runtime, and the descriptor the program got last. -/
structure Session where
  rt : Runtime
  fd : ℕ

/-- One call on the path `q`; the number of a descriptor is not for the program to see. -/
def Session.step (q : Bytes) (s : Session) : FdCall → Result × Session
  | .openSync flag =>
    match s.rt.openSync q flag.text with
    | (.opened fd, rt) => (.done, ⟨rt, fd⟩)
    | (r, rt) => (r, ⟨rt, s.fd⟩)
  | .readSync v offset length position =>
    let r := s.rt.readSync s.fd v offset length position
    (r.1, ⟨r.2, s.fd⟩)
  | .writeSync arg =>
    let r := s.rt.writeSync s.fd arg
    (r.1, ⟨r.2, s.fd⟩)
  | .ftruncateSync len =>
    let r := s.rt.ftruncateSync s.fd len
    (r.1, ⟨r.2, s.fd⟩)
  | .closeSync now =>
    let r := s.rt.closeSync s.fd now
    (r.1, ⟨r.2, s.fd⟩)

/-- Part of a buffer, where a missing length stands for the whole length of the buffer. -/
def InRange (v : View) (offset length : Option ℤ) : Prop :=
  0 ≤ offset.getD 0 ∧ 0 ≤ length.getD v.length ∧
    offset.getD 0 + length.getD v.length ≤ v.length

instance (v : View) (offset length : Option ℤ) : Decidable (InRange v offset length) :=
  inferInstanceAs (Decidable (_ ∧ _ ∧ _))

/-- The buffer arguments of a write are in range. -/
def WriteArg.InRange : WriteArg → Prop
  | .text _ _ => True
  | .view v offset length _ => Files.InRange v offset length

/-- A write for which the descriptor acts like a file. -/
structure RegularWrite (f : OpenFile) (data : Bytes) (position : Option ℤ) : Prop where
  /-- The descriptor was not opened with `r`. -/
  write : f.write = true
  /-- A positioned write is not negative and not on an append descriptor. -/
  positioned : ∀ x ∈ position, 0 ≤ x ∧ f.append = false
  inside : f.append = false → position = none → f.pos ≤ f.data.length
  /-- A write of nothing neither moves an append descriptor nor grows the file. -/
  empty : data = [] → (f.append = true → f.pos = f.data.length) ∧ ∀ x ∈ position, x ≤ f.data.length
  size : f.append = false →
    (position.getD f.pos).toNat + data.length ≤ maxFDFileBytes

instance (f : OpenFile) (data : Bytes) (position : Option ℤ) :
    Decidable (RegularWrite f data position) :=
  decidable_of_iff (f.write = true ∧ (∀ x ∈ position, 0 ≤ x ∧ f.append = false) ∧
      (f.append = false → position = none → f.pos ≤ f.data.length) ∧
      (data = [] → (f.append = true → f.pos = f.data.length) ∧ ∀ x ∈ position, x ≤ f.data.length) ∧
      (f.append = false → (position.getD f.pos).toNat + data.length ≤ maxFDFileBytes))
    ⟨fun ⟨h₁, h₂, h₃, h₄, h₅⟩ => ⟨h₁, h₂, h₃, h₄, h₅⟩, fun ⟨h₁, h₂, h₃, h₄, h₅⟩ =>
      ⟨h₁, h₂, h₃, h₄, h₅⟩⟩

/-- A call for which the descriptor acts like a file. -/
def Regular (p : Bytes) (s : Session) : FdCall → Prop
  | .openSync _ => s.rt.fds.lookup s.fd = none
  | .readSync v offset length position => InRange v offset length ∧ ∀ x ∈ position, 0 ≤ x
  | .writeSync arg => arg.InRange ∧
    ∀ f ∈ s.rt.fds.lookup s.fd, ∀ data ∈ arg.requested, RegularWrite f data arg.position
  | .ftruncateSync len => len ≤ maxFDFileBytes
  -- the descriptor is open, and a file that `a` was to create has been written
  | .closeSync _ => ∃ f ∈ s.rt.fds.lookup s.fd, f.dirty = true ∨ content s.rt.fs p ≠ none

instance (arg : WriteArg) : Decidable arg.InRange := by
  cases arg <;> dsimp only [WriteArg.InRange] <;> infer_instance

instance (p : Bytes) (s : Session) (c : FdCall) : Decidable (Regular p s c) := by
  cases c <;> dsimp only [Regular] <;> infer_instance

/-- The descriptor `f` stands for the file and the descriptor of the specification. -/
inductive Stands (p : Bytes) : Session → Posix → Prop
  | closed {s : Session} (hs : Storable s.rt.fs p) (hfd : s.rt.fds.lookup s.fd = none) :
    Stands p s ⟨content s.rt.fs p, none⟩
  | opened {s : Session} (f : OpenFile) (hs : Storable s.rt.fs p)
    (hfd : s.rt.fds.lookup s.fd = some f) (hpath : f.path = p)
    (hclean : f.dirty = false → content s.rt.fs p = none ∨ content s.rt.fs p = some f.data) :
    Stands p s ⟨some f.data, some ⟨f.pos, f.write, f.append⟩⟩

lemma Stands.content_eq {p : Bytes} {s : Session} {t : Posix} (h : Stands p s t)
    (hdesc : t.desc = none) : content s.rt.fs p = t.file := by
  cases h with
  | closed hs hfd => rfl
  | opened f hs hfd hpath hclean => cases hdesc

/-! ### Parts of a buffer -/

lemma subrange_eq {v : View} {offset length : Option ℤ} (h : InRange v offset length) :
    subrange v.length offset length
      = some ((offset.getD 0).toNat, (length.getD v.length).toNat) := by
  obtain ⟨ho, hn, hsum⟩ := h
  cases length with
  | some n => simp_all [subrange]
  | none =>
    simp only [Option.getD_none] at hn hsum
    have hzero : offset.getD 0 = 0 := by omega
    simp [subrange, hzero]

lemma WriteArg.payload_eq {arg : WriteArg} (h : arg.InRange) :
    ∃ data, arg.payload = some data ∧ arg.requested = some data := by
  cases arg with
  | text data position => exact ⟨data, rfl, rfl⟩
  | view v offset length position =>
    have hrange : Files.InRange v offset length := h
    obtain ⟨ho, hn, hsum⟩ := hrange
    have hin := v.inside
    refine ⟨_, ?_, by rw [WriteArg.requested, subrange_eq h, Option.map_some]⟩
    have hstart : ((v.byteOffset : ℤ) + offset.getD 0).toNat
        = v.byteOffset + (offset.getD 0).toNat := by omega
    have hle : (length.getD v.length).toNat ≤ v.length - (offset.getD 0).toNat := by omega
    rw [WriteArg.payload, View.slice, if_pos (by omega), hstart, View.bytes, drop_take,
      drop_drop, take_take, min_eq_left hle]

/-! ### Bytes -/

lemma takeD_eq_append (data : Bytes) (n : ℕ) :
    data.takeD n 0 = data.take n ++ List.replicate (n - data.length) 0 := by
  induction n generalizing data with
  | zero => simp
  | succ n ih =>
    cases data with
    | nil => simp [replicate_succ]
    | cons b data => simp [List.takeD, ih]

lemma overwrite_eq_store (data : Bytes) (n : ℕ) (xs : Bytes) :
    MemFS.overwrite data n xs = store data n xs := by
  have htake : n - data.length ≤ n + xs.length - data.length := by omega
  simp [MemFS.overwrite, store, takeD_eq_append, take_append, drop_append, htake]

lemma store_length (data xs : Bytes) : store data data.length xs = data ++ xs := by
  simp [store, takeD_eq_append]

lemma store_nil {data : Bytes} {n : ℕ} (h : n ≤ data.length) : store data n [] = data := by
  simp [store, takeD_eq_take 0 h]

lemma resize_eq_takeD (data : Bytes) (n : ℕ) : resize data n = data.takeD n 0 :=
  (takeD_eq_append data n).symm

/-! ### One call -/

variable {p q : Bytes} {s : Session} {t : Posix}

/-- The answers to a call agree and the descriptor still stands for the file. -/
def Agrees (q : Bytes) (s : Session) (t : Posix) (c : FdCall) : Prop :=
  (s.step q c).1 = (t.step (guestPath q) c).1 ∧
    Stands (guestPath q) (s.step q c).2 (t.step (guestPath q) c).2

lemma openData_cases (hs : Storable s.rt.fs p) (flag : Flag) :
    ((flag = .r ∨ flag = .rPlus) ∧ content s.rt.fs p = none ∧
        openData s.rt.fs p flag = .error (.fs ⟨str "open", p, .notExist⟩)) ∨
      (¬ ((flag = .r ∨ flag = .rPlus) ∧ content s.rt.fs p = none) ∧ openData s.rt.fs p flag
        = .ok (if flag = .w ∨ flag = .wPlus then [] else (content s.rt.fs p).getD [])) := by
  cases hc : content s.rt.fs p with
  | none =>
    have hread := hs.readFile_of_content hc
    cases flag <;> simp [openData, hread, Except.toOption]
  | some data =>
    have hread := content_eq_some_iff.mp hc
    cases flag <;> simp [openData, hread, Except.toOption]

lemma agrees_openSync (h : Stands (guestPath q) s t) {flag : Flag}
    (hG : Regular (guestPath q) s (.openSync flag)) : Agrees q s t (.openSync flag) := by
  cases h with
  | opened f hs hfd hpath hclean =>
    have hnone : s.rt.fds.lookup s.fd = none := hG
    rw [hnone] at hfd
    cases hfd
  | closed hs hfd =>
    simp only [Agrees, Session.step, Posix.step, Posix.openSync, openSync_flag]
    rcases openData_cases hs flag with ⟨hflag, hc, hdata⟩ | ⟨hflag, hdata⟩
    · rw [hdata, if_pos ⟨hflag, hc⟩]
      exact ⟨rfl, .closed hs hfd⟩
    · rw [hdata, if_neg hflag]
      generalize hcopy : (if flag = .w ∨ flag = .wPlus then []
        else (content s.rt.fs (guestPath q)).getD []) = data
      refine ⟨rfl, .opened (s := ⟨_, s.rt.nextFD + 1⟩) (openFile (guestPath q) data flag) hs
        (Finmap.lookup_insert _) rfl fun hdirty => ?_⟩
      have hw : ¬ (flag = .w ∨ flag = .wPlus) := by simpa [openFile] using hdirty
      rw [if_neg hw] at hcopy
      show content s.rt.fs (guestPath q) = none ∨ content s.rt.fs (guestPath q) = some data
      rw [← hcopy]
      cases content s.rt.fs (guestPath q) with
      | none => exact .inl rfl
      | some data => exact .inr rfl

lemma Stands.setFD {f f' : OpenFile} (hs : Storable s.rt.fs p)
    (hpath : f'.path = p) (hclean : f'.dirty = false → f.dirty = false ∧ f'.data = f.data)
    (hf : f.dirty = false → content s.rt.fs p = none ∨ content s.rt.fs p = some f.data) :
    Stands p ⟨s.rt.setFD s.fd f', s.fd⟩ ⟨some f'.data, some ⟨f'.pos, f'.write, f'.append⟩⟩ := by
  refine .opened f' hs (Finmap.lookup_insert _) hpath fun hdirty => ?_
  obtain ⟨hd, hdata⟩ := hclean hdirty
  rw [hdata]
  exact hf hd

lemma read_eq (f : OpenFile) {n : ℤ} (hn : 0 ≤ n) {position : Option ℤ}
    (hpos : ∀ x ∈ position, 0 ≤ x) :
    ∃ at', place f.pos position = some at' ∧
      f.read n position = ((f.data.drop at').take n.toNat,
        { f with pos := if position.isSome then f.pos
          else f.pos + ((f.data.drop at').take n.toNat).length }) := by
  have hplace : place f.pos position = some (position.getD f.pos).toNat := by
    cases position with
    | none => simp [place]
    | some x => simp [place, hpos x rfl]
  refine ⟨_, hplace, ?_⟩
  generalize hat : (position.getD (f.pos : ℤ)).toNat = at'
  have hread : f.read n position
      = if f.data.length ≤ at' ∨ min n (f.data.length - at' : ℤ) ≤ 0 then ([], f)
        else ((f.data.drop at').take (min n (f.data.length - at' : ℤ)).toNat,
          if position.isSome then f
          else { f with pos := at' + (min n (f.data.length - at' : ℤ)).toNat }) := by
    rw [← hat]
    rfl
  rw [hread]
  by_cases hend : f.data.length ≤ at' ∨ min n (f.data.length - at' : ℤ) ≤ 0
  · -- nothing to read: past the end, or nothing asked for
    have hnil : (f.data.drop at').take n.toNat = [] := by
      rw [take_eq_nil_iff, drop_eq_nil_iff]
      omega
    rw [if_pos hend, hnil]
    simp
  · have hlen : ((f.data.drop at').take n.toNat).length
        = (min n (f.data.length - at' : ℤ)).toNat := by
      simp only [length_take, length_drop]
      omega
    have htake : (f.data.drop at').take (min n (f.data.length - at' : ℤ)).toNat
        = (f.data.drop at').take n.toNat := by
      rw [← hlen, length_take, take_eq_take_iff]
      omega
    rw [if_neg hend, htake, hlen]
    cases position with
    | none =>
      obtain rfl : f.pos = at' := by simpa using hat
      rfl
    | some x => rfl

lemma agrees_readSync (h : Stands (guestPath q) s t) {v : View} {offset length position : Option ℤ}
    (hG : Regular (guestPath q) s (.readSync v offset length position)) :
    Agrees q s t (.readSync v offset length position) := by
  obtain ⟨hrange, hpos⟩ := hG
  have hsub := subrange_eq hrange
  obtain ⟨ho, hn, hsum⟩ := hrange
  cases h with
  | closed hs hfd =>
    simp only [Agrees, Session.step, Posix.step, Posix.readSync, Runtime.readSync, hfd]
    exact ⟨trivial, .closed hs hfd⟩
  | opened f hs hfd hpath hclean =>
    obtain ⟨at', hplace, hread⟩ := read_eq f hn hpos
    have hlen : ((f.data.drop at').take (length.getD v.length).toNat).length
        ≤ (length.getD v.length).toNat := by simp
    have hset : v.set ((f.data.drop at').take (length.getD v.length).toNat) (offset.getD 0)
        = some _ := if_pos ⟨ho, by omega⟩
    simp only [Agrees, Session.step, Posix.step, Posix.readSync, Runtime.readSync, hfd, hread, hset,
      hsub, hplace, Option.getD_some]
    exact ⟨trivial, Stands.setFD hs hpath (fun hdirty => ⟨hdirty, rfl⟩) hclean⟩

lemma put_eq {f : OpenFile} {data : Bytes} {position : Option ℤ}
    (h : RegularWrite f data position) :
    ∃ at', place f.pos position = some at' ∧
      f.put data position = (.ok data.length, { f with
        data := if data = [] then f.data
          else store f.data (if f.append then f.data.length else at') data
        pos := if data = [] ∨ position.isSome then f.pos
          else (if f.append then f.data.length else at') + data.length
        dirty := true }) := by
  cases hposition : position with
  | some x =>
    -- a positioned write, which is not on an append descriptor
    obtain ⟨hx, happ⟩ := h.positioned x hposition
    have hsize := h.size happ
    refine ⟨x.toNat, by simp [place, hx], ?_⟩
    simp only [hposition, Option.getD_some] at hsize
    simp only [OpenFile.put, happ, Bool.false_eq_true, reduceCtorEq, false_and, or_false, if_false,
      Option.getD_some, Option.isSome_some, if_true, or_true, if_neg (not_lt.mpr hsize),
      overwrite_eq_store]
    by_cases hdata : data = []
    · have hle : x.toNat ≤ f.data.length := by
        have := (h.empty hdata).2 x hposition
        omega
      rw [if_pos hdata, hdata, store_nil hle]
    · rw [if_neg hdata]
  | none =>
    refine ⟨f.pos, rfl, ?_⟩
    by_cases hend : f.append = true ∨ f.data.length ≤ f.pos
    · -- the bytes go to the end, which is where they belong
      have hat : (if f.append then f.data.length else f.pos) = f.data.length := by
        split
        · rfl
        next happ =>
          have hle := h.inside (by simpa using happ) hposition
          rcases hend with hend | hend
          · exact absurd hend happ
          · omega
      have hput : f.put data none = (.ok data.length, { f with
          data := f.data ++ data, pos := (f.data ++ data).length, dirty := true }) := by
        simp [OpenFile.put, hend]
      rw [hput, hat, store_length]
      by_cases hdata : data = []
      · have hpos : f.pos = f.data.length := by
          by_cases happ : f.append = true
          · exact (h.empty hdata).1 happ
          · simpa [happ] using hat
        simp [hdata, hpos]
      · simp [hdata]
    · obtain ⟨happ, hlt⟩ := not_or.mp hend
      have happ : f.append = false := by simpa using happ
      have hsize := h.size happ
      simp only [hposition, Option.getD_none, Int.toNat_natCast] at hsize
      simp only [OpenFile.put, happ, Bool.false_eq_true, true_and, false_or, if_neg hlt,
        Option.getD_none, Int.toNat_natCast, if_neg (not_lt.mpr hsize), overwrite_eq_store,
        Option.isSome_none, or_false, if_false]
      by_cases hdata : data = []
      · simp [hdata, store_nil (not_le.mp hlt).le]
      · simp [hdata]

lemma agrees_writeSync (h : Stands (guestPath q) s t) {arg : WriteArg}
    (hG : Regular (guestPath q) s (.writeSync arg)) : Agrees q s t (.writeSync arg) := by
  obtain ⟨hrange, hwrite⟩ := hG
  obtain ⟨data, hpayload, hrequested⟩ := WriteArg.payload_eq hrange
  cases h with
  | closed hs hfd =>
    simp only [Agrees, Session.step, Posix.step, Posix.writeSync, Runtime.writeSync, hfd, hpayload]
    exact ⟨trivial, .closed hs hfd⟩
  | opened f hs hfd hpath hclean =>
    have hreg := hwrite f hfd data hrequested
    obtain ⟨at', hplace, hput⟩ := put_eq hreg
    simp only [Agrees, Session.step, Posix.step, Posix.writeSync, Runtime.writeSync, hfd, hpayload,
      hput, hrequested, hplace, hreg.write, not_true_eq_false, if_false, Option.getD_some]
    by_cases hdata : data = []
    · simp only [hdata, if_true, true_or]
      exact ⟨rfl, Stands.setFD hs hpath nofun hclean⟩
    · simp only [hdata, if_false, false_or]
      exact ⟨trivial, Stands.setFD hs hpath nofun hclean⟩

lemma agrees_ftruncateSync (h : Stands (guestPath q) s t) {len : ℤ}
    (hG : Regular (guestPath q) s (.ftruncateSync len)) : Agrees q s t (.ftruncateSync len) := by
  have hsize : ¬ (maxFDFileBytes : ℤ) < len := not_lt.mpr hG
  cases h with
  | closed hs hfd =>
    simp only [Agrees, Session.step, Posix.step, Posix.ftruncateSync, Runtime.ftruncateSync, hfd]
    exact ⟨trivial, .closed hs hfd⟩
  | opened f hs hfd hpath hclean =>
    simp only [Agrees, Session.step, Posix.step, Posix.ftruncateSync, Runtime.ftruncateSync, hfd,
      OpenFile.truncate, hsize, if_false, resize_eq_takeD, Option.getD_some]
    by_cases hw : f.write = true
    · simp only [hw, not_true_eq_false, if_false]
      exact ⟨trivial, Stands.setFD hs hpath nofun hclean⟩
    · rw [if_pos hw, if_pos hw]
      exact ⟨rfl, Stands.setFD hs hpath (fun hdirty => ⟨hdirty, rfl⟩) hclean⟩

lemma agrees_closeSync (h : Stands (guestPath q) s t) {now : ℤ}
    (hG : Regular (guestPath q) s (.closeSync now)) : Agrees q s t (.closeSync now) := by
  cases h with
  | closed hs hfd => simp [Regular, hfd] at hG
  | opened f hs hfd hpath hclean =>
    simp only [Regular, hfd, Option.mem_def, Option.some.injEq, exists_eq_left'] at hG
    simp only [Agrees, Session.step, Posix.step, Posix.closeSync, Runtime.closeSync, hfd]
    by_cases hdirty : f.dirty = true
    · obtain ⟨fs', hwrite, hcontent, hs'⟩ := hs.writeFile f.data 0o644 now
      simp only [hdirty, if_true, hpath, hwrite, outcome]
      refine ⟨trivial, ?_⟩
      rw [← hcontent]
      exact .closed hs' (Finmap.lookup_erase _ _)
    · have hdirty : f.dirty = false := by simpa using hdirty
      have hcontent : content s.rt.fs (guestPath q) = some f.data := by
        rcases hclean hdirty with hnone | hsome
        · simp [hdirty, hnone] at hG
        · exact hsome
      simp only [hdirty, Bool.false_eq_true, if_false]
      refine ⟨trivial, ?_⟩
      rw [← hcontent]
      exact .closed hs (Finmap.lookup_erase _ _)

/-! ### Sequences of calls -/

lemma simulates (q : Bytes) :
    Simulates (Session.step q) (Posix.step (guestPath q)) (Regular (guestPath q))
      (Stands (guestPath q)) := by
  intro s t c h hG
  cases c with
  | openSync flag => exact agrees_openSync h hG
  | readSync v offset length position => exact agrees_readSync h hG
  | writeSync arg => exact agrees_writeSync h hG
  | ftruncateSync len => exact agrees_ftruncateSync h hG
  | closeSync now => exact agrees_closeSync h hG

/-- Every sequence of regular calls on a file is answered as by a byte array with a position. -/
theorem descriptor_refines_posix (q : Bytes) (s : Session) (calls : List FdCall)
    (hstorable : Storable s.rt.fs (guestPath q)) (hclosed : s.rt.fds.lookup s.fd = none)
    (hregular : Always (Session.step q) (Regular (guestPath q)) s calls) :
    outputs (Session.step q) s calls
        = outputs (Posix.step (guestPath q)) ⟨content s.rt.fs (guestPath q), none⟩ calls ∧
      let t := final (Posix.step (guestPath q)) ⟨content s.rt.fs (guestPath q), none⟩ calls
      t.desc = none → content (final (Session.step q) s calls).rt.fs (guestPath q) = t.file := by
  have hstart : Stands (guestPath q) s ⟨content s.rt.fs (guestPath q), none⟩ :=
    .closed hstorable hclosed
  exact ⟨(simulates q).outputs_eq hstart hregular,
    ((simulates q).final hstart hregular).content_eq⟩

def freshSession : Session := ⟨⟨new 0, ∅, 0⟩, 0⟩

lemma storable_fresh : Storable freshSession.rt.fs (guestPath (str "a")) where
  valid := by decide
  notRoot := by decide
  place := .inr ⟨by decide +kernel, _, Finmap.lookup_insert _, by decide⟩

def regularCalls : List FdCall :=
  [.openSync .wPlus, .writeSync (.text (str "abcd") none), .ftruncateSync 4,
    .writeSync (.view ⟨str "xyz", 1, 2, by decide⟩ (some 1) (some 1) (some 6)),
    .readSync ⟨str "......", 0, 6, by decide⟩ none none (some 1), .closeSync 0,
    .openSync .aPlus, .writeSync (.text (str "e") none), .closeSync 0]

theorem regularCalls_refine :
    outputs (Session.step (str "a")) freshSession regularCalls
        = outputs (Posix.step (str "a")) ⟨none, none⟩ regularCalls ∧
      content (final (Session.step (str "a")) freshSession regularCalls).rt.fs (str "a")
        = some (str "abcd" ++ [0, 0] ++ str "ze") := by
  obtain ⟨hout, hfile⟩ := descriptor_refines_posix (str "a") freshSession regularCalls
    storable_fresh (by decide +kernel) (by decide +kernel)
  have hpath : guestPath (str "a") = str "a" := by decide
  have hcontent : content freshSession.rt.fs (str "a") = none := by decide +kernel
  rw [hpath, hcontent] at hout hfile
  exact ⟨hout, (hfile (by decide +kernel)).trans (by decide +kernel)⟩

/-- Calls that are answered differently, one for each kind. -/
def irregularCalls : List (List FdCall) :=
  [[.openSync .w, .writeSync (.text (str "abc") none), .closeSync 0, .openSync .r,
      .writeSync (.text (str "x") none), .closeSync 0],
    [.openSync .a, .closeSync 0, .openSync .r],
    [.openSync .wPlus, .writeSync (.text (str "abc") none), .ftruncateSync 0,
      .writeSync (.text (str "d") none),
      .readSync ⟨str "....", 0, 4, by decide⟩ none none (some 0)],
    [.openSync .aPlus, .writeSync (.text (str "abc") (some 0)),
      .readSync ⟨str "...", 0, 3, by decide⟩ none none none],
    [.openSync .w, .writeSync (.view ⟨str "abc", 0, 3, by decide⟩ (some 1) none none)],
    [.openSync .wPlus, .writeSync (.text (str "abc") none),
      .readSync ⟨str "...", 0, 3, by decide⟩ none none (some (-1))],
    [.openSync .w, .closeSync 0, .closeSync 0]]

theorem irregularCalls_differ :
    (∀ calls ∈ irregularCalls, outputs (Session.step (str "a")) freshSession calls
        ≠ outputs (Posix.step (str "a")) ⟨none, none⟩ calls) ∧
      -- the write through the descriptor opened with `r` reaches the file
      irregularCalls.head?.map (fun calls =>
        content (final (Session.step (str "a")) freshSession calls).rt.fs (str "a"))
        = some (some (str "xbc")) := by
  decide +kernel

end GoSpidermonkey.Nodejs.Files
