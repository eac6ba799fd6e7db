import GoSpidermonkey.Lib.Machine
import GoSpidermonkey.Go.Slices
import GoSpidermonkey.Nodejs.Files

/-!
# The buffers of descriptors

`opFSReadFD`, `opFSWriteFD` and `opFSFtruncate` in the arithmetic of the machine: positions and
lengths come from the guest as `float64` and become `int64`, sums of them wrap around, and slices
panic where bounds are out of range. `OpenFile.read`, `OpenFile.put` and `OpenFile.truncate` compute
with integers instead; reads and truncations agree with them for all arguments (`readFD_eq`,
`ftruncate_eq`), and so do writes whose end is an `int64` (`writeFD_eq`).

Two checks are missing. The end of a positioned write is compared with `maxFDFileBytes` after the
sum has wrapped around, and a write at the end of the buffer is not compared with it at all.
-/

open GoSpidermonkey.Path GoSpidermonkey.Fs

namespace GoSpidermonkey.Nodejs.Files

open List Option

namespace OpenFile

variable (p : Platform) (f : OpenFile)

/-! ### The operations -/

/-- `opFSReadFD` for a descriptor; `length` is `none` for `undefined`, `position` for anything but a
number. -/
def readFD (length position : Option Double) : Option (Bytes × OpenFile) :=
  let pos := position.elim (f.pos : ℤ) p.toInt64
  let pos := if pos < 0 then 0 else pos
  let rest := wrap64 (f.data.length - pos)
  let length := length.elim rest fun x => if p.toInt64 x < rest then p.toInt64 x else rest
  if f.data.length ≤ pos ∨ length ≤ 0 then some ([], f)
  else
    (sliceBytes f.data pos (wrap64 (pos + length))).map fun chunk =>
      (chunk, if position.isSome then f else { f with pos := (wrap64 (pos + length)).toNat })

/-- `opFSWriteFD` for a descriptor. -/
def writeFD (data : Bytes) (position : Option Double) : Option (Except Err ℕ × OpenFile) :=
  let writeAt := position.elim (f.pos : ℤ) p.toInt64
  if f.append ∨ position = none ∧ f.data.length ≤ f.pos then
    (p.append f.data data).map fun grown =>
      (.ok data.length, { f with data := grown, pos := grown.length, dirty := true })
  else
    let writeAt := if writeAt < 0 then 0 else writeAt
    if maxFDFileBytes < wrap64 (writeAt + data.length) then some (.error .efbig, f)
    else
      let grow := wrap64 (wrap64 (writeAt + data.length) - f.data.length)
      let grown := if 0 < grow then (p.make grow).bind (p.append f.data) else some f.data
      (grown.bind fun grown => copyBytes grown writeAt data).map fun stored =>
        (.ok data.length, { f with
          data := stored
          pos := if position.isSome then f.pos else (wrap64 (writeAt + data.length)).toNat
          dirty := true })

/-- `opFSFtruncate` for a descriptor; without a length it is zero. -/
def ftruncate (length : Option Double) : Option (Except Err Unit × OpenFile) :=
  if ¬ f.write then some (.error .ebadf, f)
  else
    let n := length.elim 0 p.toInt64
    let n := if n < 0 then 0 else n
    if maxFDFileBytes < n then some (.error .efbig, f)
    else
      (if n ≤ f.data.length then sliceBytes f.data 0 n
        else (p.make (wrap64 (n - f.data.length))).bind (p.append f.data)).map fun data =>
        (.ok (), { f with data, dirty := true })

end OpenFile

/-- The descriptor table. -/
structure Descriptors where
  fds : Finmap fun _ : ℤ => OpenFile
  nextFD : ℤ

def Slice (p : Platform) : Type := { data : Bytes // data.length ≤ p.maxAlloc }

inductive BufferCall (p : Platform)
  /-- `fs_open`, with the file system at the time. -/
  | opens (fs : MemFS) (path flags : Bytes)
  | read (fd : Double) (length position : Option Double)
  /-- `fs_write_fd`; `none` for a value that has no bytes. -/
  | write (fd : Double) (data : Option (Slice p)) (position : Option Double)
  | ftruncate (fd : Double) (length : Option Double)
  /-- `fs_close_fd`, as far as the table is concerned. -/
  | close (fd : Double)

inductive BufferResult
  | fd (n : ℤ)
  | read (chunk : Bytes)
  | wrote (n : ℕ)
  | done
  | error (e : Err)
  | throws

def BufferResult.of {α : Type} (ok : α → BufferResult) : Except Err α → BufferResult
  | .ok a => ok a
  | .error e => .error e

namespace Descriptors

variable (p : Platform) (s : Descriptors)

def new : Descriptors := ⟨∅, 0⟩

def set (fd : ℤ) (f : OpenFile) : Descriptors := { s with fds := s.fds.insert fd f }

/-- `opFSOpen`. -/
def opens (fs : MemFS) (path flags : Bytes) : BufferResult × Descriptors :=
  match parseFlag flags with
  | none => (.error (.unsupported flags), s)
  | some flag =>
    match openData fs (guestPath path) flag with
    | .error e => (.error e, s)
    | .ok data =>
      let fd := wrap64 (s.nextFD + 1)
      (.fd fd, ⟨s.fds.insert fd (openFile (guestPath path) data flag), fd⟩)

def call : BufferCall p → Option (BufferResult × Descriptors)
  | .opens fs path flags => some (s.opens fs path flags)
  | .read fd length position =>
    match s.fds.lookup (p.toInt64 fd) with
    | none => some (.error .ebadf, s)
    | some f => (f.readFD p length position).map fun (chunk, f') =>
        (.read chunk, s.set (p.toInt64 fd) f')
  | .write fd data position =>
    match s.fds.lookup (p.toInt64 fd), data with
    | none, _ => some (.error .ebadf, s)
    | some _, none => some (.throws, s)
    | some f, some data => (f.writeFD p data.1 position).map fun (r, f') =>
        (.of .wrote r, s.set (p.toInt64 fd) f')
  | .ftruncate fd length =>
    match s.fds.lookup (p.toInt64 fd) with
    | none => some (.error .ebadf, s)
    | some f => (f.ftruncate p length).map fun (r, f') =>
        (.of (fun () => .done) r, s.set (p.toInt64 fd) f')
  | .close fd => some (.done, { s with fds := s.fds.erase (p.toInt64 fd) })

def step (c : BufferCall p) : Option Descriptors := (s.call p c).map Prod.snd

end Descriptors

/-! ### Reads and truncations -/

lemma maxFDFileBytes_eq : maxFDFileBytes = 2 ^ 30 := rfl

lemma clamp_eq (x : ℤ) : (if x < 0 then 0 else x) = (x.toNat : ℤ) := by
  split_ifs <;> omega

section

variable {p : Platform} {f : OpenFile} (hlen : f.data.length ≤ p.maxAlloc)
include hlen

lemma readFD_eq (length position : Option Double) :
    f.readFD p length position =
      some (f.read (length.elim f.data.length p.toInt64) (position.map p.toInt64)) := by
  have hmax := p.maxAlloc_lt
  have hpos : position.elim (f.pos : ℤ) p.toInt64 = (position.map p.toInt64).getD f.pos := by
    cases position <;> rfl
  unfold OpenFile.readFD OpenFile.read
  simp only [hpos, isSome_map, clamp_eq, Nat.cast_le]
  generalize ((position.map p.toInt64).getD (f.pos : ℤ)).toNat = pos
  by_cases hend : f.data.length ≤ pos
  · simp only [hend, true_or, if_true]
  -- before the end nothing wraps around
  have hrest : wrap64 (f.data.length - pos) = f.data.length - pos :=
    wrap64_of_range (by omega) (by omega)
  have hlength : (length.elim (f.data.length - pos : ℤ) fun x =>
      if p.toInt64 x < f.data.length - pos then p.toInt64 x else f.data.length - pos) =
      min (length.elim (f.data.length : ℤ) p.toInt64) (f.data.length - pos) := by
    cases length with
    | none => simp only [elim_none]; omega
    | some x => simp only [elim_some]; split_ifs <;> omega
  rw [hrest, hlength]
  have hle := min_le_right (length.elim (f.data.length : ℤ) p.toInt64) (f.data.length - pos)
  generalize min (length.elim (f.data.length : ℤ) p.toInt64) (f.data.length - pos : ℤ) = l at hle
  by_cases hl : l ≤ 0
  · simp only [hl, or_true, if_true]
  have hsum : wrap64 (pos + l) = pos + l := wrap64_of_range (by omega) (by omega)
  have hslice : sliceBytes f.data pos (pos + l) = some ((f.data.drop pos).take l.toNat) := by
    have hnat : (pos + l : ℤ).toNat = pos + l.toNat := by omega
    rw [sliceBytes, if_pos ⟨by omega, by omega, by omega⟩, hnat, Int.toNat_natCast, drop_take,
      Nat.add_sub_cancel_left]
  have hpos' : (pos + l : ℤ).toNat = pos + l.toNat := by omega
  rw [if_neg (not_or.mpr ⟨hend, hl⟩), if_neg (not_or.mpr ⟨hend, hl⟩), hsum, hslice, map_some,
    hpos']

lemma ftruncate_eq (length : Option Double) :
    f.ftruncate p length = some (f.truncate (length.elim 0 p.toInt64)) := by
  have hmin := p.le_maxAlloc
  have hmax := p.maxAlloc_lt
  have hlimit := maxFDFileBytes_eq
  unfold OpenFile.ftruncate OpenFile.truncate
  by_cases hwrite : f.write
  swap
  · simp only [hwrite, not_false_eq_true, if_true, Bool.false_eq_true]
  simp only [hwrite, not_true_eq_false, if_false, clamp_eq]
  generalize length.elim 0 p.toInt64 = n
  by_cases hcap : (maxFDFileBytes : ℤ) < n
  · rw [if_pos hcap, if_pos (by omega)]
  rw [if_neg hcap, if_neg (by omega)]
  by_cases hshrink : (n.toNat : ℤ) ≤ f.data.length
  · have hzero : n.toNat - f.data.length = 0 := by omega
    rw [if_pos hshrink, sliceBytes, if_pos ⟨le_rfl, by omega, hshrink⟩, resize, hzero]
    simp only [Int.toNat_natCast, Int.toNat_zero, drop_zero, map_some,
      replicate_zero, append_nil]
  · have hwrap : wrap64 (n.toNat - f.data.length) = n.toNat - f.data.length :=
      wrap64_of_range (by omega) (by omega)
    rw [if_neg hshrink, hwrap, p.append_make (by omega) (by omega), resize,
      take_of_length_le (by omega)]
    rfl

end

/-! ### Writes -/

def startOf (p : Platform) (f : OpenFile) (position : Option Double) : ℕ :=
  (position.elim (f.pos : ℤ) p.toInt64).toNat

/-- The write goes to the end of the buffer. -/
def Appends (f : OpenFile) (position : Option Double) : Prop :=
  f.append ∨ position = none ∧ f.data.length ≤ f.pos

instance (f : OpenFile) (position : Option Double) : Decidable (Appends f position) :=
  inferInstanceAs (Decidable (f.append ∨ position = none ∧ f.data.length ≤ f.pos))

/-- A write at the end keeps to the size limit, another one ends at an `int64`. -/
def Fits (p : Platform) (f : OpenFile) (data : Bytes) (position : Option Double) : Prop :=
  if Appends f position then f.data.length + data.length ≤ maxFDFileBytes
  else startOf p f position + data.length < 2 ^ 63

instance (p : Platform) (f : OpenFile) (data : Bytes) (position : Option Double) :
    Decidable (Fits p f data position) := by
  unfold Fits
  infer_instance

section

variable {p : Platform} {f : OpenFile} {data : Bytes} {position : Option Double}

lemma writeFD_of_not_appends (happends : ¬ Appends f position) :
    f.writeFD p data position =
      if maxFDFileBytes < wrap64 (startOf p f position + data.length) then some (.error .efbig, f)
      else
        let grow := wrap64 (wrap64 (startOf p f position + data.length) - f.data.length)
        let grown := if 0 < grow then (p.make grow).bind (p.append f.data) else some f.data
        (grown.bind fun grown => copyBytes grown (startOf p f position) data).map fun stored =>
          (.ok data.length, { f with
            data := stored
            pos := if position.isSome then f.pos
              else (wrap64 (startOf p f position + data.length)).toNat
            dirty := true }) := by
  have hnot : ¬ (f.append ∨ position = none ∧ f.data.length ≤ f.pos) := happends
  simp only [OpenFile.writeFD, if_neg hnot, clamp_eq]
  rfl

lemma writeFD_of_appends (happends : Appends f position) :
    f.writeFD p data position = (p.append f.data data).map fun grown =>
      (.ok data.length, { f with data := grown, pos := grown.length, dirty := true }) :=
  if_pos happends

lemma put_of_appends (happends : Appends f position) :
    f.put data (position.map p.toInt64) = (.ok data.length, { f with
      data := f.data ++ data, pos := (f.data ++ data).length, dirty := true }) := by
  unfold OpenFile.put
  rw [if_pos]
  rcases happends with h | ⟨h, hend⟩
  · exact .inl h
  · exact .inr ⟨by rw [h]; rfl, hend⟩

lemma put_of_not_appends (happends : ¬ Appends f position) :
    f.put data (position.map p.toInt64) =
      if maxFDFileBytes < startOf p f position + data.length then (.error .efbig, f)
      else
        (.ok data.length, { f with
          data := MemFS.overwrite f.data (startOf p f position) data
          pos := if position.isSome then f.pos else startOf p f position + data.length
          dirty := true }) := by
  have hstart : ((position.map p.toInt64).getD (f.pos : ℤ)).toNat = startOf p f position := by
    cases position <;> rfl
  unfold OpenFile.put
  rw [if_neg, hstart, isSome_map]
  rintro (h | ⟨h, hend⟩)
  · exact happends (.inl h)
  · exact happends (.inr ⟨map_eq_none_iff.mp h, hend⟩)

variable (hlen : f.data.length ≤ maxFDFileBytes)
include hlen

lemma writeFD_eq (hfits : Fits p f data position) :
    f.writeFD p data position = some (f.put data (position.map p.toInt64)) := by
  have hmin := p.le_maxAlloc
  have hlimit := maxFDFileBytes_eq
  unfold Fits at hfits
  by_cases happends : Appends f position
  · rw [if_pos happends] at hfits
    rw [put_of_appends happends, writeFD_of_appends happends, Platform.append, if_pos (by omega),
      map_some]
  rw [if_neg happends] at hfits
  rw [writeFD_of_not_appends happends, put_of_not_appends happends]
  generalize startOf p f position = n at hfits
  have hsum : wrap64 (n + data.length) = n + data.length := wrap64_of_range (by omega) (by omega)
  rw [hsum]
  by_cases hbig : maxFDFileBytes < n + data.length
  · rw [if_pos hbig, if_pos (by exact_mod_cast hbig)]
  have hgrow : wrap64 ((n : ℤ) + data.length - f.data.length) = n + data.length - f.data.length :=
    wrap64_of_range (by omega) (by omega)
  have hgrown : (if 0 < (n : ℤ) + data.length - f.data.length then
      (p.make (n + data.length - f.data.length)).bind (p.append f.data) else some f.data) =
      some (f.data ++ List.replicate (n + data.length - f.data.length) 0) := by
    split_ifs with hpos
    · exact_mod_cast p.append_make (n := n + data.length) (by omega) (by omega)
    · rw [show n + data.length - f.data.length = 0 by omega, replicate_zero, append_nil]
  have hnat : ((n : ℤ) + data.length).toNat = n + data.length := by omega
  rw [if_neg hbig, if_neg (by exact_mod_cast hbig)]
  have hlong : n + data.length ≤
      (f.data ++ List.replicate (n + data.length - f.data.length) 0).length := by
    rw [length_append, length_replicate]
    omega
  simp only [hgrow, hgrown, bind_some, hnat, copyBytes_of_le hlong, map_some]
  rfl

lemma length_put_le (hfits : Fits p f data position) :
    (f.put data (position.map p.toInt64)).2.data.length ≤ maxFDFileBytes := by
  unfold Fits at hfits
  by_cases happends : Appends f position
  · rw [if_pos happends] at hfits
    rw [put_of_appends happends, length_append]
    exact hfits
  · rw [put_of_not_appends happends]
    by_cases hbig : maxFDFileBytes < startOf p f position + data.length
    · rw [if_pos hbig]
      exact hlen
    · rw [if_neg hbig, MemFS.length_overwrite]
      exact max_le hlen (not_lt.mp hbig)

/-- A positioned write whose end is no `int64` panics. -/
lemma writeFD_panics (hdata : data.length ≤ p.maxAlloc) (happends : ¬ Appends f position)
    (hover : 2 ^ 63 ≤ startOf p f position + data.length) : f.writeFD p data position = none := by
  have hmax := p.maxAlloc_lt
  have hlimit := maxFDFileBytes_eq
  have hstart : startOf p f position < 2 ^ 63 := by
    cases position with
    | none =>
      have hpos : f.pos < f.data.length := by
        by_contra hend
        exact happends (.inr ⟨rfl, not_lt.mp hend⟩)
      show (f.pos : ℤ).toNat < 2 ^ 63
      omega
    | some x =>
      have := p.toInt64_high x
      show (p.toInt64 x).toNat < 2 ^ 63
      omega
  rw [writeFD_of_not_appends happends]
  generalize startOf p f position = n at hover hstart
  have hsum : wrap64 (n + data.length) = n + data.length - 2 ^ 64 :=
    wrap64_of_over (by omega) (by omega)
  rw [hsum, if_neg (by omega)]
  by_cases hunder : (n : ℤ) + data.length - 2 ^ 64 - f.data.length < -2 ^ 63
  · -- the difference wraps around as well, to more than a slice can have
    have hgrow : wrap64 ((n : ℤ) + data.length - 2 ^ 64 - f.data.length) =
        n + data.length - f.data.length := by
      rw [wrap64_of_under (by omega) hunder]
      omega
    have hmake : p.make (n + data.length - f.data.length) = none := if_neg (by omega)
    have hpos : (0 : ℤ) < n + data.length - f.data.length := by omega
    simp only [hgrow, hmake, if_pos hpos, bind_none, map_none]
  · have hgrow : wrap64 ((n : ℤ) + data.length - 2 ^ 64 - f.data.length) =
        n + data.length - 2 ^ 64 - f.data.length := wrap64_of_range (by omega) (by omega)
    have hneg : ¬ (0 : ℤ) < n + data.length - 2 ^ 64 - f.data.length := by omega
    have hcopy : copyBytes f.data n data = none := if_neg (by omega)
    simp only [hgrow, if_neg hneg, bind_some, hcopy, map_none]

lemma writeFD_bounded_iff (hdata : data.length ≤ p.maxAlloc) :
    (∃ r f', f.writeFD p data position = some (r, f') ∧ f'.data.length ≤ maxFDFileBytes) ↔
      Fits p f data position := by
  constructor
  · rintro ⟨r, f', heq, hbound⟩
    by_contra hfits
    unfold Fits at hfits
    by_cases happends : Appends f position
    · rw [if_pos happends] at hfits
      rw [writeFD_of_appends happends, Platform.append] at heq
      split_ifs at heq
      · simp only [map_some, Option.some.injEq, Prod.mk.injEq] at heq
        rw [← heq.2, length_append] at hbound
        exact hfits hbound
      · simp at heq
    · rw [if_neg happends, not_lt] at hfits
      rw [writeFD_panics hlen hdata happends hfits] at heq
      cases heq
  · intro hfits
    exact ⟨_, _, writeFD_eq hlen hfits, length_put_le hlen hfits⟩

end

/-! ### Runs -/

/-- No buffer is longer than the limit. -/
def Bounded (s : Descriptors) : Prop :=
  ∀ fd f, s.fds.lookup fd = some f → f.data.length ≤ maxFDFileBytes

/-- The call opens a file within the limit, if it opens one. -/
def OpensWithin {p : Platform} : BufferCall p → Prop
  | .opens fs path flags => ∀ flag data, parseFlag flags = some flag →
      openData fs (guestPath path) flag = .ok data → data.length ≤ maxFDFileBytes
  | _ => True

/-- Every write of the call fits. -/
def WriteFits (p : Platform) (s : Descriptors) : BufferCall p → Prop
  | .write fd (some data) position =>
    ∀ f, s.fds.lookup (p.toInt64 fd) = some f → Fits p f data.1 position
  | _ => True

lemma bounded_set_iff {s : Descriptors} (hs : Bounded s) {fd : ℤ} {f : OpenFile} :
    Bounded (s.set fd f) ↔ f.data.length ≤ maxFDFileBytes := by
  constructor
  · intro h
    exact h fd f (Finmap.lookup_insert _)
  · intro hf fd' g hg
    by_cases hfd : fd' = fd
    · subst hfd
      obtain rfl : f = g := by simpa [Descriptors.set] using hg
      exact hf
    · rw [Descriptors.set, Finmap.lookup_insert_of_ne _ hfd] at hg
      exact hs fd' g hg

lemma Bounded.opens {s : Descriptors} (hs : Bounded s) {p : Platform} {fs : MemFS}
    {path flags : Bytes} (hc : OpensWithin (p := p) (.opens fs path flags)) :
    Bounded (s.opens fs path flags).2 := by
  unfold Descriptors.opens
  cases hflag : parseFlag flags with
  | none => exact hs
  | some flag =>
    cases hdata : openData fs (guestPath path) flag with
    | error e =>
      simp only [hdata]
      exact hs
    | ok data =>
      simp only [hdata]
      exact (bounded_set_iff hs (f := openFile (guestPath path) data flag)).mpr
        (hc flag data hflag hdata)

lemma data_read (f : OpenFile) (length : ℤ) (position : Option ℤ) :
    (f.read length position).2.data = f.data := by
  simp only [OpenFile.read]
  split_ifs <;> rfl

lemma length_truncate_le {f : OpenFile} (hlen : f.data.length ≤ maxFDFileBytes) (n : ℤ) :
    (f.truncate n).2.data.length ≤ maxFDFileBytes := by
  unfold OpenFile.truncate
  by_cases hwrite : ¬ f.write
  · rw [if_pos hwrite]
    exact hlen
  rw [if_neg hwrite]
  by_cases hbig : (maxFDFileBytes : ℤ) < n
  · rw [if_pos hbig]
    exact hlen
  · rw [if_neg hbig]
    simp only [resize, length_append, length_take, length_replicate]
    omega

/-- One call does not panic and keeps the buffers within the limit exactly if its write fits. -/
lemma step_bounded_iff {p : Platform} {s : Descriptors} (hs : Bounded s) {c : BufferCall p}
    (hc : OpensWithin c) : (∃ s', s.step p c = some s' ∧ Bounded s') ↔ WriteFits p s c := by
  have hmin : maxFDFileBytes ≤ p.maxAlloc := p.le_maxAlloc
  unfold Descriptors.step
  cases c with
  | opens fs path flags => exact iff_of_true ⟨_, rfl, hs.opens hc⟩ trivial
  | read fd length position =>
    refine iff_of_true ?_ trivial
    cases hf : s.fds.lookup (p.toInt64 fd) with
    | none => exact ⟨s, by simp only [Descriptors.call, hf, Option.map_some], hs⟩
    | some f =>
      have hlen := hs _ _ hf
      simp only [Descriptors.call, hf, readFD_eq (hlen.trans hmin), Option.map_some]
      exact ⟨_, rfl, (bounded_set_iff hs).mpr (by rwa [data_read])⟩
  | write fd data position =>
    cases hf : s.fds.lookup (p.toInt64 fd) with
    | none =>
      refine iff_of_true ⟨s, by simp only [Descriptors.call, hf, Option.map_some], hs⟩ ?_
      cases data with
      | none => trivial
      | some data => exact fun f hf' => nomatch hf.symm.trans hf'
    | some f =>
      cases data with
      | none =>
        exact iff_of_true ⟨s, by simp only [Descriptors.call, hf, Option.map_some], hs⟩ trivial
      | some data =>
        have hfits : WriteFits p s (.write fd (some data) position) ↔ Fits p f data.1 position :=
          ⟨fun h => h f hf, fun h g hg => Option.some.inj (hf.symm.trans hg) ▸ h⟩
        rw [hfits, ← writeFD_bounded_iff (hs _ _ hf) data.2]
        simp only [Descriptors.call, hf, Option.map_map, Option.map_eq_some_iff,
          Function.comp_apply]
        constructor
        · rintro ⟨s', ⟨⟨r, f'⟩, heq, rfl⟩, hs'⟩
          exact ⟨r, f', heq, (bounded_set_iff hs).mp hs'⟩
        · rintro ⟨r, f', heq, hbound⟩
          exact ⟨_, ⟨(r, f'), heq, rfl⟩, (bounded_set_iff hs).mpr hbound⟩
  | ftruncate fd length =>
    refine iff_of_true ?_ trivial
    cases hf : s.fds.lookup (p.toInt64 fd) with
    | none => exact ⟨s, by simp only [Descriptors.call, hf, Option.map_some], hs⟩
    | some f =>
      have hlen := hs _ _ hf
      have hbound := length_truncate_le hlen (length.elim 0 p.toInt64)
      simp only [Descriptors.call, hf, ftruncate_eq (hlen.trans hmin), Option.map_some]
      exact ⟨_, rfl, (bounded_set_iff hs).mpr hbound⟩
  | close fd =>
    refine iff_of_true ⟨_, rfl, fun fd' f hf => ?_⟩ trivial
    by_cases hfd : fd' = p.toInt64 fd
    · rw [hfd, Finmap.lookup_erase] at hf
      cases hf
    · rw [Finmap.lookup_erase_ne hfd] at hf
      exact hs fd' f hf

/-- A sequence of calls does not panic and keeps every buffer within the limit exactly if every
write of it fits. -/
theorem descriptors_bounded_iff (p : Platform) (s : Descriptors) (hs : Bounded s)
    (calls : List (BufferCall p)) (hcalls : ∀ c ∈ calls, OpensWithin c) :
    (∀ cs, cs <+: calls →
        ∃ t, Machine.run (Descriptors.step p) s cs = some t ∧ Bounded t) ↔
      Machine.Obeys (Descriptors.step p) (WriteFits p) s calls :=
  Machine.progress_iff_obeys (fun _ c hc hs => step_bounded_iff hs (hcalls c hc)) hs

def firstFD : Double := .num (1 : ℤ) (Binary64.representable_intCast (by norm_num))

lemma toInt64_firstFD (p : Platform) : p.toInt64 firstFD = 1 :=
  p.toInt64_intCast _ (by norm_num) (by norm_num)

/-- A position close to the greatest `int64`. -/
def farPosition : Double :=
  .num (2 ^ 63 - 1024 : ℤ) ⟨⟨2 ^ 53 - 1, 10, by norm_num, by norm_num, by norm_num⟩, by
    have hpow : (2 : ℚ) ^ 63 < 2 ^ 1024 := pow_lt_pow_right₀ one_lt_two (by norm_num)
    have hlt : |((2 ^ 63 - 1024 : ℤ) : ℚ)| < 2 ^ 63 := by norm_num
    exact hlt.trans hpow⟩

lemma toInt64_farPosition (p : Platform) : p.toInt64 farPosition = 2 ^ 63 - 1024 :=
  p.toInt64_intCast _ (by norm_num) (by norm_num)

def zeros (n : ℕ) (h : n ≤ 2 ^ 48) : Slice .amd64 :=
  ⟨List.replicate n 0, (List.length_replicate (n := n)).trans_le h⟩

def openLog : BufferCall .amd64 := .opens (Fs.new 0) (str "log") (str "w")

def logTable : Descriptors :=
  { Descriptors.new.set 1 (openFile (str "log") [] .w) with nextFD := 1 }

lemma step_openLog : Descriptors.new.step .amd64 openLog = some logTable := rfl

lemma lookup_logTable : logTable.fds.lookup (Platform.amd64.toInt64 firstFD) =
    some (openFile (str "log") [] .w) := by
  rw [toInt64_firstFD]
  exact Finmap.lookup_insert _

lemma length_zeros (n : ℕ) (h : n ≤ 2 ^ 48) : (zeros n h).1.length = n := length_replicate

/-- A write of one mebibyte to the log file. -/
theorem logTable_bounded :
    ∃ t, Machine.run (Descriptors.step .amd64) .new
      [openLog, .write firstFD (some (zeros (2 ^ 20) (by norm_num))) none] = some t ∧
        Bounded t := by
  have hlen := length_zeros (2 ^ 20) (by norm_num)
  generalize zeros (2 ^ 20) (by norm_num) = data at hlen ⊢
  refine (descriptors_bounded_iff .amd64 .new (fun fd f hf => nomatch hf) _ ?_).mpr ?_ _
    (prefix_refl _)
  · intro c hc
    rcases mem_pair.mp hc with rfl | rfl
    · intro flag data hflag hdata
      cases hflag
      cases hdata
      exact Nat.zero_le _
    · trivial
  · refine Machine.obeys_cons.mpr ⟨trivial, fun s hs => Machine.obeys_cons.mpr ⟨fun f hf => ?_, ?_⟩⟩
    · obtain rfl := Option.some.inj (step_openLog.symm.trans hs)
      obtain rfl := Option.some.inj (lookup_logTable.symm.trans hf)
      have happends : Appends (openFile (str "log") [] .w) none := .inr ⟨rfl, le_rfl⟩
      unfold Fits
      rw [if_pos happends, hlen, maxFDFileBytes_eq]
      show 0 + 2 ^ 20 ≤ 2 ^ 30
      norm_num
    · exact fun _ _ => trivial

/-- A file is made too long at its end, and a write far out panics. -/
theorem unchecked_writes :
    (∃ t f, Machine.run (Descriptors.step .amd64) .new
          [openLog, .write firstFD (some (zeros (2 ^ 30 + 1) (by norm_num))) none] = some t ∧
        t.fds.lookup 1 = some f ∧ maxFDFileBytes < f.data.length) ∧
      Machine.run (Descriptors.step .amd64) .new
        [openLog, .write firstFD (some (zeros 1024 (by norm_num))) (some farPosition)] = none := by
  have hrun : ∀ c, Machine.run (Descriptors.step .amd64) .new [openLog, c] =
      logTable.step .amd64 c := by
    intro c
    rw [Machine.run_cons, step_openLog, bind_some, Machine.run_cons]
    exact bind_fun_some _
  constructor
  · have hlen := length_zeros (2 ^ 30 + 1) (by norm_num)
    generalize zeros (2 ^ 30 + 1) (by norm_num) = data at hlen ⊢
    have happends : Appends (openFile (str "log") [] .w) none := .inr ⟨rfl, le_rfl⟩
    have happend : Platform.amd64.append (openFile (str "log") [] .w).data data.1 =
      some data.1 := by
      refine if_pos ?_
      rw [show (openFile (str "log") [] .w).data.length = 0 from rfl, Nat.zero_add]
      exact data.2
    let written := { openFile (str "log") [] .w with data := data.1, pos := data.1.length }
    have hstep : logTable.step .amd64 (.write firstFD (some data) none) =
        some (logTable.set (Platform.amd64.toInt64 firstFD) written) := by
      rw [Descriptors.step]
      simp only [Descriptors.call, lookup_logTable, writeFD_of_appends happends, happend,
        map_some]
      rfl
    refine ⟨_, written, (hrun _).trans hstep, ?_, ?_⟩
    · rw [toInt64_firstFD]
      exact Finmap.lookup_insert _
    · show maxFDFileBytes < data.1.length
      rw [hlen, maxFDFileBytes_eq]
      norm_num
  · have hlen := length_zeros 1024 (by norm_num)
    generalize zeros 1024 (by norm_num) = data at hlen ⊢
    have hnot : ¬ Appends (openFile (str "log") [] .w) (some farPosition) := by
      rintro (h | ⟨h, -⟩)
      · cases h
      · cases h
    have hover : 2 ^ 63 ≤ startOf .amd64 (openFile (str "log") [] .w) (some farPosition) +
        data.1.length := by
      rw [startOf, elim_some, toInt64_farPosition, hlen]
      omega
    rw [hrun, Descriptors.step]
    simp only [Descriptors.call, lookup_logTable, writeFD_panics (Nat.zero_le _) data.2 hnot hover,
      map_none]

end GoSpidermonkey.Nodejs.Files
