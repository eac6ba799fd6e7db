import GoSpidermonkey.Go.Slices
import GoSpidermonkey.Go.Strconv

/-!
# Host calls and the guest's memory

`Go_host_call` reads the key and the arguments of a call out of the guest's memory, runs the handler
and writes the reply back; a reply that does not fit is kept for `Go_host_result`. All pointers and
lengths come from the guest, as 32-bit integers. A slice expression that is out of range panics, and
only the handler runs under a `recover`, so such a panic ends the host process: the calls answer
`none` then.

The memory is read again for the reply, since the handler may run the guest, which may change it and
make it larger.
-/

namespace GoSpidermonkey.Bridge

open List Option

/-! ### The calls -/

/-- The guest's memory, and the replies that did not fit by the module instance of the calling
thread. -/
structure HostEnv where
  mem : Bytes
  stash : Finmap fun _ : ℕ => Bytes

/-- What `dispatch` does for a key and its arguments: its reply, or none where it panics. -/
abbrev Dispatch := Bytes → Bytes → HostEnv → Option Bytes × HostEnv

def safeDispatch (isPrint : ℕ → Bool) (dispatch : Dispatch) (key args : Bytes) (e : HostEnv) :
    Bytes × HostEnv :=
  let r := dispatch key args e
  (r.1.getD (str "E" ++ str "host call " ++ Strconv.quote isPrint key ++ str " failed"), r.2)

/-- `badBounds`. The sums are 64-bit integers. -/
def BadBounds (mem : Bytes) (keyPtr keyLen argsPtr argsLen : Int32) : Prop :=
  keyPtr < 0 ∨ keyLen < 0 ∨ keyPtr.toInt + keyLen.toInt > mem.length
    ∨ argsPtr < 0 ∨ argsLen < 0 ∨ argsPtr.toInt + argsLen.toInt > mem.length

instance (mem : Bytes) (keyPtr keyLen argsPtr argsLen : Int32) :
    Decidable (BadBounds mem keyPtr keyLen argsPtr argsLen) :=
  inferInstanceAs (Decidable (_ ∨ _))

/-- The first access of `Go_host_call` to the memory. The ends of the slices are 32-bit integers. -/
def readCall (mem : Bytes) (keyPtr keyLen argsPtr argsLen : Int32) : Option (Bytes × Bytes) := do
  let key ← sliceBytes mem keyPtr.toInt (keyPtr + keyLen).toInt
  let args ← sliceBytes mem argsPtr.toInt (argsPtr + argsLen).toInt
  return (key, args)

/-- What `Go_host_call` does with the reply. -/
def reply (m : ℕ) (payload : Bytes) (outPtr outCap : Int32) (e : HostEnv) : Option HostEnv :=
  if Int32.ofNat payload.length ≤ outCap then
    (copyBytes e.mem outPtr.toInt payload).map fun mem => { e with mem }
  else some { e with stash := e.stash.insert m payload }

section

variable (isPrint : ℕ → Bool) (dispatch : Dispatch) (m : ℕ)
  (keyPtr keyLen argsPtr argsLen outPtr outCap : Int32)

/-- `Go_host_call`: the value it returns, or none where it panics. -/
def goHostCall (e : HostEnv) : Option (Int32 × HostEnv) :=
  if BadBounds e.mem keyPtr keyLen argsPtr argsLen then some (0, e)
  else
    (readCall e.mem keyPtr keyLen argsPtr argsLen).bind fun (key, args) =>
      let r := safeDispatch isPrint dispatch key args e
      (reply m r.1 outPtr outCap r.2).map fun e' => (Int32.ofNat r.1.length, e')

/-- `Go_host_result`. -/
def goHostResult (e : HostEnv) : Option HostEnv :=
  let p := (e.stash.lookup m).getD []
  (copyBytes e.mem outPtr.toInt p).map fun mem => { mem, stash := e.stash.erase m }

/-! ### What a safe call is -/

/-- The memory keeps its length, and only the bytes from `lo` on below `lo + len` change. -/
structure WritesInside (before after : Bytes) (lo len : ℤ) : Prop where
  length_eq : after.length = before.length
  frame : ∀ i : ℕ, ¬ (lo ≤ i ∧ i < lo + len) → after[i]? = before[i]?

def region (mem : Bytes) (ptr len : Int32) : Bytes :=
  (mem.drop ptr.toInt.toNat).take len.toInt.toNat

/-- The reply to a call and the state after its handler; there is no reply if the bounds are bad. -/
def handled (e : HostEnv) : Bytes × HostEnv :=
  if BadBounds e.mem keyPtr keyLen argsPtr argsLen then ([], e)
  else safeDispatch isPrint dispatch (region e.mem keyPtr keyLen) (region e.mem argsPtr argsLen) e

/-- The call does not panic and writes only into the buffer of the guest. -/
def CallSafe (e : HostEnv) : Prop :=
  let r := handled isPrint dispatch keyPtr keyLen argsPtr argsLen e
  ∃ ret e', goHostCall isPrint dispatch m keyPtr keyLen argsPtr argsLen outPtr outCap e
      = some (ret, e')
    ∧ ret.toInt = r.1.length ∧ WritesInside r.2.mem e'.mem outPtr.toInt outCap.toInt

/-- The call does not panic and writes only where the reply belongs. -/
def ResultSafe (e : HostEnv) : Prop :=
  ∃ e', goHostResult m outPtr e = some e'
    ∧ WritesInside e.mem e'.mem outPtr.toInt ((e.stash.lookup m).getD []).length

/-- The ends and the length of the reply are 32-bit integers, and the buffer is in the memory. -/
structure CallFits (e : HostEnv) : Prop where
  key_end : keyPtr.toInt + keyLen.toInt < 2 ^ 31
  args_end : argsPtr.toInt + argsLen.toInt < 2 ^ 31
  reply_length : (handled isPrint dispatch keyPtr keyLen argsPtr argsLen e).1.length < 2 ^ 31
  buffer :
    let r := handled isPrint dispatch keyPtr keyLen argsPtr argsLen e
    (r.1.length : ℤ) ≤ outCap.toInt → 0 ≤ outPtr.toInt ∧ outPtr.toInt ≤ r.2.mem.length

end

/-! ### Slices and copies -/

lemma copyBytes_isSome_iff (mem : Bytes) (lo : ℤ) (src : Bytes) :
    (copyBytes mem lo src).isSome = true ↔ 0 ≤ lo ∧ lo ≤ mem.length := by
  rw [copyBytes, isSome_ite]

lemma writesInside_copyBytes {mem after src : Bytes} {lo len : ℤ}
    (h : copyBytes mem lo src = some after)
    (hlen : (src.length : ℤ) ≤ len) : WritesInside mem after lo len := by
  obtain ⟨⟨hlo, hend⟩, heq⟩ := Option.ite_none_right_eq_some.mp h
  obtain ⟨k, rfl⟩ := Int.eq_ofNat_of_zero_le hlo
  have hk : k ≤ mem.length := by omega
  obtain rfl := Option.some.inj heq
  constructor
  · simp only [length_append, length_take, length_drop, Int.toNat_natCast]
    omega
  · intro i hi
    have hmin : min k mem.length = k := min_eq_left hk
    simp only [Int.toNat_natCast, getElem?_append, length_append, length_take, getElem?_take,
      getElem?_drop, hmin]
    split_ifs with h₁ h₂ h₃
    · rfl
    · omega
    · omega
    · by_cases hin : i < mem.length
      · exact congrArg _ (by omega)
      · rw [getElem?_eq_none (by omega), getElem?_eq_none (by omega)]

lemma toInt_add_of_nonneg {a b : Int32} (ha : 0 ≤ a.toInt) (hb : 0 ≤ b.toInt) :
    (a + b).toInt = if a.toInt + b.toInt < 2 ^ 31 then a.toInt + b.toInt
      else a.toInt + b.toInt - 2 ^ 32 := by
  have ha' := a.toInt_lt
  have hb' := b.toInt_lt
  rw [Int32.toInt_add, Int.bmod_def]
  split_ifs <;> omega

lemma slice_region {mem : Bytes} {ptr len : Int32} (hptr : ¬ ptr < 0) (hlen : ¬ len < 0)
    (hn : ¬ ptr.toInt + len.toInt > mem.length) :
    sliceBytes mem ptr.toInt (ptr + len).toInt
      = if ptr.toInt + len.toInt < 2 ^ 31 then some (region mem ptr len) else none := by
  have hptr : 0 ≤ ptr.toInt := by simpa [Int32.lt_iff_toInt_lt] using hptr
  have hlen : 0 ≤ len.toInt := by simpa [Int32.lt_iff_toInt_lt] using hlen
  have hlen' := len.toInt_lt
  rw [toInt_add_of_nonneg hptr hlen]
  split_ifs with h
  · rw [sliceBytes, if_pos (by omega), region, drop_take]
    have hsub : (ptr.toInt + len.toInt).toNat - ptr.toInt.toNat = len.toInt.toNat := by omega
    rw [hsub]
  · -- the end has wrapped to a negative number
    rw [sliceBytes, if_neg (by omega)]

lemma toInt_ofNat_eq_iff (n : ℕ) : (Int32.ofNat n).toInt = n ↔ n < 2 ^ 31 := by
  have hsize : (Int32.size : ℤ) = 2 ^ 32 := rfl
  rw [Int32.toInt_ofNat', Int.bmod_def, hsize]
  split_ifs <;> omega

/-! ### Safe calls -/

section

variable {isPrint : ℕ → Bool} {dispatch : Dispatch} {m : ℕ}
  {keyPtr keyLen argsPtr argsLen outPtr outCap : Int32} {e : HostEnv}

/-- A call whose bounds are checked reads its key and its arguments, unless an end overflows. -/
lemma readCall_eq (hbounds : ¬ BadBounds e.mem keyPtr keyLen argsPtr argsLen) :
    readCall e.mem keyPtr keyLen argsPtr argsLen
      = if keyPtr.toInt + keyLen.toInt < 2 ^ 31 ∧ argsPtr.toInt + argsLen.toInt < 2 ^ 31 then
          some (region e.mem keyPtr keyLen, region e.mem argsPtr argsLen)
        else none := by
  simp only [BadBounds, not_or] at hbounds
  obtain ⟨hkey, hkeyLen, hkeyEnd, hargs, hargsLen, hargsEnd⟩ := hbounds
  rw [readCall, slice_region hkey hkeyLen hkeyEnd, slice_region hargs hargsLen hargsEnd]
  split_ifs <;> first | rfl | tauto

lemma reply_safe_iff {payload : Bytes} (hlen : payload.length < 2 ^ 31) :
    (∃ e', reply m payload outPtr outCap e = some e'
      ∧ WritesInside e.mem e'.mem outPtr.toInt outCap.toInt)
      ↔ ((payload.length : ℤ) ≤ outCap.toInt → 0 ≤ outPtr.toInt ∧ outPtr.toInt ≤ e.mem.length) := by
  have hfits : Int32.ofNat payload.length ≤ outCap ↔ (payload.length : ℤ) ≤ outCap.toInt := by
    rw [Int32.le_iff_toInt_le, (toInt_ofNat_eq_iff _).mpr hlen]
  rw [← copyBytes_isSome_iff e.mem outPtr.toInt payload, reply]
  split_ifs with h
  · constructor
    · rintro ⟨e', he', -⟩ -
      obtain ⟨mem, hmem, -⟩ := map_eq_some_iff.mp he'
      exact isSome_of_eq_some hmem
    · intro hcopy
      obtain ⟨mem, hmem⟩ := isSome_iff_exists.mp (hcopy (hfits.mp h))
      exact ⟨{ e with mem }, by rw [hmem]; rfl, writesInside_copyBytes hmem (hfits.mp h)⟩
  · -- the reply is kept for later
    constructor
    · intro _ hle
      exact absurd (hfits.mpr hle) h
    · intro _
      exact ⟨_, rfl, rfl, fun _ _ => rfl⟩

lemma callSafe_of_badBounds (hbounds : BadBounds e.mem keyPtr keyLen argsPtr argsLen) :
    CallSafe isPrint dispatch m keyPtr keyLen argsPtr argsLen outPtr outCap e := by
  refine ⟨0, e, if_pos hbounds, ?_, ?_⟩
  · rw [handled, if_pos hbounds]
    rfl
  · rw [handled, if_pos hbounds]
    exact ⟨rfl, fun _ _ => rfl⟩

lemma callSafe_iff (hbounds : ¬ BadBounds e.mem keyPtr keyLen argsPtr argsLen) :
    CallSafe isPrint dispatch m keyPtr keyLen argsPtr argsLen outPtr outCap e
      ↔ CallFits isPrint dispatch keyPtr keyLen argsPtr argsLen outPtr outCap e := by
  have hcall := readCall_eq hbounds
  by_cases hends : keyPtr.toInt + keyLen.toInt < 2 ^ 31 ∧ argsPtr.toInt + argsLen.toInt < 2 ^ 31
  · rw [if_pos hends] at hcall
    generalize hr : handled isPrint dispatch keyPtr keyLen argsPtr argsLen e = r
    have hgo : goHostCall isPrint dispatch m keyPtr keyLen argsPtr argsLen outPtr outCap e
        = (reply m r.1 outPtr outCap r.2).map fun e' => (Int32.ofNat r.1.length, e') := by
      rw [handled, if_neg hbounds] at hr
      rw [goHostCall, if_neg hbounds, hcall, ← hr]
      rfl
    constructor
    · rintro ⟨ret, e', hret, hlen, hwrites⟩
      rw [hgo] at hret
      obtain ⟨e'', he'', heq⟩ := map_eq_some_iff.mp hret
      obtain ⟨rfl, rfl⟩ := Prod.mk.inj heq
      rw [hr] at hlen hwrites
      have hshort := (toInt_ofNat_eq_iff _).mp hlen
      refine ⟨hends.1, hends.2, by rwa [hr], ?_⟩
      rw [hr]
      exact (reply_safe_iff hshort).mp ⟨e'', he'', hwrites⟩
    · rintro ⟨-, -, hshort, hbuffer⟩
      rw [hr] at hshort hbuffer
      obtain ⟨e', he', hwrites⟩ := (reply_safe_iff hshort).mpr hbuffer
      refine ⟨Int32.ofNat r.1.length, e', by rw [hgo, he']; rfl, ?_, ?_⟩
      · rw [hr]
        exact (toInt_ofNat_eq_iff _).mpr hshort
      · rwa [hr]
  · rw [if_neg hends] at hcall
    constructor
    · rintro ⟨ret, e', hret, -⟩
      rw [goHostCall, if_neg hbounds, hcall] at hret
      exact absurd hret (by simp)
    · intro hfits
      exact absurd ⟨hfits.key_end, hfits.args_end⟩ hends

lemma resultSafe_iff :
    ResultSafe m outPtr e ↔ 0 ≤ outPtr.toInt ∧ outPtr.toInt ≤ e.mem.length := by
  rw [← copyBytes_isSome_iff e.mem outPtr.toInt ((e.stash.lookup m).getD [])]
  constructor
  · rintro ⟨e', he', -⟩
    obtain ⟨mem, hmem, -⟩ := map_eq_some_iff.mp he'
    exact isSome_of_eq_some hmem
  · intro hcopy
    obtain ⟨mem, hmem⟩ := isSome_iff_exists.mp hcopy
    exact ⟨_, by rw [goHostResult, hmem]; rfl, writesInside_copyBytes hmem le_rfl⟩

end

/-- A call is safe exactly if its bounds are bad or it fits. -/
theorem host_calls_safe_iff (isPrint : ℕ → Bool) (dispatch : Dispatch) (m : ℕ)
    (keyPtr keyLen argsPtr argsLen outPtr outCap : Int32) (e : HostEnv) :
    (CallSafe isPrint dispatch m keyPtr keyLen argsPtr argsLen outPtr outCap e
      ↔ BadBounds e.mem keyPtr keyLen argsPtr argsLen
        ∨ CallFits isPrint dispatch keyPtr keyLen argsPtr argsLen outPtr outCap e)
    ∧ (ResultSafe m outPtr e ↔ 0 ≤ outPtr.toInt ∧ outPtr.toInt ≤ e.mem.length) := by
  refine ⟨?_, resultSafe_iff⟩
  by_cases hbounds : BadBounds e.mem keyPtr keyLen argsPtr argsLen
  · exact iff_of_true (callSafe_of_badBounds hbounds) (.inl hbounds)
  · rw [callSafe_iff hbounds, or_iff_right hbounds]

def constantReply (payload : Bytes) : Dispatch := fun _ _ e => (some payload, e)

/-- A pointer outside the memory ends the process, and so does a key that ends at `2 ^ 31`; a reply
of `2 ^ 31` bytes has a negative length. -/
theorem forged_pointers_panic :
    goHostCall (fun _ => true) (constantReply (str "R")) 0 0 0 0 0 (-1) 8 ⟨str "memory", ∅⟩ = none
    ∧ goHostResult 0 7 ⟨str "memory", ∅⟩ = none
    ∧ (∀ e : HostEnv, e.mem = List.replicate (2 ^ 31) 0 →
      ¬ BadBounds e.mem 2147483647 1 0 0
      ∧ goHostCall (fun _ => true) (constantReply (str "R")) 0 2147483647 1 0 0 0 8 e = none)
    ∧ ∀ payload : Bytes, payload.length = 2 ^ 31 →
      ∃ r, goHostCall (fun _ => true) (constantReply payload) 0 0 0 0 0 0 8 ⟨str "memory", ∅⟩
        = some r
        ∧ r.1.toInt = -2 ^ 31 := by
  refine ⟨by decide +kernel, by decide +kernel, ?_, ?_⟩
  · intro e he
    have hlen : e.mem.length = 2 ^ 31 := by rw [he, length_replicate]
    have hbounds : ¬ BadBounds e.mem 2147483647 1 0 0 := by
      rw [BadBounds, hlen]
      decide
    refine ⟨hbounds, ?_⟩
    rw [goHostCall, if_neg hbounds, readCall_eq hbounds, if_neg (by decide)]
    rfl
  · intro payload hlen
    have hwrapped : Int32.ofNat payload.length = -2147483648 := by
      rw [hlen]
      decide
    have hcopy : (copyBytes (str "memory") 0 payload).isSome = true :=
      (copyBytes_isSome_iff _ _ _).mpr (by decide)
    obtain ⟨mem, hmem⟩ := isSome_iff_exists.mp hcopy
    have hreply : reply 0 payload 0 8 ⟨str "memory", ∅⟩ = some ⟨mem, ∅⟩ := by
      rw [reply, if_pos (by rw [hwrapped]; decide)]
      exact congrArg (Option.map _) hmem
    have hbounds : ¬ BadBounds (str "memory") 0 0 0 0 := by decide
    refine ⟨(Int32.ofNat payload.length, ⟨mem, ∅⟩), ?_, by rw [hwrapped]; rfl⟩
    rw [goHostCall, if_neg hbounds, readCall_eq hbounds, if_pos (by decide), bind_some]
    simp only [safeDispatch, constantReply, getD_some, hreply, map_some]

/-- A call whose reply fits into the guest's buffer. -/
theorem plainCall_safe :
    CallFits (fun _ => true) (constantReply (str "R")) 0 3 3 2 5 1 ⟨str "memory", ∅⟩
    ∧ CallSafe (fun _ => true) (constantReply (str "R")) 0 0 3 3 2 5 1 ⟨str "memory", ∅⟩ := by
  have hfits : CallFits (fun _ => true) (constantReply (str "R")) 0 3 3 2 5 1 ⟨str "memory", ∅⟩ :=
    ⟨by decide, by decide, by decide +kernel, by decide +kernel⟩
  exact ⟨hfits, (host_calls_safe_iff (fun _ => true) (constantReply (str "R")) 0 0 3 3 2 5 1
    ⟨str "memory", ∅⟩).1.mpr (.inr hfits)⟩

end GoSpidermonkey.Bridge
