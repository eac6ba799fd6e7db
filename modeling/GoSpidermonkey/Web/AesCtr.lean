import GoSpidermonkey.Go.Bytes
import GoSpidermonkey.Lib.BigEndian

/-!
# AES in counter mode

`aesCTR` of `subtle2.go` for any block function. With a counter of fewer than 128 bits it is a loop
of its own, which increments the low bits of the counter block in place; otherwise the standard
library counts with the whole block. The blocks that are encrypted count from the given one within
the low bits (`ctrRounds_blocks`). Nothing limits the data to the blocks that the counter can count,
so a block comes again exactly if there are more (`counter_blocks_distinct_iff`).
-/

namespace GoSpidermonkey.Web

open BigEndian List Nat

abbrev Block := { b : Bytes // b.length = 16 }

/-- The loop of `incrCounterBits` with `n` of the `bits` left. -/
def incrLoop (bits : ℕ) : ℕ → Bytes → Bytes
  | 0, ctr => ctr
  | n + 1, ctr =>
    let bit := bits - (n + 1)
    let idx := ctr.length - 1 - bit / 8
    let mask : UInt8 := .ofNat (2 ^ (bit % 8))
    let ctr := ctr.modify idx (· ^^^ mask)
    if ctr.getD idx 0 &&& mask ≠ 0 then ctr else incrLoop bits n ctr

def incrCounterBits (ctr : Bytes) (bits : ℕ) : Bytes := incrLoop bits bits ctr

lemma length_incrLoop (bits n : ℕ) (ctr : Bytes) : (incrLoop bits n ctr).length = ctr.length := by
  induction n generalizing ctr with
  | zero => rfl
  | succ n ih =>
    rw [incrLoop]
    split_ifs
    · exact length_modify _ _ _
    · rw [ih, length_modify]

def Block.incr (bits : ℕ) (ctr : Block) : Block :=
  ⟨incrCounterBits ctr.1 bits, (length_incrLoop bits bits ctr.1).trans ctr.2⟩

def Block.ofNat (v : ℕ) : Block := ⟨bytes 16 v, length_bytes 16 v⟩

/-- The rounds of counter mode: what they append to the output, and the blocks they encrypt. -/
def ctrRounds (encrypt next : Block → Block) : ℕ → Block → Bytes → Bytes × List Block
  | 0, _, _ => ([], [])
  | n + 1, ctr, data =>
    let rest := ctrRounds encrypt next n (next ctr) (data.drop 16)
    (List.zipWith (· ^^^ ·) data (encrypt ctr).1 ++ rest.1, ctr :: rest.2)

/-- `aesCTR`, with the blocks that are encrypted. The standard library counts with the whole block
as a number. -/
def aesCTRCalls (encrypt : Block → Block) (counter : Block) (ctrBits : ℕ) (data : Bytes) :
    Bytes × List Block :=
  let rounds := (data.length + 15) / 16
  if 128 ≤ ctrBits then ctrRounds encrypt (fun ctr => .ofNat (value ctr.1 + 1)) rounds counter data
  else ctrRounds encrypt (Block.incr ctrBits) rounds counter data

def aesCTR (encrypt : Block → Block) (counter : Block) (ctrBits : ℕ) (data : Bytes) : Bytes :=
  (aesCTRCalls encrypt counter ctrBits data).1

/-- The case of `aesRun` for AES-CTR. -/
def aesRunCTR (encrypt : Block → Block) (iv : Bytes) (length : Option ℤ) (data : Bytes) :
    Except String (Bytes × List Block) :=
  if h : iv.length = 16 then
    let ctrBits := length.getD 128
    if ctrBits ≤ 0 ∨ 128 < ctrBits then
      .error "OperationError: AES-CTR length must be in 1..128"
    else .ok (aesCTRCalls encrypt ⟨iv, h⟩ ctrBits.toNat data)
  else .error "OperationError: AES-CTR counter block must be 16 bytes"

/-! ### Counting -/

def counterBlock (c : Block) (bits j : ℕ) : Block :=
  .ofNat (value c.1 / 2 ^ bits * 2 ^ bits + (value c.1 % 2 ^ bits + j) % 2 ^ bits)

variable {bits : ℕ}

lemma low_bit {v k : ℕ} (hk : k < bits) : v % 2 ^ bits / 2 ^ k % 2 = v / 2 ^ k % 2 := by
  obtain ⟨m, rfl⟩ := Nat.exists_eq_add_of_lt hk
  have hpow : 2 ^ (k + m + 1) = 2 ^ k * (2 * 2 ^ m) := by ring
  rw [hpow, Nat.mod_mul_right_div_self, Nat.mod_mul_right_mod]

lemma low_bit_room (v : ℕ) {k : ℕ} (hk : k < bits) :
    (v / 2 ^ k % 2 = 0 → v % 2 ^ bits + 2 ^ k < 2 ^ bits) ∧
      (v / 2 ^ k % 2 = 1 → 2 ^ k ≤ v % 2 ^ bits) := by
  have hlt : v % 2 ^ bits < 2 ^ bits := Nat.mod_lt v (by positivity)
  rw [← low_bit hk]
  generalize v % 2 ^ bits = w at hlt ⊢
  obtain ⟨m, rfl⟩ := Nat.exists_eq_add_of_lt hk
  have hpow : 2 ^ (k + m + 1) = 2 ^ k * (2 * 2 ^ m) := by ring
  rw [hpow] at hlt ⊢
  have hdiv : w / 2 ^ k < 2 * 2 ^ m := Nat.div_lt_of_lt_mul hlt
  constructor
  · intro hbit
    have hw : w < 2 ^ k * (w / 2 ^ k + 1) := Nat.lt_mul_div_succ w (by positivity)
    have hle : w / 2 ^ k + 1 + 1 ≤ 2 * 2 ^ m := by omega
    calc w + 2 ^ k < 2 ^ k * (w / 2 ^ k + 1) + 2 ^ k := by omega
      _ = 2 ^ k * (w / 2 ^ k + 1 + 1) := by ring
      _ ≤ 2 ^ k * (2 * 2 ^ m) := Nat.mul_le_mul_left _ hle
  · intro hbit
    have hpos : 0 < w / 2 ^ k := Nat.pos_of_ne_zero fun h => by simp [h] at hbit
    calc 2 ^ k ≤ 2 ^ k * (w / 2 ^ k) := Nat.le_mul_of_pos_right _ hpos
      _ ≤ w := Nat.mul_div_le w _

lemma value_incrLoop {n : ℕ} (ctr : Bytes) (hn : n ≤ bits) (hbits : bits ≤ 8 * ctr.length) :
    value (incrLoop bits n ctr) =
      value ctr / 2 ^ bits * 2 ^ bits + (value ctr % 2 ^ bits + 2 ^ (bits - n)) % 2 ^ bits := by
  induction n generalizing ctr with
  | zero =>
    rw [incrLoop, Nat.sub_zero, Nat.add_mod_right, Nat.mod_mod, Nat.div_add_mod']
  | succ n ih =>
    set k := bits - (n + 1) with hk
    obtain ⟨-, hzero, hone⟩ := flip_spec (b := ctr) (k := k) (by omega)
    obtain ⟨hset, -, -⟩ := flip_spec (b := flip ctr k) (k := k) (by rw [length_flip]; omega)
    obtain ⟨hroom, htake⟩ := low_bit_room (value ctr) (by omega : k < bits)
    have hplace : place (flip ctr k) k = ctr.length - 1 - k / 8 := by rw [place, length_flip]
    have hstep : incrLoop bits (n + 1) ctr =
        if value (flip ctr k) / 2 ^ k % 2 = 1 then flip ctr k
          else incrLoop bits n (flip ctr k) := by
      rw [hplace] at hset
      simp only [← hset]
      rfl
    have hsplit := div_add_mod' (value ctr) (2 ^ bits)
    have hadd : ∀ v, (v + 2 ^ k) / 2 ^ k = v / 2 ^ k + 1 := fun v =>
      add_div_right v (by positivity)
    rw [hstep]
    by_cases hbit : value ctr / 2 ^ k % 2 = 1
    · -- a carry: the bit is cleared, and the next one has twice its weight
      have hvalue := hone hbit
      have hclear : ¬ value (flip ctr k) / 2 ^ k % 2 = 1 := by
        rw [hvalue, hadd] at hbit
        omega
      have hlow : value (flip ctr k) =
          value ctr / 2 ^ bits * 2 ^ bits + (value ctr % 2 ^ bits - 2 ^ k) := by
        omega
      have hlt : value ctr % 2 ^ bits - 2 ^ k < 2 ^ bits :=
        (sub_le _ _).trans_lt (mod_lt _ (by positivity))
      have hweight : 2 ^ (bits - n) = 2 ^ k + 2 ^ k := by
        rw [show bits - n = k + 1 by omega, pow_succ]
        ring
      have hhigh : value (flip ctr k) / 2 ^ bits = value ctr / 2 ^ bits := by
        rw [hlow, add_comm, add_mul_div_right _ _ (by positivity), div_eq_of_lt hlt,
          zero_add]
      have hsum : value ctr % 2 ^ bits - 2 ^ k + (2 ^ k + 2 ^ k)
          = value ctr % 2 ^ bits + 2 ^ k := by
        omega
      rw [if_neg hclear, ih _ (by omega) (by rw [length_flip]; exact hbits), hhigh, hlow,
        mul_add_mod_of_lt hlt, hweight, hsum]
    · have hzero' := hzero (by omega)
      have hset : value (flip ctr k) / 2 ^ k % 2 = 1 := by
        rw [hzero', hadd]
        omega
      rw [if_pos hset, mod_eq_of_lt (hroom (by omega)), hzero']
      omega

/-- Blocks are the numbers below `2 ^ 128`. -/
lemma Block.ext_value {a b : Block} (h : value a.1 = value b.1) : a = b :=
  Subtype.ext (value_inj (a.2.trans b.2.symm) h)

lemma value_ofNat (v : ℕ) : value (Block.ofNat v).1 = v % 2 ^ 128 := value_bytes 16 v

lemma value_lt_block (c : Block) : value c.1 < 2 ^ 128 := by
  have hlt := value_lt c.1
  rw [c.2] at hlt
  exact hlt.trans_eq (by norm_num)

lemma value_counterBlock (c : Block) (hbits : bits ≤ 128) (j : ℕ) :
    value (counterBlock c bits j).1 =
      value c.1 / 2 ^ bits * 2 ^ bits + (value c.1 % 2 ^ bits + j) % 2 ^ bits := by
  refine (value_ofNat _).trans (mod_eq_of_lt ?_)
  have hpow : 2 ^ 128 = 2 ^ (128 - bits) * 2 ^ bits := by
    rw [← pow_add]
    congr 1
    omega
  have hhigh : value c.1 / 2 ^ bits < 2 ^ (128 - bits) := by
    apply Nat.div_lt_of_lt_mul
    rw [Nat.mul_comm, ← hpow]
    exact value_lt_block c
  calc value c.1 / 2 ^ bits * 2 ^ bits + (value c.1 % 2 ^ bits + j) % 2 ^ bits
      < value c.1 / 2 ^ bits * 2 ^ bits + 2 ^ bits := by omega
    _ = (value c.1 / 2 ^ bits + 1) * 2 ^ bits := by ring
    _ ≤ 2 ^ (128 - bits) * 2 ^ bits := mul_le_mul_right _ hhigh
    _ = 2 ^ 128 := hpow.symm

lemma counterBlock_high (c : Block) (hbits : bits ≤ 128) (j : ℕ) :
    value (counterBlock c bits j).1 / 2 ^ bits = value c.1 / 2 ^ bits ∧
      value (counterBlock c bits j).1 % 2 ^ bits = (value c.1 % 2 ^ bits + j) % 2 ^ bits := by
  have hlow : (value c.1 % 2 ^ bits + j) % 2 ^ bits < 2 ^ bits := mod_lt _ (by positivity)
  rw [value_counterBlock c hbits]
  refine ⟨?_, mul_add_mod_of_lt hlow⟩
  rw [add_comm, add_mul_div_right _ _ (by positivity), div_eq_of_lt hlow, zero_add]

lemma counterBlock_zero (c : Block) (hbits : bits ≤ 128) : counterBlock c bits 0 = c := by
  apply Block.ext_value
  rw [value_counterBlock c hbits, add_zero, mod_mod, div_add_mod']

lemma counterBlock_counterBlock (c : Block) (hbits : bits ≤ 128) (i j : ℕ) :
    counterBlock (counterBlock c bits i) bits j = counterBlock c bits (i + j) := by
  obtain ⟨hhigh, hlow⟩ := counterBlock_high c hbits i
  apply Block.ext_value
  rw [value_counterBlock (counterBlock c bits i) hbits, hhigh, hlow, mod_add_mod, add_assoc,
    value_counterBlock c hbits]

/-- What both ways to step the counter do. -/
def Counts (bits : ℕ) (next : Block → Block) : Prop := ∀ c, next c = counterBlock c bits 1

lemma counts_incr (hbits : bits ≤ 128) : Counts bits (Block.incr bits) := by
  intro c
  apply Block.ext_value
  rw [value_counterBlock c hbits]
  have hloop := value_incrLoop c.1 (le_refl bits) (by rw [c.2]; exact hbits)
  rw [Nat.sub_self, pow_zero] at hloop
  exact hloop

lemma counts_whole : Counts 128 fun ctr => .ofNat (value ctr.1 + 1) := by
  intro c
  apply Block.ext_value
  rw [value_counterBlock c (le_refl 128), value_ofNat, div_eq_of_lt (value_lt_block c), zero_mul,
    zero_add, mod_eq_of_lt (value_lt_block c)]

lemma Counts.iterate {next : Block → Block} (h : Counts bits next) (hbits : bits ≤ 128)
    (c : Block) (j : ℕ) : next^[j] c = counterBlock c bits j := by
  induction j with
  | zero => exact (counterBlock_zero c hbits).symm
  | succ j ih => rw [Function.iterate_succ_apply', ih, h, counterBlock_counterBlock c hbits]

/-! ### Rounds -/

section Rounds

variable (encrypt next : Block → Block)

lemma ctrRounds_blocks (n : ℕ) (c : Block) (data : Bytes) :
    (ctrRounds encrypt next n c data).2 = (List.range n).map fun j => next^[j] c := by
  induction n generalizing c data with
  | zero => rfl
  | succ n ih =>
    rw [ctrRounds, ih, range_succ_eq_map, map_cons, map_map]
    rfl

variable {n : ℕ} {data : Bytes}

lemma length_ctrRounds (c : Block) (hdata : data.length ≤ 16 * n) :
    (ctrRounds encrypt next n c data).1.length = data.length := by
  induction n generalizing c data with
  | zero =>
    rw [eq_nil_of_length_eq_zero (le_zero.mp hdata)]
    rfl
  | succ n ih =>
    rw [ctrRounds, length_append, length_zipWith, (encrypt c).2,
      ih (next c) (by rw [length_drop]; omega), length_drop]
    omega

lemma getElem?_ctrRounds (c : Block) (hdata : data.length ≤ 16 * n) (m : ℕ) :
    (ctrRounds encrypt next n c data).1[m]? =
      data[m]?.map (· ^^^ (encrypt (next^[m / 16] c)).1.getD (m % 16) 0) := by
  induction n generalizing c data m with
  | zero =>
    rw [eq_nil_of_length_eq_zero (le_zero.mp hdata)]
    rfl
  | succ n ih =>
    have hlen : (List.zipWith (· ^^^ ·) data (encrypt c).1).length = min data.length 16 := by
      rw [length_zipWith, (encrypt c).2]
    have hrest : (data.drop 16).length ≤ 16 * n := by
      rw [length_drop]
      omega
    by_cases hm : m < data.length
    case neg =>
      have hout := length_ctrRounds encrypt next c hdata
      rw [getElem?_eq_none (by omega), getElem?_eq_none (by omega)]
      rfl
    case pos =>
      simp only [ctrRounds]
      by_cases hfirst : m < 16
      · have hkey : m < (encrypt c).1.length := by rw [(encrypt c).2]; exact hfirst
        rw [getElem?_append_left (by omega), getElem?_zipWith, getElem?_eq_getElem hm,
          getElem?_eq_getElem hkey, div_eq_of_lt hfirst, mod_eq_of_lt hfirst,
          getD_eq_getElem _ _ (by rw [(encrypt _).2]; exact hfirst)]
        rfl
      · obtain ⟨m, rfl⟩ : ∃ m', m = m' + 16 := ⟨m - 16, by omega⟩
        rw [getElem?_append_right (by omega), hlen, min_eq_right (by omega),
          Nat.add_sub_cancel, ih (next c) hrest, getElem?_drop, Nat.add_comm 16 m,
          add_div_right m (by norm_num), add_mod_right, Function.iterate_succ_apply]

lemma length_le_rounds (data : Bytes) : data.length ≤ 16 * ((data.length + 15) / 16) := by
  omega

lemma ctrRounds_ctrRounds (c : Block) (hdata : data.length ≤ 16 * n) :
    (ctrRounds encrypt next n c (ctrRounds encrypt next n c data).1).1 = data := by
  apply ext_getElem?
  intro m
  have hxor : ∀ key : UInt8, (· ^^^ key) ∘ (· ^^^ key) = id := by
    intro key
    funext x
    rw [Function.comp_apply, UInt8.xor_assoc, UInt8.xor_self, UInt8.xor_zero, id]
  rw [getElem?_ctrRounds _ _ c (by rw [length_ctrRounds _ _ c hdata]; exact hdata),
    getElem?_ctrRounds _ _ c hdata, Option.map_map, hxor, Option.map_id, id]

end Rounds

/-- The counter within the low bits of the block is the stream of keys, for up to 127 bits. -/
theorem aesCTR_stream (encrypt : Block → Block) (c : Block) (ctrBits : ℕ) (data : Bytes)
    (hpos : 1 ≤ ctrBits) (hbits : ctrBits ≤ 127) :
    (aesCTR encrypt c ctrBits data).length = data.length ∧
      (∀ j i, i < 16 → 16 * j + i < data.length →
        (aesCTR encrypt c ctrBits data).getD (16 * j + i) 0 =
          data.getD (16 * j + i) 0 ^^^ (encrypt (counterBlock c ctrBits j)).1.getD i 0) ∧
      (∀ b ∈ (aesCTRCalls encrypt c ctrBits data).2,
        value b.1 / 2 ^ ctrBits = value c.1 / 2 ^ ctrBits) ∧
      aesCTR encrypt c ctrBits (aesCTR encrypt c ctrBits data) = data := by
  have hcalls : ∀ d : Bytes, aesCTRCalls encrypt c ctrBits d =
      ctrRounds encrypt (Block.incr ctrBits) ((d.length + 15) / 16) c d :=
    fun d => if_neg (by omega)
  have hle : ctrBits ≤ 128 := by omega
  have hcount := (counts_incr hle).iterate hle c
  have hlen : (aesCTR encrypt c ctrBits data).length = data.length := by
    rw [aesCTR, hcalls, length_ctrRounds _ _ c (length_le_rounds data)]
  refine ⟨hlen, ?_, ?_, ?_⟩
  · intro j i hi hlt
    have hout :=
      getElem?_ctrRounds encrypt (Block.incr ctrBits) c (length_le_rounds data) (16 * j + i)
    rw [mul_add_div (by norm_num), div_eq_of_lt hi, add_zero, mul_add_mod,
      mod_eq_of_lt hi, hcount, ← hcalls, getElem?_eq_getElem hlt] at hout
    rw [aesCTR, getD_eq_getElem?_getD, hout, getD_eq_getElem _ _ hlt]
    rfl
  · intro b hb
    rw [hcalls, ctrRounds_blocks] at hb
    obtain ⟨j, -, rfl⟩ := mem_map.mp hb
    rw [hcount]
    exact (counterBlock_high c hle j).1
  · have htwice := ctrRounds_ctrRounds encrypt (Block.incr ctrBits) c (length_le_rounds data)
    rw [← hcalls] at htwice
    rw [aesCTR, hcalls, hlen]
    exact htwice

/-- Over three blocks the low bit counts round, and the bits above it stay. -/
theorem aesCTR_stream_one_bit :
    [15, 31, 47].map (fun i => (aesCTR id (.ofNat 3) 1 (replicate 48 0)).getD i 0) = [3, 2, 3] ∧
      aesCTR id (.ofNat 3) 1 (aesCTR id (.ofNat 3) 1 (replicate 48 0)) = replicate 48 0 :=
  ⟨by decide +kernel,
    (aesCTR_stream id (.ofNat 3) 1 (replicate 48 0) (by decide) (by decide)).2.2.2⟩

/-! ### Blocks that come again -/

lemma nodup_counterBlock_iff (c : Block) {n : ℕ} (hbits : bits ≤ 128) :
    ((List.range n).map fun j => counterBlock c bits j).Nodup ↔ n ≤ 2 ^ bits := by
  rw [nodup_map_iff_inj_on nodup_range]
  constructor
  · intro hinj
    by_contra hlt
    have hpos : 0 < 2 ^ bits := by positivity
    have heq : counterBlock c bits 0 = counterBlock c bits (2 ^ bits) := by
      rw [counterBlock, counterBlock, add_mod_right, add_zero]
    have hzero := hinj 0 (mem_range.mpr (by omega)) (2 ^ bits) (mem_range.mpr (by omega)) heq
    omega
  · intro hle i hi j hj heq
    have hlow := congrArg (fun b : Block => value b.1 % 2 ^ bits) heq
    simp only [(counterBlock_high c hbits _).2] at hlow
    have hmod : i ≡ j [MOD 2 ^ bits] := Nat.ModEq.add_left_cancel' _ hlow
    exact hmod.eq_of_lt_of_lt ((mem_range.mp hi).trans_le hle) ((mem_range.mp hj).trans_le hle)

/-- The encrypted blocks are different if and only if the counter can count the blocks of the data.
-/
theorem counter_blocks_distinct_iff (encrypt : Block → Block) (iv : Bytes) (length : Option ℤ)
    (data out : Bytes) (blocks : List Block)
    (h : aesRunCTR encrypt iv length data = .ok (out, blocks)) :
    blocks.Nodup ↔ data.length ≤ 16 * 2 ^ (length.getD 128).toNat := by
  unfold aesRunCTR at h
  split at h
  case isFalse => cases h
  case isTrue hiv =>
    simp only at h
    split at h
    case isTrue => cases h
    case isFalse hrange =>
      set bits := (length.getD 128).toNat with hbits
      have hle : bits ≤ 128 := by omega
      have hcalls : (aesCTRCalls encrypt ⟨iv, hiv⟩ bits data).2 = blocks :=
        congrArg Prod.snd (Except.ok.inj h)
      have hblocks : blocks = (List.range ((data.length + 15) / 16)).map
          fun j => counterBlock ⟨iv, hiv⟩ bits j := by
        rw [← hcalls, aesCTRCalls]
        split_ifs with hwhole
        · obtain hbits' : bits = 128 := by omega
          rw [ctrRounds_blocks, hbits']
          exact map_congr_left fun j _ => counts_whole.iterate (le_refl 128) _ j
        · rw [ctrRounds_blocks]
          exact map_congr_left fun j _ => (counts_incr hle).iterate hle _ j
      rw [hblocks, nodup_counterBlock_iff _ hle]
      generalize 2 ^ bits = m
      omega

/-- Two blocks with a counter of one bit. -/
theorem counter_blocks_distinct_two :
    ∃ out blocks, aesRunCTR id (List.replicate 16 0) (some 1) (List.replicate 32 0) =
      .ok (out, blocks) ∧
      blocks.Nodup :=
  ⟨_, _, rfl, (counter_blocks_distinct_iff id (List.replicate 16 0) (some 1)
    (List.replicate 32 0) _ _
    rfl).mpr (by decide)⟩

/-- With a counter of one bit the third block is encrypted with the first counter block again. -/
theorem counter_wraps :
    ((aesRunCTR id (List.replicate 16 0) (some 1) (List.replicate 33 0)).toOption.map
      fun r => r.2) =
      some [.ofNat 0, .ofNat 1, .ofNat 0] := by
  decide

end GoSpidermonkey.Web
