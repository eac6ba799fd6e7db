import Mathlib

/-!
# Big-endian numbers

The number that bytes stand for with the most significant one first, the bytes of a number, and bits
of bytes. Bit `k` of bytes is in the byte with `k / 8` others after it; changing it adds or takes
off `2 ^ k` (`flip_spec`).
-/

namespace BigEndian

open List

def value (b : List UInt8) : ℕ := Nat.ofDigits 256 (b.reverse.map UInt8.toNat)

/-- The last `n` bytes of a number. -/
def bytes : ℕ → ℕ → List UInt8
  | 0, _ => []
  | n + 1, v => .ofNat (v / 256 ^ n) :: bytes n v

lemma value_append (a b : List UInt8) : value (a ++ b) = value a * 256 ^ b.length + value b := by
  rw [value, reverse_append, map_append, Nat.ofDigits_append, length_map,
    length_reverse, value, value, Nat.add_comm, Nat.mul_comm]

lemma value_singleton (x : UInt8) : value [x] = x.toNat := by
  simp [value]

lemma value_cons (x : UInt8) (b : List UInt8) :
    value (x :: b) = x.toNat * 256 ^ b.length + value b := by
  rw [← singleton_append, value_append, value_singleton]

private lemma digit_lt (b : List UInt8) : ∀ d ∈ b.reverse.map UInt8.toNat, d < 256 := by
  intro d hd
  obtain ⟨x, -, rfl⟩ := mem_map.mp hd
  exact x.toNat_lt

lemma value_lt (b : List UInt8) : value b < 256 ^ b.length := by
  have hlt := Nat.ofDigits_lt_base_pow_length (by norm_num : 1 < 256) (digit_lt b)
  rwa [length_map, length_reverse] at hlt

lemma value_inj {a b : List UInt8} (hlen : a.length = b.length) (h : value a = value b) :
    a = b := by
  have hmap := Nat.ofDigits_inj_of_len_eq (by norm_num : 1 < 256) (by simpa using hlen) (digit_lt a)
    (digit_lt b) h
  have hreverse := map_injective_iff.mpr (fun x y h => UInt8.toNat_inj.mp h) hmap
  exact reverse_injective hreverse

@[simp] lemma length_bytes (n v : ℕ) : (bytes n v).length = n := by
  induction n with
  | zero => rfl
  | succ n ih => rw [bytes, length_cons, ih]

lemma value_bytes (n v : ℕ) : value (bytes n v) = v % 256 ^ n := by
  induction n with
  | zero => simp [bytes, value, Nat.mod_one]
  | succ n ih =>
    have hmod : v % 256 ^ (n + 1) = v % 256 ^ n + 256 ^ n * (v / 256 ^ n % 256) := Nat.mod_pow_succ
    rw [bytes, value_cons, length_bytes, ih, UInt8.toNat_ofNat', hmod, Nat.add_comm, Nat.mul_comm]

/-! ### Bits -/

/-- The byte with bit `k`. -/
def place (b : List UInt8) (k : ℕ) : ℕ := b.length - 1 - k / 8

/-- Bit `k` in its byte. -/
def mask (k : ℕ) : UInt8 := .ofNat (2 ^ (k % 8))

/-- The bytes with bit `k` changed. -/
def flip (b : List UInt8) (k : ℕ) : List UInt8 := b.modify (place b k) (· ^^^ mask k)

lemma length_flip (b : List UInt8) (k : ℕ) : (flip b k).length = b.length := length_modify _ _ _

private lemma byte_bit (x : UInt8) (r : Fin 8) :
    ((x &&& .ofNat (2 ^ r.val) ≠ 0 ↔ x.toNat / 2 ^ r.val % 2 = 1) ∧
      (x.toNat / 2 ^ r.val % 2 = 0 → (x ^^^ .ofNat (2 ^ r.val)).toNat = x.toNat + 2 ^ r.val)) ∧
      (x.toNat / 2 ^ r.val % 2 = 1 → x.toNat = (x ^^^ .ofNat (2 ^ r.val)).toNat + 2 ^ r.val) := by
  revert x r
  decide +kernel

/-- The byte with bit `k` and the bytes on both sides. -/
private lemma exists_place {b : List UInt8} {k : ℕ} (hk : k < 8 * b.length) :
    ∃ pre x post, b = pre ++ x :: post ∧ pre.length = place b k ∧ post.length = k / 8 := by
  have hlt : place b k < b.length := by
    unfold place
    omega
  refine ⟨b.take (place b k), b[place b k], b.drop (place b k + 1), ?_, ?_, ?_⟩
  · rw [cons_getElem_drop_succ, take_append_drop]
  · rw [length_take]
    omega
  · rw [length_drop]
    unfold place at hlt ⊢
    omega

private lemma div_bit {a x p q r : ℕ} (hp : p < 256 ^ q) (hr : r < 8) :
    ((a * 256 + x) * 256 ^ q + p) / (256 ^ q * 2 ^ r) % 2 = x / 2 ^ r % 2 := by
  have hfirst : ((a * 256 + x) * 256 ^ q + p) / 256 ^ q = a * 256 + x := by
    rw [Nat.mul_comm, Nat.mul_add_div (by positivity), Nat.div_eq_of_lt hp, Nat.add_zero]
  rw [← Nat.div_div_eq_div_mul, hfirst]
  interval_cases r <;> omega

/-- Bit `k` is bit `k` of the number, and changing it adds or takes off its weight. -/
theorem flip_spec {b : List UInt8} {k : ℕ} (hk : k < 8 * b.length) :
    (b.getD (place b k) 0 &&& mask k ≠ 0 ↔ value b / 2 ^ k % 2 = 1) ∧
      (value b / 2 ^ k % 2 = 0 → value (flip b k) = value b + 2 ^ k) ∧
      (value b / 2 ^ k % 2 = 1 → value b = value (flip b k) + 2 ^ k) := by
  obtain ⟨pre, x, post, hb, hpre, hpost⟩ := exists_place hk
  have hr : k % 8 < 8 := Nat.mod_lt k (by norm_num)
  have hpow : 2 ^ k = 256 ^ post.length * 2 ^ (k % 8) := by
    have hk' : k = 8 * (k / 8) + k % 8 := (Nat.div_add_mod k 8).symm
    conv_lhs => rw [hk', pow_add, pow_mul]
    rw [hpost]
    norm_num
  have hvalue : ∀ y : UInt8,
      value (pre ++ y :: post) = (value pre * 256 + y.toNat) * 256 ^ post.length + value post := by
    intro y
    rw [value_append, value_cons, length_cons, pow_succ]
    ring
  have hget : b.getD (place b k) 0 = x := by
    rw [← hpre, hb]
    simp
  have hflip : flip b k = pre ++ (x ^^^ mask k) :: post := by
    rw [flip, ← hpre, hb, modify_eq_take_drop, take_left, drop_left]
    rfl
  have hbit : value b / 2 ^ k % 2 = x.toNat / 2 ^ (k % 8) % 2 := by
    rw [hb, hvalue, hpow]
    exact div_bit (value_lt post) hr
  obtain ⟨⟨hmask, hzero⟩, hone⟩ := byte_bit x ⟨k % 8, hr⟩
  rw [hbit, hget, hflip, hvalue, hb, hvalue, hpow]
  refine ⟨hmask, fun h => ?_, fun h => ?_⟩
  · rw [show (x ^^^ mask k).toNat = _ from hzero h]
    ring
  · have hx : x.toNat = (x ^^^ mask k).toNat + 2 ^ (k % 8) := hone h
    conv_lhs => rw [hx]
    ring

end BigEndian
