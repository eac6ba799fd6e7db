import GoSpidermonkey.Lib.Binary64
import GoSpidermonkey.Go.Bytes

/-!
# Machine integers and slices of bytes

What Go does where numbers do not fit: `int64` sums wrap around, conversions of a `float64` that is
out of range have some value, and slices that would be too long or bounds that are out of range
panic. `none` stands for a panic.
-/

namespace GoSpidermonkey

/-- The `int64` for an integer. -/
def wrap64 (x : ℤ) : ℤ := x.bmod (2 ^ 64)

lemma wrap64_of_range {x : ℤ} (hlow : -2 ^ 63 ≤ x) (hhigh : x < 2 ^ 63) : wrap64 x = x :=
  Int.bmod_eq_of_le_mul_two (by omega) (by omega)

lemma wrap64_of_over {x : ℤ} (hlow : 2 ^ 63 ≤ x) (hhigh : x < 2 ^ 64) :
    wrap64 x = x - 2 ^ 64 := by
  have hshift : wrap64 (x - 2 ^ 64) = wrap64 x := Int.sub_bmod_right x (2 ^ 64)
  rw [← hshift, wrap64_of_range (by omega) (by omega)]

lemma wrap64_of_under {x : ℤ} (hlow : -2 ^ 64 ≤ x) (hhigh : x < -2 ^ 63) :
    wrap64 x = x + 2 ^ 64 := by
  have hshift : wrap64 (x + 2 ^ 64) = wrap64 x := Int.add_bmod_right x (2 ^ 64)
  rw [← hshift, wrap64_of_range (by omega) (by omega)]

/-- What Go leaves to a 64-bit platform. -/
structure Platform where
  /-- The conversion `int64(x)`. -/
  toInt64 : Double → ℤ
  toInt64_high : ∀ x, toInt64 x < 2 ^ 63
  toInt64_num : ∀ q h, -2 ^ 63 ≤ Double.truncRat q → Double.truncRat q < 2 ^ 63 →
    toInt64 (.num q h) = Double.truncRat q
  maxAlloc : ℕ
  le_maxAlloc : 2 ^ 30 ≤ maxAlloc
  maxAlloc_lt : maxAlloc < 2 ^ 62

def amd64ToInt64 : Double → ℤ
  | .num q _ =>
    if -2 ^ 63 ≤ Double.truncRat q ∧ Double.truncRat q < 2 ^ 63 then Double.truncRat q
    else -2 ^ 63
  | _ => -2 ^ 63

lemma amd64ToInt64_range (x : Double) : -2 ^ 63 ≤ amd64ToInt64 x ∧ amd64ToInt64 x < 2 ^ 63 := by
  cases x with
  | num q h =>
    rw [amd64ToInt64]
    split_ifs with hr
    · exact hr
    · norm_num
  | nan | inf neg => norm_num [amd64ToInt64]

def Platform.amd64 : Platform where
  toInt64 := amd64ToInt64
  toInt64_high x := (amd64ToInt64_range x).2
  toInt64_num _ _ hlow hhigh := if_pos ⟨hlow, hhigh⟩
  maxAlloc := 2 ^ 48
  le_maxAlloc := by norm_num
  maxAlloc_lt := by norm_num

namespace Platform

variable (p : Platform)

lemma toInt64_intCast {n : ℤ} (h : Binary64.Representable n) (hlow : -2 ^ 63 ≤ n)
    (hhigh : n < 2 ^ 63) : p.toInt64 (.num n h) = n := by
  have htrunc := Double.truncRat_intCast n
  rw [p.toInt64_num _ _ (by rwa [htrunc]) (by rwa [htrunc]), htrunc]

/-- `append(a, b...)`. -/
def append (a b : Bytes) : Option Bytes :=
  if a.length + b.length ≤ p.maxAlloc then some (a ++ b) else none

/-- `make([]byte, n)`. -/
def make (n : ℤ) : Option Bytes :=
  if 0 ≤ n ∧ n ≤ p.maxAlloc then some (List.replicate n.toNat 0) else none

lemma append_make {a : Bytes} {n : ℕ} (hlt : a.length < n) (hn : n ≤ p.maxAlloc) :
    (p.make (n - a.length)).bind (p.append a) = some (a ++ List.replicate (n - a.length) 0) := by
  have hnat : ((n : ℤ) - a.length).toNat = n - a.length := by omega
  have hlen : a.length + (List.replicate (n - a.length) (0 : UInt8)).length ≤ p.maxAlloc := by
    rw [List.length_replicate]
    omega
  rw [make, if_pos ⟨by omega, by omega⟩, Option.bind_some, hnat, append, if_pos hlen]

end Platform

/-- `a[lo:hi]`, for bounds up to the length. -/
def sliceBytes (a : Bytes) (lo hi : ℤ) : Option Bytes :=
  if 0 ≤ lo ∧ lo ≤ hi ∧ hi ≤ a.length then some ((a.take hi.toNat).drop lo.toNat) else none

/-- `copy(a[lo:], b)`: the bytes of `a` after it. -/
def copyBytes (a : Bytes) (lo : ℤ) (b : Bytes) : Option Bytes :=
  if 0 ≤ lo ∧ lo ≤ a.length then
    some (a.take lo.toNat ++ b.take (a.length - lo.toNat) ++ a.drop (lo.toNat + b.length))
  else none

lemma copyBytes_of_le {a b : Bytes} {n : ℕ} (h : n + b.length ≤ a.length) :
    copyBytes a n b = some (a.take n ++ b ++ a.drop (n + b.length)) := by
  have htake : b.take (a.length - n) = b := List.take_of_length_le (by omega)
  rw [copyBytes, if_pos ⟨by omega, by omega⟩, Int.toNat_natCast, htake]

end GoSpidermonkey
