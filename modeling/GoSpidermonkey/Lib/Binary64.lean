import Mathlib

/-!
# Binary floating point numbers

The numbers of IEEE 754 binary64, as exact rationals with two infinities and a NaN. The two zeros
are one value here.
-/

namespace Binary64

/-- The finite numbers of the format. -/
def Representable (q : ℚ) : Prop :=
  (∃ m e : ℤ, |m| ≤ 2 ^ 53 ∧ -1074 ≤ e ∧ q = m * 2 ^ e) ∧ |q| < 2 ^ 1024

lemma representable_intCast {n : ℤ} (h : |n| ≤ 2 ^ 53) : Representable n := by
  refine ⟨⟨n, 0, h, by norm_num, by simp⟩, ?_⟩
  have h' : |(n : ℚ)| ≤ 2 ^ 53 := by exact_mod_cast h
  exact h'.trans_lt (pow_lt_pow_right₀ one_lt_two (by norm_num))

end Binary64

inductive Double
  | nan
  | inf (neg : Bool)
  | num (q : ℚ) (h : Binary64.Representable q)

namespace Double

def truncRat (q : ℚ) : ℤ := if q < 0 then ⌈q⌉ else ⌊q⌋

@[simp] lemma truncRat_intCast (n : ℤ) : truncRat n = n := by simp [truncRat]

end Double
