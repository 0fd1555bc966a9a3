import Stackhour.Core.JsNum
import Stackhour.Lib.Binary64

/-!
# Whole numbers

The arithmetic of `f64` is exact on whole numbers below 2^53, which is all that counts of
tokens need of it.
-/

namespace Stackhour.Core

namespace F64

/-- `f > 0.0`. -/
def isPositive (f : F64) : Bool := !f.isNan && !f.msb && !f.isZero

end F64

/-- `f64` with addition, `f64::max` and `<`; all of it is exact on whole numbers below
2^53. -/
structure Arithmetic extends Floats where
  add : F64 → F64 → F64
  max : F64 → F64 → F64
  less : F64 → F64 → Bool
  add_whole : ∀ a b : ℕ, a + b < Binary64.limit → add (ofInt a) (ofInt b) = ofInt (a + b : ℕ)
  excess_whole : ∀ a b : ℕ, a < Binary64.limit → b < Binary64.limit →
    max (sub (ofInt a) (ofInt b)) F64.zero = ofInt (a - b : ℕ)
  max_whole : ∀ a b : ℕ, a < Binary64.limit → b < Binary64.limit →
    max (ofInt a) (ofInt b) = ofInt (Nat.max a b : ℕ)
  bits_whole : ∀ n : ℕ, n < Binary64.limit → (ofInt n).toNat < 2 ^ 63 ∧
    (ofInt n).toNat / 2 ^ 52 < 0x7FF ∧ ((ofInt n).toNat = 0 ↔ n = 0)
  toInt_whole : ∀ n : ℕ, n < Binary64.limit → toInt (ofInt n) = n
  round_whole : ∀ n : ℕ, n < Binary64.limit → round (ofInt n) = ofInt n

namespace F64

variable {f : F64}

theorem isZero_of_small (h : f.toNat < 2 ^ 63) : f.isZero = decide (f.toNat = 0) := by
  have hshift : (f <<< 1).toNat = 2 * f.toNat := by
    rw [BitVec.toNat_shiftLeft, Nat.shiftLeft_eq, Nat.mod_eq_of_lt (by omega)]
    omega
  unfold isZero
  rw [Bool.eq_iff_iff, beq_iff_eq, decide_eq_true_eq, ← BitVec.toNat_inj, hshift]
  show 2 * f.toNat = 0 ↔ _
  omega

theorem isFinite_of_exponent (h : f.toNat < 2 ^ 63) (hexp : f.toNat / 2 ^ 52 < 0x7FF) :
    f.isFinite = true := by
  unfold isFinite
  rw [bne_iff_ne, ne_eq, ← BitVec.toNat_inj, BitVec.toNat_and, BitVec.toNat_ushiftRight,
    Nat.shiftRight_eq_div_pow]
  intro heq
  have hand : f.toNat / 2 ^ 52 &&& 0x7FF ≤ f.toNat / 2 ^ 52 := Nat.and_le_left
  have heq : f.toNat / 2 ^ 52 &&& 0x7FF = 0x7FF := heq
  omega

theorem msb_of_small (h : f.toNat < 2 ^ 63) : f.msb = false := by
  rw [BitVec.msb_eq_decide]
  simpa using h

theorem isNan_of_exponent (h : f.toNat < 2 ^ 63) (hexp : f.toNat / 2 ^ 52 < 0x7FF) :
    f.isNan = false := by
  unfold isNan
  rw [decide_eq_false_iff_not, BitVec.not_lt, BitVec.le_def, BitVec.toNat_shiftLeft,
    Nat.shiftLeft_eq, Nat.mod_eq_of_lt (by omega)]
  show f.toNat * 2 ≤ 0xFFE0000000000000
  omega

end F64

namespace Arithmetic

variable {ar : Arithmetic} {n : ℕ}

theorem zero_whole : ar.ofInt (0 : ℕ) = F64.zero := by
  obtain ⟨-, -, hzero⟩ := ar.bits_whole 0 (by decide)
  exact BitVec.eq_of_toNat_eq (hzero.mpr rfl)

theorem isZero_whole (h : n < Binary64.limit) : (ar.ofInt n).isZero = decide (n = 0) := by
  obtain ⟨hlt, -, hzero⟩ := ar.bits_whole n h
  rw [F64.isZero_of_small hlt, decide_eq_decide]
  exact hzero

theorem isPositive_whole (h : n < Binary64.limit) : (ar.ofInt n).isPositive = decide (0 < n) := by
  obtain ⟨hlt, hexp, -⟩ := ar.bits_whole n h
  unfold F64.isPositive
  rw [F64.isNan_of_exponent hlt hexp, F64.msb_of_small hlt, isZero_whole h]
  rcases Nat.eq_zero_or_pos n with rfl | hpos
  · rfl
  · simp [hpos, hpos.ne']

/-- A whole number is stored as it is. -/
theorem nonneg_whole (h : n < Binary64.limit) :
    ar.toInt (nonneg ar.toFloats (.number (.float (ar.ofInt n))) true) = n := by
  obtain ⟨hlt, hexp, -⟩ := ar.bits_whole n h
  have htruthy : jsTruthy ar.toFloats (.number (.float (ar.ofInt n))) = decide (n ≠ 0) := by
    show (!(ar.ofInt n).isZero) = _
    rw [isZero_whole h, decide_not]
  have hvalue : (if jsTruthy ar.toFloats (.number (.float (ar.ofInt n)))
      then jsNumber ar.toFloats (.number (.float (ar.ofInt n))) else F64.zero) = ar.ofInt n := by
    rw [htruthy]
    rcases Nat.eq_zero_or_pos n with rfl | hpos
    · exact zero_whole.symm
    · rw [if_pos (by simp [hpos.ne'])]
      rfl
  have hfinite : (!(ar.ofInt n).isFinite || (ar.ofInt n).isNegative) = false := by
    unfold F64.isNegative
    rw [F64.isFinite_of_exponent hlt hexp, F64.msb_of_small hlt]
    rfl
  unfold nonneg
  rw [hvalue]
  dsimp only
  rw [hfinite]
  show ar.toInt (ar.ofInt (ar.toInt (ar.round (ar.ofInt n)))) = n
  rw [ar.round_whole n h, ar.toInt_whole n h, ar.toInt_whole n h]

end Arithmetic

end Stackhour.Core
