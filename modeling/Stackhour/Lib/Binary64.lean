import Mathlib.Algebra.Group.Nat.Defs
import Mathlib.Data.Nat.Log

/-!
# Whole numbers as binary64 words

The words of the whole numbers below `2 ^ 53`, which are all represented exactly, and the
numbers read back from them.
-/

namespace Binary64

/-- Every whole number below it has a word of its own. -/
def limit : ℕ := 2 ^ 53

/-- The word of a whole number: the exponent of its leading bit, and the bits below it. -/
def wordOf (n : ℕ) : ℕ :=
  if n = 0 then 0 else (1022 + Nat.log 2 n) * 2 ^ 52 + n * 2 ^ (52 - Nat.log 2 n)

def encode (n : ℕ) : BitVec 64 := BitVec.ofNat 64 (wordOf n)

/-- The whole part of a positive word. -/
def decode (f : BitVec 64) : ℕ :=
  if f.toNat = 0 then 0
  else (f.toNat % 2 ^ 52 + 2 ^ 52) / 2 ^ (52 - (f.toNat / 2 ^ 52 - 1023))

variable {n : ℕ}

/-- The significand of a number that is not zero fills the fraction. -/
theorem significand (hpos : 0 < n) (hn : n < limit) :
    Nat.log 2 n ≤ 52 ∧ 2 ^ 52 ≤ n * 2 ^ (52 - Nat.log 2 n) ∧
      n * 2 ^ (52 - Nat.log 2 n) < 2 ^ 53 := by
  have hlog : Nat.log 2 n ≤ 52 := by
    have hlt : Nat.log 2 n < 53 := Nat.log_lt_of_lt_pow hpos.ne' hn
    omega
  have hlow : 2 ^ Nat.log 2 n ≤ n := Nat.pow_log_le_self 2 hpos.ne'
  have hhigh : n < 2 ^ (Nat.log 2 n + 1) := Nat.lt_pow_succ_log_self (by decide) n
  refine ⟨hlog, ?_, ?_⟩
  · calc 2 ^ 52 = 2 ^ Nat.log 2 n * 2 ^ (52 - Nat.log 2 n) := by
          rw [← Nat.pow_add, Nat.add_sub_cancel' hlog]
      _ ≤ n * 2 ^ (52 - Nat.log 2 n) := Nat.mul_le_mul_right _ hlow
  · calc n * 2 ^ (52 - Nat.log 2 n) < 2 ^ (Nat.log 2 n + 1) * 2 ^ (52 - Nat.log 2 n) :=
          Nat.mul_lt_mul_of_pos_right hhigh (Nat.two_pow_pos _)
      _ = 2 ^ 53 := by
          rw [← Nat.pow_add]
          congr 1
          omega

/-- The fields of a word. -/
theorem wordOf_fields (hpos : 0 < n) (hn : n < limit) :
    wordOf n / 2 ^ 52 = 1023 + Nat.log 2 n ∧
      wordOf n % 2 ^ 52 + 2 ^ 52 = n * 2 ^ (52 - Nat.log 2 n) ∧ wordOf n < 2 ^ 63 := by
  obtain ⟨hlog, hlow, hhigh⟩ := significand hpos hn
  unfold wordOf
  rw [if_neg hpos.ne']
  generalize n * 2 ^ (52 - Nat.log 2 n) = m at hlow hhigh ⊢
  generalize Nat.log 2 n = e at hlog ⊢
  have h52 : (2 : ℕ) ^ 52 = 4503599627370496 := by decide
  have h53 : (2 : ℕ) ^ 53 = 9007199254740992 := by decide
  have h63 : (2 : ℕ) ^ 63 = 9223372036854775808 := by decide
  rw [h52, h53] at *
  rw [h63]
  omega

theorem toNat_encode (hn : n < limit) : (encode n).toNat = wordOf n := by
  rcases Nat.eq_zero_or_pos n with rfl | hpos
  · rfl
  · obtain ⟨-, -, hlt⟩ := wordOf_fields hpos hn
    exact Nat.mod_eq_of_lt (hlt.trans (by decide))

theorem decode_encode (hn : n < limit) : decode (encode n) = n := by
  unfold decode
  rw [toNat_encode hn]
  rcases Nat.eq_zero_or_pos n with rfl | hpos
  · rfl
  · obtain ⟨hexp, hfrac, -⟩ := wordOf_fields hpos hn
    have hne : wordOf n ≠ 0 := by
      intro h
      rw [h] at hexp
      simp at hexp
      omega
    rw [if_neg hne, hexp, hfrac, Nat.add_sub_cancel_left]
    exact Nat.mul_div_cancel n (Nat.two_pow_pos _)

/-- The sign, the exponent and the zero of a word. -/
theorem encode_fields (hn : n < limit) :
    (encode n).toNat < 2 ^ 63 ∧ (encode n).toNat / 2 ^ 52 < 0x7FF ∧
      ((encode n).toNat = 0 ↔ n = 0) := by
  rw [toNat_encode hn]
  rcases Nat.eq_zero_or_pos n with rfl | hpos
  · decide
  · obtain ⟨hexp, -, hlt⟩ := wordOf_fields hpos hn
    obtain ⟨hlog, -, -⟩ := significand hpos hn
    refine ⟨hlt, by omega, ?_⟩
    constructor
    · intro h
      rw [h] at hexp
      simp at hexp
      omega
    · exact fun h => absurd h hpos.ne'

end Binary64
