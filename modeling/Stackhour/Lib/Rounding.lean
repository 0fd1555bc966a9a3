import Mathlib.Algebra.Order.Archimedean.Basic
import Mathlib.Data.Int.Log
import Mathlib.Data.Rat.Floor
import Mathlib.Tactic.FieldSimp
import Mathlib.Tactic.Linarith
import Mathlib.Tactic.NormNum
import Mathlib.Tactic.Positivity
import Mathlib.Tactic.Ring

/-!
# Rounding to binary64

The finite values of binary64 as rational numbers, and rounding to the nearest of them,
ties to even. The exponent is bounded below, so that there are subnormal values, and not
above: a result that is too large is not an infinity here.
-/

namespace Binary64

/-- Whole multiples of a power of two, with 53 bits. -/
def Representable (q : ℚ) : Prop :=
  ∃ m e : ℤ, |m| < 2 ^ 53 ∧ -1074 ≤ e ∧ q = m * (2 : ℚ) ^ e

structure Double where
  value : ℚ
  representable : Representable value

/-- To the nearest whole number, a tie to the even one. -/
def roundHalfEven (q : ℚ) : ℤ :=
  let f := ⌊q⌋
  if q - f < 1 / 2 then f
  else if 1 / 2 < q - f then f + 1
  else if f % 2 = 0 then f
  else f + 1

/-- The exponent of the last bit near a number. -/
def lastBit (q : ℚ) : ℤ := max (Int.log 2 |q| - 52) (-1074)

/-! ## Whole numbers -/

theorem roundHalfEven_nearest (q : ℚ) (z : ℤ) : |q - roundHalfEven q| ≤ |q - z| := by
  have hfloor := Int.floor_le q
  have hlt := Int.lt_floor_add_one q
  have hz : (z : ℚ) ≤ ⌊q⌋ ∨ (⌊q⌋ : ℚ) + 1 ≤ z := by
    rcases le_or_gt z ⌊q⌋ with h | h
    · exact .inl (by exact_mod_cast h)
    · exact .inr (by exact_mod_cast h)
  have hbelow : q - ⌊q⌋ ≤ 1 / 2 → |q - ⌊q⌋| ≤ |q - z| := by
    intro hhalf
    rw [abs_of_nonneg (sub_nonneg.mpr hfloor)]
    rcases hz with hz | hz
    · rw [abs_of_nonneg (by linarith)]
      linarith
    · rw [abs_of_nonpos (by linarith)]
      linarith
  have habove : 1 / 2 ≤ q - ⌊q⌋ → |q - ((⌊q⌋ + 1 : ℤ) : ℚ)| ≤ |q - z| := by
    intro hhalf
    push_cast
    rw [abs_of_nonpos (by linarith)]
    rcases hz with hz | hz
    · rw [abs_of_nonneg (by linarith)]
      linarith
    · rw [abs_of_nonpos (by linarith)]
      linarith
  unfold roundHalfEven
  dsimp only
  split
  · next h => exact hbelow h.le
  · next hhigh =>
      split
      · next h => exact habove h.le
      · next hlow =>
          split
          · exact hbelow (not_lt.mp hlow)
          · exact habove (not_lt.mp hhigh)

/-! ## Rounding -/

theorem two_zpow_pos (e : ℤ) : (0 : ℚ) < 2 ^ e := zpow_pos (by norm_num) e

theorem lastBit_bound (q : ℚ) : |q| < 2 ^ 53 * (2 : ℚ) ^ lastBit q := by
  have hlog := Int.lt_zpow_succ_log_self (by norm_num : 1 < 2) |q|
  push_cast at hlog
  calc |q| < 2 ^ (Int.log 2 |q| + 1) := hlog
    _ ≤ 2 ^ (53 + lastBit q) := zpow_le_zpow_right₀ (by norm_num) (by unfold lastBit; omega)
    _ = 2 ^ 53 * (2 : ℚ) ^ lastBit q := by
        rw [zpow_add₀ (by norm_num)]
        norm_num

/-- Above the subnormal values all 53 bits are used. -/
theorem lastBit_normal {q : ℚ} (hq : q ≠ 0) (h : -1074 < lastBit q) :
    2 ^ 52 * (2 : ℚ) ^ lastBit q ≤ |q| := by
  have hlog := Int.zpow_log_le_self (by norm_num : 1 < 2) (abs_pos.mpr hq)
  push_cast at hlog
  have hexp : lastBit q + 52 = Int.log 2 |q| := by
    unfold lastBit at h ⊢
    omega
  calc 2 ^ 52 * (2 : ℚ) ^ lastBit q = 2 ^ (lastBit q + 52) := by
        rw [zpow_add₀ (by norm_num), mul_comm]
        norm_num
    _ ≤ |q| := hexp ▸ hlog

/-- The mantissa of the rounded number. -/
def mantissa (q : ℚ) : ℤ := roundHalfEven (q / 2 ^ lastBit q)

theorem mantissa_nearest (q : ℚ) (z : ℤ) :
    |q - mantissa q * 2 ^ lastBit q| ≤ |q - z * 2 ^ lastBit q| := by
  have hpos := two_zpow_pos (lastBit q)
  have hscale : ∀ w : ℤ, |q - w * 2 ^ lastBit q| = |q / 2 ^ lastBit q - w| * 2 ^ lastBit q := by
    intro w
    rw [← abs_of_pos hpos, ← abs_mul, abs_of_pos hpos, sub_mul, div_mul_cancel₀ q hpos.ne']
  rw [hscale, hscale]
  exact mul_le_mul_of_nonneg_right (roundHalfEven_nearest _ z) hpos.le

theorem mantissa_bound (q : ℚ) : |mantissa q| ≤ 2 ^ 53 := by
  have hpos := two_zpow_pos (lastBit q)
  have hq : |q / 2 ^ lastBit q| < 2 ^ 53 := by
    rw [abs_div, abs_of_pos hpos, div_lt_iff₀ hpos]
    exact lastBit_bound q
  obtain ⟨hlow, hhigh⟩ := abs_lt.mp hq
  have hfloor : -2 ^ 53 ≤ ⌊q / 2 ^ lastBit q⌋ := Int.le_floor.mpr (by exact_mod_cast hlow.le)
  have hfloor' : ⌊q / 2 ^ lastBit q⌋ < 2 ^ 53 := Int.floor_lt.mpr (by exact_mod_cast hhigh)
  rw [abs_le]
  unfold mantissa roundHalfEven
  dsimp only
  split
  · omega
  · split
    · omega
    · split <;> omega

theorem mantissa_representable (q : ℚ) : Representable (mantissa q * 2 ^ lastBit q) := by
  have hexp : -1074 ≤ lastBit q := le_max_right _ _
  have hbound := mantissa_bound q
  rcases hbound.lt_or_eq with hlt | heq
  · exact ⟨mantissa q, lastBit q, hlt, hexp, rfl⟩
  · -- one bit more, all of them zero
    have heven : 2 ∣ mantissa q := by
      rw [← abs_dvd_abs, heq]
      exact ⟨2 ^ 52, by norm_num⟩
    obtain ⟨half, hhalf⟩ := heven
    refine ⟨half, lastBit q + 1, ?_, by omega, ?_⟩
    · have habs : |mantissa q| = 2 * |half| := by rw [hhalf, abs_mul]; rfl
      omega
    · rw [hhalf, zpow_add₀ (by norm_num)]
      push_cast
      ring

/-- `f64` arithmetic rounds the exact result. -/
def round (q : ℚ) : Double := ⟨mantissa q * 2 ^ lastBit q, mantissa_representable q⟩

/-- **Nothing is nearer.** -/
theorem round_nearest (q : ℚ) (d : Double) : |q - (round q).value| ≤ |q - d.value| := by
  obtain ⟨_, m, e, hm, he, rfl⟩ := d
  show |q - mantissa q * 2 ^ lastBit q| ≤ |q - m * 2 ^ e|
  rcases le_or_gt (lastBit q) e with hle | hlt
  · -- a multiple of the last bit
    obtain ⟨k, rfl⟩ := Int.le.dest hle
    have hmultiple : (m : ℚ) * 2 ^ (lastBit q + k) = ((m * 2 ^ k : ℤ) : ℚ) * 2 ^ lastBit q := by
      rw [zpow_add₀ (by norm_num)]
      push_cast
      rw [zpow_natCast]
      ring
    rw [hmultiple]
    exact mantissa_nearest q _
  · -- below the power of two below `q`, which is a multiple of the last bit
    have hnormal : |(m : ℚ) * 2 ^ e| ≤ 2 ^ 52 * (2 : ℚ) ^ lastBit q := by
      have hm : |(m : ℚ)| ≤ 2 ^ 53 := by exact_mod_cast hm.le
      calc |(m : ℚ) * 2 ^ e| = |(m : ℚ)| * 2 ^ e := by rw [abs_mul, abs_of_pos (two_zpow_pos e)]
        _ ≤ 2 ^ 53 * 2 ^ (lastBit q - 1) :=
            mul_le_mul hm (zpow_le_zpow_right₀ (by norm_num) (by omega)) (two_zpow_pos e).le
              (by norm_num)
        _ = 2 ^ 52 * 2 ^ lastBit q := by
            rw [zpow_sub₀ (by norm_num)]
            ring
    rcases lt_trichotomy q 0 with hneg | rfl | hpos
    · have hpower := lastBit_normal hneg.ne (he.trans_lt hlt)
      have hnear := mantissa_nearest q (-2 ^ 52)
      rw [abs_of_neg hneg] at hpower
      push_cast at hnear
      refine hnear.trans ?_
      rw [abs_of_nonpos (by linarith), abs_of_nonpos]
      · linarith [(abs_le.mp hnormal).1]
      · linarith [(abs_le.mp hnormal).1]
    · have hzero : mantissa 0 = 0 := by simp [mantissa, roundHalfEven]
      rw [hzero, Int.cast_zero, zero_mul, sub_zero, abs_zero]
      exact abs_nonneg _
    · have hpower := lastBit_normal hpos.ne' (he.trans_lt hlt)
      have hnear := mantissa_nearest q (2 ^ 52)
      rw [abs_of_pos hpos] at hpower
      push_cast at hnear
      refine hnear.trans ?_
      rw [abs_of_nonneg (by linarith), abs_of_nonneg]
      · linarith [(abs_le.mp hnormal).2]
      · linarith [(abs_le.mp hnormal).2]

theorem round_mono {p q : ℚ} (h : p ≤ q) : (round p).value ≤ (round q).value := by
  rcases h.eq_or_lt with rfl | hlt
  · exact le_refl _
  · by_contra hcross
    have hcross := not_le.mp hcross
    have hp := round_nearest p (round q)
    have hq := round_nearest q (round p)
    -- each number is on the near side of the middle of the two results
    have hp : ((round p).value + (round q).value) / 2 ≤ p := by
      by_contra hfar
      rw [not_le] at hfar
      rw [abs_of_nonpos (by linarith)] at hp
      rcases abs_cases (p - (round q).value) with ⟨h, -⟩ | ⟨h, -⟩ <;> rw [h] at hp <;> linarith
    have hq : q ≤ ((round p).value + (round q).value) / 2 := by
      by_contra hfar
      rw [not_le] at hfar
      rw [abs_of_nonneg (by linarith)] at hq
      rcases abs_cases (q - (round p).value) with ⟨h, -⟩ | ⟨h, -⟩ <;> rw [h] at hq <;> linarith
    linarith

theorem round_value (d : Double) : (round d.value).value = d.value := by
  have hnear := round_nearest d.value d
  rw [sub_self, abs_zero] at hnear
  exact (sub_eq_zero.mp (abs_nonpos_iff.mp hnear)).symm

/-- Whole numbers up to `2 ^ 53` are not rounded. -/
theorem representable_int {n : ℤ} (h : |n| < 2 ^ 53) : Representable n :=
  ⟨n, 0, h, by norm_num, by rw [zpow_zero, mul_one]⟩

theorem round_int {n : ℤ} (h : |n| < 2 ^ 53) : (round n).value = n :=
  round_value ⟨n, representable_int h⟩

/-- A value is close to a multiple of any bit that the significand reaches. -/
theorem round_close {q : ℚ} {e : ℤ} (he : -1074 ≤ e) (h : |q| < (2 ^ 53 - 1) * (2 : ℚ) ^ e) :
    |q - (round q).value| ≤ 2 ^ e / 2 := by
  have hpos := two_zpow_pos e
  have hnear : |q / 2 ^ e - roundHalfEven (q / 2 ^ e)| ≤ 1 / 2 := by
    have hfloor := Int.floor_le (q / 2 ^ e)
    have hceil := Int.lt_floor_add_one (q / 2 ^ e)
    rcases le_total (q / 2 ^ e - ⌊q / 2 ^ e⌋) (1 / 2) with hlow | hhigh
    · refine (roundHalfEven_nearest _ ⌊q / 2 ^ e⌋).trans ?_
      rw [abs_of_nonneg (by linarith)]
      exact hlow
    · refine (roundHalfEven_nearest _ (⌊q / 2 ^ e⌋ + 1)).trans ?_
      push_cast
      rw [abs_of_nonpos (by linarith)]
      linarith
  have hbound : |q / 2 ^ e| < 2 ^ 53 - 1 := by
    rw [abs_div, abs_of_pos hpos, div_lt_iff₀ hpos]
    exact h
  have hlarge : |roundHalfEven (q / 2 ^ e)| < 2 ^ 53 := by
    have hcast : |(roundHalfEven (q / 2 ^ e) : ℚ)| < 2 ^ 53 := by
      rw [abs_lt] at hbound ⊢
      rw [abs_le] at hnear
      constructor <;> linarith [hbound.1, hbound.2, hnear.1, hnear.2]
    exact_mod_cast hcast
  refine (round_nearest q ⟨_, _, e, hlarge, he, rfl⟩).trans ?_
  have hscale : q - roundHalfEven (q / 2 ^ e) * 2 ^ e =
      (q / 2 ^ e - roundHalfEven (q / 2 ^ e)) * 2 ^ e := by
    rw [sub_mul, div_mul_cancel₀ _ hpos.ne']
  show |q - roundHalfEven (q / 2 ^ e) * 2 ^ e| ≤ _
  rw [hscale, abs_mul, abs_of_pos hpos]
  calc |q / 2 ^ e - roundHalfEven (q / 2 ^ e)| * 2 ^ e ≤ 1 / 2 * 2 ^ e :=
        mul_le_mul_of_nonneg_right hnear hpos.le
    _ = 2 ^ e / 2 := by ring

/-! ## Arithmetic -/

instance : Add Double := ⟨fun x y => round (x.value + y.value)⟩

instance : Sub Double := ⟨fun x y => round (x.value - y.value)⟩

instance : Mul Double := ⟨fun x y => round (x.value * y.value)⟩

instance : Div Double := ⟨fun x y => round (x.value / y.value)⟩

/-- `f64::min`. -/
def Double.min (x y : Double) : Double := if x.value ≤ y.value then x else y

/-- A whole number of `f64`. -/
def ofInt (n : ℤ) : Double := round n

/-- Whole numbers of 53 bits are added, subtracted and multiplied exactly. -/
theorem ofInt_value {n : ℤ} (h : |n| < 2 ^ 53) : (ofInt n).value = n := round_int h

theorem ofInt_add {m n : ℤ} (hm : |m| < 2 ^ 53) (hn : |n| < 2 ^ 53) :
    ofInt m + ofInt n = ofInt (m + n) := by
  show round ((ofInt m).value + (ofInt n).value) = _
  rw [ofInt_value hm, ofInt_value hn, ← Int.cast_add]
  rfl

theorem ofInt_sub {m n : ℤ} (hm : |m| < 2 ^ 53) (hn : |n| < 2 ^ 53) :
    ofInt m - ofInt n = ofInt (m - n) := by
  show round ((ofInt m).value - (ofInt n).value) = _
  rw [ofInt_value hm, ofInt_value hn, ← Int.cast_sub]
  rfl

theorem ofInt_mul {m n : ℤ} (hm : |m| < 2 ^ 53) (hn : |n| < 2 ^ 53) :
    ofInt m * ofInt n = ofInt (m * n) := by
  show round ((ofInt m).value * (ofInt n).value) = _
  rw [ofInt_value hm, ofInt_value hn, ← Int.cast_mul]
  rfl

theorem ofInt_min {m n : ℤ} (hm : |m| < 2 ^ 53) (hn : |n| < 2 ^ 53) :
    (ofInt m).min (ofInt n) = ofInt (min m n) := by
  unfold Double.min
  rw [ofInt_value hm, ofInt_value hn]
  simp only [Int.cast_le, min_def]
  split <;> rfl

/-! ## Distances -/

/-- Two values are apart by a bit of the greater one. -/
theorem bit_le_sub {b x : Double} (h : b.value < x.value) :
    x.value / 2 ^ 53 ≤ x.value - b.value := by
  obtain ⟨m, e, hm, -, hb⟩ := b.representable
  obtain ⟨n, f, hn, -, hx⟩ := x.representable
  rw [hb, hx] at h
  rw [hb, hx]
  have hm : |(m : ℚ)| ≤ 2 ^ 53 - 1 := by
    have hle : |m| ≤ 2 ^ 53 - 1 := by omega
    exact_mod_cast hle
  have hn : (n : ℚ) < 2 ^ 53 := by
    have hlt := (abs_lt.mp hn).2
    exact_mod_cast hlt
  have hsplit : ∀ {i j : ℤ}, i ≤ j → ∃ k : ℕ, (2 : ℚ) ^ j = (2 ^ k : ℤ) * (2 : ℚ) ^ i := by
    intro i j hij
    obtain ⟨k, rfl⟩ := Int.le.dest hij
    refine ⟨k, ?_⟩
    rw [zpow_add₀ (by norm_num), zpow_natCast]
    push_cast
    ring
  -- both are multiples of the lower last bit, so they are apart by one such bit at least
  have hapart : ∀ {u v : ℤ} {i : ℤ}, (u : ℚ) * 2 ^ i < v * 2 ^ i → (2 : ℚ) ^ i ≤ v * 2 ^ i - u * 2 ^ i := by
    intro u v i huv
    have hpos := two_zpow_pos i
    have hlt : u < v := by exact_mod_cast lt_of_mul_lt_mul_right huv hpos.le
    have hle : (u : ℚ) + 1 ≤ v := by exact_mod_cast hlt
    nlinarith
  rcases le_total f e with hle | hle
  · obtain ⟨k, hk⟩ := hsplit hle
    have hpos := two_zpow_pos f
    have hbit : (2 : ℚ) ^ f ≤ n * 2 ^ f - (m * 2 ^ k : ℤ) * 2 ^ f := by
      refine hapart ?_
      rw [hk] at h
      push_cast at h ⊢
      linarith
    rw [hk]
    push_cast at hbit ⊢
    have hsmall : (n : ℚ) * 2 ^ f / 2 ^ 53 ≤ 2 ^ f := by
      rw [div_le_iff₀ (by norm_num)]
      nlinarith
    linarith
  · obtain ⟨k, hk⟩ := hsplit hle
    have hpos := two_zpow_pos e
    have hbit : (2 : ℚ) ^ e ≤ (n * 2 ^ k : ℤ) * 2 ^ e - m * 2 ^ e := by
      refine hapart ?_
      rw [hk] at h
      push_cast at h ⊢
      linarith
    rw [hk]
    push_cast at hbit ⊢
    have hm : (m : ℚ) * 2 ^ e ≤ (2 ^ 53 - 1) * 2 ^ e :=
      mul_le_mul_of_nonneg_right ((le_abs_self _).trans hm) hpos.le
    have hx : (n : ℚ) * (2 ^ k * 2 ^ e) = n * 2 ^ k * 2 ^ e := by ring
    rw [hx]
    rcases le_total ((n : ℚ) * 2 ^ k * 2 ^ e) (2 ^ 53 * 2 ^ e) with hsmall | hlarge
    · have hbits : (n : ℚ) * 2 ^ k * 2 ^ e / 2 ^ 53 ≤ 2 ^ e := by
        rw [div_le_iff₀ (by norm_num)]
        linarith
      linarith
    · linarith

/-- A value that is not too small has one below it that is near. -/
theorem exists_below {x : Double} (h : 1 ≤ x.value) :
    ∃ z : Double, z.value < x.value ∧ x.value - z.value < x.value / 2 ^ 52 := by
  have hpos : x.value ≠ 0 := (zero_lt_one.trans_le h).ne'
  have hvalue : x.value = mantissa x.value * 2 ^ lastBit x.value := (round_value x).symm
  have hexp : -52 ≤ lastBit x.value := by
    have hlog : 0 ≤ Int.log 2 |x.value| := by
      rw [abs_of_pos (zero_lt_one.trans_le h), ← Int.zpow_le_iff_le_log (by norm_num)
        (zero_lt_one.trans_le h), zpow_zero]
      exact h
    unfold lastBit
    omega
  have hnormal := lastBit_normal hpos (by omega)
  have hbound := mantissa_bound x.value
  rw [abs_of_pos (zero_lt_one.trans_le h)] at hnormal
  generalize mantissa x.value = m at hvalue hbound
  generalize lastBit x.value = e at hvalue hexp hnormal
  have hbit := two_zpow_pos e
  rw [hvalue] at hnormal ⊢
  have hm : (2 : ℤ) ^ 52 ≤ m := by
    have hle : ((2 : ℚ) ^ 52) ≤ m := le_of_mul_le_mul_right hnormal hbit
    exact_mod_cast hle
  rcases hm.eq_or_lt with rfl | hlt
  · -- below a power of two the values are twice as dense
    have hhalf : (2 : ℚ) ^ e = 2 * 2 ^ (e - 1) := by
      rw [zpow_sub₀ (by norm_num)]
      ring
    have hpos := two_zpow_pos (e - 1)
    refine ⟨⟨(2 ^ 53 - 1 : ℤ) * 2 ^ (e - 1), 2 ^ 53 - 1, e - 1, by norm_num, by omega, rfl⟩, ?_, ?_⟩
    · rw [hhalf]
      push_cast
      linarith
    · rw [hhalf]
      push_cast
      linarith
  · refine ⟨⟨(m - 1 : ℤ) * 2 ^ e, m - 1, e, ?_, by omega, rfl⟩, ?_, ?_⟩
    · have hle := (abs_le.mp hbound).2
      rw [abs_lt]
      omega
    · push_cast
      linarith
    · have hlt : (2 : ℚ) ^ 52 < m := by exact_mod_cast hlt
      push_cast
      rw [lt_div_iff₀ (by norm_num)]
      nlinarith

/-- **A product stays below a value that is a product.** -/
theorem round_mul_lt {c : ℚ} {b x y : Double} (hc : 0 < c) (hy : y.value = c * x.value)
    (hone : 1 ≤ y.value) (h : b.value < x.value) : (round (c * b.value)).value < y.value := by
  have hgap : y.value / 2 ^ 53 ≤ y.value - c * b.value := by
    rw [hy]
    calc c * x.value / 2 ^ 53 = c * (x.value / 2 ^ 53) := by ring
      _ ≤ c * (x.value - b.value) := mul_le_mul_of_nonneg_left (bit_le_sub h) hc.le
      _ = c * x.value - c * b.value := by ring
  obtain ⟨z, hlt, hnear⟩ := exists_below hone
  by_contra hcross
  have hcross := not_lt.mp hcross
  have hz := round_nearest (c * b.value) z
  rcases le_or_gt (c * b.value) z.value with hle | hgt
  · have hmono := round_mono hle
    rw [round_value] at hmono
    linarith
  · rw [abs_of_nonpos (by linarith), abs_of_pos (by linarith)] at hz
    linarith

end Binary64
