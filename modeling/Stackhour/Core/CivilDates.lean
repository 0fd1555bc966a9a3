import Stackhour.Core.IsoDates

/-!
# Civil dates and their days

`days_from_civil` and `civil_from_days` are inverse to each other and keep the order, for
every year; `parse_bare_date_days` reads exactly the dates that have four digits for the year.
-/

namespace Stackhour.Core.Timeparse

open Domain

/-! ## Days of a date -/

theorem tdiv_400 (y : ℤ) : (if 0 ≤ y then y else y - 399).tdiv 400 = y / 400 := by
  split
  · next h => exact Int.tdiv_eq_ediv_of_nonneg h
  · next h =>
      rw [← neg_neg (y - 399), Int.neg_tdiv, Int.tdiv_eq_ediv_of_nonneg (by omega)]
      omega

/-- **The day is that of the date**: the year begins in March, and the era is 400 years. -/
theorem daysFromCivil_eq {y : ℤ} {m d : ℕ} (h : DateOk (y, m, d)) :
    daysFromCivil y m d = dayOf (y, m, d) := by
  obtain ⟨⟨hlow, hhigh⟩, -⟩ := h
  simp only at hlow hhigh
  unfold daysFromCivil
  dsimp only
  rw [tdiv_400]
  generalize hyear : (if (m : ℤ) ≤ 2 then y - 1 else y) = year
  generalize hmp : (if (2 : ℤ) < m then (m : ℤ) - 3 else m + 9) = mp
  have hmonth : 0 ≤ mp ∧ mp ≤ 11 := by
    rw [← hmp]
    split <;> omega
  generalize hyoe : year - year / 400 * 400 = yoe
  have hdate : ((if (if mp < 10 then mp + 3 else mp - 9) ≤ 2 then year + 1 else year),
      (if mp < 10 then mp + 3 else mp - 9).toNat, d) = (y, m, d) := by
    have hm : (if mp < 10 then mp + 3 else mp - 9) = m := by
      rw [← hmp]
      split <;> split <;> omega
    rw [hm, ← hyear, Int.toNat_natCast]
    split <;> simp
  have hmarch := dayNumber_march year hmonth d
  have hera := @daysBeforeYear_era yoe (by omega) (year / 400)
  have hsum : yoe + year / 400 * 400 = year := by omega
  have hepoch : dayNumber (1970, 1, 1) = 719163 := by decide
  rw [hdate] at hmarch
  rw [hsum] at hera
  unfold dayOf
  rw [hmarch, hera, hepoch]
  omega

/-- Dates are ordered as their days. -/
theorem dayOf_lt_iff {d e : ℤ × ℕ × ℕ} (hd : DateOk d) (he : DateOk e) : dayOf d < dayOf e ↔
    d.1 < e.1 ∨ d.1 = e.1 ∧ (d.2.1 < e.2.1 ∨ d.2.1 = e.2.1 ∧ d.2.2 < e.2.2) := by
  rw [← dayNumber_lt_iff hd he]
  unfold dayOf
  omega

theorem dayOf_inj {d e : ℤ × ℕ × ℕ} (hd : DateOk d) (he : DateOk e) (h : dayOf d = dayOf e) :
    d = e := by
  have hlt := dayOf_lt_iff hd he
  have hgt := dayOf_lt_iff he hd
  obtain ⟨y, m, n⟩ := d
  obtain ⟨y', m', n'⟩ := e
  simp only [Prod.mk.injEq] at hlt hgt ⊢
  omega

/-- **The date of the day of a date is the date.** -/
theorem civilFromDays_daysFromCivil {y : ℤ} {m d : ℕ} (h : DateOk (y, m, d)) :
    civilFromDays (daysFromCivil y m d) = (y, m, d) := by
  obtain ⟨hok, hday⟩ := civilFromDays_spec (daysFromCivil y m d)
  exact dayOf_inj hok h (hday.trans (daysFromCivil_eq h))

theorem daysFromCivil_civilFromDays (z : ℤ) :
    daysFromCivil (civilFromDays z).1 (civilFromDays z).2.1 (civilFromDays z).2.2 = z := by
  obtain ⟨hok, hday⟩ := civilFromDays_spec z
  generalize civilFromDays z = date at hok hday ⊢
  exact (daysFromCivil_eq hok).trans hday

/-! ## Digits -/

theorem digitVal_eq {c : Char} {d : ℕ} (h : digitVal c = some d) : d ≤ 9 ∧ c = digitChar d := by
  unfold digitVal at h
  split at h
  · next hc =>
      obtain rfl := Option.some.inj h
      have hd : c.toNat - 48 ≤ 9 := by omega
      refine ⟨hd, ?_⟩
      unfold digitChar
      rw [Nat.mod_eq_of_lt (by omega), Nat.add_sub_cancel' hc.1, Char.ofNat_toNat]
  · cases h

theorem pad_add (w d k : ℕ) : pad w (d * 10 ^ w + k) = pad w k := by
  induction w generalizing k with
  | zero => rfl
  | succ w ih =>
      have hten : d * 10 ^ (w + 1) = 10 * (d * 10 ^ w) := by ring
      have hdiv : (d * 10 ^ (w + 1) + k) / 10 = d * 10 ^ w + k / 10 := by omega
      have hlast : digitChar (d * 10 ^ (w + 1) + k) = digitChar k := by
        unfold digitChar
        rw [hten, Nat.mul_add_mod]
      rw [pad, pad, hdiv, hlast, ih]

theorem pad_succ (w n : ℕ) : pad (w + 1) n = digitChar (n / 10 ^ w) :: pad w n := by
  induction w generalizing n with
  | zero => simp [pad]
  | succ w ih =>
      rw [pad, ih, List.cons_append, Nat.div_div_eq_div_mul, ← Nat.pow_succ']
      rfl

/-- What is read are the digits of a number. -/
theorem readDigits_eq {w acc n : ℕ} {cs rest : List Char}
    (h : readDigits w acc cs = some (n, rest)) :
    ∃ k < 10 ^ w, n = acc * 10 ^ w + k ∧ cs = pad w k ++ rest := by
  induction w generalizing acc cs with
  | zero =>
      obtain ⟨rfl, rfl⟩ := Prod.mk.inj (Option.some.inj h)
      exact ⟨0, Nat.one_pos, by simp, rfl⟩
  | succ w ih =>
      cases cs with
      | nil => cases h
      | cons c cs =>
          unfold readDigits at h
          cases hdigit : digitVal c with
          | none =>
              rw [hdigit] at h
              cases h
          | some d =>
              rw [hdigit] at h
              obtain ⟨hd, rfl⟩ := digitVal_eq hdigit
              obtain ⟨k, hk, rfl, rfl⟩ := ih h
              refine ⟨d * 10 ^ w + k, ?_, ?_, ?_⟩
              · have hle : d * 10 ^ w ≤ 9 * 10 ^ w := Nat.mul_le_mul_right _ hd
                rw [Nat.pow_succ]
                omega
              · rw [Nat.pow_succ]
                ring
              · have hfirst : (d * 10 ^ w + k) / 10 ^ w = d := by
                  rw [Nat.mul_comm, Nat.mul_add_div (by positivity), Nat.div_eq_of_lt hk, Nat.add_zero]
                rw [pad_succ, pad_add, hfirst]
                rfl

theorem readChar_eq {c : Char} {cs rest : List Char} (h : readChar c cs = some rest) :
    cs = c :: rest := by
  cases cs with
  | nil => cases h
  | cons x cs =>
      change (if x = c then some cs else none) = some rest at h
      split at h
      · next hx =>
          obtain rfl := Option.some.inj h
          rw [hx]
      · cases h

/-! ## Dates that are written out -/

/-- The months of both tables are as long. -/
theorem daysInMonth_eq (y : ℤ) {m : ℕ} (h : 1 ≤ m ∧ m ≤ 12) :
    daysInMonth y m = Domain.daysInMonth y m := by
  have hleap : isLeapYear y = isLeap y := by
    unfold isLeapYear isLeap
    rw [Bool.eq_iff_iff]
    simp only [Bool.or_eq_true, Bool.and_eq_true, beq_iff_eq, bne_iff_ne, ne_eq]
    omega
  obtain ⟨hlow, hhigh⟩ := h
  interval_cases m <;> simp [daysInMonth, Domain.daysInMonth, hleap]

/-- **A date is read exactly where it is written** `YYYY-MM-DD`, as its day. -/
theorem parseBareDateDays_iff (s : String) (n : ℤ) :
    parseBareDateDays s = some n ↔ ∃ c : CivilDate, s = c.text ∧ n = c.number := by
  unfold parseBareDateDays
  simp only [Option.bind_eq_bind]
  constructor
  · intro h
    simp only [Option.bind_eq_some_iff, Prod.exists] at h
    obtain ⟨year, cs, hyear, cs', hdash, month, cs'', hmonth, cs''', hdash', day, rest, hday, h⟩ := h
    obtain ⟨y, hy, rfl, hs⟩ := readDigits_eq hyear
    obtain ⟨m, hm, rfl, rfl⟩ := readDigits_eq hmonth
    obtain ⟨d, hd, rfl, rfl⟩ := readDigits_eq hday
    obtain rfl := readChar_eq hdash
    obtain rfl := readChar_eq hdash'
    simp only [Nat.zero_mul, Nat.zero_add] at h
    split at h
    · cases h
    · next hok =>
        obtain rfl := Option.some.inj h
        simp only [not_or, not_not, not_lt] at hok
        obtain ⟨rfl, hmonth, hfirst, hlast⟩ := hok
        have hlow : 1 ≤ m ∧ m ≤ 12 := by omega
        rw [daysInMonth_eq y hlow] at hlast
        have hdate : DateOk ((y : ℤ), m, d) := ⟨hlow, by omega, by exact_mod_cast hlast⟩
        refine ⟨⟨y, m, d, by omega, hdate⟩, ?_, daysFromCivil_eq hdate⟩
        rw [← String.toList_inj, hs]
        simp [CivilDate.text]
  · rintro ⟨c, rfl, rfl⟩
    obtain ⟨hmonth, hday⟩ := c.day_le
    have hyear := c.year_ok
    obtain ⟨hmonths, hfirst, hlast⟩ := c.date_ok
    simp only at hmonths hfirst hlast
    have hend : pad 2 c.day = pad 2 c.day ++ [] := (List.append_nil _).symm
    have hy : c.year % 10 ^ 4 = c.year := Nat.mod_eq_of_lt (by omega)
    have hm : c.month % 10 ^ 2 = c.month := Nat.mod_eq_of_lt (by omega)
    have hd : c.day % 10 ^ 2 = c.day := Nat.mod_eq_of_lt (by omega)
    unfold CivilDate.text
    rw [String.toList_ofList, hend]
    simp only [List.append_assoc, List.cons_append, readDigits_pad, Option.bind_some, readChar,
      if_true, Nat.zero_mul, Nat.zero_add, hy, hm, hd]
    rw [if_neg]
    · exact congrArg some (daysFromCivil_eq c.date_ok)
    · simp only [ne_eq, not_true_eq_false, false_or, daysInMonth_eq c.year hmonths]
      omega

/-- **Dates and days**: each is that of the other, dates are ordered as their days, and the bare
dates that are read are the valid ones, as their days. -/
theorem civil_dates :
    (∀ z, DateOk (civilFromDays z) ∧
      daysFromCivil (civilFromDays z).1 (civilFromDays z).2.1 (civilFromDays z).2.2 = z) ∧
    (∀ (y : ℤ) (m d : ℕ), DateOk (y, m, d) → civilFromDays (daysFromCivil y m d) = (y, m, d)) ∧
    (∀ (y y' : ℤ) (m d m' d' : ℕ), DateOk (y, m, d) → DateOk (y', m', d') →
      (daysFromCivil y m d < daysFromCivil y' m' d' ↔
        y < y' ∨ y = y' ∧ (m < m' ∨ m = m' ∧ d < d'))) ∧
    ∀ s n, parseBareDateDays s = some n ↔ ∃ c : CivilDate,
      s = c.text ∧ n = daysFromCivil c.year c.month c.day := by
  refine ⟨fun z => ⟨(civilFromDays_spec z).1, daysFromCivil_civilFromDays z⟩,
    fun y m d => civilFromDays_daysFromCivil, fun y y' m d m' d' hdate hdate' => ?_, fun s n => ?_⟩
  · rw [daysFromCivil_eq hdate, daysFromCivil_eq hdate']
    exact dayOf_lt_iff hdate hdate'
  · rw [parseBareDateDays_iff]
    refine exists_congr fun c => and_congr_right fun _ => ?_
    rw [daysFromCivil_eq c.date_ok]
    rfl

end Stackhour.Core.Timeparse
