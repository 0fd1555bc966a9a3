import Mathlib.Tactic.IntervalCases
import Stackhour.Domain.TimeOrder
import Stackhour.Lib.Rounding

/-!
# Bounds of time and their dates

`parse_time` reads a bound as seconds since the epoch, and `iso_date_utc` writes the day of
such a bound as the first ten characters of an ISO text. The arithmetic is that of `f64`.
-/

namespace Stackhour.Core.Timeparse

open Binary64 (Double)
open Domain

/-- `MAX_DATE_MS`. -/
def MAX_DATE_MS : ℤ := 8640000000000000

/-- `MAX_VERBATIM_SECONDS`. -/
def MAX_VERBATIM_SECONDS : ℤ := 8640000000000

/-! ## Civil dates -/

def isLeapYear (y : ℤ) : Bool := (y % 4 == 0 && y % 100 != 0) || y % 400 == 0

def daysInMonth (y m : ℤ) : ℤ :=
  if [1, 3, 5, 7, 8, 10, 12].contains m then 31
  else if [4, 6, 9, 11].contains m then 30
  else if m = 2 then (if isLeapYear y then 29 else 28)
  else 0

/-- `days_from_civil`; the division of the era truncates. -/
def daysFromCivil (y m d : ℤ) : ℤ :=
  let y := if m ≤ 2 then y - 1 else y
  let era := (if 0 ≤ y then y else y - 399).tdiv 400
  let yoe := y - era * 400
  let mp := if 2 < m then m - 3 else m + 9
  let doy := (153 * mp + 2) / 5 + d - 1
  let doe := yoe * 365 + yoe / 4 - yoe / 100 + doy
  era * 146097 + doe - 719468

/-- `civil_from_days`; the division of the era truncates. -/
def civilFromDays (z : ℤ) : ℤ × ℕ × ℕ :=
  let z := z + 719468
  let era := (if 0 ≤ z then z else z - 146096).tdiv 146097
  let doe := z - era * 146097
  let yoe := (doe - doe / 1460 + doe / 36524 - doe / 146096) / 365
  let y := yoe + era * 400
  let doy := doe - (365 * yoe + yoe / 4 - yoe / 100)
  let mp := (5 * doy + 2) / 153
  let d := doy - (153 * mp + 2) / 5 + 1
  let m := if mp < 10 then mp + 3 else mp - 9
  (if m ≤ 2 then y + 1 else y, m.toNat, d.toNat)

/-! ## ISO texts -/

/-- The year of `js_to_iso_string`: four digits, or a sign and six. -/
def isoYear (year : ℤ) : List Char :=
  if 0 ≤ year ∧ year ≤ 9999 then pad 4 year.toNat
  else (if year < 0 then '-' else '+') :: pad 6 year.natAbs

/-- `js_to_iso_string`. -/
def jsToIsoString (epochMs : ℤ) : String :=
  let ms := max (-MAX_DATE_MS) (min MAX_DATE_MS epochMs)
  let (year, month, day) := civilFromDays (ms / 86400000)
  let tod := (ms % 86400000).toNat
  String.ofList (isoYear year ++ '-' :: pad 2 month ++ '-' :: pad 2 day ++
    'T' :: pad 2 (tod / 3600000) ++ ':' :: pad 2 (tod / 60000 % 60) ++
    ':' :: pad 2 (tod / 1000 % 60) ++ '.' :: pad 3 (tod % 1000) ++ ['Z'])

/-- `f64::trunc`. -/
def trunc (q : ℚ) : ℤ := if 0 ≤ q then ⌊q⌋ else ⌈q⌉

/-- The milliseconds of `iso_date_utc`. -/
def epochMs (epochS : Double) : ℤ :=
  let ms := (Binary64.round (epochS.value * 1000)).value
  if MAX_DATE_MS ≤ ms then MAX_DATE_MS
  else if ms ≤ -MAX_DATE_MS then -MAX_DATE_MS
  else trunc ms

/-- `iso_date_utc`. -/
def isoDateUtc (epochS : Double) : String :=
  String.ofList ((jsToIsoString (epochMs epochS)).toList.take 10)

/-! ## Bounds -/

/-- `js_number` of a text, where it is finite, and `parse_from_rfc3339` with
`timestamp_millis`. -/
structure Readers where
  number : String → Option Double
  rfc3339 : String → Option ℤ

/-- `parse_bare_date_days`. -/
def parseBareDateDays (s : String) : Option ℤ := do
  let (year, cs) ← readDigits 4 0 s.toList
  let cs ← readChar '-' cs
  let (month, cs) ← readDigits 2 0 cs
  let cs ← readChar '-' cs
  let (day, cs) ← readDigits 2 0 cs
  if cs ≠ [] ∨ ¬(1 ≤ month ∧ month ≤ 12) ∨ day < 1 ∨ daysInMonth year month < day then none
  else some (daysFromCivil year month day)

/-- `date_parse_subset_ms`. -/
def dateParseSubsetMs (rd : Readers) (s : String) : Option Double :=
  match parseBareDateDays s with
  | some days => some (Binary64.round (days * 86400000))
  | none =>
      match rd.rfc3339 s with
      | none => none
      | some ms =>
          let ms := Binary64.round ms
          if MAX_DATE_MS < |ms.value| then none else some ms

/-- `parse_time`. -/
def parseTime (rd : Readers) (v : Option String) (name : String) :
    Except String (Option Double) :=
  match v.filter (fun s => s != "") with
  | none => .ok none
  | some s =>
      match (rd.number s).filter (fun n => decide (0 ≤ n.value ∧ n.value ≤ (MAX_VERBATIM_SECONDS : ℚ))) with
      | some numeric => .ok (some numeric)
      | none =>
          match dateParseSubsetMs rd s with
          | some ms => .ok (some (Binary64.round (ms.value / 1000)))
          | none => .error (name ++ " must be a Unix timestamp or ISO date")

/-! ## Days of the calendar -/

/-- The number of a day since the epoch. -/
def dayOf (d : ℤ × ℕ × ℕ) : ℤ := dayNumber d - dayNumber (1970, 1, 1)

/-- The year of the era: its days up to the day of the era, which is before the next one. -/
theorem yoe_spec {doe yoe : ℤ} (hlow : 0 ≤ doe) (hhigh : doe ≤ 146096)
    (hyoe : yoe = (doe - doe / 1460 + doe / 36524 - doe / 146096) / 365) :
    0 ≤ yoe ∧ yoe ≤ 399 ∧ 365 * yoe + yoe / 4 - yoe / 100 ≤ doe ∧
      doe < 365 * (yoe + 1) + (yoe + 1) / 4 - (yoe + 1) / 100 + (yoe + 1) / 400 := by
  have hrange : 0 ≤ yoe ∧ yoe ≤ 399 := by omega
  -- the century
  have hcentury : yoe / 100 = doe / 36524 - doe / 146096 := by
    have hle : doe / 36524 - doe / 146096 ≤ yoe / 100 := by omega
    have hge : yoe / 100 ≤ doe / 36524 - doe / 146096 := by
      have hcases : yoe / 100 = 0 ∨ yoe / 100 = 1 ∨ yoe / 100 = 2 ∨ yoe / 100 = 3 := by omega
      rcases hcases with h | h | h | h <;> omega
    omega
  refine ⟨hrange.1, hrange.2, ?_, ?_⟩
  · have hleap : yoe / 4 ≤ doe / 1460 := by omega
    omega
  · generalize hn : yoe + 1 = n
    by_contra hlate
    have hbound : 1 ≤ n ∧ n ≤ 400 := by omega
    have hrest : 365 * (n % 4) + n / 4 - n / 100 + n / 400 < 1460 := by omega
    have hleap : doe / 1460 - n / 4 ≤ doe - (365 * n + n / 4 - n / 100 + n / 400) := by omega
    have hnext : n / 100 - n / 400 ≤ doe / 36524 - doe / 146096 := by
      clear hyoe hleap hcentury
      have hcases : n / 100 = 0 ∨ n / 100 = 1 ∨ n / 100 = 2 ∨ n / 100 = 3 ∨ n / 100 = 4 := by
        omega
      rcases hcases with h | h | h | h | h <;> omega
    omega

/-- Years that begin in March: the days before a month depend on the month alone. -/
theorem dayNumber_march (y : ℤ) {mp : ℤ} (h : 0 ≤ mp ∧ mp ≤ 11) (d : ℕ) :
    dayNumber (if (if mp < 10 then mp + 3 else mp - 9) ≤ 2 then y + 1 else y,
      (if mp < 10 then mp + 3 else mp - 9).toNat, d) =
        daysBeforeYear (y + 1) - 306 + (153 * mp + 2) / 5 + d := by
  have hyear := daysBeforeYear_succ y
  have hmonths : daysBeforeMonth y 12 = 306 + Domain.daysInMonth y 2 := by
    show (31 + (Domain.daysInMonth y 2 + (31 + (30 + (31 + (30 + (31 + (31 + (30 + (31 +
      (30 + 0))))))))))) = _
    omega
  obtain ⟨hlow, hhigh⟩ := h
  interval_cases mp <;> simp [dayNumber, daysBeforeMonth, List.range', Domain.daysInMonth] at * <;> omega

theorem length_march (y : ℤ) {mp : ℤ} (h : 0 ≤ mp ∧ mp ≤ 11) :
    (Domain.daysInMonth (if (if mp < 10 then mp + 3 else mp - 9) ≤ 2 then y + 1 else y)
      (if mp < 10 then mp + 3 else mp - 9).toNat : ℤ) =
        if mp = 11 then (if isLeap (y + 1) then 29 else 28)
        else (153 * (mp + 1) + 2) / 5 - (153 * mp + 2) / 5 := by
  obtain ⟨hlow, hhigh⟩ := h
  interval_cases mp <;> simp [Domain.daysInMonth]

theorem tdiv_era (z : ℤ) : (if 0 ≤ z then z else z - 146096).tdiv 146097 = z / 146097 := by
  split
  · next h => exact Int.tdiv_eq_ediv_of_nonneg h
  · next h =>
      rw [← neg_neg (z - 146096), Int.neg_tdiv, Int.tdiv_eq_ediv_of_nonneg (by omega)]
      omega

/-- The days of a year of the era, up to the end of the February that follows it. -/
theorem days_of_year {yoe : ℤ} (h : 0 ≤ yoe ∧ yoe ≤ 399) (era : ℤ) :
    (365 * (yoe + 1) + (yoe + 1) / 4 - (yoe + 1) / 100 + (yoe + 1) / 400) -
        (365 * yoe + yoe / 4 - yoe / 100) =
      if isLeap (yoe + era * 400 + 1) then 366 else 365 := by
  have hleap : isLeap (yoe + era * 400 + 1) = true ↔
      (yoe + 1) % 4 = 0 ∧ ((yoe + 1) % 100 ≠ 0 ∨ (yoe + 1) % 400 = 0) := by
    have hfour : (yoe + era * 400 + 1) % 4 = (yoe + 1) % 4 := by omega
    have hhundred : (yoe + era * 400 + 1) % 100 = (yoe + 1) % 100 := by omega
    have hcycle : (yoe + era * 400 + 1) % 400 = (yoe + 1) % 400 := by omega
    simp [isLeap, hfour, hhundred, hcycle]
  obtain ⟨hlow, hhigh⟩ := h
  by_cases hfour : (yoe + 1) % 4 = 0
  · have hnext : (yoe + 1) / 4 = yoe / 4 + 1 := by omega
    by_cases hhundred : (yoe + 1) % 100 = 0
    · have hcentury : (yoe + 1) / 100 = yoe / 100 + 1 := by omega
      by_cases hcycle : (yoe + 1) % 400 = 0
      · rw [if_pos (hleap.mpr ⟨hfour, .inr hcycle⟩)]
        omega
      · have hnot : ¬ isLeap (yoe + era * 400 + 1) = true := by
          rw [hleap]
          exact fun h => h.2.elim (fun h => h hhundred) hcycle
        rw [if_neg hnot]
        omega
    · rw [if_pos (hleap.mpr ⟨hfour, .inl hhundred⟩)]
      omega
  · have hnot : ¬ isLeap (yoe + era * 400 + 1) = true := by
      rw [hleap]
      exact fun h => hfour h.1
    rw [if_neg hnot]
    omega

theorem daysBeforeYear_era {yoe : ℤ} (h : 0 ≤ yoe ∧ yoe ≤ 399) (era : ℤ) :
    daysBeforeYear (yoe + era * 400 + 1) = 146097 * era + 365 * yoe + yoe / 4 - yoe / 100 := by
  obtain ⟨hlow, hhigh⟩ := h
  have hfour : (yoe + era * 400 + 1 - 1) / 4 = yoe / 4 + 100 * era := by omega
  have hhundred : (yoe + era * 400 + 1 - 1) / 100 = yoe / 100 + 4 * era := by omega
  have hcycle : (yoe + era * 400 + 1 - 1) / 400 = era := by omega
  simp only [daysBeforeYear, hfour, hhundred, hcycle]
  omega

/-- **The date is that of the day.** -/
theorem civilFromDays_spec (z : ℤ) : DateOk (civilFromDays z) ∧ dayOf (civilFromDays z) = z := by
  unfold civilFromDays
  dsimp only
  rw [tdiv_era]
  generalize hera : (z + 719468) / 146097 = era
  generalize hdoe : z + 719468 - era * 146097 = doe
  generalize hyoe : (doe - doe / 1460 + doe / 36524 - doe / 146096) / 365 = yoe
  obtain ⟨hlow, hhigh, hstart, hend⟩ := yoe_spec (by omega) (by omega) hyoe.symm
  have hyear := days_of_year ⟨hlow, hhigh⟩ era
  have hyears := daysBeforeYear_era ⟨hlow, hhigh⟩ era
  generalize hdoy : doe - (365 * yoe + yoe / 4 - yoe / 100) = doy
  generalize hmp : (5 * doy + 2) / 153 = mp
  have hdoe : 146097 * era + doe = z + 719468 := by omega
  have hdoy' : 0 ≤ doy ∧ doy < if isLeap (yoe + era * 400 + 1) then 366 else 365 := by
    rw [← hyear]
    omega
  have hsum : daysBeforeYear (yoe + era * 400 + 1) + doy = z + 719468 := by omega
  clear hera hyoe hstart hend hyear hyears hdoy hdoe
  have hmonth : 0 ≤ mp ∧ mp ≤ 11 := by
    split at hdoy' <;> omega
  have hday : 1 ≤ doy - (153 * mp + 2) / 5 + 1 := by omega
  constructor
  · refine ⟨?_, ?_, ?_⟩
    · dsimp only
      split <;> omega
    · dsimp only
      omega
    · have hlength := length_march (yoe + era * 400) hmonth
      dsimp only
      zify
      rw [hlength, Int.toNat_of_nonneg (by omega)]
      split
      · by_cases hleap : isLeap (yoe + era * 400 + 1) = true
        · rw [if_pos hleap] at hdoy' ⊢
          omega
        · rw [if_neg hleap] at hdoy' ⊢
          omega
      · omega
  · have hepoch : dayNumber (1970, 1, 1) = 719163 := by decide
    unfold dayOf
    rw [dayNumber_march _ hmonth, Int.toNat_of_nonneg (by omega), hepoch]
    omega

end Stackhour.Core.Timeparse
