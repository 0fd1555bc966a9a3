import Stackhour.Core.Timeparse

/-!
# ISO dates as texts

How the text of `iso_date_utc` compares with the texts of calendar dates: as the days do
while the year has four digits. A year with a sign is before every date.
-/

namespace Stackhour.Core.Timeparse

open Binary64 (Double)
open Domain

instance (d : ℤ × ℕ × ℕ) : Decidable (DateOk d) := inferInstanceAs (Decidable (_ ∧ _))

/-- A date that is written `YYYY-MM-DD`. -/
structure CivilDate where
  year : ℕ
  month : ℕ
  day : ℕ
  year_ok : year ≤ 9999
  date_ok : DateOk ((year : ℤ), month, day)

namespace CivilDate

def text (c : CivilDate) : String :=
  String.ofList (pad 4 c.year ++ '-' :: pad 2 c.month ++ '-' :: pad 2 c.day)

/-- The days since the epoch. -/
def number (c : CivilDate) : ℤ := dayOf (c.year, c.month, c.day)

theorem day_le (c : CivilDate) : c.month ≤ 12 ∧ c.day ≤ 31 :=
  ⟨c.date_ok.1.2, c.date_ok.2.2.trans (daysInMonth_le c.year c.month)⟩

/-- Dates are ordered as their texts. -/
theorem text_lt_text (c d : CivilDate) : c.text < d.text ↔ c.number < d.number := by
  obtain ⟨hmonth, hday⟩ := c.day_le
  obtain ⟨hmonth', hday'⟩ := d.day_le
  have hyear := c.year_ok
  have hyear' := d.year_ok
  have hnumber : c.number < d.number ↔
      dayNumber ((c.year : ℤ), c.month, c.day) < dayNumber ((d.year : ℤ), d.month, d.day) := by
    unfold number dayOf
    omega
  have hnil : ∀ m, pad 2 m = pad 2 m ++ [] := fun m => (List.append_nil _).symm
  rw [hnumber, dayNumber_lt_iff c.date_ok d.date_ok, String.lt_iff]
  unfold text
  rw [String.toList_ofList, String.toList_ofList, hnil c.day, hnil d.day]
  simp only [List.append_assoc, List.cons_append]
  rw [pad_append_lt (by omega) (by omega), List.cons_lt_cons_iff, pad_append_lt (by omega) (by omega),
    List.cons_lt_cons_iff, pad_append_lt (by omega) (by omega)]
  have hend : ¬ ([] : List Char) < [] := List.not_lt_nil _
  simp only [Nat.cast_lt, Nat.cast_inj, Char.lt_irrefl, false_or, true_and, hend, and_false, or_false]

end CivilDate

/-- The first day that is written with a sign. -/
def signedFrom : ℤ := dayOf (10000, 1, 1)

theorem signedFrom_eq : signedFrom = 2932897 := by decide

/-- The day of the text of `iso_date_utc`. -/
def isoDay (b : Double) : ℤ := epochMs b / 86400000

theorem epochMs_range (b : Double) : -MAX_DATE_MS ≤ epochMs b ∧ epochMs b ≤ MAX_DATE_MS := by
  unfold epochMs trunc
  dsimp only
  split
  · decide
  · next hlow =>
      split
      · decide
      · next hhigh =>
          rw [not_le] at hlow hhigh
          split
          · next hpos =>
              refine ⟨le_trans (by decide) (Int.floor_nonneg.mpr hpos), ?_⟩
              exact_mod_cast (Int.floor_le _).trans hlow.le
          · next hneg =>
              refine ⟨?_, le_trans (Int.ceil_le.mpr (by exact_mod_cast (not_le.mp hneg).le)) ?_⟩
              · exact_mod_cast hhigh.le.trans (Int.le_ceil _)
              · exact (by decide : (0 : ℤ) ≤ MAX_DATE_MS)

theorem pad_length (w n : ℕ) : (pad w n).length = w := by
  induction w generalizing n with
  | zero => rfl
  | succ w ih => rw [pad, List.length_append, ih, List.length_singleton]

theorem dayOf_lt_year {d : ℤ × ℕ × ℕ} (h : DateOk d) (year : ℤ) :
    dayOf d < dayOf (year, 1, 1) ↔ d.1 < year := by
  have hfirst : DateOk (year, 1, 1) :=
    ⟨⟨le_refl 1, (by decide : 1 ≤ 12)⟩, le_refl 1, Domain.daysInMonth_pos _ _⟩
  have hfields := dayNumber_lt_iff h hfirst
  have hmonth := h.1.1
  have hday := h.2.1
  simp only at hfields
  unfold dayOf
  omega

theorem isoDateUtc_toList (b : Double) : ∃ rest, (isoDateUtc b).toList =
    ((isoYear (civilFromDays (isoDay b)).1 ++ '-' :: pad 2 (civilFromDays (isoDay b)).2.1 ++
      '-' :: pad 2 (civilFromDays (isoDay b)).2.2) ++ rest).take 10 := by
  obtain ⟨hlow, hhigh⟩ := epochMs_range b
  have hclamp : max (-MAX_DATE_MS) (min MAX_DATE_MS (epochMs b)) = epochMs b := by
    rw [min_eq_right hhigh, max_eq_right hlow]
  unfold isoDateUtc jsToIsoString
  dsimp only
  rw [hclamp, String.toList_ofList, String.toList_ofList]
  simp only [List.append_assoc, List.cons_append]
  exact ⟨_, rfl⟩

/-- The text of a bound: a date, or a sign in front. -/
theorem isoDateUtc_cases (b : Double) :
    (∃ c : CivilDate, isoDateUtc b = c.text ∧ c.number = isoDay b ∧ isoDay b < signedFrom) ∨
      ∃ sign rest, (sign = '-' ∧ isoDay b < dayOf (0, 1, 1) ∨ sign = '+' ∧ signedFrom ≤ isoDay b) ∧
        (isoDateUtc b).toList = sign :: rest := by
  obtain ⟨hok, hday⟩ := civilFromDays_spec (isoDay b)
  obtain ⟨rest, htext⟩ := isoDateUtc_toList b
  generalize civilFromDays (isoDay b) = d at hok hday htext
  obtain ⟨year, month, day⟩ := d
  have hafter : isoDay b < signedFrom ↔ year < 10000 := hday ▸ dayOf_lt_year hok 10000
  have hbefore : isoDay b < dayOf (0, 1, 1) ↔ year < 0 := hday ▸ dayOf_lt_year hok 0
  by_cases hyear : 0 ≤ year ∧ year ≤ 9999
  · left
    obtain ⟨n, rfl⟩ := Int.eq_ofNat_of_zero_le hyear.1
    refine ⟨⟨n, month, day, by omega, hok⟩, ?_, hday, ?_⟩
    · have hiso : isoYear n = pad 4 n := if_pos hyear
      rw [← String.toList_inj, htext, hiso, List.take_left']
      · exact String.toList_ofList.symm
      · simp [pad_length]
    · rw [hafter]
      omega
  · right
    have hiso : isoYear year = (if year < 0 then '-' else '+') :: pad 6 year.natAbs := if_neg hyear
    rw [hiso] at htext
    refine ⟨if year < 0 then '-' else '+', _, ?_, htext⟩
    by_cases hneg : year < 0
    · rw [if_pos hneg]
      exact .inl ⟨rfl, hbefore.mpr hneg⟩
    · rw [if_neg hneg]
      refine .inr ⟨rfl, ?_⟩
      rw [← not_lt, hafter]
      omega

theorem CivilDate.number_range (c : CivilDate) :
    dayOf (0, 1, 1) ≤ c.number ∧ c.number < signedFrom := by
  have hyear := c.year_ok
  constructor
  · rw [← not_lt, CivilDate.number, dayOf_lt_year c.date_ok]
    omega
  · rw [CivilDate.number, signedFrom, dayOf_lt_year c.date_ok]
    omega

theorem sign_lt_digitChar (n : ℕ) {c : Char} (hc : c = '-' ∨ c = '+') : c < digitChar n := by
  have hall : ∀ i : Fin 10, '-' < Char.ofNat (48 + i) ∧ '+' < Char.ofNat (48 + i) := by decide
  obtain ⟨hminus, hplus⟩ := hall ⟨n % 10, Nat.mod_lt n (by decide)⟩
  rcases hc with rfl | rfl
  · exact hminus
  · exact hplus

/-- A sign is before every date. -/
theorem CivilDate.sign_lt (c : CivilDate) {s : String} {sign : Char} {rest : List Char}
    (hsign : sign = '-' ∨ sign = '+') (hs : s.toList = sign :: rest) : ¬ c.text < s ∧ s < c.text := by
  obtain ⟨m, cs, hpad⟩ := pad_cons 3 c.year
  obtain ⟨hlt, hne⟩ := sign_before_digitChar m hsign
  have htext : ∃ tail, c.text.toList = digitChar m :: tail := by
    unfold CivilDate.text
    rw [String.toList_ofList, hpad]
    exact ⟨_, rfl⟩
  obtain ⟨tail, htext⟩ := htext
  have hnot : ¬ c.text < s := by
    rw [String.lt_iff, htext, hs, List.cons_lt_cons_iff]
    rintro (h | ⟨h, -⟩)
    · exact hlt h
    · exact hne h
  refine ⟨hnot, ?_⟩
  rw [String.lt_iff, htext, hs, List.cons_lt_cons_iff]
  exact .inl (sign_lt_digitChar m hsign)

/-- **Before the text of a bound** are the dates before its day, while that has no sign. -/
theorem text_lt_iso (c : CivilDate) (b : Double) :
    c.text < isoDateUtc b ↔ c.number < isoDay b ∧ isoDay b < signedFrom := by
  obtain ⟨hlow, hhigh⟩ := c.number_range
  rcases isoDateUtc_cases b with ⟨d, htext, hnumber, hday⟩ | ⟨sign, rest, hsign, hs⟩
  · rw [htext, CivilDate.text_lt_text, hnumber]
    exact (and_iff_left hday).symm
  · have hnot := (c.sign_lt (hsign.imp And.left And.left) hs).1
    refine iff_of_false hnot ?_
    rcases hsign with ⟨-, h⟩ | ⟨-, h⟩
    · omega
    · omega

theorem iso_lt_text (c : CivilDate) (b : Double) :
    isoDateUtc b < c.text ↔ isoDay b < c.number ∨ signedFrom ≤ isoDay b := by
  obtain ⟨hlow, hhigh⟩ := c.number_range
  rcases isoDateUtc_cases b with ⟨d, htext, hnumber, hday⟩ | ⟨sign, rest, hsign, hs⟩
  · rw [htext, CivilDate.text_lt_text, hnumber]
    omega
  · refine iff_of_true (c.sign_lt (hsign.imp And.left And.left) hs).2 ?_
    rcases hsign with ⟨-, h⟩ | ⟨-, h⟩
    · omega
    · omega

end Stackhour.Core.Timeparse
