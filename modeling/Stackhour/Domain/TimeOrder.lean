import Stackhour.Domain.Time
import Mathlib.Data.List.Basic
import Mathlib.Algebra.Order.Group.Nat

/-!
# The order of instants and of their texts

Timestamp columns are compared as texts. Instants are ordered by their seconds
since the epoch and then by their nanoseconds, which is the order of their
calendar fields. A text compares as its fields do while the year has four digits.
-/

namespace Stackhour.Domain

/-! ## Calendar arithmetic -/

/-- The number of a day: its place in the proleptic Gregorian calendar. -/
def dayNumber (d : ℤ × ℕ × ℕ) : ℤ := daysBeforeYear d.1 + daysBeforeMonth d.1 d.2.1 + d.2.2

theorem daysBeforeMonth_succ (year : ℤ) {month : ℕ} (h : 1 ≤ month) :
    daysBeforeMonth year (month + 1) = daysBeforeMonth year month + daysInMonth year month := by
  obtain ⟨m, rfl⟩ := Nat.exists_eq_add_of_le' h
  unfold daysBeforeMonth
  rw [Nat.add_sub_cancel, Nat.add_sub_cancel, List.range'_1_concat, List.map_append,
    List.sum_append, Nat.add_comm 1 m]
  simp

theorem daysBeforeMonth_mono (year : ℤ) {m m' : ℕ} (h : 1 ≤ m) (hle : m ≤ m') :
    daysBeforeMonth year m ≤ daysBeforeMonth year m' := by
  induction m', hle using Nat.le_induction with
  | base => exact le_refl _
  | succ m' hle ih =>
      rw [daysBeforeMonth_succ year (h.trans hle)]
      exact ih.trans (Nat.le_add_right _ _)

/-- The months of a year add up to the distance to the next one. -/
theorem daysBeforeYear_succ (year : ℤ) :
    daysBeforeYear (year + 1) = daysBeforeYear year + daysBeforeMonth year 12 + 31 := by
  have hmonths : daysBeforeMonth year 12 = 306 + daysInMonth year 2 := by
    show (31 + (daysInMonth year 2 + (31 + (30 + (31 + (30 + (31 + (31 + (30 + (31 + (30 + 0))))))))))) = _
    omega
  have hfeb : daysInMonth year 2 = if isLeap year then 29 else 28 := rfl
  have hleap : isLeap year = true ↔ year % 4 = 0 ∧ (year % 100 ≠ 0 ∨ year % 400 = 0) := by
    simp [isLeap]
  rw [hmonths, hfeb]
  simp only [daysBeforeYear]
  split
  · next h =>
      rw [hleap] at h
      omega
  · next h =>
      rw [hleap] at h
      omega

theorem daysBeforeYear_mono {y y' : ℤ} (h : y ≤ y') : daysBeforeYear y ≤ daysBeforeYear y' := by
  simp only [daysBeforeYear]
  omega

theorem dayNumber_nextDate {d : ℤ × ℕ × ℕ} (h : DateOk d) :
    dayNumber (nextDate d) = dayNumber d + 1 := by
  obtain ⟨year, month, day⟩ := d
  obtain ⟨⟨h1, h12⟩, -, hday⟩ := h
  simp only at h1 h12 hday
  unfold dayNumber nextDate
  split
  · simp only
    omega
  · next hlast =>
      simp only at hlast
      split
      · have hmonth := daysBeforeMonth_succ year h1
        simp only [hmonth]
        omega
      · next hdec =>
          simp only at hdec
          obtain rfl : month = 12 := by omega
          have hyear := daysBeforeYear_succ year
          have hdays : daysInMonth year 12 = 31 := rfl
          have hzero : daysBeforeMonth (year + 1) 1 = 0 := rfl
          simp only [hyear, hzero]
          omega

theorem dayNumber_iterate {d : ℤ × ℕ × ℕ} (h : DateOk d) (n : ℕ) :
    dayNumber (Nat.iterate nextDate n d) = dayNumber d + n := by
  induction n generalizing d with
  | zero => exact (Int.add_zero _).symm
  | succ n ih =>
      show dayNumber (Nat.iterate nextDate n (nextDate d)) = _
      rw [ih (nextDate_ok h), dayNumber_nextDate h]
      omega

/-- Dates are numbered in the order of their fields. -/
theorem dayNumber_lt_of_fields {d d' : ℤ × ℕ × ℕ} (h : DateOk d) (h' : DateOk d')
    (hlt : d.1 < d'.1 ∨ d.1 = d'.1 ∧ (d.2.1 < d'.2.1 ∨ d.2.1 = d'.2.1 ∧ d.2.2 < d'.2.2)) :
    dayNumber d < dayNumber d' := by
  obtain ⟨year, month, day⟩ := d
  obtain ⟨year', month', day'⟩ := d'
  obtain ⟨⟨h1, h12⟩, -, hday⟩ := h
  obtain ⟨⟨h1', -⟩, hday', -⟩ := h'
  simp only at h1 h12 hday h1' hday' hlt
  unfold dayNumber
  rcases hlt with hyear | ⟨rfl, hmonth | ⟨rfl, hlt⟩⟩
  · -- the rest of the year lies between
    have hdec : daysBeforeMonth year 13 = daysBeforeMonth year 12 + daysInMonth year 12 :=
      daysBeforeMonth_succ year (by decide)
    have hdays : daysInMonth year 12 = 31 := rfl
    have hrest : daysBeforeMonth year (month + 1) ≤ daysBeforeMonth year 13 :=
      daysBeforeMonth_mono year (by omega) (by omega)
    rw [daysBeforeMonth_succ year h1] at hrest
    have hnext := daysBeforeYear_succ year
    have hmono := daysBeforeYear_mono (Int.add_one_le_of_lt hyear)
    simp only
    omega
  · -- the rest of the month lies between
    have hmono := daysBeforeMonth_mono year (Nat.le_add_left 1 month) hmonth
    rw [daysBeforeMonth_succ year h1] at hmono
    simp only
    omega
  · simp only
    omega

theorem dayNumber_lt_iff {d d' : ℤ × ℕ × ℕ} (h : DateOk d) (h' : DateOk d') :
    dayNumber d < dayNumber d' ↔
      d.1 < d'.1 ∨ d.1 = d'.1 ∧ (d.2.1 < d'.2.1 ∨ d.2.1 = d'.2.1 ∧ d.2.2 < d'.2.2) := by
  refine ⟨?_, dayNumber_lt_of_fields h h'⟩
  intro hlt
  by_contra hnot
  by_cases heq : d = d'
  · subst heq
    exact lt_irrefl _ hlt
  · have hgt : dayNumber d' < dayNumber d := by
      refine dayNumber_lt_of_fields h' h ?_
      obtain ⟨year, month, day⟩ := d
      obtain ⟨year', month', day'⟩ := d'
      simp only [Prod.mk.injEq] at hnot heq ⊢
      omega
    exact lt_asymm hlt hgt

/-! ## Instants -/

namespace DateTime

/-- The date of an instant. -/
def date (t : DateTime) : ℤ × ℕ × ℕ := (t.year, t.month, t.day)

theorem dateOk (t : DateTime) : DateOk t.date := t.date_ok

/-- Earlier in time. -/
instance : LT DateTime :=
  ⟨fun a b => a.timestamp < b.timestamp ∨ a.timestamp = b.timestamp ∧ a.nano < b.nano⟩

instance : LE DateTime := ⟨fun a b => ¬ b < a⟩

instance (a b : DateTime) : Decidable (a < b) :=
  inferInstanceAs (Decidable (_ ∨ _ ∧ _))

instance (a b : DateTime) : Decidable (a ≤ b) :=
  inferInstanceAs (Decidable (¬ _))

theorem timestamp_eq (t : DateTime) :
    t.timestamp = (dayNumber t.date - daysBeforeYear 1970 - 1) * 86400 + t.hour * 3600 +
      t.minute * 60 + t.second := by
  simp only [timestamp, dayNumber, date]
  omega

/-- `addSeconds` moves an instant by that many seconds. -/
theorem timestamp_addSeconds (t : DateTime) (k : ℕ) :
    (t.addSeconds k).timestamp = t.timestamp + k := by
  have hdate : (t.addSeconds k).date =
      Nat.iterate nextDate ((t.hour * 3600 + t.minute * 60 + t.second + k) / 86400) t.date := rfl
  have hnumber := dayNumber_iterate t.dateOk ((t.hour * 3600 + t.minute * 60 + t.second + k) / 86400)
  rw [timestamp_eq, timestamp_eq, hdate, hnumber]
  simp only [addSeconds]
  omega

/-- Instants are ordered as their fields are. -/
theorem lt_iff_fields {a b : DateTime} : a < b ↔
    a.year < b.year ∨ a.year = b.year ∧ (a.month < b.month ∨ a.month = b.month ∧
      (a.day < b.day ∨ a.day = b.day ∧ (a.hour < b.hour ∨ a.hour = b.hour ∧
        (a.minute < b.minute ∨ a.minute = b.minute ∧ (a.second < b.second ∨
          a.second = b.second ∧ a.nano < b.nano))))) := by
  have hlt := dayNumber_lt_iff a.dateOk b.dateOk
  have hgt := dayNumber_lt_iff b.dateOk a.dateOk
  obtain ⟨hah, ham, has, -⟩ := a.time_ok
  obtain ⟨hbh, hbm, hbs, -⟩ := b.time_ok
  show a.timestamp < b.timestamp ∨ a.timestamp = b.timestamp ∧ a.nano < b.nano ↔ _
  rw [timestamp_eq, timestamp_eq]
  simp only [date] at hlt hgt ⊢
  generalize dayNumber (a.year, a.month, a.day) = m at hlt hgt ⊢
  generalize dayNumber (b.year, b.month, b.day) = n at hlt hgt ⊢
  rcases lt_trichotomy m n with hmn | rfl | hmn
  · -- an earlier day
    have hfields := hlt.mp hmn
    omega
  · -- the same day
    have hsame := hlt.not.mp (lt_irrefl m)
    have hsame' := hgt.not.mp (lt_irrefl m)
    omega
  · have hfields := hgt.mp hmn
    omega

end DateTime

/-! ## Texts -/

theorem digitChar_lt (m n : ℕ) : digitChar m < digitChar n ↔ m % 10 < n % 10 := by
  have hall : ∀ i j : Fin 10, Char.ofNat (48 + i) < Char.ofNat (48 + j) ↔ i.val < j.val := by
    decide
  exact hall ⟨m % 10, Nat.mod_lt m (by decide)⟩ ⟨n % 10, Nat.mod_lt n (by decide)⟩

theorem digitChar_inj (m n : ℕ) : digitChar m = digitChar n ↔ m % 10 = n % 10 := by
  have hall : ∀ i j : Fin 10, Char.ofNat (48 + i) = Char.ofNat (48 + j) ↔ i.val = j.val := by
    decide
  exact hall ⟨m % 10, Nat.mod_lt m (by decide)⟩ ⟨n % 10, Nat.mod_lt n (by decide)⟩

/-- Padded numbers of one width compare as the numbers do. -/
theorem pad_append_lt {w m n : ℕ} (hm : m < 10 ^ w) (hn : n < 10 ^ w) (xs ys : List Char) :
    pad w m ++ xs < pad w n ++ ys ↔ m < n ∨ m = n ∧ xs < ys := by
  induction w generalizing m n xs ys with
  | zero =>
      obtain rfl : m = 0 := Nat.lt_one_iff.mp hm
      obtain rfl : n = 0 := Nat.lt_one_iff.mp hn
      simp [pad]
  | succ w ih =>
      have hm' : m / 10 < 10 ^ w := by omega
      have hn' : n / 10 < 10 ^ w := by omega
      unfold pad
      rw [List.append_assoc, List.append_assoc, ih hm' hn', List.singleton_append,
        List.singleton_append, List.cons_lt_cons_iff, digitChar_lt, digitChar_inj]
      by_cases hxy : xs < ys
      · simp only [hxy, and_true]
        omega
      · simp only [hxy, and_false, or_false]
        omega

theorem pad_cons (w n : ℕ) : ∃ m cs, pad (w + 1) n = digitChar m :: cs := by
  induction w generalizing n with
  | zero => exact ⟨n, [], rfl⟩
  | succ w ih =>
      obtain ⟨m, cs, h⟩ := ih (n / 10)
      exact ⟨m, cs ++ [digitChar n], by rw [pad, h, List.cons_append]⟩

/-- Both signs are before every digit. -/
theorem sign_before_digitChar (n : ℕ) {c : Char} (hc : c = '-' ∨ c = '+') :
    ¬ digitChar n < c ∧ digitChar n ≠ c := by
  have hall : ∀ i : Fin 10, (¬ Char.ofNat (48 + i) < '-' ∧ Char.ofNat (48 + i) ≠ '-') ∧
      ¬ Char.ofNat (48 + i) < '+' ∧ Char.ofNat (48 + i) ≠ '+' := by
    decide
  obtain ⟨hminus, hplus⟩ := hall ⟨n % 10, Nat.mod_lt n (by decide)⟩
  rcases hc with rfl | rfl
  · exact hminus
  · exact hplus

/-- **The order of texts** is the order of time between four-digit years. -/
theorem fmtTime_lt_fmtTime {a b : DateTime} (ha : a.Readable) (hb : b.Readable) :
    fmtTime a < fmtTime b ↔ a < b := by
  have hday := Nat.le_trans a.date_ok.2.2 (daysInMonth_le a.year a.month)
  have hday' := Nat.le_trans b.date_ok.2.2 (daysInMonth_le b.year b.month)
  obtain ⟨⟨-, hmonth⟩, -, -⟩ := a.date_ok
  obtain ⟨⟨-, hmonth'⟩, -, -⟩ := b.date_ok
  obtain ⟨hhour, hminute, hsecond, hnano⟩ := a.time_ok
  obtain ⟨hhour', hminute', hsecond', hnano'⟩ := b.time_ok
  have hyears : fmtYear a.year = pad 4 a.year.toNat ∧ fmtYear b.year = pad 4 b.year.toNat :=
    ⟨if_pos ha, if_pos hb⟩
  unfold DateTime.Readable at ha hb
  rw [String.lt_iff, DateTime.lt_iff_fields]
  simp only [fmtTime, String.toList_ofList, hyears, List.append_assoc, List.cons_append]
  rw [pad_append_lt (by omega) (by omega), List.cons_lt_cons_self,
    pad_append_lt (by omega) (by omega), List.cons_lt_cons_self,
    pad_append_lt (by omega) (by omega), List.cons_lt_cons_self,
    pad_append_lt (by omega) (by omega), List.cons_lt_cons_self,
    pad_append_lt (by omega) (by omega), List.cons_lt_cons_self,
    pad_append_lt (by omega) (by omega), List.cons_lt_cons_self,
    pad_append_lt (by omega) (by omega)]
  have hend : ¬ ['Z'] < ['Z'] := by decide
  -- a leap second is second 60 of the text
  have hleap : (a.second + a.nano / 1000000000 < b.second + b.nano / 1000000000 ∨
      a.second + a.nano / 1000000000 = b.second + b.nano / 1000000000 ∧
        (a.nano % 1000000000 < b.nano % 1000000000 ∨
          a.nano % 1000000000 = b.nano % 1000000000 ∧ ['Z'] < ['Z'])) ↔
      a.second < b.second ∨ a.second = b.second ∧ a.nano < b.nano := by
    simp only [hend, and_false, or_false]
    omega
  have hyear : a.year.toNat < b.year.toNat ↔ a.year < b.year := by omega
  have hyear' : a.year.toNat = b.year.toNat ↔ a.year = b.year := by omega
  rw [hleap, hyear, hyear']

/-- A text that is not after the text of `b` is of a time that is not after `b`,
and conversely, unless its year has a plus sign, which is before every digit. -/
theorem fmtTime_le_iff {a b : DateTime} (hb : b.Readable) :
    (fmtTime a ≤ fmtTime b ↔ a ≤ b) ↔ a.year ≤ 9999 := by
  rw [← String.not_lt]
  show (¬ fmtTime b < fmtTime a ↔ ¬ b < a) ↔ _
  by_cases ha : a.Readable
  · rw [fmtTime_lt_fmtTime hb ha]
    exact iff_of_true Iff.rfl ha.2
  · -- the text of `a` starts with its sign
    have hsign : ¬ fmtTime b < fmtTime a := by
      have hyears : fmtYear b.year = pad 4 b.year.toNat ∧ fmtYear a.year =
          (if a.year < 0 then '-' else '+') ::
            pad (max 4 (Nat.toDigits 10 a.year.natAbs).length) a.year.natAbs :=
        ⟨if_pos hb, if_neg ha⟩
      obtain ⟨m, cs, hpad⟩ := pad_cons 3 b.year.toNat
      have hchar : (if a.year < 0 then '-' else '+') = '-' ∨
          (if a.year < 0 then '-' else '+') = '+' := ite_eq_or_eq _ _ _
      obtain ⟨hlt, hne⟩ := sign_before_digitChar m hchar
      rw [String.lt_iff]
      simp only [fmtTime, String.toList_ofList, hyears, hpad, List.append_assoc, List.cons_append]
      rw [List.cons_lt_cons_iff]
      rintro (h | ⟨h, -⟩)
      · exact hlt h
      · exact hne h
    unfold DateTime.Readable at ha hb
    simp only [hsign, not_false_eq_true, true_iff, DateTime.lt_iff_fields]
    omega

end Stackhour.Domain
