import Mathlib.Algebra.GroupWithZero.Nat
import Mathlib.Data.Int.Notation
import Mathlib.Data.Nat.Notation
import Mathlib.Logic.Function.Iterate
import Mathlib.Order.Basic

/-!
# Timestamps and their stored text

Every timestamp column is text: `fmtTime` writes it (RFC 3339, UTC,
nanosecond precision, `Z`) and `parseTime` reads it back. The printing is
chrono's: a year outside `0 … 9999` carries an explicit sign, and RFC 3339
parsing accepts four digits and nothing else for a year. `parseTime` covers
the texts of UTC instants with nine fractional digits, the only ones the
columns ever hold.
-/

namespace Stackhour.Domain

def isLeap (year : ℤ) : Bool :=
  year % 4 == 0 && (year % 100 != 0 || year % 400 == 0)

def daysInMonth (year : ℤ) (month : ℕ) : ℕ :=
  if month = 2 then (if isLeap year then 29 else 28)
  else if month = 4 ∨ month = 6 ∨ month = 9 ∨ month = 11 then 30 else 31

/-- A UTC instant as its calendar fields. A leap second is second 59 with a
nanosecond count of `10^9` or more, as chrono represents it. -/
structure DateTime where
  year : ℤ
  month : ℕ
  day : ℕ
  hour : ℕ
  minute : ℕ
  second : ℕ
  nano : ℕ
  date_ok : (1 ≤ month ∧ month ≤ 12) ∧ 1 ≤ day ∧ day ≤ daysInMonth year month
  time_ok : hour < 24 ∧ minute < 60 ∧ second < 60 ∧
    (nano < 1000000000 ∨ (second = 59 ∧ nano < 2000000000))
deriving DecidableEq

/-- `1970-01-01T00:00:00Z`. -/
def DateTime.epoch : DateTime := ⟨1970, 1, 1, 0, 0, 0, 0, by decide, by decide⟩

/-- The days of the proleptic Gregorian calendar before a year. -/
def daysBeforeYear (year : ℤ) : ℤ :=
  let y := year - 1
  365 * y + y / 4 - y / 100 + y / 400

/-- The days of a year before a month. -/
def daysBeforeMonth (year : ℤ) (month : ℕ) : ℕ :=
  ((List.range' 1 (month - 1)).map (daysInMonth year)).sum

/-- `timestamp`: whole seconds since the epoch. -/
def DateTime.timestamp (t : DateTime) : ℤ :=
  let days := daysBeforeYear t.year - daysBeforeYear 1970 + daysBeforeMonth t.year t.month + t.day - 1
  ((days * 24 + t.hour) * 60 + t.minute) * 60 + t.second

/-! ## Decimal fields -/

def digitChar (d : ℕ) : Char := Char.ofNat (48 + d % 10)

def digitVal (c : Char) : Option ℕ :=
  if 48 ≤ c.toNat ∧ c.toNat ≤ 57 then some (c.toNat - 48) else none

/-- The last `w` decimal digits of `n`, zero-padded. -/
def pad : ℕ → ℕ → List Char
  | 0, _ => []
  | w + 1, n => pad w (n / 10) ++ [digitChar n]

/-- Read exactly `w` digits onto an accumulator. -/
def readDigits : ℕ → ℕ → List Char → Option (ℕ × List Char)
  | 0, acc, cs => some (acc, cs)
  | _ + 1, _, [] => none
  | w + 1, acc, c :: cs =>
      match digitVal c with
      | none => none
      | some d => readDigits w (acc * 10 + d) cs

/-- Read one literal character. -/
def readChar (c : Char) : List Char → Option (List Char)
  | [] => none
  | x :: xs => if x = c then some xs else none

/-! ## `fmt_time` and `parse_time` -/

/-- The year field: four digits inside `0 … 9999`, an explicit sign and at
least four digits outside. -/
def fmtYear (year : ℤ) : List Char :=
  if 0 ≤ year ∧ year ≤ 9999 then pad 4 year.toNat
  else (if year < 0 then '-' else '+') ::
    pad (max 4 (Nat.toDigits 10 year.natAbs).length) year.natAbs

/-- `fmt_time`: a leap second prints as second 60. -/
def fmtTime (t : DateTime) : String :=
  let leap := t.nano / 1000000000
  String.ofList (fmtYear t.year ++ '-' :: pad 2 t.month ++ '-' :: pad 2 t.day ++
    'T' :: pad 2 t.hour ++ ':' :: pad 2 t.minute ++ ':' :: pad 2 (t.second + leap) ++
    '.' :: pad 9 (t.nano % 1000000000) ++ ['Z'])

/-- The fields of a parsed text as an instant, when they are one. Second 60
is a leap second. -/
def mkTime (year month day hour minute second nano : ℕ) : Option DateTime :=
  let s := if second = 60 then 59 else second
  let n := if second = 60 then nano + 1000000000 else nano
  if hd : (1 ≤ month ∧ month ≤ 12) ∧ 1 ≤ day ∧ day ≤ daysInMonth (year : ℤ) month then
    if ht : hour < 24 ∧ minute < 60 ∧ s < 60 ∧
        (n < 1000000000 ∨ (s = 59 ∧ n < 2000000000)) then
      some ⟨year, month, day, hour, minute, s, n, hd, ht⟩
    else none
  else none

/-- `parse_time`. -/
def parseTime (text : String) : Option DateTime := do
  let (year, cs) ← readDigits 4 0 text.toList
  let cs ← readChar '-' cs
  let (month, cs) ← readDigits 2 0 cs
  let cs ← readChar '-' cs
  let (day, cs) ← readDigits 2 0 cs
  let cs ← readChar 'T' cs
  let (hour, cs) ← readDigits 2 0 cs
  let cs ← readChar ':' cs
  let (minute, cs) ← readDigits 2 0 cs
  let cs ← readChar ':' cs
  let (second, cs) ← readDigits 2 0 cs
  let cs ← readChar '.' cs
  let (nano, cs) ← readDigits 9 0 cs
  if cs = ['Z'] then mkTime year month day hour minute second nano else none

/-! ## The round trip -/

theorem digitVal_digitChar (n : ℕ) : digitVal (digitChar n) = some (n % 10) := by
  have hall : ∀ d : Fin 10, digitVal (Char.ofNat (48 + d)) = some d.val := by decide
  exact hall ⟨n % 10, Nat.mod_lt n (by decide)⟩

theorem readDigits_succ (w acc : ℕ) (cs : List Char) :
    readDigits (w + 1) acc cs = (readDigits w acc cs).bind (fun r => readDigits 1 r.1 r.2) := by
  induction w generalizing acc cs with
  | zero => rfl
  | succ w ih =>
      cases cs with
      | nil => rfl
      | cons c cs =>
          simp only [readDigits]
          cases digitVal c with
          | none => rfl
          | some d => exact ih (acc * 10 + d) cs

/-- Reading as many digits as were padded gives the number back. -/
theorem readDigits_pad (w acc n : ℕ) (rest : List Char) :
    readDigits w acc (pad w n ++ rest) = some (acc * 10 ^ w + n % 10 ^ w, rest) := by
  induction w generalizing n rest with
  | zero => simp [readDigits, pad, Nat.mod_one]
  | succ w ih =>
      rw [readDigits_succ, pad, List.append_assoc, ih]
      simp only [Option.bind_some, readDigits, List.cons_append, List.nil_append,
        digitVal_digitChar]
      have hmod : n % 10 ^ (w + 1) = n / 10 % 10 ^ w * 10 + n % 10 := by
        rw [Nat.pow_succ', Nat.mod_mul, Nat.add_comm, Nat.mul_comm]
      rw [hmod, Nat.pow_succ, Nat.add_mul, Nat.mul_assoc, Nat.add_assoc]

theorem daysInMonth_le (year : ℤ) (month : ℕ) : daysInMonth year month ≤ 31 := by
  unfold daysInMonth
  repeat' split
  all_goals decide

/-- The year has four digits. -/
def DateTime.Readable (t : DateTime) : Prop := 0 ≤ t.year ∧ t.year ≤ 9999

instance (t : DateTime) : Decidable t.Readable := by
  unfold DateTime.Readable
  infer_instance

/-- The stored text reads back exactly when the year has four digits. -/
theorem parseTime_fmtTime (t : DateTime) :
    parseTime (fmtTime t) = if t.Readable then some t else none := by
  by_cases hy : t.Readable
  · rw [if_pos hy]
    have hday := Nat.le_trans t.date_ok.2.2 (daysInMonth_le t.year t.month)
    obtain ⟨⟨hm, hd⟩, hh, hmin, hs, hn⟩ := And.intro t.date_ok t.time_ok
    unfold DateTime.Readable at hy
    have hyear : t.year.toNat % 10 ^ 4 = t.year.toNat := Nat.mod_eq_of_lt (by omega)
    have hmonth : t.month % 10 ^ 2 = t.month := Nat.mod_eq_of_lt (by omega)
    have hdays : t.day % 10 ^ 2 = t.day := Nat.mod_eq_of_lt (by omega)
    have hhour : t.hour % 10 ^ 2 = t.hour := Nat.mod_eq_of_lt (by omega)
    have hminute : t.minute % 10 ^ 2 = t.minute := Nat.mod_eq_of_lt (by omega)
    have hsecond : (t.second + t.nano / 1000000000) % 10 ^ 2 = t.second + t.nano / 1000000000 :=
      Nat.mod_eq_of_lt (by omega)
    have hnano : t.nano % 1000000000 % 10 ^ 9 = t.nano % 1000000000 := by omega
    have hcast : ((t.year.toNat : ℕ) : ℤ) = t.year := Int.toNat_of_nonneg hy.1
    have hleap : (if t.second + t.nano / 1000000000 = 60 then 59
        else t.second + t.nano / 1000000000) = t.second := by
      split <;> omega
    have hfrac : (if t.second + t.nano / 1000000000 = 60 then
        t.nano % 1000000000 + 1000000000 else t.nano % 1000000000) = t.nano := by
      split <;> omega
    simp only [parseTime, fmtTime, fmtYear, if_pos hy, String.toList_ofList,
      List.append_assoc, List.cons_append, readDigits_pad, readChar, if_true, Option.bind_eq_bind,
      Option.bind_some, Nat.zero_mul, Nat.zero_add, hyear, hmonth, hdays, hhour,
      hminute, hsecond, hnano]
    simp only [mkTime, hleap, hfrac, hcast]
    rw [dif_pos t.date_ok, dif_pos t.time_ok]
  · rw [if_neg hy]
    have hsign : ∀ b : Bool, digitVal (if b then '-' else '+') = none := by decide
    have hhead : ∀ cs, readDigits 4 0 ((if t.year < 0 then '-' else '+') :: cs) = none := by
      intro cs
      have := hsign (decide (t.year < 0))
      simp only [decide_eq_true_eq] at this
      simp only [readDigits, this]
    unfold DateTime.Readable at hy
    simp only [parseTime, fmtTime, fmtYear, if_neg hy, String.toList_ofList, List.append_assoc,
      List.cons_append, hhead]
    rfl

/-! ## Adding seconds -/

/-- The calendar day after `(year, month, day)`. -/
def nextDate (d : ℤ × ℕ × ℕ) : ℤ × ℕ × ℕ :=
  if d.2.2 < daysInMonth d.1 d.2.1 then (d.1, d.2.1, d.2.2 + 1)
  else if d.2.1 < 12 then (d.1, d.2.1 + 1, 1)
  else (d.1 + 1, 1, 1)

def DateOk (d : ℤ × ℕ × ℕ) : Prop :=
  (1 ≤ d.2.1 ∧ d.2.1 ≤ 12) ∧ 1 ≤ d.2.2 ∧ d.2.2 ≤ daysInMonth d.1 d.2.1

theorem daysInMonth_pos (year : ℤ) (month : ℕ) : 1 ≤ daysInMonth year month := by
  unfold daysInMonth
  repeat' split
  all_goals decide

theorem nextDate_ok {d : ℤ × ℕ × ℕ} (h : DateOk d) : DateOk (nextDate d) := by
  unfold nextDate
  split
  · next hday => exact ⟨h.1, Nat.succ_le_succ (Nat.zero_le _), hday⟩
  · split
    · next hmonth =>
        exact ⟨⟨Nat.succ_le_succ (Nat.zero_le _), hmonth⟩, Nat.le_refl 1, daysInMonth_pos _ _⟩
    · exact ⟨⟨Nat.le_refl 1, (by decide : 1 ≤ 12)⟩, Nat.le_refl 1, daysInMonth_pos _ _⟩

theorem nextDate_iterate_ok {d : ℤ × ℕ × ℕ} (h : DateOk d) (n : ℕ) :
    DateOk (Nat.iterate nextDate n d) := by
  induction n generalizing d with
  | zero => exact h
  | succ n ih => exact ih (nextDate_ok h)

/-- The instant `k > 0` seconds later, carrying into the date; a leap second
is left behind. -/
def DateTime.addSeconds (t : DateTime) (k : ℕ) : DateTime :=
  let total := t.hour * 3600 + t.minute * 60 + t.second + k
  let date := Nat.iterate nextDate (total / 86400) (t.year, t.month, t.day)
  { year := date.1
    month := date.2.1
    day := date.2.2
    hour := total % 86400 / 3600
    minute := total % 86400 % 3600 / 60
    second := total % 86400 % 60
    nano := t.nano % 1000000000
    date_ok := nextDate_iterate_ok (d := (t.year, t.month, t.day)) t.date_ok _
    time_ok := ⟨by omega, by omega, by omega, Or.inl (by omega)⟩ }

/-- A year outside RFC 3339's four digits is written but not read back. -/
example : (parseTime (fmtTime ⟨10000, 1, 1, 0, 0, 0, 0, by decide, by decide⟩)) = none := by
  decide

end Stackhour.Domain
