import Stackhour.Core.IsoDates
import Stackhour.Tracker.Reattribution

/-!
# Export and prune

The rows that `data export` writes and `data prune` deletes. Heartbeats are compared with a
bound as numbers, imported days as texts with the date of the bound.
-/

namespace Stackhour.Tracker.Exact

open Binary64 (Double)
open Core.Timeparse Domain

/-- A row of `wakatime_days`. -/
structure WakatimeDay where
  date : String
  project : String
  seconds : ℚ
deriving DecidableEq

/-- The two tables that are exported and pruned. -/
structure Stored where
  heartbeats : Table
  days : List WakatimeDay

/-- `MAX_SAFE_INTEGER`. -/
def MAX_SAFE_INTEGER : Double := Binary64.round 9007199254740991

/-! ## Prune -/

/-- `WHERE time < ?`. -/
def oldHeartbeat (before : Double) (r : Heartbeat) : Bool := decide (r.time < before.value)

/-- `WHERE date < ?`. -/
def oldDay (before : Double) (d : WakatimeDay) : Bool := decide (d.date < isoDateUtc before)

/-- `DELETE FROM heartbeats WHERE time < ?`. -/
def deleteHeartbeats (before : Double) (db : Stored) : Stored :=
  { db with heartbeats := ⟨db.heartbeats.rows.filter (fun r => !oldHeartbeat before r),
      db.heartbeats.ordered.filter _⟩ }

/-- `DELETE FROM wakatime_days WHERE date < ?`. -/
def deleteDays (before : Double) (db : Stored) : Stored :=
  { db with days := db.days.filter (fun d => !oldDay before d) }

/-! ## Export -/

/-- `WHERE date >= ? AND date <= ?`. -/
def dayInRange (fromDate toDate : String) (d : WakatimeDay) : Bool :=
  decide (fromDate ≤ d.date ∧ d.date ≤ toDate)

/-- `ORDER BY date, project`. -/
def byDateProject (a b : WakatimeDay) : Bool :=
  decide (a.date < b.date ∨ (a.date = b.date ∧ a.project ≤ b.project))

/-- The rows of `export`, as far as its file can be written. -/
def exported (db : Stored) (fromBound toBound : Option Double) :
    Except String (List Heartbeat × List WakatimeDay) :=
  let fromTime := fromBound.getD (Binary64.round 0)
  let toTime := toBound.getD MAX_SAFE_INTEGER
  if toTime.value < fromTime.value then .error "from must not be after to"
  else
    let fromDate := isoDateUtc fromTime
    let toDate := if toTime.value = MAX_SAFE_INTEGER.value then "9999-12-31" else isoDateUtc toTime
    .ok (rowsInRange db.heartbeats fromTime.value toTime.value,
      (db.days.filter (dayInRange fromDate toDate)).mergeSort byDateProject)

/-! ## The day of a bound -/

/-- The UTC day of a bound. -/
def utcDay (b : Double) : ℤ := ⌊b.value / 86400⌋

/-- The milliseconds of a bound. -/
def millis (b : Double) : ℚ := (Binary64.round (b.value * 1000)).value

/-- Before 1970, milliseconds that come out in the last one before midnight, or after it. -/
def Slips (b : Double) : Prop := b.value < 0 ∧ ((utcDay b + 1) * 86400000 - 1 : ℤ) < millis b

instance (b : Double) : Decidable (Slips b) :=
  inferInstanceAs (Decidable (_ ∧ _))

theorem utcDay_bounds (b : Double) :
    (utcDay b : ℚ) * 86400 ≤ b.value ∧ b.value < (utcDay b + 1) * 86400 := by
  have hlow := Int.floor_le (b.value / 86400)
  have hhigh := Int.lt_floor_add_one (b.value / 86400)
  rw [le_div_iff₀ (by norm_num)] at hlow
  rw [div_lt_iff₀ (by norm_num)] at hhigh
  exact ⟨hlow, hhigh⟩

/-- A bound that `parse_time` accepts. -/
def InRange (b : Double) : Prop := |b.value| ≤ MAX_VERBATIM_SECONDS

theorem utcDay_range {b : Double} (h : InRange b) : -100000000 ≤ utcDay b ∧ utcDay b ≤ 100000000 := by
  obtain ⟨hlow, hhigh⟩ := abs_le.mp h
  obtain ⟨hday, hday'⟩ := utcDay_bounds b
  have hmax : (MAX_VERBATIM_SECONDS : ℚ) = 100000000 * 86400 := by norm_num [MAX_VERBATIM_SECONDS]
  rw [hmax] at hlow hhigh
  constructor
  · have hlt : (-100000001 : ℚ) < utcDay b := by linarith
    have hlt : (-100000001 : ℤ) < utcDay b := by exact_mod_cast hlt
    omega
  · have hle : (utcDay b : ℚ) ≤ 100000000 := by linarith
    exact_mod_cast hle

/-- Midnights are milliseconds that are not rounded. -/
theorem round_midnight {k : ℤ} (h : -100000001 ≤ k ∧ k ≤ 100000001) :
    (Binary64.round ((k : ℚ) * 86400000)).value = k * 86400000 := by
  have hround := Binary64.round_int (n := k * 86400000) (by rw [abs_lt]; omega)
  push_cast at hround
  exact hround

theorem millis_bounds {b : Double} (h : InRange b) :
    (utcDay b : ℚ) * 86400000 ≤ millis b ∧ millis b ≤ (utcDay b + 1) * 86400000 := by
  obtain ⟨hday, hday'⟩ := utcDay_bounds b
  obtain ⟨hlow, hhigh⟩ := utcDay_range h
  have hstart := round_midnight (k := utcDay b) (by omega)
  have hend := round_midnight (k := utcDay b + 1) (by omega)
  push_cast at hend
  constructor
  · rw [← hstart]
    exact Binary64.round_mono (by linarith)
  · rw [← hend]
    exact Binary64.round_mono (by linarith)

/-- From 1970 on the milliseconds stay before the midnight that follows. -/
theorem millis_lt {b : Double} (h : InRange b) (hb : 0 ≤ b.value) :
    millis b < (utcDay b + 1) * 86400000 := by
  obtain ⟨hday, hday'⟩ := utcDay_bounds b
  obtain ⟨-, hhigh⟩ := utcDay_range h
  have hpos : 0 ≤ utcDay b := Int.floor_nonneg.mpr (div_nonneg hb (by norm_num))
  have hseconds := Binary64.representable_int (n := (utcDay b + 1) * 86400) (by rw [abs_lt]; omega)
  have hmillis := Binary64.representable_int (n := (utcDay b + 1) * 86400000) (by rw [abs_lt]; omega)
  have hone : (1 : ℚ) ≤ ((utcDay b + 1) * 86400000 : ℤ) := by
    exact_mod_cast (by omega : 1 ≤ (utcDay b + 1) * 86400000)
  have hlt := Binary64.round_mul_lt (c := 1000) (b := b) (x := ⟨_, hseconds⟩) (y := ⟨_, hmillis⟩)
    (by norm_num) (by push_cast; ring) hone (by push_cast; exact hday')
  unfold millis
  rw [mul_comm]
  push_cast at hlt
  exact hlt

theorem epochMs_eq {b : Double} (h : InRange b) : epochMs b = trunc (millis b) := by
  obtain ⟨hmin, hmax⟩ := abs_le.mp h
  have hvalue : (MAX_DATE_MS : ℚ) = MAX_VERBATIM_SECONDS * 1000 := by
    norm_num [MAX_DATE_MS, MAX_VERBATIM_SECONDS]
  have hhigh : millis b ≤ MAX_DATE_MS := by
    rw [← Binary64.round_int (n := MAX_DATE_MS) (by decide)]
    exact Binary64.round_mono (by linarith)
  have hlow : ((-MAX_DATE_MS : ℤ) : ℚ) ≤ millis b := by
    rw [← Binary64.round_int (n := -MAX_DATE_MS) (by decide)]
    exact Binary64.round_mono (by push_cast; linarith)
  show (if (MAX_DATE_MS : ℚ) ≤ millis b then MAX_DATE_MS
    else if millis b ≤ -MAX_DATE_MS then -MAX_DATE_MS else trunc (millis b)) = _
  split
  · next hge =>
      rw [le_antisymm hhigh hge]
      decide
  · split
    · next hle =>
        have heq : millis b = ((-MAX_DATE_MS : ℤ) : ℚ) := le_antisymm (by push_cast; exact hle) hlow
        rw [heq]
        decide
    · rfl

/-- **The day of the text** is that of the bound, or the one after it where the bound slips. -/
theorem isoDay_eq {b : Double} (h : InRange b) :
    isoDay b = if Slips b then utcDay b + 1 else utcDay b := by
  obtain ⟨hstart, hend⟩ := millis_bounds h
  unfold isoDay
  rw [epochMs_eq h]
  unfold trunc
  rcases le_or_gt 0 b.value with hb | hb
  · have hlt := millis_lt h hb
    have hday : 0 ≤ utcDay b := Int.floor_nonneg.mpr (div_nonneg hb (by norm_num))
    have hpos : 0 ≤ millis b := by
      have hday : (0 : ℚ) ≤ utcDay b := by exact_mod_cast hday
      linarith
    have hslip : ¬ Slips b := fun h => absurd h.1 (not_lt.mpr hb)
    have hlow : utcDay b * 86400000 ≤ ⌊millis b⌋ := Int.le_floor.mpr (by push_cast; exact hstart)
    have hhigh : ⌊millis b⌋ < (utcDay b + 1) * 86400000 :=
      Int.floor_lt.mpr (by push_cast; exact hlt)
    rw [if_pos hpos, if_neg hslip]
    omega
  · have hday : utcDay b + 1 ≤ 0 := by
      have hlt : utcDay b < 0 := Int.floor_lt.mpr (by
        push_cast
        exact div_neg_of_neg_of_pos hb (by norm_num))
      omega
    have hnonpos : millis b ≤ 0 := by
      have hday : (utcDay b : ℚ) + 1 ≤ 0 := by exact_mod_cast hday
      linarith
    have hceil : (if 0 ≤ millis b then ⌊millis b⌋ else ⌈millis b⌉) = ⌈millis b⌉ := by
      split
      · next hpos =>
          rw [le_antisymm hnonpos hpos]
          rfl
      · rfl
    have hlow : utcDay b * 86400000 ≤ ⌈millis b⌉ := by
      have hle : ((utcDay b * 86400000 : ℤ) : ℚ) ≤ ⌈millis b⌉ := by
        push_cast
        exact hstart.trans (Int.le_ceil _)
      exact_mod_cast hle
    have hhigh : ⌈millis b⌉ ≤ (utcDay b + 1) * 86400000 :=
      Int.ceil_le.mpr (by push_cast; exact hend)
    have hslip : Slips b ↔ (utcDay b + 1) * 86400000 - 1 < ⌈millis b⌉ := by
      rw [Int.lt_ceil]
      exact and_iff_right hb
    rw [hceil]
    by_cases hs : Slips b
    · rw [if_pos hs]
      rw [hslip] at hs
      omega
    · rw [if_neg hs]
      rw [hslip] at hs
      omega

end Stackhour.Tracker.Exact
