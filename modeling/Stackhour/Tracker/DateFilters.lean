import Stackhour.Core.CivilDates
import Stackhour.Tracker.Ranges

/-!
# What the date filters select

Which bounds `parse_time` accepts, and when export and prune select by time with them: a
bound in a year of five digits, an absent one, and one in the last millisecond of a day
before 1970 may not.
-/

namespace Stackhour.Tracker.Exact

open Binary64 (Double)
open Core.Timeparse

/-! ## Accepted bounds -/

theorem daysFromCivil_bound {y m d : ℤ} (hy : 0 ≤ y ∧ y < 10000) (hm : 1 ≤ m ∧ m ≤ 12)
    (hd : 1 ≤ d ∧ d < 100) : |daysFromCivil y m d| ≤ 4000000 := by
  unfold daysFromCivil
  dsimp only
  rw [tdiv_400, abs_le]
  have hyear : -1 ≤ (if m ≤ 2 then y - 1 else y) ∧ (if m ≤ 2 then y - 1 else y) < 10000 := by
    split <;> omega
  have hmonth : 0 ≤ (if 2 < m then m - 3 else m + 9) ∧ (if 2 < m then m - 3 else m + 9) ≤ 11 := by
    split <;> omega
  generalize (if m ≤ 2 then y - 1 else y) = y at hyear
  generalize (if 2 < m then m - 3 else m + 9) = mp at hmonth
  omega

theorem parseBareDateDays_bound {s : String} {days : ℤ} (h : parseBareDateDays s = some days) :
    |days| ≤ 4000000 := by
  unfold parseBareDateDays at h
  simp only [Option.bind_eq_bind, Option.bind_eq_some_iff, Prod.exists] at h
  obtain ⟨year, cs, hyear, cs, -, month, cs, hmonth, cs, -, day, cs, hday, h⟩ := h
  obtain ⟨y, hy, rfl, -⟩ := readDigits_eq hyear
  obtain ⟨d, hd, rfl, -⟩ := readDigits_eq hday
  split at h
  · cases h
  · next hok =>
      obtain rfl := Option.some.inj h
      push Not at hok
      exact daysFromCivil_bound (by omega) (by omega) (by omega)

theorem dateParseSubsetMs_bound {rd : Readers} {s : String} {ms : Double}
    (h : dateParseSubsetMs rd s = some ms) : |ms.value| ≤ MAX_DATE_MS := by
  unfold dateParseSubsetMs at h
  cases hbare : parseBareDateDays s with
  | some days =>
      rw [hbare] at h
      obtain rfl := Option.some.inj h
      have hdays := abs_le.mp (parseBareDateDays_bound hbare)
      have hround := Binary64.round_int (n := days * 86400000) (by rw [abs_lt]; omega)
      have hsmall : |days * 86400000| ≤ MAX_DATE_MS := by
        rw [abs_le]
        unfold MAX_DATE_MS
        omega
      push_cast at hround
      rw [hround]
      have hcast : ((|days * 86400000| : ℤ) : ℚ) ≤ (MAX_DATE_MS : ℤ) := Int.cast_le.mpr hsmall
      push_cast at hcast
      exact hcast
  | none =>
      rw [hbare] at h
      dsimp only at h
      cases hread : rd.rfc3339 s with
      | none =>
          rw [hread] at h
          cases h
      | some n =>
          rw [hread] at h
          dsimp only at h
          split at h
          · cases h
          · next hle =>
              obtain rfl := Option.some.inj h
              exact not_lt.mp hle

/-- What `parse_time` accepts is within the range of a date. -/
theorem parseTime_inRange {rd : Readers} {v : Option String} {name : String} {b : Double}
    (h : parseTime rd v name = .ok (some b)) : InRange b := by
  unfold parseTime at h
  split at h
  · cases h
  · next s _ =>
      split at h
      · next numeric hnumber =>
          obtain rfl := Option.some.inj (Except.ok.inj h)
          have hrange := of_decide_eq_true (Option.mem_filter_iff.mp hnumber).2
          exact abs_le.mpr ⟨le_trans (by norm_num [MAX_VERBATIM_SECONDS]) hrange.1, hrange.2⟩
      · split at h
        · next ms hms =>
            obtain rfl := Option.some.inj (Except.ok.inj h)
            obtain ⟨hlow, hhigh⟩ := abs_le.mp (dateParseSubsetMs_bound hms)
            have hvalue : (MAX_DATE_MS : ℚ) = MAX_VERBATIM_SECONDS * 1000 := by
              norm_num [MAX_DATE_MS, MAX_VERBATIM_SECONDS]
            rw [hvalue] at hlow hhigh
            have hmax := Binary64.round_int (n := MAX_VERBATIM_SECONDS) (by decide)
            have hmin := Binary64.round_int (n := -MAX_VERBATIM_SECONDS) (by decide)
            push_cast at hmin
            refine abs_le.mpr ⟨?_, ?_⟩
            · rw [← hmin]
              exact Binary64.round_mono (by linarith)
            · rw [← hmax]
              exact Binary64.round_mono (by linarith)
        · cases h

/-! ## Selection by time -/

/-- Neither bound excludes a time; an absent one excludes nothing. -/
def InTime (fromBound toBound : Option Double) (t : ℚ) : Prop :=
  (∀ f ∈ fromBound, f.value ≤ t) ∧ ∀ u ∈ toBound, t ≤ u.value

/-- Neither bound excludes a day. -/
def InDays (fromBound toBound : Option Double) (n : ℤ) : Prop :=
  (∀ f ∈ fromBound, utcDay f ≤ n) ∧ ∀ u ∈ toBound, n ≤ utcDay u

/-- Prune keeps what is not before the bound. -/
structure PrunesByTime (db : Stored) (before : Double) : Prop where
  heartbeats : ∀ r, r ∈ (deleteDays before (deleteHeartbeats before db)).heartbeats.rows ↔
    r ∈ db.heartbeats.rows ∧ ¬ r.time < before.value
  days : ∀ d ∈ db.days, ∀ c : CivilDate, d.date = c.text →
    (d ∈ (deleteDays before (deleteHeartbeats before db)).days ↔ ¬ c.number < utcDay before)

/-- Export writes what is in the range, and refuses only a range that ends before it begins. -/
def ExportsByTime (db : Stored) (fromBound toBound : Option Double) : Prop :=
  match exported db fromBound toBound with
  | .error _ => ∃ f ∈ fromBound, ∃ u ∈ toBound, u.value < f.value
  | .ok (rows, days) =>
      (∀ r, r ∈ rows ↔ r ∈ db.heartbeats.rows ∧ InTime fromBound toBound r.time) ∧
        ∀ d ∈ db.days, ∀ c : CivilDate, d.date = c.text →
          (d ∈ days ↔ InDays fromBound toBound c.number)

/-- No day is imported that the text of the bound is not after, though the bound is: the bound
has a year of four digits, and does not slip over the day. -/
def PruneReads (db : Stored) (before : Double) : Prop :=
  ∀ d ∈ db.days, ∀ c : CivilDate, d.date = c.text →
    utcDay before < signedFrom ∧ ¬ (Slips before ∧ c.number = utcDay before)

/-- The day is on the wrong side of the text of a bound. -/
def Misfiled (fromBound toBound : Option Double) (n : ℤ) : Prop :=
  (fromBound = none ∧ n < 0 ∧ InDays fromBound toBound n) ∨
    (∃ f ∈ fromBound, toBound = none ∧ signedFrom ≤ utcDay f) ∨
    (∃ u ∈ toBound, signedFrom ≤ utcDay u ∧ InDays fromBound toBound n) ∨
    (∃ f ∈ fromBound, Slips f ∧ n = utcDay f) ∨
    ∃ u ∈ toBound, Slips u ∧ n = utcDay u + 1

/-- The range is refused rightly, or nothing is in it that an absent bound excludes, and no day
is misfiled. -/
def ExportReads (db : Stored) (fromBound toBound : Option Double) : Prop :=
  (∃ f ∈ fromBound, ∃ u ∈ toBound, u.value < f.value) ∨
    ((fromBound = none → ∀ u ∈ toBound, 0 ≤ u.value) ∧
      (∀ r ∈ db.heartbeats.rows, InTime fromBound toBound r.time →
        (fromBound = none → 0 ≤ r.time) ∧ (toBound = none → r.time ≤ MAX_SAFE_INTEGER.value)) ∧
      ∀ d ∈ db.days, ∀ c : CivilDate, d.date = c.text → ¬ Misfiled fromBound toBound c.number)

theorem Slips.day_neg {b : Double} (h : Slips b) : utcDay b < 0 := by
  refine Int.floor_lt.mpr ?_
  push_cast
  exact div_neg_of_neg_of_pos h.1 (by norm_num)

theorem mem_kept_days (db : Stored) {before : Double} {d : WakatimeDay} (hd : d ∈ db.days)
    {c : CivilDate} (hdate : d.date = c.text) :
    d ∈ (deleteDays before (deleteHeartbeats before db)).days ↔
      ¬ (c.number < isoDay before ∧ isoDay before < signedFrom) := by
  show d ∈ db.days.filter (fun d => !oldDay before d) ↔ _
  rw [List.mem_filter, and_iff_right hd, Bool.not_eq_true', oldDay, decide_eq_false_iff_not, hdate,
    text_lt_iso]

theorem prunesByTime_iff {db : Stored} {before : Double} (h : InRange before) :
    PrunesByTime db before ↔ PruneReads db before := by
  have hiso := isoDay_eq h
  have hsign := signedFrom_eq
  constructor
  · intro hprunes d hd c hdate
    have hday := (mem_kept_days db hd hdate).symm.trans (hprunes.days d hd c hdate)
    obtain ⟨hlow, hhigh⟩ := c.number_range
    by_cases hs : Slips before
    · have hneg := hs.day_neg
      rw [hiso, if_pos hs] at hday
      exact ⟨by omega, fun h => by omega⟩
    · rw [hiso, if_neg hs] at hday
      exact ⟨by omega, fun h => hs h.1⟩
  · intro hreads
    constructor
    · intro r
      show r ∈ db.heartbeats.rows.filter (fun r => !oldHeartbeat before r) ↔ _
      rw [List.mem_filter, Bool.not_eq_true', oldHeartbeat, decide_eq_false_iff_not]
    · intro d hd c hdate
      obtain ⟨hsigned, hslip⟩ := hreads d hd c hdate
      rw [mem_kept_days db hd hdate, hiso]
      by_cases hs : Slips before
      · have hother : c.number ≠ utcDay before := fun h => hslip ⟨hs, h⟩
        have hneg := hs.day_neg
        rw [if_pos hs]
        omega
      · rw [if_neg hs]
        omega

/-! ### Export -/

theorem utcDay_mono {f u : Double} (h : f.value ≤ u.value) : utcDay f ≤ utcDay u :=
  Int.floor_le_floor (div_le_div_of_nonneg_right h (by norm_num))

theorem iso_le_text (c : CivilDate) (b : Double) :
    isoDateUtc b ≤ c.text ↔ ¬ (c.number < isoDay b ∧ isoDay b < signedFrom) := by
  rw [← text_lt_iso, String.not_lt]

theorem text_le_iso (c : CivilDate) (b : Double) :
    c.text ≤ isoDateUtc b ↔ ¬ (isoDay b < c.number ∨ signedFrom ≤ isoDay b) := by
  rw [← iso_lt_text, String.not_lt]

def lastDate : CivilDate := ⟨9999, 12, 31, by decide, by decide⟩

/-- The last date is not before any other. -/
theorem text_le_last (c : CivilDate) : c.text ≤ "9999-12-31" := by
  have hlast : lastDate.text = "9999-12-31" := by decide
  have hnumber : lastDate.number = signedFrom - 1 := by decide
  obtain ⟨-, hhigh⟩ := c.number_range
  rw [← hlast, ← String.not_lt, CivilDate.text_lt_text, hnumber]
  omega

/-- `fromDate <= date`, by number. -/
def PassesFrom (n : ℤ) : Option Double → Prop
  | none => 0 ≤ n
  | some f => ¬ (n < isoDay f ∧ isoDay f < signedFrom)

/-- `date <= toDate`, by number. -/
def PassesTo (n : ℤ) : Option Double → Prop
  | none => True
  | some u => n ≤ isoDay u ∧ isoDay u < signedFrom

/-- The tests of a day are those of time unless it is misfiled. -/
theorem passes_iff {fromBound toBound : Option Double} (hfrom : ∀ f ∈ fromBound, InRange f)
    (hto : ∀ u ∈ toBound, InRange u) (horder : ∀ f ∈ fromBound, ∀ u ∈ toBound, f.value ≤ u.value)
    (hopen : fromBound = none → ∀ u ∈ toBound, 0 ≤ u.value) (c : CivilDate) :
    ((PassesFrom c.number fromBound ∧ PassesTo c.number toBound) ↔
      InDays fromBound toBound c.number) ↔ ¬ Misfiled fromBound toBound c.number := by
  obtain ⟨hlow, hhigh⟩ := c.number_range
  have hsign := signedFrom_eq
  generalize c.number = n at hlow hhigh
  unfold Misfiled InDays
  cases fromBound with
  | none =>
      cases toBound with
      | none => simp [PassesFrom, PassesTo]
      | some u =>
          have hu := isoDay_eq (hto u rfl)
          have hpos : ¬ Slips u := fun h => absurd h.1 (not_lt.mpr (hopen rfl u rfl))
          rw [if_neg hpos] at hu
          simp [PassesFrom, PassesTo, hpos, hu]
          omega
  | some f =>
      have hf := isoDay_eq (hfrom f rfl)
      cases toBound with
      | none =>
          by_cases hs : Slips f
          · have hneg := hs.day_neg
            rw [if_pos hs] at hf
            simp [PassesFrom, PassesTo, hs, hf]
            omega
          · rw [if_neg hs] at hf
            simp [PassesFrom, PassesTo, hs, hf]
            omega
      | some u =>
          have hu := isoDay_eq (hto u rfl)
          have hle := utcDay_mono (horder f rfl u rfl)
          by_cases hs : Slips f
          · have hneg := hs.day_neg
            rw [if_pos hs] at hf
            by_cases hsu : Slips u
            · have hneg' := hsu.day_neg
              rw [if_pos hsu] at hu
              simp [PassesFrom, PassesTo, hs, hsu, hf, hu]
              omega
            · rw [if_neg hsu] at hu
              simp [PassesFrom, PassesTo, hs, hsu, hf, hu]
              omega
          · rw [if_neg hs] at hf
            by_cases hsu : Slips u
            · have hneg' := hsu.day_neg
              rw [if_pos hsu] at hu
              simp [PassesFrom, PassesTo, hs, hsu, hf, hu]
              omega
            · rw [if_neg hsu] at hu
              simp [PassesFrom, PassesTo, hs, hsu, hf, hu]
              omega

theorem zero_value : (Binary64.round 0).value = 0 := by
  have hround := Binary64.round_int (n := 0) (by decide)
  push_cast at hround
  exact hround

theorem safeInteger_value : MAX_SAFE_INTEGER.value = 9007199254740991 := by
  have hround := Binary64.round_int (n := 9007199254740991) (by decide)
  push_cast at hround
  exact hround

theorem isoDay_zero : isoDay (Binary64.round 0) = 0 := by
  have hrange : InRange (Binary64.round 0) := by
    rw [InRange, zero_value, abs_zero]
    norm_num [MAX_VERBATIM_SECONDS]
  have hslip : ¬ Slips (Binary64.round 0) := fun h => absurd h.1 (by rw [zero_value]; exact lt_irrefl 0)
  rw [isoDay_eq hrange, if_neg hslip, utcDay, zero_value, zero_div]
  rfl

theorem InRange.lt_safeInteger {b : Double} (h : InRange b) : b.value < MAX_SAFE_INTEGER.value := by
  have hle := (abs_le.mp h).2
  rw [safeInteger_value]
  refine hle.trans_lt ?_
  norm_num [MAX_VERBATIM_SECONDS]

theorem mem_exported_days {db : Stored} {fromBound toBound : Option Double}
    (hto : ∀ u ∈ toBound, InRange u) {rows : List Heartbeat} {days : List WakatimeDay}
    (h : exported db fromBound toBound = .ok (rows, days)) {d : WakatimeDay} (hd : d ∈ db.days)
    {c : CivilDate} (hdate : d.date = c.text) :
    d ∈ days ↔ PassesFrom c.number fromBound ∧ PassesTo c.number toBound := by
  obtain ⟨hlow, hhigh⟩ := c.number_range
  have hsign := signedFrom_eq
  unfold exported at h
  dsimp only at h
  split at h
  · cases h
  · obtain ⟨-, rfl⟩ := Prod.mk.inj (Except.ok.inj h)
    rw [List.mem_mergeSort, List.mem_filter, and_iff_right hd, dayInRange, decide_eq_true_eq, hdate]
    refine and_congr ?_ ?_
    · rw [iso_le_text]
      cases fromBound with
      | none =>
          show ¬ (c.number < isoDay (Binary64.round 0) ∧ isoDay (Binary64.round 0) < signedFrom) ↔
            0 ≤ c.number
          rw [isoDay_zero]
          omega
      | some f => exact Iff.rfl
    · cases toBound with
      | none =>
          rw [Option.getD_none, if_pos rfl]
          exact iff_of_true (text_le_last c) trivial
      | some u =>
          have hne : u.value ≠ MAX_SAFE_INTEGER.value := (hto u rfl).lt_safeInteger.ne
          rw [Option.getD_some, if_neg hne, text_le_iso]
          show _ ↔ c.number ≤ isoDay u ∧ isoDay u < signedFrom
          omega

/-- Which bounds are refused. -/
theorem reversed_iff {fromBound toBound : Option Double} (hfrom : ∀ f ∈ fromBound, InRange f) :
    (toBound.getD MAX_SAFE_INTEGER).value < (fromBound.getD (Binary64.round 0)).value ↔
      (∃ f ∈ fromBound, ∃ u ∈ toBound, u.value < f.value) ∨
        (fromBound = none ∧ ∃ u ∈ toBound, u.value < 0) := by
  have hsafe := safeInteger_value
  cases fromBound with
  | none =>
      cases toBound with
      | none => simp [zero_value, hsafe]
      | some u => simp [zero_value]
  | some f =>
      have hlt := (hfrom f rfl).lt_safeInteger
      cases toBound with
      | none => simp [hlt.le]
      | some u => simp

/-- The test of a heartbeat is that of time where no absent bound excludes it. -/
theorem inRange_iff {fromBound toBound : Option Double} (t : ℚ) :
    ((fromBound.getD (Binary64.round 0)).value ≤ t ∧ t ≤ (toBound.getD MAX_SAFE_INTEGER).value) ↔
      InTime fromBound toBound t ∧ (fromBound = none → 0 ≤ t) ∧
        (toBound = none → t ≤ MAX_SAFE_INTEGER.value) := by
  unfold InTime
  cases fromBound with
  | none => cases toBound <;> simp [zero_value, and_comm]
  | some f => cases toBound <;> simp

theorem exportsByTime_iff {db : Stored} {fromBound toBound : Option Double}
    (hfrom : ∀ f ∈ fromBound, InRange f) (hto : ∀ u ∈ toBound, InRange u) :
    ExportsByTime db fromBound toBound ↔ ExportReads db fromBound toBound := by
  by_cases hrefused : ∃ f ∈ fromBound, ∃ u ∈ toBound, u.value < f.value
  · have herror : exported db fromBound toBound = .error "from must not be after to" :=
      if_pos ((reversed_iff hfrom).mpr (.inl hrefused))
    unfold ExportsByTime
    rw [herror]
    exact iff_of_true hrefused (.inl hrefused)
  · have horder : ∀ f ∈ fromBound, ∀ u ∈ toBound, f.value ≤ u.value :=
      fun f hf u hu => not_lt.mp fun hlt => hrefused ⟨f, hf, u, hu, hlt⟩
    unfold ExportReads
    rw [or_iff_right hrefused]
    by_cases hopen : fromBound = none → ∀ u ∈ toBound, 0 ≤ u.value
    · have hnot : ¬ (toBound.getD MAX_SAFE_INTEGER).value <
          (fromBound.getD (Binary64.round 0)).value := by
        rw [reversed_iff hfrom, not_or]
        exact ⟨hrefused, fun ⟨hnone, u, hu, hlt⟩ => absurd (hopen hnone u hu) (not_le.mpr hlt)⟩
      obtain ⟨days, hok⟩ : ∃ days, exported db fromBound toBound = .ok
          (rowsInRange db.heartbeats (fromBound.getD (Binary64.round 0)).value
            (toBound.getD MAX_SAFE_INTEGER).value, days) := ⟨_, if_neg hnot⟩
      unfold ExportsByTime
      rw [hok, and_iff_right hopen]
      refine and_congr ?_ ?_
      · simp only [Table.mem_rowsInRange, inRange_iff]
        constructor
        · exact fun h r hr htime => ((h r).mpr ⟨hr, htime⟩).2.2
        · exact fun h r => ⟨fun hin => ⟨hin.1, hin.2.1⟩, fun hin => ⟨hin.1, hin.2, h r hin.1 hin.2⟩⟩
      · refine forall_congr' fun d => forall_congr' fun hd => forall_congr' fun c =>
          forall_congr' fun hdate => ?_
        rw [mem_exported_days hto hok hd hdate]
        exact passes_iff hfrom hto horder hopen c
    · -- the range begins in 1970, and ends before
      have hnegative : fromBound = none ∧ ∃ u ∈ toBound, u.value < 0 := by
        push Not at hopen
        exact hopen
      have herror : exported db fromBound toBound = .error "from must not be after to" :=
        if_pos ((reversed_iff hfrom).mpr (.inr hnegative))
      unfold ExportsByTime
      rw [herror]
      exact iff_of_false hrefused fun h => hopen h.1

/-- **The filters select by time** exactly when every bound is read as it is meant: it is given,
has a year of four digits and does not slip over a midnight, as far as rows tell. -/
theorem date_filters_by_time (rd : Readers) (db : Stored) {beforeText fromText toText : Option String}
    {before : Double} {fromBound toBound : Option Double}
    (hbefore : parseTime rd beforeText "before" = .ok (some before))
    (hfrom : parseTime rd fromText "from" = .ok fromBound)
    (hto : parseTime rd toText "to" = .ok toBound) :
    (PrunesByTime db before ↔ PruneReads db before) ∧
      (ExportsByTime db fromBound toBound ↔ ExportReads db fromBound toBound) := by
  refine ⟨prunesByTime_iff (parseTime_inRange hbefore), exportsByTime_iff ?_ ?_⟩
  · rintro f rfl
    exact parseTime_inRange hfrom
  · rintro u rfl
    exact parseTime_inRange hto

/-- Readers that know one number and no instant. -/
def oneNumber (text : String) (n : ℤ) : Readers :=
  ⟨fun s => if s = text then some (Binary64.round n) else none, fun _ => none⟩

/-- A range of two days, and a bound between them. -/
theorem date_filters_by_time_sample : ∃ before fromBound toBound,
    parseTime (oneNumber "0" 0) (some "2026-07-19") "before" = .ok (some before) ∧
      parseTime (oneNumber "0" 0) (some "2026-07-18") "from" = .ok fromBound ∧
      parseTime (oneNumber "0" 0) none "to" = .ok toBound ∧
      (PrunesByTime ⟨⟨[], List.Pairwise.nil⟩, []⟩ before ↔
        PruneReads ⟨⟨[], List.Pairwise.nil⟩, []⟩ before) ∧
      (ExportsByTime ⟨⟨[], List.Pairwise.nil⟩, []⟩ fromBound toBound ↔
        ExportReads ⟨⟨[], List.Pairwise.nil⟩, []⟩ fromBound toBound) :=
  ⟨_, _, none, rfl, rfl, rfl,
    @date_filters_by_time (oneNumber "0" 0) _ (some "2026-07-19") (some "2026-07-18") none _ _ _ rfl
      rfl rfl⟩

/-- Milliseconds are taken for seconds, and no day is deleted. -/
theorem milliseconds_keep_days : ¬ ∀ (rd : Readers) (db : Stored) (beforeText : Option String)
    (before : Double), parseTime rd beforeText "before" = .ok (some before) →
      PrunesByTime db before := by
  intro h
  have hvalue := Binary64.round_int (n := 1700000000000) (by decide)
  have hparse : parseTime (oneNumber "1700000000000" 1700000000000) (some "1700000000000") "before" =
      .ok (some (Binary64.round (1700000000000 : ℤ))) := by
    have hrange : decide (0 ≤ (Binary64.round (1700000000000 : ℤ)).value ∧
        (Binary64.round (1700000000000 : ℤ)).value ≤ (MAX_VERBATIM_SECONDS : ℚ)) = true := by
      rw [hvalue]
      norm_num [MAX_VERBATIM_SECONDS]
    have hread : ((oneNumber "1700000000000" 1700000000000).number "1700000000000").filter
        (fun n => decide (0 ≤ n.value ∧ n.value ≤ (MAX_VERBATIM_SECONDS : ℚ))) =
          some (Binary64.round (1700000000000 : ℤ)) := if_pos hrange
    have htext : Option.filter (fun s => s != "") (some "1700000000000") = some "1700000000000" :=
      rfl
    unfold parseTime
    rw [htext]
    dsimp only
    rw [hread]
  have hprunes := h _ ⟨⟨[], List.Pairwise.nil⟩, [⟨"2020-01-01", "p", 1⟩]⟩ _ _ hparse
  rw [prunesByTime_iff (parseTime_inRange hparse)] at hprunes
  have hdate := hprunes ⟨"2020-01-01", "p", 1⟩ List.mem_cons_self ⟨2020, 1, 1, by decide, by decide⟩
    (by decide)
  have hday : utcDay (Binary64.round (1700000000000 : ℤ)) = 19675925 := by
    rw [utcDay, hvalue]
    norm_num
  rw [hday, signedFrom_eq] at hdate
  exact absurd hdate.1 (by decide)

end Stackhour.Tracker.Exact
