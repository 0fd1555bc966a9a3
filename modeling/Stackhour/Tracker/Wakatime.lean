import Stackhour.Core.CivilDates
import Stackhour.Tracker.Ranges

/-!
# The days of a WakaTime import

`chunk_ranges` asks for the days in chunks of thirty, from the newest. The chunks tile the days
while the dates have years of four digits, and unless an instant before 1970 is in the last
millisecond of its day.
-/

namespace Stackhour.Tracker.Exact

open Binary64 (Double ofInt)
open Core.Timeparse Domain

/-- The two UTC calendar dates of a query; both are included. -/
structure Chunk where
  start : String
  last : String
deriving DecidableEq

def DAY_MS : Double := ofInt 86400000

/-- The loop of `chunk_ranges`; none when it goes on. -/
def chunkRangesFrom (nowMs days : Double) : ℕ → Double → Option (List Chunk)
  | 0, _ => none
  | fuel + 1, offset =>
      if offset.value < days.value then
        let chunkEndMs := nowMs - offset * DAY_MS
        let back := (offset + ofInt 29).min (days - ofInt 1)
        let chunkStartMs := nowMs - back * DAY_MS
        (chunkRangesFrom nowMs days fuel (offset + ofInt 30)).map
          (⟨isoDateUtc (chunkStartMs / ofInt 1000), isoDateUtc (chunkEndMs / ofInt 1000)⟩ :: ·)
      else some []

/-- `chunk_ranges`. -/
def chunkRanges (fuel : ℕ) (nowMs days : Double) : Option (List Chunk) :=
  chunkRangesFrom nowMs days fuel (ofInt 0)

/-! ## Tilings -/

/-- Ranges of whole numbers, from the last one: both ends are included, none is longer than
`size`, each begins where the next ends, and together they are the numbers from `first` on up to
`last`. -/
structure Tiles (size first last : ℤ) (ranges : List (ℤ × ℤ)) : Prop where
  sized : ∀ r ∈ ranges, r.1 ≤ r.2 ∧ r.2 - r.1 + 1 ≤ size
  contiguous : ranges.IsChain (fun later earlier => earlier.2 + 1 = later.1)
  disjoint : ranges.Pairwise (fun later earlier => earlier.2 < later.1)
  covers : ∀ n, (∃ r ∈ ranges, r.1 ≤ n ∧ n ≤ r.2) ↔ first ≤ n ∧ n ≤ last
  ends : ∀ r ∈ ranges.head?, r.2 = last

theorem Tiles.nil {size first last : ℤ} (h : last < first) : Tiles size first last [] := by
  refine ⟨nofun, .nil, .nil, fun n => ?_, nofun⟩
  constructor
  · rintro ⟨r, hr, -⟩
    cases hr
  · rintro ⟨hfirst, hlast⟩
    omega

theorem Tiles.cons {size first start last : ℤ} {ranges : List (ℤ × ℤ)}
    (h : Tiles size first (start - 1) ranges) (hfirst : first ≤ start) (hstart : start ≤ last)
    (hsize : last - start + 1 ≤ size) : Tiles size first last ((start, last) :: ranges) := by
  refine ⟨?_, ?_, ?_, fun n => ?_, ?_⟩
  · intro r hr
    rcases List.mem_cons.mp hr with rfl | hr
    · exact ⟨hstart, hsize⟩
    · exact h.sized r hr
  · refine List.isChain_cons.mpr ⟨fun r hr => ?_, h.contiguous⟩
    rw [h.ends r hr]
    omega
  · refine List.pairwise_cons.mpr ⟨fun r hr => ?_, h.disjoint⟩
    obtain ⟨hle, -⟩ := h.sized r hr
    have hlast := (h.covers r.2).mp ⟨r, hr, hle, le_refl _⟩
    omega
  · rw [List.exists_mem_cons_iff, h.covers n]
    omega
  · rintro r hr
    obtain rfl := Option.some.inj hr
    rfl

theorem Tiles.eq_nil {size first last : ℤ} {ranges : List (ℤ × ℤ)}
    (h : Tiles size first last ranges) (hlast : last < first) : ranges = [] := by
  refine List.eq_nil_iff_forall_not_mem.mpr fun r hr => ?_
  obtain ⟨hle, -⟩ := h.sized r hr
  have hbounds := (h.covers r.1).mp ⟨r, hr, le_refl _, hle⟩
  omega

/-! ## The date of an instant -/

/-- The seconds of an instant, as `iso_date_utc` takes them. -/
def seconds (ms : ℤ) : Double := ofInt ms / ofInt 1000

theorem seconds_value (ms : ℤ) (h : |ms| < 2 ^ 53) :
    seconds ms = Binary64.round ((ms : ℚ) / 1000) := by
  unfold seconds
  show Binary64.round ((ofInt ms).value / (ofInt 1000).value) = _
  rw [Binary64.ofInt_value h, Binary64.ofInt_value (by decide)]
  rfl

theorem seconds_close {ms : ℤ} (h : |ms| ≤ 300000000000000) :
    |(ms : ℚ) / 1000 - (seconds ms).value| ≤ 1 / 2048 := by
  obtain ⟨hlow, hhigh⟩ := abs_le.mp h
  have hlow : (-300000000000000 : ℚ) ≤ ms := by exact_mod_cast hlow
  have hhigh : (ms : ℚ) ≤ 300000000000000 := by exact_mod_cast hhigh
  rw [seconds_value ms (by omega)]
  have hclose := Binary64.round_close (q := (ms : ℚ) / 1000) (e := -10) (by norm_num) (by
    rw [abs_lt]
    constructor <;> norm_num <;> linarith)
  norm_num at hclose ⊢
  exact hclose

theorem utcDay_seconds {ms : ℤ} (h : |ms| ≤ 300000000000000) :
    utcDay (seconds ms) = ms / 86400000 := by
  obtain ⟨hlow, hhigh⟩ := abs_le.mp h
  obtain ⟨-, hclose⟩ := abs_le.mp (seconds_close h)
  obtain ⟨hclose', -⟩ := abs_le.mp (seconds_close h)
  generalize hday : ms / 86400000 = day
  have hstart : day * 86400000 ≤ ms := by omega
  have hend : ms ≤ (day + 1) * 86400000 - 1 := by omega
  have hstart' : (day : ℚ) * 86400000 ≤ ms := by exact_mod_cast hstart
  have hend' : (ms : ℚ) ≤ (day + 1) * 86400000 - 1 := by exact_mod_cast hend
  -- the midnight before is a value, so rounding stays behind it
  have hmidnight := Binary64.round_int (n := day * 86400) (by rw [abs_lt]; omega)
  have hmono := Binary64.round_mono (p := ((day * 86400 : ℤ) : ℚ)) (q := (ms : ℚ) / 1000) (by
    push_cast
    linarith)
  rw [hmidnight, ← seconds_value ms (by omega)] at hmono
  push_cast at hmono
  unfold utcDay
  rw [Int.floor_eq_iff]
  constructor
  · linarith
  · linarith

/-- An instant is in the range of dates, and slips at most from the last millisecond of a day. -/
theorem seconds_slips {ms : ℤ} (h : |ms| ≤ 300000000000000)
    (hlast : ms % 86400000 ≠ 86399999 ∨ 0 ≤ ms) :
    InRange (seconds ms) ∧ ¬ Slips (seconds ms) := by
  obtain ⟨hlow, hhigh⟩ := abs_le.mp h
  have hlow' : (-300000000000000 : ℚ) ≤ ms := by exact_mod_cast hlow
  have hhigh' : (ms : ℚ) ≤ 300000000000000 := by exact_mod_cast hhigh
  obtain ⟨hclose, hclose'⟩ := abs_le.mp (seconds_close h)
  constructor
  · unfold InRange MAX_VERBATIM_SECONDS
    push_cast
    rw [abs_le]
    constructor <;> linarith
  · rintro ⟨hneg, hslip⟩
    have hbefore : ms < 0 := by
      by_contra hpos
      have hpos : (0 : ℚ) ≤ ms := by exact_mod_cast not_lt.mp hpos
      have hzero := Binary64.round_mono (p := 0) (q := (ms : ℚ) / 1000) (by linarith)
      have hround : (Binary64.round 0).value = 0 := by
        exact_mod_cast Binary64.round_int (n := 0) (by decide)
      rw [hround, ← seconds_value ms (by omega)] at hzero
      linarith
    rw [utcDay_seconds h] at hslip
    have hend : ms ≤ (ms / 86400000 + 1) * 86400000 - 2 := by omega
    have hend' : (ms : ℚ) ≤ ((ms / 86400000 + 1) * 86400000 - 1 : ℤ) - 1 := by
      exact_mod_cast (by omega : ms ≤ (ms / 86400000 + 1) * 86400000 - 1 - 1)
    have hvalue := Binary64.round_int (n := (ms / 86400000 + 1) * 86400000 - 1) (by
      rw [abs_lt]
      omega)
    have hmono := Binary64.round_mono (p := (seconds ms).value * 1000)
      (q := ((ms / 86400000 + 1) * 86400000 - 1 : ℤ)) (by linarith)
    rw [hvalue] at hmono
    exact absurd hslip (not_lt.mpr hmono)

/-- **The text of an instant is its date**, but for the last millisecond of a day before 1970. -/
theorem isoDateUtc_seconds {ms : ℤ} (hrange : |ms| ≤ 300000000000000)
    (hfirst : dayOf (0, 1, 1) ≤ ms / 86400000) (hlast : ms / 86400000 < signedFrom)
    (hslip : ms % 86400000 ≠ 86399999 ∨ 0 ≤ ms) :
    ∃ c : CivilDate, isoDateUtc (seconds ms) = c.text ∧ c.number = ms / 86400000 := by
  obtain ⟨hin, hslips⟩ := seconds_slips hrange hslip
  have hday := isoDay_eq hin
  rw [if_neg hslips, utcDay_seconds hrange] at hday
  rcases isoDateUtc_cases (seconds ms) with ⟨c, htext, hnumber, -⟩ | ⟨sign, rest, hsign, -⟩
  · exact ⟨c, htext, hnumber.trans hday⟩
  · omega

/-! ## The chunks -/

/-- The texts of a chunk are the dates of a range of days. -/
def Chunk.Reads (c : Chunk) (r : ℤ × ℤ) : Prop :=
  ∃ start last : CivilDate, c = ⟨start.text, last.text⟩ ∧ r = (start.number, last.number)

/-- The days up to the date of an instant have four digits for the year, and no instant before 1970
is in the last millisecond of its day. -/
structure Dated (now days : ℤ) : Prop where
  first : dayOf (0, 1, 1) ≤ now / 86400000 - days + 1
  last : now / 86400000 < dayOf (10000, 1, 1)
  slip : now % 86400000 ≠ 86399999 ∨ 0 ≤ now / 86400000 - days + 1

/-- The date of an instant some days back. -/
theorem Dated.date {now days : ℤ} (h : Dated now days) {back : ℤ} (hlow : 0 ≤ back)
    (hhigh : back < days) : ∃ c : CivilDate, isoDateUtc (seconds (now - back * 86400000)) = c.text ∧
      c.number = now / 86400000 - back := by
  have hfirst := h.first
  have hlast := h.last
  have hslip := h.slip
  have hzero : dayOf (0, 1, 1) = -719528 := by decide
  have hend := signedFrom_eq
  unfold signedFrom at hend
  have hday : (now - back * 86400000) / 86400000 = now / 86400000 - back := by omega
  rw [← hday]
  refine isoDateUtc_seconds (abs_le.mpr (by omega)) (by omega) (by unfold signedFrom; omega) ?_
  omega

/-- Enough fuel ends the loop, with chunks that tile the days that are left, by induction on the
fuel. -/
theorem chunkRangesFrom_tiles {now days : ℤ} (h : Dated now days) (fuel : ℕ) {offset : ℤ}
    (hoffset : 0 ≤ offset) (hpast : offset ≤ days + 29) (hfuel : days ≤ offset + 30 * fuel) :
    ∃ chunks ranges, chunkRangesFrom (ofInt now) (ofInt days) (fuel + 1) (ofInt offset) =
        some chunks ∧ List.Forall₂ Chunk.Reads chunks ranges ∧
      Tiles 30 (now / 86400000 - days + 1) (now / 86400000 - offset) ranges := by
  have hfirst := h.first
  have hlast := h.last
  have hzero : dayOf (0, 1, 1) = -719528 := by decide
  have hend := signedFrom_eq
  unfold signedFrom at hend
  have hexact : ∀ n : ℤ, -900000000000000 ≤ n → n ≤ 900000000000000 → |n| < 2 ^ 53 := by
    intro n hlow hhigh
    rw [abs_lt]
    omega
  induction fuel generalizing offset with
  | zero =>
      refine ⟨[], [], ?_, .nil, .nil (by omega)⟩
      rw [chunkRangesFrom, if_neg]
      rw [Binary64.ofInt_value (hexact _ (by omega) (by omega)),
        Binary64.ofInt_value (hexact _ (by omega) (by omega)), Int.cast_lt]
      omega
  | succ fuel ih =>
      rw [chunkRangesFrom, Binary64.ofInt_value (hexact _ (by omega) (by omega)),
        Binary64.ofInt_value (hexact _ (by omega) (by omega))]
      by_cases hmore : offset < days
      · rw [if_pos (Int.cast_lt.mpr hmore)]
        dsimp only
        unfold DAY_MS
        rw [Binary64.ofInt_mul (hexact _ (by omega) (by omega)) (hexact _ (by omega) (by omega)),
          Binary64.ofInt_sub (hexact _ (by omega) (by omega)) (hexact _ (by omega) (by omega)),
          Binary64.ofInt_add (hexact _ (by omega) (by omega)) (hexact _ (by omega) (by omega)),
          Binary64.ofInt_sub (hexact _ (by omega) (by omega)) (hexact _ (by omega) (by omega)),
          Binary64.ofInt_min (hexact _ (by omega) (by omega)) (hexact _ (by omega) (by omega)),
          Binary64.ofInt_mul (hexact _ (by omega) (by omega)) (hexact _ (by omega) (by omega)),
          Binary64.ofInt_sub (hexact _ (by omega) (by omega)) (hexact _ (by omega) (by omega)),
          Binary64.ofInt_add (hexact _ (by omega) (by omega)) (hexact _ (by omega) (by omega))]
        obtain ⟨last, hlastText, hlastDay⟩ := h.date hoffset hmore
        obtain ⟨start, hstartText, hstartDay⟩ :=
          @Dated.date _ _ h (min (offset + 29) (days - 1)) (by omega) (by omega)
        obtain ⟨chunks, ranges, hchunks, hreads, htiles⟩ :=
          @ih (offset + 30) (by omega) (by omega) (by push_cast at hfuel; omega)
        refine ⟨⟨start.text, last.text⟩ :: chunks, (start.number, last.number) :: ranges, ?_,
          .cons ⟨start, last, rfl, rfl⟩ hreads, ?_⟩
        · rw [hchunks, ← hlastText, ← hstartText]
          rfl
        · rw [hstartDay, hlastDay]
          refine Tiles.cons ?_ (by omega) (by omega) (by omega)
          by_cases hclamp : offset + 29 ≤ days - 1
          · rw [min_eq_left hclamp]
            have hprevious : now / 86400000 - (offset + 29) - 1 = now / 86400000 - (offset + 30) := by
              omega
            rw [hprevious]
            exact htiles
          · rw [htiles.eq_nil (by omega)]
            exact .nil (by omega)
      · rw [if_neg (by rwa [Int.cast_lt])]
        exact ⟨[], [], rfl, .nil, .nil (by omega)⟩

/-- The loop ends, and its chunks tile the days that end with the date of the instant. -/
def ImportsDays (now days : ℤ) : Prop :=
  ∃ fuel chunks ranges, chunkRanges fuel (ofInt now) (ofInt days) = some chunks ∧
    List.Forall₂ Chunk.Reads chunks ranges ∧
      Tiles 30 (now / 86400000 - days + 1) (now / 86400000) ranges

/-- **The chunks of an import tile its days.** -/
theorem chunk_ranges_tile {now days : ℤ} (hdays : 0 < days) (h : Dated now days) :
    ImportsDays now days := by
  obtain ⟨chunks, ranges, hchunks, hreads, htiles⟩ :=
    @chunkRangesFrom_tiles _ _ h days.toNat 0 (le_refl 0) (by omega) (by omega)
  rw [sub_zero] at htiles
  exact ⟨_, chunks, ranges, hchunks, hreads, htiles⟩

theorem chunk_ranges_tile_year : ImportsDays 1784419200000 365 :=
  chunk_ranges_tile (by decide) ⟨by decide, by decide, by decide⟩

/-- A text of a date is of a year that has four digits. -/
theorem isoDay_of_text {b : Double} {c : CivilDate} (h : isoDateUtc b = c.text) :
    dayOf (0, 1, 1) ≤ isoDay b := by
  rcases isoDateUtc_cases b with ⟨d, -, hnumber, -⟩ | ⟨sign, rest, hsign, hs⟩
  · rw [← hnumber]
    exact d.number_range.1
  · obtain ⟨-, hlt⟩ := c.sign_lt (hsign.imp And.left And.left) hs
    rw [h] at hlt
    exact absurd hlt (String.lt_irrefl _)

/-- A date of the year before the year 0 is cut off. -/
theorem chunk_ranges_cut : ¬ ImportsDays (-62167262400000) 1 := by
  rintro ⟨fuel, chunks, ranges, hchunks, hreads, -⟩
  cases fuel with
  | zero => cases hchunks
  | succ fuel =>
      unfold chunkRanges at hchunks
      rw [chunkRangesFrom, Binary64.ofInt_value (by decide), Binary64.ofInt_value (by decide),
        if_pos (by norm_num)] at hchunks
      obtain ⟨rest, -, rfl⟩ := Option.map_eq_some_iff.mp hchunks
      obtain ⟨r, ranges, ⟨start, last, htext, -⟩, -, rfl⟩ := List.forall₂_cons_left_iff.mp hreads
      have hlast := congrArg Chunk.last htext
      dsimp only at hlast
      unfold DAY_MS at hlast
      rw [Binary64.ofInt_mul (by decide) (by decide), Binary64.ofInt_sub (by decide) (by decide)]
        at hlast
      have hday := isoDay_of_text (b := seconds _) hlast
      obtain ⟨hin, hslips⟩ :=
        @seconds_slips (-62167262400000 - 0 * 86400000) (by decide) (.inl (by decide))
      rw [isoDay_eq hin, if_neg hslips, utcDay_seconds (by decide)] at hday
      exact absurd hday (by decide)

end Stackhour.Tracker.Exact
