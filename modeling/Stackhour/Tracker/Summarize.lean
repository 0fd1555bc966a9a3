import Stackhour.Core.Timeparse
import Stackhour.Lib.Runs
import Stackhour.Tracker.Credits

/-!
# Totals, segments and days

What the read routes make of credited rows: totals by the labels of their fields, the segments
of a timeline, and the totals of the days. All three group the rows and round the seconds of a
group last.
-/

namespace Stackhour.Tracker.Exact

open Core.Timeparse (trunc civilFromDays)
open Domain (fmtYear pad)

/-! ## Values -/

/-- A value of an object, with exact numbers. -/
inductive Cell where
  | number (n : ℚ)
  | text (s : String)
  | texts (ss : List String)
deriving DecidableEq

/-- A JSON object, in the order in which its keys were inserted. -/
structure Object where
  entries : List (String × Cell)
deriving DecidableEq

/-- `Map::insert`. -/
def Object.insert (o : Object) (key : String) (value : Cell) : Object :=
  if o.entries.any (fun e => decide (e.1 = key)) then
    ⟨o.entries.map (fun e => if e.1 = key then (key, value) else e)⟩
  else ⟨o.entries ++ [(key, value)]⟩

/-- `js_round_f64`. -/
def jsRoundF64 (x : ℚ) : ℤ := if 1 / 2 ≤ x - ⌊x⌋ then ⌊x⌋ + 1 else ⌊x⌋

/-- `js_round`; the cast to an `i64` saturates. -/
def jsRound (x : ℚ) : ℤ := max (-2 ^ 63) (min (jsRoundF64 x) (2 ^ 63 - 1))

/-- `round2`. -/
def round2 (x : ℚ) : ℚ := jsRoundF64 (x * 100) / 100

/-! ## Labels -/

/-- `Heartbeat::field`: `none` for a name that is no field, `some none` for NULL. -/
def Heartbeat.field (row : Heartbeat) (name : String) : Option (Option String) :=
  match name with
  | "project" => some (some row.project)
  | "source" => some (some row.source)
  | "machine" => some (some row.machine)
  | "category" => some (some row.category)
  | "language" => some row.language
  | "entity" => some (some row.entity)
  | "actor" => some (some row.actor)
  | "branch" => some row.branch
  | "entity_type" => some (some row.entityType)
  | _ => none

/-- `Heartbeat::field_label`. -/
def Heartbeat.fieldLabel (row : Heartbeat) (name : String) : String :=
  ((row.field name).getD none).getD "unknown"

def labels (row : Heartbeat) (keys : List String) : List String := keys.map row.fieldLabel

/-- The labels of a bucket under their keys. -/
def Object.insertLabels (o : Object) (keys parts : List String) : Object :=
  (keys.zip parts).foldl (fun o e => o.insert e.1 (.text e.2)) o

/-! ## Totals -/

structure Totals where
  seconds : ℚ
  tokens : ℚ
  cost : ℚ

namespace Totals

def zero : Totals := ⟨0, 0, 0⟩

def add (t : Totals) (c : Credited) : Totals :=
  { seconds := t.seconds + c.credit
    tokens := t.tokens + (c.row.tokensIn + c.row.tokensOut)
    cost := t.cost + c.row.cost }

end Totals

/-- The buckets of `totals_by`. -/
def totalsBuckets (rows : List Credited) (keys : List String) : List (List String × Totals) :=
  (Grouping.group (fun c : Credited => labels c.row keys) id rows).map
    (fun b => (b.1, b.2.foldl Totals.add Totals.zero))

/-- The object of a bucket, with its rounded seconds. -/
def totalsValue (keys : List String) (b : List String × Totals) : ℤ × Object :=
  let seconds := jsRound b.2.seconds
  (seconds, (((⟨[]⟩ : Object).insert "seconds" (.number seconds)).insert "tokens"
    (.number b.2.tokens)).insert "cost" (.number (round2 b.2.cost)) |>.insertLabels keys b.1)

/-- `totals_by`. -/
def totalsBy (rows : List Credited) (keys : List String) : List Object :=
  (((totalsBuckets rows keys).map (totalsValue keys)).mergeSort
    (fun a b => decide (b.1 ≤ a.1))).map Prod.snd

/-! ## Days -/

/-- `day_string`; the dates of chrono end before those of a JavaScript `Date`. -/
def dayString (time : ℚ) (tzMin : ℤ) : String :=
  let ms := (time - tzMin * 60) * 1000
  if (8640000000000000 : ℚ) < |ms| then "Invalid Date"
  else
    let date := civilFromDays (trunc ms / 86400000)
    if -262143 ≤ date.1 ∧ date.1 ≤ 262142 then
      String.ofList (fmtYear date.1 ++ '-' :: pad 2 date.2.1 ++ '-' :: pad 2 date.2.2)
    else "Invalid Date"

/-- The buckets of `day_buckets`. -/
def dayBucketsOf (rows : List Credited) (keys : List String) (tzMin : ℤ) :
    List (List String × ℚ) :=
  (Grouping.group (fun c : Credited => dayString c.row.time tzMin :: labels c.row keys) id rows).map
    (fun b => (b.1, b.2.foldl (fun seconds c => seconds + c.credit) 0))

/-- The object of a bucket, with its date. -/
def dayValue (keys : List String) (b : List String × ℚ) : String × Object :=
  let date := b.1.headD ""
  (date, (((⟨[]⟩ : Object).insert "date" (.text date)).insert "seconds"
    (.number (jsRound b.2))).insertLabels keys b.1.tail)

/-- `day_buckets`. -/
def dayBuckets (rows : List Credited) (keys : List String) (tzMin : ℤ) : List Object :=
  (((dayBucketsOf rows keys tzMin).map (dayValue keys)).mergeSort
    (fun a b => decide (a.1 ≤ b.1))).map Prod.snd

/-! ## Segments -/

/-- A part of the timeline of a project and an actor. -/
structure Segment where
  project : String
  actor : String
  start : ℚ
  stop : ℚ
  seconds : ℚ
  sources : List String
deriving DecidableEq

/-- `IndexSet::insert`. -/
def insertSource (sources : List String) (source : String) : List String :=
  if source ∈ sources then sources else sources ++ [source]

namespace Segment

/-- A segment of one row. -/
def opened (key : String × String) (c : Credited) : Segment where
  project := key.1
  actor := key.2
  start := c.row.time
  stop := c.row.time
  seconds := c.credit
  sources := [c.row.source]

def extend (s : Segment) (c : Credited) : Segment :=
  { s with
    stop := c.row.time
    seconds := s.seconds + c.credit
    sources := insertSource s.sources c.row.source }

def toValue (s : Segment) : Object :=
  ((((((⟨[]⟩ : Object).insert "project" (.text s.project)).insert "actor" (.text s.actor)).insert
    "start" (.number s.start)).insert "end" (.number s.stop)).insert
    "seconds" (.number (jsRound s.seconds))).insert "sources" (.texts s.sources)

end Segment

/-- One turn of the loop of `build_segments`: the segments that are done, and the open one. -/
def segmentStep (joinGap : ℚ) (key : String × String) (st : List Segment × Option Segment)
    (c : Credited) : List Segment × Option Segment :=
  match st.2 with
  | some s =>
      if c.row.time - s.stop ≤ joinGap then (st.1, some (s.extend c))
      else (st.1 ++ [s], some (Segment.opened key c))
  | none => (st.1, some (Segment.opened key c))

/-- `by_time` on the rows. -/
def creditedByTime (a b : Credited) : Bool := byTime a.row b.row

/-- The segments of one group. -/
def groupSegments (joinGap : ℚ) (key : String × String) (rows : List Credited) : List Segment :=
  let st := (rows.mergeSort creditedByTime).foldl (segmentStep joinGap key) ([], none)
  st.1 ++ st.2.toList

/-- The key of a timeline. -/
def timelineKey (c : Credited) : String × String := (c.row.project, c.row.actor)

/-- The segments of `build_segments`, sorted. -/
def segments (rows : List Credited) (joinGap : ℚ) : List Segment :=
  ((Grouping.group timelineKey id rows).flatMap
    (fun group => groupSegments joinGap group.1 group.2)).mergeSort
      (fun s t => decide (s.start ≤ t.start))

/-- `build_segments`. -/
def buildSegments (rows : List Credited) (joinGap : ℚ) : List Object :=
  (segments rows joinGap).map Segment.toValue

end Stackhour.Tracker.Exact
