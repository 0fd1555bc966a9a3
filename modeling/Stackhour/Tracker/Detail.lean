import Stackhour.Tracker.Segments

/-!
# Drilling down

`GET /api/detail` selects the rows of one value of a dimension. Its selection is the bucket that
`totals_by` labels with the value, but for the empty value, which stands for NULL.
-/

namespace Stackhour.Tracker.Exact

def GROUP_FIELDS : List String :=
  ["project", "source", "machine", "category", "language", "entity", "actor", "branch"]

def RECENT_LIMIT : ℕ := 50

def BREAKDOWN_LIMIT : ℕ := 20

/-! ## The request -/

/-- `Query::get`: the first value of a name. -/
def Query.get (q : List (String × String)) (name : String) : Option String :=
  (q.find? (fun e => decide (e.1 = name))).map Prod.snd

/-- `selector`. -/
def selector (q : List (String × String)) : Option (String × String) :=
  let dimension := (Query.get q "dimension").getD ""
  match Query.get q "value" with
  | none => none
  | some value => if GROUP_FIELDS.contains dimension then some (dimension, value) else none

/-- `matches`. -/
def rowMatches (row : Heartbeat) (dimension value : String) : Bool :=
  if value.isEmpty then ((row.field dimension).getD none).isNone
  else decide (row.fieldLabel dimension = value)

/-- A request that is served is about a dimension that rows are grouped by. -/
theorem selector_dimension {q : List (String × String)} {dimension value : String}
    (h : selector q = some (dimension, value)) : dimension ∈ GROUP_FIELDS := by
  unfold selector at h
  dsimp only at h
  cases hvalue : Query.get q "value" with
  | none =>
      rw [hvalue] at h
      cases h
  | some v =>
      rw [hvalue] at h
      dsimp only at h
      split at h
      · next hmem =>
          obtain ⟨rfl, -⟩ := Prod.mk.inj (Option.some.inj h)
          simpa using hmem
      · cases h

/-! ## The body -/

/-- The rows of a value. -/
def selectedRows (dimension value : String) (raw : List Heartbeat) : List Heartbeat :=
  raw.filter (fun r => rowMatches r dimension value)

def selectedCredits (dimension value : String) (credited : List Credited) : List Credited :=
  credited.filter (fun c => rowMatches c.row dimension value)

/-- The sums of the body before they are rounded; only the seconds are of the credited rows. -/
def detailTotals (dimension value : String) (raw : List Heartbeat) (credited : List Credited) :
    Totals where
  seconds := ((selectedCredits dimension value credited).map Credited.credit).sum
  tokens := ((selectedRows dimension value raw).map
    (fun r => ((r.tokensIn : ℚ) + r.tokensOut))).sum
  cost := ((selectedRows dimension value raw).map Heartbeat.cost).sum

structure DetailBody where
  fromTime : ℚ
  toTime : ℚ
  dimension : String
  value : String
  total : ℤ
  humanTotal : ℤ
  agentTotal : ℤ
  totalCost : ℚ
  totalTokens : ℚ
  breakdowns : List (String × List Object)
  segments : List Object
  recent : List Heartbeat

/-- `build_body`. -/
def buildBody (fromTime toTime : ℚ) (dimension value : String) (raw : List Heartbeat)
    (credited : List Credited) (joinGap : ℚ) : DetailBody :=
  let rows := selectedRows dimension value raw
  let credits := selectedCredits dimension value credited
  let sums := detailTotals dimension value raw credited
  let total := jsRound sums.seconds
  let humanTotal := jsRound ((credits.filter (fun c => decide (c.row.actor ≠ "agent"))).map
    Credited.credit).sum
  { fromTime
    toTime
    dimension
    value
    total
    humanTotal
    agentTotal := total - humanTotal
    totalCost := round2 sums.cost
    totalTokens := sums.tokens
    breakdowns := (GROUP_FIELDS.filter (fun field => decide (field ≠ dimension))).map
      (fun field => (field, (totalsBy credits [field]).take BREAKDOWN_LIMIT))
    segments := buildSegments credits joinGap
    recent := (rows.mergeSort (fun a b => decide (b.time ≤ a.time))).take RECENT_LIMIT }

/-! ## What is selected -/

/-- A value that is not empty selects the rows that have it as their label. -/
theorem rowMatches_iff {row : Heartbeat} {dimension value : String} (h : value ≠ "") :
    rowMatches row dimension value = true ↔ labels row [dimension] = [value] := by
  unfold rowMatches
  rw [if_neg (by simpa using h), decide_eq_true_eq]
  show _ ↔ [row.fieldLabel dimension] = [value]
  rw [List.singleton_inj]

/-- The empty value selects the rows that have no value. -/
theorem rowMatches_empty (row : Heartbeat) {dimension : String} (h : dimension ∈ GROUP_FIELDS) :
    rowMatches row dimension "" = true ↔ row.field dimension = some none := by
  unfold rowMatches
  rw [if_pos (by decide)]
  simp only [GROUP_FIELDS, List.mem_cons, List.not_mem_nil, or_false] at h
  rcases h with rfl | rfl | rfl | rfl | rfl | rfl | rfl | rfl <;> simp [Heartbeat.field]

/-- A label is empty only where the value is. -/
theorem fieldLabel_empty {row : Heartbeat} {dimension : String}
    (h : row.fieldLabel dimension = "") : row.field dimension = some (some "") := by
  unfold Heartbeat.fieldLabel at h
  cases hfield : row.field dimension with
  | none =>
      rw [hfield] at h
      exact absurd h (by decide)
  | some value =>
      cases value with
      | none =>
          rw [hfield] at h
          exact absurd h (by decide)
      | some s =>
          rw [hfield] at h
          exact congrArg (fun s => some (some s)) h

/-- What the rows of a bucket add up to. -/
theorem foldl_totals (group : List Credited) : group.foldl Totals.add Totals.zero =
    ⟨(group.map Credited.credit).sum,
      (group.map (fun c => ((c.row.tokensIn : ℚ) + c.row.tokensOut))).sum,
      (group.map (fun c => c.row.cost)).sum⟩ := by
  induction group using List.reverseRecOn with
  | nil => rfl
  | append_singleton group c ih => simp [Totals.add, ih]

/-- The selection of the rows as they are stored is that of the credited ones. -/
theorem selectedRows_perm {raw : List Heartbeat} {credited : List Credited}
    (h : (credited.map Credited.row).Perm raw) (dimension value : String) :
    ((selectedCredits dimension value credited).map Credited.row).Perm
      (selectedRows dimension value raw) := by
  have hfilter := h.filter (fun r => rowMatches r dimension value)
  rw [List.filter_map] at hfilter
  exact hfilter

theorem totalsBuckets_keys (rows : List Credited) (keys : List String) :
    (totalsBuckets rows keys).map Prod.fst =
      (Grouping.group (fun c : Credited => labels c.row keys) id rows).map Prod.fst := by
  unfold totalsBuckets
  rw [List.map_map]
  rfl

/-- The selection of a label is its bucket, and its sums are those of the bucket. -/
theorem bucket_selected {raw : List Heartbeat} {credited : List Credited}
    (h : (credited.map Credited.row).Perm raw) {dimension value : String} (hvalue : value ≠ "")
    {members : List Credited} (hbucket : ([value], members) ∈
      Grouping.group (fun c : Credited => labels c.row [dimension]) id credited) :
    selectedCredits dimension value credited = members ∧
      (selectedRows dimension value raw).Perm (members.map Credited.row) ∧
      detailTotals dimension value raw credited = members.foldl Totals.add Totals.zero := by
  have hcredits : selectedCredits dimension value credited = members := by
    have hmembers := Grouping.mem_group hbucket
    rw [List.map_id] at hmembers
    rw [hmembers]
    refine List.filter_congr fun c _ => ?_
    rw [Bool.eq_iff_iff, rowMatches_iff hvalue, decide_eq_true_eq]
  have hrows := (selectedRows_perm h dimension value).symm
  rw [hcredits] at hrows
  refine ⟨hcredits, hrows, ?_⟩
  unfold detailTotals
  rw [foldl_totals, hcredits, (hrows.map _).sum_eq, (hrows.map _).sum_eq, List.map_map,
    List.map_map]
  rfl

/-- The drill-down of a list of rows agrees with its totals, label by label. -/
structure DrillsDown (raw : List Heartbeat) (credited : List Credited) (dimension : String) :
    Prop where
  labelled : ∀ b ∈ Grouping.group (fun c : Credited => labels c.row [dimension]) id credited,
    ∃ value, b.1 = [value] ∧ (value ≠ "" →
      selectedCredits dimension value credited = b.2 ∧
      (selectedRows dimension value raw).Perm (b.2.map Credited.row) ∧
      ([value], detailTotals dimension value raw credited) ∈ totalsBuckets credited [dimension])
  body : ∀ fromTime toTime value joinGap,
    let body := buildBody fromTime toTime dimension value raw credited joinGap
    let sums := detailTotals dimension value raw credited
    body.total = jsRound sums.seconds ∧ body.totalTokens = sums.tokens ∧
      body.totalCost = round2 sums.cost
  partitions : ∀ c ∈ credited, c.row.field dimension ≠ some (some "") →
    ∃! value, value ≠ "" ∧ [value] ∈ (totalsBuckets credited [dimension]).map Prod.fst ∧
      rowMatches c.row dimension value = true
  empty : ∀ row : Heartbeat, rowMatches row dimension "" = true ↔ row.field dimension = some none

/-- **The detail of a label that is not empty is its bucket**; the empty value stands for NULL. -/
theorem detail_drills_down {raw : List Heartbeat} {credited : List Credited}
    (h : (credited.map Credited.row).Perm raw) {dimension : String}
    (hdimension : dimension ∈ GROUP_FIELDS) : DrillsDown raw credited dimension := by
  refine ⟨fun b hb => ?_, fun _ _ _ _ => ⟨rfl, rfl, rfl⟩, fun c hc hfield => ?_,
    fun row => rowMatches_empty row hdimension⟩
  · obtain ⟨parts, members⟩ := b
    obtain ⟨c, -, hparts⟩ := Grouping.mem_keys.mp (List.mem_map_of_mem hb)
    refine ⟨c.row.fieldLabel dimension, hparts.symm, fun hvalue => ?_⟩
    have hparts' : [c.row.fieldLabel dimension] = parts := hparts
    rw [← hparts'] at hb
    obtain ⟨hcredits, hrows, hsums⟩ := bucket_selected h hvalue hb
    refine ⟨hcredits, hrows, ?_⟩
    rw [hsums]
    exact List.mem_map_of_mem hb
  · have hlabel : c.row.fieldLabel dimension ≠ "" := fun hempty => hfield (fieldLabel_empty hempty)
    refine ⟨c.row.fieldLabel dimension, ⟨hlabel, ?_, (rowMatches_iff hlabel).mpr rfl⟩, ?_⟩
    · rw [totalsBuckets_keys]
      exact Grouping.mem_keys.mpr ⟨c, hc, rfl⟩
    · rintro value ⟨hvalue, -, hmatches⟩
      exact (List.singleton_inj.mp ((rowMatches_iff hvalue).mp hmatches)).symm

/-- A minute on a project. -/
def rowOn (project : String) : Credited := credited project 0 60

theorem detail_drills_down_sample : "project" ∈ GROUP_FIELDS ∧
    DrillsDown [(rowOn "a").row, (rowOn "unknown").row] [rowOn "a", rowOn "unknown"] "project" :=
  ⟨by decide, @detail_drills_down _ [rowOn "a", rowOn "unknown"] (List.Perm.refl _) _ (by decide)⟩

/-- The bucket of the empty label has a minute, and its detail nothing. -/
theorem detail_empty_label :
    ([""], (⟨60, 0, 0⟩ : Totals)) ∈ totalsBuckets [rowOn ""] ["project"] ∧
      selectedCredits "project" "" [rowOn ""] = [] ∧
      (detailTotals "project" "" [(rowOn "").row] [rowOn ""]).seconds = 0 := by
  have hbuckets : totalsBuckets [rowOn ""] ["project"] = [([""], ⟨0 + 60, 0 + (0 + 0), 0 + 0⟩)] := by
    rfl
  refine ⟨?_, rfl, rfl⟩
  rw [hbuckets]
  norm_num

end Stackhour.Tracker.Exact
