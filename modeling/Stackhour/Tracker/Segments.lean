import Mathlib.Order.CompletePartialOrder
import Stackhour.Tracker.Summarize

/-!
# Segments partition the rows

The loop of `build_segments` makes the summaries of the runs into which the rows of a project
and an actor fall. The totals and the days share out the credit of the rows among their buckets.
-/

namespace Stackhour.Tracker.Exact

/-! ## What a segment covers -/

/-- The segment of a run of rows. -/
def Segment.of (key : String × String) (run : List Credited) : Segment where
  project := key.1
  actor := key.2
  start := (run.head?.map (fun c => c.row.time)).getD 0
  stop := (run.getLast?.map (fun c => c.row.time)).getD 0
  seconds := (run.map Credited.credit).sum
  sources := (run.map (fun c => c.row.source)).foldl insertSource []

theorem Segment.of_singleton (key : String × String) (c : Credited) :
    Segment.of key [c] = Segment.opened key c := by
  simp [Segment.of, Segment.opened, insertSource]

theorem Segment.of_concat (key : String × String) {run : List Credited} (h : run ≠ [])
    (c : Credited) : Segment.of key (run ++ [c]) = (Segment.of key run).extend c := by
  have hhead : (run ++ [c]).head? = run.head? := List.head?_append_of_ne_nil run h
  have hlast : (run ++ [c]).getLast? = some c := List.getLast?_concat
  unfold Segment.of
  rw [hhead, hlast]
  simp only [Segment.extend, List.map_append, List.sum_append, List.foldl_append, List.map_cons,
    List.map_nil, List.sum_cons, List.sum_nil, add_zero, List.foldl_cons, List.foldl_nil,
    Option.map_some, Option.getD_some]

/-- Rows that the loop joins. -/
def joins (joinGap : ℚ) : Credited → Credited → Bool :=
  Runs.near (fun c => c.row.time) joinGap

/-- **The loop makes the segments of the runs.** -/
theorem groupSegments_eq (joinGap : ℚ) (key : String × String) (rows : List Credited) :
    groupSegments joinGap key rows =
      ((rows.mergeSort creditedByTime).splitBy (joins joinGap)).map (Segment.of key) := by
  refine Runs.fold_eq (fun done c => ?_) (fun done run a b => ?_) _
  · rw [Segment.of_singleton]
    rfl
  · have hstop : (Segment.of key (run ++ [a])).stop = a.row.time := by
      simp [Segment.of]
    rw [Segment.of_concat key (by simp : run ++ [a] ≠ []), Segment.of_singleton]
    simp only [segmentStep, hstop, joins, Runs.near, decide_eq_true_eq]

/-! ## The segments of a key -/

def rowsOf (key : String × String) (rows : List Credited) : List Credited :=
  rows.filter (fun c => decide (timelineKey c = key))

def segmentsOf (key : String × String) (segments : List Segment) : List Segment :=
  segments.filter (fun s => decide ((s.project, s.actor) = key))

theorem creditedByTime_sorted (rows : List Credited) :
    (rows.mergeSort creditedByTime).Pairwise (fun a b => a.row.time ≤ b.row.time) :=
  Sorting.mergeSort_sorted (fun c : Credited => c.row.time) rows

theorem segments_sorted (rows : List Credited) (joinGap : ℚ) :
    (segments rows joinGap).Pairwise (fun s t => s.start ≤ t.start) :=
  Sorting.mergeSort_sorted Segment.start _

theorem groupSegments_key {joinGap : ℚ} {key : String × String} {rows : List Credited}
    {s : Segment} (hs : s ∈ groupSegments joinGap key rows) : (s.project, s.actor) = key := by
  rw [groupSegments_eq] at hs
  obtain ⟨run, -, rfl⟩ := List.mem_map.mp hs
  rfl

/-- The runs of a key, in order of time. -/
def runsOf (key : String × String) (rows : List Credited) (joinGap : ℚ) : List (List Credited) :=
  ((rowsOf key rows).mergeSort creditedByTime).splitBy (joins joinGap)

section Runs

variable (key : String × String) (rows : List Credited) {joinGap : ℚ}

theorem runsOf_apart : (runsOf key rows joinGap).Pairwise
    (Runs.Apart (fun c => c.row.time) joinGap) :=
  Runs.splitBy_apart (creditedByTime_sorted _)

theorem runsOf_ordered : ∀ run ∈ runsOf key rows joinGap,
    run.Pairwise (fun a b => a.row.time ≤ b.row.time) :=
  Runs.splitBy_ordered (creditedByTime_sorted _) _

theorem of_start_eq {run : List Credited} (h : run ≠ []) :
    (Segment.of key run).start = (run.head h).row.time := by
  simp [Segment.of, List.head?_eq_some_head h]

theorem of_stop_eq {run : List Credited} (h : run ≠ []) :
    (Segment.of key run).stop = (run.getLast h).row.time := by
  simp [Segment.of, List.getLast?_eq_some_getLast h]

/-- The segments of a key are apart by more than the gap. -/
theorem segments_apart : ((runsOf key rows joinGap).map (Segment.of key)).Pairwise
    (fun s t => s.stop + joinGap < t.start) := by
  rw [List.pairwise_map]
  refine (runsOf_apart key rows).imp_of_mem fun {r s} hr hs h => ?_
  have hr := List.ne_nil_of_mem_splitBy hr
  have hs := List.ne_nil_of_mem_splitBy hs
  rw [of_stop_eq key hr, of_start_eq key hs]
  exact h _ (List.getLast_mem hr) _ (List.head_mem hs)

/-- A segment does not stop before it starts. -/
theorem start_le_stop {s : Segment} (hs : s ∈ (runsOf key rows joinGap).map (Segment.of key)) :
    s.start ≤ s.stop := by
  obtain ⟨run, hrun, rfl⟩ := List.mem_map.mp hs
  have hne := List.ne_nil_of_mem_splitBy hrun
  rw [of_start_eq key hne, of_stop_eq key hne]
  exact Runs.first_le (runsOf_ordered key rows run hrun) hne (List.getLast_mem hne)

/-- **The segments of a key** are those of its runs, in their order. -/
theorem segmentsOf_eq (hgap : 0 ≤ joinGap) : segmentsOf key (segments rows joinGap) =
    (runsOf key rows joinGap).map (Segment.of key) := by
  have hgroups : segmentsOf key ((Grouping.group timelineKey id rows).flatMap
      (fun group => groupSegments joinGap group.1 group.2)) =
        (runsOf key rows joinGap).map (Segment.of key) := by
    have hown := Grouping.filter_flatMap
      (p := fun key (s : Segment) => decide ((s.project, s.actor) = key))
      (f := groupSegments joinGap) (g := Grouping.group timelineKey id rows)
      (fun k k' s hk hk' => (of_decide_eq_true hk).symm.trans (of_decide_eq_true hk'))
      (Grouping.keys_nodup rows) (fun e _ s hs => decide_eq_true (groupSegments_key hs)) key
    rw [Grouping.get_group, List.map_id] at hown
    unfold segmentsOf
    rw [hown]
    unfold runsOf rowsOf
    rw [← groupSegments_eq]
    split
    · next hnil =>
        rw [hnil]
        simp [groupSegments]
    · rfl
  have hordered : ((runsOf key rows joinGap).map (Segment.of key)).Pairwise
      (fun s t => s.start ≤ t.start) := by
    refine (segments_apart key rows).imp_of_mem fun {s t} hs ht h => ?_
    have hle := start_le_stop key rows hs
    linarith
  rw [← hgroups] at hordered ⊢
  exact Sorting.filter_mergeSort Segment.start hordered

end Runs

/-- A segment covers a run of rows: its ends are the times of the first and the last one, its
seconds are their credit, and its sources are theirs, each once. -/
structure Covers (joinGap : ℚ) (s : Segment) (run : List Credited) : Prop where
  start : (run.head?).map (fun c => c.row.time) = some s.start
  stop : (run.getLast?).map (fun c => c.row.time) = some s.stop
  near : run.IsChain (fun a b => b.row.time - a.row.time ≤ joinGap)
  seconds : s.seconds = (run.map Credited.credit).sum
  sources : s.sources.Nodup ∧ ∀ source, source ∈ s.sources ↔ ∃ c ∈ run, c.row.source = source

theorem mem_insertSource (sources : List String) (source x : String) :
    x ∈ insertSource sources source ↔ x ∈ sources ∨ x = source := by
  unfold insertSource
  split
  · next hin =>
      refine (or_iff_left_of_imp ?_).symm
      rintro rfl
      exact hin
  · rw [List.mem_append, List.mem_singleton]

theorem insertSource_nodup {sources : List String} (h : sources.Nodup) (source : String) :
    (insertSource sources source).Nodup := by
  unfold insertSource
  split
  · exact h
  · next hnot =>
      exact List.nodup_append.mpr ⟨h, List.nodup_singleton _,
        fun a ha b hb heq => hnot (List.mem_singleton.mp hb ▸ heq ▸ ha)⟩

/-- What a set of sources holds after a list of insertions. -/
theorem foldl_insertSource (sources : List String) :
    (sources.foldl insertSource []).Nodup ∧
      ∀ x, x ∈ sources.foldl insertSource [] ↔ x ∈ sources := by
  induction sources using List.reverseRecOn with
  | nil => exact ⟨List.nodup_nil, fun _ => Iff.rfl⟩
  | append_singleton sources last ih =>
      obtain ⟨hnodup, hmem⟩ := ih
      rw [List.foldl_concat]
      refine ⟨insertSource_nodup hnodup last, fun x => ?_⟩
      rw [mem_insertSource, hmem, List.mem_append, List.mem_singleton]

theorem covers_of_run (key : String × String) {joinGap : ℚ} {run : List Credited} (h : run ≠ [])
    (hnear : run.IsChain (fun a b => joins joinGap a b = true)) :
    Covers joinGap (Segment.of key run) run := by
  obtain ⟨hnodup, hmem⟩ := foldl_insertSource (run.map (fun c => c.row.source))
  constructor
  · rw [List.head?_eq_some_head h, of_start_eq key h]
    rfl
  · rw [List.getLast?_eq_some_getLast h, of_stop_eq key h]
    rfl
  · exact hnear.imp fun a b hab => of_decide_eq_true hab
  · rfl
  · refine ⟨hnodup, fun source => (hmem source).trans ?_⟩
    rw [List.mem_map]

/-- The segments of every key partition its rows, in order and apart, and share out their
credit; all of them are sorted by their start. -/
structure Partitions (rows : List Credited) (joinGap : ℚ) (segs : List Segment) : Prop where
  runs : ∀ key, ∃ runs : List (List Credited), runs.flatten.Perm (rowsOf key rows) ∧
    runs.flatten.Pairwise (fun a b => a.row.time ≤ b.row.time) ∧
    List.Forall₂ (Covers joinGap) (segmentsOf key segs) runs
  apart : ∀ key, (segmentsOf key segs).Pairwise (fun s t => s.stop + joinGap < t.start)
  disjoint : ∀ key, (segmentsOf key segs).Pairwise
    (fun s t => Disjoint (Set.Icc s.start s.stop) (Set.Icc t.start t.stop))
  seconds : ∀ key, ((segmentsOf key segs).map Segment.seconds).sum =
    ((rowsOf key rows).map Credited.credit).sum
  sorted : segs.Pairwise (fun s t => s.start ≤ t.start)

theorem segments_partition (rows : List Credited) {joinGap : ℚ} (hgap : 0 ≤ joinGap) :
    Partitions rows joinGap (segments rows joinGap) := by
  have hflatten : ∀ key, (runsOf key rows joinGap).flatten =
      (rowsOf key rows).mergeSort creditedByTime := fun key => List.flatten_splitBy _ _
  constructor
  · intro key
    rw [segmentsOf_eq key rows hgap]
    refine ⟨runsOf key rows joinGap, ?_, ?_, ?_⟩
    · rw [hflatten]
      exact List.mergeSort_perm _ _
    · rw [hflatten]
      exact creditedByTime_sorted _
    · rw [List.forall₂_map_left_iff, List.forall₂_same]
      intro run hrun
      exact covers_of_run key (List.ne_nil_of_mem_splitBy hrun) (List.isChain_of_mem_splitBy hrun)
  · intro key
    rw [segmentsOf_eq key rows hgap]
    exact segments_apart key rows
  · intro key
    rw [segmentsOf_eq key rows hgap]
    refine (segments_apart key rows).imp fun {s t} h => ?_
    refine Set.disjoint_left.mpr fun x hx hx' => ?_
    have hle := hx.2
    have hle' := hx'.1
    linarith
  · intro key
    rw [segmentsOf_eq key rows hgap]
    have hperm : (runsOf key rows joinGap).flatten.Perm (rowsOf key rows) := by
      rw [hflatten]
      exact List.mergeSort_perm _ _
    rw [← (hperm.map Credited.credit).sum_eq, List.map_flatten, List.sum_flatten, List.map_map,
      List.map_map]
    rfl
  · exact segments_sorted rows joinGap

/-! ## Totals and days -/

/-- Buckets share out the credit of the rows: all of it, and to each that of its own rows. -/
structure Conserves (rows : List Credited) (label : Credited → List String)
    (buckets : List (List String × ℚ)) : Prop where
  total : (buckets.map Prod.snd).sum = (rows.map Credited.credit).sum
  own : ∀ b ∈ buckets,
    b.2 = ((rows.filter (fun c => decide (label c = b.1))).map Credited.credit).sum
  distinct : (buckets.map Prod.fst).Nodup

/-- The buckets of a grouping, with the seconds that were added up in each. -/
theorem group_conserves (rows : List Credited) (label : Credited → List String) :
    Conserves rows label ((Grouping.group label id rows).map
      (fun b => (b.1, (b.2.map Credited.credit).sum))) := by
  constructor
  · rw [List.map_map]
    exact Grouping.sum_group Credited.credit rows
  · intro b hb
    obtain ⟨⟨parts, group⟩, hgroup, rfl⟩ := List.mem_map.mp hb
    have hrows := Grouping.mem_group hgroup
    rw [List.map_id] at hrows
    rw [hrows]
  · rw [List.map_map]
    exact Grouping.keys_nodup rows

theorem foldl_seconds (group : List Credited) :
    (group.foldl Totals.add Totals.zero).seconds = (group.map Credited.credit).sum := by
  induction group using List.reverseRecOn with
  | nil => rfl
  | append_singleton group c ih => simp [Totals.add, ih]

theorem foldl_credit (group : List Credited) :
    group.foldl (fun seconds c => seconds + c.credit) 0 = (group.map Credited.credit).sum := by
  induction group using List.reverseRecOn with
  | nil => rfl
  | append_singleton group c ih => simp [ih]

theorem totals_conserve (rows : List Credited) (keys : List String) :
    Conserves rows (fun c => labels c.row keys)
      ((totalsBuckets rows keys).map (fun b => (b.1, b.2.seconds))) := by
  have hconserves := group_conserves rows (fun c => labels c.row keys)
  have hbuckets : (totalsBuckets rows keys).map (fun b => (b.1, b.2.seconds)) =
      (Grouping.group (fun c : Credited => labels c.row keys) id rows).map
        (fun b => (b.1, (b.2.map Credited.credit).sum)) := by
    unfold totalsBuckets
    rw [List.map_map]
    exact List.map_congr_left fun b _ => Prod.ext rfl (foldl_seconds b.2)
  rwa [hbuckets]

theorem days_conserve (rows : List Credited) (keys : List String) (tzMin : ℤ) :
    Conserves rows (fun c => dayString c.row.time tzMin :: labels c.row keys)
      (dayBucketsOf rows keys tzMin) := by
  have hconserves := group_conserves rows (fun c => dayString c.row.time tzMin :: labels c.row keys)
  have hbuckets : dayBucketsOf rows keys tzMin =
      (Grouping.group (fun c : Credited => dayString c.row.time tzMin :: labels c.row keys) id
        rows).map (fun b => (b.1, (b.2.map Credited.credit).sum)) :=
    List.map_congr_left fun b _ => Prod.ext rfl (foldl_credit b.2)
  rwa [hbuckets]

/-- The objects are those of the buckets, in another order. -/
theorem totalsBy_perm (rows : List Credited) (keys : List String) :
    (totalsBy rows keys).Perm ((totalsBuckets rows keys).map (fun b => (totalsValue keys b).2)) := by
  have hperm := (List.mergeSort_perm ((totalsBuckets rows keys).map (totalsValue keys))
    (fun a b => decide (b.1 ≤ a.1))).map Prod.snd
  rwa [List.map_map] at hperm

theorem dayBuckets_perm (rows : List Credited) (keys : List String) (tzMin : ℤ) :
    (dayBuckets rows keys tzMin).Perm
      ((dayBucketsOf rows keys tzMin).map (fun b => (dayValue keys b).2)) := by
  have hperm := (List.mergeSort_perm ((dayBucketsOf rows keys tzMin).map (dayValue keys))
    (fun a b => decide (a.1 ≤ b.1))).map Prod.snd
  rwa [List.map_map] at hperm

/-! ## The summaries of credited rows -/

/-- **Nothing is lost and nothing is counted twice**: the segments partition the rows, and the
segments, the totals and the days conserve their credit. -/
theorem summaries_conserve (rows : List Credited) (joinGap : ℚ) (hgap : 0 ≤ joinGap) :
    (buildSegments rows joinGap = (segments rows joinGap).map Segment.toValue ∧
      Partitions rows joinGap (segments rows joinGap)) ∧
      (∀ keys, (totalsBy rows keys).Perm
          ((totalsBuckets rows keys).map (fun b => (totalsValue keys b).2)) ∧
        Conserves rows (fun c => labels c.row keys)
          ((totalsBuckets rows keys).map (fun b => (b.1, b.2.seconds)))) ∧
      ∀ keys tzMin, (dayBuckets rows keys tzMin).Perm
          ((dayBucketsOf rows keys tzMin).map (fun b => (dayValue keys b).2)) ∧
        Conserves rows (fun c => dayString c.row.time tzMin :: labels c.row keys)
          (dayBucketsOf rows keys tzMin) :=
  ⟨⟨rfl, segments_partition rows hgap⟩,
    fun keys => ⟨totalsBy_perm rows keys, totals_conserve rows keys⟩,
    fun keys tzMin => ⟨dayBuckets_perm rows keys tzMin, days_conserve rows keys tzMin⟩⟩

/-- A row of a project and its credit. -/
def credited (project : String) (time credit : ℚ) : Credited where
  row :=
    { id := 1
      time := time
      machine := "m"
      source := "vscode"
      project := project
      entity := "a.rs"
      entityType := "file"
      category := "coding"
      language := none
      branch := none
      isWrite := 0
      actor := "human"
      tokensIn := 0
      tokensOut := 0
      cost := 0
      createdAt := time }
  credit := credit

/-- Two projects that take turns, and a gap that is exactly the one that joins. -/
theorem summaries_conserve_turns : (0 : ℚ) ≤ 300 ∧
    Partitions [credited "a" 0 100, credited "b" 100 200, credited "a" 300 60] 300
      (segments [credited "a" 0 100, credited "b" 100 200, credited "a" 300 60] 300) :=
  ⟨by norm_num, (summaries_conserve _ 300 (by norm_num)).1.2⟩

end Stackhour.Tracker.Exact
