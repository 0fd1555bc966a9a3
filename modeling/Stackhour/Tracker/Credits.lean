import Mathlib.Algebra.BigOperators.Group.List.Basic
import Mathlib.Algebra.Order.BigOperators.Group.List
import Mathlib.Tactic.Ring
import Stackhour.Tracker.Reattribution

/-!
# Credits

The rows of a stream, in order of time, earn the gap to the next one up to a cap,
and the last one a fixed credit. People have one stream per machine and source, agents
one per project as well. A stream is credited with its elapsed time at most, whatever
order its rows come in.
-/

namespace Stackhour.Tracker.Exact

structure Credited where
  row : Heartbeat
  credit : ℚ

structure StreamKey where
  machine : String
  source : String
  actor : String
  project : String
deriving DecidableEq

def StreamKey.of (row : Heartbeat) : StreamKey :=
  { machine := row.machine
    source := row.source
    actor := row.actor
    project := if row.actor = "agent" then row.project else "" }

/-- The rows of one stream, already sorted. -/
def creditStream (capS lastS : ℚ) : List Heartbeat → List Credited
  | [] => []
  | [row] => [⟨row, lastS⟩]
  | row :: next :: rest =>
      ⟨row, min (next.time - row.time) capS⟩ :: creditStream capS lastS (next :: rest)

/-- `compute_credits`. -/
def computeCredits (rows : List Heartbeat) (capS lastS : ℚ) : List Credited :=
  (Grouping.group StreamKey.of id rows).flatMap
    (fun stream => creditStream capS lastS (stream.2.mergeSort byTime))

/-! ## Elapsed time -/

/-- The gaps between consecutive times. -/
def gaps : List ℚ → List ℚ
  | a :: b :: rest => (b - a) :: gaps (b :: rest)
  | _ => []

/-- From the first time to the last. -/
def elapsed (times : List ℚ) : ℚ := times.getLastD 0 - times.headD 0

/-- The gaps add up to the elapsed time, and capping them takes away from it. -/
theorem sum_capped_gaps_le (capS : ℚ) : ∀ times : List ℚ,
    ((gaps times).map (min · capS)).sum ≤ elapsed times := by
  intro times
  induction times with
  | nil => simp [gaps, elapsed]
  | cons a rest ih =>
      cases rest with
      | nil => simp [gaps, elapsed]
      | cons b rest =>
          have helapsed : elapsed (a :: b :: rest) = (b - a) + elapsed (b :: rest) := by
            simp only [elapsed, List.getLastD_cons, List.headD_cons]
            ring
          calc ((gaps (a :: b :: rest)).map (min · capS)).sum
              = min (b - a) capS + ((gaps (b :: rest)).map (min · capS)).sum := by
                rw [gaps, List.map_cons, List.sum_cons]
            _ ≤ (b - a) + elapsed (b :: rest) := add_le_add (min_le_left _ _) ih
            _ = elapsed (a :: b :: rest) := helapsed.symm

/-! ## One stream -/

theorem creditStream_rows (capS lastS : ℚ) (rows : List Heartbeat) :
    (creditStream capS lastS rows).map Credited.row = rows := by
  induction rows with
  | nil => rfl
  | cons row rest ih =>
      cases rest with
      | nil => rfl
      | cons next rest => rw [creditStream, List.map_cons, ih]

theorem creditStream_sum (capS lastS : ℚ) {rows : List Heartbeat} (h : rows ≠ []) :
    ((creditStream capS lastS rows).map Credited.credit).sum =
      ((gaps (rows.map Heartbeat.time)).map (min · capS)).sum + lastS := by
  induction rows with
  | nil => exact absurd rfl h
  | cons row rest ih =>
      cases rest with
      | nil => simp [creditStream, gaps]
      | cons next rest =>
          have ih := ih (List.cons_ne_nil _ _)
          rw [creditStream, List.map_cons, List.sum_cons, ih]
          simp only [List.map_cons, gaps, List.sum_cons]
          ring

/-- In order of time no credit is negative, and each ends where the next one begins. -/
theorem creditStream_disjoint {capS lastS : ℚ} (hcap : 0 ≤ capS) (hlast : 0 ≤ lastS)
    {rows : List Heartbeat} (h : rows.Pairwise (fun a b => a.time ≤ b.time)) :
    (∀ c ∈ creditStream capS lastS rows, 0 ≤ c.credit) ∧
      (creditStream capS lastS rows).Pairwise
        (fun c d => c.row.time + c.credit ≤ d.row.time) := by
  induction rows with
  | nil => exact ⟨List.forall_mem_nil _, List.Pairwise.nil⟩
  | cons row rest ih =>
      obtain ⟨hfirst, hrest⟩ := List.pairwise_cons.mp h
      obtain ⟨hnonneg, hdisjoint⟩ := ih hrest
      cases rest with
      | nil =>
          refine ⟨fun c hc => ?_, List.pairwise_singleton _ _⟩
          rw [List.mem_singleton.mp hc]
          exact hlast
      | cons next rest =>
          have hgap : row.time ≤ next.time := hfirst next (List.mem_cons_self ..)
          refine ⟨fun c hc => ?_, List.pairwise_cons.mpr ⟨fun d hd => ?_, hdisjoint⟩⟩
          · rcases List.mem_cons.mp hc with rfl | hc
            · exact le_min (sub_nonneg.mpr hgap) hcap
            · exact hnonneg c hc
          · have hrow : d.row ∈ next :: rest := by
              rw [← creditStream_rows capS lastS (next :: rest)]
              exact List.mem_map_of_mem hd
            have hnext : next.time ≤ d.row.time := by
              rcases List.mem_cons.mp hrow with heq | hmem
              · rw [heq]
              · exact (List.pairwise_cons.mp hrest).1 _ hmem
            calc row.time + min (next.time - row.time) capS
                ≤ row.time + (next.time - row.time) := by
                  gcongr
                  exact min_le_left _ _
              _ = next.time := add_sub_cancel _ _
              _ ≤ d.row.time := hnext

/-! ## All streams -/

/-- What a stream is credited with. -/
def streamOf (k : StreamKey) (credited : List Credited) : List Credited :=
  credited.filter (fun c => decide (StreamKey.of c.row = k))

def total (k : StreamKey) (credited : List Credited) : ℚ :=
  ((streamOf k credited).map Credited.credit).sum

/-- The times of a stream in order. -/
def times (k : StreamKey) (rows : List Heartbeat) : List ℚ :=
  ((rows.filter (fun r => decide (StreamKey.of r = k))).map Heartbeat.time).mergeSort
    (fun a b => decide (a ≤ b))

theorem byTime_sorted (rows : List Heartbeat) :
    (rows.mergeSort byTime).Pairwise (fun a b => a.time ≤ b.time) :=
  Sorting.mergeSort_sorted Heartbeat.time rows

theorem times_eq (k : StreamKey) (rows : List Heartbeat) : times k rows =
    ((rows.filter (fun r => decide (StreamKey.of r = k))).mergeSort byTime).map
      Heartbeat.time := by
  unfold times
  rw [List.map_mergeSort]
  intro a _ b _
  rfl

theorem times_perm {rows rows' : List Heartbeat} (h : rows'.Perm rows) (k : StreamKey) :
    times k rows' = times k rows := by
  have hsorted : ∀ ts : List ℚ, (ts.mergeSort (fun a b => decide (a ≤ b))).Pairwise (· ≤ ·) :=
    Sorting.mergeSort_sorted id
  refine List.Perm.eq_of_pairwise (fun a b _ _ => le_antisymm) (hsorted _) (hsorted _) ?_
  refine (List.mergeSort_perm _ _).trans (List.Perm.trans ?_ (List.mergeSort_perm _ _).symm)
  exact (h.filter _).map _

theorem computeCredits_perm (rows : List Heartbeat) (capS lastS : ℚ) :
    ((computeCredits rows capS lastS).map Credited.row).Perm rows := by
  unfold computeCredits
  rw [List.map_flatMap]
  simp only [creditStream_rows]
  have hitems := @Grouping.items_perm _ _ _ _ StreamKey.of id rows
  rw [List.map_id] at hitems
  exact (List.Perm.flatMap_left _ (fun e _ => List.mergeSort_perm _ _)).trans hitems

/-- Each stream is credited by itself. -/
theorem streamOf_computeCredits (rows : List Heartbeat) (capS lastS : ℚ) (k : StreamKey) :
    streamOf k (computeCredits rows capS lastS) =
      creditStream capS lastS
        ((rows.filter (fun r => decide (StreamKey.of r = k))).mergeSort byTime) := by
  have hown : ∀ e ∈ Grouping.group StreamKey.of id rows,
      ∀ c ∈ creditStream capS lastS (e.2.mergeSort byTime),
        decide (StreamKey.of c.row = e.1) = true := by
    rintro ⟨l, stream⟩ he c hc
    have hsorted : c.row ∈ stream.mergeSort byTime := by
      rw [← creditStream_rows capS lastS (stream.mergeSort byTime)]
      exact List.mem_map_of_mem hc
    have hrow := List.mem_mergeSort.mp hsorted
    rw [Grouping.mem_group he, List.map_id] at hrow
    exact (List.mem_filter.mp hrow).2
  have hstream := Grouping.filter_flatMap
    (p := fun k (c : Credited) => decide (StreamKey.of c.row = k))
    (f := fun _ stream => creditStream capS lastS (stream.mergeSort byTime))
    (fun k k' c hk hk' => (of_decide_eq_true hk).symm.trans (of_decide_eq_true hk'))
    (Grouping.keys_nodup rows) hown k
  unfold streamOf computeCredits
  rw [hstream, Grouping.get_group, List.map_id]
  split
  · next hnil => simp [hnil, creditStream]
  · rfl

/-- Every row is credited once, none negatively; in a stream no time is credited twice, and
the credits are the capped gaps and the last credit, in whatever order the rows come. -/
structure FairlyCredited (rows : List Heartbeat) (capS lastS : ℚ) : Prop where
  perm : ((computeCredits rows capS lastS).map Credited.row).Perm rows
  nonneg : ∀ c ∈ computeCredits rows capS lastS, 0 ≤ c.credit
  disjoint : ∀ k, (streamOf k (computeCredits rows capS lastS)).Pairwise
    (fun c d => c.row.time + c.credit ≤ d.row.time)
  credited : ∀ r ∈ rows, total (StreamKey.of r) (computeCredits rows capS lastS) =
    ((gaps (times (StreamKey.of r) rows)).map (min · capS)).sum + lastS
  bounded : ∀ r ∈ rows, total (StreamKey.of r) (computeCredits rows capS lastS) ≤
    elapsed (times (StreamKey.of r) rows) + lastS
  order : ∀ rows' : List Heartbeat, rows'.Perm rows → ∀ k,
    total k (computeCredits rows' capS lastS) = total k (computeCredits rows capS lastS)

theorem total_eq (rows : List Heartbeat) (capS lastS : ℚ) (k : StreamKey) :
    total k (computeCredits rows capS lastS) =
      if times k rows = [] then 0 else ((gaps (times k rows)).map (min · capS)).sum + lastS := by
  unfold total
  rw [streamOf_computeCredits, times_eq]
  split
  · next hnil => simp [List.map_eq_nil_iff.mp hnil, creditStream]
  · next hne =>
      refine creditStream_sum capS lastS (fun hnil => hne ?_)
      rw [hnil]
      rfl

theorem times_ne_nil {rows : List Heartbeat} {r : Heartbeat} (hr : r ∈ rows) :
    times (StreamKey.of r) rows ≠ [] := by
  have hmem : r.time ∈ times (StreamKey.of r) rows := by
    unfold times
    rw [List.mem_mergeSort]
    exact List.mem_map_of_mem (List.mem_filter.mpr ⟨hr, decide_eq_true rfl⟩)
  exact List.ne_nil_of_mem hmem

theorem compute_credits_fair (rows : List Heartbeat) (capS lastS : ℚ) (hcap : 0 ≤ capS)
    (hlast : 0 ≤ lastS) : FairlyCredited rows capS lastS := by
  have hstream := fun k => creditStream_disjoint hcap hlast
    (byTime_sorted (rows.filter (fun r => decide (StreamKey.of r = k))))
  have htotal : ∀ r ∈ rows, total (StreamKey.of r) (computeCredits rows capS lastS) =
      ((gaps (times (StreamKey.of r) rows)).map (min · capS)).sum + lastS := by
    intro r hr
    rw [total_eq, if_neg (times_ne_nil hr)]
  constructor
  · exact computeCredits_perm rows capS lastS
  · intro c hc
    have hin : c ∈ streamOf (StreamKey.of c.row) (computeCredits rows capS lastS) :=
      List.mem_filter.mpr ⟨hc, decide_eq_true rfl⟩
    rw [streamOf_computeCredits] at hin
    exact (hstream _).1 c hin
  · intro k
    rw [streamOf_computeCredits]
    exact (hstream k).2
  · exact htotal
  · intro r hr
    rw [htotal r hr]
    exact add_le_add_left (sum_capped_gaps_le capS _) lastS
  · intro rows' hperm k
    rw [total_eq, total_eq, times_perm hperm]

/-- Two rows half a minute apart, under a cap of two minutes. -/
theorem compute_credits_fair_sample :
    (0 : ℚ) ≤ 120 ∧ (0 : ℚ) ≤ 60 ∧
      FairlyCredited [earlyRow, { earlyRow with id := 2, time := 40 }] 120 60 :=
  ⟨by norm_num, by norm_num,
    compute_credits_fair [earlyRow, { earlyRow with id := 2, time := 40 }] 120 60 (by norm_num)
      (by norm_num)⟩

end Stackhour.Tracker.Exact
