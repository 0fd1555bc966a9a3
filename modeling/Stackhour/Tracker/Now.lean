import Stackhour.Lib.Latest
import Stackhour.Tracker.Reattribution

/-!
# What is active now

`/api/now` shows one row for each actor, project, source and machine that its window has: the
latest, and of several such the first. Edits that save a file take the row of the save before
the rows are compared. Times are exact here.
-/

namespace Stackhour.Tracker.Exact

/-- What rows are compared by. -/
structure NowKey where
  actor : String
  project : String
  source : String
  machine : String
deriving DecidableEq

def nowKey (r : Heartbeat) : NowKey := ⟨r.actor, r.project, r.source, r.machine⟩

/-- A row as it is shown. -/
structure NowRow where
  key : NowKey
  time : ℚ
  entity : String
deriving DecidableEq

def NowRow.of (r : Heartbeat) : NowRow := ⟨nowKey r, r.time, r.entity⟩

/-- The rows that are shown, the latest first. -/
def picked (rows : List Heartbeat) : List Heartbeat :=
  (Latest.latest nowKey Heartbeat.time rows).mergeSort
    (Sorting.upTo fun r => OrderDual.toDual r.time)

/-- `now_rows`. -/
def nowRows (rows : List Heartbeat) : List NowRow := (picked rows).map NowRow.of

/-- The answer of `/api/now`, with the server's clock. -/
def now (db : Table) (clock windowS reattributeS : ℚ) : List NowRow :=
  nowRows (reattributedRange db (clock - windowS) clock reattributeS)

/-- A row of the table is fetched for a window, lies in it, and is this one once the whole
table's edits have attributed it. -/
def Active (db : Table) (clock windowS reattributeS : ℚ) (a : Heartbeat) : Prop :=
  ∃ r ∈ db.rows, (clock - windowS ≤ r.time ∧ r.time ≤ clock) ∧
    (clock - windowS - reattributeS ≤ r.time ∧ r.time ≤ clock + reattributeS) ∧
    applyPatch r (patch db.rows reattributeS r) = a

/-- Earlier, or at the same time with the smaller id. -/
def Before (a b : Heartbeat) : Prop := a.time < b.time ∨ (a.time = b.time ∧ a.id ≤ b.id)

variable {db : Table} {clock windowS reattributeS : ℚ}

theorem mem_window {a : Heartbeat} :
    a ∈ reattributedRange db (clock - windowS) clock reattributeS ↔
      Active db clock windowS reattributeS a := by
  rw [reattributedRange_eq, List.mem_map]
  refine exists_congr fun r => ?_
  rw [List.mem_filter, Table.mem_rowsInRange, inRange, decide_eq_true_eq]
  constructor
  · rintro ⟨⟨⟨hmem, hfetch⟩, hwindow⟩, rfl⟩
    exact ⟨hmem, hwindow, hfetch, rfl⟩
  · rintro ⟨hmem, hwindow, hfetch, rfl⟩
    exact ⟨⟨⟨hmem, hfetch⟩, hwindow⟩, rfl⟩

theorem window_ordered (low high : ℚ) :
    (reattributedRange db low high reattributeS).Pairwise Before := by
  rw [reattributedRange_eq]
  refine List.pairwise_map.mpr (((ordered_mergeSort _).filter _).imp fun h => ?_)
  simpa [byTimeId, Before] using h

theorem mem_picked {rows : List Heartbeat} {a : Heartbeat} :
    a ∈ picked rows ↔ a ∈ Latest.latest nowKey Heartbeat.time rows := List.mem_mergeSort

theorem picked_keys (rows : List Heartbeat) : ((picked rows).map nowKey).Nodup ∧
    ∀ k, k ∈ (picked rows).map nowKey ↔ k ∈ rows.map nowKey := by
  have hperm : ((picked rows).map nowKey).Perm
      ((Latest.latest nowKey Heartbeat.time rows).map nowKey) :=
    (List.mergeSort_perm _ _).map nowKey
  obtain ⟨hnodup, hkeys⟩ := Latest.latest_keys nowKey Heartbeat.time rows
  exact ⟨hperm.nodup_iff.mpr hnodup, fun k => hperm.mem_iff.trans (hkeys k)⟩

/-- Of rows in order of time and id, the latest of a key that comes first has the least id. -/
theorem picked_latest {rows : List Heartbeat} (hordered : rows.Pairwise Before) {a b : Heartbeat}
    (ha : a ∈ picked rows) (hb : b ∈ rows) (hkey : nowKey b = nowKey a) :
    b.time < a.time ∨ (b.time = a.time ∧ a.id ≤ b.id) := by
  obtain ⟨-, front, back, rfl, hfront, hback⟩ :=
    Latest.latest_isLatest nowKey Heartbeat.time rows a (mem_picked.mp ha)
  rcases List.mem_append.mp hb with hmem | hmem
  · exact .inl (hfront b hmem hkey)
  · rcases List.mem_cons.mp hmem with rfl | hmem
    · exact .inr ⟨rfl, le_rfl⟩
    · have hle := hback b hmem hkey
      rcases (List.pairwise_cons.mp (List.pairwise_append.mp hordered).2.1).1 b hmem with
        hlt | ⟨heq, hid⟩
      · exact absurd hle (not_le.mpr hlt)
      · exact .inr ⟨heq.symm, hid⟩

/-- Rows of one time stand in the order in which their keys come. -/
theorem picked_order {rows : List Heartbeat} (hordered : rows.Pairwise Before) :
    (picked rows).Pairwise fun a b => b.time < a.time ∨ (b.time = a.time ∧
      ∃ c ∈ rows, nowKey c = nowKey a ∧ ∀ e ∈ rows, nowKey e = nowKey b → Before c e) := by
  have hkeys := List.pairwise_map.mp (Latest.latest_order nowKey Heartbeat.time rows)
  have hsorted := Sorting.mergeSort_stable (fun r => OrderDual.toDual r.time) hkeys
  refine hsorted.imp fun {a b} h => ?_
  rcases h with hlt | ⟨heq, hfirst⟩
  · exact .inl hlt
  · obtain ⟨front, c, back, rfl, hc, hback⟩ := Latest.first_item nowKey hfirst
    refine .inr ⟨(OrderDual.toDual_inj.mp heq).symm, c, by simp, hc, fun e he hel => ?_⟩
    exact (List.pairwise_cons.mp (List.pairwise_append.mp hordered).2.1).1 e (hback e he hel)

/-- **What is active now**: the rows that are shown have each of the window's keys once, newest
first; a row that is shown is its key's latest, of several such the one with the least id; and
rows of one time stand in the order in which their keys come in the window. -/
theorem now_latest (db : Table) (clock windowS reattributeS : ℚ) :
    ∃ shown : List Heartbeat,
      now db clock windowS reattributeS = shown.map NowRow.of ∧
      (shown.map nowKey).Nodup ∧
      (∀ k, k ∈ shown.map nowKey ↔ ∃ a, Active db clock windowS reattributeS a ∧ nowKey a = k) ∧
      (∀ a ∈ shown, Active db clock windowS reattributeS a ∧
        ∀ b, Active db clock windowS reattributeS b → nowKey b = nowKey a →
          b.time < a.time ∨ (b.time = a.time ∧ a.id ≤ b.id)) ∧
      shown.Pairwise fun a b => b.time < a.time ∨ (b.time = a.time ∧
        ∃ c, Active db clock windowS reattributeS c ∧ nowKey c = nowKey a ∧
          ∀ e, Active db clock windowS reattributeS e → nowKey e = nowKey b → Before c e) := by
  have hordered := @window_ordered db reattributeS (clock - windowS) clock
  obtain ⟨hnodup, hkeys⟩ := picked_keys (reattributedRange db (clock - windowS) clock reattributeS)
  refine ⟨picked (reattributedRange db (clock - windowS) clock reattributeS), rfl, hnodup,
    fun k => ?_, fun a ha => ⟨?_, fun b hb => ?_⟩, ?_⟩
  · rw [hkeys, List.mem_map]
    exact exists_congr fun a => and_congr_left fun _ => mem_window
  · exact mem_window.mp
      (Latest.latest_isLatest nowKey Heartbeat.time _ a (mem_picked.mp ha)).mem
  · exact picked_latest hordered ha (mem_window.mpr hb)
  · refine (picked_order hordered).imp fun h => h.imp_right fun ⟨heq, c, hc, hkey, hfirst⟩ => ?_
    exact ⟨heq, c, mem_window.mp hc, hkey, fun e he => hfirst e (mem_window.mpr he)⟩

end Stackhour.Tracker.Exact
