import Mathlib.Algebra.Order.Ring.Rat
import Mathlib.Tactic.Linarith
import Mathlib.Tactic.NormNum
import Stackhour.Lib.Grouping
import Stackhour.Lib.Nearest
import Stackhour.Lib.Sorting

/-!
# File-save reattribution

Saves seen by the file watcher near an agent's edit of the same file are the
agent's. The edits are grouped by machine and file, sorted by time, and the nearest
one is searched. A query of a range fetches a window more on both sides, so that the
rows it returns are those of the whole table. Times are exact here.
-/

namespace Stackhour.Tracker.Exact

/-- A row of `heartbeats`, with exact times. -/
structure Heartbeat where
  id : ℤ
  time : ℚ
  machine : String
  source : String
  project : String
  entity : String
  entityType : String
  category : String
  language : Option String
  branch : Option String
  isWrite : ℤ
  actor : String
  tokensIn : ℤ
  tokensOut : ℤ
  cost : ℚ
  createdAt : ℚ
deriving DecidableEq

/-- `heartbeats` in the order of its primary key. -/
structure Table where
  rows : List Heartbeat
  ordered : rows.Pairwise (fun a b => a.id < b.id)

/-! ## Queries -/

/-- `ORDER BY time, id`. -/
def byTimeId (a b : Heartbeat) : Bool :=
  decide (a.time < b.time ∨ (a.time = b.time ∧ a.id ≤ b.id))

/-- `WHERE time >= ? AND time <= ?`. -/
def inRange (low high : ℚ) (r : Heartbeat) : Bool := decide (low ≤ r.time ∧ r.time ≤ high)

/-- `rows_in_range`. -/
def rowsInRange (db : Table) (low high : ℚ) : List Heartbeat :=
  (db.rows.filter (inRange low high)).mergeSort byTimeId

/-- `recent_page`; a negative `LIMIT` is none. -/
def recentPage (db : Table) (limit : ℤ) : List Heartbeat :=
  let rows := db.rows.mergeSort (fun a b => byTimeId b a)
  if limit < 0 then rows else rows.take limit.toNat

/-! ## Reattribution -/

/-- A candidate agent edit. -/
def isEdit (r : Heartbeat) : Bool :=
  decide (r.actor = "agent" ∧ r.entityType = "file" ∧ r.isWrite ≠ 0)

/-- Time and source of every candidate, by machine and entity. -/
def editsByEntity (rows : List Heartbeat) : List ((String × String) × List (ℚ × String)) :=
  Grouping.group (fun r : Heartbeat => (r.machine, r.entity)) (fun r => (r.time, r.source))
    (rows.filter isEdit)

/-- The source that a row takes, if it takes one. -/
def patch (rows : List Heartbeat) (windowS : ℚ) (r : Heartbeat) : Option String :=
  if r.source ≠ "editor-files" then none
  else match Grouping.get (editsByEntity rows) (r.machine, r.entity) with
    | none => none
    | some edits =>
        let edits := edits.mergeSort (fun a b => decide (a.1 ≤ b.1))
        (Nearest.nearest Prod.fst edits r.time windowS).map Prod.snd

def applyPatch (r : Heartbeat) : Option String → Heartbeat
  | none => r
  | some source => { r with actor := "agent", source := source }

/-- `reattribute_file_saves`. -/
def reattributeFileSaves (rows : List Heartbeat) (windowS : ℚ) : List Heartbeat :=
  if (editsByEntity rows).isEmpty then rows
  else rows.map (fun r => applyPatch r (patch rows windowS r))

/-- `reattributed_range`. -/
def reattributedRange (db : Table) (low high windowS : ℚ) : List Heartbeat :=
  (reattributeFileSaves (rowsInRange db (low - windowS) (high + windowS)) windowS).filter
    (inRange low high)

/-- `recent_with_context`: a page, with the rows of its context put in by id. -/
def recentWithContext (db : Table) (limit : ℤ) (windowS : ℚ) : List Heartbeat :=
  match recentPage db limit with
  | [] => []
  | r :: rest =>
      let minTime := (rest.map Heartbeat.time).foldl min r.time
      let maxTime := (rest.map Heartbeat.time).foldl max r.time
      let context := rowsInRange db (minTime - windowS) (maxTime + windowS)
      let byId := fun id : ℤ =>
        ((reattributeFileSaves context windowS).filter (fun c => decide (c.id = id))).getLast?
      (r :: rest).map (fun s => (byId s.id).getD s)

/-! ## What a row takes -/

/-- The agent's edits of the file of a row. -/
def editOf (r e : Heartbeat) : Bool :=
  isEdit e && decide (e.machine = r.machine ∧ e.entity = r.entity)

/-- The edits of the file of a row, in order of time. -/
def editsOf (rows : List Heartbeat) (r : Heartbeat) : List (ℚ × String) :=
  ((rows.filter (editOf r)).map (fun e => (e.time, e.source))).mergeSort
    (fun a b => decide (a.1 ≤ b.1))

theorem filter_editOf (rows : List Heartbeat) (r : Heartbeat) :
    (rows.filter isEdit).filter
        (fun e => decide ((e.machine, e.entity) = (r.machine, r.entity))) =
      rows.filter (editOf r) := by
  rw [List.filter_filter]
  refine List.filter_congr (fun e _ => ?_)
  unfold editOf
  rw [Bool.and_comm]
  congr 1
  simp

theorem patch_eq (rows : List Heartbeat) (windowS : ℚ) (r : Heartbeat) :
    patch rows windowS r =
      if r.source ≠ "editor-files" then none
      else (Nearest.nearest Prod.fst (editsOf rows r) r.time windowS).map Prod.snd := by
  unfold patch
  split
  · rfl
  · unfold editsByEntity
    rw [Grouping.get_group, filter_editOf]
    by_cases hnil : rows.filter (editOf r) = []
    · rw [if_pos hnil]
      simp [editsOf, hnil]
    · rw [if_neg hnil]
      rfl

/-- Where there are no edits, no row takes any. -/
theorem reattributeFileSaves_eq (rows : List Heartbeat) (windowS : ℚ) :
    reattributeFileSaves rows windowS = rows.map (fun r => applyPatch r (patch rows windowS r)) := by
  unfold reattributeFileSaves
  split
  · next hempty =>
      unfold editsByEntity at hempty
      rw [Grouping.group_isEmpty] at hempty
      have hnone : rows.filter isEdit = [] := List.isEmpty_iff.mp hempty
      have hsame : ∀ r ∈ rows, applyPatch r (patch rows windowS r) = r := by
        intro r _
        have hpatch : patch rows windowS r = none := by
          unfold patch editsByEntity
          rw [hnone]
          split <;> rfl
        rw [hpatch]
        rfl
      rw [List.map_congr_left hsame, List.map_id']
  · rfl

@[simp] theorem applyPatch_time (r : Heartbeat) (p : Option String) :
    (applyPatch r p).time = r.time := by
  cases p <;> rfl

@[simp] theorem applyPatch_id (r : Heartbeat) (p : Option String) :
    (applyPatch r p).id = r.id := by
  cases p <;> rfl

/-! ## Orders -/

def byTime (a b : Heartbeat) : Bool := decide (a.time ≤ b.time)

def Ordered (xs : List Heartbeat) : Prop := xs.Pairwise (fun a b => byTimeId a b = true)

theorem byTimeId_trans {a b c : Heartbeat} (hab : byTimeId a b = true) (hbc : byTimeId b c = true) :
    byTimeId a c = true := by
  simp only [byTimeId, decide_eq_true_eq] at hab hbc ⊢
  grind

theorem byTimeId_total (a b : Heartbeat) : (byTimeId a b || byTimeId b a) = true := by
  simp only [byTimeId, Bool.or_eq_true, decide_eq_true_eq]
  grind

theorem byTimeId_time {a b : Heartbeat} (h : byTimeId a b = true) : a.time ≤ b.time := by
  simp only [byTimeId, decide_eq_true_eq] at h
  grind

theorem ordered_mergeSort (xs : List Heartbeat) : Ordered (xs.mergeSort byTimeId) :=
  @List.pairwise_mergeSort _ byTimeId (fun _ _ _ => byTimeId_trans) byTimeId_total xs

/-- A stable sort by time leaves rows of one time in the order of their ids. -/
theorem ordered_byTime {xs : List Heartbeat} (h : xs.Pairwise (fun a b => a.id < b.id)) :
    Ordered (xs.mergeSort byTime) := by
  have htrans : ∀ a b c, byTime a b = true → byTime b c = true → byTime a c = true :=
    Sorting.upTo_trans Heartbeat.time
  have htotal : ∀ a b, (byTime a b || byTime b a) = true := Sorting.upTo_total Heartbeat.time
  induction xs with
  | nil => simp [Ordered]
  | cons a rest ih =>
      obtain ⟨hid, hrest⟩ := List.pairwise_cons.mp h
      have ih := ih hrest
      obtain ⟨front, back, heq, hback, hfront⟩ := List.mergeSort_cons htrans htotal a rest
      have hsorted := List.pairwise_mergeSort htrans htotal (a :: rest)
      rw [heq] at hsorted ⊢
      rw [hback] at ih
      obtain ⟨hf, hb, hfb⟩ := List.pairwise_append.mp ih
      have hmem : ∀ b ∈ back, b ∈ rest := by
        intro b hb
        have : b ∈ rest.mergeSort byTime := hback ▸ List.mem_append_right _ hb
        exact List.mem_mergeSort.mp this
      refine List.pairwise_append.mpr ⟨hf, List.pairwise_cons.mpr ⟨?_, hb⟩, ?_⟩
      · intro b hb
        have hle := (List.pairwise_cons.mp (List.pairwise_append.mp hsorted).2.1).1 b hb
        have hlt := hid b (hmem b hb)
        simp only [byTime, byTimeId, decide_eq_true_eq] at hle ⊢
        grind
      · intro b hb c hc
        rcases List.mem_cons.mp hc with rfl | hback
        · have hnot := hfront b hb
          simp only [byTime, byTimeId, Bool.not_eq_true', decide_eq_false_iff_not,
            decide_eq_true_eq] at hnot ⊢
          exact .inl (not_le.mp hnot)
        · exact hfb b hb c hback

namespace Table

variable {db : Table}

theorem eq_of_id {a b : Heartbeat} (ha : a ∈ db.rows) (hb : b ∈ db.rows) (h : a.id = b.id) :
    a = b := by
  have hnodup : (db.rows.map Heartbeat.id).Nodup :=
    List.pairwise_map.mpr (db.ordered.imp ne_of_lt)
  exact List.inj_on_of_nodup_map hnodup ha hb h

/-- The order of rows of the table is fixed by time and id. -/
theorem eq_of_ordered {xs ys : List Heartbeat} (hsub : ∀ a ∈ xs, a ∈ db.rows) (hxs : Ordered xs)
    (hys : Ordered ys) (hperm : xs.Perm ys) : xs = ys := by
  refine hperm.eq_of_pairwise (fun a b ha hb hab hba => ?_) hxs hys
  have hb := hsub b (hperm.mem_iff.mpr hb)
  refine eq_of_id (hsub a ha) hb ?_
  simp only [byTimeId, decide_eq_true_eq] at hab hba
  grind

theorem mem_rowsInRange {low high : ℚ} {r : Heartbeat} :
    r ∈ rowsInRange db low high ↔ r ∈ db.rows ∧ low ≤ r.time ∧ r.time ≤ high := by
  unfold rowsInRange inRange
  rw [List.mem_mergeSort, List.mem_filter, decide_eq_true_eq]

end Table

/-! ## The edits of a range -/

theorem editsOf_sorted (rows : List Heartbeat) (r : Heartbeat) :
    Nearest.Sorted Prod.fst (editsOf rows r) :=
  Sorting.mergeSort_sorted Prod.fst _

theorem editsOf_eq (rows : List Heartbeat) (r : Heartbeat) : editsOf rows r =
    ((rows.filter (editOf r)).mergeSort byTime).map (fun e => (e.time, e.source)) := by
  unfold editsOf
  rw [List.map_mergeSort]
  intro a _ b _
  rfl

/-- The edits in a fetched range are those of the table that fall into it. -/
theorem editsOf_rowsInRange (db : Table) (low high : ℚ) (r : Heartbeat) :
    editsOf (rowsInRange db low high) r =
      (editsOf db.rows r).filter (fun e => decide (low ≤ e.1 ∧ e.1 ≤ high)) := by
  have hordered : Ordered ((rowsInRange db low high).filter (editOf r)) :=
    (ordered_mergeSort _).filter _
  have hsame : ((rowsInRange db low high).filter (editOf r)).mergeSort byTime =
      (rowsInRange db low high).filter (editOf r) :=
    List.mergeSort_of_pairwise (hordered.imp (fun h => decide_eq_true (byTimeId_time h)))
  have hwhole : Ordered (((db.rows.filter (editOf r)).mergeSort byTime).filter (inRange low high)) :=
    (ordered_byTime (db.ordered.filter _)).filter _
  have hperm : ((rowsInRange db low high).filter (editOf r)).Perm
      (((db.rows.filter (editOf r)).mergeSort byTime).filter (inRange low high)) := by
    refine ((List.mergeSort_perm _ _).filter _).trans ?_
    refine List.Perm.trans ?_ ((List.mergeSort_perm _ _).filter _).symm
    rw [List.filter_filter, List.filter_filter]
    simp only [Bool.and_comm, List.Perm.refl]
  have heq := db.eq_of_ordered (fun a ha => (Table.mem_rowsInRange.mp (List.mem_filter.mp ha).1).1)
    hordered hwhole hperm
  rw [editsOf_eq, editsOf_eq, hsame, heq, List.filter_map]
  rfl

/-- A fetch that reaches a window around a row decides as the whole table does. -/
theorem patch_rowsInRange (db : Table) {low high windowS : ℚ} {r : Heartbeat}
    (hlow : low ≤ r.time - windowS) (hhigh : r.time + windowS ≤ high) :
    patch (rowsInRange db low high) windowS r = patch db.rows windowS r := by
  rw [patch_eq, patch_eq, editsOf_rowsInRange, (editsOf_sorted _ _).nearest_filter]
  intro e _ hle
  obtain ⟨hle, hge⟩ := abs_le.mp hle
  refine decide_eq_true ⟨?_, ?_⟩
  · linarith
  · linarith

/-- A negative window matches nothing. -/
theorem patch_of_neg (rows : List Heartbeat) {windowS : ℚ} (h : windowS < 0) (r : Heartbeat) :
    patch rows windowS r = none := by
  rw [patch_eq]
  split
  · rfl
  · have hspec := (editsOf_sorted rows r).nearest_spec (t := r.time) (w := windowS)
    cases hfound : Nearest.nearest Prod.fst (editsOf rows r) r.time windowS with
    | none => rfl
    | some e =>
        rw [hfound] at hspec
        exact absurd (hspec.within.trans_lt h) (not_lt.mpr (abs_nonneg _))

/-! ## Ranges and pages against the whole table -/

/-- What a row becomes: an `editor-files` row takes the source of the nearest edit of its
file within the window, of two equally near the earlier, and stays as it is when there is
none; other rows stay. -/
def Attributed (rows : List Heartbeat) (windowS : ℚ) (r r' : Heartbeat) : Prop :=
  if r.source = "editor-files" then
    (∃ e, Nearest.IsNearest Heartbeat.time (rows.filter (editOf r)) r.time windowS e ∧
        r' = { r with actor := "agent", source := e.source }) ∨
      (∀ e ∈ rows, editOf r e = true → ¬|e.time - r.time| ≤ windowS) ∧ r' = r
  else r' = r

/-- A range and a page show the rows of the whole table reattributed, each with the
nearest edit in the table. -/
structure Consistent (db : Table) (low high windowS : ℚ) : Prop where
  range : reattributedRange db low high windowS =
    ((reattributeFileSaves db.rows windowS).filter (inRange low high)).mergeSort byTimeId
  page : ∀ limit, List.Forall₂
    (fun r r' => r'.id = r.id ∧ r' ∈ reattributeFileSaves db.rows windowS)
    (recentPage db limit) (recentWithContext db limit windowS)
  nearest : List.Forall₂ (Attributed db.rows windowS) db.rows
    (reattributeFileSaves db.rows windowS)

theorem mem_editsOf {rows : List Heartbeat} {r : Heartbeat} {p : ℚ × String} :
    p ∈ editsOf rows r ↔ ∃ e ∈ rows, editOf r e = true ∧ (e.time, e.source) = p := by
  unfold editsOf
  rw [List.mem_mergeSort, List.mem_map]
  simp only [List.mem_filter, and_assoc]

theorem attributed_applyPatch (rows : List Heartbeat) (windowS : ℚ) (r : Heartbeat) :
    Attributed rows windowS r (applyPatch r (patch rows windowS r)) := by
  unfold Attributed
  rw [patch_eq]
  by_cases hsource : r.source = "editor-files"
  · rw [if_pos hsource, if_neg (not_not_intro hsource)]
    have hspec := (editsOf_sorted rows r).nearest_spec (t := r.time) (w := windowS)
    have hmem : ∀ e ∈ rows, editOf r e = true → (e.time, e.source) ∈ editsOf rows r :=
      fun e he hedit => mem_editsOf.mpr ⟨e, he, hedit, rfl⟩
    cases hfound : Nearest.nearest Prod.fst (editsOf rows r) r.time windowS with
    | none =>
        rw [hfound] at hspec
        dsimp only at hspec
        exact .inr ⟨fun e he hedit => hspec (e.time, e.source) (hmem e he hedit), rfl⟩
    | some p =>
        rw [hfound] at hspec
        dsimp only at hspec
        obtain ⟨e, he, hedit, rfl⟩ := mem_editsOf.mp hspec.mem
        have hin : ∀ c ∈ rows.filter (editOf r), (c.time, c.source) ∈ editsOf rows r :=
          fun c hc => hmem c (List.mem_filter.mp hc).1 (List.mem_filter.mp hc).2
        refine .inl ⟨e, ⟨List.mem_filter.mpr ⟨he, hedit⟩, hspec.within, ?_, ?_⟩, rfl⟩
        · exact fun c hc => hspec.closest (c.time, c.source) (hin c hc)
        · exact fun c hc => hspec.earlier (c.time, c.source) (hin c hc)
  · rw [if_neg hsource, if_pos hsource]
    rfl

theorem reattributed_nearest (rows : List Heartbeat) (windowS : ℚ) :
    List.Forall₂ (Attributed rows windowS) rows (reattributeFileSaves rows windowS) := by
  rw [reattributeFileSaves_eq, List.forall₂_map_right_iff]
  exact List.forall₂_same.mpr (fun r _ => attributed_applyPatch rows windowS r)

/-! ### Ranges -/

theorem filter_reattributed (rows ctx : List Heartbeat) (low high windowS : ℚ) :
    (rows.map (fun r => applyPatch r (patch ctx windowS r))).filter (inRange low high) =
      (rows.filter (inRange low high)).map (fun r => applyPatch r (patch ctx windowS r)) := by
  rw [List.filter_map]
  congr 2
  funext r
  simp [inRange]

theorem reattributed_sorted (rows ctx : List Heartbeat) (windowS : ℚ) :
    (rows.map (fun r => applyPatch r (patch ctx windowS r))).mergeSort byTimeId =
      (rows.mergeSort byTimeId).map (fun r => applyPatch r (patch ctx windowS r)) := by
  refine (List.map_mergeSort (fun a _ b _ => ?_)).symm
  simp [byTimeId]

/-- The whole table, restricted. -/
theorem restricted_eq (db : Table) (low high windowS : ℚ) :
    ((reattributeFileSaves db.rows windowS).filter (inRange low high)).mergeSort byTimeId =
      (rowsInRange db low high).map (fun r => applyPatch r (patch db.rows windowS r)) := by
  rw [reattributeFileSaves_eq, filter_reattributed, reattributed_sorted]
  rfl

theorem reattributedRange_eq (db : Table) (low high windowS : ℚ) :
    reattributedRange db low high windowS =
      ((rowsInRange db (low - windowS) (high + windowS)).filter (inRange low high)).map
        (fun r => applyPatch r (patch db.rows windowS r)) := by
  unfold reattributedRange
  rw [reattributeFileSaves_eq, filter_reattributed]
  refine List.map_congr_left (fun r hr => ?_)
  obtain ⟨hlow, hhigh⟩ := of_decide_eq_true (List.mem_filter.mp hr).2
  rw [patch_rowsInRange db (by linarith) (by linarith)]

/-- The rows of a range all lie in the range that is fetched for it. -/
def Fetched (db : Table) (low high windowS : ℚ) : Prop :=
  ∀ r ∈ db.rows, low ≤ r.time → r.time ≤ high →
    low - windowS ≤ r.time ∧ r.time ≤ high + windowS

theorem Fetched.rowsInRange {db : Table} {low high windowS : ℚ}
    (h : Fetched db low high windowS) :
    (rowsInRange db (low - windowS) (high + windowS)).filter (inRange low high) =
      rowsInRange db low high := by
  refine db.eq_of_ordered (fun r hr => (Table.mem_rowsInRange.mp (List.mem_filter.mp hr).1).1)
    ((ordered_mergeSort _).filter _) (ordered_mergeSort _) ?_
  refine ((List.mergeSort_perm _ _).filter _).trans ?_
  refine List.Perm.trans ?_ (List.mergeSort_perm _ _).symm
  rw [List.filter_filter]
  refine List.Perm.of_eq (List.filter_congr (fun r hr => ?_))
  unfold inRange
  by_cases hin : low ≤ r.time ∧ r.time ≤ high
  · simp [hin, h r hr hin.1 hin.2]
  · simp [hin]

/-! ### Pages -/

theorem le_foldl_max (ts : List ℚ) (t : ℚ) : t ≤ ts.foldl max t ∧ ∀ u ∈ ts, u ≤ ts.foldl max t := by
  induction ts generalizing t with
  | nil => exact ⟨le_refl t, nofun⟩
  | cons v rest ih =>
      obtain ⟨hhead, hrest⟩ := ih (max t v)
      refine ⟨(le_max_left t v).trans hhead, fun u hu => ?_⟩
      rcases List.mem_cons.mp hu with rfl | hu
      · exact (le_max_right t u).trans hhead
      · exact hrest u hu

theorem foldl_min_le (ts : List ℚ) (t : ℚ) : ts.foldl min t ≤ t ∧ ∀ u ∈ ts, ts.foldl min t ≤ u := by
  induction ts generalizing t with
  | nil => exact ⟨le_refl t, nofun⟩
  | cons v rest ih =>
      obtain ⟨hhead, hrest⟩ := ih (min t v)
      refine ⟨hhead.trans (min_le_left t v), fun u hu => ?_⟩
      rcases List.mem_cons.mp hu with rfl | hu
      · exact hhead.trans (min_le_right t u)
      · exact hrest u hu

theorem mem_recentPage {db : Table} {limit : ℤ} {r : Heartbeat} (h : r ∈ recentPage db limit) :
    r ∈ db.rows := by
  unfold recentPage at h
  dsimp only at h
  split at h
  · exact List.mem_mergeSort.mp h
  · exact List.mem_mergeSort.mp (List.mem_of_mem_take h)

/-- The row that a context gives for a row of its times is that of the whole table. -/
theorem byId_eq (db : Table) {low high windowS : ℚ} {r : Heartbeat} (hr : r ∈ db.rows)
    (hlow : low ≤ r.time) (hhigh : r.time ≤ high) :
    (((reattributeFileSaves (rowsInRange db (low - windowS) (high + windowS)) windowS).filter
        (fun c => decide (c.id = r.id))).getLast?).getD r =
      applyPatch r (patch db.rows windowS r) := by
  have hpatch : patch (rowsInRange db (low - windowS) (high + windowS)) windowS r =
      patch db.rows windowS r := patch_rowsInRange db (by linarith) (by linarith)
  rw [reattributeFileSaves_eq, List.filter_map, List.getLast?_map]
  cases hlast : ((rowsInRange db (low - windowS) (high + windowS)).filter
      ((fun c => decide (c.id = r.id)) ∘ fun c =>
        applyPatch c (patch (rowsInRange db (low - windowS) (high + windowS)) windowS c))).getLast?
    with
  | none =>
      have hnil := List.getLast?_eq_none_iff.mp hlast
      have hnot : r ∉ rowsInRange db (low - windowS) (high + windowS) := by
        intro hin
        have := List.filter_eq_nil_iff.mp hnil r hin
        simp at this
      have hneg : windowS < 0 := by
        by_contra hge
        have hge := not_lt.mp hge
        exact hnot (Table.mem_rowsInRange.mpr ⟨hr, by linarith, by linarith⟩)
      rw [patch_of_neg _ hneg]
      rfl
  | some c =>
      obtain ⟨hin, hid⟩ := List.mem_filter.mp (List.mem_of_getLast? hlast)
      have hid : c.id = r.id := by simpa using hid
      obtain rfl := db.eq_of_id (Table.mem_rowsInRange.mp hin).1 hr hid
      rw [← hpatch]
      rfl

theorem recentWithContext_eq (db : Table) (limit : ℤ) (windowS : ℚ) :
    recentWithContext db limit windowS =
      (recentPage db limit).map (fun r => applyPatch r (patch db.rows windowS r)) := by
  unfold recentWithContext
  have hpage : ∀ s ∈ recentPage db limit, s ∈ db.rows := fun s => mem_recentPage
  split
  · next hnil =>
      rw [hnil]
      rfl
  · next r rest hcons =>
      rw [hcons] at hpage ⊢
      refine List.map_congr_left (fun s hs => ?_)
      have htimes : s.time = r.time ∨ s.time ∈ rest.map Heartbeat.time := by
        rcases List.mem_cons.mp hs with rfl | hs
        · exact .inl rfl
        · exact .inr (List.mem_map_of_mem hs)
      obtain ⟨hmin, hmins⟩ := foldl_min_le (rest.map Heartbeat.time) r.time
      obtain ⟨hmax, hmaxs⟩ := le_foldl_max (rest.map Heartbeat.time) r.time
      refine byId_eq db (hpage s hs) ?_ ?_
      · rcases htimes with heq | hmem
        · rwa [heq]
        · exact hmins _ hmem
      · rcases htimes with heq | hmem
        · rwa [heq]
        · exact hmaxs _ hmem

theorem recentWithContext_page (db : Table) (limit : ℤ) (windowS : ℚ) :
    List.Forall₂ (fun r r' => r'.id = r.id ∧ r' ∈ reattributeFileSaves db.rows windowS)
      (recentPage db limit) (recentWithContext db limit windowS) := by
  rw [recentWithContext_eq, List.forall₂_map_right_iff]
  refine List.forall₂_same.mpr (fun r hr => ⟨applyPatch_id .., ?_⟩)
  rw [reattributeFileSaves_eq]
  exact List.mem_map.mpr ⟨r, mem_recentPage hr, rfl⟩

/-- A range that shows all its rows fetched them. -/
theorem Consistent.fetched {db : Table} {low high windowS : ℚ}
    (h : Consistent db low high windowS) : Fetched db low high windowS := by
  intro r hr hlow hhigh
  have hin : applyPatch r (patch db.rows windowS r) ∈ reattributedRange db low high windowS := by
    rw [h.range, restricted_eq]
    exact List.mem_map.mpr ⟨r, Table.mem_rowsInRange.mpr ⟨hr, hlow, hhigh⟩, rfl⟩
  rw [reattributedRange_eq] at hin
  obtain ⟨c, hc, heq⟩ := List.mem_map.mp hin
  have hfetch := (Table.mem_rowsInRange.mp (List.mem_filter.mp hc).1).2
  have htime : c.time = r.time := by
    have := congrArg Heartbeat.time heq
    rwa [applyPatch_time, applyPatch_time] at this
  rwa [htime] at hfetch

/-- A range does not depend on its bounds exactly when the fetch for it leaves out none of
its rows. -/
theorem range_independent (db : Table) (low high windowS : ℚ) :
    Consistent db low high windowS ↔ Fetched db low high windowS := by
  constructor
  · exact Consistent.fetched
  · intro h
    constructor
    · rw [reattributedRange_eq, h.rowsInRange, restricted_eq]
    · exact fun limit => recentWithContext_page db limit windowS
    · exact reattributed_nearest db.rows windowS

/-- One row, ten seconds into the range. -/
def earlyRow : Heartbeat :=
  { id := 1, time := 10, machine := "mac", source := "webstorm", project := "alpha"
    entity := "/a.js", entityType := "file", category := "coding", language := none
    branch := none, isWrite := 1, actor := "human", tokensIn := 0, tokensOut := 0, cost := 0
    createdAt := 0 }

/-- A window of minus a minute narrows the fetch, and the row is not shown. -/
theorem range_narrowed :
    ¬Consistent ⟨[earlyRow], List.pairwise_singleton _ _⟩ 0 100 (-60) := by
  intro h
  have hfetch := h.fetched earlyRow (List.mem_singleton_self _)
    (by norm_num [earlyRow]) (by norm_num [earlyRow])
  norm_num [earlyRow] at hfetch

end Stackhour.Tracker.Exact
