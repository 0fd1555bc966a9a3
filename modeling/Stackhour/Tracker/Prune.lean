import Stackhour.Lib.System
import Stackhour.Tracker.Ranges

/-!
# Prune among writers

`prune` counts the rows before its transaction begins. Other connections commit between its
operations, except while it holds the write lock from `BEGIN IMMEDIATE` to the end of its
transaction.
-/

namespace Stackhour.Tracker.Exact

open Binary64 (Double)
open TransitionSystem

/-- `PruneOutcome`. -/
structure PruneOutcome where
  confirmed : Bool
  cutoff : Double
  heartbeatsDeleted : ℕ
  wakatimeDaysDeleted : ℕ

/-- How far a prune has come. `work` is what its open transaction sees. -/
inductive PruneStage where
  | opened
  | countedHeartbeats (heartbeats : ℕ)
  | counted (heartbeats days : ℕ)
  | began (heartbeats days : ℕ) (work : Stored)
  | deletedHeartbeats (heartbeats days : ℕ) (work : Stored)
  | deletedDays (heartbeats days : ℕ) (work : Stored)
  | rollingBack (error : String)
  | finished (result : Except String PruneOutcome)

/-- The database and a prune of it. `arrivedHeartbeats` and `arrivedDays` record the rows that
match the filter and were committed after they had been counted and before the transaction
began; `commit` records the database at the commit point and what the commit leaves of it. -/
structure Pruning where
  db : Stored
  stage : PruneStage
  arrivedHeartbeats : List Heartbeat
  arrivedDays : List WakatimeDay
  commit : Option (Stored × Stored)

/-- An operation of the prune succeeds or fails, or another connection commits: heartbeats that
are ingested, or a day that is imported. -/
inductive PruneLabel where
  | go
  | fail (error : String)
  | ingest (added : List Heartbeat)
  | importDay (day : WakatimeDay)

/-- `upsert_wakatime_day`. -/
def upsertDay (days : List WakatimeDay) (day : WakatimeDay) : List WakatimeDay :=
  if days.any (fun d => decide (d.date = day.date ∧ d.project = day.project)) then
    days.map (fun d => if d.date = day.date ∧ d.project = day.project then day else d)
  else days ++ [day]

namespace PruneStage

/-- Between `BEGIN IMMEDIATE` and the end of the transaction. -/
def locked : PruneStage → Bool
  | .began .. | .deletedHeartbeats .. | .deletedDays .. | .rollingBack _ => true
  | _ => false

/-- The heartbeats are counted, and may change. -/
def afterHeartbeats : PruneStage → Bool
  | .countedHeartbeats _ | .counted .. => true
  | _ => false

/-- The days are counted, and may change. -/
def afterDays : PruneStage → Bool
  | .counted .. => true
  | _ => false

end PruneStage

namespace Pruning

variable (before : Double) (confirm : Bool)

/-- The next operation of the prune. -/
def go (s : Pruning) : Option Pruning :=
  match s.stage with
  | .opened =>
      some { s with
        stage := .countedHeartbeats (s.db.heartbeats.rows.countP (oldHeartbeat before)) }
  | .countedHeartbeats heartbeats =>
      some { s with stage := .counted heartbeats (s.db.days.countP (oldDay before)) }
  | .counted heartbeats days =>
      if confirm then some { s with stage := .began heartbeats days s.db }
      else some { s with stage := .finished (.ok ⟨false, before, heartbeats, days⟩) }
  | .began heartbeats days work =>
      some { s with stage := .deletedHeartbeats heartbeats days (deleteHeartbeats before work) }
  | .deletedHeartbeats heartbeats days work =>
      some { s with stage := .deletedDays heartbeats days (deleteDays before work) }
  | .deletedDays heartbeats days work =>
      some { s with
        db := work
        stage := .finished (.ok ⟨true, before, heartbeats, days⟩)
        commit := some (s.db, work) }
  | .rollingBack error => some { s with stage := .finished (.error error) }
  | .finished _ => none

/-- The next operation fails. In the transaction it is rolled back, and an error of `ROLLBACK`
is dropped. -/
def fail (s : Pruning) (error : String) : Option Pruning :=
  match s.stage with
  | .opened | .countedHeartbeats _ => some { s with stage := .finished (.error error) }
  | .counted .. => if confirm then some { s with stage := .finished (.error error) } else none
  | .began .. | .deletedHeartbeats .. | .deletedDays .. =>
      some { s with stage := .rollingBack error }
  | .rollingBack first => some { s with stage := .finished (.error first) }
  | .finished _ => none

/-- A batch of heartbeats is committed, behind those that are there. -/
def ingest (s : Pruning) (added : List Heartbeat) : Option Pruning :=
  if h : (s.db.heartbeats.rows ++ added).Pairwise (fun a b => a.id < b.id) then
    some { s with
      db := { s.db with heartbeats := ⟨s.db.heartbeats.rows ++ added, h⟩ }
      arrivedHeartbeats := s.arrivedHeartbeats ++
        if s.stage.afterHeartbeats then added.filter (oldHeartbeat before) else [] }
  else none

/-- An imported day is committed. -/
def importDay (s : Pruning) (day : WakatimeDay) : Pruning :=
  { s with
    db := { s.db with days := upsertDay s.db.days day }
    arrivedDays := s.arrivedDays ++
      if s.stage.afterDays ∧ (upsertDay s.db.days day).length ≠ s.db.days.length then
        [day].filter (oldDay before)
      else [] }

def step (s : Pruning) : PruneLabel → Option Pruning
  | .go => s.go before confirm
  | .fail error => s.fail confirm error
  | .ingest added => if s.stage.locked then none else s.ingest before added
  | .importDay day => if s.stage.locked then none else some (s.importDay before day)

def Init (s : Pruning) : Prop :=
  s.stage = .opened ∧ s.arrivedHeartbeats = [] ∧ s.arrivedDays = [] ∧ s.commit = none

end Pruning

def pruneSystem (before : Double) (confirm : Bool) : System Pruning PruneLabel where
  init := Pruning.Init
  step := Pruning.step before confirm

/-! ## What the counts are -/

variable {before : Double} {confirm : Bool}

/-- The rows that match, and how many of them a deletion takes. -/
def matching (before : Double) (db : Stored) : ℕ × ℕ :=
  (db.heartbeats.rows.countP (oldHeartbeat before), db.days.countP (oldDay before))

theorem length_deleted (before : Double) (db : Stored) :
    db.heartbeats.rows.length -
        (deleteDays before (deleteHeartbeats before db)).heartbeats.rows.length =
      (matching before db).1 ∧
    db.days.length - (deleteDays before (deleteHeartbeats before db)).days.length =
      (matching before db).2 := by
  have hsplit : ∀ {α : Type} (p : α → Bool) (xs : List α),
      xs.length - (xs.filter (fun a => !p a)).length = xs.countP p := by
    intro α p xs
    have hlength := List.length_eq_countP_add_countP p (l := xs)
    rw [← List.countP_eq_length_filter]
    have hnot : xs.countP (fun a => !p a) = xs.countP (fun a => decide ¬ p a = true) := by
      refine List.countP_congr fun a _ => ?_
      simp
    omega
  exact ⟨hsplit _ _, hsplit _ _⟩

/-- The counts of a stage, with the rows that have arrived since, are those of the database. -/
def Counted (before : Double) (s : Pruning) (heartbeats days : ℕ) : Prop :=
  matching before s.db = (heartbeats + s.arrivedHeartbeats.length, days + s.arrivedDays.length)

theorem Counted.iff {s : Pruning} {heartbeats days : ℕ} : Counted before s heartbeats days ↔
    s.db.heartbeats.rows.countP (oldHeartbeat before) = heartbeats + s.arrivedHeartbeats.length ∧
      s.db.days.countP (oldDay before) = days + s.arrivedDays.length := Prod.ext_iff

/-- What holds of a prune, stage by stage. -/
def PruneInv (before : Double) (s : Pruning) : Prop :=
  match s.stage with
  | .opened => s.arrivedHeartbeats = [] ∧ s.arrivedDays = []
  | .countedHeartbeats heartbeats =>
      (matching before s.db).1 = heartbeats + s.arrivedHeartbeats.length ∧ s.arrivedDays = []
  | .counted heartbeats days => Counted before s heartbeats days
  | .began heartbeats days work => work = s.db ∧ Counted before s heartbeats days
  | .deletedHeartbeats heartbeats days work =>
      work = deleteHeartbeats before s.db ∧ Counted before s heartbeats days
  | .deletedDays heartbeats days work =>
      work = deleteDays before (deleteHeartbeats before s.db) ∧ Counted before s heartbeats days
  | .rollingBack _ => True
  | .finished result => ∀ o, result = .ok o → o.confirmed = true → ∃ db,
      s.commit = some (db, deleteDays before (deleteHeartbeats before db)) ∧
        matching before db = (o.heartbeatsDeleted + s.arrivedHeartbeats.length,
          o.wakatimeDaysDeleted + s.arrivedDays.length)

/-- A day that is imported adds a row, or takes the place of one with its date. -/
theorem countP_upsertDay (days : List WakatimeDay) (day : WakatimeDay) :
    (upsertDay days day).countP (oldDay before) = days.countP (oldDay before) +
      (if (upsertDay days day).length ≠ days.length then [day].filter (oldDay before)
        else []).length := by
  unfold upsertDay
  split
  · have hsame : ∀ d : WakatimeDay, oldDay before (if d.date = day.date ∧ d.project = day.project
        then day else d) = oldDay before d := by
      intro d
      split
      · next h =>
          unfold oldDay
          rw [h.1]
      · rfl
    rw [List.countP_map, List.length_map, if_neg (not_not.mpr rfl)]
    exact List.countP_congr fun d _ => by rw [Function.comp_apply, hsame]
  · rw [List.countP_append, List.length_append, if_pos (by simp), ← List.countP_eq_length_filter]

/-! ## Each step keeps the counts -/

theorem PruneInv.go {s t : Pruning} (h : PruneInv before s) (hstep : s.go before confirm = some t) :
    PruneInv before t := by
  obtain ⟨db, stage, arrivedHeartbeats, arrivedDays, commit⟩ := s
  cases stage with
  | opened =>
      obtain ⟨rfl, rfl⟩ := h
      cases hstep
      exact ⟨rfl, rfl⟩
  | countedHeartbeats heartbeats =>
      obtain ⟨hheartbeats, rfl⟩ := h
      cases hstep
      exact Prod.ext hheartbeats rfl
  | counted heartbeats days =>
      cases confirm with
      | true =>
          cases hstep
          exact ⟨rfl, h⟩
      | false =>
          cases hstep
          rintro o ⟨⟩ ⟨⟩
  | began heartbeats days work =>
      obtain ⟨rfl, hcounted⟩ := h
      cases hstep
      exact ⟨rfl, hcounted⟩
  | deletedHeartbeats heartbeats days work =>
      obtain ⟨hwork, hcounted⟩ := h
      cases hstep
      exact ⟨congrArg (deleteDays before) hwork, hcounted⟩
  | deletedDays heartbeats days work =>
      obtain ⟨hwork, hcounted⟩ := h
      cases hstep
      rintro o ⟨⟩ -
      exact ⟨db, congrArg (fun left => some (db, left)) hwork, hcounted⟩
  | rollingBack error =>
      cases hstep
      rintro o ⟨⟩
  | finished result => cases hstep

theorem PruneInv.fail {s t : Pruning} {error : String} (hstep : s.fail confirm error = some t) :
    PruneInv before t := by
  obtain ⟨db, stage, arrivedHeartbeats, arrivedDays, commit⟩ := s
  cases stage with
  | counted heartbeats days =>
      cases confirm with
      | true =>
          cases hstep
          rintro o ⟨⟩
      | false => cases hstep
  | began | deletedHeartbeats | deletedDays =>
      cases hstep
      trivial
  | finished result => cases hstep
  | _ =>
      cases hstep
      rintro o ⟨⟩

theorem PruneInv.ingest {s t : Pruning} {added : List Heartbeat} (h : PruneInv before s)
    (hfree : s.stage.locked = false) (hstep : s.ingest before added = some t) :
    PruneInv before t := by
  obtain ⟨db, stage, arrivedHeartbeats, arrivedDays, commit⟩ := s
  unfold Pruning.ingest at hstep
  split at hstep
  · cases hstep
    have happend : (db.heartbeats.rows ++ added).countP (oldHeartbeat before) =
        db.heartbeats.rows.countP (oldHeartbeat before) +
          (added.filter (oldHeartbeat before)).length := by
      rw [List.countP_append, List.countP_eq_length_filter (l := added)]
    cases stage with
    | opened =>
        obtain ⟨rfl, rfl⟩ := h
        exact ⟨rfl, rfl⟩
    | countedHeartbeats heartbeats =>
        obtain ⟨hheartbeats, hdays⟩ := h
        refine ⟨happend.trans ?_, hdays⟩
        rw [show db.heartbeats.rows.countP _ = _ from hheartbeats]
        simp [PruneStage.afterHeartbeats, add_assoc]
    | counted heartbeats days =>
        obtain ⟨hheartbeats, hdays⟩ := Counted.iff.mp h
        refine Counted.iff.mpr ⟨happend.trans ?_, hdays⟩
        rw [hheartbeats]
        simp [PruneStage.afterHeartbeats, add_assoc]
    | finished result =>
        intro o hresult hconfirmed
        simpa [PruneStage.afterHeartbeats] using h o hresult hconfirmed
    | _ => cases hfree
  · cases hstep

theorem PruneInv.importDay {s : Pruning} (day : WakatimeDay) (h : PruneInv before s)
    (hfree : s.stage.locked = false) : PruneInv before (s.importDay before day) := by
  obtain ⟨db, stage, arrivedHeartbeats, arrivedDays, commit⟩ := s
  cases stage with
  | opened =>
      obtain ⟨rfl, rfl⟩ := h
      exact ⟨rfl, rfl⟩
  | countedHeartbeats heartbeats =>
      obtain ⟨hheartbeats, rfl⟩ := h
      exact ⟨hheartbeats, rfl⟩
  | counted heartbeats days =>
      obtain ⟨hheartbeats, hdays⟩ := Counted.iff.mp h
      refine Counted.iff.mpr ⟨hheartbeats, (countP_upsertDay db.days day).trans ?_⟩
      rw [hdays]
      simp [Pruning.importDay, PruneStage.afterDays, add_assoc]
  | finished result =>
      intro o hresult hconfirmed
      simpa [Pruning.importDay, PruneStage.afterDays] using h o hresult hconfirmed
  | _ => cases hfree

/-- **The counts are those of the rows that have not arrived since**, in every state of every
run. -/
theorem Reach.pruneInv {s : Pruning} (h : (pruneSystem before confirm).Reach Anyway s) :
    PruneInv before s := by
  refine h.invariant ?_ ?_
  · rintro s ⟨hstage, hheartbeats, hdays, -⟩
    unfold PruneInv
    rw [hstage]
    exact ⟨hheartbeats, hdays⟩
  · intro s a t hinv _ hstep
    cases a with
    | go => exact hinv.go hstep
    | fail error => exact PruneInv.fail hstep
    | ingest added =>
        obtain ⟨hfree, hstep⟩ := Option.ite_none_left_eq_some.mp hstep
        exact hinv.ingest (Bool.eq_false_iff.mpr hfree) hstep
    | importDay day =>
        obtain ⟨hfree, hstep⟩ := Option.ite_none_left_eq_some.mp hstep
        cases hstep
        exact hinv.importDay day (Bool.eq_false_iff.mpr hfree)

/-! ## What is reported -/

theorem Reach.finished {s : Pruning} {o : PruneOutcome}
    (h : (pruneSystem before confirm).Reach Anyway s) (hdone : s.stage = .finished (.ok o))
    (hconfirmed : o.confirmed = true) : ∃ db,
      s.commit = some (db, deleteDays before (deleteHeartbeats before db)) ∧
        matching before db = (o.heartbeatsDeleted + s.arrivedHeartbeats.length,
          o.wakatimeDaysDeleted + s.arrivedDays.length) := by
  have hinv := Reach.pruneInv h
  unfold PruneInv at hinv
  rw [hdone] at hinv
  exact hinv o rfl hconfirmed

/-- The rows that are left are those of the database at the commit point that do not match. -/
def Leaves (before : Double) (db left : Stored) : Prop :=
  left.heartbeats.rows = db.heartbeats.rows.filter (fun r => !oldHeartbeat before r) ∧
    left.days = db.days.filter (fun d => !oldDay before d)

/-- The counts of the outcome are the numbers of rows that the transaction deleted, and what it
leaves is right. -/
def Reports (before : Double) (s : Pruning) (o : PruneOutcome) : Prop :=
  ∃ db left, s.commit = some (db, left) ∧ Leaves before db left ∧
    o.heartbeatsDeleted = db.heartbeats.rows.length - left.heartbeats.rows.length ∧
    o.wakatimeDaysDeleted = db.days.length - left.days.length

/-- What a confirmed prune leaves is right, whatever is committed before it begins. -/
theorem prune_leaves {s : Pruning} {o : PruneOutcome}
    (h : (pruneSystem before confirm).Reach Anyway s) (hdone : s.stage = .finished (.ok o))
    (hconfirmed : o.confirmed = true) :
    ∃ db left, s.commit = some (db, left) ∧ Leaves before db left := by
  obtain ⟨db, hcommit, -⟩ := Reach.finished h hdone hconfirmed
  exact ⟨db, _, hcommit, rfl, rfl⟩

/-- **A prune reports what it deleted** exactly when no row that matches is committed between
the count of its table and the begin of the transaction. -/
theorem prune_reports {s : Pruning} {o : PruneOutcome}
    (h : (pruneSystem before confirm).Reach Anyway s) (hdone : s.stage = .finished (.ok o))
    (hconfirmed : o.confirmed = true) :
    Reports before s o ↔ s.arrivedHeartbeats = [] ∧ s.arrivedDays = [] := by
  obtain ⟨db, hcommit, hcounted⟩ := Reach.finished h hdone hconfirmed
  obtain ⟨hheartbeats, hdays⟩ := Prod.ext_iff.mp hcounted
  obtain ⟨hgone, hgoneDays⟩ := length_deleted before db
  constructor
  · rintro ⟨db', left, hcommit', -, hreported, hreportedDays⟩
    obtain ⟨rfl, rfl⟩ := Prod.mk.inj (Option.some.inj (hcommit.symm.trans hcommit'))
    rw [hgone, hheartbeats] at hreported
    rw [hgoneDays, hdays] at hreportedDays
    constructor
    · exact List.length_eq_zero_iff.mp (by simpa using hreported.symm)
    · exact List.length_eq_zero_iff.mp (by simpa using hreportedDays.symm)
  · rintro ⟨hnone, hnoDays⟩
    rw [hnone] at hheartbeats
    rw [hnoDays] at hdays
    exact ⟨db, _, hcommit, ⟨rfl, rfl⟩, (hgone.trans hheartbeats).symm,
      (hgoneDays.trans hdays).symm⟩

/-- The bound of the runs below. -/
def hundred : Double := ⟨100, Binary64.representable_int (n := 100) (by decide)⟩

/-- A heartbeat of that time. -/
def beatAt (id : ℤ) (time : ℚ) : Heartbeat where
  id := id
  time := time
  machine := "m"
  source := "vscode"
  project := "p"
  entity := "a.rs"
  entityType := "file"
  category := "coding"
  language := none
  branch := none
  isWrite := 0
  actor := "human"
  tokensIn := 0
  tokensOut := 0
  cost := 0
  createdAt := time

/-- A database with one old heartbeat, opened for a prune. -/
def oneOld : Pruning where
  db := ⟨⟨[beatAt 1 50], List.pairwise_singleton _ _⟩, []⟩
  stage := .opened
  arrivedHeartbeats := []
  arrivedDays := []
  commit := none

/-- The run of a prune during which a heartbeat is ingested, after the counts. -/
def ingestBetween (time : ℚ) : List PruneLabel :=
  [.go, .go, .ingest [beatAt 2 time], .go, .go, .go, .go]

theorem runs_from_oneOld (time : ℚ) {s : Pruning}
    (hrun : (pruneSystem hundred true).run oneOld (ingestBetween time) = some s) :
    (pruneSystem hundred true).Reach Anyway s :=
  System.Reach.of_run (.start ⟨rfl, rfl, rfl, rfl⟩) hrun

/-- A heartbeat that is kept changes nothing. -/
theorem prune_reports_sample : ∃ s o,
    (pruneSystem hundred true).run oneOld (ingestBetween 150) = some s ∧
      s.stage = .finished (.ok o) ∧ o.confirmed = true ∧
      (Reports hundred s o ↔ s.arrivedHeartbeats = [] ∧ s.arrivedDays = []) := by
  refine ⟨_, ⟨true, hundred, 1, 0⟩, rfl, rfl, rfl, @prune_reports hundred true _ _ ?_ rfl rfl⟩
  exact runs_from_oneOld 150 rfl

/-- An old heartbeat that is ingested after the counts is deleted and not counted. -/
theorem late_heartbeat_not_counted : ¬ ∀ (before : Double) (s : Pruning) (o : PruneOutcome),
    (pruneSystem before true).Reach Anyway s → s.stage = .finished (.ok o) →
      o.confirmed = true → Reports before s o := by
  intro h
  obtain ⟨db, left, hcommit, -, hreported, -⟩ :=
    h hundred _ _ (runs_from_oneOld 50 rfl) rfl rfl
  obtain ⟨rfl, rfl⟩ := Prod.mk.inj (Option.some.inj hcommit)
  exact absurd hreported (by decide)

end Stackhour.Tracker.Exact
