import Stackhour.Hub.System

/-!
# Projections of the event log

The status columns of runs and tasks are projections of lifecycle events. Two
kinds of event move the log without its projection: a recorded interruption
command, and a node's own `run.started`. And a task takes its status from
whichever run reported last. The conditions under which the columns are right
are stated on the steps, and each is shown to be needed.
-/

namespace Stackhour.Hub

open Domain TransitionSystem HubState

/-! ## The status of a run -/

/-- The status a lifecycle event gives its run. -/
def lifecycleStatus : EventKind → Option RunStatus
  | .runStarted => some .started
  | .runInterrupted => some .interrupted
  | .runCompleted => some .completed
  | .runFailed => some .failed
  | _ => none

/-- One event of the fold. -/
def applyStatus (st : RunId → Option RunStatus) (e : EventRow) (r : RunId) : Option RunStatus :=
  if e.runId = some r then (lifecycleStatus e.kind).or (st r) else st r

/-- Fold the log from empty: the latest lifecycle event of each run decides.
The rows of the log are in sequence order. -/
def foldStatus (events : List EventRow) : RunId → Option RunStatus :=
  events.foldl applyStatus (fun _ => none)

theorem foldStatus_snoc (events : List EventRow) (e : EventRow) :
    foldStatus (events ++ [e]) = applyStatus (foldStatus events) e := by
  unfold foldStatus
  rw [List.foldl_append]
  rfl

/-- The run rows are what the log says. -/
structure Projected (s : Store) : Prop where
  started : ∀ r ∈ s.runs.map RunOf.id, ∃ e ∈ s.events, e.kind = .runStarted ∧ e.runId = some r
  status : ∀ r, foldStatus s.events r = (Table.lookup RunOf.id s.runs r).map RunOf.status

/-- The stored status of a run. -/
def storedStatus (s : Store) (r : RunId) : Option RunStatus :=
  (Table.lookup RunOf.id s.runs r).map RunOf.status

/-- The steps that keep the projection: an interruption is recorded only for a
run already interrupted, and a node's `run.started` is appended only for a run
still started. -/
def KeepsRunStatus (h : HubState) : HubLabel → Prop
  | .command env (.interruptRun c r) n =>
      (∃ plan, Records env h n (.interruptRun c r) plan) →
        storedStatus h.hub r = some .interrupted
  | .nodeEvent validate append _ n id d =>
      d.kind = .runStarted → (h.acceptsNodeEvent validate n d).2 = .ok true →
        CommitsEvent append h.hub id d →
          ∀ r, d.runId = some r → storedStatus h.hub r = some .started
  | _ => True

namespace Projected

variable {s s' : Store}

theorem congr (h : Projected s) (he : s'.events = s.events) (hr : s'.runs = s.runs) :
    Projected s' := by
  constructor
  · rw [hr, he]
    exact h.started
  · rw [hr, he]
    exact h.status

/-- An event that says what the row already holds, or nothing, keeps the
projection. -/
theorem append_same (h : Projected s) {e : EventRow} (he : s'.events = s.events ++ [e])
    (hr : s'.runs = s.runs)
    (hsame : ∀ x r, lifecycleStatus e.kind = some x → e.runId = some r →
      storedStatus s r = some x) : Projected s' := by
  constructor
  · intro r hmem
    rw [hr] at hmem
    obtain ⟨e', he', hkey⟩ := h.started r hmem
    exact ⟨e', he ▸ List.mem_append_left _ he', hkey⟩
  · intro r
    rw [he, hr, foldStatus_snoc]
    unfold applyStatus
    split
    · next hr' =>
        cases hx : lifecycleStatus e.kind with
        | none => exact h.status r
        | some x => exact (hsame x r hx hr').symm
    · exact h.status r

/-- The event that starts a run, with its row. -/
theorem append_run (h : Projected s) {e : EventRow} {run : Run} (hk : e.kind = .runStarted)
    (hrun : e.runId = some run.id) (hst : run.status = .started)
    (hf : run.id ∉ s.runs.map RunOf.id) (he : s'.events = s.events ++ [e])
    (hr : s'.runs = s.runs ++ [run.toRow]) : Projected s' := by
  have hid : run.toRow.id = run.id := rfl
  constructor
  · intro r hmem
    rw [hr, List.map_append, List.mem_append, List.map_singleton, List.mem_singleton] at hmem
    rcases hmem with hmem | rfl
    · obtain ⟨e', he', hkey⟩ := h.started r hmem
      exact ⟨e', he ▸ List.mem_append_left _ he', hkey⟩
    · exact ⟨e, he ▸ List.mem_append_right _ (List.mem_singleton_self e), hk, hrun⟩
  · intro r
    rw [he, hr, foldStatus_snoc]
    simp only [applyStatus, hk, hrun, lifecycleStatus, Option.some.injEq, Option.some_or]
    split
    · next heq =>
        rw [← heq, ← hid, Table.lookup_snoc_self (hid ▸ hf)]
        exact congrArg some hst.symm
    · next hne =>
        rw [Table.lookup_snoc_of_ne (hid ▸ hne)]
        exact h.status r

/-- A terminal event with the projection of its run. -/
theorem append_terminal (h : Projected s) {e : EventRow} {r : RunId} {x : RunStatus}
    (hx : lifecycleStatus e.kind = some x) (hr : e.runId = some r)
    (hmem : r ∈ s.runs.map RunOf.id) (he : s'.events = s.events ++ [e])
    (hruns : s'.runs = (s.setRunStatus r x).runs) : Projected s' := by
  constructor
  · intro r' hr'
    rw [hruns, Store.setRunStatus_ids] at hr'
    obtain ⟨e', he', hkey⟩ := h.started r' hr'
    exact ⟨e', he ▸ List.mem_append_left _ he', hkey⟩
  · intro r'
    have hlookup : Table.lookup RunOf.id s'.runs r' =
        (Table.lookup RunOf.id s.runs r').map
          (fun row : RunRow => if row.id = r then { row with status := x } else row) := by
      rw [hruns]
      unfold Store.setRunStatus
      exact Table.lookup_update (by intro row; rfl) _
    rw [he, foldStatus_snoc, hlookup]
    simp only [applyStatus, hx, hr, Option.some.injEq, Option.some_or]
    obtain ⟨row, hrow⟩ := Option.isSome_iff_exists.mp (Table.lookup_isSome.mpr hmem)
    split
    · next heq =>
        rw [← heq, hrow]
        simp [(Table.mem_of_lookup hrow).2]
    · next hne =>
        rw [h.status r']
        cases hl : Table.lookup RunOf.id s.runs r' with
        | none => rfl
        | some row' => simp [(Table.mem_of_lookup hl).2, Ne.symm hne]

end Projected

/-- A terminal status is the lifecycle status of its event. -/
theorem lifecycleStatus_of_terminal {k : EventKind} {x : RunStatus} {t : TaskStatus} {w : Bool}
    (h : Store.terminalOf k = some (x, t, w)) : lifecycleStatus k = some x := by
  cases k <;> cases h <;> rfl

theorem lifecycleStatus_of_not_terminal {k : EventKind} (h : Store.terminalOf k = none)
    (hs : k ≠ .runStarted) : lifecycleStatus k = none := by
  cases k <;> first | rfl | contradiction

/-- **One step** that meets the condition keeps the projection. -/
theorem Projected.step {h : HubState} (hp : Projected h.hub) (hc : CacheOk h) {a : HubLabel}
    (hok : KeepsRunStatus h a) : Projected (h.step a).hub := by
  have hchange := step_change h a
  generalize (h.step a).hub = s' at hchange
  cases hchange with
  | quiet events tasks runs => exact hp.congr events runs
  | link e kind notStarted events tasks runs =>
      refine hp.append_same events runs fun x r hx _ => ?_
      rw [lifecycleStatus_of_not_terminal kind notStarted] at hx
      cases hx
  | @recorded env cmd n plan ap hrec =>
      have hplan := planCommand_planOf hrec.2.1
      cases cmd with
      | createTask c title =>
          obtain ⟨hk, -, -, t, he, -⟩ := hplan
          refine hp.append_same rfl ?_ fun x r hx _ => ?_
          · simp only [Store.bundled, he, EntityWrite.onRuns]
          · simp [Store.commandEvent, Store.eventRow, hk, lifecycleStatus] at hx
      | sendUserMessage c t r text mid =>
          obtain ⟨hk, he, -⟩ := hplan
          refine hp.append_same rfl ?_ fun x r hx _ => ?_
          · simp only [Store.bundled, he, EntityWrite.onRuns]
          · simp [Store.commandEvent, Store.eventRow, hk, lifecycleStatus] at hx
      | startRun c t nodeId engine model effort prompt policy workspace =>
          obtain ⟨hk, run, he, -, hst, hr, -⟩ := hplan
          have hf := hrec.2.2.2.2.2.1
          rw [he] at hf
          refine hp.append_run hk hr hst hf rfl ?_
          simp only [Store.bundled, he, EntityWrite.onRuns]
      | interruptRun c r =>
          obtain ⟨hk, hr, he, -⟩ := hplan
          refine hp.append_same rfl ?_ fun x r' hx hr' => ?_
          · simp only [Store.bundled, he, EntityWrite.onRuns]
          · simp only [Store.commandEvent, Store.eventRow, hk, hr, lifecycleStatus,
              Option.some.injEq] at hx hr'
            subst hx hr'
            exact hok ⟨plan, hrec⟩
      | resolveApproval c id decision actor =>
          obtain ⟨hk, he, -⟩ := hplan
          refine hp.append_same rfl ?_ fun x r hx _ => ?_
          · simp only [Store.bundled, he, EntityWrite.onRuns]
          · simp [Store.commandEvent, Store.eventRow, hk, lifecycleStatus] at hx
  | @accepted validate append fetch n id d hacc hcommits =>
      obtain ⟨-, r, hr, hb⟩ := (hc.acceptsNodeEvent validate n d).2 hacc
      have hmem : r ∈ h.hub.runs.map RunOf.id := by
        have := List.mem_map_of_mem (f := Prod.fst) hb
        rwa [bindings, List.map_map] at this
      cases hterm : Store.terminalOf d.kind with
      | none =>
          have hruns : (h.hub.nodeAppended append id d).runs = h.hub.runs := by
            simp only [Store.nodeAppended, Store.terminalStatuses, hterm]
          refine hp.append_same rfl hruns fun x r' hx hr' => ?_
          by_cases hs : d.kind = .runStarted
          · simp only [Store.nodeEvent, Store.eventRow, hs, lifecycleStatus,
              Option.some.injEq] at hx
            exact hx ▸ hok hs hacc hcommits r' hr'
          · simp only [Store.nodeEvent, Store.eventRow,
              lifecycleStatus_of_not_terminal hterm hs] at hx
            cases hx
      | some st =>
          obtain ⟨x, t, w⟩ := st
          refine hp.append_terminal (lifecycleStatus_of_terminal hterm) hr hmem rfl ?_
          simp only [Store.nodeAppended, Store.terminalStatuses, hterm, hr]
          rfl

/-- The condition is needed: a step that breaks it breaks the projection. -/
theorem Projected.step_needed {h : HubState} {a : HubLabel}
    (hp : Projected (h.step a).hub) : KeepsRunStatus h a := by
  cases a with
  | command env cmd n =>
      cases cmd with
      | interruptRun c r =>
          rintro ⟨plan, hrec⟩
          obtain ⟨hk, hr, he, -⟩ := planCommand_planOf hrec.2.1
          obtain ⟨ap, hhub⟩ := recorded_hub hrec
          have hst := hp.status r
          simp only [HubState.step, hhub, Store.bundled, foldStatus_snoc, he,
            EntityWrite.onRuns, applyStatus, Store.commandEvent, Store.eventRow, hk, hr,
            lifecycleStatus, if_true, Option.some_or] at hst
          exact hst.symm
      | createTask c title => trivial
      | sendUserMessage c t r text mid => trivial
      | startRun c t nodeId engine model effort prompt policy workspace => trivial
      | resolveApproval c id decision actor => trivial
  | nodeEvent validate append fetch n id d =>
      intro hk hacc hc r hr
      have hst := hp.status r
      have hruns : (h.hub.nodeAppended append id d).runs = h.hub.runs := by
        simp only [Store.nodeAppended, Store.terminalStatuses, hk, Store.terminalOf]
      rw [HubState.step, accepted_hub fetch hacc hc, hruns] at hst
      simp only [Store.nodeAppended, foldStatus_snoc, applyStatus, Store.nodeEvent,
        Store.eventRow, hk, hr, lifecycleStatus, if_true, Option.some_or] at hst
      exact hst.symm
  | commandAck env n c => trivial
  | register upsert append fetch hello now => trivial
  | unregister read upsert append fetch n c now => trivial
  | registerWorker env channel t => trivial
  | restart => trivial

/-- **The run projection follows the log** in every state reached by steps that
meet the condition. -/
theorem run_status_follows_log {h : HubState} (hr : system.Reach KeepsRunStatus h) :
    Projected h.hub := by
  have hinv : Projected h.hub ∧ CacheOk h := by
    refine System.Reach.invariant (P := fun h => Projected h.hub ∧ CacheOk h) ?_ ?_ hr
    · rintro g hg
      refine ⟨?_, CacheOk.init hg⟩
      obtain ⟨refusal, nodeSecret, clientSecret, rfl⟩ := hg
      obtain ⟨m, hm⟩ := Store.runMigrations_fst refusal Store.blank
      simp only [fromHub, hm]
      exact ⟨fun r hr => absurd hr List.not_mem_nil, fun _ => rfl⟩
    · rintro g a t ⟨hp, hc⟩ hok hs
      obtain rfl := Option.some.inj hs
      exact ⟨hp.step hc hok, hc.step a⟩
  exact hinv.1

/-- A run is started and reported complete. -/
theorem run_status_follows_log_sample :
    Projected (after [arrival "n", starting 10 7, report "n" 20 .runCompleted 7 10]).hub := by
  have hstart : system.Reach KeepsRunStatus freshHub := .start fresh_init
  have harrived := hstart.next (a := arrival "n") trivial rfl
  have hstarted := harrived.next (a := starting 10 7) trivial rfl
  refine run_status_follows_log (hstarted.next (a := report "n" 20 .runCompleted 7 10) ?_ rfl)
  intro hkind
  cases hkind

/-- A client interrupts a started run: the log says interrupted, the row says
started. -/
theorem interruption_not_projected : ¬ ∀ h, system.Reach Anyway h → Projected h.hub := by
  intro hall
  have hp := hall _ (after_reach [arrival "n", starting 10 7,
    .command (plainCommand 11) (.interruptRun ⟨11⟩ ⟨10⟩) none])
  exact absurd (hp.status ⟨10⟩) (by decide)

/-! ## The status of a task -/

/-- A run of the task is executing: started and not terminal. -/
def Executing (s : Store) (t : TaskId) : Prop :=
  ∃ r ∈ s.runs, r.taskId = t ∧ r.status = .started

/-- A task is running exactly while one of its runs is. -/
def TasksAgree (s : Store) : Prop :=
  ∀ t ∈ s.tasks, t.status = .running ↔ Executing s t.id

/-- The steps that keep tasks and runs in agreement: a terminal event of a task
is appended only when no other run of the task is executing, and the id minted
for a new task is not one that an executing run already names. -/
def KeepsTaskStatus (h : HubState) : HubLabel → Prop
  | .command env (.createTask c title) n =>
      (∃ plan, Records env h n (.createTask c title) plan) →
        ¬ Executing h.hub ⟨env.entityId⟩
  | .nodeEvent validate append _ n id d =>
      (Store.terminalOf d.kind).isSome → (h.acceptsNodeEvent validate n d).2 = .ok true →
        CommitsEvent append h.hub id d → d.taskId ∈ h.hub.tasks.map TaskOf.id →
          ∀ r ∈ h.hub.runs, r.taskId = d.taskId → r.status = .started → d.runId = some r.id
  | _ => True

/-- A terminal event ends its run and its task. -/
theorem terminalOf_ne {k : EventKind} {x : RunStatus} {t : TaskStatus} {w : Bool}
    (h : Store.terminalOf k = some (x, t, w)) : x ≠ .started ∧ t ≠ .running := by
  cases k <;> cases h <;> decide

theorem TasksAgree.congr {s s' : Store} (h : TasksAgree s) (ht : s'.tasks = s.tasks)
    (hr : s'.runs = s.runs) : TasksAgree s' := by
  unfold TasksAgree Executing
  rw [ht, hr]
  exact h

/-- A new run makes its task running and touches no other. -/
theorem TasksAgree.start_run {s s' : Store} (h : TasksAgree s) {run : Run}
    (hst : run.status = .started) (hr : s'.runs = s.runs ++ [run.toRow])
    (ht : s'.tasks = Table.update TaskOf.id run.taskId
      (fun t => { t with status := .running }) s.tasks) : TasksAgree s' := by
  have hexec : ∀ t, Executing s' t ↔ Executing s t ∨ run.taskId = t := by
    intro t
    unfold Executing
    rw [hr]
    constructor
    · rintro ⟨r, hmem, htask, hs⟩
      rcases List.mem_append.mp hmem with hmem | hmem
      · exact .inl ⟨r, hmem, htask, hs⟩
      · rw [List.mem_singleton] at hmem
        subst hmem
        exact .inr htask
    · rintro (⟨r, hmem, hkey⟩ | htask)
      · exact ⟨r, List.mem_append_left _ hmem, hkey⟩
      · exact ⟨run.toRow, List.mem_append_right _ (List.mem_singleton_self _), htask, hst⟩
  intro t hmem
  rw [ht] at hmem
  rw [hexec]
  obtain ⟨t₀, -, hid, rfl⟩ | ⟨hmem, hne⟩ := Table.mem_update.mp hmem
  · exact iff_of_true rfl (.inr hid.symm)
  · rw [h t hmem]
    exact ⟨.inl, fun hor => hor.resolve_right (Ne.symm hne)⟩

/-- A task that no executing run names is created open. -/
theorem TasksAgree.create_task {s s' : Store} (h : TasksAgree s) {task : Task}
    (hst : task.status = .open) (hnone : ¬ Executing s task.id)
    (ht : s'.tasks = s.tasks ++ [task.toRow]) (hr : s'.runs = s.runs) : TasksAgree s' := by
  intro t hmem
  unfold Executing
  rw [hr]
  rw [ht] at hmem
  rcases List.mem_append.mp hmem with hmem | hmem
  · exact h t hmem
  · rw [List.mem_singleton] at hmem
    subst hmem
    refine iff_of_false (fun heq => ?_) hnone
    cases hst.symm.trans heq

/-- The runs that execute after the status of one run became `x`. -/
theorem executing_setRunStatus {s : Store} {r : RunId}
    {x : RunStatus} (hx : x ≠ .started) (t : TaskId) :
    Executing (s.setRunStatus r x) t ↔
      ∃ row ∈ s.runs, row.taskId = t ∧ row.status = .started ∧ row.id ≠ r := by
  unfold Executing Store.setRunStatus
  constructor
  · rintro ⟨row, hmem, htask, hs⟩
    obtain ⟨row₀, -, -, rfl⟩ | ⟨hmem, hne⟩ := Table.mem_update.mp hmem
    · exact absurd hs hx
    · exact ⟨row, hmem, htask, hs, hne⟩
  · rintro ⟨row, hmem, htask, hs, hne⟩
    exact ⟨row, Table.mem_update.mpr (.inr ⟨hmem, hne⟩), htask, hs⟩

/-- A terminal event of the last executing run of its task. -/
theorem TasksAgree.finish_run {s : Store} (h : TasksAgree s)
    (hu : Table.Unique RunOf.id s.runs) {r : RunId} {n : NodeId} {t : TaskId}
    (hb : (r, n, t) ∈ bindings s) {x : RunStatus} {y : TaskStatus} (hx : x ≠ .started)
    (hy : y ≠ .running)
    (hlast : t ∈ s.tasks.map TaskOf.id →
      ∀ row ∈ s.runs, row.taskId = t → row.status = .started → row.id = r) :
    TasksAgree ((s.setRunStatus r x).setTaskStatus t y) := by
  obtain ⟨row₀, hrow₀, hkey⟩ := List.mem_map.mp hb
  obtain ⟨hid, hrest⟩ := Prod.mk.inj hkey
  obtain ⟨-, htask⟩ := Prod.mk.inj hrest
  intro task hmem
  have hexec : Executing ((s.setRunStatus r x).setTaskStatus t y) task.id ↔
      ∃ row ∈ s.runs, row.taskId = task.id ∧ row.status = .started ∧ row.id ≠ r :=
    executing_setRunStatus hx task.id
  rw [hexec]
  obtain ⟨task₀, hmem₀, hid₀, rfl⟩ | ⟨hmem, hne⟩ := Table.mem_update.mp hmem
  · -- the task of the event
    refine iff_of_false hy ?_
    rintro ⟨row, hrow, htask', hs, hne⟩
    exact hne (hlast (hid₀ ▸ List.mem_map_of_mem hmem₀) row hrow (htask'.trans hid₀) hs)
  · -- another task: its runs are not `r`
    rw [h task hmem]
    refine ⟨?_, fun ⟨row, hrow, htask', hs, _⟩ => ⟨row, hrow, htask', hs⟩⟩
    rintro ⟨row, hrow, htask', hs⟩
    refine ⟨row, hrow, htask', hs, fun heq => hne ?_⟩
    have hsame : row = row₀ := List.inj_on_of_nodup_map hu hrow hrow₀ (heq.trans hid.symm)
    rw [← htask', hsame, htask]

/-- Run ids stay unique. -/
theorem unique_runs_step {h : HubState} (hu : Table.Unique RunOf.id h.hub.runs) (a : HubLabel) :
    Table.Unique RunOf.id (h.step a).hub.runs := by
  have hchange := step_change h a
  generalize (h.step a).hub = s' at hchange
  cases hchange with
  | quiet events tasks runs => exact runs ▸ hu
  | link e kind notStarted events tasks runs => exact runs ▸ hu
  | @recorded env cmd n plan ap hrec =>
      have hf := hrec.2.2.2.2.2.1
      simp only [Store.bundled]
      cases he : plan.entity with
      | none => exact hu
      | task t => exact hu
      | run r =>
          rw [he] at hf
          exact hu.snoc (r := r.toRow) hf
  | accepted accepted commits =>
      unfold Table.Unique Store.nodeAppended
      rw [Store.terminalStatuses_runIds]
      exact hu

/-- **One step** that meets the condition keeps the agreement. -/
theorem TasksAgree.step {h : HubState} (ht : TasksAgree h.hub) (hc : CacheOk h)
    (hu : Table.Unique RunOf.id h.hub.runs) {a : HubLabel} (hok : KeepsTaskStatus h a) :
    TasksAgree (h.step a).hub := by
  have hchange := step_change h a
  generalize (h.step a).hub = s' at hchange
  cases hchange with
  | quiet events tasks runs => exact ht.congr tasks runs
  | link e kind notStarted events tasks runs => exact ht.congr tasks runs
  | @recorded env cmd n plan ap hrec =>
      have hplan := planCommand_planOf hrec.2.1
      cases cmd with
      | createTask c title =>
          obtain rfl : planCreateTask env title = plan := Except.ok.inj hrec.2.1
          exact ht.create_task rfl (hok ⟨_, hrec⟩) rfl rfl
      | startRun c t nodeId engine model effort prompt policy workspace =>
          obtain ⟨-, run, he, -, hst, -, -⟩ := hplan
          refine ht.start_run hst ?_ ?_
          · simp only [Store.bundled, he, EntityWrite.onRuns]
          · simp only [Store.bundled, he, EntityWrite.onTasks]
      | sendUserMessage c t r text mid =>
          obtain ⟨-, he, -⟩ := hplan
          refine ht.congr ?_ ?_
          · simp only [Store.bundled, he, EntityWrite.onTasks]
          · simp only [Store.bundled, he, EntityWrite.onRuns]
      | interruptRun c r =>
          obtain ⟨-, -, he, -⟩ := hplan
          refine ht.congr ?_ ?_
          · simp only [Store.bundled, he, EntityWrite.onTasks]
          · simp only [Store.bundled, he, EntityWrite.onRuns]
      | resolveApproval c id decision actor =>
          obtain ⟨-, he, -⟩ := hplan
          refine ht.congr ?_ ?_
          · simp only [Store.bundled, he, EntityWrite.onTasks]
          · simp only [Store.bundled, he, EntityWrite.onRuns]
  | @accepted validate append fetch n id d hacc hcommits =>
      obtain ⟨-, r, hr, hb⟩ := (hc.acceptsNodeEvent validate n d).2 hacc
      cases hterm : Store.terminalOf d.kind with
      | none =>
          refine ht.congr ?_ ?_ <;>
            simp only [Store.nodeAppended, Store.terminalStatuses, hterm]
      | some st =>
          obtain ⟨x, y, w⟩ := st
          obtain ⟨hx, hy⟩ := terminalOf_ne hterm
          have hfinished := ht.finish_run hu hb hx hy fun htask row hrow htask' hs => by
            have := hok (by simp [hterm]) hacc hcommits htask row hrow htask' hs
            exact Option.some.inj (this.symm.trans hr)
          refine hfinished.congr ?_ ?_ <;>
            simp only [Store.nodeAppended, Store.terminalStatuses, hterm, hr]

/-- The condition is needed: a step that breaks it breaks the agreement. -/
theorem TasksAgree.step_needed {h : HubState} (hc : CacheOk h) {a : HubLabel} (ht : TasksAgree (h.step a).hub) :
    KeepsTaskStatus h a := by
  cases a with
  | command env cmd n =>
      cases cmd with
      | createTask c title =>
          rintro ⟨plan, hrec⟩ hexec
          obtain rfl : planCreateTask env title = plan := Except.ok.inj hrec.2.1
          obtain ⟨ap, hhub⟩ := recorded_hub hrec
          have hrow := ht (⟨⟨env.entityId⟩, title, .open, env.entityAt⟩ : Task).toRow (by
            simp only [HubState.step, hhub, Store.bundled, planCreateTask, EntityWrite.onTasks]
            exact List.mem_append_right _ (List.mem_singleton_self _))
          have hstill : Executing (h.step (.command env (.createTask c title) n)).hub
              ⟨env.entityId⟩ := by
            simp only [HubState.step, hhub]
            exact hexec
          cases hrow.mpr hstill
      | startRun c t nodeId engine model effort prompt policy workspace => trivial
      | sendUserMessage c t r text mid => trivial
      | interruptRun c r => trivial
      | resolveApproval c id decision actor => trivial
  | nodeEvent validate append fetch n id d =>
      intro hsome hacc hcommits htask row hrow htask' hs
      obtain ⟨⟨x, y, w⟩, hterm⟩ := Option.isSome_iff_exists.mp hsome
      obtain ⟨-, r, hr, -⟩ := (hc.acceptsNodeEvent validate n d).2 hacc
      obtain ⟨hx, hy⟩ := terminalOf_ne hterm
      rw [hr]
      by_contra hne
      rw [HubState.step, accepted_hub fetch hacc hcommits] at ht
      obtain ⟨task, hmem, hid⟩ := List.mem_map.mp htask
      have hagree := ht { task with status := y } (by
        simp only [Store.nodeAppended, Store.terminalStatuses, hterm, hr]
        exact Table.mem_update.mpr (.inl ⟨task, hmem, hid, rfl⟩))
      refine hy (hagree.mpr ?_)
      have hexec := (executing_setRunStatus hx task.id).mpr
        ⟨row, hrow, htask'.trans hid.symm, hs, fun heq => hne (congrArg some heq.symm)⟩
      simp only [Store.nodeAppended, Store.terminalStatuses, hterm, hr]
      exact hexec
  | commandAck env n c => trivial
  | register upsert append fetch hello now => trivial
  | unregister read upsert append fetch n c now => trivial
  | registerWorker env channel t => trivial
  | restart => trivial

/-- **Task status agrees with its runs** in every state reached by steps that
meet the condition. -/
theorem task_status_agrees {h : HubState} (hr : system.Reach KeepsTaskStatus h) :
    TasksAgree h.hub := by
  have hinv : TasksAgree h.hub ∧ CacheOk h ∧ Table.Unique RunOf.id h.hub.runs := by
    refine System.Reach.invariant
      (P := fun h => TasksAgree h.hub ∧ CacheOk h ∧ Table.Unique RunOf.id h.hub.runs) ?_ ?_ hr
    · rintro g hg
      refine ⟨?_, CacheOk.init hg, ?_⟩ <;>
      · obtain ⟨refusal, nodeSecret, clientSecret, rfl⟩ := hg
        obtain ⟨m, hm⟩ := Store.runMigrations_fst refusal Store.blank
        simp only [fromHub, hm]
        first
          | exact fun t ht => absurd ht List.not_mem_nil
          | exact Table.unique_nil
    · rintro g a t ⟨ht, hc, hu⟩ hok hs
      obtain rfl := Option.some.inj hs
      exact ⟨ht.step hc hu hok, hc.step a, unique_runs_step hu a⟩
  exact hinv.1

/-- A task is created, run and finished. -/
theorem task_status_agrees_sample :
    TasksAgree (after [arrival "n", creation 7, starting 10 7,
      report "n" 20 .runCompleted 7 10]).hub := by
  have hstart : system.Reach KeepsTaskStatus freshHub := .start fresh_init
  have harrived := hstart.next (a := arrival "n") trivial rfl
  have hcreated := harrived.next (a := creation 7) (by
    rintro - ⟨r, hr, -⟩
    cases hr) rfl
  have hstarted := hcreated.next (a := starting 10 7) trivial rfl
  refine task_status_agrees (hstarted.next (a := report "n" 20 .runCompleted 7 10) ?_ rfl)
  intro _ _ _ _ r hr _ _
  rw [List.mem_singleton.mp hr]
  rfl

/-- Two runs of one task: the first to finish marks the task completed while
the other executes. -/
theorem finished_while_executing : ¬ ∀ h, system.Reach Anyway h → TasksAgree h.hub := by
  intro hall
  have ht := hall _ (after_reach [arrival "n", creation 7, starting 10 7, starting 11 7,
    report "n" 20 .runCompleted 7 10])
  have hagree := ht _ (List.mem_singleton_self _)
  have hexec : Executing (after [arrival "n", creation 7, starting 10 7, starting 11 7,
      report "n" 20 .runCompleted 7 10]).hub ⟨7⟩ :=
    ⟨_, List.mem_cons_of_mem _ (List.mem_singleton_self _), rfl, rfl⟩
  cases hagree.mpr hexec

end Stackhour.Hub
