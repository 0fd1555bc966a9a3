import Stackhour.Hub.FleetSteps

/-!
# Creating a worker task

A creation is a chain of commands that are committed one by one, with steps of
other handlers in between. It is all or nothing if none of its commands can be
refused once the first is committed, so the invariant says at each stage what
the creation has added so far and that its next command will go through.
-/

namespace Stackhour.Hub

open Domain TransitionSystem HubState

/-! ## What a creation adds -/

/-- Rows of the tables a creation writes, by the columns that no later write of
it touches. -/
structure Rows where
  events : List EventKind
  tasks : List TaskId
  runs : List (RunId × NodeId × TaskId)
  workers : List (TaskId × String)
  dispatches : List (NodeId × HubToNode)

namespace Rows

def of (s : Store) : Rows where
  events := s.events.map EventOf.kind
  tasks := s.tasks.map TaskOf.id
  runs := bindings s
  workers := s.workers.map (fun w => (w.taskId, w.channel))
  dispatches := s.dispatches.map (fun d => (d.nodeId, d.message))

def append (a b : Rows) : Rows where
  events := a.events ++ b.events
  tasks := a.tasks ++ b.tasks
  runs := a.runs ++ b.runs
  workers := a.workers ++ b.workers
  dispatches := a.dispatches ++ b.dispatches

def none : Rows := ⟨[], [], [], [], []⟩

theorem append_none (a : Rows) : a.append none = a := by
  simp [append, none]

end Rows

/-- The critical sections of a creation, in order, appended these rows and
removed none. -/
inductive Added : List (Store × Store) → Rows → Prop where
  | nil : Added [] .none
  | snoc {sections : List (Store × Store)} {a b : Rows} {s s' : Store} (h : Added sections a)
      (hs : Rows.of s' = (Rows.of s).append b) : Added (sections ++ [(s, s')]) (a.append b)

theorem Added.same {sections : List (Store × Store)} {a : Rows} {s s' : Store}
    (h : Added sections a) (hs : Rows.of s' = Rows.of s) : Added (sections ++ [(s, s')]) a := by
  have hnone : Rows.of s' = (Rows.of s).append .none := hs.trans (Rows.append_none _).symm
  have hsnoc := h.snoc hnone
  rwa [Rows.append_none] at hsnoc

/-- A task. -/
def taskRows (t : TaskId) : Rows := ⟨[.taskCreated], [t], [], [], []⟩

/-- Its channel, if one was asked for. -/
def trackedRows (request : WorkerRequest) (t : TaskId) : Rows :=
  { taskRows t with workers := (request.assistantChannel.map (fun channel => (t, channel))).toList }

/-- The `StartRun` that a node is sent. -/
def startMessage (request : WorkerRequest) (t : TaskId) (r : RunId) (c : CommandId) : HubToNode :=
  .dispatchCommand c none (.startRun r t request.engine request.model request.reasoningEffort none
    .supervised request.workspacePath)

/-- Its run on the node, with the dispatch. -/
def startedRows (request : WorkerRequest) (n : NodeId) (t : TaskId) (r : RunId)
    (c : CommandId) : Rows :=
  { trackedRows request t with
    events := [.taskCreated, .runStarted]
    runs := [(r, n, t)]
    dispatches := [(n, startMessage request t r c)] }

/-- The prompt of the run, with the dispatch. -/
def workerRows (request : WorkerRequest) (n : NodeId) (t : TaskId) (r : RunId)
    (c c' : CommandId) (mid : String) : Rows :=
  { startedRows request n t r c with
    events := [.taskCreated, .runStarted, .messageUser]
    dispatches := [(n, startMessage request t r c),
      (n, .dispatchCommand c' none (.sendPrompt t r request.prompt mid))] }

theorem startedRows_eq (request : WorkerRequest) (n : NodeId) (t : TaskId) (r : RunId)
    (c : CommandId) :
    startedRows request n t r c = (trackedRows request t).append
      ⟨[.runStarted], [], [(r, n, t)], [], [(n, startMessage request t r c)]⟩ := by
  simp [startedRows, trackedRows, taskRows, Rows.append]

theorem workerRows_eq (request : WorkerRequest) (n : NodeId) (t : TaskId) (r : RunId)
    (c c' : CommandId) (mid : String) :
    workerRows request n t r c c' mid = (startedRows request n t r c).append
      ⟨[.messageUser], [], [], [],
        [(n, .dispatchCommand c' none (.sendPrompt t r request.prompt mid))]⟩ := by
  simp [workerRows, startedRows, trackedRows, taskRows, Rows.append]

/-! ## The property -/

/-- The tables a creation writes are as they were. -/
def Untouched (s s' : Store) : Prop :=
  s'.events = s.events ∧ s'.tasks = s.tasks ∧ s'.runs = s.runs ∧ s'.workers = s.workers ∧
    s'.dispatches = s.dispatches

/-- **All or nothing.** A creation that failed has changed nothing; one that
returned has added one task, its channel, one run of it on a node that was
eligible, and the dispatches of the run's start and of its prompt. -/
def AllOrNothing (call : Finished) : Prop :=
  match call.result with
  | .error _ => ∀ p ∈ call.sections, Untouched p.1 p.2
  | .ok (t, r) => ∃ n c c' mid, call.nodeId = some n ∧
      (∃ env, call.moment.hub.eligibleExecutionNode env call.request.engine
        call.request.preferredNode = .ok n) ∧
      Added call.sections (workerRows call.request n t r c c' mid)

/-! ## The condition -/

/-- The command of a stage is let through, mints ids that are free, finds room in
the log, and reads clocks with a four-digit year. -/
def CommandSmooth (e : StageEnv) (s : Store) : Prop :=
  e.env.append.refusal = none ∧ e.env.fetch.refusal = none ∧
    e.env.append.now.Readable ∧ e.env.draftAt.Readable ∧
    e.commandId ∉ s.receipts.map ReceiptRow.commandId ∧
    (⟨e.env.append.uuid⟩ : EventId) ∉ s.events.map EventOf.eventId ∧ s.maxSequence + 1 < 2 ^ 63

/-- What a stage reads reads back, and the ids of its rows are free. -/
def StageSmooth (e : StageEnv) (s : Store) : Stage → Prop
  | .selected => CommandSmooth e s ∧ (⟨e.env.entityId⟩ : TaskId) ∉ s.tasks.map TaskOf.id
  | .created q | .started _ q _ => ∃ tail, s.eventsAfter e.env.lookup (q - 1) = .ok tail
  | .known t => e.env.lookup.refusal = none ∧ t ∉ s.workers.map WorkerRow.taskId
  | .tracked _ => CommandSmooth e s ∧ (⟨e.env.entityId⟩ : RunId) ∉ s.runs.map RunOf.id
  | .bound _ r => CommandSmooth e s ∧ ∃ run, s.getRun e.env.lookup r = .ok run

/-- No creation selects a node that is named like the hub, and the store does not
fail it: its calls are let through and what it reads back is readable. -/
def Smooth (f : Fleet) : AuthorityLabel → Prop
  | .fleet (.createWorkerTask env request) =>
      f.hub.eligibleExecutionNode env request.engine request.preferredNode ≠ .ok hubNode
  | .fleet (.stage e) => ∀ call, f.gate = some call → StageSmooth e f.hub.hub call.stage
  | _ => True

/-! ## Reading a command's event back -/

/-- A row of the log that is in a readable tail reads back. -/
theorem readEvent_ok {env : CallEnv} {h : HubState} {row : EventRow} (hlog : EventLog h.hub)
    (hrow : row ∈ h.hub.events) {tail : List Event}
    (hread : h.hub.eventsAfter env (row.sequence - 1) = .ok tail) :
    ∃ e, h.readEvent env row.sequence = .ok e ∧ e.taskId = row.taskId ∧ e.runId = row.runId := by
  have htail := hread
  rw [hlog.eventsAfter_eq] at htail
  obtain ⟨_, -, hmap⟩ := Result.bind_eq_ok.mp htail
  obtain ⟨hto, hfrom⟩ := Result.mapM_mem hmap
  have hmem : ∀ x : EventRow, x ∈ h.hub.events.filter (fun e : EventRow =>
      decide (row.sequence - 1 < e.sequence)) ↔
      x ∈ h.hub.events ∧ row.sequence - 1 < x.sequence := by
    intro x
    rw [List.mem_filter, decide_eq_true_eq]
  obtain ⟨e, he, hrowe⟩ := hto row ((hmem row).mpr ⟨hrow, by omega⟩)
  have hsome : (tail.find? (fun e => decide (e.sequence = row.sequence))).isSome := by
    rw [List.find?_isSome]
    exact ⟨e, he, decide_eq_true (congrArg EventOf.sequence (rowToEvent_keeps hrowe))⟩
  obtain ⟨found, hfound⟩ := Option.isSome_iff_exists.mp hsome
  -- the event found has the row's number, so it is the row's
  obtain ⟨x, hx, hxfound⟩ := hfrom found (List.mem_of_find?_eq_some hfound)
  have hkeeps := rowToEvent_keeps hxfound
  have hseq : x.sequence = row.sequence := by
    have hnum := List.find?_some hfound
    rw [decide_eq_true_eq] at hnum
    exact (congrArg EventOf.sequence hkeeps).symm.trans hnum
  obtain rfl : x = row :=
    List.inj_on_of_nodup_map hlog.sequences.nodup ((hmem x).mp hx).1 hrow hseq
  refine ⟨found, ?_, congrArg EventOf.taskId hkeeps, congrArg EventOf.runId hkeeps⟩
  unfold readEvent
  rw [hread]
  simp only [hfound]

/-! ## A smooth command -/

theorem rows_bundled (env : CallEnv) (s : Store) (c : CommandId) (d : EventDraft)
    (e : EntityWrite) (disp : Option (NodeId × HubToNode)) :
    Rows.of (s.bundled env c d e disp) = (Rows.of s).append
      ⟨[d.kind], e.minted.filterMap Minted.taskId,
        (match e with
          | .run r => [(r.id, r.nodeId, r.taskId)]
          | _ => []), [], disp.toList⟩ := by
  have hdisp : (dispatchRows c env.now disp).map (fun d => (d.nodeId, d.message)) =
      disp.toList := by
    cases disp <;> rfl
  unfold Rows.of Rows.append
  rw [bindings_bundled]
  simp only [Store.bundled, List.map_append, List.map_singleton, EntityWrite.onTasks_ids, hdisp,
    List.append_nil]
  rfl

/-- A command that passes its checks is recorded, and its receipt accepts it. -/
theorem applyCommandInner_smooth {e : StageEnv} {h h₁ : HubState} {n : Option NodeId}
    {cmd : ClientCommand} {plan : Plan} (hlog : EventLog h.hub) (hs : CommandSmooth e h.hub)
    (hcmd : cmd.commandId = e.commandId) (hplan : h.planCommand e.env n cmd = (h₁, .ok plan))
    (hhub : h₁.hub = h.hub) (hat : plan.draft.occurredAt = e.env.draftAt)
    (hfresh : plan.entity.Fresh h.hub) :
    (h.applyCommandInner e.env cmd n).1.hub = h.hub.bundled e.env.append e.commandId plan.draft
        plan.entity plan.dispatch ∧
      (h.applyCommandInner e.env cmd n).2 = ⟨CommandReceipt.accept e.commandId
        (h.hub.maxSequence + 1) ⟨e.env.append.uuid⟩, plan.dispatch⟩ := by
  obtain ⟨happend, hfetch, hnow, hdraft, hc, hid, hroom⟩ := hs
  have hnone := Table.lookup_eq_none.mpr hc
  have hanswers : ¬ Answers e.env.outcome h.hub cmd.commandId := by
    rintro ⟨-, hsome⟩
    rw [hcmd, hnone] at hsome
    cases hsome
  have hcommits : Commits e.env.append h₁.hub e.commandId plan.entity plan.dispatch := by
    rw [hhub]
    exact ⟨happend, hnone, ⟨hroom, hlog.sequence_fresh, hid⟩, hfresh,
      fun _ => hlog.dispatch_fresh hnone⟩
  have hreads : ReadsBack e.env.append e.env.fetch plan.draft := ⟨hfetch, hat ▸ hdraft, hnow⟩
  rw [applyCommandInner_eq hanswers, hplan, hcmd]
  dsimp only [finishWithEntity]
  rw [command_announced hcommits hreads]
  dsimp only
  obtain ⟨rt, hrt⟩ := rememberStarted_eq (h₁.announced e.env.append e.commandId plan.draft
    plan.entity plan.dispatch) plan ⟨CommandReceipt.accept e.commandId (h₁.hub.maxSequence + 1)
      ⟨e.env.append.uuid⟩, plan.dispatch⟩
  rw [if_pos rfl, hrt, hhub]
  refine ⟨?_, rfl⟩
  show h₁.hub.bundled e.env.append e.commandId plan.draft plan.entity plan.dispatch = _
  rw [hhub]

/-! ## The stages -/

/-- What a creation on the node `n` has added when it is at a stage, and what it
relies on to go on. -/
def Progressed (s : Store) (request : WorkerRequest) (n : NodeId)
    (sections : List (Store × Store)) : Stage → Prop
  | .selected => sections = []
  | .created q => ∃ t, Added sections (taskRows t) ∧
      ∃ row ∈ s.events, row.sequence = q ∧ row.taskId = t
  | .known t => Added sections (taskRows t)
  | .tracked t => Added sections (trackedRows request t)
  | .started t q effect => ∃ r c, Added sections (startedRows request n t r c) ∧
      (∃ row ∈ s.events, row.sequence = q ∧ row.runId = some r) ∧ (r, n, t) ∈ bindings s ∧
      ∃ q', acceptedSequence effect.receipt = .ok q'
  | .bound t r => ∃ c, Added sections (startedRows request n t r c) ∧ (r, n, t) ∈ bindings s

/-- Where a stage leads: on, or to the end with all rows added. -/
def Leads (s : Store) (request : WorkerRequest) (n : NodeId) (sections : List (Store × Store)) :
    Progress → Prop
  | .stage st => Progressed s request n sections st
  | .done (.ok (t, r)) => ∃ c c' mid, Added sections (workerRows request n t r c c' mid)
  | .done (.error _) => False

/-- What others append takes nothing from it. -/
theorem Progressed.stable {s s' : Store} {request : WorkerRequest} {n : NodeId}
    {sections : List (Store × Store)} {st : Stage} (hp : Progressed s request n sections st)
    (hevents : ∀ e ∈ s.events, e ∈ s'.events) (hruns : ∀ b ∈ bindings s, b ∈ bindings s') :
    Progressed s' request n sections st := by
  cases st with
  | selected => exact hp
  | created q =>
      obtain ⟨t, hadded, row, hrow, hq⟩ := hp
      exact ⟨t, hadded, row, hevents row hrow, hq⟩
  | known t => exact hp
  | tracked t => exact hp
  | started t q effect =>
      obtain ⟨r, c, hadded, ⟨row, hrow, hq⟩, hb, heffect⟩ := hp
      exact ⟨r, c, hadded, ⟨row, hevents row hrow, hq⟩, hruns _ hb, heffect⟩
  | bound t r =>
      obtain ⟨c, hadded, hb⟩ := hp
      exact ⟨c, hadded, hruns _ hb⟩

section Stages

variable {e : StageEnv} {h : HubState} {request : WorkerRequest} {n : NodeId}
  {sections : List (Store × Store)}

/-- The task is created. -/
theorem selected_leads (hlog : EventLog h.hub) (hs : StageSmooth e h.hub .selected) :
    Leads (Stage.selected.next e h request n).1.hub request n
      [(h.hub, (Stage.selected.next e h request n).1.hub)]
      (Stage.selected.next e h request n).2 := by
  obtain ⟨hsmooth, hfresh⟩ := hs
  have hplan : h.planCommand e.env none (.createTask e.commandId request.title) = (h, _) := rfl
  obtain ⟨hhub, heffect⟩ := applyCommandInner_smooth hlog hsmooth rfl hplan rfl rfl hfresh
  simp only [Stage.next, routeEffect_hub, hhub]
  simp only [routeEffect, heffect]
  refine ⟨⟨e.env.entityId⟩, Added.nil.snoc (rows_bundled ..), _,
    List.mem_append_right _ (List.mem_singleton_self _), rfl, rfl⟩

/-- Its id is read from its event. -/
theorem created_leads {q : ℤ} (hlog : EventLog h.hub)
    (hp : Progressed h.hub request n sections (.created q))
    (hs : StageSmooth e h.hub (.created q)) :
    Leads h.hub request n (sections ++ [(h.hub, h.hub)])
      ((Stage.created q).next e h request n).2 := by
  obtain ⟨t, hadded, row, hrow, rfl, rfl⟩ := hp
  obtain ⟨tail, hread⟩ := hs
  obtain ⟨event, hevent, htask, -⟩ := readEvent_ok hlog hrow hread
  simp only [Stage.next, hevent]
  show Added _ (taskRows event.taskId)
  rw [htask]
  exact hadded.same rfl

/-- Its channel is registered. -/
theorem known_leads {t : TaskId} (hp : Progressed h.hub request n sections (.known t))
    (hs : StageSmooth e h.hub (.known t)) :
    Leads ((Stage.known t).next e h request n).1.hub request n
      (sections ++ [(h.hub, ((Stage.known t).next e h request n).1.hub)])
      ((Stage.known t).next e h request n).2 := by
  obtain ⟨hr, hfresh⟩ := hs
  have hadded : Added sections (taskRows t) := hp
  simp only [Stage.next]
  cases hchannel : request.assistantChannel with
  | none =>
      show Added _ (trackedRows request t)
      unfold trackedRows
      rw [hchannel]
      exact hadded.same rfl
  | some channel =>
      have hok : h.hub.registerAssistantWorker e.env.lookup channel t =
          .ok { h.hub with workers := h.hub.workers ++ [⟨t, channel, fmtTime e.env.lookup.now⟩] } := by
        refine Result.bind_eq_ok.mpr ⟨(), CallEnv.admit_eq_ok.mpr hr, Result.pure_eq_ok.mpr ?_⟩
        unfold Store.upsert
        rw [if_neg hfresh]
      simp only [hok]
      have hrows : Rows.of { h.hub with
            workers := h.hub.workers ++ [⟨t, channel, fmtTime e.env.lookup.now⟩] } =
          (Rows.of h.hub).append ⟨[], [], [], [(t, channel)], []⟩ := by
        simp [Rows.of, Rows.append, bindings]
      have hsnoc := hadded.snoc hrows
      show Added _ (trackedRows request t)
      unfold trackedRows
      rw [hchannel]
      exact hsnoc

/-- Its run is started on the node. -/
theorem tracked_leads {t : TaskId} (hlog : EventLog h.hub)
    (hvalid : validateRunConfiguration request.engine request.model request.reasoningEffort none
      request.workspacePath = .ok ())
    (hp : Progressed h.hub request n sections (.tracked t))
    (hs : StageSmooth e h.hub (.tracked t)) :
    Leads ((Stage.tracked t).next e h request n).1.hub request n
      (sections ++ [(h.hub, ((Stage.tracked t).next e h request n).1.hub)])
      ((Stage.tracked t).next e h request n).2 := by
  obtain ⟨hsmooth, hfresh⟩ := hs
  have hadded : Added sections (trackedRows request t) := hp
  let run := newRun e.env t n request.engine request.model request.reasoningEffort none .supervised
    request.workspacePath
  let plan : Plan :=
    { draft := draftOf e.env .runStarted t n (some run.id) (.object (startPayload run))
      dispatch := some (n, .dispatchCommand e.commandId none (startWork run))
      entity := .run run }
  have hplan : h.planCommand e.env (some n) (.startRun e.commandId t (some n) request.engine
      request.model request.reasoningEffort none .supervised request.workspacePath) =
        (h, .ok plan) := by
    simp only [planCommand, planStartRun, hvalid]
    rfl
  obtain ⟨hhub, heffect⟩ := applyCommandInner_smooth hlog hsmooth rfl hplan rfl rfl hfresh
  have hrows := rows_bundled e.env.append h.hub e.commandId plan.draft plan.entity plan.dispatch
  simp only [Stage.next, heffect, hhub]
  refine ⟨run.id, e.commandId, startedRows_eq request n t run.id e.commandId ▸ hadded.snoc hrows,
    ⟨_, List.mem_append_right _ (List.mem_singleton_self _), rfl, rfl⟩, ?_, _, rfl⟩
  have hruns : bindings (h.hub.bundled e.env.append e.commandId plan.draft plan.entity
      plan.dispatch) = _ := congrArg Rows.runs hrows
  rw [hruns]
  exact List.mem_append_right _ (List.mem_singleton_self _)

/-- The run's id is read from its event, and its dispatch is routed. -/
theorem started_leads {t : TaskId} {q : ℤ} {effect : CommandEffect} (hlog : EventLog h.hub)
    (hp : Progressed h.hub request n sections (.started t q effect))
    (hs : StageSmooth e h.hub (.started t q effect)) :
    Leads ((Stage.started t q effect).next e h request n).1.hub request n
      (sections ++ [(h.hub, ((Stage.started t q effect).next e h request n).1.hub)])
      ((Stage.started t q effect).next e h request n).2 := by
  obtain ⟨r, c, hadded, ⟨row, hrow, rfl, hrun⟩, hb, q', heffect⟩ := hp
  obtain ⟨tail, hread⟩ := hs
  obtain ⟨event, hevent, -, hid⟩ := readEvent_ok hlog hrow hread
  simp only [Stage.next, hevent, hid.trans hrun, routeEffect_hub]
  simp only [routeEffect, heffect]
  exact ⟨c, hadded.same rfl, hb⟩

/-- A run that has a row is found with its binding, if the row can be read. -/
theorem runBinding_found {env : CallEnv} {t : TaskId} {r : RunId} (hlog : EventLog h.hub)
    (hcache : CacheOk h) (hb : (r, n, t) ∈ bindings h.hub)
    (hread : ∃ run, h.hub.getRun env r = .ok run) : (h.runBinding env r).2 = some (n, t) := by
  obtain ⟨o, hrun⟩ := hread
  cases hfound : (h.runBinding env r).2 with
  | some b =>
      have hmem := (hcache.runBinding env r).2 b hfound
      have hids : ((bindings h.hub).map Prod.fst).Nodup := bindings_ids h.hub ▸ hlog.runIds
      exact congrArg some (congrArg Prod.snd (List.inj_on_of_nodup_map hids hmem hb rfl))
  | none =>
      exfalso
      -- the cache has no entry and the row is there
      have hrow : (Table.lookup RunOf.id h.hub.runs r).isSome = true := by
        rw [Table.lookup_isSome, ← bindings_ids]
        exact List.mem_map_of_mem hb
      obtain ⟨row, hrow⟩ := Option.isSome_iff_exists.mp hrow
      unfold runBinding runBindingChecked at hfound
      cases hcached : h.routing.run r with
      | some b =>
          rw [hcached] at hfound
          cases hfound
      | none =>
          rw [hcached, hrun] at hfound
          obtain ⟨_, -, hmap⟩ := Result.bind_eq_ok.mp hrun
          rw [hrow] at hmap
          obtain ⟨run, -, heq⟩ := Result.bind_eq_ok.mp hmap
          obtain rfl := Result.pure_eq_ok.mp heq
          cases hfound

/-- The run is prompted: its binding is found, and it is not the hub's. -/
theorem bound_leads {t : TaskId} {r : RunId} (hlog : EventLog h.hub) (hcache : CacheOk h)
    (hn : n ≠ hubNode) (hp : Progressed h.hub request n sections (.bound t r))
    (hs : StageSmooth e h.hub (.bound t r)) :
    Leads ((Stage.bound t r).next e h request n).1.hub request n
      (sections ++ [(h.hub, ((Stage.bound t r).next e h request n).1.hub)])
      ((Stage.bound t r).next e h request n).2 := by
  obtain ⟨hsmooth, hrun⟩ := hs
  obtain ⟨c, hadded, hb⟩ := hp
  let mid := Store.uuidText e.messageId
  let plan : Plan :=
    { draft := draftOf e.env .messageUser t n (some r)
        (.object [("text", .string request.prompt), ("client_message_id", .string mid)])
      dispatch := some (n, .dispatchCommand e.commandId none (.sendPrompt t r request.prompt mid))
      entity := .none }
  have hplan : h.planCommand e.env none (.sendUserMessage e.commandId t (some r) request.prompt mid) =
      ((h.runBinding e.env.lookup r).1, .ok plan) := by
    have hbound := runBinding_found hlog hcache hb hrun
    have hother : some n ≠ some hubNode := fun heq => hn (Option.some.inj heq)
    simp only [planCommand, planSendUserMessage, hbound, Option.map_some, Option.some_or,
      if_neg hother]
    rfl
  obtain ⟨rt, hrt⟩ := h.runBinding_fst e.env.lookup r
  obtain ⟨hhub, heffect⟩ := applyCommandInner_smooth hlog hsmooth rfl hplan (by rw [hrt]) rfl trivial
  have hrows := rows_bundled e.env.append h.hub e.commandId plan.draft plan.entity plan.dispatch
  simp only [Stage.next, routeEffect_hub]
  rw [hhub]
  simp only [routeEffect, mid] at heffect ⊢
  rw [heffect]
  exact ⟨c, e.commandId, mid, workerRows_eq request n t r c e.commandId mid ▸ hadded.snoc hrows⟩

/-- **One stage.** -/
theorem stage_leads {st : Stage} (hlog : EventLog h.hub) (hcache : CacheOk h) (hn : n ≠ hubNode)
    (hvalid : validateRunConfiguration request.engine request.model request.reasoningEffort none
      request.workspacePath = .ok ())
    (hp : Progressed h.hub request n sections st) (hs : StageSmooth e h.hub st) :
    Leads (st.next e h request n).1.hub request n
      (sections ++ [(h.hub, (st.next e h request n).1.hub)]) (st.next e h request n).2 := by
  cases st with
  | selected =>
      obtain rfl : sections = [] := hp
      exact selected_leads hlog hs
  | created q => exact created_leads hlog hp hs
  | known t => exact known_leads hp hs
  | tracked t => exact tracked_leads hlog hvalid hp hs
  | started t q effect => exact started_leads hlog hp hs
  | bound t r => exact bound_leads hlog hcache hn hp hs

end Stages

/-! ## Runs -/

/-- A creation in progress can be finished, and those that have returned were all
or nothing. -/
structure Creations (f : Fleet) : Prop where
  node : ∀ call, f.gate = some call → call.nodeId ≠ hubNode ∧
    ∃ env, call.moment.hub.eligibleExecutionNode env call.request.engine
      call.request.preferredNode = .ok call.nodeId
  valid : ∀ call, f.gate = some call → validateRunConfiguration call.request.engine
    call.request.model call.request.reasoningEffort none call.request.workspacePath = .ok ()
  stage : ∀ call, f.gate = some call →
    Progressed f.hub.hub call.request call.nodeId call.sections call.stage
  finished : ∀ call ∈ f.finished, AllOrNothing call

namespace Creations

variable {f f' : Fleet}

/-- A step of another handler. -/
theorem aside (hi : Creations f) (hcache : CacheOk f.hub) {a : FleetLabel}
    (ha : ¬ Fleet.Creating a) (hs : f.step a = some f') : Creations f' := by
  obtain ⟨hgate, hfinished⟩ := Fleet.step_creating ha hs
  obtain ⟨-, hgains⟩ := Fleet.step_runs hcache hs
  refine ⟨?_, ?_, ?_, ?_⟩
  · intro call hcall
    exact hi.node call (hgate ▸ hcall)
  · intro call hcall
    exact hi.valid call (hgate ▸ hcall)
  · intro call hcall
    exact (hi.stage call (hgate ▸ hcall)).stable
      (fun e he => (Fleet.step_performs hs).events_grow.subset he) hgains.bindings_mono
  · intro call hcall
    exact hi.finished call (hfinished ▸ hcall)

/-- A creation that is refused, or that begins. -/
theorem createWorkerTask (hi : Creations f) {env : CallEnv} {request : WorkerRequest}
    (hok : f.hub.eligibleExecutionNode env request.engine request.preferredNode ≠ .ok hubNode)
    (hs : f.step (.createWorkerTask env request) = some f') : Creations f' := by
  obtain ⟨err, rfl⟩ | ⟨n, ⟨-, hvalid⟩, hn, rfl⟩ := Fleet.step_createWorkerTask hs
  · refine ⟨hi.node, hi.valid, hi.stage, ?_⟩
    intro call hcall
    rcases List.mem_append.mp hcall with hcall | hcall
    · exact hi.finished call hcall
    · obtain rfl := List.mem_singleton.mp hcall
      intro p hp
      cases hp
  · refine ⟨?_, ?_, ?_, hi.finished⟩
    · rintro call ⟨⟩
      exact ⟨fun heq => hok (heq ▸ hn), env, hn⟩
    · rintro call ⟨⟩
      exact hvalid
    · rintro call ⟨⟩
      rfl

/-- The next stage of the creation that holds the gate. -/
theorem stage_step (hi : Creations f) (hlog : EventLog f.hub.hub) (hcache : CacheOk f.hub)
    {e : StageEnv} (hok : ∀ call, f.gate = some call → StageSmooth e f.hub.hub call.stage)
    (hs : f.step (.stage e) = some f') : Creations f' := by
  obtain ⟨call, hcall, hcases⟩ := Fleet.step_stage hs
  obtain ⟨hn, heligible⟩ := hi.node call hcall
  have hleads := stage_leads hlog hcache hn (hi.valid call hcall) (hi.stage call hcall)
    (hok call hcall)
  obtain ⟨s, hnext, rfl⟩ | ⟨result, hnext, rfl⟩ := hcases
  · rw [hnext] at hleads
    refine ⟨?_, ?_, ?_, hi.finished⟩
    · rintro call' ⟨⟩
      exact ⟨hn, heligible⟩
    · rintro call' ⟨⟩
      exact hi.valid call hcall
    · rintro call' ⟨⟩
      exact hleads
  · rw [hnext] at hleads
    refine ⟨fun call' h => ?_, fun call' h => ?_, fun call' h => ?_, ?_⟩
    · cases h
    · cases h
    · cases h
    · intro call' hcall'
      rcases List.mem_append.mp hcall' with hcall' | hcall'
      · exact hi.finished call' hcall'
      · obtain rfl := List.mem_singleton.mp hcall'
        cases result with
        | error err => exact hleads.elim
        | ok tr =>
            obtain ⟨c, c', mid, hadded⟩ := hleads
            exact ⟨call.nodeId, c, c', mid, rfl, heligible, hadded⟩

theorem of_reach (h : Fleet.restarting.Reach Smooth f) : Creations f := by
  refine h.invariant_reach ?_ ?_
  · rintro f ⟨h, -, rfl⟩
    refine ⟨fun call h => ?_, fun call h => ?_, fun call h => ?_, fun call h => ?_⟩
    · cases h
    · cases h
    · cases h
    · exact absurd h List.not_mem_nil
  · intro f a f' hreach hi hok hs
    obtain ⟨hlog, hcache⟩ := Fleet.restarting_sound hreach
    cases a with
    | restart =>
        cases hs
        refine ⟨fun call h => ?_, fun call h => ?_, fun call h => ?_, hi.finished⟩
        · cases h
        · cases h
        · cases h
    | fleet a =>
        by_cases ha : Fleet.Creating a
        · cases a with
          | createWorkerTask env request => exact hi.createWorkerTask hok hs
          | stage e => exact hi.stage_step hlog hcache hok hs
          | _ => exact ha.elim
        · exact hi.aside hcache ha hs

end Creations

/-- **Worker-task creation is all or nothing** in the runs in which no node named
like the hub is selected and the store does not fail a creation. -/
theorem worker_task_all_or_nothing {f : Fleet} (h : Fleet.restarting.Reach Smooth f) :
    ∀ call ∈ f.finished, AllOrNothing call :=
  (Creations.of_reach h).finished

/-- A Claude task whose outcome goes to a channel. -/
def plainRequest : WorkerRequest := ⟨"t", "go", some "c", none, "claude", none, none, none⟩

/-- A stage whose calls are let through, minting `u`. -/
def plainStage (u : ℕ) : StageEnv := ⟨plainCommand u, ⟨BitVec.ofNat 128 u⟩, BitVec.ofNat 128 u⟩

/-- The node `name` connects, and a task is created for whichever node there is. -/
def creating (name : String) : List FleetLabel :=
  connecting name 1 2 ++ .createWorkerTask (plainCall 1) plainRequest ::
    [11, 12, 13, 14, 15, 16].map (fun u => .stage (plainStage u))

set_option maxRecDepth 4096 in
/-- With a laptop, the creation adds a task, its channel, a run and two dispatches. -/
theorem worker_task_all_or_nothing_sample :
    ∃ f, Fleet.restarting.run freshFleet ((creating "laptop").map .fleet) = some f ∧
      (∃ t r, f.finished.map Finished.result = [.ok (t, r)]) ∧
      ∀ call ∈ f.finished, AllOrNothing call := by
  refine ⟨_, rfl, ⟨_, _, rfl⟩, ?_⟩
  have hfresh : Fleet.restarting.Reach Smooth freshFleet := .start Fleet.fresh_init
  have hdial := hfresh.next
    (a := AuthorityLabel.fleet (FleetLabel.dial (helloOf "laptop" "claude"))) trivial rfl
  have hupsert := hdial.next
    (a := AuthorityLabel.fleet (FleetLabel.upsert 1 (plainCall 1))) trivial rfl
  have hannounce := hupsert.next
    (a := AuthorityLabel.fleet (FleetLabel.announce 1 (plainCall 2) (plainCall 1) .epoch))
    trivial rfl
  have hselected := hannounce.next
    (a := AuthorityLabel.fleet (FleetLabel.createWorkerTask (plainCall 1) plainRequest))
    (show HubState.eligibleExecutionNode _ _ _ _ ≠ _ from by decide) rfl
  have hcreated := hselected.next (a := AuthorityLabel.fleet (FleetLabel.stage (plainStage 11)))
    (by rintro call ⟨⟩; exact ⟨by unfold CommandSmooth; decide, by decide⟩) rfl
  have hknown := hcreated.next (a := AuthorityLabel.fleet (FleetLabel.stage (plainStage 12)))
    (by rintro call ⟨⟩; exact ⟨_, rfl⟩) rfl
  have htracked := hknown.next (a := AuthorityLabel.fleet (FleetLabel.stage (plainStage 13)))
    (by rintro call ⟨⟩; exact ⟨rfl, by decide⟩) rfl
  have hstarted := htracked.next (a := AuthorityLabel.fleet (FleetLabel.stage (plainStage 14)))
    (by rintro call ⟨⟩; exact ⟨by unfold CommandSmooth; decide, by decide⟩) rfl
  have hbound := hstarted.next (a := AuthorityLabel.fleet (FleetLabel.stage (plainStage 15)))
    (by rintro call ⟨⟩; exact ⟨_, rfl⟩) rfl
  exact worker_task_all_or_nothing (hbound.next
    (a := AuthorityLabel.fleet (FleetLabel.stage (plainStage 16)))
    (by rintro call ⟨⟩; exact ⟨by unfold CommandSmooth; decide, _, rfl⟩) rfl)

set_option maxRecDepth 4096 in
/-- With a node named "hub", its prompt is refused when the run has been started. -/
theorem worker_task_left_open :
    ∃ f, Fleet.restarting.Reach Anyway f ∧ ∃ call ∈ f.finished, ¬ AllOrNothing call := by
  have hrun : ∃ f, Fleet.restarting.run freshFleet ((creating "hub").map .fleet) = some f ∧
      ∃ call ∈ f.finished, (∃ e, call.result = .error e) ∧
        ∃ p ∈ call.sections, p.1.tasks = [] ∧ p.2.tasks ≠ [] :=
    ⟨_, rfl, _, List.mem_singleton_self _, ⟨_, rfl⟩, _, List.mem_cons_self, rfl, by decide⟩
  obtain ⟨f, hf, call, hcall, ⟨e, he⟩, p, hp, hempty, hne⟩ := hrun
  refine ⟨f, .of_run (.start Fleet.fresh_init) hf, call, hcall, ?_⟩
  intro h
  unfold AllOrNothing at h
  rw [he] at h
  exact hne ((h p hp).2.1.trans hempty)

end Stackhour.Hub
