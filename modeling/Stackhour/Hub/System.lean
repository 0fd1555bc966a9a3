import Stackhour.Hub.StateSpec

/-!
# The hub as a transition system

Client commands, node events, acknowledgements, node arrivals and departures
and restarts, one handler call at a time and in any order. The lemmas say what a
step can do to the tables; the routing cache never disagrees with the run rows.
-/

namespace Stackhour.Hub

open Domain TransitionSystem

/-! ## Steps -/

/-- `create_worker_task` submits its commands with a reserved node. -/
inductive HubLabel where
  | command (env : CommandEnv) (cmd : ClientCommand) (reservedNode : Option NodeId)
  | nodeEvent (validate append fetch : CallEnv) (nodeId : NodeId) (eventId : EventId)
      (draft : EventDraft)
  | commandAck (env : CallEnv) (nodeId : NodeId) (commandId : CommandId)
  | register (upsert append fetch : CallEnv) (hello : NodeHello) (now : DateTime)
  | unregister (read upsert append fetch : CallEnv) (nodeId : NodeId) (connectionId : ℕ)
      (now : DateTime)
  | registerWorker (env : CallEnv) (channel : String) (taskId : TaskId)
  | restart

namespace HubState

def step (h : HubState) : HubLabel → HubState
  | .command env cmd n => (h.applyCommandInner env cmd n).1
  | .nodeEvent validate append fetch n id d => h.handleNodeEvent validate append fetch n id d
  | .commandAck env n c => h.acknowledgeDispatchFrom env n c
  | .register upsert append fetch hello now =>
      (h.registerNode hello.nodeId).1.onNodeConnected upsert append fetch hello now
  | .unregister read upsert append fetch n c now =>
      match h.unregisterNode n c with
      | (h, true) => h.onNodeDisconnected read upsert append fetch n now
      | (h, false) => h
  | .registerWorker env channel t =>
      match h.hub.registerAssistantWorker env channel t with
      | .ok s => { h with hub := s }
      | .error _ => h
  | .restart => fromHub h.hub h.nodeSecret h.clientSecret

/-- From any hub over a newly opened database. -/
def system : System HubState HubLabel where
  init h := ∃ refusal nodeSecret clientSecret,
    h = fromHub (Store.blank.runMigrations refusal).1 nodeSecret clientSecret
  step h a := some (h.step a)

/-! ## What a plan holds -/

/-- The draft, entity and dispatch each command asks for. -/
def PlanOf (plan : Plan) : ClientCommand → Prop
  | .createTask _ _ =>
      plan.draft.kind = .taskCreated ∧ plan.draft.runId = none ∧ plan.dispatch = none ∧
        ∃ t, plan.entity = .task t ∧ t.status = .open
  | .sendUserMessage c t r text mid =>
      plan.draft.kind = .messageUser ∧ plan.entity = .none ∧
        ∀ n m, plan.dispatch = some (n, m) →
          ∃ r', r = some r' ∧ m = .dispatchCommand c none (.sendPrompt t r' text mid)
  | .startRun c t _ _ _ _ _ _ _ =>
      plan.draft.kind = .runStarted ∧ ∃ run, plan.entity = .run run ∧ run.taskId = t ∧
        run.status = .started ∧ plan.draft.runId = some run.id ∧
        plan.dispatch = some (run.nodeId, .dispatchCommand c none (startWork run))
  | .interruptRun c r =>
      plan.draft.kind = .runInterrupted ∧ plan.draft.runId = some r ∧ plan.entity = .none ∧
        ∀ n m, plan.dispatch = some (n, m) → m = .dispatchCommand c none (.interruptRun r)
  | .resolveApproval _ _ _ _ =>
      plan.draft.kind = .approvalResolved ∧ plan.entity = .none ∧ plan.dispatch = none

theorem planCommand_planOf {env : CommandEnv} {h : HubState} {n : Option NodeId}
    {cmd : ClientCommand} {plan : Plan} (hp : (h.planCommand env n cmd).2 = .ok plan) :
    PlanOf plan cmd := by
  cases cmd with
  | createTask c title =>
      cases hp
      exact ⟨rfl, rfl, rfl, _, rfl, rfl⟩
  | sendUserMessage c t r text mid =>
      simp only [planCommand, planSendUserMessage] at hp
      cases r with
      | none =>
          dsimp only at hp
          split at hp <;> cases hp
          refine ⟨rfl, rfl, fun n m hd => ?_⟩
          dsimp only at hd
          split at hd <;> simp_all
      | some r =>
          dsimp only at hp
          split at hp <;> cases hp
          refine ⟨rfl, rfl, fun n m hd => ?_⟩
          dsimp only at hd
          split at hd <;> simp_all
  | startRun c t nodeId engine model effort prompt policy workspace =>
      simp only [planCommand, planStartRun] at hp
      split at hp
      · cases hp
      · obtain ⟨k, -, hp⟩ := Result.bind_eq_ok.mp hp
        cases hp
        exact ⟨rfl, _, rfl, rfl, rfl, rfl, rfl⟩
  | interruptRun c r =>
      simp only [planCommand, planInterruptRun] at hp
      split at hp <;> cases hp
      refine ⟨rfl, rfl, rfl, fun n m hd => ?_⟩
      obtain ⟨k, -, hk⟩ := Option.map_eq_some_iff.mp hd
      exact (Prod.mk.inj hk).2.symm
  | resolveApproval c id decision actor =>
      simp only [planCommand, planResolveApproval] at hp
      split at hp <;> cases hp
      exact ⟨rfl, rfl, rfl⟩

/-- Only `StartRun` asks for a run, and its work goes to the node of the run. -/
theorem planOf_run {plan : Plan} {cmd : ClientCommand} {run : Run} (hp : PlanOf plan cmd)
    (he : plan.entity = .run run) :
    ∃ c t n engine model effort prompt policy workspace,
      cmd = .startRun c t n engine model effort prompt policy workspace ∧
        plan.dispatch = some (run.nodeId, .dispatchCommand c none (startWork run)) := by
  cases cmd with
  | createTask c title =>
      obtain ⟨-, -, -, t, ht, -⟩ := hp
      rw [ht] at he
      cases he
  | sendUserMessage c t r text mid =>
      rw [hp.2.1] at he
      cases he
  | startRun c t n engine model effort prompt policy workspace =>
      obtain ⟨-, run', hrun, -, -, -, hdispatch⟩ := hp
      rw [hrun] at he
      cases he
      exact ⟨c, t, n, engine, model, effort, prompt, policy, workspace, rfl, hdispatch⟩
  | interruptRun c r =>
      rw [hp.2.2.1] at he
      cases he
  | resolveApproval c id decision actor =>
      rw [hp.2.1] at he
      cases he

/-! ## Node events -/

/-- What handling a node event leaves in the store and on the bus. -/
inductive EventResult (validate append fetch : CallEnv) (h : HubState) (n : NodeId)
    (id : EventId) (d : EventDraft) (h' : HubState) : Prop where
  | unrecorded (hub : h'.hub = h.hub) (events : h'.events = h.events)
  | announced (accepted : (h.acceptsNodeEvent validate n d).2 = .ok true)
      (commits : CommitsEvent append h.hub id d) (readsBack : ReadsBack append fetch d)
      (hub : h'.hub = h.hub.nodeAppended append id d)
      (events : h'.events = h.events ++ [d.stamped (h.hub.maxSequence + 1) id none append.now])
  | unread (accepted : (h.acceptsNodeEvent validate n d).2 = .ok true)
      (commits : CommitsEvent append h.hub id d) (unread : ¬ ReadsBack append fetch d)
      (hub : h'.hub = h.hub.nodeAppended append id d) (events : h'.events = h.events)

theorem routeToNode_hub (h : HubState) (n : NodeId) (m : HubToNode) :
    (h.routeToNode n m).hub = h.hub ∧ (h.routeToNode n m).events = h.events ∧
      (h.routeToNode n m).routing = h.routing := by
  unfold routeToNode
  split <;> exact ⟨rfl, rfl, rfl⟩

/-- **What handling a node event can do.** -/
theorem handleNodeEvent_result (validate append fetch : CallEnv) (h : HubState) (n : NodeId)
    (id : EventId) (d : EventDraft) :
    EventResult validate append fetch h n id d (h.handleNodeEvent validate append fetch n id d) ∧
      (h.handleNodeEvent validate append fetch n id d).routing =
        (h.acceptsNodeEvent validate n d).1.routing := by
  obtain ⟨rt, hrt⟩ := acceptsNodeEvent_fst validate h n d
  unfold handleNodeEvent
  cases hacc : h.acceptsNodeEvent validate n d with
  | mk h₁ verdict =>
      rw [hacc] at hrt
      obtain rfl : h₁ = { h with routing := rt } := hrt
      have hroute := fun g : HubState => routeToNode_hub g n (.eventAck id)
      cases verdict with
      | error e => exact ⟨.unrecorded rfl rfl, rfl⟩
      | ok b =>
          cases b with
          | false =>
              obtain ⟨h1, h2, h3⟩ := hroute { h with routing := rt }
              exact ⟨.unrecorded h1 h2, h3⟩
          | true =>
              have hok : (h.acceptsNodeEvent validate n d).2 = .ok true := by rw [hacc]
              have hcases := event_cases append fetch { h with routing := rt } id d
              dsimp only
              cases hop : ({ h with routing := rt } : HubState).appendAndBroadcastNodeEvent
                  append fetch id d with
              | mk h₂ r =>
                  rw [hop] at hcases
                  -- the acknowledgement leaves store, bus and cache alone
                  suffices hsuff : EventResult validate append fetch h n id d h₂ ∧
                      h₂.routing = rt by
                    cases r with
                    | error e => exact hsuff
                    | ok o =>
                        obtain ⟨h1, h2, h3⟩ := hroute h₂
                        refine ⟨?_, h3.trans hsuff.2⟩
                        cases hsuff.1 with
                        | unrecorded hub events =>
                            exact .unrecorded (h1.trans hub) (h2.trans events)
                        | announced a c rb hub events =>
                            exact .announced a c rb (h1.trans hub) (h2.trans events)
                        | unread a c rb hub events =>
                            exact .unread a c rb (h1.trans hub) (h2.trans events)
                  obtain ⟨rfl, -⟩ | ⟨hc, hb, rfl⟩ | ⟨hc, hb, rfl⟩ := hcases
                  · exact ⟨.unrecorded rfl rfl, rfl⟩
                  · exact ⟨.announced hok hc hb rfl rfl, rfl⟩
                  · exact ⟨.unread hok hc hb rfl rfl, rfl⟩

/-! ## The routing cache -/

/-- The owner and task of every run row. -/
def bindings (s : Store) : List (RunId × NodeId × TaskId) :=
  s.runs.map (fun r => (r.id, r.nodeId, r.taskId))

/-- The cache holds nothing but bindings of run rows. -/
def CacheOk (h : HubState) : Prop :=
  ∀ r b, h.routing.run r = some b → (r, b) ∈ bindings h.hub

theorem bindings_setRunStatus (s : Store) (r : RunId) (st : RunStatus) :
    bindings (s.setRunStatus r st) = bindings s := by
  unfold bindings Store.setRunStatus Table.update
  rw [List.map_map]
  refine List.map_congr_left fun row _ => ?_
  simp only [Function.comp_apply]
  split <;> rfl

theorem bindings_nodeAppended (append : CallEnv) (s : Store) (id : EventId) (d : EventDraft) :
    bindings (s.nodeAppended append id d) = bindings s := by
  have hst : bindings (s.nodeAppended append id d) = bindings (s.terminalStatuses d) := rfl
  rw [hst]
  unfold Store.terminalStatuses
  split
  · exact bindings_setRunStatus _ _ _
  · rfl

theorem mem_bindings_bundled (append : CallEnv) {s : Store} (c : CommandId) (d : EventDraft)
    (e : EntityWrite) (disp : Option (NodeId × HubToNode)) {b : RunId × NodeId × TaskId}
    (hb : b ∈ bindings s) : b ∈ bindings (s.bundled append c d e disp) := by
  unfold bindings Store.bundled EntityWrite.onRuns
  cases e with
  | none => exact hb
  | task t => exact hb
  | run r =>
      rw [List.map_append]
      exact List.mem_append_left _ hb

theorem CacheOk.remember {h : HubState} (hc : CacheOk h) {r : RunId} {n : NodeId} {t : TaskId}
    (hb : (r, n, t) ∈ bindings h.hub) : CacheOk (h.rememberRun r n t) := by
  intro r' b hr
  simp only [rememberRun, Function.update_apply] at hr
  split at hr
  · next heq =>
      obtain rfl := Option.some.inj hr
      exact heq ▸ hb
  · exact hc r' b hr

/-- A run that the store returns is a run row. -/
theorem getRun_some {env : CallEnv} {s : Store} {r : RunId} {run : Run}
    (hrun : s.getRun env r = .ok (some run)) :
    run.id = r ∧ (run.id, run.nodeId, run.taskId) ∈ bindings s := by
  obtain ⟨_, -, hmap⟩ := Result.bind_eq_ok.mp hrun
  cases hl : Table.lookup RunOf.id s.runs r with
  | none =>
      rw [hl] at hmap
      cases hmap
  | some row =>
      rw [hl] at hmap
      obtain ⟨run', hrow, heq⟩ := Result.bind_eq_ok.mp hmap
      obtain rfl := Option.some.inj (Result.pure_eq_ok.mp heq)
      simp only [rowToRun, Result.bind_eq_ok, Result.pure_eq_ok] at hrow
      obtain ⟨_, -, rfl⟩ := hrow
      obtain ⟨hmem, hid⟩ := Table.mem_of_lookup hl
      exact ⟨hid, List.mem_map_of_mem hmem⟩

/-- A binding that is read is that of a run row, from the cache or the table. -/
theorem CacheOk.runBindingChecked {h : HubState} (hc : CacheOk h) (env : CallEnv) (r : RunId) :
    CacheOk (h.runBindingChecked env r).1 ∧
      ∀ b, (h.runBindingChecked env r).2 = .ok (some b) → (r, b) ∈ bindings h.hub := by
  unfold HubState.runBindingChecked
  split
  · next b hb => exact ⟨hc, fun b' heq => Option.some.inj (Except.ok.inj heq) ▸ hc r b hb⟩
  · split
    · exact ⟨hc, fun b heq => by cases heq⟩
    · exact ⟨hc, fun b heq => by cases heq⟩
    · next run hrun =>
        obtain ⟨rfl, hb⟩ := getRun_some hrun
        exact ⟨hc.remember hb, fun b heq => Option.some.inj (Except.ok.inj heq) ▸ hb⟩

theorem runBinding_eq (env : CallEnv) (h : HubState) (r : RunId) :
    (h.runBinding env r).1 = (h.runBindingChecked env r).1 ∧
      ∀ b, (h.runBinding env r).2 = some b → (h.runBindingChecked env r).2 = .ok (some b) := by
  unfold runBinding
  split <;> next heq => simp [heq]

theorem CacheOk.runBinding {h : HubState} (hc : CacheOk h) (env : CallEnv) (r : RunId) :
    CacheOk (h.runBinding env r).1 ∧
      ∀ b, (h.runBinding env r).2 = some b → (r, b) ∈ bindings h.hub := by
  obtain ⟨h1, h2⟩ := runBinding_eq env h r
  obtain ⟨hcache, hb⟩ := hc.runBindingChecked env r
  exact ⟨h1 ▸ hcache, fun b heq => hb b (h2 b heq)⟩

/-- An accepted event is about a run of its node and of its task. -/
theorem CacheOk.acceptsNodeEvent {h : HubState} (hc : CacheOk h) (env : CallEnv) (n : NodeId)
    (d : EventDraft) :
    CacheOk (h.acceptsNodeEvent env n d).1 ∧
      ((h.acceptsNodeEvent env n d).2 = .ok true →
        d.nodeId = n ∧ ∃ r, d.runId = some r ∧ (r, n, d.taskId) ∈ bindings h.hub) := by
  unfold HubState.acceptsNodeEvent
  split
  · exact ⟨hc, fun heq => by cases heq⟩
  · next hn =>
      split
      · exact ⟨hc, fun heq => by cases heq⟩
      · next r hrun =>
          obtain ⟨hcache, hb⟩ := hc.runBindingChecked env r
          split
          · next heq =>
              rw [heq] at hcache
              exact ⟨hcache, fun heq => by cases heq⟩
          · next binding heq =>
              rw [heq] at hcache hb
              refine ⟨hcache, fun hok => ⟨not_not.mp hn, r, hrun, ?_⟩⟩
              have := Except.ok.inj hok
              exact hb _ (congrArg Except.ok (of_decide_eq_true this))

theorem CacheOk.of_bindings {h h' : HubState} (hc : CacheOk h) (hr : h'.routing = h.routing)
    (hb : ∀ b ∈ bindings h.hub, b ∈ bindings h'.hub) : CacheOk h' := by
  intro r b hrb
  rw [hr] at hrb
  exact hb _ (hc r b hrb)

theorem CacheOk.planCommand {h : HubState} (hc : CacheOk h) (env : CommandEnv)
    (n : Option NodeId) (cmd : ClientCommand) : CacheOk (h.planCommand env n cmd).1 := by
  cases cmd with
  | createTask c title => exact hc
  | startRun c t nodeId engine model effort prompt policy workspace => exact hc
  | sendUserMessage c t r text mid =>
      simp only [HubState.planCommand, planSendUserMessage]
      cases r with
      | none =>
          dsimp only
          split <;> exact hc
      | some r =>
          dsimp only
          split <;> exact (hc.runBinding env.lookup r).1
  | interruptRun c r =>
      simp only [HubState.planCommand, planInterruptRun]
      split <;> exact (hc.runBinding env.lookup r).1
  | resolveApproval c id decision actor =>
      obtain ⟨ap, hap⟩ := planCommand_approvals env h n (.resolveApproval c id decision actor)
      refine hc.of_bindings ?_ ?_
      · simp only [HubState.planCommand, planResolveApproval]
        split <;> rfl
      · intro b hb
        rw [hap]
        exact hb

/-- A recorded command leaves the run it starts in the table. -/
theorem CommandResult.bindings_mono {env : CommandEnv} {h h' : HubState} {n : Option NodeId}
    {cmd : ClientCommand} {effect : CommandEffect} (hres : CommandResult env h n cmd h' effect) :
    ∀ b ∈ bindings h.hub, b ∈ bindings h'.hub := by
  intro b hb
  cases hres with
  | unrecorded ap hub events dispatch =>
      rw [hub]
      exact hb
  | announced plan ap recorded rb hub events dispatch =>
      rw [hub]
      exact mem_bindings_bundled env.append cmd.commandId plan.draft plan.entity plan.dispatch hb
  | unread plan ap recorded rb hub events dispatch =>
      rw [hub]
      exact mem_bindings_bundled env.append cmd.commandId plan.draft plan.entity plan.dispatch hb

theorem CacheOk.applyCommandInner {h : HubState} (hc : CacheOk h) (env : CommandEnv)
    (n : Option NodeId) (cmd : ClientCommand) : CacheOk (h.applyCommandInner env cmd n).1 := by
  by_cases ha : Answers env.outcome h.hub cmd.commandId
  · obtain ⟨hr, hl⟩ := ha
    obtain ⟨r, hl⟩ := Option.isSome_iff_exists.mp hl
    simp only [HubState.applyCommandInner, Store.commandOutcome, CallEnv.admit, hr, hl,
      Option.map_some]
    exact hc
  · rw [applyCommandInner_eq ha]
    have hplanned := hc.planCommand env n cmd
    cases hplan : (h.planCommand env n cmd).2 with
    | error e =>
        rw [← Prod.mk.eta (p := h.planCommand env n cmd), hplan]
        exact hplanned
    | ok plan =>
        obtain ⟨hres, -, hrouting⟩ := finishWithEntity_result ha hplan
        obtain ⟨ap, hap⟩ := planCommand_approvals env h n cmd
        rw [← Prod.mk.eta (p := h.planCommand env n cmd), hplan]
        dsimp only
        have hfinished : CacheOk
            ((h.planCommand env n cmd).1.finishWithEntity env cmd.commandId plan).1 := by
          refine hplanned.of_bindings hrouting fun b hb => hres.bindings_mono b ?_
          rw [hap] at hb
          exact hb
        unfold rememberStarted
        split
        · next run work hrun hwork =>
            refine hfinished.remember ?_
            cases hres with
            | unrecorded ap hub events dispatch => exact absurd (dispatch.symm.trans hwork) (by simp)
            | unread plan ap recorded rb hub events dispatch =>
                exact absurd (dispatch.symm.trans hwork) (by simp)
            | announced plan' ap' recorded rb hub events dispatch =>
                obtain rfl : plan = plan' := Except.ok.inj (hplan.symm.trans recorded.2.1)
                rw [hub]
                simp only [bindings, Store.bundled, hrun, EntityWrite.onRuns, List.map_append]
                exact List.mem_append_right _ (List.mem_singleton_self _)
        · exact hfinished

/-! ## What a step can do to the tables -/

theorem CommandResult.hub_cases {env : CommandEnv} {h h' : HubState} {n : Option NodeId}
    {cmd : ClientCommand} {effect : CommandEffect} (hres : CommandResult env h n cmd h' effect) :
    (∃ ap, h'.hub = { h.hub with approvals := ap }) ∨
    ∃ plan ap, Records env h n cmd plan ∧
      h'.hub = { h.hub.bundled env.append cmd.commandId plan.draft plan.entity
        plan.dispatch with approvals := ap } := by
  cases hres with
  | unrecorded ap hub events dispatch => exact .inl ⟨ap, hub⟩
  | announced plan ap recorded rb hub events dispatch => exact .inr ⟨plan, ap, recorded, hub⟩
  | unread plan ap recorded rb hub events dispatch => exact .inr ⟨plan, ap, recorded, hub⟩

theorem EventResult.hub_cases {validate append fetch : CallEnv} {h h' : HubState} {n : NodeId}
    {id : EventId} {d : EventDraft} (hres : EventResult validate append fetch h n id d h') :
    h'.hub = h.hub ∨ ((h.acceptsNodeEvent validate n d).2 = .ok true ∧
      CommitsEvent append h.hub id d ∧ h'.hub = h.hub.nodeAppended append id d) := by
  cases hres with
  | unrecorded hub events => exact .inl hub
  | announced accepted commits rb hub events => exact .inr ⟨accepted, commits, hub⟩
  | unread accepted commits rb hub events => exact .inr ⟨accepted, commits, hub⟩

/-- A recorded command leaves its bundle. -/
theorem recorded_hub {env : CommandEnv} {h : HubState} {n : Option NodeId} {cmd : ClientCommand}
    {plan : Plan} (hrec : Records env h n cmd plan) :
    ∃ ap, (h.applyCommandInner env cmd n).1.hub =
      { h.hub.bundled env.append cmd.commandId plan.draft plan.entity plan.dispatch with
        approvals := ap } := by
  obtain ⟨ap, hap⟩ := planCommand_approvals env h n cmd
  obtain ⟨ha, hplan, hc⟩ := hrec
  have hcommits : Commits env.append (h.planCommand env n cmd).1.hub cmd.commandId plan.entity
      plan.dispatch := by
    rw [hap]
    exact hc
  refine ⟨ap, ?_⟩
  rw [applyCommandInner_eq ha, ← Prod.mk.eta (p := h.planCommand env n cmd), hplan]
  simp only [finishWithEntity]
  by_cases hb : ReadsBack env.append env.fetch plan.draft
  · rw [command_announced hcommits hb]
    obtain ⟨rt, hrt⟩ := rememberStarted_eq
      ((h.planCommand env n cmd).1.announced env.append cmd.commandId plan.draft plan.entity
        plan.dispatch) plan _
    rw [hrt]
    simp only [HubState.announced, hap]
    rfl
  · obtain ⟨err, herr⟩ := command_unread hcommits hb
    rw [herr]
    obtain ⟨rt, hrt⟩ := rememberStarted_eq _ plan _
    rw [hrt]
    simp only [hap]
    rfl

/-- An accepted event that commits is appended. -/
theorem accepted_hub {validate append : CallEnv} (fetch : CallEnv) {h : HubState} {n : NodeId}
    {id : EventId} {d : EventDraft} (hacc : (h.acceptsNodeEvent validate n d).2 = .ok true)
    (hc : CommitsEvent append h.hub id d) :
    (h.handleNodeEvent validate append fetch n id d).hub = h.hub.nodeAppended append id d := by
  obtain ⟨rt, hrt⟩ := acceptsNodeEvent_fst validate h n d
  unfold handleNodeEvent
  rw [← Prod.mk.eta (p := h.acceptsNodeEvent validate n d), hacc, hrt]
  dsimp only
  have hc' : CommitsEvent append ({ h with routing := rt } : HubState).hub id d := hc
  by_cases hb : ReadsBack append fetch d
  · rw [event_announced hc' hb]
    exact (routeToNode_hub _ _ _).1
  · obtain ⟨err, herr⟩ := event_unread hc' hb
    rw [herr]

/-- The change of the log, the tasks and the runs in one step: none, a recorded
command, an accepted node event, or the hub's own note that a node came or
went. -/
inductive StoreChange (h : HubState) : HubLabel → Store → Prop where
  | quiet {a : HubLabel} {s' : Store} (events : s'.events = h.hub.events)
      (tasks : s'.tasks = h.hub.tasks) (runs : s'.runs = h.hub.runs) : StoreChange h a s'
  | recorded {env : CommandEnv} {cmd : ClientCommand} {n : Option NodeId} (plan : Plan)
      (ap : List ApprovalRow) (recorded : Records env h n cmd plan) :
      StoreChange h (.command env cmd n)
        { h.hub.bundled env.append cmd.commandId plan.draft plan.entity plan.dispatch with
          approvals := ap }
  | accepted {validate append fetch : CallEnv} {n : NodeId} {id : EventId} {d : EventDraft}
      (accepted : (h.acceptsNodeEvent validate n d).2 = .ok true)
      (commits : CommitsEvent append h.hub id d) :
      StoreChange h (.nodeEvent validate append fetch n id d) (h.hub.nodeAppended append id d)
  | link {a : HubLabel} {s' : Store} (e : EventRow) (kind : Store.terminalOf e.kind = none)
      (notStarted : e.kind ≠ .runStarted) (events : s'.events = h.hub.events ++ [e])
      (tasks : s'.tasks = h.hub.tasks) (runs : s'.runs = h.hub.runs) : StoreChange h a s'

/-- A node append of a draft that ends no run, as seen from the store. -/
theorem StoreChange.of_note {h g : HubState} {a : HubLabel} (append fetch : CallEnv)
    {id : EventId} {d : EventDraft} (hk : Store.terminalOf d.kind = none)
    (hs : d.kind ≠ .runStarted) (he : g.hub.events = h.hub.events)
    (ht : g.hub.tasks = h.hub.tasks) (hr : g.hub.runs = h.hub.runs) :
    StoreChange h a (g.appendAndBroadcastNodeEvent append fetch id d).1.hub := by
  have hterm : g.hub.terminalStatuses d = g.hub := by
    unfold Store.terminalStatuses
    rw [hk]
  have happended : StoreChange h a (g.hub.nodeAppended append id d) := by
    refine .link (g.hub.nodeEvent append id d) hk hs ?_ ?_ ?_
    · simp only [Store.nodeAppended, he]
    · simp only [Store.nodeAppended, hterm, ht]
    · simp only [Store.nodeAppended, hterm, hr]
  obtain ⟨heq, -⟩ | ⟨-, -, heq⟩ | ⟨-, -, heq⟩ := event_cases append fetch g id d
  · rw [heq]
    exact .quiet he ht hr
  · rw [heq]
    exact happended
  · rw [heq]
    exact happended

theorem step_change (h : HubState) (a : HubLabel) : StoreChange h a (h.step a).hub := by
  cases a with
  | command env cmd n =>
      obtain ⟨ap, hap⟩ | ⟨plan, ap, hrec, hap⟩ :=
        (applyCommandInner_result env h n cmd).1.hub_cases
      · simp only [step, hap]
        exact .quiet rfl rfl rfl
      · simp only [step, hap]
        exact .recorded plan ap hrec
  | nodeEvent validate append fetch n id d =>
      obtain heq | ⟨hacc, hc, heq⟩ :=
        (handleNodeEvent_result validate append fetch h n id d).1.hub_cases
      · simp only [step, heq]
        exact .quiet rfl rfl rfl
      · simp only [step, heq]
        exact .accepted hacc hc
  | commandAck env n c =>
      simp only [step, HubState.acknowledgeDispatchFrom]
      split
      · next s b hop =>
          obtain ⟨-, rfl, -⟩ := Store.ackWhere_eq_ok.mp hop
          exact .quiet rfl rfl rfl
      · exact .quiet rfl rfl rfl
  | register upsert append fetch hello now =>
      simp only [step, onNodeConnected]
      refine StoreChange.of_note append fetch rfl (by simp [connectedDraft, EventDraft.new, EventDraft.withPayload])
        ?_ ?_ ?_ <;>
      · split
        · next hop =>
            obtain ⟨_, -, hs⟩ := Result.bind_eq_ok.mp hop
            obtain rfl := Result.pure_eq_ok.mp hs
            rfl
        · rfl
  | unregister read upsert append fetch n c now =>
      have hsame : ∀ b, (h.unregisterNode n c) = ((h.unregisterNode n c).1, b) →
          (h.unregisterNode n c).1.hub = h.hub := by
        intro b _
        unfold unregisterNode
        split <;> rfl
      simp only [step]
      split
      · next g heq =>
          obtain rfl : (h.unregisterNode n c).1 = g := by rw [heq]
          have hg := hsame true heq
          simp only [onNodeDisconnected]
          refine StoreChange.of_note append fetch rfl (by simp [disconnectedDraft, EventDraft.new]) ?_ ?_ ?_ <;>
          · rw [← hg]
            split
            · split
              · next hop =>
                  obtain ⟨_, -, hs⟩ := Result.bind_eq_ok.mp hop
                  obtain rfl := Result.pure_eq_ok.mp hs
                  rfl
              · rfl
            · rfl
      · next g heq =>
          obtain rfl : (h.unregisterNode n c).1 = g := by rw [heq]
          rw [hsame false heq]
          exact .quiet rfl rfl rfl
  | registerWorker env channel t =>
      simp only [step]
      split
      · next hop =>
          obtain ⟨_, -, hs⟩ := Result.bind_eq_ok.mp hop
          obtain rfl := Result.pure_eq_ok.mp hs
          exact .quiet rfl rfl rfl
      · exact .quiet rfl rfl rfl
  | restart => exact .quiet rfl rfl rfl

theorem StoreChange.bindings_mono {h : HubState} {a : HubLabel} {s' : Store}
    (hs : StoreChange h a s') : ∀ b ∈ bindings h.hub, b ∈ bindings s' := by
  intro b hb
  cases hs with
  | quiet events tasks runs =>
      unfold bindings
      rw [runs]
      exact hb
  | @recorded env cmd n plan ap recorded =>
      exact mem_bindings_bundled env.append cmd.commandId plan.draft plan.entity plan.dispatch hb
  | accepted accepted commits => exact (bindings_nodeAppended ..).symm ▸ hb
  | link e kind notStarted events tasks runs =>
      unfold bindings
      rw [runs]
      exact hb

theorem event_routing (append fetch : CallEnv) (h : HubState) (id : EventId) (d : EventDraft) :
    (h.appendAndBroadcastNodeEvent append fetch id d).1.routing = h.routing := by
  obtain ⟨heq, -⟩ | ⟨-, -, heq⟩ | ⟨-, -, heq⟩ := event_cases append fetch h id d
  · rw [heq]
  · rw [heq]
    rfl
  · rw [heq]

/-- The cache stays true to the run rows. -/
theorem CacheOk.step {h : HubState} (hc : CacheOk h) (a : HubLabel) : CacheOk (h.step a) := by
  have hmono := (step_change h a).bindings_mono
  cases a with
  | command env cmd n => exact hc.applyCommandInner env n cmd
  | nodeEvent validate append fetch n id d =>
      intro r b hr
      have hrouting := (handleNodeEvent_result validate append fetch h n id d).2
      obtain ⟨rt, hrt⟩ := acceptsNodeEvent_fst validate h n d
      have hb := (hc.acceptsNodeEvent validate n d).1 r b (hrouting ▸ hr)
      rw [hrt] at hb
      exact hmono _ hb
  | commandAck env n c =>
      refine hc.of_bindings ?_ hmono
      simp only [HubState.step, HubState.acknowledgeDispatchFrom]
      split <;> rfl
  | register upsert append fetch hello now =>
      refine hc.of_bindings ?_ hmono
      simp only [HubState.step, onNodeConnected, event_routing]
      split <;> rfl
  | unregister read upsert append fetch n c now =>
      refine hc.of_bindings ?_ hmono
      have hsame : (h.unregisterNode n c).1.routing = h.routing := by
        unfold unregisterNode
        split <;> rfl
      simp only [HubState.step]
      split <;> next g heq =>
        obtain rfl : (h.unregisterNode n c).1 = g := by rw [heq]
        first
          | exact hsame
          | (simp only [onNodeDisconnected, event_routing]
             split
             · split <;> exact hsame
             · exact hsame)
  | registerWorker env channel t =>
      refine hc.of_bindings ?_ hmono
      simp only [HubState.step]
      split <;> rfl
  | restart =>
      intro r b hr
      cases hr

theorem CacheOk.init {h : HubState} (hi : system.init h) : CacheOk h := by
  obtain ⟨refusal, nodeSecret, clientSecret, rfl⟩ := hi
  intro r b hr
  cases hr

/-! ## The store's own operations -/

/-- `s'` is `s` after some successful calls of the store's operations. -/
inductive Performs (s : Store) : Store → Prop where
  | refl : Performs s s
  | call {t : Store} (env : CallEnv) (c : StoreCall) (w : Written) (h : Performs s t)
      (hw : c.perform env t = .ok w) : Performs s w.store

theorem Performs.trans {s t u : Store} (h : Performs s t) (h' : Performs t u) : Performs s u := by
  induction h' with
  | refl => exact h
  | call env c w _ hw ih => exact .call env c w ih hw

/-- The log and receipt invariant holds of whatever the operations make. -/
theorem Performs.eventLog {s s' : Store} (h : Performs s s') (hs : EventLog s) : EventLog s' := by
  induction h with
  | refl => exact hs
  | call env c w _ hw ih => exact ih.perform hw

/-- Events are only appended. -/
theorem Performs.events_grow {s s' : Store} (h : Performs s s') : s.events <+: s'.events := by
  induction h with
  | refl => exact List.prefix_rfl
  | call env c w _ hw ih =>
      refine ih.trans ?_
      obtain ⟨_, _, _, _, -, -, -, rfl⟩ | ⟨_, _, -, -, rfl⟩ | hquiet := StoreCall.perform_cases hw
      · exact List.prefix_append _ _
      · exact List.prefix_append _ _
      · exact hquiet.events ▸ List.prefix_rfl

theorem Performs.nodeEvent (append fetch : CallEnv) (h : HubState) (id : EventId)
    (d : EventDraft) :
    Performs h.hub (h.appendAndBroadcastNodeEvent append fetch id d).1.hub := by
  have happended : CommitsEvent append h.hub id d →
      Performs h.hub (h.hub.nodeAppended append id d) := by
    intro hc
    refine .call append (.appendNodeEvent id d)
      ⟨h.hub.nodeAppended append id d, none, []⟩ .refl ?_
    exact Result.bind_eq_ok.mpr ⟨_, append_ok_of_commitsEvent hc, rfl⟩
  obtain ⟨heq, -⟩ | ⟨hc, -, heq⟩ | ⟨hc, -, heq⟩ := event_cases append fetch h id d
  · rw [heq]
    exact .refl
  · rw [heq]
    exact happended hc
  · rw [heq]
    exact happended hc

theorem Performs.bundle (append fetch : CallEnv) (h : HubState) (c : CommandId) (d : EventDraft)
    (e : EntityWrite) (disp : Option (NodeId × HubToNode)) :
    Performs h.hub (h.appendAndBroadcastCommand append fetch c d e disp).1.hub := by
  have hbundled : Commits append h.hub c e disp →
      Performs h.hub (h.hub.bundled append c d e disp) := by
    intro hc
    refine .call append (.appendCommandBundle c d e disp)
      ⟨_, some (c, ⟨h.hub.maxSequence + 1, ⟨append.uuid⟩, true⟩), e.minted⟩ .refl ?_
    exact Result.bind_eq_ok.mpr ⟨_, append_ok_of_commits hc, rfl⟩
  obtain ⟨heq, -⟩ | ⟨hc, -, heq⟩ | ⟨hc, -, heq⟩ := command_cases append fetch h c d e disp
  · rw [heq]
    exact .refl
  · rw [heq]
    exact hbundled hc
  · rw [heq]
    exact hbundled hc

/-- Finishing a command is its append. -/
theorem finishWithEntity_fst (env : CommandEnv) (h : HubState) (c : CommandId) (plan : Plan) :
    (h.finishWithEntity env c plan).1 =
      (h.appendAndBroadcastCommand env.append env.fetch c plan.draft plan.entity
        plan.dispatch).1 := by
  unfold finishWithEntity
  split <;> next heq => rw [heq]

theorem Performs.command (env : CommandEnv) (h : HubState) (n : Option NodeId)
    (cmd : ClientCommand) : Performs h.hub (h.applyCommandInner env cmd n).1.hub := by
  have hplan : Performs h.hub (h.planCommand env n cmd).1.hub := by
    obtain heq | ⟨c, id, decision, actor, rfl, row, current, hl, hrow, hp, hd, -, heq⟩ :=
      planCommand_hub env h n cmd
    · rw [heq]
      exact .refl
    · rw [heq]
      have hop : h.hub.resolveApproval ⟨.epoch, 0, none⟩ id decision actor env.lookup.now =
          .ok (h.hub.resolved id decision actor env.lookup.now,
            { current with
              decision := decision, resolvedBy := some actor,
              resolvedAt := some env.lookup.now }) := by
        refine Store.resolveApproval_eq_ok.mpr ⟨hd, rfl, row, current, hl, hrow, ?_⟩
        rw [if_pos hp]
        exact ⟨rfl, rfl⟩
      exact .call _ (.resolveApproval id decision actor env.lookup.now) ⟨_, none, []⟩ .refl
        (Result.bind_eq_ok.mpr ⟨_, hop, rfl⟩)
  by_cases ha : Answers env.outcome h.hub cmd.commandId
  · obtain ⟨hr, hl⟩ := ha
    obtain ⟨r, hl⟩ := Option.isSome_iff_exists.mp hl
    simp only [applyCommandInner, Store.commandOutcome, CallEnv.admit, hr, hl, Option.map_some]
    exact .refl
  · rw [applyCommandInner_eq ha]
    generalize h.planCommand env n cmd = r at *
    obtain ⟨h₁, p⟩ := r
    cases p with
    | error e => exact hplan
    | ok plan =>
        refine hplan.trans ?_
        dsimp only
        obtain ⟨rt, hrt⟩ := rememberStarted_eq (h₁.finishWithEntity env cmd.commandId plan).1 plan
          (h₁.finishWithEntity env cmd.commandId plan).2
        rw [hrt]
        show Performs h₁.hub (h₁.finishWithEntity env cmd.commandId plan).1.hub
        rw [finishWithEntity_fst]
        exact .bundle env.append env.fetch h₁ cmd.commandId plan.draft plan.entity plan.dispatch

/-- **The hub writes through the store's operations only.** -/
theorem step_performs (h : HubState) (a : HubLabel) : Performs h.hub (h.step a).hub := by
  cases a with
  | command env cmd n => exact .command env h n cmd
  | nodeEvent validate append fetch n id d =>
      obtain ⟨rt, hrt⟩ := acceptsNodeEvent_fst validate h n d
      simp only [step, handleNodeEvent]
      rw [← Prod.mk.eta (p := h.acceptsNodeEvent validate n d), hrt]
      have hcall := Performs.nodeEvent append fetch { h with routing := rt } id d
      split
      · next heq =>
          obtain ⟨rfl, -⟩ := Prod.mk.inj heq
          rw [(routeToNode_hub _ _ _).1]
          exact .refl
      · next heq =>
          obtain ⟨rfl, -⟩ := Prod.mk.inj heq
          split
          · next hop =>
              rw [(routeToNode_hub _ _ _).1]
              rw [hop] at hcall
              exact hcall
          · next hop =>
              rw [hop] at hcall
              exact hcall
      · next heq =>
          obtain ⟨rfl, -⟩ := Prod.mk.inj heq
          exact .refl
  | commandAck env n c =>
      simp only [step, HubState.acknowledgeDispatchFrom]
      split
      · next s b hop =>
          exact .call env (.acknowledgeDispatchFrom c n) ⟨s, none, []⟩ .refl
            (Result.bind_eq_ok.mpr ⟨_, hop, rfl⟩)
      · exact .refl
  | register upsert append fetch hello now =>
      simp only [step, onNodeConnected]
      refine Performs.trans ?_ (Performs.nodeEvent append fetch _ _ _)
      split
      · next s hop =>
          exact .call upsert (.upsertNode _) ⟨s, none, []⟩ .refl
            (Result.bind_eq_ok.mpr ⟨_, hop, rfl⟩)
      · exact .refl
  | unregister read upsert append fetch n c now =>
      have hsame : (h.unregisterNode n c).1.hub = h.hub := by
        unfold unregisterNode
        split <;> rfl
      simp only [step]
      split
      · next g heq =>
          obtain rfl : (h.unregisterNode n c).1 = g := by rw [heq]
          simp only [onNodeDisconnected]
          refine Performs.trans ?_ (Performs.nodeEvent append fetch _ _ _)
          rw [← hsame]
          split
          · split
            · next s hop =>
                exact .call upsert (.upsertNode _) ⟨s, none, []⟩ .refl
                  (Result.bind_eq_ok.mpr ⟨_, hop, rfl⟩)
            · exact .refl
          · exact .refl
      · next g heq =>
          obtain rfl : (h.unregisterNode n c).1 = g := by rw [heq]
          rw [hsame]
          exact .refl
  | registerWorker env channel t =>
      simp only [step]
      split
      · next s hop =>
          exact .call env (.registerAssistantWorker channel t) ⟨s, none, []⟩ .refl (Result.bind_eq_ok.mpr ⟨_, hop, rfl⟩)
      · exact .refl
  | restart => exact .refl

theorem eventLog_init {h : HubState} (hi : system.init h) : EventLog h.hub := by
  obtain ⟨refusal, nodeSecret, clientSecret, rfl⟩ := hi
  obtain ⟨m, hm⟩ := Store.runMigrations_fst refusal Store.blank
  simp only [fromHub, hm]
  exact EventLog.blank.migrate m

/-! ## Short runs -/

/-- A run of steps from a fresh hub. -/
def after (steps : List HubLabel) : HubState := steps.foldl HubState.step freshHub

theorem fresh_init : system.init freshHub := ⟨fun _ => none, "", "", rfl⟩

theorem after_reach (steps : List HubLabel) : system.Reach Anyway (after steps) := by
  unfold after
  induction steps using List.reverseRecOn with
  | nil => exact .start fresh_init
  | append_singleton steps a ih =>
      rw [List.foldl_append]
      exact .next ih trivial rfl

/-- The node `name` arrives, able to run Claude. -/
def arrival (name : String) : HubLabel :=
  .register (plainCall 1) (plainCall 2) (plainCall 3)
    ⟨⟨name⟩, "", "0.1.0", wireProtocolVersion,
      .object [("engines", .array [.string "claude"])], none⟩ .epoch

/-- A client creates a task, minting `u`. -/
def creation (u : ℕ) : HubLabel :=
  .command (plainCommand u) (.createTask ⟨BitVec.ofNat 128 u⟩ "t") none

/-- A client starts a Claude run of a task, minting `u`. -/
def starting (u task : ℕ) : HubLabel :=
  .command (plainCommand u)
    (.startRun ⟨BitVec.ofNat 128 u⟩ ⟨BitVec.ofNat 128 task⟩ none "claude" none none none
      .supervised none) none

/-- The node `name` reports `kind` for a run, as the event `u`. -/
def report (name : String) (u : ℕ) (kind : EventKind) (task run : ℕ) : HubLabel :=
  .nodeEvent (plainCall 1) (plainCall 2) (plainCall 3) ⟨name⟩ ⟨BitVec.ofNat 128 u⟩
    ((EventDraft.new kind ⟨BitVec.ofNat 128 task⟩ ⟨name⟩ .epoch).withRun
      ⟨BitVec.ofNat 128 run⟩)

end HubState

end Stackhour.Hub
