import Stackhour.Hub.FleetSteps

/-!
# Where a run and a task are routed

The binding of a run is read from the cache and otherwise from the run rows, so
it is the stored one whether or not the cache has been emptied. The node of a
task is cached only: every run that is remembered is taken for the latest of its
task, also one that was started long ago and is merely looked up, and a restart
leaves none.
-/

namespace Stackhour.Hub

open Domain TransitionSystem HubState

/-! ## The property -/

/-- The node of the run of a task that was started last; rows are added at the
end of the table. -/
def latestNode (bs : List (RunId × NodeId × TaskId)) (t : TaskId) : Option NodeId :=
  ((bs.filter (fun b => decide (b.2.2 = t))).getLast?).map (fun b => b.2.1)

/-- The node of a task is that of its latest run, if it has a run. -/
def TasksLatest (h : HubState) : Prop :=
  ∀ t n, latestNode (bindings h.hub) t = some n → h.nodeForTask t = some n

/-- **The routing agrees with the durable runs.** `run_binding` answers with
bindings of run rows only, and with that of the run the store returns; the node
of a task is that of its latest run. -/
structure RoutingAgrees (h : HubState) : Prop where
  stored : ∀ env r b, (h.runBinding env r).2 = some b → (r, b) ∈ bindings h.hub
  found : ∀ env r run, h.hub.getRun env r = .ok run →
    (h.runBinding env r).2 = run.map (fun run => (run.nodeId, run.taskId))
  latest : TasksLatest h

/-! ## The condition -/

/-- A run that is not cached is read from the store only if it is on the node of
its task's latest run. -/
def ReadsLatest (h : HubState) (env : CallEnv) (r : RunId) : Prop :=
  h.routing.run r = none → ∀ run, h.hub.getRun env r = .ok (some run) →
    latestNode (bindings h.hub) run.taskId = some run.nodeId

/-- The same of the run a message or an interrupt is about; and a run that is
started has its event read back, or is on the node its task is cached with. -/
def CommandKeepsLatest (h : HubState) (env : CommandEnv) (cmd : ClientCommand)
    (reserved : Option NodeId) : Prop :=
  ¬ Answers env.outcome h.hub cmd.commandId →
    match cmd with
    | .sendUserMessage _ _ (some r) _ _ => ReadsLatest h env.lookup r
    | .interruptRun _ r => ReadsLatest h env.lookup r
    | .startRun .. => ∀ plan run, Records env h reserved cmd plan → plan.entity = .run run →
        ReadsBack env.append env.fetch plan.draft ∨ h.nodeForTask run.taskId = some run.nodeId
    | _ => True

/-- The command that a stage of a creation submits. -/
def Stage.command (e : StageEnv) (request : WorkerRequest) (nodeId : NodeId) :
    Stage → Option (ClientCommand × Option NodeId)
  | .selected => some (.createTask e.commandId request.title, none)
  | .tracked taskId => some (.startRun e.commandId taskId (some nodeId) request.engine request.model
      request.reasoningEffort none .supervised request.workspacePath, some nodeId)
  | .bound taskId runId => some (.sendUserMessage e.commandId taskId (some runId) request.prompt
      (Store.uuidText e.messageId), none)
  | _ => none

/-- No run is looked up, uncached, that is on another node than its task's latest
run; no run is started, unremembered, on another node than its task is cached
with; and the hub does not restart once it has runs. -/
def KeepsLatest (f : Fleet) : AuthorityLabel → Prop
  | .restart => f.hub.hub.runs = []
  | .fleet (.check c validate _ draft) => ∀ hello r, f.sessions c = some ⟨hello, .live none⟩ →
      draft.nodeId = hello.nodeId → draft.runId = some r → ReadsLatest f.hub validate r
  | .fleet (.command env cmd) => CommandKeepsLatest f.hub env cmd none
  | .fleet (.stage e) => ∀ call cmd reserved, f.gate = some call →
      call.stage.command e call.request call.nodeId = some (cmd, reserved) →
      CommandKeepsLatest f.hub e.env cmd reserved
  -- a run of the assistant is never remembered
  | .fleet (.startAssistant env c t engine model effort prompt workspace) =>
      validateRunConfiguration engine model effort (some prompt) workspace = .ok () →
      Commits env.append f.hub.hub c (.run (newRun env t hubNode engine model effort (some prompt)
        .supervised workspace)) none → f.hub.nodeForTask t = some hubNode
  | .fleet (.track lookup _ _ _ r) => ReadsLatest f.hub lookup r
  | _ => True

/-! ## The latest run -/

theorem latestNode_append (bs : List (RunId × NodeId × TaskId)) (b : RunId × NodeId × TaskId)
    (t : TaskId) :
    latestNode (bs ++ [b]) t = if b.2.2 = t then some b.2.1 else latestNode bs t := by
  unfold latestNode
  rw [List.filter_append, List.filter_singleton]
  by_cases ht : b.2.2 = t
  · simp [ht]
  · simp [ht]

theorem latestNode_nil (t : TaskId) : latestNode [] t = none := rfl

/-- A command with another entity adds no run. -/
theorem HubState.CommandResult.bindings_other {env : CommandEnv} {h h' : HubState} {n : Option NodeId}
    {cmd : ClientCommand} {effect : CommandEffect} {plan : Plan}
    (hres : CommandResult env h n cmd h' effect) (hplan : (h.planCommand env n cmd).2 = .ok plan)
    (hrun : ∀ run, plan.entity ≠ .run run) : bindings h'.hub = bindings h.hub := by
  obtain ⟨ap, hap⟩ | ⟨plan', ap, hrec, hap⟩ := hres.hub_cases
  · rw [hap]
    rfl
  · obtain rfl : plan = plan' := Except.ok.inj (hplan.symm.trans hrec.2.1)
    rw [hap]
    refine Eq.trans (bindings_bundled env.append h.hub cmd.commandId plan.draft plan.entity
      plan.dispatch) ?_
    split
    · next run heq => exact absurd heq (hrun run)
    · exact List.append_nil _

namespace TasksLatest

variable {h h' : HubState}

theorem still (ht : TasksLatest h) (hs : Still h h') : TasksLatest h' := by
  intro t n hn
  rw [hs.bindings] at hn
  unfold nodeForTask
  rw [hs.routing]
  exact ht t n hn

/-- Remembering a run that is on the node of its task's latest run. -/
theorem remember (ht : TasksLatest h) {r : RunId} {n : NodeId} {t : TaskId}
    (hn : latestNode (bindings h.hub) t = some n) : TasksLatest (h.rememberRun r n t) := by
  intro t' n' hn'
  simp only [nodeForTask, rememberRun, Function.update_apply]
  split
  · next heq =>
      subst heq
      exact hn.symm.trans hn'
  · exact ht t' n' hn'

/-- A new run, its task being cached with its node. -/
theorem gain (ht : TasksLatest h) {b : RunId × NodeId × TaskId}
    (hb : bindings h'.hub = bindings h.hub ++ [b]) (hnode : h'.nodeForTask b.2.2 = some b.2.1)
    (hsame : ∀ t, t ≠ b.2.2 → h'.nodeForTask t = h.nodeForTask t) : TasksLatest h' := by
  intro t n hn
  rw [hb, latestNode_append] at hn
  split at hn
  · next heq => exact heq ▸ hnode.trans hn
  · next hne =>
      rw [hsame t (Ne.symm hne)]
      exact ht t n hn

theorem runBindingChecked (ht : TasksLatest h) {env : CallEnv} {r : RunId}
    (hl : ReadsLatest h env r) : TasksLatest (h.runBindingChecked env r).1 := by
  unfold HubState.runBindingChecked
  split
  · exact ht
  · next hnone =>
      split
      · exact ht
      · exact ht
      · next run hrun => exact ht.remember (hl hnone run hrun)

theorem runBinding (ht : TasksLatest h) {env : CallEnv} {r : RunId} (hl : ReadsLatest h env r) :
    TasksLatest (h.runBinding env r).1 := by
  rw [(runBinding_eq env h r).1]
  exact ht.runBindingChecked hl

theorem acceptsNodeEvent (ht : TasksLatest h) {env : CallEnv} {n : NodeId} {d : EventDraft}
    (hl : d.nodeId = n → ∀ r, d.runId = some r → ReadsLatest h env r) :
    TasksLatest (h.acceptsNodeEvent env n d).1 := by
  unfold HubState.acceptsNodeEvent
  split
  · exact ht
  · next hn =>
      split
      · exact ht
      · next r hr =>
          have hread := ht.runBindingChecked (hl (not_not.mp hn) r hr)
          split <;> next heq => exact congrArg Prod.fst heq ▸ hread

theorem trackAssistantWorker (ht : TasksLatest h) {lookup : CallEnv} {r : RunId}
    (hl : ReadsLatest h lookup r) (register : CallEnv) (channel : String) (t : TaskId) :
    TasksLatest (h.trackAssistantWorker lookup register channel t r).1 := by
  have hread := ht.runBinding hl
  unfold HubState.trackAssistantWorker
  split
  · next heq => exact congrArg Prod.fst heq ▸ hread
  · next heq =>
      rw [heq] at hread
      split
      · exact hread
      · split
        · next hop => exact hread.still (.registerAssistantWorker hop)
        · exact hread

/-- Planning a command that starts no run looks a run up at most. -/
theorem planCommand (ht : TasksLatest h) {env : CommandEnv} {n : Option NodeId}
    {cmd : ClientCommand} (hok : CommandKeepsLatest h env cmd n)
    (ha : ¬ Answers env.outcome h.hub cmd.commandId) :
    TasksLatest (h.planCommand env n cmd).1 := by
  cases cmd with
  | createTask c title => exact ht
  | startRun c t nodeId engine model effort prompt policy workspace => exact ht
  | sendUserMessage c t r text mid =>
      simp only [HubState.planCommand, planSendUserMessage]
      cases r with
      | none =>
          dsimp only
          split <;> exact ht
      | some r =>
          dsimp only
          split <;> exact ht.runBinding (hok ha)
  | interruptRun c r =>
      simp only [HubState.planCommand, planInterruptRun]
      split <;> exact ht.runBinding (hok ha)
  | resolveApproval c id decision actor =>
      obtain ⟨ap, hap⟩ := planCommand_approvals env h n (.resolveApproval c id decision actor)
      refine ht.still ⟨?_, ?_⟩
      · simp only [HubState.planCommand, planResolveApproval]
        split <;> rfl
      · rw [hap]
        rfl

/-- A start that is recorded is remembered, unless its event is not read back;
then its task is cached with its node. -/
theorem startRun (ht : TasksLatest h) {env : CommandEnv} {n : Option NodeId} {cmd : ClientCommand}
    {plan : Plan} {run : Run} {effect : CommandEffect} (hrun : plan.entity = .run run)
    (hdispatch : ∃ work, plan.dispatch = some work)
    (hplan : (h.planCommand env n cmd).2 = .ok plan) (hr : h'.routing = h.routing)
    (hres : CommandResult env h n cmd h' effect)
    (hok : Records env h n cmd plan → ReadsBack env.append env.fetch plan.draft ∨
      h.nodeForTask run.taskId = some run.nodeId) :
    TasksLatest (h'.rememberStarted plan effect) := by
  have hsame : ∀ t, h'.nodeForTask t = h.nodeForTask t := fun t => by
    unfold nodeForTask
    rw [hr]
  have hnone : effect.dispatch = none → h'.rememberStarted plan effect = h' := by
    intro hd
    simp only [rememberStarted, hrun, hd]
  have hbundled := bindings_bundled env.append h.hub cmd.commandId plan.draft plan.entity
    plan.dispatch
  rw [hrun] at hbundled
  cases hres with
  | unrecorded ap hub events dispatch =>
      rw [hnone dispatch]
      exact ht.still ⟨hr, by rw [hub]; rfl⟩
  | unread plan' ap recorded unread hub events dispatch =>
      obtain rfl : plan = plan' := Except.ok.inj (hplan.symm.trans recorded.2.1)
      have hcached := (hok recorded).resolve_left unread
      rw [hnone dispatch]
      rw [hrun] at hub
      refine ht.gain (b := (run.id, run.nodeId, run.taskId)) ?_ ?_ (fun t _ => hsame t)
      · rw [hub]
        exact hbundled
      · rw [hsame]
        exact hcached
  | announced plan' ap recorded readsBack hub events dispatch =>
      obtain rfl : plan = plan' := Except.ok.inj (hplan.symm.trans recorded.2.1)
      obtain ⟨work, hwork⟩ := hdispatch
      have hremembered : h'.rememberStarted plan effect =
          h'.rememberRun run.id run.nodeId run.taskId := by
        simp only [rememberStarted, hrun, dispatch, hwork]
      rw [hremembered]
      rw [hrun] at hub
      refine ht.gain (b := (run.id, run.nodeId, run.taskId)) ?_ (Function.update_self ..) ?_
      · show bindings h'.hub = _
        rw [hub]
        exact hbundled
      · intro t hne
        refine (Function.update_of_ne hne _ _).trans ?_
        rw [hr]
        rfl

/-- A command with another entity remembers no run. -/
theorem otherCommand (ht : TasksLatest h) (hs : Still h h') {plan : Plan}
    (hrun : ∀ run, plan.entity ≠ .run run) (effect : CommandEffect) :
    TasksLatest (h'.rememberStarted plan effect) := by
  have hremembered : h'.rememberStarted plan effect = h' := by
    unfold rememberStarted
    split
    · next run _ heq _ => exact absurd heq (hrun run)
    · rfl
  rw [hremembered]
  exact ht.still hs

theorem applyCommandInner (ht : TasksLatest h) {env : CommandEnv} {n : Option NodeId}
    {cmd : ClientCommand} (hok : CommandKeepsLatest h env cmd n) :
    TasksLatest (h.applyCommandInner env cmd n).1 := by
  by_cases ha : Answers env.outcome h.hub cmd.commandId
  · obtain ⟨hr, hl⟩ := ha
    obtain ⟨r, hl⟩ := Option.isSome_iff_exists.mp hl
    simp only [HubState.applyCommandInner, Store.commandOutcome, CallEnv.admit, hr, hl,
      Option.map_some]
    exact ht
  · rw [applyCommandInner_eq ha]
    have hplanned := ht.planCommand hok ha
    cases hplan : (h.planCommand env n cmd).2 with
    | error e =>
        rw [← Prod.mk.eta (p := h.planCommand env n cmd), hplan]
        exact hplanned
    | ok plan =>
        obtain ⟨hres, -, hrouting⟩ := finishWithEntity_result ha hplan
        obtain ⟨ap, hap⟩ := planCommand_approvals env h n cmd
        rw [← Prod.mk.eta (p := h.planCommand env n cmd), hplan]
        dsimp only
        by_cases hrun : ∃ run, plan.entity = .run run
        · obtain ⟨run, hrun⟩ := hrun
          obtain ⟨_, _, _, _, _, _, _, _, _, rfl, hdispatch⟩ :=
            planOf_run (planCommand_planOf hplan) hrun
          -- planning a start looks nothing up
          exact ht.startRun hrun ⟨_, hdispatch⟩ hplan hrouting hres
            fun hrec => hok ha plan run hrec hrun
        · have hother : ∀ run, plan.entity ≠ .run run := fun run heq => hrun ⟨run, heq⟩
          refine hplanned.otherCommand ⟨hrouting, ?_⟩ hother _
          rw [hap]
          exact hres.bindings_other hplan hother

theorem next (ht : TasksLatest h) {e : StageEnv} {request : WorkerRequest} {n : NodeId}
    {s : Stage} (hok : ∀ cmd reserved, s.command e request n = some (cmd, reserved) →
      CommandKeepsLatest h e.env cmd reserved) : TasksLatest (s.next e h request n).1 := by
  cases s with
  | selected => exact (ht.applyCommandInner (hok _ _ rfl)).still (.routeEffect _ _)
  | created q => exact ht
  | known t =>
      simp only [Stage.next]
      split
      · exact ht
      · split
        · next hop => exact ht.still (.registerAssistantWorker hop)
        · exact ht
  | tracked t => exact ht.applyCommandInner (hok _ _ rfl)
  | started t q effect =>
      simp only [Stage.next]
      split
      · exact ht
      · split
        · exact ht
        · exact ht.still (.routeEffect h effect)
  | bound t r => exact (ht.applyCommandInner (hok _ _ rfl)).still (.routeEffect _ _)

/-- A run of the assistant, its task being cached with the hub. -/
theorem startHubAssistantRun (ht : TasksLatest h) {env : CommandEnv} {c : CommandId} {t : TaskId}
    {engine : String} {model effort : Option String} {prompt : String} {workspace : Option String}
    (hok : validateRunConfiguration engine model effort (some prompt) workspace = .ok () →
      Commits env.append h.hub c (.run (newRun env t hubNode engine model effort (some prompt)
        .supervised workspace)) none → h.nodeForTask t = some hubNode) :
    TasksLatest (h.startHubAssistantRun env c t engine model effort prompt workspace).1 := by
  unfold HubState.startHubAssistantRun
  split
  · exact ht
  · next hvalid =>
      dsimp only
      generalize hrun : newRun env t hubNode engine model effort (some prompt) .supervised
        workspace = run at hok ⊢
      obtain ⟨rfl, hn⟩ : run.taskId = t ∧ run.nodeId = hubNode := by
        rw [← hrun]
        exact ⟨rfl, rfl⟩
      have hgain : ∀ {h' : HubState} {d : EventDraft}, Commits env.append h.hub c (.run run) none →
          h'.routing = h.routing → h'.hub = h.hub.bundled env.append c d (.run run) none →
            TasksLatest h' := by
        intro h' d hc hr hhub
        have hsame : ∀ t, h'.nodeForTask t = h.nodeForTask t := fun t => by
          unfold nodeForTask
          rw [hr]
        refine @gain _ _ ht (run.id, run.nodeId, run.taskId) ?_ ?_ (fun t _ => hsame t)
        · rw [hhub]
          exact bindings_bundled env.append h.hub c d (.run run) none
        · rw [hsame]
          exact (hok hvalid hc).trans (congrArg some hn.symm)
      split <;> next heq =>
        rw [← congrArg Prod.fst heq]
        obtain ⟨hsame, -⟩ | ⟨hc, -, hsame⟩ | ⟨hc, -, hsame⟩ :=
          command_cases env.append env.fetch h c
            (draftOf env .runStarted run.taskId hubNode (some run.id)
              (.object (startPayload run ++ [("hub_local_assistant", .bool true)]))) (.run run) none
        · rw [hsame]
          exact ht
        · rw [hsame]
          exact hgain hc rfl rfl
        · rw [hsame]
          exact hgain hc rfl rfl

end TasksLatest

/-! ## Every run -/

/-- A step that meets the condition keeps the tasks with their latest runs. -/
theorem TasksLatest.step {f f' : Fleet} (ht : TasksLatest f.hub) {a : FleetLabel}
    (hok : KeepsLatest f (.fleet a)) (hs : f.step a = some f') : TasksLatest f'.hub := by
  cases a with
  | dial hello =>
      obtain ⟨-, -, rfl⟩ := Fleet.step_dial hs
      exact ht.still ⟨rfl, rfl⟩
  | upsert c env =>
      obtain ⟨hello, -, rfl⟩ := Fleet.step_upsert hs
      exact ht.still (.upsertConnected env f.hub hello)
  | announce c append fetch now =>
      obtain ⟨hello, -, rfl⟩ := Fleet.step_announce hs
      exact ht.still (.appendAndBroadcastNodeEvent append fetch f.hub _ _)
  | check c validate id d =>
      obtain ⟨hello, hc, hcases⟩ := Fleet.step_check hs
      have hread := ht.acceptsNodeEvent fun hn r hr => hok hello r hc hn hr
      obtain ⟨-, rfl⟩ | rfl | rfl := hcases
      · exact hread
      · exact hread
      · exact hread.still (.routeToNode _ _ _)
  | append c append fetch =>
      obtain ⟨hello, id, d, -, rfl⟩ := Fleet.step_append hs
      exact ht.still (.appendAccepted append fetch f.hub hello.nodeId id d)
  | ack c env commandId =>
      obtain ⟨hello, -, rfl⟩ := Fleet.step_ack hs
      exact ht.still (.acknowledgeDispatchFrom env f.hub _ _)
  | hangUp c =>
      obtain ⟨hello, -, -, ⟨-, rfl⟩ | ⟨-, rfl⟩⟩ := Fleet.step_hangUp hs
      · exact ht.still ⟨rfl, rfl⟩
      · exact ht
  | demote c read upsert =>
      obtain ⟨hello, -, rfl⟩ := Fleet.step_demote hs
      exact ht.still (.upsertDisconnected read upsert f.hub _)
  | depart c append fetch now =>
      obtain ⟨hello, -, rfl⟩ := Fleet.step_depart hs
      exact ht.still (.appendAndBroadcastNodeEvent append fetch f.hub _ _)
  | command env cmd =>
      obtain ⟨-, rfl⟩ := Fleet.step_command hs
      exact ht.applyCommandInner hok
  | createWorkerTask env request =>
      obtain ⟨_, rfl⟩ | ⟨_, -, -, rfl⟩ := Fleet.step_createWorkerTask hs <;> exact ht
  | stage e =>
      obtain ⟨call, hcall, hcases⟩ := Fleet.step_stage hs
      have hnext := ht.next fun cmd reserved hcmd => hok call cmd reserved hcall hcmd
      obtain ⟨_, -, rfl⟩ | ⟨_, -, rfl⟩ := hcases <;> exact hnext
  | startAssistant env c t engine model effort prompt workspace =>
      cases hs
      exact ht.startHubAssistantRun hok
  | assistantMessage env c t r text mid =>
      cases hs
      exact ht.still (.appendHubAssistantMessage env f.hub c t r text mid)
  | assistantEvent append fetch kind t r provider payload now =>
      cases hs
      exact ht.still (.appendHubAssistantEvent append fetch f.hub kind t r provider payload now)
  | track lookup register channel t r =>
      cases hs
      exact ht.trackAssistantWorker hok register channel t

/-- In every run, no two runs share an id. -/
theorem Fleet.bindings_unique {ok : Fleet → AuthorityLabel → Prop} {f : Fleet}
    (h : restarting.Reach ok f) : ((bindings f.hub.hub).map Prod.fst).Nodup := by
  refine h.invariant_reach (P := fun f => ((bindings f.hub.hub).map Prod.fst).Nodup) ?_ ?_
  · rintro f ⟨h, ⟨refusal, nodeSecret, clientSecret, rfl⟩, rfl⟩
    obtain ⟨m, hm⟩ := Store.runMigrations_fst refusal Store.blank
    simp only [idle, fromHub, hm]
    exact List.nodup_nil
  · intro f a f' hreach hi _ hs
    cases a with
    | fleet a => exact (step_runs (restarting_sound hreach).2 hs).2.unique hi
    | restart =>
        cases hs
        exact hi

/-- A run that the store does not know has no row. -/
theorem getRun_none {env : CallEnv} {s : Store} {r : RunId} (hrun : s.getRun env r = .ok none) :
    r ∉ (bindings s).map Prod.fst := by
  obtain ⟨_, -, hmap⟩ := Result.bind_eq_ok.mp hrun
  rw [bindings_ids]
  cases hl : Table.lookup RunOf.id s.runs r with
  | none => exact Table.lookup_eq_none.mp hl
  | some row =>
      rw [hl] at hmap
      obtain ⟨_, -, heq⟩ := Result.bind_eq_ok.mp hmap
      cases heq

/-- A cached binding is that of the run that the store returns. -/
theorem runBinding_of_getRun {h : HubState} (hc : CacheOk h)
    (hu : ((bindings h.hub).map Prod.fst).Nodup) {env : CallEnv} {r : RunId} {run : Option Run}
    (hrun : h.hub.getRun env r = .ok run) :
    (h.runBinding env r).2 = run.map (fun run => (run.nodeId, run.taskId)) := by
  unfold HubState.runBinding HubState.runBindingChecked
  cases hcached : h.routing.run r with
  | none =>
      rw [hrun]
      cases run <;> rfl
  | some b =>
      have hb := hc r b hcached
      cases run with
      | none => exact absurd (List.mem_map_of_mem hb) (getRun_none hrun)
      | some run =>
          obtain ⟨rfl, hmem⟩ := getRun_some hrun
          have hsame := List.inj_on_of_nodup_map hu hb hmem rfl
          exact congrArg some (Prod.mk.inj hsame).2

/-- **The routing agrees with the durable runs** in the runs in which no older
run is looked up, no run is left out of the cache and no restart empties it. -/
theorem routing_agrees {f : Fleet} (h : Fleet.restarting.Reach KeepsLatest f) :
    RoutingAgrees f.hub := by
  have hcache := (Fleet.restarting_sound h).2
  refine ⟨fun env r => (hcache.runBinding env r).2,
    fun env r run hrun => runBinding_of_getRun hcache (Fleet.bindings_unique h) hrun, ?_⟩
  refine h.invariant (P := fun f => TasksLatest f.hub) ?_ ?_
  · rintro f ⟨h, ⟨refusal, nodeSecret, clientSecret, rfl⟩, rfl⟩ t n hn
    obtain ⟨m, hm⟩ := Store.runMigrations_fst refusal Store.blank
    simp only [Fleet.idle, fromHub, hm] at hn
    cases hn
  · intro f a f' hi hok hs
    cases a with
    | fleet a => exact hi.step hok hs
    | restart =>
        cases hs
        intro t n hn
        have hnone : f.hub.hub.runs = [] := hok
        have hempty : bindings f.hub.hub = [] := by
          unfold bindings
          rw [hnone]
          rfl
        exact absurd (hempty ▸ hn : latestNode [] t = some n) (by simp [latestNode_nil])

/-- A client interrupts a run, minting `u`. -/
def interrupting (u run : ℕ) : FleetLabel :=
  .command (plainCommand u) (.interruptRun ⟨BitVec.ofNat 128 u⟩ ⟨BitVec.ofNat 128 run⟩)

/-- A run is started on a node and interrupted. -/
theorem routing_agrees_sample :
    ∃ f, Fleet.restarting.run freshFleet ((connecting "laptop" 1 2 ++
        [beginning 5 3, interrupting 6 5]).map .fleet) = some f ∧
      f.hub.hub.runs.length = 1 ∧ RoutingAgrees f.hub := by
  refine ⟨_, rfl, rfl, ?_⟩
  have hfresh : Fleet.restarting.Reach KeepsLatest freshFleet := .start Fleet.fresh_init
  have hdial := hfresh.next (a := AuthorityLabel.fleet (.dial (helloOf "laptop" "claude"))) trivial rfl
  have hupsert := hdial.next (a := AuthorityLabel.fleet (.upsert 1 (plainCall 1))) trivial rfl
  have hannounce := hupsert.next
    (a := AuthorityLabel.fleet (.announce 1 (plainCall 2) (plainCall 1) .epoch)) trivial rfl
  have hstart := hannounce.next (a := AuthorityLabel.fleet (beginning 5 3)) (by
    intro _ plan run hrec _
    obtain ⟨-, hplan, -⟩ := hrec
    cases hplan
    exact .inl (by decide)) rfl
  exact routing_agrees (hstart.next (a := AuthorityLabel.fleet (interrupting 6 5)) (by
    intro _ hnone
    cases hnone) rfl)

/-- After a restart a run is started on another node, and the older run, which is
no longer cached, is interrupted. -/
def olderRun : List AuthorityLabel :=
  (connecting "laptop" 1 2 ++ [beginning 5 3]).map .fleet ++ [.restart] ++
    (connecting "desk" 1 6 ++ [beginning 8 3, interrupting 9 5]).map .fleet

set_option maxRecDepth 4096 in
/-- The task is cached with the node of the older run. -/
theorem task_routed_to_older_run :
    ∃ f, Fleet.restarting.Reach Anyway f ∧
      latestNode (bindings f.hub.hub) ⟨3⟩ = some ⟨"desk"⟩ ∧
      f.hub.nodeForTask ⟨3⟩ = some ⟨"laptop"⟩ ∧ ¬ RoutingAgrees f.hub := by
  have hrun : ∃ f, Fleet.restarting.run freshFleet olderRun = some f ∧
      latestNode (bindings f.hub.hub) ⟨3⟩ = some ⟨"desk"⟩ ∧
        f.hub.nodeForTask ⟨3⟩ = some ⟨"laptop"⟩ := ⟨_, rfl, rfl, rfl⟩
  obtain ⟨f, hf, hlatest, hnode⟩ := hrun
  refine ⟨f, .of_run (.start Fleet.fresh_init) hf, hlatest, hnode, fun h => ?_⟩
  have hsame := (h.latest ⟨3⟩ ⟨"desk"⟩ hlatest).symm.trans hnode
  revert hsame
  decide

end Stackhour.Hub
