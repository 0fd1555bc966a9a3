import Stackhour.Hub.Fleet

/-!
# What the handlers of a fleet leave alone

Two frames, each proved once for every critical section: what it appends to the
log while the registry and the node rows stand, and which run it adds.
-/

namespace Stackhour.Hub

open Domain TransitionSystem HubState

/-! ## The registry, the node rows and the log -/

/-- The registry and the node rows stand, and the events appended meet `P`. -/
structure Aside (P : EventRow → Prop) (h h' : HubState) : Prop where
  nodes : h'.nodes = h.nodes
  nextNodeConnectionId : h'.nextNodeConnectionId = h.nextNodeConnectionId
  rows : h'.hub.nodes = h.hub.nodes
  events : ∃ es, h'.hub.events = h.hub.events ++ es ∧ ∀ e ∈ es, P e

namespace Aside

variable {P : EventRow → Prop} {h h' h'' : HubState}

theorem refl (h : HubState) : Aside P h h := ⟨rfl, rfl, rfl, [], (List.append_nil _).symm,
  fun _ he => absurd he List.not_mem_nil⟩

theorem trans (hf : Aside P h h') (hg : Aside P h' h'') : Aside P h h'' := by
  obtain ⟨es, hes, hp⟩ := hf.events
  obtain ⟨es', hes', hp'⟩ := hg.events
  refine ⟨hg.nodes.trans hf.nodes, hg.nextNodeConnectionId.trans hf.nextNodeConnectionId,
    hg.rows.trans hf.rows, es ++ es', ?_, ?_⟩
  · rw [hes', hes, List.append_assoc]
  · intro e he
    rcases List.mem_append.mp he with he | he
    · exact hp e he
    · exact hp' e he

theorem mono {Q : EventRow → Prop} (hf : Aside P h h') (hPQ : ∀ e, P e → Q e) : Aside Q h h' := by
  obtain ⟨es, hes, hp⟩ := hf.events
  exact ⟨hf.nodes, hf.nextNodeConnectionId, hf.rows, es, hes, fun e he => hPQ e (hp e he)⟩

/-- Nothing but the routing cache, the channels and other tables differ. -/
theorem of_same (hn : h'.nodes = h.nodes)
    (hi : h'.nextNodeConnectionId = h.nextNodeConnectionId) (hr : h'.hub.nodes = h.hub.nodes)
    (he : h'.hub.events = h.hub.events) : Aside P h h' :=
  ⟨hn, hi, hr, [], by rw [he, List.append_nil], fun _ hm => absurd hm List.not_mem_nil⟩

theorem routeToNode (h : HubState) (n : NodeId) (m : HubToNode) :
    Aside P h (h.routeToNode n m) := by
  unfold HubState.routeToNode
  split <;> exact .of_same rfl rfl rfl rfl

theorem acceptsNodeEvent (env : CallEnv) (h : HubState) (n : NodeId) (d : EventDraft) :
    Aside P h (h.acceptsNodeEvent env n d).1 := by
  obtain ⟨rt, hrt⟩ := acceptsNodeEvent_fst env h n d
  rw [hrt]
  exact .of_same rfl rfl rfl rfl

theorem acknowledgeDispatchFrom (env : CallEnv) (h : HubState) (n : NodeId) (c : CommandId) :
    Aside P h (h.acknowledgeDispatchFrom env n c) := by
  unfold HubState.acknowledgeDispatchFrom
  split
  · next hop =>
      obtain ⟨-, rfl, -⟩ := Store.ackWhere_eq_ok.mp hop
      exact .of_same rfl rfl rfl rfl
  · exact .refl h

theorem registerAssistantWorker {env : CallEnv} {channel : String} {t : TaskId} {s : Store}
    (hop : h.hub.registerAssistantWorker env channel t = .ok s) : Aside P h { h with hub := s } := by
  obtain ⟨_, -, hs⟩ := Result.bind_eq_ok.mp hop
  obtain rfl := Result.pure_eq_ok.mp hs
  exact .of_same rfl rfl rfl rfl

theorem trackAssistantWorker (lookup register : CallEnv) (h : HubState) (channel : String)
    (t : TaskId) (r : RunId) : Aside P h (h.trackAssistantWorker lookup register channel t r).1 := by
  obtain ⟨rt, hrt⟩ := h.runBinding_fst lookup r
  have hbound : Aside P h (h.runBinding lookup r).1 := by
    rw [hrt]
    exact .of_same rfl rfl rfl rfl
  unfold HubState.trackAssistantWorker
  split
  · next heq => exact (congrArg Prod.fst heq) ▸ hbound
  · next heq =>
      obtain rfl := congrArg Prod.fst heq
      split
      · exact hbound
      · split
        · next hop => exact hbound.trans (.registerAssistantWorker hop)
        · exact hbound

/-- The row of an event keeps the kind of its draft. -/
theorem appendAndBroadcastNodeEvent (append fetch : CallEnv) (h : HubState) (id : EventId)
    (d : EventDraft) (hP : P (h.hub.nodeEvent append id d)) :
    Aside P h (h.appendAndBroadcastNodeEvent append fetch id d).1 := by
  have hrows : (h.hub.nodeAppended append id d).nodes = h.hub.nodes := by
    unfold Store.nodeAppended Store.terminalStatuses
    split <;> rfl
  have hevents : ∀ e ∈ [h.hub.nodeEvent append id d], P e := fun e he =>
    List.mem_singleton.mp he ▸ hP
  obtain ⟨heq, -⟩ | ⟨-, -, heq⟩ | ⟨-, -, heq⟩ := event_cases append fetch h id d
  · rw [heq]
    exact .refl h
  · rw [heq]
    exact ⟨rfl, rfl, hrows, [h.hub.nodeEvent append id d], rfl, hevents⟩
  · rw [heq]
    exact ⟨rfl, rfl, hrows, [h.hub.nodeEvent append id d], rfl, hevents⟩

theorem appendAccepted (append fetch : CallEnv) (h : HubState) (n : NodeId) (id : EventId)
    (d : EventDraft) (hP : P (h.hub.nodeEvent append id d)) :
    Aside P h (h.appendAccepted append fetch n id d) := by
  have happend := appendAndBroadcastNodeEvent append fetch h id d hP
  unfold HubState.appendAccepted
  split <;> next heq =>
    rw [heq] at happend
    first
      | exact happend.trans (.routeToNode _ _ _)
      | exact happend

theorem appendAndBroadcastCommand (append fetch : CallEnv) (h : HubState) (c : CommandId)
    (d : EventDraft) (e : EntityWrite) (disp : Option (NodeId × HubToNode))
    (hP : P (h.hub.commandEvent append c d)) :
    Aside P h (h.appendAndBroadcastCommand append fetch c d e disp).1 := by
  have hevents : ∀ x ∈ [h.hub.commandEvent append c d], P x := fun x hx =>
    List.mem_singleton.mp hx ▸ hP
  obtain ⟨heq, -⟩ | ⟨-, -, heq⟩ | ⟨-, -, heq⟩ := command_cases append fetch h c d e disp
  · rw [heq]
    exact .refl h
  · rw [heq]
    exact ⟨rfl, rfl, rfl, [h.hub.commandEvent append c d], rfl, hevents⟩
  · rw [heq]
    exact ⟨rfl, rfl, rfl, [h.hub.commandEvent append c d], rfl, hevents⟩

end Aside

/-! ## Presence events -/

/-- The kinds of event that say whether a node is there. -/
def isPresence : EventKind → Bool
  | .nodeConnected | .nodeDisconnected => true
  | _ => false

/-- An event about something else. -/
def Other (e : EventRow) : Prop := isPresence e.kind = false

/-- No command records an event of presence. -/
theorem planOf_other {plan : Plan} {cmd : ClientCommand} (hp : PlanOf plan cmd) :
    isPresence plan.draft.kind = false := by
  have hkind : ∀ k, plan.draft.kind = k → isPresence k = false → isPresence plan.draft.kind = false :=
    fun k hk hother => hk.symm ▸ hother
  cases cmd with
  | createTask c title => exact hkind _ hp.1 rfl
  | sendUserMessage c t r text mid => exact hkind _ hp.1 rfl
  | startRun c t n engine model effort prompt policy workspace => exact hkind _ hp.1 rfl
  | interruptRun c r => exact hkind _ hp.1 rfl
  | resolveApproval c id decision actor => exact hkind _ hp.1 rfl

namespace Aside

theorem applyCommandInner (env : CommandEnv) (h : HubState) (n : Option NodeId)
    (cmd : ClientCommand) : Aside Other h (h.applyCommandInner env cmd n).1 := by
  obtain ⟨hres, hlinks⟩ := applyCommandInner_result env h n cmd
  obtain ⟨ap, hap⟩ | ⟨plan, ap, hrec, hap⟩ := hres.hub_cases
  · exact .of_same hlinks.nodes hlinks.nextNodeConnectionId (by rw [hap]) (by rw [hap])
  · refine ⟨hlinks.nodes, hlinks.nextNodeConnectionId, by rw [hap]; rfl,
      [h.hub.commandEvent env.append cmd.commandId plan.draft], by rw [hap]; rfl, ?_⟩
    intro e he
    rw [List.mem_singleton.mp he]
    exact planOf_other (planCommand_planOf hrec.2.1)

theorem routeEffect (h : HubState) (effect : CommandEffect) :
    Aside Other h (h.routeEffect effect).1 := by
  unfold HubState.routeEffect
  dsimp only
  split
  · exact .routeToNode h _ _
  · exact .refl h

theorem next (e : StageEnv) (h : HubState) (request : WorkerRequest) (n : NodeId) (s : Stage) :
    Aside Other h (s.next e h request n).1 := by
  cases s with
  | selected => exact (applyCommandInner _ h _ _).trans (.routeEffect _ _)
  | created q => exact .refl h
  | known t =>
      simp only [Stage.next]
      split
      · exact .refl h
      · split
        · next hop => exact .registerAssistantWorker hop
        · exact .refl h
  | tracked t => exact applyCommandInner _ h _ _
  | started t q effect =>
      simp only [Stage.next]
      split
      · exact .refl h
      · split
        · exact .refl h
        · exact .routeEffect h effect
  | bound t r => exact (applyCommandInner _ h _ _).trans (.routeEffect _ _)

theorem startHubAssistantRun (env : CommandEnv) (h : HubState) (c : CommandId) (t : TaskId)
    (engine : String) (model effort : Option String) (prompt : String)
    (workspace : Option String) :
    Aside Other h (h.startHubAssistantRun env c t engine model effort prompt workspace).1 := by
  unfold HubState.startHubAssistantRun
  split
  · exact .refl h
  · dsimp only
    split <;> next heq => exact (congrArg Prod.fst heq) ▸ .appendAndBroadcastCommand _ _ h _ _ _ _ rfl

theorem appendHubAssistantEvent (append fetch : CallEnv) (h : HubState) (kind : EventKind)
    (t : TaskId) (r : RunId) (provider : Option String) (payload : Json) (now : DateTime) :
    Aside Other h
      (h.appendHubAssistantEvent append fetch kind t r provider payload now).1 := by
  unfold HubState.appendHubAssistantEvent
  split
  · next hkind =>
      refine .appendAndBroadcastNodeEvent append fetch h _ _ ?_
      show isPresence kind = false
      cases kind <;> first | rfl | cases hkind
  · exact .refl h

end Aside

/-! ## Selection -/

/-- **`eligible_execution_node`.** The node selected is connected, its row
accepts the engine, and a preference is met. -/
theorem eligibleExecutionNode_ok {env : CallEnv} {h : HubState} {engine : String}
    {preferred : Option NodeId} {n : NodeId}
    (ho : h.eligibleExecutionNode env engine preferred = .ok n) :
    (∃ row ∈ h.hub.nodes, row.id = n ∧ nodeAcceptsEngine row.capabilities engine = true) ∧
      (h.nodes n).isSome ∧ ∀ wanted, preferred = some wanted → n = wanted := by
  unfold HubState.eligibleExecutionNode at ho
  split at ho
  · cases ho
  · next rows hrows =>
      split at ho
      · next node hfind =>
          cases ho
          have hmem := List.mem_of_find?_eq_some hfind
          have hsome := List.find?_some hfind
          simp only [Bool.and_eq_true] at hsome
          obtain ⟨⟨hpref, hconn⟩, haccepts⟩ := hsome
          obtain ⟨_, -, hlist⟩ := Result.bind_eq_ok.mp hrows
          obtain rfl := Result.pure_eq_ok.mp hlist
          refine ⟨⟨node, (List.mem_insertionSort _).mp hmem, rfl, haccepts⟩, hconn, ?_⟩
          rintro wanted rfl
          simpa [eq_comm] using hpref
      · cases ho

/-! ## The row of a node -/

/-- A row put in place of the one of its node, or at the end. -/
def putRow (h : HubState) (node : Node) : HubState :=
  { h with hub := { h.hub with nodes := Store.upsert Node.id node (fun _ => node) h.hub.nodes } }

theorem putRow_lookup (h : HubState) (node : Node) (n : NodeId) :
    Table.lookup Node.id (putRow h node).hub.nodes n =
      if node.id = n then some node else Table.lookup Node.id h.hub.nodes n :=
  Store.lookup_upsert node h.hub.nodes n

/-- An arrival puts the row of its hello, unless the store refuses. -/
theorem upsertConnected_cases (env : CallEnv) (h : HubState) (hello : NodeHello) :
    (env.refusal ≠ none ∧ h.upsertConnected env hello = h) ∨
      h.upsertConnected env hello = putRow h (connectedNode hello) := by
  unfold upsertConnected
  split
  · next s hok =>
      right
      rw [(Store.upsertNode_eq_ok.mp hok).2]
      rfl
  · next e herr =>
      refine .inl ⟨fun hr => ?_, rfl⟩
      rw [Store.upsertNode_eq_ok.mpr ⟨hr, rfl⟩] at herr
      cases herr

/-- A departure rewrites the row its node has, if it has one and the store does
not refuse. -/
theorem upsertDisconnected_cases (read upsert : CallEnv) (h : HubState) (n : NodeId) :
    (h.upsertDisconnected read upsert n = h ∧ (read.refusal = none → upsert.refusal = none →
        Table.lookup Node.id h.hub.nodes n = none)) ∨
      ∃ node, Table.lookup Node.id h.hub.nodes n = some node ∧
        h.upsertDisconnected read upsert n = putRow h { node with status := .disconnected } := by
  unfold upsertDisconnected
  split
  · next node hget =>
      obtain ⟨-, hl⟩ := Store.getNode_eq_ok.mp hget
      split
      · next s hok =>
          refine .inr ⟨node, hl.symm, ?_⟩
          rw [(Store.upsertNode_eq_ok.mp hok).2]
          rfl
      · next e herr =>
          refine .inl ⟨rfl, fun _ hr => ?_⟩
          rw [Store.upsertNode_eq_ok.mpr ⟨hr, rfl⟩] at herr
          cases herr
  · next hother =>
      refine .inl ⟨rfl, fun hr _ => ?_⟩
      by_contra hne
      obtain ⟨node, hl⟩ := Option.ne_none_iff_exists'.mp hne
      exact hother node (Store.getNode_eq_ok.mpr ⟨hr, hl.symm⟩)

/-- Either way the registry and the log stand. -/
theorem upsertConnected_frame (env : CallEnv) (h : HubState) (hello : NodeHello) :
    (h.upsertConnected env hello).nodes = h.nodes ∧
      (h.upsertConnected env hello).hub.events = h.hub.events := by
  rcases upsertConnected_cases env h hello with ⟨-, heq⟩ | heq <;> rw [heq] <;> exact ⟨rfl, rfl⟩

theorem upsertDisconnected_frame (read upsert : CallEnv) (h : HubState) (n : NodeId) :
    (h.upsertDisconnected read upsert n).nodes = h.nodes ∧
      (h.upsertDisconnected read upsert n).hub.events = h.hub.events := by
  rcases upsertDisconnected_cases read upsert h n with ⟨heq, -⟩ | ⟨_, -, heq⟩ <;> rw [heq] <;>
    exact ⟨rfl, rfl⟩

/-! ## Runs -/

/-- At most one run is added, under a new id, and it meets `Q`. -/
def Gains (Q : RunId × NodeId × TaskId → Prop) (s s' : Store) : Prop :=
  bindings s' = bindings s ∨
    ∃ b, Q b ∧ b.1 ∉ (bindings s).map Prod.fst ∧ bindings s' = bindings s ++ [b]

theorem bindings_ids (s : Store) : (bindings s).map Prod.fst = s.runs.map RunOf.id := by
  unfold bindings
  rw [List.map_map]
  rfl

theorem bindings_bundled (append : CallEnv) (s : Store) (c : CommandId) (d : EventDraft)
    (e : EntityWrite) (disp : Option (NodeId × HubToNode)) :
    bindings (s.bundled append c d e disp) = bindings s ++
      (match e with
        | .run r => [(r.id, r.nodeId, r.taskId)]
        | _ => []) := by
  unfold bindings Store.bundled EntityWrite.onRuns
  cases e with
  | none => exact (List.append_nil _).symm
  | task t => exact (List.append_nil _).symm
  | run r =>
      rw [List.map_append]
      rfl

/-- The binding of a run row. -/
def binding (run : RunRow) : RunId × NodeId × TaskId := (run.id, run.nodeId, run.taskId)

theorem newRuns_bindings (s s' : Store) :
    (newRuns s s').map binding = (bindings s').drop (bindings s).length := by
  have hlen : (bindings s).length = s.runs.length := List.length_map _
  unfold newRuns
  rw [hlen, List.map_drop]
  rfl

namespace Gains

variable {Q : RunId × NodeId × TaskId → Prop} {s s' : Store}

theorem bindings_mono (hg : Gains Q s s') : ∀ b ∈ bindings s, b ∈ bindings s' := by
  intro b hb
  obtain heq | ⟨b', -, -, heq⟩ := hg
  · exact heq ▸ hb
  · exact heq ▸ List.mem_append_left _ hb

theorem unique (hg : Gains Q s s') (hu : ((bindings s).map Prod.fst).Nodup) :
    ((bindings s').map Prod.fst).Nodup := by
  obtain heq | ⟨b, -, hfresh, heq⟩ := hg
  · exact heq.symm ▸ hu
  · rw [heq, List.map_append, List.map_singleton]
    exact List.nodup_append_comm.mp (List.nodup_cons.mpr ⟨hfresh, hu⟩)

/-- The rows that are new. -/
theorem newRuns (hg : Gains Q s s') {run : RunRow} (hr : run ∈ newRuns s s') :
    Q (binding run) ∧ binding run ∈ bindings s' := by
  have hmem := List.mem_map_of_mem (f := binding) hr
  rw [newRuns_bindings] at hmem
  refine ⟨?_, List.mem_of_mem_drop hmem⟩
  obtain heq | ⟨b, hq, -, heq⟩ := hg
  · rw [heq, List.drop_length] at hmem
    cases hmem
  · rw [heq, List.drop_left, List.mem_singleton] at hmem
    exact hmem ▸ hq

/-- A command adds the run that `StartRun` asks for, on the node selected. -/
theorem applyCommandInner (env : CommandEnv) (h : HubState) (n : Option NodeId)
    (cmd : ClientCommand) :
    Gains (fun b => ∃ c t p engine model effort prompt policy workspace,
        cmd = .startRun c t p engine model effort prompt policy workspace ∧
          h.executionNode env.lookup n engine p = .ok b.2.1)
      h.hub (h.applyCommandInner env cmd n).1.hub := by
  obtain ⟨ap, hap⟩ | ⟨plan, ap, hrec, hap⟩ := (applyCommandInner_result env h n cmd).1.hub_cases
  · left
    rw [hap]
    rfl
  · have hb : bindings (h.applyCommandInner env cmd n).1.hub = _ :=
      (congrArg bindings hap).trans
        (bindings_bundled env.append h.hub cmd.commandId plan.draft plan.entity plan.dispatch)
    have hnone : plan.entity.onRuns h.hub.runs = h.hub.runs →
        bindings (h.applyCommandInner env cmd n).1.hub = bindings h.hub := by
      intro hruns
      rw [hap]
      exact congrArg (List.map binding) hruns
    have hplan := planCommand_planOf hrec.2.1
    cases cmd with
    | createTask c title =>
        obtain ⟨t, ht, -⟩ := hplan.2.2.2
        exact .inl (hnone (by rw [ht]; rfl))
    | sendUserMessage c t r text mid => exact .inl (hnone (by rw [hplan.2.1]; rfl))
    | interruptRun c r => exact .inl (hnone (by rw [hplan.2.2.1]; rfl))
    | resolveApproval c id decision actor => exact .inl (hnone (by rw [hplan.2.1]; rfl))
    | startRun c t p engine model effort prompt policy workspace =>
        obtain ⟨-, run, hrun, -⟩ := hplan
        rw [hrun] at hb
        refine .inr ⟨(run.id, run.nodeId, run.taskId), ?_, ?_, hb⟩
        · refine ⟨c, t, p, engine, model, effort, prompt, policy, workspace, rfl, ?_⟩
          have hok := hrec.2.1
          simp only [planCommand, planStartRun] at hok
          split at hok
          · cases hok
          · obtain ⟨k, hk, hok⟩ := Result.bind_eq_ok.mp hok
            cases hok
            cases hrun
            exact hk
        · rw [bindings_ids]
          have hfresh := hrec.2.2.2.2.2.1
          rw [hrun] at hfresh
          exact hfresh

theorem appendAndBroadcastNodeEvent (append fetch : CallEnv) (h : HubState) (id : EventId)
    (d : EventDraft) :
    bindings (h.appendAndBroadcastNodeEvent append fetch id d).1.hub = bindings h.hub := by
  obtain ⟨heq, -⟩ | ⟨-, -, heq⟩ | ⟨-, -, heq⟩ := event_cases append fetch h id d
  · rw [heq]
  · rw [heq]
    exact bindings_nodeAppended append h.hub id d
  · rw [heq]
    exact bindings_nodeAppended append h.hub id d

/-- The assistant's runs are the hub's. -/
theorem startHubAssistantRun (env : CommandEnv) (h : HubState) (c : CommandId) (t : TaskId)
    (engine : String) (model effort : Option String) (prompt : String)
    (workspace : Option String) :
    Gains (fun b => b.2.1 = hubNode) h.hub
      (h.startHubAssistantRun env c t engine model effort prompt workspace).1.hub := by
  unfold HubState.startHubAssistantRun
  split
  · exact .inl rfl
  · dsimp only
    generalize hrun : newRun env t hubNode engine model effort (some prompt) .supervised
      workspace = run
    have hn : run.nodeId = hubNode := by rw [← hrun]; rfl
    split <;> next heq =>
      rw [← congrArg Prod.fst heq]
      obtain ⟨hsame, -⟩ | ⟨hc, -, hsame⟩ | ⟨hc, -, hsame⟩ :=
        command_cases env.append env.fetch h c
          (draftOf env .runStarted t hubNode (some run.id)
            (.object (startPayload run ++ [("hub_local_assistant", .bool true)]))) (.run run) none
      · exact .inl (by rw [hsame])
      all_goals
        refine .inr ⟨(run.id, run.nodeId, run.taskId), hn, ?_, ?_⟩
        · rw [bindings_ids]
          exact hc.2.2.2.1
        · rw [hsame]
          exact bindings_bundled env.append h.hub c _ (.run run) none

theorem mono {Q' : RunId × NodeId × TaskId → Prop} (hg : Gains Q s s') (hQ : ∀ b, Q b → Q' b) :
    Gains Q' s s' := by
  obtain heq | ⟨b, hq, hfresh, heq⟩ := hg
  · exact .inl heq
  · exact .inr ⟨b, hQ b hq, hfresh, heq⟩

end Gains

/-! ## The routing cache -/

/-- Neither the cache nor the runs change. -/
structure Still (h h' : HubState) : Prop where
  routing : h'.routing = h.routing
  bindings : bindings h'.hub = bindings h.hub

namespace Still

variable {h h' h'' : HubState}

theorem refl (h : HubState) : Still h h := ⟨rfl, rfl⟩

theorem trans (hf : Still h h') (hg : Still h' h'') : Still h h'' :=
  ⟨hg.routing.trans hf.routing, hg.bindings.trans hf.bindings⟩

theorem cacheOk (hs : Still h h') (hc : CacheOk h) : CacheOk h' :=
  hc.of_bindings hs.routing fun _ hb => hs.bindings.symm ▸ hb

theorem gains {Q : RunId × NodeId × TaskId → Prop} (hs : Still h h') : Gains Q h.hub h'.hub :=
  .inl hs.bindings

theorem routeToNode (h : HubState) (n : NodeId) (m : HubToNode) : Still h (h.routeToNode n m) := by
  obtain ⟨h1, -, h3⟩ := routeToNode_hub h n m
  exact ⟨h3, by rw [h1]⟩

theorem routeEffect (h : HubState) (effect : CommandEffect) : Still h (h.routeEffect effect).1 := by
  unfold HubState.routeEffect
  dsimp only
  split
  · exact .routeToNode h _ _
  · exact .refl h

theorem upsertNode {env : CallEnv} {node : Node} {s : Store}
    (hop : h.hub.upsertNode env node = .ok s) : Still h { h with hub := s } := by
  obtain ⟨_, -, hs⟩ := Result.bind_eq_ok.mp hop
  obtain rfl := Result.pure_eq_ok.mp hs
  exact ⟨rfl, rfl⟩

theorem upsertConnected (env : CallEnv) (h : HubState) (hello : NodeHello) :
    Still h (h.upsertConnected env hello) := by
  unfold HubState.upsertConnected
  split
  · next hop => exact .upsertNode hop
  · exact .refl h

theorem upsertDisconnected (read upsert : CallEnv) (h : HubState) (n : NodeId) :
    Still h (h.upsertDisconnected read upsert n) := by
  unfold HubState.upsertDisconnected
  split
  · split
    · next hop => exact .upsertNode hop
    · exact .refl h
  · exact .refl h

theorem appendAndBroadcastNodeEvent (append fetch : CallEnv) (h : HubState) (id : EventId)
    (d : EventDraft) : Still h (h.appendAndBroadcastNodeEvent append fetch id d).1 :=
  ⟨event_routing append fetch h id d, Gains.appendAndBroadcastNodeEvent append fetch h id d⟩

theorem appendAccepted (append fetch : CallEnv) (h : HubState) (n : NodeId) (id : EventId)
    (d : EventDraft) : Still h (h.appendAccepted append fetch n id d) := by
  have happend := appendAndBroadcastNodeEvent append fetch h id d
  unfold HubState.appendAccepted
  split <;> next heq =>
    rw [heq] at happend
    first
      | exact happend.trans (.routeToNode _ _ _)
      | exact happend

theorem acknowledgeDispatchFrom (env : CallEnv) (h : HubState) (n : NodeId) (c : CommandId) :
    Still h (h.acknowledgeDispatchFrom env n c) := by
  unfold HubState.acknowledgeDispatchFrom
  split
  · next hop =>
      obtain ⟨-, rfl, -⟩ := Store.ackWhere_eq_ok.mp hop
      exact ⟨rfl, rfl⟩
  · exact .refl h

theorem registerAssistantWorker {env : CallEnv} {channel : String} {t : TaskId} {s : Store}
    (hop : h.hub.registerAssistantWorker env channel t = .ok s) : Still h { h with hub := s } := by
  obtain ⟨_, -, hs⟩ := Result.bind_eq_ok.mp hop
  obtain rfl := Result.pure_eq_ok.mp hs
  exact ⟨rfl, rfl⟩

theorem unregisterNode (h : HubState) (n : NodeId) (c : ℕ) : Still h (h.unregisterNode n c).1 := by
  unfold HubState.unregisterNode
  split <;> exact ⟨rfl, rfl⟩

theorem appendHubAssistantMessage (env : CommandEnv) (h : HubState) (c : CommandId) (t : TaskId)
    (r : RunId) (text : String) (mid : Uuid) :
    Still h (h.appendHubAssistantMessage env c t r text mid).1 := by
  unfold HubState.appendHubAssistantMessage
  obtain ⟨heq, -⟩ | ⟨-, -, heq⟩ | ⟨-, -, heq⟩ := command_cases env.append env.fetch h c
    (draftOf env .messageUser t hubNode (some r)
      (.object [("text", .string text), ("client_message_id", .string (Store.uuidText mid))]))
    .none none
  · rw [heq]
    exact .refl h
  · rw [heq]
    exact ⟨rfl, rfl⟩
  · rw [heq]
    exact ⟨rfl, rfl⟩

theorem appendHubAssistantEvent (append fetch : CallEnv) (h : HubState) (kind : EventKind)
    (t : TaskId) (r : RunId) (provider : Option String) (payload : Json) (now : DateTime) :
    Still h (h.appendHubAssistantEvent append fetch kind t r provider payload now).1 := by
  unfold HubState.appendHubAssistantEvent
  split
  · exact .appendAndBroadcastNodeEvent append fetch h _ _
  · exact .refl h

end Still

/-- Tracking a worker may remember its binding. -/
theorem track_runs (lookup register : CallEnv) (h : HubState) (channel : String) (t : TaskId)
    (r : RunId) (hc : CacheOk h) :
    CacheOk (h.trackAssistantWorker lookup register channel t r).1 ∧
      bindings (h.trackAssistantWorker lookup register channel t r).1.hub = bindings h.hub := by
  have hcache := (hc.runBinding lookup r).1
  obtain ⟨rt, hrt⟩ := h.runBinding_fst lookup r
  have hsame : bindings (h.runBinding lookup r).1.hub = bindings h.hub := by rw [hrt]
  unfold HubState.trackAssistantWorker
  split <;> next heq =>
    rw [heq] at hcache hsame
    first
      | exact ⟨hcache, hsame⟩
      | (split
         · exact ⟨hcache, hsame⟩
         · split
           · next hop =>
               have hstill := Still.registerAssistantWorker hop
               exact ⟨hstill.cacheOk hcache, hstill.bindings.trans hsame⟩
           · exact ⟨hcache, hsame⟩)

/-- A run of the assistant is not remembered. -/
theorem startHubAssistantRun_routing (env : CommandEnv) (h : HubState) (c : CommandId) (t : TaskId)
    (engine : String) (model effort : Option String) (prompt : String)
    (workspace : Option String) :
    (h.startHubAssistantRun env c t engine model effort prompt workspace).1.routing = h.routing := by
  have happend : ∀ d e, (h.appendAndBroadcastCommand env.append env.fetch c d e none).1.routing =
      h.routing := by
    intro d e
    obtain ⟨heq, -⟩ | ⟨-, -, heq⟩ | ⟨-, -, heq⟩ :=
      command_cases env.append env.fetch h c d e none <;> rw [heq]
    rfl
  unfold HubState.startHubAssistantRun
  split
  · rfl
  · dsimp only
    split <;> next heq => exact (congrArg (fun x => x.1.routing) heq).symm.trans (happend _ _)

/-- The next stage of a creation adds no run but one on its node. -/
theorem stage_runs (e : StageEnv) (h : HubState) (request : WorkerRequest) (n : NodeId)
    (s : Stage) (hc : CacheOk h) :
    CacheOk (s.next e h request n).1 ∧
      Gains (fun b => b.2.1 = n) h.hub (s.next e h request n).1.hub := by
  cases s with
  | selected =>
      have hs := Still.routeEffect (h.applyCommandInner e.env (.createTask e.commandId request.title)
        none).1 (h.applyCommandInner e.env (.createTask e.commandId request.title) none).2
      refine ⟨hs.cacheOk (hc.applyCommandInner _ _ _), ?_⟩
      unfold Gains
      rw [show bindings (Stage.next e h request n .selected).1.hub = _ from hs.bindings]
      refine (Gains.applyCommandInner e.env h none _).mono ?_
      rintro b ⟨_, _, _, _, _, _, _, _, _, hcmd, -⟩
      cases hcmd
  | created q => exact ⟨hc, .inl rfl⟩
  | known t =>
      simp only [Stage.next]
      split
      · exact ⟨hc, .inl rfl⟩
      · split
        · next hop => exact ⟨(Still.registerAssistantWorker hop).cacheOk hc, (Still.registerAssistantWorker hop).gains⟩
        · exact ⟨hc, .inl rfl⟩
  | tracked t =>
      refine ⟨hc.applyCommandInner _ _ _, (Gains.applyCommandInner e.env h (some n) _).mono ?_⟩
      rintro b ⟨_, _, _, _, _, _, _, _, _, -, hnode⟩
      exact (Except.ok.inj hnode).symm
  | started t q effect =>
      simp only [Stage.next]
      split
      · exact ⟨hc, .inl rfl⟩
      · split
        · exact ⟨hc, .inl rfl⟩
        · exact ⟨(Still.routeEffect h effect).cacheOk hc, (Still.routeEffect h effect).gains⟩
  | bound t r =>
      have hs := Still.routeEffect (h.applyCommandInner e.env (.sendUserMessage e.commandId t
        (some r) request.prompt (Store.uuidText e.messageId)) none).1
        (h.applyCommandInner e.env (.sendUserMessage e.commandId t (some r) request.prompt
          (Store.uuidText e.messageId)) none).2
      refine ⟨hs.cacheOk (hc.applyCommandInner _ _ _), ?_⟩
      unfold Gains
      rw [show bindings (Stage.next e h request n (.bound t r)).1.hub = _ from hs.bindings]
      refine (Gains.applyCommandInner e.env h none _).mono ?_
      rintro b ⟨_, _, _, _, _, _, _, _, _, hcmd, -⟩
      cases hcmd

/-! ## The store's own operations -/

theorem performs_registerAssistantWorker {env : CallEnv} {s s' : Store} {channel : String}
    {t : TaskId} (hop : s.registerAssistantWorker env channel t = .ok s') : Performs s s' :=
  .call env (.registerAssistantWorker channel t) ⟨s', none, []⟩ .refl
    (Result.bind_eq_ok.mpr ⟨_, hop, rfl⟩)

theorem track_performs (lookup register : CallEnv) (h : HubState) (channel : String) (t : TaskId)
    (r : RunId) : Performs h.hub (h.trackAssistantWorker lookup register channel t r).1.hub := by
  obtain ⟨rt, hrt⟩ := h.runBinding_fst lookup r
  have hsame : (h.runBinding lookup r).1.hub = h.hub := by rw [hrt]
  unfold HubState.trackAssistantWorker
  split <;> next heq =>
    rw [heq] at hsame
    first
      | exact hsame ▸ .refl
      | (split
         · exact hsame ▸ .refl
         · split
           · next hop => exact hsame ▸ performs_registerAssistantWorker hop
           · exact hsame ▸ .refl)

theorem routeEffect_hub (h : HubState) (effect : CommandEffect) :
    (h.routeEffect effect).1.hub = h.hub := by
  unfold HubState.routeEffect
  dsimp only
  split
  · exact (routeToNode_hub _ _ _).1
  · rfl

theorem stage_performs (e : StageEnv) (h : HubState) (request : WorkerRequest) (n : NodeId)
    (s : Stage) : Performs h.hub (s.next e h request n).1.hub := by
  cases s with
  | selected =>
      simp only [Stage.next, routeEffect_hub]
      exact .command e.env h none _
  | created q => exact .refl
  | known t =>
      simp only [Stage.next]
      split
      · exact .refl
      · split
        · next hop => exact performs_registerAssistantWorker hop
        · exact .refl
  | tracked t => exact .command e.env h (some n) _
  | started t q effect =>
      simp only [Stage.next]
      split
      · exact .refl
      · split
        · exact .refl
        · rw [routeEffect_hub]
          exact .refl
  | bound t r =>
      simp only [Stage.next, routeEffect_hub]
      exact .command e.env h none _

end Stackhour.Hub
