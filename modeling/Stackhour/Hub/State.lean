import Stackhour.Domain.EventLog
import Stackhour.Hub.Validation

/-!
# The hub

The shared state of a hub and what its handlers do to it between two `.await`s.
A function returns the state it leaves beside its result, because an error does
not undo what was written before it. The bus, the registry and the routing cache
are in memory; only `hub` survives a restart.
-/

namespace Stackhour.Hub

open Domain

/-! ## State -/

/-- Ephemeral routing: the owner of a run, and the most recent owner of a task. -/
structure Routing where
  run : RunId → Option (NodeId × TaskId)
  task : TaskId → Option NodeId

/-- `nodes` maps a node to its current connection; `channels` holds what has
been sent into the write loop of each connection, and `events` what has been
broadcast. -/
structure HubState where
  hub : Store
  nodeSecret : String
  clientSecret : String
  events : List Event
  nodes : NodeId → Option ℕ
  nextNodeConnectionId : ℕ
  channels : ℕ → List HubToNode
  routing : Routing

/-- `HUB_NODE_NAME`. -/
def hubNode : NodeId := ⟨"hub"⟩

/-- `system_task`: the nil UUID. -/
def systemTask : TaskId := ⟨0⟩

/-- `EVENT_BUS_CAPACITY`. -/
def eventBusCapacity : ℕ := 1024

namespace HubState

/-- `from_hub`: nothing connected, nothing cached. -/
def fromHub (hub : Store) (nodeSecret clientSecret : String) : HubState where
  hub := hub
  nodeSecret := nodeSecret
  clientSecret := clientSecret
  events := []
  nodes := fun _ => none
  nextNodeConnectionId := 1
  channels := fun _ => []
  routing := ⟨fun _ => none, fun _ => none⟩

/-! ## Handshakes -/

/-- `negotiate_node`: the token first, then the protocol version. -/
def negotiateNode (h : HubState) (hello : NodeHello) : HubWelcome :=
  if hello.token = h.nodeSecret then HubWelcome.negotiate hello.protocolVersion
  else HubWelcome.reject .unauthenticated

/-- `accepts_client`: an empty secret is local unauthenticated mode. -/
def acceptsClient (h : HubState) (token : Option String) : Bool :=
  decide (h.clientSecret = "") || decide (token = some h.clientSecret)

/-! ## Append and broadcast -/

/-- `fetch_event`. -/
def fetchEvent (env : CallEnv) (s : Store) (sequence : ℤ) : Except Error (Option Event) := do
  let tail ← s.eventsAfter env (sequence - 1)
  pure (tail.find? (fun e => decide (e.sequence = sequence)))

/-- Read a newly created event back and send it to the bus. The append has
committed by now: a failing read leaves it in the store, unannounced. -/
def broadcast (fetch : CallEnv) (h : HubState) (outcome : AppendOutcome) :
    HubState × Except Error AppendOutcome :=
  if outcome.created then
    match fetchEvent fetch h.hub outcome.sequence with
    | .error e => (h, .error e)
    | .ok none => (h, .ok outcome)
    | .ok (some event) => ({ h with events := h.events ++ [event] }, .ok outcome)
  else (h, .ok outcome)

/-- `append_and_broadcast_command`. -/
def appendAndBroadcastCommand (append fetch : CallEnv) (h : HubState)
    (commandId : CommandId) (draft : EventDraft) (entity : EntityWrite)
    (dispatch : Option (NodeId × HubToNode)) : HubState × Except Error AppendOutcome :=
  match h.hub.appendCommandBundle append commandId draft entity dispatch with
  | .error e => (h, .error e)
  | .ok (s, outcome) => broadcast fetch { h with hub := s } outcome

/-- `append_and_broadcast_node_event`. -/
def appendAndBroadcastNodeEvent (append fetch : CallEnv) (h : HubState)
    (eventId : EventId) (draft : EventDraft) : HubState × Except Error AppendOutcome :=
  match h.hub.appendNodeEvent append eventId draft with
  | .error e => (h, .error e)
  | .ok (s, outcome) => broadcast fetch { h with hub := s } outcome

/-- `snapshot`: the head and the tail above a cursor, from one read. -/
def snapshot (env : CallEnv) (h : HubState) (after : ℤ) : Except Error (ℤ × List Event) := do
  let all ← h.hub.eventsAfter env 0
  let head := (all.getLast?.map EventOf.sequence).getD 0
  pure (head, all.filter (fun e => decide (after < e.sequence)))

/-! ## Registry and routing -/

/-- `register_node`: a new connection takes the node's slot. -/
def registerNode (h : HubState) (nodeId : NodeId) : HubState × ℕ :=
  ({ h with
      nodes := Function.update h.nodes nodeId (some h.nextNodeConnectionId)
      nextNodeConnectionId := h.nextNodeConnectionId + 1 },
    h.nextNodeConnectionId)

/-- `unregister_node`: only the connection that holds the slot frees it. -/
def unregisterNode (h : HubState) (nodeId : NodeId) (connectionId : ℕ) : HubState × Bool :=
  if h.nodes nodeId = some connectionId then
    ({ h with nodes := Function.update h.nodes nodeId none }, true)
  else (h, false)

/-- `route_to_node`: into the current connection of the node, if it has one. -/
def routeToNode (h : HubState) (nodeId : NodeId) (message : HubToNode) : HubState :=
  match h.nodes nodeId with
  | none => h
  | some c => { h with channels := Function.update h.channels c (h.channels c ++ [message]) }

/-- `remember_run`. -/
def rememberRun (h : HubState) (runId : RunId) (nodeId : NodeId) (taskId : TaskId) : HubState :=
  { h with
    routing :=
      { run := Function.update h.routing.run runId (some (nodeId, taskId))
        task := Function.update h.routing.task taskId (some nodeId) } }

/-- `run_binding_checked`: the cache, then the stored run, which is cached. -/
def runBindingChecked (env : CallEnv) (h : HubState) (runId : RunId) :
    HubState × Except Error (Option (NodeId × TaskId)) :=
  match h.routing.run runId with
  | some binding => (h, .ok (some binding))
  | none =>
      match h.hub.getRun env runId with
      | .error e => (h, .error e)
      | .ok none => (h, .ok none)
      | .ok (some run) =>
          (h.rememberRun run.id run.nodeId run.taskId, .ok (some (run.nodeId, run.taskId)))

/-- `run_binding`: an unreadable binding counts as none. -/
def runBinding (env : CallEnv) (h : HubState) (runId : RunId) :
    HubState × Option (NodeId × TaskId) :=
  match h.runBindingChecked env runId with
  | (h, .ok binding) => (h, binding)
  | (h, .error _) => (h, none)

/-- `node_for_task`. -/
def nodeForTask (h : HubState) (taskId : TaskId) : Option NodeId := h.routing.task taskId

/-- `accepts_node_event`: from the authenticated node, about a run bound to that
node and that task. -/
def acceptsNodeEvent (env : CallEnv) (h : HubState) (authenticatedNode : NodeId)
    (draft : EventDraft) : HubState × Except Error Bool :=
  if draft.nodeId ≠ authenticatedNode then (h, .ok false)
  else
    match draft.runId with
    | none => (h, .ok false)
    | some runId =>
        match h.runBindingChecked env runId with
        | (h, .error e) => (h, .error e)
        | (h, .ok binding) => (h, .ok (decide (binding = some (authenticatedNode, draft.taskId))))

/-- `eligible_execution_node`: the first connected node, in id order, that
accepts the engine; a preferred node is a constraint. -/
def eligibleExecutionNode (env : CallEnv) (h : HubState) (engine : String)
    (preferred : Option NodeId) : Except ProtocolError NodeId :=
  match h.hub.listNodes env with
  | .error _ => .error (.invalidRequest "cannot read execution-node registry")
  | .ok nodes =>
      match nodes.find? (fun node =>
        (preferred.all (fun wanted => decide (wanted = node.id))) &&
          (h.nodes node.id).isSome && nodeAcceptsEngine node.capabilities engine) with
      | some node => .ok node.id
      | none => .error (.noEligibleNode engine preferred)

/-- `acknowledge_dispatch_from`: a failing call is ignored. -/
def acknowledgeDispatchFrom (env : CallEnv) (h : HubState) (nodeId : NodeId)
    (commandId : CommandId) : HubState :=
  match h.hub.acknowledgeDispatchFrom env commandId nodeId with
  | .ok (s, _) => { h with hub := s }
  | .error _ => h

/-- The messages `replay_pending` routes: none when the query fails. -/
def pendingMessages (env : CallEnv) (h : HubState) (nodeId : NodeId) : List HubToNode :=
  match h.hub.pendingDispatches env nodeId with
  | .ok pending => pending.map PendingDispatch.message
  | .error _ => []

/-- `replay_pending`, when nothing runs in between its sends. -/
def replayPending (env : CallEnv) (h : HubState) (nodeId : NodeId) : HubState :=
  (h.pendingMessages env nodeId).foldl (fun h m => h.routeToNode nodeId m) h

end HubState

/-! ## Client commands -/

/-- What handling one command reads from outside: each store call it makes, the
id it mints for its entity, and the clock for the entity and for the draft. An
approval is resolved at the clock reading of `lookup`. -/
structure CommandEnv where
  outcome : CallEnv
  lookup : CallEnv
  append : CallEnv
  fetch : CallEnv
  entityId : Uuid
  entityAt : DateTime
  draftAt : DateTime

/-- The receipt for the client, and the work to route. -/
structure CommandEffect where
  receipt : CommandReceipt
  dispatch : Option (NodeId × HubToNode)
deriving DecidableEq

/-- What a command's arm hands to `finish_with_entity`. -/
structure Plan where
  draft : EventDraft
  dispatch : Option (NodeId × HubToNode)
  entity : EntityWrite

namespace HubState

/-- The draft of an event, with its run and payload. -/
def draftOf (env : CommandEnv) (kind : EventKind) (taskId : TaskId) (nodeId : NodeId)
    (runId : Option RunId) (payload : Json) : EventDraft :=
  { EventDraft.new kind taskId nodeId env.draftAt with runId := runId, payload := payload }

/-- `CreateTask`: the row and the event share one id. -/
def planCreateTask (env : CommandEnv) (title : String) : Plan :=
  let task : Task := ⟨⟨env.entityId⟩, title, .open, env.entityAt⟩
  { draft := draftOf env .taskCreated task.id hubNode none (.object [("title", .string title)])
    dispatch := none
    entity := .task task }

/-- `SendUserMessage`: the run's node, or else the task's most recent one. A
prompt is dispatched only for a named run. -/
def planSendUserMessage (env : CommandEnv) (h : HubState) (commandId : CommandId)
    (taskId : TaskId) (runId : Option RunId) (text clientMessageId : String) :
    HubState × Except ProtocolError Plan :=
  let (h, bound) := match runId with
    | none => (h, none)
    | some r => h.runBinding env.lookup r
  let node := (bound.map Prod.fst).or (h.nodeForTask taskId)
  if node = some hubNode then
    (h, .error (.invalidRequest
      "hub-local assistant messages must be submitted by their owning supervisor"))
  else
    let dispatch := match node, runId with
      | some n, some r =>
          some (n, HubToNode.dispatchCommand commandId none
            (.sendPrompt taskId r text clientMessageId))
      | _, _ => none
    let draft := draftOf env .messageUser taskId (node.getD hubNode) runId
      (.object [("text", .string text), ("client_message_id", .string clientMessageId)])
    (h, .ok ⟨draft, dispatch, .none⟩)

/-- The run row of a `StartRun`. -/
def newRun (env : CommandEnv) (taskId : TaskId) (nodeId : NodeId) (engine : String)
    (model reasoningEffort systemPrompt : Option String) (accessPolicy : AccessPolicy)
    (workspacePath : Option String) : Run where
  id := ⟨env.entityId⟩
  taskId := taskId
  nodeId := nodeId
  engine := engine
  model := model
  reasoningEffort := reasoningEffort
  systemPrompt := systemPrompt
  accessPolicy := accessPolicy
  workspacePath := workspacePath
  status := .started
  startedAt := env.entityAt

def startWork (run : Run) : NodeWork :=
  .startRun run.id run.taskId run.engine run.model run.reasoningEffort run.systemPrompt
    run.accessPolicy run.workspacePath

/-- The payload of a `run.started` event; the prompt is left out. -/
def startPayload (run : Run) : List (String × Json) :=
  [("engine", .string run.engine), ("model", .ofOption run.model),
    ("reasoning_effort", .ofOption run.reasoningEffort),
    ("access_policy", .string run.accessPolicy.asStr),
    ("workspace_path", .ofOption run.workspacePath)]

/-- The reserved node, or else an eligible one. -/
def executionNode (env : CallEnv) (h : HubState) (reservedNode : Option NodeId)
    (engine : String) (preferred : Option NodeId) : Except ProtocolError NodeId :=
  match reservedNode with
  | some n => .ok n
  | none => h.eligibleExecutionNode env engine preferred

/-- `StartRun`. -/
def planStartRun (env : CommandEnv) (h : HubState) (reservedNode : Option NodeId)
    (commandId : CommandId) (taskId : TaskId) (nodeId : Option NodeId) (engine : String)
    (model reasoningEffort systemPrompt : Option String) (accessPolicy : AccessPolicy)
    (workspacePath : Option String) : Except ProtocolError Plan := do
  match validateRunConfiguration engine model reasoningEffort systemPrompt workspacePath with
  | .error message => .error (.invalidRequest message)
  | .ok () =>
      let n ← h.executionNode env.lookup reservedNode engine nodeId
      let run := newRun env taskId n engine model reasoningEffort systemPrompt accessPolicy
        workspacePath
      .ok
        { draft := draftOf env .runStarted taskId n (some run.id) (.object (startPayload run))
          dispatch := some (n, .dispatchCommand commandId none (startWork run))
          entity := .run run }

/-- `InterruptRun`: recorded against the run's task, or the system task when
the run is unknown, in which case nothing is dispatched. -/
def planInterruptRun (env : CommandEnv) (h : HubState) (commandId : CommandId) (runId : RunId) :
    HubState × Except ProtocolError Plan :=
  match h.runBinding env.lookup runId with
  | (h, binding) =>
      if binding.map Prod.fst = some hubNode then
        (h, .error (.invalidRequest
          "hub-local assistant runs must be stopped by their owning supervisor"))
      else
        let node := binding.map Prod.fst
        let taskId := (binding.map Prod.snd).getD systemTask
        (h, .ok
          { draft := draftOf env .runInterrupted taskId (node.getD hubNode) (some runId) .null
            dispatch := node.map (fun n =>
              (n, .dispatchCommand commandId none (.interruptRun runId)))
            entity := .none })

/-- `ResolveApproval`: the approval row is resolved first, in a transaction of
its own; the event then carries the decision in effect. -/
def planResolveApproval (env : CommandEnv) (h : HubState) (approvalId : ApprovalId)
    (decision : Decision) (actor : String) : HubState × Except ProtocolError Plan :=
  match h.hub.resolveApproval env.lookup approvalId decision actor env.lookup.now with
  | .error _ => (h, .error (.unknownApproval approvalId))
  | .ok (s, approval) =>
      let payload := Json.object
        [("approval_id", .string (Store.uuidText approvalId.uuid)),
          ("decision", .string approval.decision.asStr),
          ("actor", .ofOption approval.resolvedBy)]
      ({ h with hub := s }, .ok
        { draft := draftOf env .approvalResolved approval.taskId hubNode (some approval.runId)
            payload
          dispatch := none
          entity := .none })

/-- The arms of `apply_command_inner`, up to the call that appends. -/
def planCommand (env : CommandEnv) (h : HubState) (reservedNode : Option NodeId) :
    ClientCommand → HubState × Except ProtocolError Plan
  | .createTask _ title => (h, .ok (planCreateTask env title))
  | .sendUserMessage c taskId runId text clientMessageId =>
      h.planSendUserMessage env c taskId runId text clientMessageId
  | .startRun c taskId nodeId engine model effort prompt policy workspace =>
      (h, h.planStartRun env reservedNode c taskId nodeId engine model effort prompt policy
        workspace)
  | .interruptRun c runId => h.planInterruptRun env c runId
  | .resolveApproval _ approvalId decision actor =>
      h.planResolveApproval env approvalId decision actor

/-- `finish_with_entity`; `finish` is the case without an entity. A store
failure becomes a receipt that accepts nothing and names no error. -/
def finishWithEntity (env : CommandEnv) (h : HubState) (commandId : CommandId) (plan : Plan) :
    HubState × CommandEffect :=
  match h.appendAndBroadcastCommand env.append env.fetch commandId plan.draft plan.entity
      plan.dispatch with
  | (h, .ok outcome) =>
      (h, ⟨CommandReceipt.accept commandId outcome.sequence outcome.eventId,
        if outcome.created then plan.dispatch else none⟩)
  | (h, .error _) => (h, ⟨⟨commandId, false, none, none, none⟩, none⟩)

/-- A started run is remembered when its work is to be routed. -/
def rememberStarted (h : HubState) (plan : Plan) (effect : CommandEffect) : HubState :=
  match plan.entity, effect.dispatch with
  | .run run, some _ => h.rememberRun run.id run.nodeId run.taskId
  | _, _ => h

/-- `apply_command_inner`. -/
def applyCommandInner (env : CommandEnv) (h : HubState) (cmd : ClientCommand)
    (reservedNode : Option NodeId) : HubState × CommandEffect :=
  match h.hub.commandOutcome env.outcome cmd.commandId with
  | .ok (some outcome) =>
      (h, ⟨CommandReceipt.accept cmd.commandId outcome.sequence outcome.eventId, none⟩)
  | _ =>
      match h.planCommand env reservedNode cmd with
      | (h, .error e) => (h, ⟨CommandReceipt.reject cmd.commandId e, none⟩)
      | (h, .ok plan) =>
          match h.finishWithEntity env cmd.commandId plan with
          | (h, effect) => (h.rememberStarted plan effect, effect)

/-- `apply_command`. -/
def applyCommand (env : CommandEnv) (h : HubState) (cmd : ClientCommand) :
    HubState × CommandEffect :=
  h.applyCommandInner env cmd none

/-! ## Node lifecycle -/

def connectedDraft (hello : NodeHello) (now : DateTime) : EventDraft :=
  (EventDraft.new .nodeConnected systemTask hello.nodeId now).withPayload
    (.object [("software_version", .string hello.softwareVersion),
      ("capabilities", hello.capabilities)])

def disconnectedDraft (nodeId : NodeId) (now : DateTime) : EventDraft :=
  EventDraft.new .nodeDisconnected systemTask nodeId now

/-- `on_node_connected`: the node's row, then a `node.connected` event. -/
def onNodeConnected (upsert append fetch : CallEnv) (h : HubState) (hello : NodeHello)
    (now : DateTime) : HubState :=
  let node : Node :=
    { id := hello.nodeId
      label := hello.nodeId.name
      status := .connected
      softwareVersion := hello.softwareVersion
      capabilities := hello.capabilities
      lastSeenSequence := hello.resumeAfterSequence }
  let h := match h.hub.upsertNode upsert node with
    | .ok s => { h with hub := s }
    | .error _ => h
  (h.appendAndBroadcastNodeEvent append fetch ⟨append.uuid⟩ (connectedDraft hello now)).1

/-- `on_node_disconnected`: the node's status, then a `node.disconnected`
event. -/
def onNodeDisconnected (read upsert append fetch : CallEnv) (h : HubState) (nodeId : NodeId)
    (now : DateTime) : HubState :=
  let h := match h.hub.getNode read nodeId with
    | .ok (some node) =>
        match h.hub.upsertNode upsert { node with status := .disconnected } with
        | .ok s => { h with hub := s }
        | .error _ => h
    | _ => h
  (h.appendAndBroadcastNodeEvent append fetch ⟨append.uuid⟩ (disconnectedDraft nodeId now)).1

/-- What the node link does with a `NodeEvent`: a draft that is not the node's
to report is acknowledged and dropped, a failed check or append leaves the event
to be sent again. -/
def handleNodeEvent (validate append fetch : CallEnv) (h : HubState) (nodeId : NodeId)
    (eventId : EventId) (draft : EventDraft) : HubState :=
  match h.acceptsNodeEvent validate nodeId draft with
  | (h, .ok false) => h.routeToNode nodeId (.eventAck eventId)
  | (h, .ok true) =>
      match h.appendAndBroadcastNodeEvent append fetch eventId draft with
      | (h, .ok _) => h.routeToNode nodeId (.eventAck eventId)
      | (h, .error _) => h
  | (h, .error _) => h

end HubState

/-! ## A fresh hub -/

/-- A call that the engine lets through at the epoch, minting `u`. -/
def plainCall (u : ℕ) : CallEnv := ⟨.epoch, BitVec.ofNat 128 u, none⟩

/-- Every call of a command let through, minting ids from `u` on. -/
def plainCommand (u : ℕ) : CommandEnv :=
  ⟨plainCall u, plainCall u, plainCall u, plainCall u, BitVec.ofNat 128 u, .epoch, .epoch⟩

/-- A hub over a newly opened database. -/
def freshHub : HubState := HubState.fromHub (Store.blank.runMigrations fun _ => none).1 "" ""

end Stackhour.Hub
