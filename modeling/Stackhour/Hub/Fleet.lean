import Stackhour.Hub.System

/-!
# Node sessions and scheduling

The handlers that run beside each other in a hub, one critical section a step:
the sessions of nodes from the handshake to the record of their departure,
client commands, the hub's own assistant, and the creation of worker tasks. The
registry of connections, the rows of the nodes and the log of their presence are
written by different steps of a session.

`StartRun` runs under the execution gate, which registrations take too, so it is
one step; a creation of a worker task holds the gate over several. What is
routed to the nodes is the subject of `Dispatch`.
-/

namespace Stackhour.Hub

open Domain TransitionSystem

namespace HubState

/-! ## `on_node_connected` and `on_node_disconnected` in two parts -/

/-- The row of a node that has arrived. -/
def connectedNode (hello : NodeHello) : Node where
  id := hello.nodeId
  label := hello.nodeId.name
  status := .connected
  softwareVersion := hello.softwareVersion
  capabilities := hello.capabilities
  lastSeenSequence := hello.resumeAfterSequence

/-- The first part of `on_node_connected`; a failing write is ignored. -/
def upsertConnected (env : CallEnv) (h : HubState) (hello : NodeHello) : HubState :=
  match h.hub.upsertNode env (connectedNode hello) with
  | .ok s => { h with hub := s }
  | .error _ => h

/-- The second part of `on_node_connected`; a failing append is ignored. -/
def appendConnected (append fetch : CallEnv) (h : HubState) (hello : NodeHello)
    (now : DateTime) : HubState :=
  (h.appendAndBroadcastNodeEvent append fetch ⟨append.uuid⟩ (connectedDraft hello now)).1

/-- The first part of `on_node_disconnected`. -/
def upsertDisconnected (read upsert : CallEnv) (h : HubState) (nodeId : NodeId) : HubState :=
  match h.hub.getNode read nodeId with
  | .ok (some node) =>
      match h.hub.upsertNode upsert { node with status := .disconnected } with
      | .ok s => { h with hub := s }
      | .error _ => h
  | _ => h

/-- The second part of `on_node_disconnected`. -/
def appendDisconnected (append fetch : CallEnv) (h : HubState) (nodeId : NodeId)
    (now : DateTime) : HubState :=
  (h.appendAndBroadcastNodeEvent append fetch ⟨append.uuid⟩ (disconnectedDraft nodeId now)).1

theorem onNodeConnected_eq (upsert append fetch : CallEnv) (h : HubState) (hello : NodeHello)
    (now : DateTime) :
    h.onNodeConnected upsert append fetch hello now =
      (h.upsertConnected upsert hello).appendConnected append fetch hello now := rfl

theorem onNodeDisconnected_eq (read upsert append fetch : CallEnv) (h : HubState)
    (nodeId : NodeId) (now : DateTime) :
    h.onNodeDisconnected read upsert append fetch nodeId now =
      (h.upsertDisconnected read upsert nodeId).appendDisconnected append fetch nodeId now := rfl

/-! ## A node event in two parts -/

/-- The arm of an event that was accepted: append it, and acknowledge it if that
went through. -/
def appendAccepted (append fetch : CallEnv) (h : HubState) (nodeId : NodeId) (eventId : EventId)
    (draft : EventDraft) : HubState :=
  match h.appendAndBroadcastNodeEvent append fetch eventId draft with
  | (h, .ok _) => h.routeToNode nodeId (.eventAck eventId)
  | (h, .error _) => h

theorem handleNodeEvent_eq (validate append fetch : CallEnv) (h : HubState) (nodeId : NodeId)
    (eventId : EventId) (draft : EventDraft) :
    h.handleNodeEvent validate append fetch nodeId eventId draft =
      match h.acceptsNodeEvent validate nodeId draft with
      | (h, .ok false) => h.routeToNode nodeId (.eventAck eventId)
      | (h, .ok true) => h.appendAccepted append fetch nodeId eventId draft
      | (h, .error _) => h := rfl

/-! ## The hub's own assistant -/

/-- `start_hub_assistant_run`: a run that the hub itself executes. -/
def startHubAssistantRun (env : CommandEnv) (h : HubState) (commandId : CommandId)
    (taskId : TaskId) (engine : String) (model reasoningEffort : Option String)
    (systemPrompt : String) (workspacePath : Option String) : HubState × Except Error RunId :=
  match validateRunConfiguration engine model reasoningEffort (some systemPrompt)
      workspacePath with
  | .error message => (h, .error ⟨message⟩)
  | .ok () =>
      let run := newRun env taskId hubNode engine model reasoningEffort (some systemPrompt)
        .supervised workspacePath
      let draft := draftOf env .runStarted taskId hubNode (some run.id)
        (.object (startPayload run ++ [("hub_local_assistant", .bool true)]))
      match h.appendAndBroadcastCommand env.append env.fetch commandId draft (.run run) none with
      | (h, .ok _) => (h, .ok run.id)
      | (h, .error e) => (h, .error e)

/-- `append_hub_assistant_message`. -/
def appendHubAssistantMessage (env : CommandEnv) (h : HubState) (commandId : CommandId)
    (taskId : TaskId) (runId : RunId) (text : String) (messageId : Uuid) :
    HubState × Except Error AppendOutcome :=
  h.appendAndBroadcastCommand env.append env.fetch commandId
    (draftOf env .messageUser taskId hubNode (some runId)
      (.object [("text", .string text), ("client_message_id", .string (Store.uuidText messageId))]))
    .none none

/-- The kinds of event the assistant's process may report. -/
def isAssistantKind : EventKind → Bool
  | .messageAssistantCompleted | .runCompleted | .runFailed | .runInterrupted => true
  | _ => false

/-- `append_hub_assistant_event`. -/
def appendHubAssistantEvent (append fetch : CallEnv) (h : HubState) (kind : EventKind)
    (taskId : TaskId) (runId : RunId) (providerSessionId : Option String) (payload : Json)
    (now : DateTime) : HubState × Except Error AppendOutcome :=
  if isAssistantKind kind then
    h.appendAndBroadcastNodeEvent append fetch ⟨append.uuid⟩
      { ((EventDraft.new kind taskId hubNode now).withRun runId).withPayload payload with
        providerSessionId := providerSessionId }
  else (h, .error ⟨"unsupported hub-assistant event kind"⟩)

/-- `track_assistant_worker`. -/
def trackAssistantWorker (lookup register : CallEnv) (h : HubState) (channel : String)
    (taskId : TaskId) (runId : RunId) : HubState × Except Error Unit :=
  match h.runBinding lookup runId with
  | (h, none) => (h, .error ⟨"cannot track an unknown worker run"⟩)
  | (h, some (node, bound)) =>
      if bound ≠ taskId ∨ node = hubNode then
        (h, .error ⟨"assistant worker must be a node-owned run for this task"⟩)
      else
        match h.hub.registerAssistantWorker register channel taskId with
        | .ok s => ({ h with hub := s }, .ok ())
        | .error e => (h, .error e)

end HubState

/-! ## `create_worker_task` -/

/-- What a worker task is created from. -/
structure WorkerRequest where
  title : String
  prompt : String
  assistantChannel : Option String
  preferredNode : Option NodeId
  engine : String
  model : Option String
  reasoningEffort : Option String
  workspacePath : Option String

/-- The errors of `create_worker_task`, before they are turned into text. -/
inductive WorkerError where
  | invalid (message : String)
  | unscheduled (error : ProtocolError)
  | rejected (error : Option ProtocolError)
  | store (error : Error)
  | missingEvent
  | missingRun

namespace HubState

/-- The sequence of an accepting receipt. -/
def acceptedSequence (receipt : CommandReceipt) : Except WorkerError ℤ :=
  match receipt.accepted, receipt.assignedSequence with
  | true, some sequence => .ok sequence
  | _, _ => .error (.rejected receipt.error)

/-- `route_effect`. -/
def routeEffect (h : HubState) (effect : CommandEffect) : HubState × Except WorkerError ℤ :=
  let h := match effect.dispatch with
    | some (n, m) => h.routeToNode n m
    | none => h
  (h, acceptedSequence effect.receipt)

/-- Read a command's event back, as `event_from_effect` does. -/
def readEvent (env : CallEnv) (h : HubState) (sequence : ℤ) : Except WorkerError Event :=
  match h.hub.eventsAfter env (sequence - 1) with
  | .error e => .error (.store e)
  | .ok tail =>
      match tail.find? (fun e => decide (e.sequence = sequence)) with
      | some event => .ok event
      | none => .error .missingEvent

end HubState

/-- How far a creation is, its node being selected. -/
inductive Stage where
  | selected
  | created (sequence : ℤ)
  | known (taskId : TaskId)
  | tracked (taskId : TaskId)
  | started (taskId : TaskId) (sequence : ℤ) (effect : CommandEffect)
  | bound (taskId : TaskId) (runId : RunId)

/-- What a stage leads to. -/
inductive Progress where
  | stage (s : Stage)
  | done (result : Except WorkerError (TaskId × RunId))

/-- Go on to the next stage, or give up. -/
def Progress.andThen {α : Type} (x : Except WorkerError α) (next : α → Stage) : Progress :=
  match x with
  | .ok a => .stage (next a)
  | .error e => .done (.error e)

/-- What one stage reads from outside: the environment of its command or read,
and the ids it mints. -/
structure StageEnv where
  env : CommandEnv
  commandId : CommandId
  messageId : Uuid

/-- The next critical section of a creation. -/
def Stage.next (e : StageEnv) (h : HubState) (request : WorkerRequest) (nodeId : NodeId) :
    Stage → HubState × Progress
  | .selected =>
      let r := h.applyCommandInner e.env (.createTask e.commandId request.title) none
      let routed := r.1.routeEffect r.2
      (routed.1, .andThen routed.2 .created)
  | .created sequence =>
      (h, .andThen (h.readEvent e.env.lookup sequence) (fun event => .known event.taskId))
  | .known taskId =>
      match request.assistantChannel with
      | none => (h, .stage (.tracked taskId))
      | some channel =>
          match h.hub.registerAssistantWorker e.env.lookup channel taskId with
          | .ok s => ({ h with hub := s }, .stage (.tracked taskId))
          | .error err => (h, .done (.error (.store err)))
  | .tracked taskId =>
      let r := h.applyCommandInner e.env
        (.startRun e.commandId taskId (some nodeId) request.engine request.model
          request.reasoningEffort none .supervised request.workspacePath) (some nodeId)
      (r.1, .andThen (HubState.acceptedSequence r.2.receipt) (fun q => .started taskId q r.2))
  | .started taskId sequence effect =>
      match h.readEvent e.env.lookup sequence with
      | .error err => (h, .done (.error err))
      | .ok event =>
          match event.runId with
          | none => (h, .done (.error .missingRun))
          | some runId =>
              let routed := h.routeEffect effect
              (routed.1, .andThen routed.2 (fun _ => .bound taskId runId))
  | .bound taskId runId =>
      let r := h.applyCommandInner e.env
        (.sendUserMessage e.commandId taskId (some runId) request.prompt
          (Store.uuidText e.messageId)) none
      let routed := r.1.routeEffect r.2
      (routed.1, .done (routed.2.map (fun _ => (taskId, runId))))

/-! ## Sessions -/

/-- How far `handle_node` is: it has taken the node's slot; the row is written;
it is in its loop, perhaps with an event it has checked and not appended; it has
freed the slot; the row is written again. -/
inductive SessionPhase where
  | registered
  | stored
  | live (checked : Option (EventId × EventDraft))
  | left
  | demoted

structure NodeSession where
  hello : NodeHello
  phase : SessionPhase

/-- A selection: the hub and the sessions when it was made, and what was asked
for. -/
structure Moment where
  hub : HubState
  sessions : ℕ → Option NodeSession
  engine : String
  preferred : Option NodeId

/-- The hello of the current connection of each node. -/
def Moment.connected (m : Moment) (n : NodeId) : Option NodeHello :=
  (m.hub.nodes n).bind (fun c => (m.sessions c).map NodeSession.hello)

/-- A creation in progress. `sections` records the store before and after each
of its critical sections. -/
structure Call where
  request : WorkerRequest
  nodeId : NodeId
  moment : Moment
  stage : Stage
  sections : List (Store × Store)

structure Finished where
  request : WorkerRequest
  nodeId : Option NodeId
  moment : Moment
  result : Except WorkerError (TaskId × RunId)
  sections : List (Store × Store)

/-- `sessions` are the node handlers by connection, and `gate` the creation that
holds the execution gate. The other fields record the run: the events appended
through a link with the node of the link, the runs scheduled with the moment of
their selection, the assistant's runs, and the creations that have returned. -/
structure Fleet where
  hub : HubState
  sessions : ℕ → Option NodeSession
  gate : Option Call
  linked : List (NodeId × EventRow)
  scheduled : List (RunRow × Moment)
  assistantRuns : List RunRow
  finished : List Finished

inductive FleetLabel where
  | dial (hello : NodeHello)
  | upsert (c : ℕ) (env : CallEnv)
  | announce (c : ℕ) (append fetch : CallEnv) (now : DateTime)
  | check (c : ℕ) (validate : CallEnv) (eventId : EventId) (draft : EventDraft)
  | append (c : ℕ) (append fetch : CallEnv)
  | ack (c : ℕ) (env : CallEnv) (commandId : CommandId)
  | hangUp (c : ℕ)
  | demote (c : ℕ) (read upsert : CallEnv)
  | depart (c : ℕ) (append fetch : CallEnv) (now : DateTime)
  | command (env : CommandEnv) (cmd : ClientCommand)
  | createWorkerTask (env : CallEnv) (request : WorkerRequest)
  | stage (e : StageEnv)
  | startAssistant (env : CommandEnv) (commandId : CommandId) (taskId : TaskId)
      (engine : String) (model reasoningEffort : Option String) (systemPrompt : String)
      (workspacePath : Option String)
  | assistantMessage (env : CommandEnv) (commandId : CommandId) (taskId : TaskId)
      (runId : RunId) (text : String) (messageId : Uuid)
  | assistantEvent (append fetch : CallEnv) (kind : EventKind) (taskId : TaskId)
      (runId : RunId) (providerSessionId : Option String) (payload : Json) (now : DateTime)
  | track (lookup register : CallEnv) (channel : String) (taskId : TaskId) (runId : RunId)

/-- The run rows that are in `s'` and not yet in `s`. -/
def newRuns (s s' : Store) : List RunRow := s'.runs.drop s.runs.length

/-- The event rows that are in `s'` and not yet in `s`. -/
def newEvents (s s' : Store) : List EventRow := s'.events.drop s.events.length

/-- `StartRun` waits for the execution gate. -/
def needsGate : ClientCommand → Bool
  | .startRun .. => true
  | _ => false

namespace Fleet

def setSession (f : Fleet) (c : ℕ) (s : NodeSession) : Fleet :=
  { f with sessions := Function.update f.sessions c (some s) }

/-- A selection made now. -/
def moment (f : Fleet) (engine : String) (preferred : Option NodeId) : Moment :=
  ⟨f.hub, f.sessions, engine, preferred⟩

/-- What a client's command asks the scheduler for; only `StartRun` does. -/
def momentOf (f : Fleet) : ClientCommand → Moment
  | .startRun _ _ n engine .. => f.moment engine n
  | _ => f.moment "" none

def step (f : Fleet) : FleetLabel → Option Fleet
  | .dial hello =>
      if f.gate.isNone ∧ (f.hub.negotiateNode hello).accepted then
        let r := f.hub.registerNode hello.nodeId
        some ({ f with hub := r.1 }.setSession r.2 ⟨hello, .registered⟩)
      else none
  | .upsert c env =>
      match f.sessions c with
      | some ⟨hello, .registered⟩ =>
          some ({ f with hub := f.hub.upsertConnected env hello }.setSession c ⟨hello, .stored⟩)
      | _ => none
  | .announce c append fetch now =>
      match f.sessions c with
      | some ⟨hello, .stored⟩ =>
          some ({ f with hub := f.hub.appendConnected append fetch hello now }.setSession
            c ⟨hello, .live none⟩)
      | _ => none
  | .check c validate eventId draft =>
      match f.sessions c with
      | some ⟨hello, .live none⟩ =>
          match f.hub.acceptsNodeEvent validate hello.nodeId draft with
          | (h, .ok true) =>
              some ({ f with hub := h }.setSession c ⟨hello, .live (some (eventId, draft))⟩)
          | (h, .ok false) => some { f with hub := h.routeToNode hello.nodeId (.eventAck eventId) }
          | (h, .error _) => some { f with hub := h }
      | _ => none
  | .append c append fetch =>
      match f.sessions c with
      | some ⟨hello, .live (some (eventId, draft))⟩ =>
          let h := f.hub.appendAccepted append fetch hello.nodeId eventId draft
          some ({ f with
            hub := h
            linked := f.linked ++ (newEvents f.hub.hub h.hub).map (fun e => (hello.nodeId, e))
            }.setSession c ⟨hello, .live none⟩)
      | _ => none
  | .ack c env commandId =>
      match f.sessions c with
      | some ⟨hello, .live none⟩ =>
          some { f with hub := f.hub.acknowledgeDispatchFrom env hello.nodeId commandId }
      | _ => none
  -- only the session that holds the slot has a departure to record
  | .hangUp c =>
      match f.sessions c with
      | some ⟨hello, .live none⟩ =>
          if f.gate.isNone then
            match f.hub.unregisterNode hello.nodeId c with
            | (h, true) => some ({ f with hub := h }.setSession c ⟨hello, .left⟩)
            | (h, false) =>
                some { f with hub := h, sessions := Function.update f.sessions c none }
          else none
      | _ => none
  | .demote c read upsert =>
      match f.sessions c with
      | some ⟨hello, .left⟩ =>
          some ({ f with hub := f.hub.upsertDisconnected read upsert hello.nodeId }.setSession
            c ⟨hello, .demoted⟩)
      | _ => none
  | .depart c append fetch now =>
      match f.sessions c with
      | some ⟨hello, .demoted⟩ =>
          some { f with
            hub := f.hub.appendDisconnected append fetch hello.nodeId now
            sessions := Function.update f.sessions c none }
      | _ => none
  | .command env cmd =>
      if needsGate cmd ∧ f.gate.isSome then none
      else
        let h := (f.hub.applyCommand env cmd).1
        some { f with
          hub := h
          scheduled := f.scheduled ++
            (newRuns f.hub.hub h.hub).map (fun run => (run, f.momentOf cmd)) }
  | .createWorkerTask env request =>
      let m := f.moment request.engine request.preferredNode
      match validateRunConfiguration request.engine request.model request.reasoningEffort none
          request.workspacePath with
      | .error message =>
          some { f with
            finished := f.finished ++ [⟨request, none, m, .error (.invalid message), []⟩] }
      | .ok () =>
          if f.gate.isSome then none
          else
            match f.hub.eligibleExecutionNode env request.engine request.preferredNode with
            | .error e => some { f with
                finished := f.finished ++ [⟨request, none, m, .error (.unscheduled e), []⟩] }
            | .ok n => some { f with gate := some ⟨request, n, m, .selected, []⟩ }
  | .stage e =>
      match f.gate with
      | none => none
      | some call =>
          let r := call.stage.next e f.hub call.request call.nodeId
          let sections := call.sections ++ [(f.hub.hub, r.1.hub)]
          let f' := { f with
            hub := r.1
            scheduled := f.scheduled ++
              (newRuns f.hub.hub r.1.hub).map (fun run => (run, call.moment)) }
          match r.2 with
          | .stage s => some { f' with gate := some { call with stage := s, sections := sections } }
          | .done result => some { f' with
              gate := none
              finished := f.finished ++
                [⟨call.request, some call.nodeId, call.moment, result, sections⟩] }
  | .startAssistant env c t engine model effort prompt workspace =>
      let h := (f.hub.startHubAssistantRun env c t engine model effort prompt workspace).1
      some { f with hub := h, assistantRuns := f.assistantRuns ++ newRuns f.hub.hub h.hub }
  | .assistantMessage env c t r text mid =>
      some { f with hub := (f.hub.appendHubAssistantMessage env c t r text mid).1 }
  | .assistantEvent append fetch kind t r provider payload now =>
      some { f with
        hub := (f.hub.appendHubAssistantEvent append fetch kind t r provider payload now).1 }
  | .track lookup register channel t r =>
      some { f with hub := (f.hub.trackAssistantWorker lookup register channel t r).1 }

/-- The process restarts: every handler is gone. -/
def restart (f : Fleet) : Fleet :=
  { f with
    hub := HubState.fromHub f.hub.hub f.hub.nodeSecret f.hub.clientSecret
    sessions := fun _ => none
    gate := none }

/-- A hub with no handler and nothing recorded yet. -/
def idle (h : HubState) : Fleet := ⟨h, fun _ => none, none, [], [], [], []⟩

/-- From a hub over a newly opened database. -/
def system : System Fleet FleetLabel where
  init f := ∃ h, HubState.system.init h ∧ f = idle h
  step := step

end Fleet

/-! ## The fleet with restarts -/

inductive AuthorityLabel where
  | fleet (a : FleetLabel)
  | restart

/-- The fleet from a fresh hub, with restarts of the process. -/
def Fleet.restarting : System Fleet AuthorityLabel where
  init := Fleet.system.init
  step f
    | .fleet a => f.step a
    | .restart => some f.restart

/-! ## Short runs -/

/-- The node `name` as it dials in, able to run `engine`. -/
def helloOf (name engine : String) : NodeHello :=
  ⟨⟨name⟩, "", "0.1.0", wireProtocolVersion, .object [("engines", .array [.string engine])], none⟩

/-- The node `name` connects as the connection `c`, minting the event `u`. -/
def connecting (name : String) (c u : ℕ) : List FleetLabel :=
  [.dial (helloOf name "claude"), .upsert c (plainCall 1), .announce c (plainCall u) (plainCall 1) .epoch]

/-- The connection `c` of `name` reports `kind` for a run, as the event `u`. -/
def reporting (name : String) (c u : ℕ) (kind : EventKind) (task run : ℕ) : List FleetLabel :=
  [.check c (plainCall 1) ⟨BitVec.ofNat 128 u⟩
      ((EventDraft.new kind ⟨BitVec.ofNat 128 task⟩ ⟨name⟩ .epoch).withRun ⟨BitVec.ofNat 128 run⟩),
    .append c (plainCall 1) (plainCall 1)]

/-- A client starts a Claude run of a task, minting `u`. -/
def beginning (u task : ℕ) : FleetLabel :=
  .command (plainCommand u) (.startRun ⟨BitVec.ofNat 128 u⟩ ⟨BitVec.ofNat 128 task⟩ none "claude"
    none none none .supervised none)

/-- The assistant starts a run of a task, minting `u`. -/
def assisting (u task : ℕ) : FleetLabel :=
  .startAssistant (plainCommand u) ⟨BitVec.ofNat 128 u⟩ ⟨BitVec.ofNat 128 task⟩ "claude" none none
    "prompt" none

/-- A fleet over a fresh hub. -/
def freshFleet : Fleet := Fleet.idle freshHub

theorem Fleet.fresh_init : Fleet.system.init freshFleet := ⟨freshHub, HubState.fresh_init, rfl⟩

end Stackhour.Hub
