import Stackhour.Lib.System
import Stackhour.Node.Outbox

/-!
# The node's engine

`CliEngine`, the receive loop that feeds it and the tasks it spawns, over the
life of one node process. Dispatches are delivered any number of times on any
number of links; links come and go while the tasks run.
-/

namespace Stackhour.Node

open Domain TransitionSystem

/-! ## Requests and results -/

structure RunSpec where
  taskId : TaskId
  engine : String
  model : Option String
  reasoningEffort : Option String
  systemPrompt : Option String
  accessPolicy : AccessPolicy
  workspace : Option String

structure CliEngineConfig where
  claudeBin : Option String
  codexBin : Option String
  defaultWorkspace : Option String

structure RunRequest where
  prompt : String
  sessionId : Option String
  model : Option String
  permissionMode : Option String
  systemPrompt : Option String
  effort : Option String
  cwd : Option String
  liveStatus : Bool
  bin : Option String

structure RunResult where
  text : String
  sessionId : Option String
  code : Option ℤ
  error : Option String
  stderr : String

/-- What a task has still to emit about a run. -/
structure Notice where
  kind : EventKind
  taskId : TaskId
  runId : RunId
  payload : Json
  providerSessionId : Option String

def Notice.draft (n : Notice) (nodeId : NodeId) (now : DateTime) : EventDraft :=
  { ((EventDraft.new n.kind n.taskId nodeId now).withRun n.runId).withPayload n.payload with
    providerSessionId := n.providerSessionId }

/-- `run.failed` with an error alone. -/
def Notice.failed (taskId : TaskId) (runId : RunId) (error : String) : Notice :=
  ⟨.runFailed, taskId, runId, .object [("error", .string error)], none⟩

/-- Unicode's `White_Space`. -/
def isWhitespace (c : Char) : Bool :=
  let n := c.toNat
  decide ((9 ≤ n ∧ n ≤ 13) ∨ n = 32 ∨ n = 0x85 ∨ n = 0xa0 ∨ n = 0x1680 ∨
    (0x2000 ≤ n ∧ n ≤ 0x200a) ∨ n = 0x2028 ∨ n = 0x2029 ∨ n = 0x202f ∨ n = 0x205f ∨ n = 0x3000)

/-- `str::trim`. -/
def trim (s : String) : String :=
  String.ofList ((s.toList.dropWhile isWhitespace).reverse.dropWhile isWhitespace).reverse

/-- The debug form of an exit code. -/
def showCode : Option ℤ → String
  | none => "None"
  | some code => "Some(" ++ toString code ++ ")"

/-- The error of a process that did not succeed. -/
def RunResult.failure (r : RunResult) : String :=
  r.error.getD (if trim r.stderr = "" then "engine exited with code " ++ showCode r.code
    else trim r.stderr)

/-- What the supervisor of a process emits when it ends. -/
def endNotices (taskId : TaskId) (runId : RunId) (interrupted : Bool)
    (result : Option RunResult) : List Notice :=
  if interrupted then [⟨.runInterrupted, taskId, runId, .object [], none⟩]
  else
    match result with
    | none => [.failed taskId runId "engine supervisor failed"]
    | some r =>
        if r.code = some 0 ∧ r.error = none then
          [⟨.messageAssistantCompleted, taskId, runId, .object [("text", .string r.text)],
            r.sessionId⟩, ⟨.runCompleted, taskId, runId, .object [], none⟩]
        else
          [⟨.runFailed, taskId, runId, .object [("error", .string r.failure),
            ("code", (r.code.map (fun code => .number (.int code))).getD .null)], none⟩]

/-- The check of `launch_node_update`; the length is in bytes. -/
def validVersion (version : String) : Bool :=
  version != "" && decide (version.utf8ByteSize ≤ 80) &&
    version.toList.all (fun ch => ch.isAlphanum || ch == '.' || ch == '-' || ch == '+')

/-! ## The state of the process -/

/-- Maps and sets are functions; `jobs` names a process by its place among the
effects. -/
structure CliState where
  runs : RunId → Option RunSpec
  sessions : RunId → Option String
  jobs : RunId → Option ℕ
  commandRuns : CommandId → Option RunId
  seen : CommandId → Bool
  interrupted : RunId → Bool

/-- What a dispatch does beyond being acknowledged or reported on. -/
inductive Effect where
  | registered (runId : RunId) (spec : RunSpec)
  | executed (runId : RunId) (engine : String) (request : RunRequest)
  | interrupted (runId : RunId)
  | updated (version : String)

/-- What a task does once it has acknowledged. -/
inductive Work where
  | emit (notices : List Notice)
  | supervise (commandId : CommandId) (runId : RunId) (taskId : TaskId)
  | update (commandId : CommandId) (version : String)

/-- A spawned task: the command to acknowledge first, and its work. -/
structure SpawnedTask where
  toAck : Option CommandId
  work : Work

/-- A prompt between reading the state and registering its process: other tasks
may take the lock in between. -/
structure Starting where
  commandId : CommandId
  runId : RunId
  spec : RunSpec
  text : String
  sessionId : Option String

/-- The request `dispatch` builds for a prompt. -/
def Starting.request (s : Starting) (config : CliEngineConfig) : RunRequest where
  prompt := s.text
  sessionId := s.sessionId
  model := s.spec.model
  permissionMode := some (match s.spec.accessPolicy with
    | .fullAccess => "bypassPermissions"
    | .supervised | .automatic => "default")
  systemPrompt := s.spec.systemPrompt
  effort := s.spec.reasoningEffort
  cwd := s.spec.workspace
  liveStatus := true
  bin := if s.spec.engine = "claude" then config.claudeBin else config.codexBin

/-- `handed` is what was handed to the writers of links, `effects` what the
commands did, `terminated` the processes told to stop. `heard` records the
delivered dispatches, `stale` those among them that had expired, `lost` the
acknowledgements that had no link to go to. -/
structure CliNode where
  config : CliEngineConfig
  nodeId : NodeId
  state : CliState
  outbox : OutboxState
  starting : Option Starting
  tasks : List SpawnedTask
  handed : List (ℕ × List NodeToHub)
  effects : List (CommandId × Effect)
  terminated : List ℕ
  heard : List CommandId
  stale : List CommandId
  lost : List CommandId

inductive CliLabel where
  | hear (m : HubToNode) (nowSecs : ℤ)
  | start
  | acknowledge (i : ℕ)
  | emit (i : ℕ) (eventId : EventId) (now : DateTime)
  | launch (i : ℕ)
  | join (i : ℕ) (result : Option RunResult)
  | attach (tx : ℕ)
  | detach
  | resend

namespace CliNode

/-! ## Handling a message -/

/-- `tokio::spawn`. -/
def spawn (d : CliNode) (toAck : CommandId) (work : Work) : CliNode :=
  { d with tasks := d.tasks ++ [⟨some toAck, work⟩] }

def effect (d : CliNode) (c : CommandId) (e : Effect) : CliNode :=
  { d with effects := d.effects ++ [(c, e)] }

/-- `stop_run`. -/
def stopRun (d : CliNode) (runId : RunId) : CliNode :=
  match d.state.jobs runId with
  | some job =>
      { d with
        state := { d.state with interrupted := Function.update d.state.interrupted runId true }
        terminated := d.terminated ++ [job] }
  | none => d

/-- `cancel`. -/
def cancel (d : CliNode) (commandId : CommandId) : CliNode :=
  match d.state.commandRuns commandId with
  | some runId => d.stopRun runId
  | none => d

/-- The branches of `dispatch` for a command not seen before. -/
def perform (d : CliNode) (commandId : CommandId) : NodeWork → CliNode
  | .startRun runId taskId engine model reasoningEffort systemPrompt accessPolicy path =>
      let spec : RunSpec := ⟨taskId, engine, model, reasoningEffort, systemPrompt, accessPolicy,
        path.or d.config.defaultWorkspace⟩
      let d := { d with
        state := { d.state with runs := Function.update d.state.runs runId (some spec) } }
      (d.effect commandId (.registered runId spec)).spawn commandId (.emit [])
  | .sendPrompt taskId runId text _ =>
      match d.state.runs runId with
      | none =>
          d.spawn commandId (.emit [.failed taskId runId "run is not initialized on this node"])
      | some spec =>
          if spec.engine = "claude" ∨ spec.engine = "codex" then
            { d with starting := some ⟨commandId, runId, spec, text, d.state.sessions runId⟩ }
          else
            d.spawn commandId
              (.emit [.failed taskId runId ("unsupported engine: " ++ spec.engine)])
  | .interruptRun runId =>
      ((d.stopRun runId).effect commandId (.interrupted runId)).spawn commandId (.emit [])
  | .update version => d.spawn commandId (.update commandId version)

def markSeen (d : CliNode) (commandId : CommandId) : CliNode :=
  { d with state := { d.state with seen := Function.update d.state.seen commandId true } }

/-- `CliEngine::dispatch`, up to the start of a process. -/
def dispatch (d : CliNode) (commandId : CommandId) (work : NodeWork) : CliNode :=
  if d.state.seen commandId then d.spawn commandId (.emit [])
  else (d.markSeen commandId).perform commandId work

/-- `spawn_engine` and the registration of its process. -/
def startProcess (d : CliNode) (s : Starting) : CliNode :=
  let d := { d with
    starting := none
    state := { d.state with
      jobs := Function.update d.state.jobs s.runId (some d.effects.length)
      commandRuns := Function.update d.state.commandRuns s.commandId (some s.runId) } }
  (d.effect s.commandId (.executed s.runId s.spec.engine (s.request d.config))).spawn s.commandId
    (.supervise s.commandId s.runId s.spec.taskId)

/-- The supervisor of a process takes the lock after its end. -/
def finish (d : CliNode) (commandId : CommandId) (runId : RunId) (result : Option RunResult) :
    CliNode :=
  { d with state := { d.state with
      jobs := Function.update d.state.jobs runId none
      commandRuns := Function.update d.state.commandRuns commandId none
      sessions := match result.bind RunResult.sessionId with
        | some session => Function.update d.state.sessions runId (some session)
        | none => d.state.sessions
      interrupted := Function.update d.state.interrupted runId false } }

/-- The check of a dispatch's expiry. -/
def expired (expiresAt : Option DateTime) (nowSecs : ℤ) : Bool :=
  match expiresAt with
  | some t => decide (t.timestamp ≤ nowSecs)
  | none => false

/-- `handle_hub_message`. -/
def handleHubMessage (d : CliNode) (nowSecs : ℤ) : HubToNode → CliNode
  | .dispatchCommand commandId expiresAt work =>
      let d := { d with heard := d.heard ++ [commandId] }
      if expired expiresAt nowSecs then { d with stale := d.stale ++ [commandId] }
      else d.dispatch commandId work
  | .cancelCommand commandId => d.cancel commandId
  | .eventAck eventId => { d with outbox := d.outbox.acknowledgeEvent eventId }
  | .approvalDecision .. => d
  | .heartbeat => d

/-! ## Steps -/

/-- A task goes on to its next work. -/
def become (d : CliNode) (i : ℕ) (work : Work) : CliNode :=
  { d with tasks := d.tasks.set i ⟨none, work⟩ }

def step (d : CliNode) : CliLabel → Option CliNode
  -- the receive loop is busy while it starts a process
  | .hear m nowSecs => if d.starting.isSome then none else some (d.handleHubMessage nowSecs m)
  | .start => d.starting.map d.startProcess
  | .acknowledge i =>
      match d.tasks[i]? with
      | some ⟨some c, work⟩ =>
          match d.outbox.ack c with
          | some send => some { d.become i work with handed := d.handed ++ [send] }
          | none => some { d.become i work with lost := d.lost ++ [c] }
      | _ => none
  | .emit i eventId now =>
      match d.tasks[i]? with
      | some ⟨none, .emit (n :: rest)⟩ =>
          let (outbox, send) := d.outbox.emitDraft eventId (n.draft d.nodeId now)
          some { d.become i (.emit rest) with
            outbox := outbox, handed := d.handed ++ send.toList }
      | _ => none
  | .launch i =>
      match d.tasks[i]? with
      | some ⟨none, .update c version⟩ =>
          let d := d.become i (.emit [])
          some (if validVersion version then d.effect c (.updated version) else d)
      | _ => none
  | .join i result =>
      match d.tasks[i]? with
      | some ⟨none, .supervise c runId taskId⟩ =>
          some ((d.become i (.emit (endNotices taskId runId (d.state.interrupted runId) result))).finish
            c runId result)
      | _ => none
  | .attach tx =>
      some { d with
        outbox := (d.outbox.attach tx).1, handed := d.handed ++ [(tx, (d.outbox.attach tx).2)] }
  | .detach => some { d with outbox := d.outbox.detach }
  | .resend => some { d with handed := d.handed ++ d.outbox.resendPending.toList }

/-- A node process that has just started. -/
def fresh (config : CliEngineConfig) (nodeId : NodeId) : CliNode where
  config := config
  nodeId := nodeId
  state := ⟨fun _ => none, fun _ => none, fun _ => none, fun _ => none, fun _ => false,
    fun _ => false⟩
  outbox := .persistent
  starting := none
  tasks := []
  handed := []
  effects := []
  terminated := []
  heard := []
  stale := []
  lost := []

def system : System CliNode CliLabel where
  init d := ∃ config nodeId, d = fresh config nodeId
  step := step

end CliNode

end Stackhour.Node
