import Mathlib.Algebra.Group.Int.Defs
import Mathlib.Data.List.Sort
import Stackhour.Domain.Protocol
import Stackhour.Lib.Result
import Stackhour.Lib.Table

/-!
# The control-plane store

The tables of the hub database and the operations of the `Hub` API over them.

An operation takes what it reads from outside its arguments as a `CallEnv`: the
clock, the id it mints, and whether the database engine refuses the call.
Every operation that writes is one transaction, so it returns the new store only
with `ok`; with `error` the transaction has been rolled back and the caller goes
on with the store it had.
-/

namespace Stackhour.Domain

/-! ## Rows -/

structure ReceiptRow where
  commandId : CommandId
  sequence : ℤ
  eventId : EventId
  receivedAt : String
deriving DecidableEq

/-- A hub-to-node command; it is pending while `ackedAt` is null. -/
structure DispatchRow where
  commandId : CommandId
  nodeId : NodeId
  message : HubToNode
  createdAt : String
  ackedAt : Option String
deriving DecidableEq

structure SettingRow where
  key : String
  value : Json
  updatedAt : String

structure WorkerRow where
  taskId : TaskId
  channel : String
  createdAt : String

structure WakeRow where
  eventId : EventId
  sequence : ℤ
  channel : String
  taskId : TaskId
  runId : RunId
  kind : EventKind
  createdAt : String
  attemptCount : ℤ
  nextAttemptAt : String
  lastError : Option String
  processedAt : Option String

/-- The durable control-plane store. -/
structure Store where
  migrations : List (ℤ × String)
  events : List EventRow
  receipts : List ReceiptRow
  tasks : List TaskRow
  runs : List RunRow
  approvals : List ApprovalRow
  nodes : List Node
  dispatches : List DispatchRow
  settings : List SettingRow
  workers : List WorkerRow
  wakes : List WakeRow

/-! ## Errors and the environment of a call -/

structure Error where
  message : String
deriving DecidableEq

/-- What a call reads from outside its arguments. A `refusal` is the engine's
message for a call it does not let through (a busy lock, an I/O error, a
failed commit). -/
structure CallEnv where
  now : DateTime
  uuid : Uuid
  refusal : Option String

def CallEnv.admit (env : CallEnv) : Except Error Unit :=
  match env.refusal with
  | none => .ok ()
  | some m => .error ⟨m⟩

theorem CallEnv.admit_eq_ok {env : CallEnv} {u : Unit} :
    env.admit = .ok u ↔ env.refusal = none := by
  unfold CallEnv.admit
  cases env.refusal <;> simp

def uniqueFailed (column : String) : Error :=
  ⟨"UNIQUE constraint failed: " ++ column⟩

/-- A column text that does not convert, as `conv_err` reports it. -/
def convErr (message : String) : Error :=
  ⟨"Conversion error from type Text at index: 0, " ++ message⟩

/-- Read a timestamp column. The only stored texts that do not parse carry a
sign before the year. -/
def readTime (text : String) : Except Error DateTime :=
  Result.ofOption
    (convErr ("bad timestamp \"" ++ text ++ "\": input contains invalid characters"))
    (parseTime text)

/-! ## Outcomes and writes -/

/-- The outcome of an append: the assigned, or already stored, sequence and
event id, and whether this call created the event. -/
structure AppendOutcome where
  sequence : ℤ
  eventId : EventId
  created : Bool
deriving DecidableEq

/-- A durable entity a client command mints alongside its event. -/
inductive EntityWrite where
  | none
  | task (task : Task)
  | run (run : Run)

structure PendingDispatch where
  commandId : CommandId
  nodeId : NodeId
  message : HubToNode
  createdAt : DateTime

structure AssistantWake where
  eventId : EventId
  sequence : ℤ
  channel : String
  taskId : TaskId
  runId : RunId
  kind : EventKind
  attemptCount : ℤ

def TaskOf.toRow (t : Task) : TaskRow := { t with createdAt := fmtTime t.createdAt }

def RunOf.toRow (r : Run) : RunRow := { r with startedAt := fmtTime r.startedAt }

def ApprovalOf.toRow (a : Approval) : ApprovalRow :=
  { a with
    expiresAt := a.expiresAt.map fmtTime
    createdAt := fmtTime a.createdAt
    resolvedAt := a.resolvedAt.map fmtTime }

/-- `row_to_event`. -/
def rowToEvent (row : EventRow) : Except Error Event := do
  let occurredAt ← readTime row.occurredAt
  let hubReceivedAt ← readTime row.hubReceivedAt
  pure { row with occurredAt := occurredAt, hubReceivedAt := hubReceivedAt }

/-- `row_to_task`. -/
def rowToTask (row : TaskRow) : Except Error Task := do
  let createdAt ← readTime row.createdAt
  pure { row with createdAt := createdAt }

/-- `row_to_run`. -/
def rowToRun (row : RunRow) : Except Error Run := do
  let startedAt ← readTime row.startedAt
  pure { row with startedAt := startedAt }

/-- `row_to_approval`. -/
def rowToApproval (row : ApprovalRow) : Except Error Approval := do
  let expiresAt ← row.expiresAt.mapM readTime
  let createdAt ← readTime row.createdAt
  let resolvedAt ← row.resolvedAt.mapM readTime
  pure { row with expiresAt := expiresAt, createdAt := createdAt, resolvedAt := resolvedAt }

namespace Store

/-! ## Sequence assignment and event rows -/

/-- The largest sequence, `0` when the log is empty. -/
def maxSequence (s : Store) : ℤ := (s.events.map EventOf.sequence).max?.getD 0

/-- `next_sequence`. Past the largest 64-bit integer SQLite's sum is a float,
which does not read back as an integer. -/
def nextSequence (s : Store) : Except Error ℤ :=
  if s.maxSequence + 1 < 2 ^ 63 then .ok (s.maxSequence + 1)
  else .error
    ⟨"Invalid column type Real at index: 0, name: COALESCE(MAX(sequence), 0) + 1"⟩

/-- The row an append writes. -/
def eventRow (sequence : ℤ) (eventId : EventId) (commandId : Option CommandId)
    (draft : EventDraft) (receivedAt : DateTime) : EventRow where
  sequence := sequence
  eventId := eventId
  commandId := commandId
  kind := draft.kind
  taskId := draft.taskId
  runId := draft.runId
  providerSessionId := draft.providerSessionId
  nodeId := draft.nodeId
  protocolVersion := draft.protocolVersion
  occurredAt := fmtTime draft.occurredAt
  hubReceivedAt := fmtTime receivedAt
  payload := draft.payload

/-- `insert_event`: the sequence is the primary key and the event id unique. -/
def insertEvent (s : Store) (row : EventRow) : Except Error Store :=
  if row.sequence ∈ s.events.map EventOf.sequence then .error (uniqueFailed "events.sequence")
  else if row.eventId ∈ s.events.map EventOf.eventId then .error (uniqueFailed "events.event_id")
  else .ok { s with events := s.events ++ [row] }

def insertReceipt (s : Store) (row : ReceiptRow) : Except Error Store := do
  let receipts ← Result.ofOption (uniqueFailed "command_receipts.command_id")
    (Table.insert ReceiptRow.commandId row s.receipts)
  pure { s with receipts := receipts }

/-! ## Tasks and runs -/

/-- `insert_task_row`. -/
def insertTaskRow (s : Store) (task : Task) : Except Error Store := do
  let tasks ← Result.ofOption (uniqueFailed "tasks.task_id")
    (Table.insert TaskOf.id task.toRow s.tasks)
  pure { s with tasks := tasks }

/-- `insert_run_row`. -/
def insertRunRow (s : Store) (run : Run) : Except Error Store := do
  let runs ← Result.ofOption (uniqueFailed "runs.run_id")
    (Table.insert RunOf.id run.toRow s.runs)
  pure { s with runs := runs }

def setTaskStatus (s : Store) (id : TaskId) (status : TaskStatus) : Store :=
  { s with tasks := Table.update TaskOf.id id (fun t => { t with status := status }) s.tasks }

def setRunStatus (s : Store) (id : RunId) (status : RunStatus) : Store :=
  { s with runs := Table.update RunOf.id id (fun r => { r with status := status }) s.runs }

/-- Write the entity of a command: a task row, or a run row with its task
marked running. -/
def writeEntity (s : Store) : EntityWrite → Except Error Store
  | .none => .ok s
  | .task task => s.insertTaskRow task
  | .run run => do
      let s ← s.insertRunRow run
      pure (s.setTaskStatus run.taskId .running)

/-! ## Appending -/

def insertDispatch (s : Store) (commandId : CommandId) (receivedAt : DateTime) :
    Option (NodeId × HubToNode) → Except Error Store
  | none => .ok s
  | some (nodeId, message) => do
      let dispatches ← Result.ofOption (uniqueFailed "pending_dispatches.command_id")
        (Table.insert DispatchRow.commandId
          ⟨commandId, nodeId, message, fmtTime receivedAt, none⟩ s.dispatches)
      pure { s with dispatches := dispatches }

/-- `append_command_bundle`: an event, its receipt, its entity and its node
dispatch in one transaction. A command that has a receipt gets it back and
writes nothing. -/
def appendCommandBundle (env : CallEnv) (s : Store) (commandId : CommandId)
    (draft : EventDraft) (entity : EntityWrite) (dispatch : Option (NodeId × HubToNode)) :
    Except Error (Store × AppendOutcome) := do
  env.admit
  match Table.lookup ReceiptRow.commandId s.receipts commandId with
  | some r => pure (s, ⟨r.sequence, r.eventId, false⟩)
  | none =>
      let eventId : EventId := ⟨env.uuid⟩
      let sequence ← s.nextSequence
      let s ← s.insertEvent (eventRow sequence eventId (some commandId) draft env.now)
      let s ← s.insertReceipt ⟨commandId, sequence, eventId, fmtTime env.now⟩
      let s ← s.writeEntity entity
      let s ← s.insertDispatch commandId env.now dispatch
      pure (s, ⟨sequence, eventId, true⟩)

/-- `append_command_with`. -/
def appendCommandWith (env : CallEnv) (s : Store) (commandId : CommandId)
    (draft : EventDraft) (entity : EntityWrite) : Except Error (Store × AppendOutcome) :=
  s.appendCommandBundle env commandId draft entity none

/-- `append_command`. -/
def appendCommand (env : CallEnv) (s : Store) (commandId : CommandId)
    (draft : EventDraft) : Except Error (Store × AppendOutcome) :=
  s.appendCommandWith env commandId draft .none

/-- The statuses a terminal event stands for, and whether it wakes the
assistant that owns the task. -/
def terminalOf : EventKind → Option (RunStatus × TaskStatus × Bool)
  | .runCompleted => some (.completed, .completed, true)
  | .runFailed => some (.failed, .failed, true)
  | .runInterrupted => some (.interrupted, .interrupted, false)
  | _ => none

def insertWake (s : Store) (row : WakeRow) : Except Error Store :=
  if row.eventId ∈ s.wakes.map WakeRow.eventId then
    .error (uniqueFailed "assistant_wakes.event_id")
  else if row.sequence ∈ s.wakes.map WakeRow.sequence then
    .error (uniqueFailed "assistant_wakes.sequence")
  else .ok { s with wakes := s.wakes ++ [row] }

/-- `apply_terminal_lifecycle_and_wake`. -/
def applyTerminalLifecycleAndWake (s : Store) (eventId : EventId) (sequence : ℤ)
    (draft : EventDraft) (receivedAt : DateTime) : Except Error Store :=
  match terminalOf draft.kind, draft.runId with
  | some (runStatus, taskStatus, wakesAssistant), some runId =>
      let s := (s.setRunStatus runId runStatus).setTaskStatus draft.taskId taskStatus
      if wakesAssistant then
        match Table.lookup WorkerRow.taskId s.workers draft.taskId with
        | some worker =>
            s.insertWake
              { eventId := eventId
                sequence := sequence
                channel := worker.channel
                taskId := draft.taskId
                runId := runId
                kind := draft.kind
                createdAt := fmtTime receivedAt
                attemptCount := 0
                nextAttemptAt := fmtTime receivedAt
                lastError := none
                processedAt := none }
        | none => .ok s
      else .ok s
  | _, _ => .ok s

/-- `append_node_event`: de-duplicated by the event id before a sequence is
assigned. -/
def appendNodeEvent (env : CallEnv) (s : Store) (eventId : EventId) (draft : EventDraft) :
    Except Error (Store × AppendOutcome) := do
  env.admit
  match Table.lookup EventOf.eventId s.events eventId with
  | some row => pure (s, ⟨row.sequence, eventId, false⟩)
  | none =>
      let sequence ← s.nextSequence
      let s ← s.insertEvent (eventRow sequence eventId none draft env.now)
      let s ← s.applyTerminalLifecycleAndWake eventId sequence draft env.now
      pure (s, ⟨sequence, eventId, true⟩)

/-! ## Reading the log -/

/-- `head_sequence`. -/
def headSequence (env : CallEnv) (s : Store) : Except Error ℤ := do
  env.admit
  pure s.maxSequence

/-- `command_outcome`. -/
def commandOutcome (env : CallEnv) (s : Store) (commandId : CommandId) :
    Except Error (Option AppendOutcome) := do
  env.admit
  pure ((Table.lookup ReceiptRow.commandId s.receipts commandId).map
    (fun r => ⟨r.sequence, r.eventId, false⟩))

/-- `events_after`: the tail above a cursor, ascending. -/
def eventsAfter (env : CallEnv) (s : Store) (after : ℤ) : Except Error (List Event) := do
  env.admit
  ((s.events.filter (fun e : EventRow => decide (after < e.sequence))).insertionSort
    (fun a b : EventRow => a.sequence ≤ b.sequence)).mapM rowToEvent

/-! ## Dispatches -/

def rowToPendingDispatch (row : DispatchRow) : Except Error PendingDispatch := do
  let createdAt ← readTime row.createdAt
  pure ⟨row.commandId, row.nodeId, row.message, createdAt⟩

/-- `pending_dispatches`: the unacknowledged dispatches of a node in creation
order. -/
def pendingDispatches (env : CallEnv) (s : Store) (nodeId : NodeId) :
    Except Error (List PendingDispatch) := do
  env.admit
  (s.dispatches.filter (fun d => decide (d.nodeId = nodeId ∧ d.ackedAt = none))).mapM
    rowToPendingDispatch

/-- Set `acked_at` on the unacknowledged rows a predicate selects; `true` when
exactly one was. -/
def ackWhere (env : CallEnv) (s : Store) (p : DispatchRow → Bool) :
    Except Error (Store × Bool) := do
  env.admit
  let hit := fun d : DispatchRow => p d && decide (d.ackedAt = none)
  pure ({ s with
      dispatches := s.dispatches.map
        (fun d => if hit d then { d with ackedAt := some (fmtTime env.now) } else d) },
    decide (s.dispatches.countP hit = 1))

/-- `acknowledge_dispatch`. -/
def acknowledgeDispatch (env : CallEnv) (s : Store) (commandId : CommandId) :
    Except Error (Store × Bool) :=
  s.ackWhere env (fun d => decide (d.commandId = commandId))

/-- `acknowledge_dispatch_from`. -/
def acknowledgeDispatchFrom (env : CallEnv) (s : Store) (commandId : CommandId)
    (nodeId : NodeId) : Except Error (Store × Bool) :=
  s.ackWhere env (fun d => decide (d.commandId = commandId ∧ d.nodeId = nodeId))

/-! ## Tasks and runs -/

/-- `insert_task`. -/
def insertTask (env : CallEnv) (s : Store) (task : Task) : Except Error Store := do
  env.admit
  s.insertTaskRow task

/-- `create_task`. -/
def createTask (env : CallEnv) (s : Store) (title : String) : Except Error (Store × Task) := do
  let task : Task := ⟨⟨env.uuid⟩, title, .open, env.now⟩
  let s ← s.insertTask env task
  pure (s, task)

/-- `get_task`. -/
def getTask (env : CallEnv) (s : Store) (id : TaskId) : Except Error (Option Task) := do
  env.admit
  (Table.lookup TaskOf.id s.tasks id).mapM rowToTask

/-- `insert_run`. -/
def insertRun (env : CallEnv) (s : Store) (run : Run) : Except Error Store := do
  env.admit
  s.insertRunRow run

/-- `start_run`. -/
def startRun (env : CallEnv) (s : Store) (taskId : TaskId) (nodeId : NodeId)
    (engine : String) (accessPolicy : AccessPolicy) : Except Error (Store × Run) := do
  let run : Run :=
    { id := ⟨env.uuid⟩
      taskId := taskId
      nodeId := nodeId
      engine := engine
      model := none
      reasoningEffort := none
      systemPrompt := none
      accessPolicy := accessPolicy
      workspacePath := none
      status := .started
      startedAt := env.now }
  let s ← s.insertRun env run
  pure (s, run)

/-- `get_run`. -/
def getRun (env : CallEnv) (s : Store) (id : RunId) : Except Error (Option Run) := do
  env.admit
  (Table.lookup RunOf.id s.runs id).mapM rowToRun

/-! ## Settings and assistant workers -/

/-- Replace the row of a key, or append one: `INSERT … ON CONFLICT DO UPDATE`. -/
def upsert {ρ κ : Type} [DecidableEq κ] (key : ρ → κ) (row : ρ) (onConflict : ρ → ρ)
    (t : List ρ) : List ρ :=
  if key row ∈ t.map key then Table.update key (key row) onConflict t else t ++ [row]

/-- `get_setting`. -/
def getSetting (env : CallEnv) (s : Store) (key : String) : Except Error (Option Json) := do
  env.admit
  pure ((Table.lookup SettingRow.key s.settings key).map SettingRow.value)

/-- `put_setting`. -/
def putSetting (env : CallEnv) (s : Store) (key : String) (value : Json) :
    Except Error Store := do
  env.admit
  let row : SettingRow := ⟨key, value, fmtTime env.now⟩
  pure { s with settings := upsert SettingRow.key row (fun _ => row) s.settings }

/-- `register_assistant_worker`. -/
def registerAssistantWorker (env : CallEnv) (s : Store) (channel : String)
    (taskId : TaskId) : Except Error Store := do
  env.admit
  let row : WorkerRow := ⟨taskId, channel, fmtTime env.now⟩
  pure { s with
    workers := upsert WorkerRow.taskId row (fun w => { w with channel := channel }) s.workers }

/-! ## Assistant wakes -/

/-- `pending_assistant_wakes`: the due, unprocessed wakes of a channel, oldest
first. Timestamps are compared as texts. -/
def pendingAssistantWakes (env : CallEnv) (s : Store) (channel : String) :
    Except Error (List AssistantWake) := do
  env.admit
  pure (((s.wakes.filter (fun w => decide (w.channel = channel ∧ w.processedAt = none ∧
    w.nextAttemptAt ≤ fmtTime env.now))).insertionSort
      (fun a b : WakeRow => a.sequence ≤ b.sequence)).map
    (fun w => ⟨w.eventId, w.sequence, w.channel, w.taskId, w.runId, w.kind, w.attemptCount⟩))

/-- The unprocessed wake of an event. -/
def openWake (eventId : EventId) (w : WakeRow) : Bool :=
  decide (w.eventId = eventId ∧ w.processedAt = none)

/-- `complete_assistant_wake`. -/
def completeAssistantWake (env : CallEnv) (s : Store) (eventId : EventId) :
    Except Error (Store × Bool) := do
  env.admit
  pure ({ s with
      wakes := s.wakes.map (fun w =>
        if openWake eventId w then { w with processedAt := some (fmtTime env.now) } else w) },
    decide (s.wakes.countP (openWake eventId) = 1))

/-- The capped exponential backoff before the `n`-th further attempt. -/
def wakeDelay (nextAttempt : ℤ) : ℕ := 5 * 2 ^ (max 0 (min 8 (nextAttempt - 1))).toNat

/-- `defer_assistant_wake`. -/
def deferAssistantWake (env : CallEnv) (s : Store) (eventId : EventId) (error : String) :
    Except Error (Store × Bool) := do
  env.admit
  match s.wakes.find? (openWake eventId) with
  | none => pure (s, false)
  | some wake =>
      let nextAttempt := wake.attemptCount + 1
      let nextAt := env.now.addSeconds (wakeDelay nextAttempt)
      pure ({ s with
          wakes := s.wakes.map (fun w =>
            if openWake eventId w then
              { w with
                attemptCount := nextAttempt
                nextAttemptAt := fmtTime nextAt
                lastError := some (String.ofList (error.toList.take 500)) }
            else w) },
        true)

/-! ## Approvals -/

/-- `request_approval`. -/
def requestApproval (env : CallEnv) (s : Store) (runId : RunId) (taskId : TaskId)
    (toolCallId scope : String) (options : List String) (expiresAt : Option DateTime) :
    Except Error (Store × Approval) := do
  let approval : Approval :=
    { id := ⟨env.uuid⟩
      runId := runId
      taskId := taskId
      toolCallId := toolCallId
      scope := scope
      options := options
      expiresAt := expiresAt
      decision := .pending
      resolvedBy := none
      createdAt := env.now
      resolvedAt := none }
  env.admit
  let approvals ← Result.ofOption (uniqueFailed "approvals.approval_id")
    (Table.insert ApprovalOf.id approval.toRow s.approvals)
  pure ({ s with approvals := approvals }, approval)

/-- The text of an id in an error message: its 32 hexadecimal digits in the
groups 8-4-4-4-12. -/
def uuidText (u : Uuid) : String :=
  let digits := (List.range 32).map (fun i =>
    "0123456789abcdef".toList.getD (u.toNat / 16 ^ (31 - i) % 16) '0')
  String.ofList (digits.take 8 ++ '-' :: (digits.drop 8).take 4 ++ '-' :: (digits.drop 12).take 4 ++
    '-' :: (digits.drop 16).take 4 ++ '-' :: digits.drop 20)

/-- `resolve_approval`: the first resolution of a pending approval wins; later
ones return it unchanged. -/
def resolveApproval (env : CallEnv) (s : Store) (approvalId : ApprovalId)
    (decision : Decision) (actor : String) (now : DateTime) :
    Except Error (Store × Approval) := do
  if decision = .pending then .error ⟨"cannot resolve an approval to pending"⟩
  else
    env.admit
    let row ← Result.ofOption ⟨"unknown approval: " ++ uuidText approvalId.uuid⟩
      (Table.lookup ApprovalOf.id s.approvals approvalId)
    let current ← rowToApproval row
    if current.isPending then
      pure ({ s with
          approvals := Table.update ApprovalOf.id approvalId
            (fun a => { a with
              decision := decision
              resolvedBy := some actor
              resolvedAt := some (fmtTime now) }) s.approvals },
        { current with
          decision := decision
          resolvedBy := some actor
          resolvedAt := some now })
    else pure (s, current)

/-- `get_approval`. -/
def getApproval (env : CallEnv) (s : Store) (id : ApprovalId) :
    Except Error (Option Approval) := do
  env.admit
  (Table.lookup ApprovalOf.id s.approvals id).mapM rowToApproval

/-! ## Nodes -/

/-- `upsert_node`. -/
def upsertNode (env : CallEnv) (s : Store) (node : Node) : Except Error Store := do
  env.admit
  pure { s with nodes := upsert Node.id node (fun _ => node) s.nodes }

/-- `get_node`. -/
def getNode (env : CallEnv) (s : Store) (id : NodeId) : Except Error (Option Node) := do
  env.admit
  pure (Table.lookup Node.id s.nodes id)

/-- `list_nodes`. -/
def listNodes (env : CallEnv) (s : Store) : Except Error (List Node) := do
  env.admit
  pure (s.nodes.insertionSort (fun a b : Node => a.id.name ≤ b.id.name))

/-! ## Opening -/

/-- The database file before its first opening. -/
def blank : Store := ⟨[], [], [], [], [], [], [], [], [], [], []⟩

/-- `MIGRATIONS`, without their SQL. -/
def allMigrations : List (ℤ × String) :=
  [(1, "create control-plane schema"),
   (2, "add run model configuration and control settings"),
   (3, "add durable assistant worker wakeups")]

/-- The recorded history is an initial part of the known migrations. -/
def checkHistory : List (ℤ × String) → List (ℤ × String) → Except Error Unit
  | [], _ => .ok ()
  | (version, _) :: _, [] => .error
      ⟨"control-plane database schema version " ++ toString version ++
        " is newer than supported version 3"⟩
  | (version, name) :: applied, (version', name') :: expected =>
      if version = version' ∧ name = name' then checkHistory applied expected
      else .error
        ⟨"invalid control-plane migration history at version " ++ toString version ++
          ": expected " ++ toString version' ++ " (\"" ++ name' ++ "\"), found " ++
          toString version ++ " (\"" ++ name ++ "\")"⟩

/-- Apply migrations one transaction each, stopping at the first the engine
refuses; those before it stay applied. -/
def applyMigrations (refusal : ℤ → Option String) (s : Store) :
    List (ℤ × String) → Store × Except Error Unit
  | [] => (s, .ok ())
  | (version, name) :: rest =>
      match refusal version with
      | some m => (s, .error ⟨"control-plane database migration " ++ toString version ++
          " (" ++ name ++ ") failed: " ++ m⟩)
      | none =>
          applyMigrations refusal { s with migrations := s.migrations ++ [(version, name)] } rest

/-- `run_migrations`, the part of `open` that touches the tables. -/
def runMigrations (refusal : ℤ → Option String) (s : Store) : Store × Except Error Unit :=
  match checkHistory s.migrations allMigrations with
  | .error e => (s, .error e)
  | .ok () => applyMigrations refusal s (allMigrations.drop s.migrations.length)

end Store

end Stackhour.Domain
