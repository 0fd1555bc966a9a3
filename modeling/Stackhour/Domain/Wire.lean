import Stackhour.Core.JsonCompact
import Stackhour.Domain.Protocol
import Stackhour.Domain.StoreSpec
import Stackhour.Lib.Records

/-!
# The wire form of messages

What serde's derives write for the messages of `protocol.rs` and read of them: objects
with a `type` field, options that are left out when there is nothing in them. Ids are
written as their text; reading ids and times is the `uuid` and `chrono` crates', which
are parameters.
-/

namespace Stackhour.Domain

open Records

/-- `Uuid::parse_str`, and the serde form of `DateTime<Utc>`. -/
structure Crates where
  parseUuid : String → Option Uuid
  printTime : DateTime → String
  parseTime : String → Option DateTime

/-- The crates read what they write. -/
structure Crates.Lawful (cr : Crates) : Prop where
  uuid : ∀ u, cr.parseUuid (Store.uuidText u) = some u
  time : ∀ t : DateTime, t.Readable → cr.parseTime (cr.printTime t) = some t

/-- `EventKind::as_str`, the same as its serde names. -/
def EventKind.asStr : EventKind → String
  | .taskCreated => "task.created"
  | .runStarted => "run.started"
  | .runInterrupted => "run.interrupted"
  | .runCompleted => "run.completed"
  | .runFailed => "run.failed"
  | .messageUser => "message.user"
  | .messageAssistantDelta => "message.assistant.delta"
  | .messageAssistantCompleted => "message.assistant.completed"
  | .approvalRequested => "approval.requested"
  | .approvalResolved => "approval.resolved"
  | .nodeConnected => "node.connected"
  | .nodeDisconnected => "node.disconnected"

/-- `EventKind::ALL`. -/
def EventKind.all : List EventKind :=
  [.taskCreated, .runStarted, .runInterrupted, .runCompleted, .runFailed, .messageUser,
    .messageAssistantDelta, .messageAssistantCompleted, .approvalRequested, .approvalResolved,
    .nodeConnected, .nodeDisconnected]

namespace Wire

/-! ## Values -/

def string : Codec Json String := ⟨.string, Json.asStr⟩

def bool : Codec Json Bool := ⟨.bool, Json.asBool⟩

def i64 : Codec Json ℤ := ⟨fun n => .number (.int n), Json.asI64⟩

/-- `Value`, which is any document. -/
def value : Codec Json Json := ⟨id, some⟩

def isNull : Json → Bool
  | .null => true
  | _ => false

/-- The fields of an object. -/
def fieldsOf : Json → Option Fields
  | .object fields => some fields
  | _ => none

def nodeId : Codec Json NodeId := string.map NodeId.mk NodeId.name

def accessPolicy : Codec Json AccessPolicy :=
  string.named [.supervised, .automatic, .fullAccess] AccessPolicy.asStr

def decision : Codec Json Decision := string.named [.pending, .allowed, .denied] Decision.asStr

def kind : Codec Json EventKind := string.named EventKind.all EventKind.asStr

section Crates

variable (cr : Crates)

def uuid : Codec Json Uuid :=
  ⟨fun u => .string (Store.uuidText u), fun v => v.asStr.bind cr.parseUuid⟩

def time : Codec Json DateTime :=
  ⟨fun t => .string (cr.printTime t), fun v => v.asStr.bind cr.parseTime⟩

def taskId : Codec Json TaskId := (uuid cr).map TaskId.mk TaskId.uuid

def runId : Codec Json RunId := (uuid cr).map RunId.mk RunId.uuid

def eventId : Codec Json EventId := (uuid cr).map EventId.mk EventId.uuid

def commandId : Codec Json CommandId := (uuid cr).map CommandId.mk CommandId.uuid

def approvalId : Codec Json ApprovalId := (uuid cr).map ApprovalId.mk ApprovalId.uuid

end Crates

/-! ## Structs -/

/-- The tag of an enum. -/
def tag (name : String) : Slot String Json := .must "type" string name

/-- An object of a struct's fields. -/
def object {α : Type} (slots : α → List (Slot String Json)) (read : Fields → Option α) :
    Codec Json α :=
  ⟨fun a => .object (write .null (slots a)), fun v => (fieldsOf v).bind read⟩

def option {α : Type} (c : Codec Json α) (k : String) (fields : Fields) : Option (Option α) :=
  optionalField c isNull k fields

variable (cr : Crates)

/-! ### `ProtocolError` -/

def errorSlots : ProtocolError → List (Slot String Json)
  | .versionMismatch client hub =>
      [tag "version_mismatch", .must "client" i64 client, .must "hub" i64 hub]
  | .unauthenticated => [tag "unauthenticated"]
  | .unknownTask id => [tag "unknown_task", .must "task_id" (taskId cr) id]
  | .unknownRun id => [tag "unknown_run", .must "run_id" (runId cr) id]
  | .noEligibleNode engine node =>
      [tag "no_eligible_node", .must "engine" string engine, .skip "node_id" nodeId node]
  | .unknownApproval id => [tag "unknown_approval", .must "approval_id" (approvalId cr) id]
  | .expired => [tag "expired"]
  | .invalidRequest message => [tag "invalid_request", .must "message" string message]

def readError (fields : Fields) : Option ProtocolError := do
  let name ← required string "type" fields
  if name = "version_mismatch" then
    let client ← required i64 "client" fields
    let hub ← required i64 "hub" fields
    pure (.versionMismatch client hub)
  else if name = "unauthenticated" then pure .unauthenticated
  else if name = "unknown_task" then (required (taskId cr) "task_id" fields).map .unknownTask
  else if name = "unknown_run" then (required (runId cr) "run_id" fields).map .unknownRun
  else if name = "no_eligible_node" then
    let engine ← required string "engine" fields
    let node ← option nodeId "node_id" fields
    pure (.noEligibleNode engine node)
  else if name = "unknown_approval" then
    (required (approvalId cr) "approval_id" fields).map .unknownApproval
  else if name = "expired" then pure .expired
  else if name = "invalid_request" then (required string "message" fields).map .invalidRequest
  else none

def error : Codec Json ProtocolError := object (errorSlots cr) (readError cr)

/-! ### `ClientCommand` -/

def commandSlots : ClientCommand → List (Slot String Json)
  | .createTask c title =>
      [tag "create_task", .must "command_id" (commandId cr) c, .must "title" string title]
  | .sendUserMessage c task run text message =>
      [tag "send_user_message", .must "command_id" (commandId cr) c,
        .must "task_id" (taskId cr) task, .skip "run_id" (runId cr) run, .must "text" string text,
        .must "client_message_id" string message]
  | .startRun c task node engine model effort prompt policy path =>
      [tag "start_run", .must "command_id" (commandId cr) c, .must "task_id" (taskId cr) task,
        .skip "node_id" nodeId node, .must "engine" string engine, .skip "model" string model,
        .skip "reasoning_effort" string effort, .skip "system_prompt" string prompt,
        .must "access_policy" accessPolicy policy, .skip "workspace_path" string path]
  | .interruptRun c run =>
      [tag "interrupt_run", .must "command_id" (commandId cr) c, .must "run_id" (runId cr) run]
  | .resolveApproval c approval d actor =>
      [tag "resolve_approval", .must "command_id" (commandId cr) c,
        .must "approval_id" (approvalId cr) approval, .must "decision" decision d,
        .must "actor" string actor]

def readCommand (fields : Fields) : Option ClientCommand := do
  let name ← required string "type" fields
  if name = "create_task" then
    let c ← required (commandId cr) "command_id" fields
    let title ← required string "title" fields
    pure (.createTask c title)
  else if name = "send_user_message" then
    let c ← required (commandId cr) "command_id" fields
    let task ← required (taskId cr) "task_id" fields
    let run ← option (runId cr) "run_id" fields
    let text ← required string "text" fields
    let message ← required string "client_message_id" fields
    pure (.sendUserMessage c task run text message)
  else if name = "start_run" then
    let c ← required (commandId cr) "command_id" fields
    let task ← required (taskId cr) "task_id" fields
    let node ← option nodeId "node_id" fields
    let engine ← required string "engine" fields
    let model ← option string "model" fields
    let effort ← option string "reasoning_effort" fields
    let prompt ← option string "system_prompt" fields
    let policy ← required accessPolicy "access_policy" fields
    let path ← option string "workspace_path" fields
    pure (.startRun c task node engine model effort prompt policy path)
  else if name = "interrupt_run" then
    let c ← required (commandId cr) "command_id" fields
    let run ← required (runId cr) "run_id" fields
    pure (.interruptRun c run)
  else if name = "resolve_approval" then
    let c ← required (commandId cr) "command_id" fields
    let approval ← required (approvalId cr) "approval_id" fields
    let d ← required decision "decision" fields
    let actor ← required string "actor" fields
    pure (.resolveApproval c approval d actor)
  else none

def command : Codec Json ClientCommand :=
  object (commandSlots cr) (readCommand cr)

/-! ### `NodeWork` and `HubToNode` -/

def workSlots : NodeWork → List (Slot String Json)
  | .startRun run task engine model effort prompt policy path =>
      [tag "start_run", .must "run_id" (runId cr) run, .must "task_id" (taskId cr) task,
        .must "engine" string engine, .skip "model" string model,
        .skip "reasoning_effort" string effort, .skip "system_prompt" string prompt,
        .must "access_policy" accessPolicy policy, .skip "workspace_path" string path]
  | .sendPrompt task run text message =>
      [tag "send_prompt", .must "task_id" (taskId cr) task, .must "run_id" (runId cr) run,
        .must "text" string text, .must "client_message_id" string message]
  | .interruptRun run => [tag "interrupt_run", .must "run_id" (runId cr) run]
  | .update version => [tag "update", .must "version" string version]

def readWork (fields : Fields) : Option NodeWork := do
  let name ← required string "type" fields
  if name = "start_run" then
    let run ← required (runId cr) "run_id" fields
    let task ← required (taskId cr) "task_id" fields
    let engine ← required string "engine" fields
    let model ← option string "model" fields
    let effort ← option string "reasoning_effort" fields
    let prompt ← option string "system_prompt" fields
    let policy ← required accessPolicy "access_policy" fields
    let path ← option string "workspace_path" fields
    pure (.startRun run task engine model effort prompt policy path)
  else if name = "send_prompt" then
    let task ← required (taskId cr) "task_id" fields
    let run ← required (runId cr) "run_id" fields
    let text ← required string "text" fields
    let message ← required string "client_message_id" fields
    pure (.sendPrompt task run text message)
  else if name = "interrupt_run" then (required (runId cr) "run_id" fields).map .interruptRun
  else if name = "update" then (required string "version" fields).map .update
  else none

def work : Codec Json NodeWork := object (workSlots cr) (readWork cr)

def hubToNodeSlots : HubToNode → List (Slot String Json)
  | .dispatchCommand c expires w =>
      [tag "dispatch_command", .must "command_id" (commandId cr) c,
        .skip "expires_at" (time cr) expires, .must "work" (work cr) w]
  | .approvalDecision approval d actor =>
      [tag "approval_decision", .must "approval_id" (approvalId cr) approval,
        .must "decision" decision d, .must "actor" string actor]
  | .cancelCommand c => [tag "cancel_command", .must "command_id" (commandId cr) c]
  | .eventAck id => [tag "event_ack", .must "event_id" (eventId cr) id]
  | .heartbeat => [tag "heartbeat"]

def readHubToNode (fields : Fields) : Option HubToNode := do
  let name ← required string "type" fields
  if name = "dispatch_command" then
    let c ← required (commandId cr) "command_id" fields
    let expires ← option (time cr) "expires_at" fields
    let w ← required (work cr) "work" fields
    pure (.dispatchCommand c expires w)
  else if name = "approval_decision" then
    let approval ← required (approvalId cr) "approval_id" fields
    let d ← required decision "decision" fields
    let actor ← required string "actor" fields
    pure (.approvalDecision approval d actor)
  else if name = "cancel_command" then
    (required (commandId cr) "command_id" fields).map .cancelCommand
  else if name = "event_ack" then (required (eventId cr) "event_id" fields).map .eventAck
  else if name = "heartbeat" then pure .heartbeat
  else none

def hubToNode : Codec Json HubToNode :=
  object (hubToNodeSlots cr) (readHubToNode cr)

/-! ### Events and `NodeToHub` -/

def draftSlots (d : EventDraft) : List (Slot String Json) :=
  [.must "kind" kind d.kind, .must "task_id" (taskId cr) d.taskId,
    .nullable "run_id" (runId cr) d.runId,
    .nullable "provider_session_id" string d.providerSessionId,
    .must "node_id" nodeId d.nodeId, .must "protocol_version" i64 d.protocolVersion,
    .must "occurred_at" (time cr) d.occurredAt, .must "payload" value d.payload]

def readDraft (fields : Fields) : Option EventDraft := do
  let k ← required kind "kind" fields
  let task ← required (taskId cr) "task_id" fields
  let run ← option (runId cr) "run_id" fields
  let session ← option string "provider_session_id" fields
  let node ← required nodeId "node_id" fields
  let version ← required i64 "protocol_version" fields
  let occurred ← required (time cr) "occurred_at" fields
  let payload ← required value "payload" fields
  pure ⟨k, task, run, session, node, version, occurred, payload⟩

def draft : Codec Json EventDraft := object (draftSlots cr) (readDraft cr)

def eventSlots (e : Event) : List (Slot String Json) :=
  [.must "sequence" i64 e.sequence, .must "event_id" (eventId cr) e.eventId,
    .nullable "command_id" (commandId cr) e.commandId, .must "kind" kind e.kind,
    .must "task_id" (taskId cr) e.taskId, .nullable "run_id" (runId cr) e.runId,
    .nullable "provider_session_id" string e.providerSessionId,
    .must "node_id" nodeId e.nodeId, .must "protocol_version" i64 e.protocolVersion,
    .must "occurred_at" (time cr) e.occurredAt, .must "hub_received_at" (time cr) e.hubReceivedAt,
    .must "payload" value e.payload]

def readEvent (fields : Fields) : Option Event := do
  let sequence ← required i64 "sequence" fields
  let id ← required (eventId cr) "event_id" fields
  let c ← option (commandId cr) "command_id" fields
  let k ← required kind "kind" fields
  let task ← required (taskId cr) "task_id" fields
  let run ← option (runId cr) "run_id" fields
  let session ← option string "provider_session_id" fields
  let node ← required nodeId "node_id" fields
  let version ← required i64 "protocol_version" fields
  let occurred ← required (time cr) "occurred_at" fields
  let received ← required (time cr) "hub_received_at" fields
  let payload ← required value "payload" fields
  pure ⟨sequence, id, c, k, task, run, session, node, version, occurred, received, payload⟩

def event : Codec Json Event := object (eventSlots cr) (readEvent cr)

def nodeToHubSlots : NodeToHub → List (Slot String Json)
  | .nodeEvent id d =>
      [tag "node_event", .must "event_id" (eventId cr) id, .must "draft" (draft cr) d]
  | .commandAck c => [tag "command_ack", .must "command_id" (commandId cr) c]
  | .heartbeat => [tag "heartbeat"]

def readNodeToHub (fields : Fields) : Option NodeToHub := do
  let name ← required string "type" fields
  if name = "node_event" then
    let id ← required (eventId cr) "event_id" fields
    let d ← required (draft cr) "draft" fields
    pure (.nodeEvent id d)
  else if name = "command_ack" then
    (required (commandId cr) "command_id" fields).map .commandAck
  else if name = "heartbeat" then pure .heartbeat
  else none

def nodeToHub : Codec Json NodeToHub :=
  object (nodeToHubSlots cr) (readNodeToHub cr)

/-! ### `HubToClient` -/

def hubToClientSlots : HubToClient → List (Slot String Json)
  | .commandReceipt r =>
      [tag "command_receipt", .must "command_id" (commandId cr) r.commandId,
        .must "accepted" bool r.accepted, .skip "assigned_sequence" i64 r.assignedSequence,
        .skip "event_id" (eventId cr) r.eventId, .skip "error" (error cr) r.error]
  | .eventDelivery e => [tag "event_delivery", .must "event" (event cr) e]
  | .subscribeAck after head =>
      [tag "subscribe_ack", .skip "after_sequence" i64 after, .must "head_sequence" i64 head]
  | .heartbeat => [tag "heartbeat"]

def readHubToClient (fields : Fields) : Option HubToClient := do
  let name ← required string "type" fields
  if name = "command_receipt" then
    let c ← required (commandId cr) "command_id" fields
    let accepted ← required bool "accepted" fields
    let sequence ← option i64 "assigned_sequence" fields
    let id ← option (eventId cr) "event_id" fields
    let e ← option (error cr) "error" fields
    pure (.commandReceipt ⟨c, accepted, sequence, id, e⟩)
  else if name = "event_delivery" then
    (required (event cr) "event" fields).map .eventDelivery
  else if name = "subscribe_ack" then
    let after ← option i64 "after_sequence" fields
    let head ← required i64 "head_sequence" fields
    pure (.subscribeAck after head)
  else if name = "heartbeat" then pure .heartbeat
  else none

def hubToClient : Codec Json HubToClient :=
  object (hubToClientSlots cr) (readHubToClient cr)

/-! ### The handshakes -/

def subscribeSlots (s : Subscribe) : List (Slot String Json) :=
  [.skip "token" string s.token, .skip "after_sequence" i64 s.afterSequence]

def readSubscribe (fields : Fields) : Option Subscribe := do
  let token ← option string "token" fields
  let after ← option i64 "after_sequence" fields
  pure ⟨token, after⟩

def subscribe : Codec Json Subscribe := object subscribeSlots readSubscribe

def helloSlots (h : NodeHello) : List (Slot String Json) :=
  [.must "node_id" nodeId h.nodeId, .must "token" string h.token,
    .must "software_version" string h.softwareVersion,
    .must "protocol_version" i64 h.protocolVersion, .must "capabilities" value h.capabilities,
    .skip "resume_after_sequence" i64 h.resumeAfterSequence]

def readHello (fields : Fields) : Option NodeHello := do
  let node ← required nodeId "node_id" fields
  let token ← required string "token" fields
  let software ← required string "software_version" fields
  let version ← required i64 "protocol_version" fields
  let capabilities ← required value "capabilities" fields
  let resume ← option i64 "resume_after_sequence" fields
  pure ⟨node, token, software, version, capabilities, resume⟩

def hello : Codec Json NodeHello := object helloSlots readHello

def welcomeSlots (w : HubWelcome) : List (Slot String Json) :=
  [.must "accepted" bool w.accepted, .must "protocol_version" i64 w.protocolVersion,
    .skip "error" (error cr) w.error]

def readWelcome (fields : Fields) : Option HubWelcome := do
  let accepted ← required bool "accepted" fields
  let version ← required i64 "protocol_version" fields
  let e ← option (error cr) "error" fields
  pure ⟨accepted, version, e⟩

def welcome : Codec Json HubWelcome :=
  object (welcomeSlots cr) (readWelcome cr)

end Wire

end Stackhour.Domain
