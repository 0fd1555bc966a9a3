import Mathlib.Algebra.Group.Int.Defs
import Stackhour.Domain.TimeOrder

/-!
# Identifiers, entities and events

The durable vocabulary: the newtype ids, the enumerations, and the rows of the
control-plane database.

A row type takes the type of its timestamps as a parameter. At `String` it is
the row as a table holds it, at `DateTime` the value the code works with.
Enumerations and JSON documents are held as values: their text is serde's or a
fixed token and is not modelled, except where a token goes into a payload.
-/

namespace Stackhour.Domain

/-! ## Identifiers -/

abbrev Uuid : Type := BitVec 128

structure TaskId where
  uuid : Uuid
deriving DecidableEq

structure RunId where
  uuid : Uuid
deriving DecidableEq

structure EventId where
  uuid : Uuid
deriving DecidableEq

structure CommandId where
  uuid : Uuid
deriving DecidableEq

structure ApprovalId where
  uuid : Uuid
deriving DecidableEq

/-- A caller-chosen, stable node name. -/
structure NodeId where
  name : String
deriving DecidableEq

/-! ## JSON values -/

inductive Number where
  | int (n : ℤ)
  | float (bits : BitVec 64)
deriving DecidableEq

inductive Json where
  | null
  | bool (b : Bool)
  | number (n : Number)
  | string (s : String)
  | array (items : List Json)
  | object (fields : List (String × Json))

/-- `Value::get` on an object key. -/
def Json.get (key : String) : Json → Option Json
  | .object fields => (fields.find? (fun f => decide (f.1 = key))).map Prod.snd
  | _ => none

def Json.asBool : Json → Option Bool
  | .bool b => some b
  | _ => none

/-- `as_i64`. -/
def Json.asI64 : Json → Option ℤ
  | .number (.int n) => if -2 ^ 63 ≤ n ∧ n < 2 ^ 63 then some n else none
  | _ => none

/-- `as_u64`. -/
def Json.asU64 : Json → Option ℕ
  | .number (.int n) => if 0 ≤ n ∧ n < 2 ^ 64 then some n.toNat else none
  | _ => none

def Json.asArray : Json → Option (List Json)
  | .array items => some items
  | _ => none

def Json.asStr : Json → Option String
  | .string s => some s
  | _ => none

def Json.ofOption : Option String → Json
  | none => .null
  | some s => .string s

/-! ## Statuses and policies -/

inductive ConnectionStatus where
  | connected
  | disconnected
deriving DecidableEq

inductive TaskStatus where
  | open
  | running
  | completed
  | failed
  | interrupted
deriving DecidableEq

inductive RunStatus where
  | started
  | interrupted
  | completed
  | failed
deriving DecidableEq

inductive AccessPolicy where
  | supervised
  | automatic
  | fullAccess
deriving DecidableEq

inductive Decision where
  | pending
  | allowed
  | denied
deriving DecidableEq

def AccessPolicy.asStr : AccessPolicy → String
  | .supervised => "supervised"
  | .automatic => "automatic"
  | .fullAccess => "full_access"

def Decision.asStr : Decision → String
  | .pending => "pending"
  | .allowed => "allowed"
  | .denied => "denied"

/-! ## Events -/

inductive EventKind where
  | taskCreated
  | runStarted
  | runInterrupted
  | runCompleted
  | runFailed
  | messageUser
  | messageAssistantDelta
  | messageAssistantCompleted
  | approvalRequested
  | approvalResolved
  | nodeConnected
  | nodeDisconnected
deriving DecidableEq

/-- `PROTOCOL_VERSION`. -/
def protocolVersion : ℤ := 5

/-- A caller-supplied event before the hub stamps it. -/
structure EventDraft where
  kind : EventKind
  taskId : TaskId
  runId : Option RunId
  providerSessionId : Option String
  nodeId : NodeId
  protocolVersion : ℤ
  occurredAt : DateTime
  payload : Json

/-- `EventDraft::new`; `now` is the clock reading it makes. -/
def EventDraft.new (kind : EventKind) (taskId : TaskId) (nodeId : NodeId)
    (now : DateTime) : EventDraft where
  kind := kind
  taskId := taskId
  runId := none
  providerSessionId := none
  nodeId := nodeId
  protocolVersion := Domain.protocolVersion
  occurredAt := now
  payload := .null

def EventDraft.withRun (d : EventDraft) (runId : RunId) : EventDraft :=
  { d with runId := some runId }

def EventDraft.withPayload (d : EventDraft) (payload : Json) : EventDraft :=
  { d with payload := payload }

structure EventOf (τ : Type) where
  sequence : ℤ
  eventId : EventId
  commandId : Option CommandId
  kind : EventKind
  taskId : TaskId
  runId : Option RunId
  providerSessionId : Option String
  nodeId : NodeId
  protocolVersion : ℤ
  occurredAt : τ
  hubReceivedAt : τ
  payload : Json

abbrev Event : Type := EventOf DateTime
abbrev EventRow : Type := EventOf String

/-! ## Durable entities -/

structure TaskOf (τ : Type) where
  id : TaskId
  title : String
  status : TaskStatus
  createdAt : τ

structure RunOf (τ : Type) where
  id : RunId
  taskId : TaskId
  nodeId : NodeId
  engine : String
  model : Option String
  reasoningEffort : Option String
  systemPrompt : Option String
  accessPolicy : AccessPolicy
  workspacePath : Option String
  status : RunStatus
  startedAt : τ

structure ApprovalOf (τ : Type) where
  id : ApprovalId
  runId : RunId
  taskId : TaskId
  toolCallId : String
  scope : String
  options : List String
  expiresAt : Option τ
  decision : Decision
  resolvedBy : Option String
  createdAt : τ
  resolvedAt : Option τ

abbrev Task : Type := TaskOf DateTime
abbrev TaskRow : Type := TaskOf String
abbrev Run : Type := RunOf DateTime
abbrev RunRow : Type := RunOf String
abbrev Approval : Type := ApprovalOf DateTime
abbrev ApprovalRow : Type := ApprovalOf String

/-- `Approval::is_pending`. -/
def ApprovalOf.isPending {τ : Type} (a : ApprovalOf τ) : Bool :=
  decide (a.decision = .pending)

/-- `Approval::is_expired`: past its expiry while still pending. -/
def ApprovalOf.isExpired (a : Approval) (now : DateTime) : Bool :=
  a.isPending && a.expiresAt.any (fun exp => decide (exp ≤ now))

/-- An execution location as the hub knows it; it has no timestamps. -/
structure Node where
  id : NodeId
  label : String
  status : ConnectionStatus
  softwareVersion : String
  capabilities : Json
  lastSeenSequence : Option ℤ

end Stackhour.Domain
