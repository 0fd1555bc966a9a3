import Stackhour.Domain.Entities

/-!
# Wire messages

The tagged unions clients, the hub and nodes exchange. One WebSocket text
frame carries one value.
-/

namespace Stackhour.Domain

/-- `WIRE_PROTOCOL_VERSION`. -/
def wireProtocolVersion : ℤ := protocolVersion

inductive ProtocolError where
  | versionMismatch (client hub : ℤ)
  | unauthenticated
  | unknownTask (taskId : TaskId)
  | unknownRun (runId : RunId)
  | noEligibleNode (engine : String) (nodeId : Option NodeId)
  | unknownApproval (approvalId : ApprovalId)
  | expired
  | invalidRequest (message : String)
deriving DecidableEq

/-! ## Client and hub -/

inductive ClientCommand where
  | createTask (commandId : CommandId) (title : String)
  | sendUserMessage (commandId : CommandId) (taskId : TaskId) (runId : Option RunId)
      (text : String) (clientMessageId : String)
  | startRun (commandId : CommandId) (taskId : TaskId) (nodeId : Option NodeId)
      (engine : String) (model reasoningEffort systemPrompt : Option String)
      (accessPolicy : AccessPolicy) (workspacePath : Option String)
  | interruptRun (commandId : CommandId) (runId : RunId)
  | resolveApproval (commandId : CommandId) (approvalId : ApprovalId)
      (decision : Decision) (actor : String)
deriving DecidableEq

def ClientCommand.commandId : ClientCommand → CommandId
  | .createTask c _ => c
  | .sendUserMessage c .. => c
  | .startRun c .. => c
  | .interruptRun c _ => c
  | .resolveApproval c .. => c

structure Subscribe where
  token : Option String
  afterSequence : Option ℤ

structure CommandReceipt where
  commandId : CommandId
  accepted : Bool
  assignedSequence : Option ℤ
  eventId : Option EventId
  error : Option ProtocolError
deriving DecidableEq

namespace CommandReceipt

/-- `HubToClient::accepted`. -/
def accept (commandId : CommandId) (sequence : ℤ) (eventId : EventId) : CommandReceipt :=
  ⟨commandId, true, some sequence, some eventId, none⟩

/-- `HubToClient::rejected`. -/
def reject (commandId : CommandId) (error : ProtocolError) : CommandReceipt :=
  ⟨commandId, false, none, none, some error⟩

end CommandReceipt

inductive HubToClient where
  | commandReceipt (receipt : CommandReceipt)
  | eventDelivery (event : Event)
  | subscribeAck (afterSequence : Option ℤ) (headSequence : ℤ)
  | heartbeat

/-! ## Node and hub -/

structure NodeHello where
  nodeId : NodeId
  token : String
  softwareVersion : String
  protocolVersion : ℤ
  capabilities : Json
  resumeAfterSequence : Option ℤ

/-- The hub's answer to a `NodeHello`. -/
structure HubWelcome where
  accepted : Bool
  protocolVersion : ℤ
  error : Option ProtocolError
deriving DecidableEq

namespace HubWelcome

def accept : HubWelcome := ⟨true, wireProtocolVersion, none⟩

def reject (error : ProtocolError) : HubWelcome := ⟨false, wireProtocolVersion, some error⟩

/-- `HubWelcome::negotiate`. -/
def negotiate (nodeVersion : ℤ) : HubWelcome :=
  if nodeVersion = wireProtocolVersion then accept
  else reject (.versionMismatch nodeVersion wireProtocolVersion)

end HubWelcome

inductive NodeWork where
  | startRun (runId : RunId) (taskId : TaskId) (engine : String)
      (model reasoningEffort systemPrompt : Option String)
      (accessPolicy : AccessPolicy) (workspacePath : Option String)
  | sendPrompt (taskId : TaskId) (runId : RunId) (text : String) (clientMessageId : String)
  | interruptRun (runId : RunId)
  | update (version : String)
deriving DecidableEq

/-- The run a piece of work is about; an update is about none. -/
def NodeWork.runId : NodeWork → Option RunId
  | .startRun r .. => some r
  | .sendPrompt _ r .. => some r
  | .interruptRun r => some r
  | .update _ => none

inductive HubToNode where
  | dispatchCommand (commandId : CommandId) (expiresAt : Option DateTime) (work : NodeWork)
  | approvalDecision (approvalId : ApprovalId) (decision : Decision) (actor : String)
  | cancelCommand (commandId : CommandId)
  | eventAck (eventId : EventId)
  | heartbeat
deriving DecidableEq

namespace HubToNode

/-- The command a message dispatches. -/
def commandId : HubToNode → Option CommandId
  | .dispatchCommand c _ _ => some c
  | _ => none

/-- The run a message dispatches work for. -/
def runId : HubToNode → Option RunId
  | .dispatchCommand _ _ work => work.runId
  | _ => none

/-- Work that starts a run. -/
def isStart : HubToNode → Bool
  | .dispatchCommand _ _ (.startRun ..) => true
  | _ => false

end HubToNode

inductive NodeToHub where
  | nodeEvent (eventId : EventId) (draft : EventDraft)
  | commandAck (commandId : CommandId)
  | heartbeat

namespace NodeToHub

/-- The event a message carries. -/
def eventId : NodeToHub → Option EventId
  | .nodeEvent id _ => some id
  | _ => none

/-- The command a message acknowledges. -/
def commandId : NodeToHub → Option CommandId
  | .commandAck c => some c
  | _ => none

end NodeToHub

end Stackhour.Domain
