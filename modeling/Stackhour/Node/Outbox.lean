import Stackhour.Domain.Protocol

/-!
# The node's outbox

`EngineOutbox`: the link it is attached to, and the events the hub has yet to
acknowledge. Its methods change the state under its lock and send afterwards; a
method returns the state and what its caller has still to send, on which link.
-/

namespace Stackhour.Node

open Domain

/-- `tx` names the link whose writer the outbox feeds. -/
structure OutboxState where
  tx : Option ℕ
  pendingEvents : List (EventId × NodeToHub)

namespace OutboxState

/-- `EngineOutbox::persistent`. -/
def persistent : OutboxState := ⟨none, []⟩

/-- `attach`: everything pending is sent on the new link. -/
def attach (s : OutboxState) (tx : ℕ) : OutboxState × List NodeToHub :=
  ({ s with tx := some tx }, s.pendingEvents.map Prod.snd)

/-- `detach`. -/
def detach (s : OutboxState) : OutboxState := { s with tx := none }

/-- `resend_pending`. -/
def resendPending (s : OutboxState) : Option (ℕ × List NodeToHub) :=
  s.tx.map (fun tx => (tx, s.pendingEvents.map Prod.snd))

/-- `acknowledge_event`: the first pending event of that id is done. -/
def acknowledgeEvent (s : OutboxState) (eventId : EventId) : OutboxState :=
  { s with pendingEvents := s.pendingEvents.eraseP (fun p => decide (p.1 = eventId)) }

/-- `emit_draft`, with the event id it mints. -/
def emitDraft (s : OutboxState) (eventId : EventId) (draft : EventDraft) :
    OutboxState × Option (ℕ × List NodeToHub) :=
  let msg := NodeToHub.nodeEvent eventId draft
  ({ s with pendingEvents := s.pendingEvents ++ [(eventId, msg)] },
    s.tx.map (fun tx => (tx, [msg])))

/-- `ack`: lost when no link is attached. -/
def ack (s : OutboxState) (commandId : CommandId) : Option (ℕ × List NodeToHub) :=
  s.tx.map (fun tx => (tx, [.commandAck commandId]))

theorem mem_acknowledgeEvent {s : OutboxState} {eventId : EventId} {p : EventId × NodeToHub}
    (hp : p ∈ s.pendingEvents) (hne : p.1 ≠ eventId) :
    p ∈ (s.acknowledgeEvent eventId).pendingEvents :=
  (List.mem_eraseP_of_neg (by simpa using hne)).mpr hp

theorem mem_of_acknowledgeEvent {s : OutboxState} {eventId : EventId} {p : EventId × NodeToHub}
    (hp : p ∈ (s.acknowledgeEvent eventId).pendingEvents) : p ∈ s.pendingEvents :=
  List.mem_of_mem_eraseP hp

end OutboxState

end Stackhour.Node
