import Stackhour.Agent.Queue
import Stackhour.Lib.System

/-!
# The agent's tick

Every file and network operation of a tick is a step that may fail or be the
last one. What fails is logged and the tick goes on; a process that dies leaves
its files and starts over.
-/

namespace Stackhour.Agent

open Core TransitionSystem

/-- Where a tick is. `read` records that the queue file was read, or missing,
when the tick began, and `stored` that its rows were appended: the code logs the
one, drops the other and goes on. -/
inductive Stage (Row : Type*) where
  | idle
  | watched (read : Bool) (queued fresh : List Row)
  | appended (read stored : Bool) (queued fresh : List Row)
  | saved (read : Bool) (pending : List Row)
  | confirmed (read : Bool) (pending : List Row)

structure Tick (Row : Type*) where
  queue : File
  stage : Stage Row

/-- What becomes of a batch: the server refuses or misses it, takes it without
the agent hearing of it, or confirms it. -/
inductive Delivery where
  | notAccepted
  | responseLost
  | confirmed
deriving DecidableEq

/-- `watch` runs the watchers, whose rows are `fresh`, and reads the queue. -/
inductive TickLabel (Row : Type*) where
  | watch (fresh : List Row) (readable : Bool)
  | append (how : Append)
  | save (how : AtomicWrite)
  | send (delivery : Delivery)
  | rewrite (how : AtomicWrite)
  | crash

namespace Tick

variable {Row : Type*} (S : Serde Row)

/-- Reading the queue finds its text or no file. -/
def reads (a : Tick Row) (readable : Bool) : Bool :=
  a.queue.isNone || (readToString a.queue readable).isSome

/-- What a tick sends of its pending rows. -/
def batch (pending : List Row) : List Row := pending.take (takeSendBatch S pending MAX_SEND_BYTES)

/-- What is left of them. -/
def remaining (pending : List Row) : List Row :=
  pending.drop (takeSendBatch S pending MAX_SEND_BYTES)

def step (a : Tick Row) : TickLabel Row → Option (Tick Row)
  | .watch fresh readable =>
      match a.stage with
      | .idle =>
          some { a with stage := .watched (a.reads readable) (readQueue S a.queue readable) fresh }
      | _ => none
  | .append how =>
      match a.stage with
      | .watched read queued fresh =>
          let (queue, stored) := appendQueue S a.queue fresh how
          some ⟨queue, .appended read stored queued fresh⟩
      | _ => none
  -- the state file is not this model's; who saves what is recorded outside
  | .save _ =>
      match a.stage with
      | .appended read _ queued fresh => some { a with stage := .saved read (queued ++ fresh) }
      | _ => none
  | .send delivery =>
      match a.stage with
      | .saved read pending =>
          some { a with stage :=
            if pending.isEmpty then .idle
            else if delivery = .confirmed then .confirmed read pending else .idle }
      | _ => none
  | .rewrite how =>
      match a.stage with
      | .confirmed _ pending => some ⟨(saveQueue S a.queue (remaining S pending) how).1, .idle⟩
      | _ => none
  | .crash => some { a with stage := .idle }

/-! ## Inversion -/

variable {S} {a t : Tick Row}

theorem step_watch {fresh : List Row} {readable : Bool}
    (h : a.step S (.watch fresh readable) = some t) : a.stage = .idle ∧
      t = { a with stage := .watched (a.reads readable) (readQueue S a.queue readable) fresh } := by
  unfold step at h
  dsimp only at h
  split at h
  · next hstage => exact ⟨hstage, (Option.some.inj h).symm⟩
  · cases h

theorem step_append {how : Append} (h : a.step S (.append how) = some t) :
    ∃ read queued fresh, a.stage = .watched read queued fresh ∧
      t = ⟨(appendQueue S a.queue fresh how).1,
        .appended read (appendQueue S a.queue fresh how).2 queued fresh⟩ := by
  unfold step at h
  dsimp only at h
  split at h
  · next read queued fresh hstage => exact ⟨_, _, _, hstage, (Option.some.inj h).symm⟩
  · cases h

theorem step_save {how : AtomicWrite} (h : a.step S (.save how) = some t) :
    ∃ read stored queued fresh, a.stage = .appended read stored queued fresh ∧
      t = { a with stage := .saved read (queued ++ fresh) } := by
  unfold step at h
  dsimp only at h
  split at h
  · next hstage => exact ⟨_, _, _, _, hstage, (Option.some.inj h).symm⟩
  · cases h

theorem step_send {delivery : Delivery} (h : a.step S (.send delivery) = some t) :
    ∃ read pending, a.stage = .saved read pending ∧
      ((delivery = .confirmed ∧ pending ≠ [] ∧ t = { a with stage := .confirmed read pending }) ∨
        t = { a with stage := .idle }) := by
  unfold step at h
  dsimp only at h
  split at h
  · next read pending hstage =>
      refine ⟨read, pending, hstage, ?_⟩
      obtain rfl := Option.some.inj h
      split
      · exact .inr rfl
      · next hempty =>
          split
          · next hconfirmed =>
              refine .inl ⟨hconfirmed, ?_, rfl⟩
              rintro rfl
              exact hempty rfl
          · exact .inr rfl
  · cases h

theorem step_rewrite {how : AtomicWrite} (h : a.step S (.rewrite how) = some t) :
    ∃ read pending, a.stage = .confirmed read pending ∧
      t = ⟨(saveQueue S a.queue (remaining S pending) how).1, .idle⟩ := by
  unfold step at h
  dsimp only at h
  split at h
  · next hstage => exact ⟨_, _, hstage, (Option.some.inj h).symm⟩
  · cases h

theorem step_crash (h : a.step S .crash = some t) : t = { a with stage := .idle } :=
  (Option.some.inj h).symm

end Tick

end Stackhour.Agent
