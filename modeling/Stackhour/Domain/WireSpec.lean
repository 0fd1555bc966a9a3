import Stackhour.Domain.Wire

/-!
# Messages are read back

Each message is read back from what is written of it, and from any object that has the
same values under the keys the reader knows. Texts of frames are read back too.
-/

namespace Stackhour.Domain.Wire

open Records

variable {cr : Crates}

/-! ## Values -/

/-- What an `i64` holds. -/
def Wide (n : ℤ) : Prop := -2 ^ 63 ≤ n ∧ n < 2 ^ 63

section Values

variable {depth : ℕ}

@[simp] theorem string_reads (s : String) : string.Reads s := rfl

@[simp] theorem string_some (s : String) : isNull (string.enc s) = false := rfl

@[simp] theorem string_fits (s : String) : (string.enc s).Fits depth := .string s

@[simp] theorem bool_reads (b : Bool) : bool.Reads b := rfl

@[simp] theorem bool_fits (b : Bool) : (bool.enc b).Fits depth := .bool b

@[simp] theorem value_reads (v : Json) : value.Reads v := rfl

@[simp] theorem value_enc (v : Json) : value.enc v = v := rfl

theorem i64_reads {n : ℤ} (h : Wide n) : i64.Reads n := if_pos h

@[simp] theorem i64_some (n : ℤ) : isNull (i64.enc n) = false := rfl

theorem i64_fits {n : ℤ} (h : Wide n) : (i64.enc n).Fits depth :=
  .number ⟨h.1, h.2.trans (by decide)⟩

@[simp] theorem nodeId_reads (n : NodeId) : nodeId.Reads n := rfl

@[simp] theorem nodeId_some (n : NodeId) : isNull (nodeId.enc n) = false := rfl

@[simp] theorem nodeId_fits (n : NodeId) : (nodeId.enc n).Fits depth := .string _

@[simp] theorem accessPolicy_reads (p : AccessPolicy) : accessPolicy.Reads p := by
  cases p <;> rfl

@[simp] theorem accessPolicy_fits (p : AccessPolicy) : (accessPolicy.enc p).Fits depth :=
  .string _

@[simp] theorem decision_reads (d : Decision) : decision.Reads d := by
  cases d <;> rfl

@[simp] theorem decision_fits (d : Decision) : (decision.enc d).Fits depth := .string _

@[simp] theorem kind_reads (k : EventKind) : kind.Reads k := by
  cases k <;> rfl

@[simp] theorem kind_fits (k : EventKind) : (kind.enc k).Fits depth := .string _

theorem time_reads (hcr : cr.Lawful) {t : DateTime} (h : t.Readable) : (time cr).Reads t :=
  hcr.time t h

@[simp] theorem time_some (t : DateTime) : isNull ((time cr).enc t) = false := rfl

@[simp] theorem time_fits (t : DateTime) : ((time cr).enc t).Fits depth := .string _

theorem uuid_reads (hcr : cr.Lawful) (u : Uuid) : (uuid cr).Reads u := hcr.uuid u

theorem taskId_reads (hcr : cr.Lawful) (id : TaskId) : (taskId cr).Reads id :=
  (uuid_reads hcr id.uuid).map rfl

@[simp] theorem taskId_fits (id : TaskId) : ((taskId cr).enc id).Fits depth := .string _

theorem runId_reads (hcr : cr.Lawful) (id : RunId) : (runId cr).Reads id :=
  (uuid_reads hcr id.uuid).map rfl

@[simp] theorem runId_some (id : RunId) : isNull ((runId cr).enc id) = false := rfl

@[simp] theorem runId_fits (id : RunId) : ((runId cr).enc id).Fits depth := .string _

theorem eventId_reads (hcr : cr.Lawful) (id : EventId) : (eventId cr).Reads id :=
  (uuid_reads hcr id.uuid).map rfl

@[simp] theorem eventId_some (id : EventId) : isNull ((eventId cr).enc id) = false := rfl

@[simp] theorem eventId_fits (id : EventId) : ((eventId cr).enc id).Fits depth := .string _

theorem commandId_reads (hcr : cr.Lawful) (id : CommandId) : (commandId cr).Reads id :=
  (uuid_reads hcr id.uuid).map rfl

@[simp] theorem commandId_some (id : CommandId) : isNull ((commandId cr).enc id) = false := rfl

@[simp] theorem commandId_fits (id : CommandId) : ((commandId cr).enc id).Fits depth :=
  .string _

theorem approvalId_reads (hcr : cr.Lawful) (id : ApprovalId) : (approvalId cr).Reads id :=
  (uuid_reads hcr id.uuid).map rfl

@[simp] theorem approvalId_fits (id : ApprovalId) : ((approvalId cr).enc id).Fits depth :=
  .string _

end Values

/-! ## Objects -/

/-- Whatever agrees with what is written of a value is read as the value. -/
def Carried {α : Type} (keys : List String) (slots : α → List (Slot String Json))
    (read : Fields → Option α) (a : α) : Prop :=
  ∀ fields, Agrees keys (write .null (slots a)) fields → read fields = some a

theorem Carried.reads {α : Type} {keys : List String} {slots : α → List (Slot String Json)}
    {read : Fields → Option α} {a : α} (h : Carried keys slots read a) :
    (object slots read).Reads a := h _ (Agrees.refl keys _)

/-- Slots that are read back and fill the fields of a value. -/
theorem Carried.of_slots {α : Type} {keys : List String} {slots : α → List (Slot String Json)}
    {read : Fields → Option α} {a : α} (hok : ∀ s ∈ slots a, s.Ok isNull)
    (hnodup : ((slots a).map Slot.key).Nodup) (hkeys : (slots a).map Slot.key ⊆ keys)
    (hread : ∀ fields, (∀ s ∈ slots a, s.Read isNull fields) → read fields = some a) :
    Carried keys slots read a := by
  intro fields hagrees
  exact hread fields (read_of_agrees rfl hok hnodup hkeys hagrees)

/-- An object is one level deeper than its fields. -/
theorem object_fits {α : Type} {slots : α → List (Slot String Json)}
    {read : Fields → Option α} {a : α} {depth : ℕ} (hnodup : ((slots a).map Slot.key).Nodup)
    (h : ∀ s ∈ slots a, ∀ v ∈ s.value .null, v.Fits depth) :
    ((object slots read).enc a).Fits (depth + 1) := by
  have hpairs : (((slots a).map (fun s => (s.key, s.value Json.null))).map Prod.fst).Nodup := by
    rw [List.map_map]
    exact hnodup
  refine .object (hpairs.sublist (record_keys _)) ?_
  intro f hf
  obtain ⟨s, hs, heq⟩ := List.mem_map.mp (mem_record.mp hf)
  apply h s hs
  exact (Prod.mk.inj heq).2

/-! ## `ProtocolError` -/

def errorKeys : List String :=
  ["type", "client", "hub", "task_id", "run_id", "engine", "node_id", "approval_id", "message"]

/-- The versions of an error are `i64`s. -/
def ErrorFits : ProtocolError → Prop
  | .versionMismatch client hub => Wide client ∧ Wide hub
  | _ => True

theorem errorSlots_nodup (e : ProtocolError) : ((errorSlots cr e).map Slot.key).Nodup := by
  cases e <;> simp [errorSlots, tag, Slot.key]

theorem error_carried (hcr : cr.Lawful) {e : ProtocolError} (h : ErrorFits e) :
    Carried errorKeys (errorSlots cr) (readError cr) e := by
  apply Carried.of_slots _ (errorSlots_nodup e)
  · cases e <;> simp [errorSlots, tag, Slot.key, errorKeys]
  · intro fields hread
    cases e <;>
      simp only [errorSlots, tag, List.forall_mem_cons, Slot.Read] at hread <;>
      simp [readError, hread, option]
  · cases e with
    | versionMismatch client hub =>
        simp [errorSlots, tag, Slot.Ok, i64_reads h.1, i64_reads h.2]
    | _ =>
        simp [errorSlots, tag, Slot.Ok, taskId_reads hcr, runId_reads hcr, approvalId_reads hcr]

@[simp] theorem error_some (e : ProtocolError) : isNull ((error cr).enc e) = false := rfl

theorem error_fits {e : ProtocolError} (h : ErrorFits e) {depth : ℕ} :
    ((error cr).enc e).Fits (depth + 1) := by
  apply object_fits (errorSlots_nodup e)
  cases e with
  | versionMismatch client hub =>
      simp [errorSlots, tag, Slot.value, i64_fits h.1, i64_fits h.2]
  | _ => simp [errorSlots, tag, Slot.value]

/-! ## `ClientCommand` -/

def commandKeys : List String :=
  ["type", "command_id", "title", "task_id", "run_id", "text", "client_message_id", "node_id",
    "engine", "model", "reasoning_effort", "system_prompt", "access_policy", "workspace_path",
    "approval_id", "decision", "actor"]

theorem commandSlots_nodup (c : ClientCommand) : ((commandSlots cr c).map Slot.key).Nodup := by
  cases c <;> simp [commandSlots, tag, Slot.key]

theorem command_carried (hcr : cr.Lawful) (c : ClientCommand) :
    Carried commandKeys (commandSlots cr) (readCommand cr) c := by
  apply Carried.of_slots _ (commandSlots_nodup c)
  · cases c <;> simp [commandSlots, tag, Slot.key, commandKeys]
  · intro fields hread
    cases c <;>
      simp only [commandSlots, tag, List.forall_mem_cons, Slot.Read] at hread <;>
      simp [readCommand, hread, option]
  · cases c <;>
      simp [commandSlots, tag, Slot.Ok, taskId_reads hcr, runId_reads hcr, commandId_reads hcr,
        approvalId_reads hcr]

theorem command_fits (c : ClientCommand) {depth : ℕ} :
    ((command cr).enc c).Fits (depth + 1) := by
  apply object_fits (commandSlots_nodup c)
  cases c <;> simp [commandSlots, tag, Slot.value]

/-! ## `NodeWork` and `HubToNode` -/

def workKeys : List String :=
  ["type", "run_id", "task_id", "engine", "model", "reasoning_effort", "system_prompt",
    "access_policy", "workspace_path", "text", "client_message_id", "version"]

theorem workSlots_nodup (w : NodeWork) : ((workSlots cr w).map Slot.key).Nodup := by
  cases w <;> simp [workSlots, tag, Slot.key]

theorem work_carried (hcr : cr.Lawful) (w : NodeWork) :
    Carried workKeys (workSlots cr) (readWork cr) w := by
  apply Carried.of_slots _ (workSlots_nodup w)
  · cases w <;> simp [workSlots, tag, Slot.key, workKeys]
  · intro fields hread
    cases w <;>
      simp only [workSlots, tag, List.forall_mem_cons, Slot.Read] at hread <;>
      simp [readWork, hread, option]
  · cases w <;> simp [workSlots, tag, Slot.Ok, taskId_reads hcr, runId_reads hcr]

theorem work_fits (w : NodeWork) {depth : ℕ} : ((work cr).enc w).Fits (depth + 1) := by
  apply object_fits (workSlots_nodup w)
  cases w <;> simp [workSlots, tag, Slot.value]

def hubToNodeKeys : List String :=
  ["type", "command_id", "expires_at", "work", "approval_id", "decision", "actor", "event_id"]

/-- A deadline has a year of four digits. -/
def HubToNodeFits : HubToNode → Prop
  | .dispatchCommand _ expires _ => ∀ t ∈ expires, t.Readable
  | _ => True

theorem hubToNodeSlots_nodup (m : HubToNode) :
    ((hubToNodeSlots cr m).map Slot.key).Nodup := by
  cases m <;> simp [hubToNodeSlots, tag, Slot.key]

theorem hubToNode_carried (hcr : cr.Lawful) {m : HubToNode} (h : HubToNodeFits m) :
    Carried hubToNodeKeys (hubToNodeSlots cr) (readHubToNode cr) m := by
  apply Carried.of_slots _ (hubToNodeSlots_nodup m)
  · cases m <;> simp [hubToNodeSlots, tag, Slot.key, hubToNodeKeys]
  · intro fields hread
    cases m <;>
      simp only [hubToNodeSlots, tag, List.forall_mem_cons, Slot.Read] at hread <;>
      simp [readHubToNode, hread, option]
  · cases m with
    | dispatchCommand c expires w =>
        have htime : ∀ t, expires = some t → (time cr).Reads t :=
          fun t ht => time_reads hcr (h t ht)
        have hwork : (work cr).Reads w := (work_carried hcr w).reads
        simpa [hubToNodeSlots, tag, Slot.Ok, commandId_reads hcr, hwork] using htime
    | _ =>
        simp [hubToNodeSlots, tag, Slot.Ok, commandId_reads hcr, eventId_reads hcr,
          approvalId_reads hcr]

theorem hubToNode_fits (m : HubToNode) {depth : ℕ} :
    ((hubToNode cr).enc m).Fits (depth + 2) := by
  apply object_fits (hubToNodeSlots_nodup m)
  cases m <;> simp [hubToNodeSlots, tag, Slot.value, work_fits]

/-! ## Events and `NodeToHub` -/

def draftKeys : List String :=
  ["kind", "task_id", "run_id", "provider_session_id", "node_id", "protocol_version",
    "occurred_at", "payload"]

/-- The version of a draft is an `i64`, its year has four digits. -/
def DraftFits (d : EventDraft) : Prop := Wide d.protocolVersion ∧ d.occurredAt.Readable

theorem draftSlots_nodup (d : EventDraft) : ((draftSlots cr d).map Slot.key).Nodup := by
  simp [draftSlots, Slot.key]

theorem draft_carried (hcr : cr.Lawful) {d : EventDraft} (h : DraftFits d) :
    Carried draftKeys (draftSlots cr) (readDraft cr) d := by
  apply Carried.of_slots _ (draftSlots_nodup d)
  · simp [draftSlots, Slot.key, draftKeys]
  · intro fields hread
    simp only [draftSlots, List.forall_mem_cons, Slot.Read] at hread
    simp [readDraft, hread, option]
  · simp [draftSlots, Slot.Ok, taskId_reads hcr, runId_reads hcr, i64_reads h.1,
      time_reads hcr h.2]

theorem nullable_fits {α : Type} {k : String} {c : Codec Json α} {o : Option α} {depth : ℕ}
    (h : ∀ a, (c.enc a).Fits depth) :
    ∀ v ∈ (Slot.nullable k c o).value .null, v.Fits depth := by
  rintro _ ⟨rfl⟩
  cases o with
  | none => exact .null
  | some a => exact h a

theorem draft_fits {d : EventDraft} (h : DraftFits d) {depth : ℕ}
    (hpayload : d.payload.Fits depth) : ((draft cr).enc d).Fits (depth + 1) := by
  apply object_fits (draftSlots_nodup d)
  simp only [draftSlots, List.forall_mem_cons]
  refine ⟨?_, ?_, nullable_fits runId_fits, nullable_fits string_fits, ?_⟩
  · simp [Slot.value]
  · simp [Slot.value]
  · simpa [Slot.value, i64_fits h.1] using hpayload

def eventKeys : List String :=
  ["sequence", "event_id", "command_id", "kind", "task_id", "run_id", "provider_session_id",
    "node_id", "protocol_version", "occurred_at", "hub_received_at", "payload"]

/-- The numbers of an event are `i64`s, its years have four digits. -/
structure EventFits (e : Event) : Prop where
  sequence : Wide e.sequence
  version : Wide e.protocolVersion
  occurred : e.occurredAt.Readable
  received : e.hubReceivedAt.Readable

theorem eventSlots_nodup (e : Event) : ((eventSlots cr e).map Slot.key).Nodup := by
  simp [eventSlots, Slot.key]

theorem event_carried (hcr : cr.Lawful) {e : Event} (h : EventFits e) :
    Carried eventKeys (eventSlots cr) (readEvent cr) e := by
  apply Carried.of_slots _ (eventSlots_nodup e)
  · simp [eventSlots, Slot.key, eventKeys]
  · intro fields hread
    simp only [eventSlots, List.forall_mem_cons, Slot.Read] at hread
    simp [readEvent, hread, option]
  · simp [eventSlots, Slot.Ok, taskId_reads hcr, runId_reads hcr, eventId_reads hcr,
      commandId_reads hcr, i64_reads h.sequence, i64_reads h.version, time_reads hcr h.occurred,
      time_reads hcr h.received]

theorem event_fits {e : Event} (h : EventFits e) {depth : ℕ}
    (hpayload : e.payload.Fits depth) : ((event cr).enc e).Fits (depth + 1) := by
  apply object_fits (eventSlots_nodup e)
  simp only [eventSlots, List.forall_mem_cons]
  refine ⟨?_, ?_, nullable_fits commandId_fits, ?_, ?_, nullable_fits runId_fits,
    nullable_fits string_fits, ?_⟩
  · simp [Slot.value, i64_fits h.sequence]
  · simp [Slot.value]
  · simp [Slot.value]
  · simp [Slot.value]
  · simpa [Slot.value, i64_fits h.version] using hpayload

def nodeToHubKeys : List String := ["type", "event_id", "draft", "command_id"]

def NodeToHubFits : NodeToHub → Prop
  | .nodeEvent _ d => DraftFits d
  | _ => True

theorem nodeToHubSlots_nodup (m : NodeToHub) :
    ((nodeToHubSlots cr m).map Slot.key).Nodup := by
  cases m <;> simp [nodeToHubSlots, tag, Slot.key]

theorem nodeToHub_carried (hcr : cr.Lawful) {m : NodeToHub} (h : NodeToHubFits m) :
    Carried nodeToHubKeys (nodeToHubSlots cr) (readNodeToHub cr) m := by
  apply Carried.of_slots _ (nodeToHubSlots_nodup m)
  · cases m <;> simp [nodeToHubSlots, tag, Slot.key, nodeToHubKeys]
  · intro fields hread
    cases m <;>
      simp only [nodeToHubSlots, tag, List.forall_mem_cons, Slot.Read] at hread <;>
      simp [readNodeToHub, hread]
  · cases m with
    | nodeEvent id d =>
        have hdraft : (draft cr).Reads d := (draft_carried hcr h).reads
        simp [nodeToHubSlots, tag, Slot.Ok, eventId_reads hcr, hdraft]
    | _ => simp [nodeToHubSlots, tag, Slot.Ok, commandId_reads hcr]

/-- There is room for the payload of an event two levels down. -/
def PayloadFits : NodeToHub → Prop
  | .nodeEvent _ d => d.payload.Fits 125
  | _ => True

theorem nodeToHub_fits {m : NodeToHub} (h : NodeToHubFits m) (hpayload : PayloadFits m) :
    ((nodeToHub cr).enc m).Fits 127 := by
  apply object_fits (nodeToHubSlots_nodup m)
  cases m with
  | nodeEvent id d =>
      have hdraft : ((draft cr).enc d).Fits 126 := draft_fits h hpayload
      simp [nodeToHubSlots, tag, Slot.value, hdraft]
  | _ => simp [nodeToHubSlots, tag, Slot.value]

/-! ## `HubToClient` -/

def hubToClientKeys : List String :=
  ["type", "command_id", "accepted", "assigned_sequence", "event_id", "error", "event",
    "after_sequence", "head_sequence"]

def HubToClientFits : HubToClient → Prop
  | .commandReceipt r => (∀ n ∈ r.assignedSequence, Wide n) ∧ ∀ e ∈ r.error, ErrorFits e
  | .eventDelivery e => EventFits e
  | .subscribeAck after head => (∀ n ∈ after, Wide n) ∧ Wide head
  | .heartbeat => True

theorem hubToClientSlots_nodup (m : HubToClient) :
    ((hubToClientSlots cr m).map Slot.key).Nodup := by
  cases m <;> simp [hubToClientSlots, tag, Slot.key]

theorem hubToClient_carried (hcr : cr.Lawful) {m : HubToClient} (h : HubToClientFits m) :
    Carried hubToClientKeys (hubToClientSlots cr) (readHubToClient cr) m := by
  apply Carried.of_slots _ (hubToClientSlots_nodup m)
  · cases m <;> simp [hubToClientSlots, tag, Slot.key, hubToClientKeys]
  · intro fields hread
    cases m <;>
      simp only [hubToClientSlots, tag, List.forall_mem_cons, Slot.Read] at hread <;>
      simp [readHubToClient, hread, option]
  · cases m with
    | commandReceipt r =>
        have hsequence : ∀ n, r.assignedSequence = some n → i64.Reads n :=
          fun n hn => i64_reads (h.1 n hn)
        have herror : ∀ e, r.error = some e → (error cr).Reads e :=
          fun e he => (error_carried hcr (h.2 e he)).reads
        simpa [hubToClientSlots, tag, Slot.Ok, commandId_reads hcr, eventId_reads hcr] using
          ⟨hsequence, herror⟩
    | eventDelivery e =>
        have hevent : (event cr).Reads e := (event_carried hcr h).reads
        simp [hubToClientSlots, tag, Slot.Ok, hevent]
    | subscribeAck after head =>
        have hafter : ∀ n, after = some n → i64.Reads n := fun n hn => i64_reads (h.1 n hn)
        simpa [hubToClientSlots, tag, Slot.Ok, i64_reads h.2] using hafter
    | heartbeat => simp [hubToClientSlots, tag, Slot.Ok]

def DeliveryFits : HubToClient → Prop
  | .eventDelivery e => e.payload.Fits 125
  | _ => True

theorem hubToClient_fits {m : HubToClient} (h : HubToClientFits m) (hpayload : DeliveryFits m) :
    ((hubToClient cr).enc m).Fits 127 := by
  apply object_fits (hubToClientSlots_nodup m)
  cases m with
  | commandReceipt r =>
      have hsequence : ∀ n, r.assignedSequence = some n → (i64.enc n).Fits 126 :=
        fun n hn => i64_fits (h.1 n hn)
      have herror : ∀ e, r.error = some e → ((error cr).enc e).Fits 126 :=
        fun e he => error_fits (h.2 e he)
      simpa [hubToClientSlots, tag, Slot.value] using ⟨hsequence, herror⟩
  | eventDelivery e =>
      have hevent : ((event cr).enc e).Fits 126 := event_fits h hpayload
      simp [hubToClientSlots, tag, Slot.value, hevent]
  | subscribeAck after head =>
      have hafter : ∀ n, after = some n → (i64.enc n).Fits 126 := fun n hn => i64_fits (h.1 n hn)
      simpa [hubToClientSlots, tag, Slot.value, i64_fits h.2] using hafter
  | heartbeat => simp [hubToClientSlots, tag, Slot.value]

/-! ## The handshakes -/

def subscribeKeys : List String := ["token", "after_sequence"]

theorem subscribe_carried {s : Subscribe} (h : ∀ n ∈ s.afterSequence, Wide n) :
    Carried subscribeKeys subscribeSlots readSubscribe s := by
  apply Carried.of_slots
  · have hafter : ∀ n, s.afterSequence = some n → i64.Reads n := fun n hn => i64_reads (h n hn)
    simpa [subscribeSlots, Slot.Ok] using hafter
  · simp [subscribeSlots, Slot.key]
  · simp [subscribeSlots, Slot.key, subscribeKeys]
  · intro fields hread
    simp only [subscribeSlots, List.forall_mem_cons, Slot.Read] at hread
    simp [readSubscribe, hread, option]

def helloKeys : List String :=
  ["node_id", "token", "software_version", "protocol_version", "capabilities",
    "resume_after_sequence"]

theorem hello_carried {m : NodeHello} (h : Wide m.protocolVersion)
    (hresume : ∀ n ∈ m.resumeAfterSequence, Wide n) :
    Carried helloKeys helloSlots readHello m := by
  apply Carried.of_slots
  · have hafter : ∀ n, m.resumeAfterSequence = some n → i64.Reads n :=
      fun n hn => i64_reads (hresume n hn)
    simpa [helloSlots, Slot.Ok, i64_reads h] using hafter
  · simp [helloSlots, Slot.key]
  · simp [helloSlots, Slot.key, helloKeys]
  · intro fields hread
    simp only [helloSlots, List.forall_mem_cons, Slot.Read] at hread
    simp [readHello, hread, option]

def welcomeKeys : List String := ["accepted", "protocol_version", "error"]

theorem welcome_carried (hcr : cr.Lawful) {w : HubWelcome} (h : Wide w.protocolVersion)
    (herror : ∀ e ∈ w.error, ErrorFits e) :
    Carried welcomeKeys (welcomeSlots cr) (readWelcome cr) w := by
  apply Carried.of_slots
  · have hreads : ∀ e, w.error = some e → (error cr).Reads e :=
      fun e he => (error_carried hcr (herror e he)).reads
    simpa [welcomeSlots, Slot.Ok, i64_reads h] using hreads
  · simp [welcomeSlots, Slot.key]
  · simp [welcomeSlots, Slot.key, welcomeKeys]
  · intro fields hread
    simp only [welcomeSlots, List.forall_mem_cons, Slot.Read] at hread
    simp [readWelcome, hread, option]

/-! ## Frames -/

/-- **Messages survive the wire.** A message whose numbers and years fit is read from every
object that has the same values under the keys of its kind: fields may be reordered, and
a peer may add fields of its own. -/
theorem messages_carried (hcr : cr.Lawful) :
    (∀ m, HubToNodeFits m → Carried hubToNodeKeys (hubToNodeSlots cr) (readHubToNode cr) m) ∧
    (∀ m, NodeToHubFits m → Carried nodeToHubKeys (nodeToHubSlots cr) (readNodeToHub cr) m) ∧
    (∀ c, Carried commandKeys (commandSlots cr) (readCommand cr) c) ∧
    (∀ m, HubToClientFits m →
      Carried hubToClientKeys (hubToClientSlots cr) (readHubToClient cr) m) ∧
    (∀ s : Subscribe, (∀ n ∈ s.afterSequence, Wide n) →
      Carried subscribeKeys subscribeSlots readSubscribe s) ∧
    (∀ m : NodeHello, Wide m.protocolVersion → (∀ n ∈ m.resumeAfterSequence, Wide n) →
      Carried helloKeys helloSlots readHello m) ∧
    ∀ w : HubWelcome, Wide w.protocolVersion → (∀ e ∈ w.error, ErrorFits e) →
      Carried welcomeKeys (welcomeSlots cr) (readWelcome cr) w :=
  ⟨fun _ => hubToNode_carried hcr, fun _ => nodeToHub_carried hcr, command_carried hcr,
    fun _ => hubToClient_carried hcr, fun _ => subscribe_carried, fun _ => hello_carried,
    fun _ => welcome_carried hcr⟩

section Texts

open Core JsonGrammar

variable {ft : FloatText}

/-- The text of a frame, and what is read of one. -/
def frame {α : Type} (ft : FloatText) (c : Codec Json α) (a : α) : List Char :=
  compact ft (c.enc a)

def readFrame {α : Type} (ft : FloatText) (c : Codec Json α) (text : List Char) : Option α :=
  (parse ft text).toOption.bind c.dec

theorem readFrame_frame (hft : ft.Lawful) {α : Type} {c : Codec Json α} {a : α}
    (hreads : c.Reads a) (hfits : (c.enc a).Fits 127) :
    readFrame ft c (frame ft c a) = some a := by
  rw [readFrame, frame, parse_compact hft hfits]
  exact hreads

end Texts

/-! ## The crates -/

/-- The value of hexadecimal digits. -/
def hexNumber (acc : ℕ) : List Char → Option ℕ
  | [] => some acc
  | c :: cs => (Core.JsonGrammar.Lexer.hexValue c).bind (fun d => hexNumber (acc * 16 + d) cs)

/-- An id from its 32 digits, wherever its dashes stand. -/
def readUuid (s : String) : Option Uuid :=
  if (s.toList.filter (· ≠ '-')).length = 32 then
    (hexNumber 0 (s.toList.filter (· ≠ '-'))).map (BitVec.ofNat 128)
  else none

theorem hexNumber_append (cs ds : List Char) : ∀ acc,
    hexNumber acc (cs ++ ds) = (hexNumber acc cs).bind (fun n => hexNumber n ds) := by
  induction cs with
  | nil => exact fun acc => rfl
  | cons c cs ih =>
      intro acc
      rw [List.cons_append, hexNumber, hexNumber, Option.bind_assoc]
      congr 1
      ext1 d
      exact ih _

theorem hexNumber_digits (u : Uuid) : hexNumber 0 (Store.hexDigits u) = some u.toNat := by
  have hdigit : ∀ n < 16, Core.JsonGrammar.Lexer.hexValue
      ("0123456789abcdef".toList.getD n '0') = some n := by decide
  have hfirst : ∀ k ≤ 32, hexNumber 0 ((List.range k).map (fun i =>
      "0123456789abcdef".toList.getD (u.toNat / 16 ^ (31 - i) % 16) '0')) =
        some (u.toNat / 16 ^ (32 - k)) := by
    intro k
    induction k with
    | zero =>
        intro _
        have hlt : u.toNat < 16 ^ 32 := u.isLt
        rw [Nat.sub_zero, Nat.div_eq_of_lt hlt]
        rfl
    | succ k ih =>
        intro hk
        have hpow : 16 ^ (32 - k) = 16 ^ (31 - k) * 16 := by
          rw [← Nat.pow_succ]
          congr 1
          omega
        have hsub : 32 - (k + 1) = 31 - k := by omega
        rw [List.range_succ, List.map_append, hexNumber_append, ih (by omega), Option.bind_some,
          List.map_singleton, hexNumber, hdigit _ (Nat.mod_lt _ (by decide)), Option.bind_some,
          hexNumber, hpow, ← Nat.div_div_eq_div_mul, hsub, Nat.div_add_mod']
  exact (hfirst 32 (Nat.le_refl _)).trans (by rw [Nat.sub_self, Nat.pow_zero, Nat.div_one])

theorem readUuid_uuidText (u : Uuid) : readUuid (Store.uuidText u) = some u := by
  have hdash : ∀ c ∈ Store.hexDigits u, c ≠ '-' := by
    intro c hc
    obtain ⟨i, -, rfl⟩ := List.mem_map.mp hc
    have hne : ∀ a : Fin 16, "0123456789abcdef".toList.getD a '0' ≠ '-' := by decide
    exact hne ⟨_, Nat.mod_lt _ (by decide)⟩
  have hfilter : (Store.uuidText u).toList.filter (· ≠ '-') = Store.hexDigits u := by
    rw [Store.uuidText, String.toList_ofList]
    exact Store.filter_dashes hdash
  have hlen : (Store.hexDigits u).length = 32 := by
    rw [Store.hexDigits, List.length_map, List.length_range]
  rw [readUuid, hfilter, if_pos hlen, hexNumber_digits, Option.map_some, BitVec.ofNat_toNat,
    BitVec.setWidth_eq]

/-- Ids in their groups, times with nine digits. -/
def plainCrates : Crates := ⟨readUuid, fmtTime, parseTime⟩

theorem plainCrates_lawful : plainCrates.Lawful := by
  refine ⟨?_, ?_⟩
  · intro u
    dsimp only [plainCrates]
    exact readUuid_uuidText u
  · intro t h
    dsimp only [plainCrates]
    rw [parseTime_fmtTime, if_pos h]

/-- A deadline with nine digits. -/
def noon : DateTime := ⟨2026, 7, 25, 12, 0, 0, 123456789, by decide, by decide⟩

theorem messages_carried_dispatch :
    (noon.Readable ∧ plainCrates.Lawful) ∧
    readHubToNode plainCrates (write .null (hubToNodeSlots plainCrates
      (.dispatchCommand ⟨7⟩ (some noon) (.update "1.2.3")))) =
        some (.dispatchCommand ⟨7⟩ (some noon) (.update "1.2.3")) := by
  have hfits : HubToNodeFits (.dispatchCommand ⟨7⟩ (some noon) (.update "1.2.3")) := by
    rintro _ ⟨rfl⟩
    decide
  exact ⟨⟨by decide, plainCrates_lawful⟩,
    (messages_carried plainCrates_lawful).1 _ hfits _ (Agrees.refl hubToNodeKeys _)⟩

end Stackhour.Domain.Wire
