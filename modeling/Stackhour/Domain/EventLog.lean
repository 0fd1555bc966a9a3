import Stackhour.Domain.StoreSpec
import Stackhour.Lib.Numbering
import Stackhour.Lib.System

/-!
# The event log and its receipts

The database as a transition system: calls of the writing operations in any
order, each let through or refused, with the process closing and reopening the
file in between. What holds in every reachable state: the log is numbered
`1 … n`, receipts and command events are the same list, and a command that was
accepted once is answered from its receipt ever after.
-/

namespace Stackhour.Domain

open Numbering TransitionSystem

/-! ## Calls -/

/-- A call of a writing operation. `append_command` and `append_command_with`
are `append_command_bundle` without a dispatch. -/
inductive StoreCall where
  | appendCommandBundle (commandId : CommandId) (draft : EventDraft) (entity : EntityWrite)
      (dispatch : Option (NodeId × HubToNode))
  | appendNodeEvent (eventId : EventId) (draft : EventDraft)
  | resolveApproval (approvalId : ApprovalId) (decision : Decision) (actor : String)
      (now : DateTime)
  | acknowledgeDispatch (commandId : CommandId)
  | acknowledgeDispatchFrom (commandId : CommandId) (nodeId : NodeId)
  | completeAssistantWake (eventId : EventId)
  | deferAssistantWake (eventId : EventId) (error : String)
  | registerAssistantWorker (channel : String) (taskId : TaskId)
  | createTask (title : String)
  | insertTask (task : Task)
  | startRun (taskId : TaskId) (nodeId : NodeId) (engine : String)
      (accessPolicy : AccessPolicy)
  | insertRun (run : Run)
  | putSetting (key : String) (value : Json)
  | requestApproval (runId : RunId) (taskId : TaskId) (toolCallId scope : String)
      (options : List String) (expiresAt : Option DateTime)
  | upsertNode (node : Node)

/-- The key of an entity row that a call inserted. -/
inductive Minted where
  | task (id : TaskId)
  | run (id : RunId)
deriving DecidableEq

def Minted.taskId : Minted → Option TaskId
  | .task id => some id
  | .run _ => none

def Minted.runId : Minted → Option RunId
  | .task _ => none
  | .run id => some id

def EntityWrite.minted : EntityWrite → List Minted
  | .none => []
  | .task t => [.task t.id]
  | .run r => [.run r.id]

/-- What a successful call leaves: the store, the first acceptance it was for
its command, and the entity rows it inserted. -/
structure Written where
  store : Store
  accepted : Option (CommandId × AppendOutcome)
  minted : List Minted

def StoreCall.perform (env : CallEnv) (s : Store) : StoreCall → Except Error Written
  | .appendCommandBundle c d e disp => do
      let (s', o) ← s.appendCommandBundle env c d e disp
      pure (if o.created then ⟨s', some (c, o), e.minted⟩ else ⟨s', none, []⟩)
  | .appendNodeEvent id d => do
      let (s', _) ← s.appendNodeEvent env id d
      pure ⟨s', none, []⟩
  | .resolveApproval id decision actor now => do
      let (s', _) ← s.resolveApproval env id decision actor now
      pure ⟨s', none, []⟩
  | .acknowledgeDispatch c => do
      let (s', _) ← s.acknowledgeDispatch env c
      pure ⟨s', none, []⟩
  | .acknowledgeDispatchFrom c n => do
      let (s', _) ← s.acknowledgeDispatchFrom env c n
      pure ⟨s', none, []⟩
  | .completeAssistantWake id => do
      let (s', _) ← s.completeAssistantWake env id
      pure ⟨s', none, []⟩
  | .deferAssistantWake id error => do
      let (s', _) ← s.deferAssistantWake env id error
      pure ⟨s', none, []⟩
  | .registerAssistantWorker channel t => do
      let s' ← s.registerAssistantWorker env channel t
      pure ⟨s', none, []⟩
  | .createTask title => do
      let (s', t) ← s.createTask env title
      pure ⟨s', none, [.task t.id]⟩
  | .insertTask t => do
      let s' ← s.insertTask env t
      pure ⟨s', none, [.task t.id]⟩
  | .startRun t n engine policy => do
      let (s', r) ← s.startRun env t n engine policy
      pure ⟨s', none, [.run r.id]⟩
  | .insertRun r => do
      let s' ← s.insertRun env r
      pure ⟨s', none, [.run r.id]⟩
  | .putSetting key value => do
      let s' ← s.putSetting env key value
      pure ⟨s', none, []⟩
  | .requestApproval r t toolCallId scope options expiresAt => do
      let (s', _) ← s.requestApproval env r t toolCallId scope options expiresAt
      pure ⟨s', none, []⟩
  | .upsertNode n => do
      let s' ← s.upsertNode env n
      pure ⟨s', none, []⟩

/-! ## The database over time -/

/-- The file, whether a process has it open, and two records of the run: the
first acceptance of each command, and the entity rows with the command that
minted them (`none` for a direct insert). -/
structure Database where
  store : Store
  isOpen : Bool
  accepted : List (CommandId × AppendOutcome)
  minted : List (Option CommandId × Minted)

inductive DatabaseLabel where
  | call (env : CallEnv) (c : StoreCall)
  | close
  | reopen (refusal : ℤ → Option String)

namespace Database

def record (db : Database) (w : Written) : Database where
  store := w.store
  isOpen := db.isOpen
  accepted := db.accepted ++ w.accepted.toList
  minted := db.minted ++ w.minted.map (fun m => (w.accepted.map Prod.fst, m))

/-- A failed call leaves the database as it was; a process that dies in the
middle of a call is a failed call followed by `close`. -/
def step (db : Database) : DatabaseLabel → Option Database
  | .call env c =>
      if db.isOpen then
        match c.perform env db.store with
        | .ok w => some (db.record w)
        | .error _ => some db
      else none
  | .close => some { db with isOpen := false }
  | .reopen refusal =>
      if db.isOpen then none
      else
        let r := db.store.runMigrations refusal
        some { db with store := r.1, isOpen := r.2.isOk }

/-- From the file before its first opening. -/
def system : System Database DatabaseLabel where
  init db := db = ⟨Store.blank, false, [], []⟩
  step := step

end Database

/-! ## The invariant of the tables -/

def ReceiptRow.key (r : ReceiptRow) : CommandId × ℤ × EventId :=
  (r.commandId, r.sequence, r.eventId)

/-- What a command event has in common with its receipt. -/
def EventOf.receiptKey (e : EventRow) : Option (CommandId × ℤ × EventId) :=
  e.commandId.map (fun c => (c, e.sequence, e.eventId))

/-- **The log and receipt invariant.** -/
structure EventLog (s : Store) : Prop where
  sequences : Gapless (s.events.map EventOf.sequence)
  eventIds : Table.Unique EventOf.eventId s.events
  receipts : s.receipts.map ReceiptRow.key = s.events.filterMap EventOf.receiptKey
  receiptIds : Table.Unique ReceiptRow.commandId s.receipts
  dispatchIds : Table.Unique DispatchRow.commandId s.dispatches
  dispatched : ∀ d ∈ s.dispatches, d.commandId ∈ s.receipts.map ReceiptRow.commandId
  taskIds : Table.Unique TaskOf.id s.tasks
  runIds : Table.Unique RunOf.id s.runs
  wakeIds : Table.Unique WakeRow.eventId s.wakes
  wakes : ∀ w ∈ s.wakes, ∃ e ∈ s.events, e.eventId = w.eventId ∧ e.sequence = w.sequence

namespace EventLog

variable {s s' : Store}

theorem maxSequence_eq (h : EventLog s) : s.maxSequence = s.events.length := by
  have := h.sequences.max
  rwa [List.length_map] at this

/-- The next sequence is free. -/
theorem sequence_fresh (h : EventLog s) :
    s.maxSequence + 1 ∉ s.events.map EventOf.sequence := by
  rw [h.sequences.mem_iff, h.maxSequence_eq, List.length_map]
  omega

/-- The log is stored in the order of its sequences, so a tail is read as it is stored. -/
theorem eventsAfter_eq (h : EventLog s) (env : CallEnv) (a : ℤ) :
    s.eventsAfter env a = (do
      env.admit
      (s.events.filter (fun e : EventRow => decide (a < e.sequence))).mapM rowToEvent) := by
  have hpair := h.sequences.pairwise.imp (fun hlt => le_of_lt hlt)
  have hsorted : (s.events.filter (fun e : EventRow => decide (a < e.sequence))).Pairwise
      (fun x y : EventRow => x.sequence ≤ y.sequence) :=
    (List.pairwise_map.mp hpair).sublist List.filter_sublist
  unfold Store.eventsAfter
  rw [hsorted.insertionSort_eq]

theorem receiptIds_eq (h : EventLog s) :
    s.receipts.map ReceiptRow.commandId = s.events.filterMap EventOf.commandId := by
  have := congrArg (List.map Prod.fst) h.receipts
  rw [List.map_map, List.map_filterMap] at this
  refine Eq.trans this (List.filterMap_congr fun e _ => ?_)
  unfold EventOf.receiptKey
  cases e.commandId <;> rfl

/-- A command without a receipt has no dispatch. -/
theorem dispatch_fresh (h : EventLog s) {c : CommandId}
    (hc : Table.lookup ReceiptRow.commandId s.receipts c = none) :
    c ∉ s.dispatches.map DispatchRow.commandId := by
  intro hmem
  obtain ⟨d, hd, rfl⟩ := List.mem_map.mp hmem
  exact Table.lookup_eq_none.mp hc (h.dispatched d hd)

/-- A new event owes no wake yet. -/
theorem wakes_fresh (h : EventLog s) {id : EventId} (hid : id ∉ s.events.map EventOf.eventId)
    (d : EventDraft) (now : DateTime) :
    s.WakesFresh (s.wakeRows id (s.maxSequence + 1) d now) := by
  intro w hw
  have hkey : w.eventId = id ∧ w.sequence = s.maxSequence + 1 := by
    unfold Store.wakeRows at hw
    split at hw
    · rw [List.mem_singleton] at hw
      subst hw
      exact ⟨rfl, rfl⟩
    · cases hw
  rw [hkey.1, hkey.2]
  constructor
  · intro hmem
    obtain ⟨w', hw', rfl⟩ := List.mem_map.mp hmem
    obtain ⟨e, he, heq, _⟩ := h.wakes w' hw'
    exact hid (heq ▸ List.mem_map_of_mem he)
  · intro hmem
    obtain ⟨w', hw', heq⟩ := List.mem_map.mp hmem
    obtain ⟨e, he, _, hseq⟩ := h.wakes w' hw'
    exact h.sequence_fresh (heq ▸ hseq ▸ List.mem_map_of_mem he)

theorem blank : EventLog Store.blank where
  sequences := gapless_nil
  eventIds := Table.unique_nil
  receipts := rfl
  receiptIds := Table.unique_nil
  dispatchIds := Table.unique_nil
  dispatched := by simp [Store.blank]
  taskIds := Table.unique_nil
  runIds := Table.unique_nil
  wakeIds := Table.unique_nil
  wakes := by simp [Store.blank]

end EventLog

/-! ## What a call can do -/

/-- A call that appends nothing: the log and the receipts stand, the keys of
the other tables stand, and entity rows are only added. -/
structure Quiet (s : Store) (w : Written) : Prop where
  events : w.store.events = s.events
  receipts : w.store.receipts = s.receipts
  dispatches : w.store.dispatches.map DispatchRow.commandId =
    s.dispatches.map DispatchRow.commandId
  wakes : w.store.wakes.map (fun w => (w.eventId, w.sequence)) =
    s.wakes.map (fun w => (w.eventId, w.sequence))
  tasks : w.store.tasks.map TaskOf.id = s.tasks.map TaskOf.id ++ w.minted.filterMap Minted.taskId
  runs : w.store.runs.map RunOf.id = s.runs.map RunOf.id ++ w.minted.filterMap Minted.runId
  newTasks : (w.minted.filterMap Minted.taskId).Nodup ∧
    ∀ t ∈ w.minted.filterMap Minted.taskId, t ∉ s.tasks.map TaskOf.id
  newRuns : (w.minted.filterMap Minted.runId).Nodup ∧
    ∀ r ∈ w.minted.filterMap Minted.runId, r ∉ s.runs.map RunOf.id
  accepted : w.accepted = none

theorem Quiet.same (s : Store) : Quiet s ⟨s, none, []⟩ := by
  constructor <;> simp

theorem Quiet.of_tables {s s' : Store} (he : s'.events = s.events)
    (hr : s'.receipts = s.receipts)
    (hd : s'.dispatches.map DispatchRow.commandId = s.dispatches.map DispatchRow.commandId)
    (hw : s'.wakes.map (fun w => (w.eventId, w.sequence)) =
      s.wakes.map (fun w => (w.eventId, w.sequence)))
    (ht : s'.tasks = s.tasks) (hn : s'.runs = s.runs) : Quiet s ⟨s', none, []⟩ := by
  constructor <;> simp_all

theorem Quiet.addTask {s : Store} {t : Task} (hf : t.id ∉ s.tasks.map TaskOf.id) :
    Quiet s ⟨{ s with tasks := s.tasks ++ [t.toRow] }, none, [.task t.id]⟩ where
  events := rfl
  receipts := rfl
  dispatches := rfl
  wakes := rfl
  tasks := by simp [Minted.taskId, TaskOf.toRow]
  runs := by simp [Minted.runId]
  newTasks := ⟨by simp [Minted.taskId], by simpa [Minted.taskId] using hf⟩
  newRuns := ⟨List.nodup_nil, by simp [Minted.runId]⟩
  accepted := rfl

theorem Quiet.addRun {s : Store} {r : Run} (hf : r.id ∉ s.runs.map RunOf.id) :
    Quiet s ⟨{ s with runs := s.runs ++ [r.toRow] }, none, [.run r.id]⟩ where
  events := rfl
  receipts := rfl
  dispatches := rfl
  wakes := rfl
  tasks := by simp [Minted.taskId]
  runs := by simp [Minted.runId, RunOf.toRow]
  newTasks := ⟨List.nodup_nil, by simp [Minted.taskId]⟩
  newRuns := ⟨by simp [Minted.runId], by simpa [Minted.runId] using hf⟩
  accepted := rfl

theorem Quiet.acked (env : CallEnv) (s : Store) (p : DispatchRow → Bool) :
    Quiet s ⟨s.acked env p, none, []⟩ := by
  refine Quiet.of_tables rfl rfl ?_ rfl rfl rfl
  unfold Store.acked
  rw [List.map_map]
  refine List.map_congr_left fun d _ => ?_
  simp only [Function.comp_apply]
  split <;> rfl

theorem Quiet.mapWakes {s : Store} {f : WakeRow → WakeRow}
    (hf : ∀ w, (f w).eventId = w.eventId ∧ (f w).sequence = w.sequence) :
    Quiet s ⟨{ s with wakes := s.wakes.map f }, none, []⟩ := by
  refine Quiet.of_tables rfl rfl rfl ?_ rfl rfl
  rw [List.map_map]
  refine List.map_congr_left fun w _ => ?_
  simp only [Function.comp_apply, (hf w).1, (hf w).2]

/-- **What a call can do.** It appends a command's bundle, or a node's event,
or it is quiet. -/
theorem StoreCall.perform_cases {env : CallEnv} {s : Store} {call : StoreCall} {w : Written}
    (h : call.perform env s = .ok w) :
    (∃ c d e disp, call = .appendCommandBundle c d e disp ∧
      Table.lookup ReceiptRow.commandId s.receipts c = none ∧ s.Admits env c e disp ∧
      w = ⟨s.bundled env c d e disp, some (c, ⟨s.maxSequence + 1, ⟨env.uuid⟩, true⟩),
        e.minted⟩) ∨
    (∃ id d, call = .appendNodeEvent id d ∧
      Table.lookup EventOf.eventId s.events id = none ∧
      w = ⟨s.nodeAppended env id d, none, []⟩) ∨
    Quiet s w := by
  cases call with
  | appendCommandBundle c d e disp =>
      obtain ⟨⟨s', o⟩, hop, hw⟩ := Result.bind_eq_ok.mp h
      rw [Result.pure_eq_ok] at hw
      obtain ⟨-, ⟨r, -, rfl, rfl⟩ | ⟨hl, hadm, rfl, rfl⟩⟩ :=
        Store.appendCommandBundle_eq_ok.mp hop
      · exact .inr (.inr (hw ▸ Quiet.same s'))
      · exact .inl ⟨c, d, e, disp, rfl, hl, hadm, hw.symm⟩
  | appendNodeEvent id d =>
      obtain ⟨⟨s', o⟩, hop, hw⟩ := Result.bind_eq_ok.mp h
      rw [Result.pure_eq_ok] at hw
      obtain ⟨-, ⟨r, -, rfl, rfl⟩ | ⟨hl, -, -, rfl, rfl⟩⟩ := Store.appendNodeEvent_eq_ok.mp hop
      · exact .inr (.inr (hw ▸ Quiet.same s'))
      · exact .inr (.inl ⟨id, d, rfl, hl, hw.symm⟩)
  | resolveApproval id decision actor now =>
      obtain ⟨⟨s', a⟩, hop, hw⟩ := Result.bind_eq_ok.mp h
      rw [Result.pure_eq_ok] at hw
      obtain ⟨-, -, row, current, -, -, hs⟩ := Store.resolveApproval_eq_ok.mp hop
      refine .inr (.inr (hw ▸ ?_))
      split at hs
      · rw [hs.1]
        exact Quiet.of_tables rfl rfl rfl rfl rfl rfl
      · rw [hs.1]
        exact Quiet.same s
  | acknowledgeDispatch c =>
      obtain ⟨⟨s', b⟩, hop, hw⟩ := Result.bind_eq_ok.mp h
      rw [Result.pure_eq_ok] at hw
      obtain ⟨-, rfl, -⟩ := Store.ackWhere_eq_ok.mp hop
      exact .inr (.inr (hw ▸ Quiet.acked env s _))
  | acknowledgeDispatchFrom c n =>
      obtain ⟨⟨s', b⟩, hop, hw⟩ := Result.bind_eq_ok.mp h
      rw [Result.pure_eq_ok] at hw
      obtain ⟨-, rfl, -⟩ := Store.ackWhere_eq_ok.mp hop
      exact .inr (.inr (hw ▸ Quiet.acked env s _))
  | completeAssistantWake id =>
      obtain ⟨⟨s', b⟩, hop, hw⟩ := Result.bind_eq_ok.mp h
      obtain ⟨_, -, hs⟩ := Result.bind_eq_ok.mp hop
      rw [Result.pure_eq_ok] at hw hs
      obtain ⟨rfl, -⟩ := Prod.mk.inj hs
      refine .inr (.inr (hw ▸ Quiet.mapWakes fun w => ?_))
      split <;> exact ⟨rfl, rfl⟩
  | deferAssistantWake id error =>
      obtain ⟨⟨s', b⟩, hop, hw⟩ := Result.bind_eq_ok.mp h
      obtain ⟨_, -, hs⟩ := Result.bind_eq_ok.mp hop
      rw [Result.pure_eq_ok] at hw
      split at hs <;> rw [Result.pure_eq_ok] at hs <;> obtain ⟨rfl, -⟩ := Prod.mk.inj hs
      · exact .inr (.inr (hw ▸ Quiet.same s))
      · refine .inr (.inr (hw ▸ Quiet.mapWakes fun w => ?_))
        split <;> exact ⟨rfl, rfl⟩
  | registerAssistantWorker channel t =>
      obtain ⟨s', hop, hw⟩ := Result.bind_eq_ok.mp h
      obtain ⟨_, -, hs⟩ := Result.bind_eq_ok.mp hop
      rw [Result.pure_eq_ok] at hw hs
      exact .inr (.inr (hw ▸ hs ▸ Quiet.of_tables rfl rfl rfl rfl rfl rfl))
  | createTask title =>
      obtain ⟨⟨s', t⟩, hop, hw⟩ := Result.bind_eq_ok.mp h
      obtain ⟨s'', hins, hs⟩ := Result.bind_eq_ok.mp hop
      rw [Result.pure_eq_ok] at hw hs
      obtain ⟨rfl, rfl⟩ := Prod.mk.inj hs
      obtain ⟨-, hf, rfl⟩ := Store.insertTask_eq_ok.mp hins
      exact .inr (.inr (hw ▸ Quiet.addTask hf))
  | insertTask t =>
      obtain ⟨s', hins, hw⟩ := Result.bind_eq_ok.mp h
      rw [Result.pure_eq_ok] at hw
      obtain ⟨-, hf, rfl⟩ := Store.insertTask_eq_ok.mp hins
      exact .inr (.inr (hw ▸ Quiet.addTask hf))
  | startRun t n engine policy =>
      obtain ⟨⟨s', r⟩, hop, hw⟩ := Result.bind_eq_ok.mp h
      obtain ⟨s'', hins, hs⟩ := Result.bind_eq_ok.mp hop
      rw [Result.pure_eq_ok] at hw hs
      obtain ⟨rfl, rfl⟩ := Prod.mk.inj hs
      obtain ⟨-, hf, rfl⟩ := Store.insertRun_eq_ok.mp hins
      exact .inr (.inr (hw ▸ Quiet.addRun hf))
  | insertRun r =>
      obtain ⟨s', hins, hw⟩ := Result.bind_eq_ok.mp h
      rw [Result.pure_eq_ok] at hw
      obtain ⟨-, hf, rfl⟩ := Store.insertRun_eq_ok.mp hins
      exact .inr (.inr (hw ▸ Quiet.addRun hf))
  | putSetting key value =>
      obtain ⟨s', hop, hw⟩ := Result.bind_eq_ok.mp h
      obtain ⟨_, -, hs⟩ := Result.bind_eq_ok.mp hop
      rw [Result.pure_eq_ok] at hw hs
      exact .inr (.inr (hw ▸ hs ▸ Quiet.of_tables rfl rfl rfl rfl rfl rfl))
  | requestApproval r t toolCallId scope options expiresAt =>
      obtain ⟨⟨s', a⟩, hop, hw⟩ := Result.bind_eq_ok.mp h
      obtain ⟨_, -, hop⟩ := Result.bind_eq_ok.mp hop
      obtain ⟨_, -, hs⟩ := Result.bind_eq_ok.mp hop
      rw [Result.pure_eq_ok] at hw hs
      obtain ⟨rfl, -⟩ := Prod.mk.inj hs
      exact .inr (.inr (hw ▸ Quiet.of_tables rfl rfl rfl rfl rfl rfl))
  | upsertNode n =>
      obtain ⟨s', hop, hw⟩ := Result.bind_eq_ok.mp h
      obtain ⟨_, -, hs⟩ := Result.bind_eq_ok.mp hop
      rw [Result.pure_eq_ok] at hw hs
      exact .inr (.inr (hw ▸ hs ▸ Quiet.of_tables rfl rfl rfl rfl rfl rfl))

/-- The calls that write the wakes. -/
def StoreCall.WritesWakes : StoreCall → Prop
  | .appendNodeEvent .. | .completeAssistantWake _ | .deferAssistantWake .. => True
  | _ => False

/-- The calls that write the approvals. -/
def StoreCall.WritesApprovals : StoreCall → Prop
  | .requestApproval .. | .resolveApproval .. => True
  | _ => False

/-- **What a call leaves alone**: the wakes and the approvals, if it is not one of
theirs. -/
theorem StoreCall.perform_frame {env : CallEnv} {s : Store} {call : StoreCall} {w : Written}
    (h : call.perform env s = .ok w) :
    (¬ call.WritesWakes → w.store.wakes = s.wakes) ∧
      (¬ call.WritesApprovals → w.store.approvals = s.approvals) := by
  cases call with
  | appendCommandBundle c d e disp =>
      obtain ⟨⟨s', o⟩, hop, hw⟩ := Result.bind_eq_ok.mp h
      rw [Result.pure_eq_ok] at hw
      obtain ⟨-, ⟨r, -, rfl, rfl⟩ | ⟨-, -, rfl, rfl⟩⟩ := Store.appendCommandBundle_eq_ok.mp hop
      · exact hw ▸ ⟨fun _ => rfl, fun _ => rfl⟩
      · exact hw ▸ ⟨fun _ => rfl, fun _ => rfl⟩
  | appendNodeEvent id d =>
      obtain ⟨⟨s', o⟩, hop, hw⟩ := Result.bind_eq_ok.mp h
      rw [Result.pure_eq_ok] at hw
      refine ⟨fun hno => absurd trivial hno, fun _ => ?_⟩
      obtain ⟨-, ⟨r, -, rfl, -⟩ | ⟨-, -, -, rfl, -⟩⟩ := Store.appendNodeEvent_eq_ok.mp hop
      · exact hw ▸ rfl
      · exact hw ▸ Store.terminalStatuses_approvals d
  | resolveApproval id decision actor now =>
      obtain ⟨⟨s', a⟩, hop, hw⟩ := Result.bind_eq_ok.mp h
      rw [Result.pure_eq_ok] at hw
      refine ⟨fun _ => ?_, fun hno => absurd trivial hno⟩
      obtain ⟨-, -, row, current, -, -, hs⟩ := Store.resolveApproval_eq_ok.mp hop
      obtain rfl := hw
      split at hs
      · exact hs.1 ▸ rfl
      · exact hs.1 ▸ rfl
  | acknowledgeDispatch c =>
      obtain ⟨⟨s', b⟩, hop, hw⟩ := Result.bind_eq_ok.mp h
      rw [Result.pure_eq_ok] at hw
      obtain ⟨-, rfl, -⟩ := Store.ackWhere_eq_ok.mp hop
      exact hw ▸ ⟨fun _ => rfl, fun _ => rfl⟩
  | acknowledgeDispatchFrom c n =>
      obtain ⟨⟨s', b⟩, hop, hw⟩ := Result.bind_eq_ok.mp h
      rw [Result.pure_eq_ok] at hw
      obtain ⟨-, rfl, -⟩ := Store.ackWhere_eq_ok.mp hop
      exact hw ▸ ⟨fun _ => rfl, fun _ => rfl⟩
  | completeAssistantWake id =>
      obtain ⟨⟨s', b⟩, hop, hw⟩ := Result.bind_eq_ok.mp h
      obtain ⟨_, -, hs⟩ := Result.bind_eq_ok.mp hop
      rw [Result.pure_eq_ok] at hw hs
      obtain ⟨rfl, -⟩ := Prod.mk.inj hs
      exact hw ▸ ⟨fun hno => absurd trivial hno, fun _ => rfl⟩
  | deferAssistantWake id error =>
      obtain ⟨⟨s', b⟩, hop, hw⟩ := Result.bind_eq_ok.mp h
      obtain ⟨_, -, hs⟩ := Result.bind_eq_ok.mp hop
      rw [Result.pure_eq_ok] at hw
      refine ⟨fun hno => absurd trivial hno, fun _ => ?_⟩
      split at hs <;> rw [Result.pure_eq_ok] at hs <;> obtain ⟨rfl, -⟩ := Prod.mk.inj hs
      · exact hw ▸ rfl
      · exact hw ▸ rfl
  | registerAssistantWorker channel t =>
      obtain ⟨s', hop, hw⟩ := Result.bind_eq_ok.mp h
      obtain ⟨_, -, hs⟩ := Result.bind_eq_ok.mp hop
      rw [Result.pure_eq_ok] at hw hs
      exact hw ▸ hs ▸ ⟨fun _ => rfl, fun _ => rfl⟩
  | createTask title =>
      obtain ⟨⟨s', t⟩, hop, hw⟩ := Result.bind_eq_ok.mp h
      obtain ⟨s'', hins, hs⟩ := Result.bind_eq_ok.mp hop
      rw [Result.pure_eq_ok] at hw hs
      obtain ⟨rfl, rfl⟩ := Prod.mk.inj hs
      obtain ⟨-, -, rfl⟩ := Store.insertTask_eq_ok.mp hins
      exact hw ▸ ⟨fun _ => rfl, fun _ => rfl⟩
  | insertTask t =>
      obtain ⟨s', hins, hw⟩ := Result.bind_eq_ok.mp h
      rw [Result.pure_eq_ok] at hw
      obtain ⟨-, -, rfl⟩ := Store.insertTask_eq_ok.mp hins
      exact hw ▸ ⟨fun _ => rfl, fun _ => rfl⟩
  | startRun t n engine policy =>
      obtain ⟨⟨s', r⟩, hop, hw⟩ := Result.bind_eq_ok.mp h
      obtain ⟨s'', hins, hs⟩ := Result.bind_eq_ok.mp hop
      rw [Result.pure_eq_ok] at hw hs
      obtain ⟨rfl, rfl⟩ := Prod.mk.inj hs
      obtain ⟨-, -, rfl⟩ := Store.insertRun_eq_ok.mp hins
      exact hw ▸ ⟨fun _ => rfl, fun _ => rfl⟩
  | insertRun r =>
      obtain ⟨s', hins, hw⟩ := Result.bind_eq_ok.mp h
      rw [Result.pure_eq_ok] at hw
      obtain ⟨-, -, rfl⟩ := Store.insertRun_eq_ok.mp hins
      exact hw ▸ ⟨fun _ => rfl, fun _ => rfl⟩
  | putSetting key value =>
      obtain ⟨s', hop, hw⟩ := Result.bind_eq_ok.mp h
      obtain ⟨_, -, hs⟩ := Result.bind_eq_ok.mp hop
      rw [Result.pure_eq_ok] at hw hs
      exact hw ▸ hs ▸ ⟨fun _ => rfl, fun _ => rfl⟩
  | requestApproval r t toolCallId scope options expiresAt =>
      obtain ⟨⟨s', a⟩, hop, hw⟩ := Result.bind_eq_ok.mp h
      obtain ⟨_, -, hop⟩ := Result.bind_eq_ok.mp hop
      obtain ⟨_, -, hs⟩ := Result.bind_eq_ok.mp hop
      rw [Result.pure_eq_ok] at hw hs
      obtain ⟨rfl, -⟩ := Prod.mk.inj hs
      exact hw ▸ ⟨fun _ => rfl, fun hno => absurd trivial hno⟩
  | upsertNode n =>
      obtain ⟨s', hop, hw⟩ := Result.bind_eq_ok.mp h
      obtain ⟨-, rfl⟩ := Store.upsertNode_eq_ok.mp hop
      rw [Result.pure_eq_ok] at hw
      exact hw ▸ ⟨fun _ => rfl, fun _ => rfl⟩

/-! ## Preservation -/

theorem EntityWrite.onTasks_ids (e : EntityWrite) (ts : List TaskRow) :
    (e.onTasks ts).map TaskOf.id = ts.map TaskOf.id ++ e.minted.filterMap Minted.taskId := by
  cases e with
  | none => simp [onTasks, minted]
  | task t => simp [onTasks, minted, Minted.taskId, TaskOf.toRow]
  | run r =>
      have hkeys : (Table.update TaskOf.id r.taskId
          (fun t : TaskRow => { t with status := .running }) ts).map TaskOf.id =
          ts.map TaskOf.id := by
        refine Table.update_keys ?_ ts
        intro t
        rfl
      simp only [onTasks, hkeys, minted, Minted.taskId, List.filterMap_cons,
        List.filterMap_nil, List.append_nil]

theorem EntityWrite.onRuns_ids (e : EntityWrite) (rs : List RunRow) :
    (e.onRuns rs).map RunOf.id = rs.map RunOf.id ++ e.minted.filterMap Minted.runId := by
  cases e with
  | none => simp [onRuns, minted]
  | task t => simp [onRuns, minted, Minted.runId]
  | run r => simp [onRuns, minted, Minted.runId, RunOf.toRow]

namespace EventLog

variable {s : Store} {env : CallEnv}

/-- The three clauses about the log alone, for a row appended with the next
sequence and a new id. -/
theorem log_snoc (h : EventLog s) {e : EventRow} (hseq : e.sequence = s.maxSequence + 1)
    (hid : e.eventId ∉ s.events.map EventOf.eventId) :
    Gapless ((s.events ++ [e]).map EventOf.sequence) ∧
      Table.Unique EventOf.eventId (s.events ++ [e]) := by
  refine ⟨?_, h.eventIds.snoc hid⟩
  rw [List.map_append, List.map_singleton, hseq, h.maxSequence_eq]
  have := h.sequences.snoc
  rwa [List.length_map] at this

theorem bundled (h : EventLog s) {c : CommandId} {d : EventDraft} {e : EntityWrite}
    {disp : Option (NodeId × HubToNode)}
    (hl : Table.lookup ReceiptRow.commandId s.receipts c = none)
    (hadm : s.Admits env c e disp) : EventLog (s.bundled env c d e disp) := by
  obtain ⟨⟨-, -, hid⟩, hf, -⟩ := hadm
  have hlog := h.log_snoc (e := s.commandEvent env c d) rfl hid
  have hrec := Table.lookup_eq_none.mp hl
  constructor
  case sequences => exact hlog.1
  case eventIds => exact hlog.2
  case receipts =>
    simp [Store.bundled, h.receipts, ReceiptRow.key, EventOf.receiptKey,
      Store.commandEvent, Store.eventRow]
  case receiptIds => exact h.receiptIds.snoc hrec
  case dispatchIds =>
    cases disp with
    | none => simpa [Store.bundled, dispatchRows] using h.dispatchIds
    | some nm => exact h.dispatchIds.snoc (h.dispatch_fresh hl)
  case dispatched =>
    intro x hx
    simp only [Store.bundled, List.map_append, List.map_singleton, List.mem_append,
      List.mem_singleton] at hx ⊢
    rcases hx with hx | hx
    · exact .inl (h.dispatched x hx)
    · cases disp with
      | none => cases hx
      | some nm => exact .inr (by rw [List.mem_singleton.mp hx])
  case taskIds =>
    unfold Table.Unique
    simp only [Store.bundled, EntityWrite.onTasks_ids]
    cases e with
    | none => exact (List.append_nil _).symm ▸ h.taskIds
    | run r => exact (List.append_nil _).symm ▸ h.taskIds
    | task t => exact List.nodup_append_comm.mp (List.nodup_cons.mpr ⟨hf, h.taskIds⟩)
  case runIds =>
    unfold Table.Unique
    simp only [Store.bundled, EntityWrite.onRuns_ids]
    cases e with
    | none => exact (List.append_nil _).symm ▸ h.runIds
    | task t => exact (List.append_nil _).symm ▸ h.runIds
    | run r => exact List.nodup_append_comm.mp (List.nodup_cons.mpr ⟨hf, h.runIds⟩)
  case wakeIds => exact h.wakeIds
  case wakes =>
    intro w hw
    obtain ⟨x, hx, hkey⟩ := h.wakes w hw
    exact ⟨x, List.mem_append_left _ hx, hkey⟩

theorem nodeAppended (h : EventLog s) {id : EventId} (d : EventDraft)
    (hl : Table.lookup EventOf.eventId s.events id = none) :
    EventLog (s.nodeAppended env id d) := by
  have hid := Table.lookup_eq_none.mp hl
  have hlog := h.log_snoc (e := s.nodeEvent env id d) rfl hid
  have hkey : ∀ w ∈ s.wakeRows id (s.maxSequence + 1) d env.now,
      w.eventId = id ∧ w.sequence = s.maxSequence + 1 := by
    intro w hw
    unfold Store.wakeRows at hw
    split at hw
    · rw [List.mem_singleton] at hw
      subst hw
      exact ⟨rfl, rfl⟩
    · cases hw
  constructor
  case sequences => exact hlog.1
  case eventIds => exact hlog.2
  case receipts =>
    simp [Store.nodeAppended, h.receipts, EventOf.receiptKey, Store.nodeEvent, Store.eventRow]
  case receiptIds => simpa [Store.nodeAppended] using h.receiptIds
  case dispatchIds => simpa [Store.nodeAppended] using h.dispatchIds
  case dispatched => simpa [Store.nodeAppended] using h.dispatched
  case taskIds =>
    unfold Table.Unique Store.nodeAppended
    rw [Store.terminalStatuses_taskIds]
    exact h.taskIds
  case runIds =>
    unfold Table.Unique Store.nodeAppended
    rw [Store.terminalStatuses_runIds]
    exact h.runIds
  case wakeIds =>
    have hfresh := h.wakes_fresh hid d env.now
    simp only [Store.nodeAppended]
    revert hfresh
    unfold Store.wakeRows
    split
    · intro hfresh
      exact h.wakeIds.snoc (hfresh _ (List.mem_singleton_self _)).1
    · intro _
      simpa using h.wakeIds
  case wakes =>
    intro w hw
    rcases List.mem_append.mp hw with hw | hw
    · obtain ⟨x, hx, hkey⟩ := h.wakes w hw
      exact ⟨x, List.mem_append_left _ hx, hkey⟩
    · obtain ⟨hwid, hwseq⟩ := hkey w hw
      exact ⟨s.nodeEvent env id d, List.mem_append_right _ (List.mem_singleton_self _),
        hwid.symm, hwseq.symm⟩

theorem quiet (h : EventLog s) {w : Written} (hq : Quiet s w) : EventLog w.store := by
  constructor
  case sequences => exact hq.events ▸ h.sequences
  case eventIds => exact hq.events ▸ h.eventIds
  case receipts => rw [hq.receipts, hq.events, h.receipts]
  case receiptIds => exact hq.receipts ▸ h.receiptIds
  case dispatchIds =>
    unfold Table.Unique
    rw [hq.dispatches]
    exact h.dispatchIds
  case dispatched =>
    intro d hd
    have hmem := List.mem_map_of_mem (f := DispatchRow.commandId) hd
    rw [hq.dispatches] at hmem
    obtain ⟨d', hd', heq⟩ := List.mem_map.mp hmem
    rw [hq.receipts, ← heq]
    exact h.dispatched d' hd'
  case taskIds =>
    unfold Table.Unique
    rw [hq.tasks, List.nodup_append]
    exact ⟨h.taskIds, hq.newTasks.1, fun a ha b hb hab => hq.newTasks.2 b hb (hab ▸ ha)⟩
  case runIds =>
    unfold Table.Unique
    rw [hq.runs, List.nodup_append]
    exact ⟨h.runIds, hq.newRuns.1, fun a ha b hb hab => hq.newRuns.2 b hb (hab ▸ ha)⟩
  case wakeIds =>
    have hkeys := congrArg (List.map Prod.fst) hq.wakes
    rw [List.map_map, List.map_map] at hkeys
    exact (congrArg List.Nodup hkeys).mpr h.wakeIds
  case wakes =>
    intro x hx
    have hmem := List.mem_map_of_mem (f := fun w : WakeRow => (w.eventId, w.sequence)) hx
    rw [hq.wakes] at hmem
    obtain ⟨x', hx', heq⟩ := List.mem_map.mp hmem
    obtain ⟨hid, hseq⟩ := Prod.mk.inj heq
    obtain ⟨e, he, h1, h2⟩ := h.wakes x' hx'
    exact ⟨e, hq.events.symm ▸ he, h1.trans hid, h2.trans hseq⟩

/-- **One call.** -/
theorem perform (h : EventLog s) {call : StoreCall} {w : Written}
    (hw : call.perform env s = .ok w) : EventLog w.store := by
  obtain ⟨c, d, e, disp, -, hl, hadm, rfl⟩ | ⟨id, d, -, hl, rfl⟩ | hq := call.perform_cases hw
  · exact h.bundled hl hadm
  · exact h.nodeAppended d hl
  · exact h.quiet hq

theorem migrate (h : EventLog s) (m : List (ℤ × String)) :
    EventLog { s with migrations := m } := by
  constructor
  case sequences => exact h.sequences
  case eventIds => exact h.eventIds
  case receipts => exact h.receipts
  case receiptIds => exact h.receiptIds
  case dispatchIds => exact h.dispatchIds
  case dispatched => exact h.dispatched
  case taskIds => exact h.taskIds
  case runIds => exact h.runIds
  case wakeIds => exact h.wakeIds
  case wakes => exact h.wakes

end EventLog

/-- Migrating writes the migration history and nothing else, also when a
migration fails. -/
theorem Store.applyMigrations_fst (refusal : ℤ → Option String) (ms : List (ℤ × String))
    (s : Store) : ∃ m, (s.applyMigrations refusal ms).1 = { s with migrations := m } := by
  induction ms generalizing s with
  | nil => exact ⟨s.migrations, rfl⟩
  | cons vn ms ih =>
      obtain ⟨version, name⟩ := vn
      unfold applyMigrations
      split
      · exact ⟨s.migrations, rfl⟩
      · exact ih _

theorem Store.runMigrations_fst (refusal : ℤ → Option String) (s : Store) :
    ∃ m, (s.runMigrations refusal).1 = { s with migrations := m } := by
  unfold runMigrations
  split
  · exact ⟨s.migrations, rfl⟩
  · exact applyMigrations_fst refusal _ s

/-! ## Over a run -/

/-- The tables and the records of the run agree. -/
structure Recorded (db : Database) : Prop where
  log : EventLog db.store
  accepted : db.accepted.map (fun a => (a.1, a.2.sequence, a.2.eventId)) =
    db.store.receipts.map ReceiptRow.key
  tasks : db.store.tasks.map TaskOf.id = db.minted.filterMap (fun m => m.2.taskId)
  runs : db.store.runs.map RunOf.id = db.minted.filterMap (fun m => m.2.runId)
  origins : (db.minted.filterMap Prod.fst).Sublist (db.accepted.map Prod.fst)

namespace Recorded

variable {db db' : Database}

theorem acceptedIds (h : Recorded db) :
    db.accepted.map Prod.fst = db.store.receipts.map ReceiptRow.commandId := by
  have := congrArg (List.map Prod.fst) h.accepted
  rwa [List.map_map, List.map_map] at this

private theorem filterMap_minted {α : Type} (f : Minted → Option α) (c : Option CommandId)
    (ms : List Minted) :
    (ms.map (fun m => (c, m))).filterMap (fun m => f m.2) = ms.filterMap f := by
  rw [List.filterMap_map]
  rfl

/-- **One call.** -/
theorem call (h : Recorded db) {env : CallEnv} {c : StoreCall} {w : Written}
    (hw : c.perform env db.store = .ok w) : Recorded (db.record w) := by
  refine ⟨h.log.perform hw, ?_, ?_, ?_, ?_⟩
  all_goals
    obtain ⟨c, d, e, disp, -, -, -, rfl⟩ | ⟨id, d, -, -, rfl⟩ | hq := c.perform_cases hw
  -- the acceptances
  · simp [Database.record, Store.bundled, h.accepted, ReceiptRow.key]
  · simp [Database.record, Store.nodeAppended, h.accepted]
  · simp [Database.record, hq.accepted, hq.receipts, h.accepted]
  -- the task rows
  · simp only [Database.record, List.filterMap_append, filterMap_minted, ← h.tasks]
    exact e.onTasks_ids _
  · simp only [Database.record, List.map_nil, List.append_nil, ← h.tasks]
    exact Store.terminalStatuses_taskIds d
  · simp only [Database.record, List.filterMap_append, filterMap_minted, ← h.tasks, hq.tasks]
  -- the run rows
  · simp only [Database.record, List.filterMap_append, filterMap_minted, ← h.runs]
    exact e.onRuns_ids _
  · simp only [Database.record, List.map_nil, List.append_nil, ← h.runs]
    exact Store.terminalStatuses_runIds d
  · simp only [Database.record, List.filterMap_append, filterMap_minted, ← h.runs, hq.runs]
  -- the command that minted an entity
  · simp only [Database.record, List.filterMap_append, List.map_append]
    refine h.origins.append ?_
    cases e <;> simp [EntityWrite.minted]
  · simpa [Database.record] using h.origins
  · simpa [Database.record, hq.accepted, List.filterMap_map, Function.comp_def] using h.origins

theorem step (h : Recorded db) {a : DatabaseLabel} (hs : db.step a = some db') :
    Recorded db' := by
  cases a with
  | call env c =>
      simp only [Database.step] at hs
      split at hs
      · split at hs <;> cases hs
        · next hw => exact h.call hw
        · exact h
      · cases hs
  | close =>
      cases hs
      exact ⟨h.log, h.accepted, h.tasks, h.runs, h.origins⟩
  | reopen refusal =>
      simp only [Database.step] at hs
      split at hs
      · cases hs
      · cases hs
        obtain ⟨m, hm⟩ := db.store.runMigrations_fst refusal
        constructor <;> simp only [hm]
        · exact h.log.migrate m
        · exact h.accepted
        · exact h.tasks
        · exact h.runs
        · exact h.origins

theorem of_reach {db : Database} (h : Database.system.Reach Anyway db) : Recorded db := by
  refine h.invariant ?_ fun s a t hs _ hstep => hs.step hstep
  rintro s rfl
  exact ⟨EventLog.blank, rfl, rfl, rfl, List.Sublist.slnil⟩

/-- An accepted command is found in the receipts with its first outcome. -/
theorem lookup_receipt (h : Recorded db) {c : CommandId} {o : AppendOutcome}
    (ho : (c, o) ∈ db.accepted) :
    ∃ r, Table.lookup ReceiptRow.commandId db.store.receipts c = some r ∧
      r.sequence = o.sequence ∧ r.eventId = o.eventId := by
  have hmem := List.mem_map_of_mem (f := fun a => (a.1, a.2.sequence, a.2.eventId)) ho
  rw [h.accepted] at hmem
  obtain ⟨r, hr, hkey⟩ := List.mem_map.mp hmem
  obtain ⟨hc, hrest⟩ := Prod.mk.inj hkey
  obtain ⟨hseq, hid⟩ := Prod.mk.inj hrest
  exact ⟨r, (Table.lookup_eq_some_iff h.log.receiptIds).mpr ⟨hr, hc⟩, hseq, hid⟩

end Recorded

/-! ## The log and receipt contract -/

/-- What one command owns: at most one event, one dispatch, one set of minted
entities. -/
def Database.Owns (db : Database) (c : CommandId) : Prop :=
  db.store.events.countP (fun e => decide (e.commandId = some c)) ≤ 1 ∧
  db.store.dispatches.countP (fun d => decide (d.commandId = c)) ≤ 1 ∧
  db.minted.countP (fun m => decide (m.1 = some c)) ≤ 1

/-- Submitting `c` again returns the outcome `o` and leaves every table alone,
whatever draft, entity and dispatch come with it. -/
def Database.Replays (db : Database) (c : CommandId) (o : AppendOutcome) : Prop :=
  ∀ env : CallEnv,
    (∀ d e disp, db.store.appendCommandBundle env c d e disp =
      env.admit.map (fun _ => (db.store, ⟨o.sequence, o.eventId, false⟩))) ∧
    db.store.commandOutcome env c =
      env.admit.map (fun _ => some ⟨o.sequence, o.eventId, false⟩)

theorem countP_some_le_one {ρ κ : Type} [DecidableEq κ] {key : ρ → Option κ} {t : List ρ}
    (h : (t.filterMap key).Nodup) (k : κ) :
    t.countP (fun r => decide (key r = some k)) ≤ 1 := by
  have hcount := List.nodup_iff_count_le_one.mp h k
  rw [List.count_filterMap] at hcount
  refine le_trans (le_of_eq (List.countP_congr fun r _ => ?_)) hcount
  simp

theorem Recorded.owns {db : Database} (h : Recorded db) (c : CommandId) : db.Owns c := by
  refine ⟨?_, ?_, ?_⟩
  · exact countP_some_le_one (h.log.receiptIds_eq ▸ h.log.receiptIds) c
  · have hc := List.nodup_iff_count_le_one.mp h.log.dispatchIds c
    rw [List.count, List.countP_map] at hc
    refine le_trans (le_of_eq (List.countP_congr fun d _ => ?_)) hc
    simp
  · refine countP_some_le_one (h.origins.nodup ?_) c
    rw [h.acceptedIds]
    exact h.log.receiptIds

theorem Recorded.replays {db : Database} (h : Recorded db) {c : CommandId}
    {o : AppendOutcome} (ho : (c, o) ∈ db.accepted) : db.Replays c o := by
  obtain ⟨r, hl, hseq, hid⟩ := h.lookup_receipt ho
  intro env
  unfold Store.appendCommandBundle Store.commandOutcome
  rw [hl, ← hseq, ← hid]
  cases env.admit <;> exact ⟨fun _ _ _ => rfl, rfl⟩

/-- **The log and receipt contract**, for every run of the store's operations
with refusals, retries and reopenings: the log is `1 … n` and its event ids are
unique; the receipts are the command events, one to one, and record the first
acceptances; every task and run row was minted once; a command owns at most one
of each kind; and an accepted command is only ever replayed. -/
theorem event_log_and_receipts {db : Database} (h : Database.system.Reach Anyway db) :
    (db.store.events.map EventOf.sequence = after 0 db.store.events.length ∧
      (db.store.events.map EventOf.eventId).Nodup) ∧
    (db.store.receipts.map ReceiptRow.key = db.store.events.filterMap EventOf.receiptKey ∧
      (db.store.receipts.map ReceiptRow.commandId).Nodup ∧
      db.store.receipts.map ReceiptRow.key =
        db.accepted.map (fun a => (a.1, a.2.sequence, a.2.eventId))) ∧
    (db.store.tasks.map TaskOf.id = db.minted.filterMap (fun m => m.2.taskId) ∧
      (db.store.tasks.map TaskOf.id).Nodup ∧
      db.store.runs.map RunOf.id = db.minted.filterMap (fun m => m.2.runId) ∧
      (db.store.runs.map RunOf.id).Nodup) ∧
    (∀ c, db.Owns c) ∧
    ∀ c o, (c, o) ∈ db.accepted → db.Replays c o := by
  have hr := Recorded.of_reach h
  refine ⟨⟨?_, hr.log.eventIds⟩, ⟨hr.log.receipts, hr.log.receiptIds, hr.accepted.symm⟩,
    ⟨hr.tasks, hr.log.taskIds, hr.runs, hr.log.runIds⟩, hr.owns, fun c o => hr.replays⟩
  have := hr.log.sequences
  unfold Gapless at this
  rwa [List.length_map] at this

/-- A short run: a task is created, its command is retried with a dispatch,
a node event is delivered twice, and the file is reopened before a last retry. -/
def Database.sample : List DatabaseLabel :=
  let env := fun u : ℕ => (⟨.epoch, BitVec.ofNat 128 u, none⟩ : CallEnv)
  let task : Task := ⟨⟨1#128⟩, "t", .open, .epoch⟩
  let draft := EventDraft.new .taskCreated task.id ⟨"hub"⟩ .epoch
  let create := StoreCall.appendCommandBundle ⟨7#128⟩ draft (.task task) none
  let retry := StoreCall.appendCommandBundle ⟨7#128⟩ draft (.task task) (some (⟨"n"⟩, .heartbeat))
  [.reopen (fun _ => none), .call (env 2) create, .call (env 3) retry,
    .call (env 4) (.appendNodeEvent ⟨9#128⟩ draft), .call (env 5) (.appendNodeEvent ⟨9#128⟩ draft),
    .close, .reopen (fun _ => none), .call (env 6) create]

theorem event_log_and_receipts_sample :
    ∃ db, Database.system.run ⟨Store.blank, false, [], []⟩ Database.sample = some db ∧
      db.store.events.length = 2 ∧
      db.store.events.map EventOf.sequence = after 0 2 ∧
      db.Replays ⟨7#128⟩ ⟨1, ⟨2#128⟩, true⟩ := by
  refine ⟨_, rfl, rfl, ?_⟩
  have hreach := System.Reach.of_run (System.Reach.start (M := Database.system) rfl)
    (rfl : Database.system.run _ Database.sample = some _)
  have hlog := event_log_and_receipts hreach
  exact ⟨hlog.1.1, hlog.2.2.2.2 _ _ (List.mem_singleton_self _)⟩

end Stackhour.Domain
