import Stackhour.Domain.Store

/-!
# What a store operation does when it succeeds

One lemma for each writing operation: when it returns `ok`, and the store it
returns. Proofs about runs cite these and never unfold an operation.
-/

namespace Stackhour.Domain

open Result

/-! ## Timestamps and event rows -/

theorem readTime_fmtTime {t : DateTime} (h : t.Readable) : readTime (fmtTime t) = .ok t := by
  unfold readTime
  rw [parseTime_fmtTime, if_pos h]
  rfl

theorem readTime_fmtTime_error {t : DateTime} (h : ¬ t.Readable) :
    ∃ e, readTime (fmtTime t) = .error e := by
  unfold readTime
  rw [parseTime_fmtTime, if_neg h]
  exact ⟨_, rfl⟩

/-- The event a draft becomes once it is stamped. -/
def EventDraft.stamped (d : EventDraft) (sequence : ℤ) (eventId : EventId)
    (commandId : Option CommandId) (receivedAt : DateTime) : Event where
  sequence := sequence
  eventId := eventId
  commandId := commandId
  kind := d.kind
  taskId := d.taskId
  runId := d.runId
  providerSessionId := d.providerSessionId
  nodeId := d.nodeId
  protocolVersion := d.protocolVersion
  occurredAt := d.occurredAt
  hubReceivedAt := receivedAt
  payload := d.payload

/-- An appended row reads back as the stamped event. -/
theorem rowToEvent_eventRow {d : EventDraft} {q : ℤ} {id : EventId} {c : Option CommandId}
    {now : DateTime} (hd : d.occurredAt.Readable) (hn : now.Readable) :
    rowToEvent (Store.eventRow q id c d now) = .ok (d.stamped q id c now) := by
  simp only [rowToEvent, Store.eventRow, readTime_fmtTime hd, readTime_fmtTime hn]
  rfl

/-- Reading a row back keeps all but its timestamps. -/
theorem rowToEvent_keeps {row : EventRow} {e : Event} (h : rowToEvent row = .ok e) :
    e = { row with occurredAt := e.occurredAt, hubReceivedAt := e.hubReceivedAt } := by
  simp only [rowToEvent, bind_eq_ok, pure_eq_ok] at h
  obtain ⟨_, -, _, -, rfl⟩ := h
  rfl

theorem rowToEvent_eventRow_error {d : EventDraft} {q : ℤ} {i : EventId}
    {c : Option CommandId} {now : DateTime} (h : ¬ (d.occurredAt.Readable ∧ now.Readable)) :
    ∃ e, rowToEvent (Store.eventRow q i c d now) = .error e := by
  unfold rowToEvent Store.eventRow
  by_cases hd : d.occurredAt.Readable
  · obtain ⟨e, he⟩ := readTime_fmtTime_error (fun hn => h ⟨hd, hn⟩)
    simp only [readTime_fmtTime hd, he]
    exact ⟨e, rfl⟩
  · obtain ⟨e, he⟩ := readTime_fmtTime_error hd
    simp only [he]
    exact ⟨e, rfl⟩

/-! ## Entities and dispatches of an append -/

def EntityWrite.onTasks : EntityWrite → List TaskRow → List TaskRow
  | .none, ts => ts
  | .task t, ts => ts ++ [t.toRow]
  | .run r, ts => Table.update TaskOf.id r.taskId (fun t => { t with status := .running }) ts

def EntityWrite.onRuns : EntityWrite → List RunRow → List RunRow
  | .run r, rs => rs ++ [r.toRow]
  | _, rs => rs

/-- The key of the entity is free. -/
def EntityWrite.Fresh (s : Store) : EntityWrite → Prop
  | .none => True
  | .task t => t.id ∉ s.tasks.map TaskOf.id
  | .run r => r.id ∉ s.runs.map RunOf.id

instance (s : Store) (e : EntityWrite) : Decidable (e.Fresh s) := by
  cases e <;> unfold EntityWrite.Fresh <;> infer_instance

/-- The dispatch row of an append, as a list of at most one. -/
def dispatchRows (c : CommandId) (now : DateTime) :
    Option (NodeId × HubToNode) → List DispatchRow
  | none => []
  | some (n, m) => [⟨c, n, m, fmtTime now, none⟩]

namespace Store

variable {s s' : Store} {env : CallEnv}

/-- The event row a command append writes. -/
def commandEvent (env : CallEnv) (s : Store) (c : CommandId) (d : EventDraft) : EventRow :=
  eventRow (s.maxSequence + 1) ⟨env.uuid⟩ (some c) d env.now

/-- The store after a command append that creates its event. -/
def bundled (env : CallEnv) (s : Store) (c : CommandId) (d : EventDraft) (e : EntityWrite)
    (disp : Option (NodeId × HubToNode)) : Store :=
  { s with
    events := s.events ++ [s.commandEvent env c d]
    receipts := s.receipts ++ [⟨c, s.maxSequence + 1, ⟨env.uuid⟩, fmtTime env.now⟩]
    tasks := e.onTasks s.tasks
    runs := e.onRuns s.runs
    dispatches := s.dispatches ++ dispatchRows c env.now disp }

/-- The log has room for one more sequence, and the minted id is new. -/
def HasRoom (env : CallEnv) (s : Store) : Prop :=
  s.maxSequence + 1 < 2 ^ 63 ∧ s.maxSequence + 1 ∉ s.events.map EventOf.sequence ∧
    (⟨env.uuid⟩ : EventId) ∉ s.events.map EventOf.eventId

/-- The schema admits the rows of a command append: every key is free. -/
def Admits (env : CallEnv) (s : Store) (c : CommandId) (e : EntityWrite)
    (disp : Option (NodeId × HubToNode)) : Prop :=
  s.HasRoom env ∧ e.Fresh s ∧ (disp ≠ none → c ∉ s.dispatches.map DispatchRow.commandId)

instance (env : CallEnv) (s : Store) : Decidable (s.HasRoom env) := by
  unfold HasRoom; infer_instance

instance (env : CallEnv) (s : Store) (c : CommandId) (e : EntityWrite)
    (disp : Option (NodeId × HubToNode)) : Decidable (s.Admits env c e disp) := by
  unfold Admits
  cases disp
  · exact decidable_of_iff (s.HasRoom env ∧ e.Fresh s) (by simp)
  · exact decidable_of_iff (s.HasRoom env ∧ e.Fresh s ∧
      c ∉ s.dispatches.map DispatchRow.commandId) (by simp)

theorem le_maxSequence {e : EventRow} (he : e ∈ s.events) : e.sequence ≤ s.maxSequence := by
  unfold maxSequence
  have hmem := List.mem_map_of_mem (f := EventOf.sequence) he
  cases hx : (s.events.map EventOf.sequence).max? with
  | none =>
      rw [List.max?_eq_none_iff.mp hx] at hmem
      cases hmem
  | some m => exact (List.max?_eq_some_iff.mp hx).2 _ hmem

/-- The tail below a newly appended row is that row alone. -/
theorem eventsAfter_appended {e : EventRow} (he : e.sequence = s.maxSequence + 1)
    (hs : s'.events = s.events ++ [e]) :
    s'.eventsAfter env (e.sequence - 1) = (do env.admit; let x ← rowToEvent e; pure [x]) := by
  have hold : s.events.filter (fun r : EventRow => decide (e.sequence - 1 < r.sequence)) = [] := by
    rw [List.filter_eq_nil_iff]
    intro r hr
    have := le_maxSequence hr
    simp only [decide_eq_true_eq]
    omega
  have hnew : [e].filter (fun r : EventRow => decide (e.sequence - 1 < r.sequence)) = [e] :=
    List.filter_eq_self.mpr (by simp only [List.mem_singleton, forall_eq, decide_eq_true_eq]; omega)
  unfold eventsAfter
  rw [hs, List.filter_append, hold, hnew]
  simp only [List.nil_append, List.insertionSort_cons, List.insertionSort_nil,
    List.orderedInsert_nil, List.mapM_cons, List.mapM_nil]
  rfl

theorem nextSequence_eq_ok {q : ℤ} :
    s.nextSequence = .ok q ↔ s.maxSequence + 1 < 2 ^ 63 ∧ q = s.maxSequence + 1 := by
  unfold nextSequence
  split <;> simp_all [eq_comm]

theorem insertEvent_eq_ok {row : EventRow} :
    s.insertEvent row = .ok s' ↔ row.sequence ∉ s.events.map EventOf.sequence ∧
      row.eventId ∉ s.events.map EventOf.eventId ∧
      s' = { s with events := s.events ++ [row] } := by
  unfold insertEvent
  split
  · simp_all
  · split <;> simp_all [eq_comm]

theorem insertReceipt_eq_ok {row : ReceiptRow} :
    s.insertReceipt row = .ok s' ↔ row.commandId ∉ s.receipts.map ReceiptRow.commandId ∧
      s' = { s with receipts := s.receipts ++ [row] } := by
  unfold insertReceipt
  simp only [bind_eq_ok, ofOption_eq_ok, pure_eq_ok, Table.insert_eq_some]
  grind

theorem writeEntity_eq_ok {e : EntityWrite} :
    s.writeEntity e = .ok s' ↔ e.Fresh s ∧
      s' = { s with tasks := e.onTasks s.tasks, runs := e.onRuns s.runs } := by
  cases e with
  | none =>
      simp only [writeEntity, EntityWrite.Fresh, EntityWrite.onTasks, EntityWrite.onRuns,
        Except.ok.injEq, true_and]
      exact eq_comm
  | task t =>
      simp only [writeEntity, insertTaskRow, bind_eq_ok, ofOption_eq_ok, pure_eq_ok,
        Table.insert_eq_some, EntityWrite.Fresh, EntityWrite.onTasks, EntityWrite.onRuns]
      constructor
      · rintro ⟨ts, ⟨hf, rfl⟩, rfl⟩
        exact ⟨hf, rfl⟩
      · rintro ⟨hf, rfl⟩
        exact ⟨_, ⟨hf, rfl⟩, rfl⟩
  | run r =>
      simp only [writeEntity, insertRunRow, bind_eq_ok, ofOption_eq_ok, pure_eq_ok,
        Table.insert_eq_some, EntityWrite.Fresh, EntityWrite.onTasks, EntityWrite.onRuns]
      constructor
      · rintro ⟨_, ⟨rs, ⟨hf, rfl⟩, rfl⟩, rfl⟩
        exact ⟨hf, rfl⟩
      · rintro ⟨hf, rfl⟩
        exact ⟨_, ⟨_, ⟨hf, rfl⟩, rfl⟩, rfl⟩

theorem insertDispatch_eq_ok {c : CommandId} {now : DateTime}
    {disp : Option (NodeId × HubToNode)} :
    s.insertDispatch c now disp = .ok s' ↔
      (disp ≠ none → c ∉ s.dispatches.map DispatchRow.commandId) ∧
      s' = { s with dispatches := s.dispatches ++ dispatchRows c now disp } := by
  cases disp with
  | none =>
      simp only [insertDispatch, dispatchRows, Except.ok.injEq, List.append_nil, ne_eq,
        not_true_eq_false, false_implies, true_and]
      exact eq_comm
  | some nm =>
      simp only [insertDispatch, dispatchRows, bind_eq_ok, ofOption_eq_ok, pure_eq_ok,
        Table.insert_eq_some]
      constructor
      · rintro ⟨ds, ⟨hf, rfl⟩, rfl⟩
        exact ⟨fun _ => hf, rfl⟩
      · rintro ⟨hf, rfl⟩
        exact ⟨_, ⟨hf (by simp), rfl⟩, rfl⟩

/-- **`append_command_bundle`.** A command with a receipt gets it back; another
writes its event, receipt, entity and dispatch together. -/
theorem appendCommandBundle_eq_ok {c : CommandId} {d : EventDraft} {e : EntityWrite}
    {disp : Option (NodeId × HubToNode)} {o : AppendOutcome} :
    s.appendCommandBundle env c d e disp = .ok (s', o) ↔ env.refusal = none ∧
      ((∃ r, Table.lookup ReceiptRow.commandId s.receipts c = some r ∧
          s' = s ∧ o = ⟨r.sequence, r.eventId, false⟩) ∨
        (Table.lookup ReceiptRow.commandId s.receipts c = none ∧ s.Admits env c e disp ∧
          s' = s.bundled env c d e disp ∧ o = ⟨s.maxSequence + 1, ⟨env.uuid⟩, true⟩)) := by
  unfold appendCommandBundle
  simp only [bind_eq_ok, CallEnv.admit_eq_ok, exists_const]
  refine and_congr_right fun _ => ?_
  cases hl : Table.lookup ReceiptRow.commandId s.receipts c with
  | some r =>
      simp only [pure_eq_ok, Prod.mk.injEq, Option.some.injEq, exists_eq_left', reduceCtorEq,
        false_and, or_false]
      exact and_congr eq_comm eq_comm
  | none =>
      have hc := Table.lookup_eq_none.mp hl
      simp only [bind_eq_ok, nextSequence_eq_ok, insertEvent_eq_ok, insertReceipt_eq_ok,
        writeEntity_eq_ok, insertDispatch_eq_ok, pure_eq_ok, Prod.mk.injEq, reduceCtorEq,
        false_and, exists_false, false_or, true_and]
      constructor
      · rintro ⟨q, ⟨hq, rfl⟩, s₁, ⟨hseq, hid, rfl⟩, s₂, ⟨_, rfl⟩, s₃, ⟨hf, rfl⟩, s₄,
          ⟨hd, rfl⟩, rfl, rfl⟩
        exact ⟨⟨⟨hq, hseq, hid⟩, by cases e <;> exact hf, hd⟩, rfl, rfl⟩
      · rintro ⟨⟨⟨hq, hseq, hid⟩, hf, hd⟩, rfl, rfl⟩
        exact ⟨_, ⟨hq, rfl⟩, _, ⟨hseq, hid, rfl⟩, _, ⟨hc, rfl⟩, _,
          ⟨by cases e <;> exact hf, rfl⟩, _, ⟨hd, rfl⟩, rfl, rfl⟩

/-! ## Node events -/

/-- The statuses a terminal event writes to its run and its task. -/
def terminalStatuses (s : Store) (d : EventDraft) : Store :=
  match terminalOf d.kind, d.runId with
  | some (runStatus, taskStatus, _), some runId =>
      (s.setRunStatus runId runStatus).setTaskStatus d.taskId taskStatus
  | _, _ => s

/-- The wake a terminal event of an assistant's worker owes, if any. -/
def wakeRows (s : Store) (eventId : EventId) (sequence : ℤ) (d : EventDraft)
    (now : DateTime) : List WakeRow :=
  match terminalOf d.kind, d.runId, Table.lookup WorkerRow.taskId s.workers d.taskId with
  | some (_, _, true), some runId, some worker =>
      [⟨eventId, sequence, worker.channel, d.taskId, runId, d.kind, fmtTime now, 0,
        fmtTime now, none, none⟩]
  | _, _, _ => []

@[simp] theorem terminalStatuses_events (d : EventDraft) :
    (s.terminalStatuses d).events = s.events := by
  unfold terminalStatuses
  split <;> rfl

@[simp] theorem terminalStatuses_receipts (d : EventDraft) :
    (s.terminalStatuses d).receipts = s.receipts := by
  unfold terminalStatuses
  split <;> rfl

@[simp] theorem terminalStatuses_dispatches (d : EventDraft) :
    (s.terminalStatuses d).dispatches = s.dispatches := by
  unfold terminalStatuses
  split <;> rfl

@[simp] theorem terminalStatuses_workers (d : EventDraft) :
    (s.terminalStatuses d).workers = s.workers := by
  unfold terminalStatuses
  split <;> rfl

@[simp] theorem terminalStatuses_approvals (d : EventDraft) :
    (s.terminalStatuses d).approvals = s.approvals := by
  unfold terminalStatuses
  split <;> rfl

@[simp] theorem terminalStatuses_wakes (d : EventDraft) :
    (s.terminalStatuses d).wakes = s.wakes := by
  unfold terminalStatuses
  split <;> rfl

@[simp] theorem setTaskStatus_ids (t : TaskId) (st : TaskStatus) :
    (s.setTaskStatus t st).tasks.map TaskOf.id = s.tasks.map TaskOf.id := by
  unfold setTaskStatus
  refine Table.update_keys ?_ _
  intro row
  rfl

@[simp] theorem setRunStatus_ids (r : RunId) (st : RunStatus) :
    (s.setRunStatus r st).runs.map RunOf.id = s.runs.map RunOf.id := by
  unfold setRunStatus
  refine Table.update_keys ?_ _
  intro row
  rfl

@[simp] theorem terminalStatuses_taskIds (d : EventDraft) :
    (s.terminalStatuses d).tasks.map TaskOf.id = s.tasks.map TaskOf.id := by
  unfold terminalStatuses
  split
  · rw [setTaskStatus_ids]
    rfl
  · rfl

@[simp] theorem terminalStatuses_runIds (d : EventDraft) :
    (s.terminalStatuses d).runs.map RunOf.id = s.runs.map RunOf.id := by
  unfold terminalStatuses
  split
  · exact setRunStatus_ids _ _
  · rfl

/-- The event row a node append writes. -/
def nodeEvent (env : CallEnv) (s : Store) (id : EventId) (d : EventDraft) : EventRow :=
  eventRow (s.maxSequence + 1) id none d env.now

/-- The store after a node append that creates its event. -/
def nodeAppended (env : CallEnv) (s : Store) (id : EventId) (d : EventDraft) : Store :=
  { s.terminalStatuses d with
    events := s.events ++ [s.nodeEvent env id d]
    wakes := s.wakes ++ s.wakeRows id (s.maxSequence + 1) d env.now }

/-- The keys of the wakes are free. -/
def WakesFresh (s : Store) (ws : List WakeRow) : Prop :=
  ∀ w ∈ ws, w.eventId ∉ s.wakes.map WakeRow.eventId ∧
    w.sequence ∉ s.wakes.map WakeRow.sequence

theorem insertWake_eq_ok {row : WakeRow} :
    s.insertWake row = .ok s' ↔ s.WakesFresh [row] ∧
      s' = { s with wakes := s.wakes ++ [row] } := by
  unfold insertWake WakesFresh
  split
  · simp_all
  · split <;> simp_all [eq_comm]

theorem applyTerminalLifecycleAndWake_eq_ok {id : EventId} {q : ℤ} {d : EventDraft}
    {now : DateTime} :
    s.applyTerminalLifecycleAndWake id q d now = .ok s' ↔
      s.WakesFresh (s.wakeRows id q d now) ∧
      s' = { s.terminalStatuses d with wakes := s.wakes ++ s.wakeRows id q d now } := by
  unfold applyTerminalLifecycleAndWake terminalStatuses wakeRows
  cases hk : terminalOf d.kind with
  | none => simp [WakesFresh, eq_comm (a := s')]
  | some st =>
      obtain ⟨runStatus, taskStatus, wakes⟩ := st
      cases hr : d.runId with
      | none => simp [WakesFresh, eq_comm (a := s')]
      | some runId =>
          cases wakes with
          | false => simp [WakesFresh, eq_comm (a := s'), setRunStatus, setTaskStatus]
          | true =>
              simp only [if_true]
              have hw : ((s.setRunStatus runId runStatus).setTaskStatus d.taskId
                  taskStatus).workers = s.workers := rfl
              rw [hw]
              cases Table.lookup WorkerRow.taskId s.workers d.taskId with
              | none => simp [WakesFresh, eq_comm (a := s'), setRunStatus, setTaskStatus]
              | some worker =>
                  simp only [insertWake_eq_ok]
                  rfl

/-- **`append_node_event`.** An event id the log holds gets its sequence back;
another is appended, with its run's and task's statuses and its wake. -/
theorem appendNodeEvent_eq_ok {id : EventId} {d : EventDraft} {o : AppendOutcome} :
    s.appendNodeEvent env id d = .ok (s', o) ↔ env.refusal = none ∧
      ((∃ row, Table.lookup EventOf.eventId s.events id = some row ∧
          s' = s ∧ o = ⟨row.sequence, id, false⟩) ∨
        (Table.lookup EventOf.eventId s.events id = none ∧
          (s.maxSequence + 1 < 2 ^ 63 ∧ s.maxSequence + 1 ∉ s.events.map EventOf.sequence) ∧
          s.WakesFresh (s.wakeRows id (s.maxSequence + 1) d env.now) ∧
          s' = s.nodeAppended env id d ∧ o = ⟨s.maxSequence + 1, id, true⟩)) := by
  unfold appendNodeEvent
  simp only [bind_eq_ok, CallEnv.admit_eq_ok, exists_const]
  refine and_congr_right fun _ => ?_
  cases hl : Table.lookup EventOf.eventId s.events id with
  | some r =>
      simp only [pure_eq_ok, Prod.mk.injEq, Option.some.injEq, exists_eq_left', reduceCtorEq,
        false_and, or_false]
      exact and_congr eq_comm eq_comm
  | none =>
      have hid := Table.lookup_eq_none.mp hl
      simp only [bind_eq_ok, nextSequence_eq_ok, insertEvent_eq_ok,
        applyTerminalLifecycleAndWake_eq_ok, pure_eq_ok, Prod.mk.injEq, reduceCtorEq,
        false_and, exists_false, false_or, true_and]
      constructor
      · rintro ⟨q, ⟨hq, rfl⟩, s₁, ⟨hseq, _, rfl⟩, s₂, ⟨hw, rfl⟩, rfl, rfl⟩
        refine ⟨⟨hq, hseq⟩, hw, ?_, rfl⟩
        unfold nodeAppended terminalStatuses
        split <;> rfl
      · rintro ⟨⟨hq, hseq⟩, hw, rfl, rfl⟩
        refine ⟨_, ⟨hq, rfl⟩, _, ⟨hseq, hid, rfl⟩, _, ⟨hw, rfl⟩, ?_, rfl⟩
        unfold nodeAppended terminalStatuses
        split <;> rfl

/-! ## Dispatches, tasks, runs -/

/-- The store after an acknowledgement of the pending rows `p` selects. -/
def acked (env : CallEnv) (s : Store) (p : DispatchRow → Bool) : Store :=
  { s with
    dispatches := s.dispatches.map (fun d =>
      if p d && decide (d.ackedAt = none) then { d with ackedAt := some (fmtTime env.now) }
      else d) }

theorem ackWhere_eq_ok {p : DispatchRow → Bool} {b : Bool} :
    s.ackWhere env p = .ok (s', b) ↔ env.refusal = none ∧ s' = s.acked env p ∧
      b = decide (s.dispatches.countP (fun d => p d && decide (d.ackedAt = none)) = 1) := by
  unfold ackWhere
  simp only [bind_eq_ok, CallEnv.admit_eq_ok, exists_const, pure_eq_ok, Prod.mk.injEq]
  exact and_congr_right fun _ => and_congr eq_comm eq_comm

theorem insertTask_eq_ok {t : Task} :
    s.insertTask env t = .ok s' ↔ env.refusal = none ∧ t.id ∉ s.tasks.map TaskOf.id ∧
      s' = { s with tasks := s.tasks ++ [t.toRow] } := by
  unfold insertTask insertTaskRow
  simp only [bind_eq_ok, CallEnv.admit_eq_ok, exists_const, ofOption_eq_ok, pure_eq_ok,
    Table.insert_eq_some]
  refine and_congr_right fun _ => ⟨?_, ?_⟩
  · rintro ⟨ts, ⟨hf, rfl⟩, rfl⟩
    exact ⟨hf, rfl⟩
  · rintro ⟨hf, rfl⟩
    exact ⟨_, ⟨hf, rfl⟩, rfl⟩

theorem insertRun_eq_ok {r : Run} :
    s.insertRun env r = .ok s' ↔ env.refusal = none ∧ r.id ∉ s.runs.map RunOf.id ∧
      s' = { s with runs := s.runs ++ [r.toRow] } := by
  unfold insertRun insertRunRow
  simp only [bind_eq_ok, CallEnv.admit_eq_ok, exists_const, ofOption_eq_ok, pure_eq_ok,
    Table.insert_eq_some]
  refine and_congr_right fun _ => ⟨?_, ?_⟩
  · rintro ⟨ts, ⟨hf, rfl⟩, rfl⟩
    exact ⟨hf, rfl⟩
  · rintro ⟨hf, rfl⟩
    exact ⟨_, ⟨hf, rfl⟩, rfl⟩

/-! ## The text of an id -/

theorem mod_pow_of_digits {b m n k : ℕ} (h : ∀ i < k, m / b ^ i % b = n / b ^ i % b) :
    m % b ^ k = n % b ^ k := by
  induction k with
  | zero => rw [Nat.pow_zero, Nat.mod_one, Nat.mod_one]
  | succ k ih =>
      rw [Nat.mod_pow_succ, Nat.mod_pow_succ, h k (Nat.lt_succ_self k),
        ih (fun i hi => h i (Nat.lt_succ_of_lt hi))]

/-- The hexadecimal digits of an id, the highest first. -/
def hexDigits (u : Uuid) : List Char :=
  (List.range 32).map (fun i =>
    "0123456789abcdef".toList.getD (u.toNat / 16 ^ (31 - i) % 16) '0')

theorem hexDigits_inj {u v : Uuid} (h : hexDigits u = hexDigits v) : u = v := by
  have hdigit : ∀ a b : Fin 16, "0123456789abcdef".toList.getD a '0' =
      "0123456789abcdef".toList.getD b '0' → a = b := by decide
  have hmod := @mod_pow_of_digits 16 u.toNat v.toNat 32 ?_
  · have hlt : ∀ w : Uuid, w.toNat < 16 ^ 32 := fun w => w.isLt
    rw [Nat.mod_eq_of_lt (hlt u), Nat.mod_eq_of_lt (hlt v)] at hmod
    exact BitVec.eq_of_toNat_eq hmod
  · intro i hi
    have hat := List.map_inj_left.mp h (31 - i) (List.mem_range.mpr (by omega))
    rw [show 31 - (31 - i) = i by omega] at hat
    exact congrArg Fin.val
      (hdigit ⟨_, Nat.mod_lt _ (by decide)⟩ ⟨_, Nat.mod_lt _ (by decide)⟩ hat)

/-- The dashes stand between the digits. -/
theorem filter_dashes {ds : List Char} (h : ∀ c ∈ ds, c ≠ '-') :
    (ds.take 8 ++ '-' :: (ds.drop 8).take 4 ++ '-' :: (ds.drop 12).take 4 ++
      '-' :: (ds.drop 16).take 4 ++ '-' :: ds.drop 20).filter (· ≠ '-') = ds := by
  have hkeep : ∀ {cs : List Char}, (∀ c ∈ cs, c ∈ ds) → cs.filter (· ≠ '-') = cs := by
    intro cs hcs
    rw [List.filter_eq_self]
    exact fun c hc => decide_eq_true (h c (hcs c hc))
  have hgroup : ∀ i, ((ds.drop i).take 4).filter (· ≠ '-') = (ds.drop i).take 4 := by
    intro i
    exact hkeep fun c hc => List.mem_of_mem_drop (List.mem_of_mem_take hc)
  have hsplit : ∀ i, (ds.drop i).take 4 ++ ds.drop (i + 4) = ds.drop i := by
    intro i
    rw [← List.drop_drop, List.take_append_drop]
  simp only [List.filter_append, List.filter_cons_of_neg, ne_eq, not_true, decide_false,
    Bool.false_eq_true, not_false_iff]
  rw [hkeep fun _ => List.mem_of_mem_take, hgroup, hgroup, hgroup,
    hkeep fun _ => List.mem_of_mem_drop]
  rw [List.append_assoc, hsplit 16, List.append_assoc, hsplit 12, List.append_assoc, hsplit 8,
    List.take_append_drop]

/-- **Ids with one text are one id.** -/
theorem uuidText_inj {u v : Uuid} (h : uuidText u = uuidText v) : u = v := by
  have hdash : ∀ w : Uuid, ∀ c ∈ hexDigits w, c ≠ '-' := by
    intro w c hc
    obtain ⟨i, -, rfl⟩ := List.mem_map.mp hc
    have hne : ∀ a : Fin 16, "0123456789abcdef".toList.getD a '0' ≠ '-' := by decide
    exact hne ⟨_, Nat.mod_lt _ (by decide)⟩
  have hchars := congrArg (List.filter (· ≠ '-')) (String.ofList_injective h)
  apply hexDigits_inj
  exact (filter_dashes (hdash u)).symm.trans (hchars.trans (filter_dashes (hdash v)))

/-! ## Approvals -/

/-- The store after the first resolution of an approval. -/
def resolved (s : Store) (id : ApprovalId) (decision : Decision) (actor : String)
    (now : DateTime) : Store :=
  { s with
    approvals := Table.update ApprovalOf.id id
      (fun a => { a with
        decision := decision
        resolvedBy := some actor
        resolvedAt := some (fmtTime now) }) s.approvals }

/-- **`resolve_approval`.** A readable row is resolved if it is pending and
returned as it is otherwise. -/
theorem resolveApproval_eq_ok {id : ApprovalId} {decision : Decision} {actor : String}
    {now : DateTime} {a : Approval} :
    s.resolveApproval env id decision actor now = .ok (s', a) ↔
      decision ≠ .pending ∧ env.refusal = none ∧
      ∃ row current, Table.lookup ApprovalOf.id s.approvals id = some row ∧
        rowToApproval row = .ok current ∧
        if current.isPending then
          s' = s.resolved id decision actor now ∧
            a = { current with
              decision := decision, resolvedBy := some actor, resolvedAt := some now }
        else s' = s ∧ a = current := by
  unfold resolveApproval
  by_cases hd : decision = .pending
  · simp [hd]
  · simp only [if_neg hd, bind_eq_ok, CallEnv.admit_eq_ok, exists_const, ofOption_eq_ok]
    constructor
    · rintro ⟨hr, row, hl, current, hc, h⟩
      refine ⟨hd, hr, row, current, hl, hc, ?_⟩
      split at h <;> rename_i hp <;> simp only [pure_eq_ok, Prod.mk.injEq] at h
      · rw [if_pos hp]
        exact ⟨h.1.symm, h.2.symm⟩
      · rw [if_neg hp]
        exact ⟨h.1.symm, h.2.symm⟩
    · rintro ⟨_, hr, row, current, hl, hc, h⟩
      refine ⟨hr, row, hl, current, hc, ?_⟩
      split at h <;> rename_i hp
      · rw [if_pos hp, pure_eq_ok, h.1, h.2]
        rfl
      · rw [if_neg hp, pure_eq_ok, h.1, h.2]

/-! ## Upserts -/

theorem lookup_upsert {ρ κ : Type} [DecidableEq κ] {key : ρ → κ} (row : ρ) (t : List ρ) (k : κ) :
    Table.lookup key (upsert key row (fun _ => row) t) k =
      if key row = k then some row else Table.lookup key t k := by
  unfold upsert
  split
  · next hmem =>
      rw [Table.lookup_update_of (fun _ _ => rfl)]
      by_cases hk : key row = k
      · subst hk
        obtain ⟨old, hold⟩ := Option.isSome_iff_exists.mp (Table.lookup_isSome.mpr hmem)
        rw [if_pos rfl, hold, Option.map_some, if_pos (Table.mem_of_lookup hold).2]
      · rw [if_neg hk]
        cases hl : Table.lookup key t k with
        | none => rfl
        | some old =>
            have hother : key old ≠ key row := (Table.mem_of_lookup hl).2 ▸ Ne.symm hk
            rw [Option.map_some, if_neg hother]
  · next hmem =>
      by_cases hk : key row = k
      · subst hk
        rw [if_pos rfl, Table.lookup_snoc_self hmem]
      · rw [if_neg hk, Table.lookup_snoc_of_ne hk]

theorem upsertNode_eq_ok {node : Node} :
    s.upsertNode env node = .ok s' ↔ env.refusal = none ∧
      s' = { s with nodes := upsert Node.id node (fun _ => node) s.nodes } := by
  unfold upsertNode
  simp only [bind_eq_ok, CallEnv.admit_eq_ok, exists_const, pure_eq_ok]
  exact and_congr_right fun _ => eq_comm

theorem getNode_eq_ok {id : NodeId} {o : Option Node} :
    s.getNode env id = .ok o ↔ env.refusal = none ∧ o = Table.lookup Node.id s.nodes id := by
  unfold getNode
  simp only [bind_eq_ok, CallEnv.admit_eq_ok, exists_const, pure_eq_ok]
  exact and_congr_right fun _ => eq_comm

end Store

end Stackhour.Domain
