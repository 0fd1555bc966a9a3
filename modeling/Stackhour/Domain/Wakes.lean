import Stackhour.Domain.EventLog
import Stackhour.Domain.TimeOrder

/-!
# Assistant wakes

A completed or failed run of a task that an assistant's channel waits for owes
that channel a wake. Beside the database stands the record of a run: the wakes
owed, the time of the next attempt of each as a time, the deferrals and the
completions. The rows of the wakes agree with it, and the query of the pending
wakes, which compares texts, answers from it while the years have four digits.
-/

namespace Stackhour.Domain

open TransitionSystem

/-! ## The operations on wakes -/

namespace Store

variable {s s' : Store} {env : CallEnv}

theorem completeAssistantWake_eq_ok {id : EventId} {b : Bool} :
    s.completeAssistantWake env id = .ok (s', b) ↔ env.refusal = none ∧
      s' = { s with
        wakes := s.wakes.map (fun w =>
          if openWake id w then { w with processedAt := some (fmtTime env.now) } else w) } ∧
      b = decide (s.wakes.countP (openWake id) = 1) := by
  unfold completeAssistantWake
  simp only [Result.bind_eq_ok, CallEnv.admit_eq_ok, exists_const, Result.pure_eq_ok,
    Prod.mk.injEq]
  exact and_congr_right fun _ => and_congr eq_comm eq_comm

/-- The open wake after another failed attempt. -/
def deferred (env : CallEnv) (error : String) (attempts : ℤ) (w : WakeRow) : WakeRow :=
  { w with
    attemptCount := attempts + 1
    nextAttemptAt := fmtTime (env.now.addSeconds (wakeDelay (attempts + 1)))
    lastError := some (String.ofList (error.toList.take 500)) }

theorem deferAssistantWake_eq_ok {id : EventId} {error : String} {b : Bool} :
    s.deferAssistantWake env id error = .ok (s', b) ↔ env.refusal = none ∧
      ((s.wakes.find? (openWake id) = none ∧ s' = s ∧ b = false) ∨
        ∃ wake, s.wakes.find? (openWake id) = some wake ∧
          s' = { s with
            wakes := s.wakes.map (fun w =>
              if openWake id w then deferred env error wake.attemptCount w else w) } ∧
          b = true) := by
  unfold deferAssistantWake
  simp only [Result.bind_eq_ok, CallEnv.admit_eq_ok, exists_const]
  refine and_congr_right fun _ => ?_
  cases hfind : s.wakes.find? (openWake id) with
  | none =>
      simp only [Result.pure_eq_ok, Prod.mk.injEq, true_and, reduceCtorEq, false_and, exists_false,
        or_false]
      exact and_congr eq_comm eq_comm
  | some wake =>
      simp only [Result.pure_eq_ok, Prod.mk.injEq, reduceCtorEq, false_and, false_or,
        Option.some.injEq, exists_eq_left']
      exact and_congr eq_comm eq_comm

end Store

/-- The wakes after a call. -/
def StoreCall.wakesAfter (env : CallEnv) (s : Store) : StoreCall → List WakeRow
  | .appendNodeEvent id d =>
      if id ∈ s.events.map EventOf.eventId then s.wakes
      else s.wakes ++ s.wakeRows id (s.maxSequence + 1) d env.now
  | .completeAssistantWake id => s.wakes.map (fun w =>
      if Store.openWake id w then { w with processedAt := some (fmtTime env.now) } else w)
  | .deferAssistantWake id error =>
      match s.wakes.find? (Store.openWake id) with
      | none => s.wakes
      | some wake => s.wakes.map (fun w =>
          if Store.openWake id w then Store.deferred env error wake.attemptCount w else w)
  | _ => s.wakes

/-- **What a call does to the wakes.** -/
theorem StoreCall.perform_wakes {env : CallEnv} {s : Store} {call : StoreCall} {w : Written}
    (h : call.perform env s = .ok w) : w.store.wakes = call.wakesAfter env s := by
  cases call with
  | appendNodeEvent id d =>
      obtain ⟨⟨s', o⟩, hop, hw⟩ := Result.bind_eq_ok.mp h
      rw [Result.pure_eq_ok] at hw
      simp only [wakesAfter]
      obtain ⟨-, ⟨r, hl, rfl, rfl⟩ | ⟨hl, -, -, rfl, rfl⟩⟩ := Store.appendNodeEvent_eq_ok.mp hop
      · have hmem : id ∈ s'.events.map EventOf.eventId := by
          rw [← Table.lookup_isSome, hl]
          rfl
        rw [if_pos hmem]
        exact hw ▸ rfl
      · rw [if_neg (Table.lookup_eq_none.mp hl)]
        exact hw ▸ rfl
  | completeAssistantWake id =>
      obtain ⟨⟨s', b⟩, hop, hw⟩ := Result.bind_eq_ok.mp h
      rw [Result.pure_eq_ok] at hw
      obtain ⟨-, rfl, -⟩ := Store.completeAssistantWake_eq_ok.mp hop
      exact hw ▸ rfl
  | deferAssistantWake id error =>
      obtain ⟨⟨s', b⟩, hop, hw⟩ := Result.bind_eq_ok.mp h
      rw [Result.pure_eq_ok] at hw
      simp only [wakesAfter]
      obtain ⟨-, ⟨hfind, rfl, -⟩ | ⟨wake, hfind, rfl, -⟩⟩ :=
        Store.deferAssistantWake_eq_ok.mp hop
      · rw [hfind]
        exact hw ▸ rfl
      · rw [hfind]
        exact hw ▸ rfl
  | _ => exact (perform_frame h).1 id

/-! ## The record of a run -/

/-- Something that happened to a wake. -/
inductive WakeChange where
  | created (eventId : EventId) (channel : String)
  | deferred (eventId : EventId)
  | completed (eventId : EventId)

/-- The kinds of event that report the end of a run to the assistant. -/
def reportsEnd : EventKind → Bool
  | .runCompleted | .runFailed => true
  | _ => false

/-- What a call is to be remembered for: a new event that reports the end of a
run of a task with a registered channel, and what `complete` and `defer` say
they have done. -/
def StoreCall.wakeChange (env : CallEnv) (s : Store) : StoreCall → Option WakeChange
  | .appendNodeEvent id d =>
      match s.appendNodeEvent env id d with
      | .ok (_, o) =>
          if o.created ∧ reportsEnd d.kind ∧ d.runId.isSome then
            (Table.lookup WorkerRow.taskId s.workers d.taskId).map (fun w => .created id w.channel)
          else none
      | .error _ => none
  | .completeAssistantWake id =>
      match s.completeAssistantWake env id with
      | .ok (_, true) => some (.completed id)
      | _ => none
  | .deferAssistantWake id error =>
      match s.deferAssistantWake env id error with
      | .ok (_, true) => some (.deferred id)
      | _ => none
  | _ => none

/-- The seconds before the next attempt after `n` deferrals and one more. -/
def backoff (n : ℕ) : ℕ := 5 * 2 ^ min n 8

/-- The wakes owed with their channels, in the order of their events; the time of
the next attempt of each; what was deferred, and what was completed. -/
structure WakeRecord where
  owed : List (EventId × String)
  next : EventId → Option DateTime
  deferred : List EventId
  completed : List EventId

namespace WakeRecord

/-- The record of a run that has not begun. -/
def empty : WakeRecord := ⟨[], fun _ => none, [], []⟩

def after (r : WakeRecord) (now : DateTime) : Option WakeChange → WakeRecord
  | none => r
  | some (.created id channel) =>
      { r with
        owed := r.owed ++ [(id, channel)]
        next := Function.update r.next id (some now) }
  | some (.deferred id) =>
      { r with
        next := Function.update r.next id (some (now.addSeconds (backoff (r.deferred.count id))))
        deferred := r.deferred ++ [id] }
  | some (.completed id) => { r with completed := r.completed ++ [id] }

/-- The wakes of a channel that are not completed and whose next attempt is not
after `now`, oldest first. -/
def due (r : WakeRecord) (channel : String) (now : DateTime) : List EventId :=
  (r.owed.filter (fun o => decide (o.2 = channel ∧ o.1 ∉ r.completed) &&
    (r.next o.1).any (fun t => decide (t ≤ now)))).map Prod.fst

/-- The wake is owed and not completed. -/
def Open (r : WakeRecord) (id : EventId) : Prop := id ∈ r.owed.map Prod.fst ∧ id ∉ r.completed

instance (r : WakeRecord) (id : EventId) : Decidable (r.Open id) :=
  inferInstanceAs (Decidable (_ ∧ _))

end WakeRecord

def Database.noteWakes (db : Database) (r : WakeRecord) : DatabaseLabel → WakeRecord
  | .call env c => r.after env.now (c.wakeChange env db.store)
  | _ => r

/-- The database with the record of its wakes. -/
def wakeHistory : System (Database × WakeRecord) DatabaseLabel :=
  Database.system.recording WakeRecord.empty Database.noteWakes

/-! ## What a call changes -/

namespace Store

variable {s : Store} {id : EventId} {q : ℤ} {d : EventDraft} {now : DateTime}

theorem wakeRows_eq (hk : reportsEnd d.kind = true) {r : RunId} (hr : d.runId = some r)
    {worker : WorkerRow} (hl : Table.lookup WorkerRow.taskId s.workers d.taskId = some worker) :
    s.wakeRows id q d now = [⟨id, q, worker.channel, d.taskId, r, d.kind, fmtTime now, 0,
      fmtTime now, none, none⟩] := by
  unfold wakeRows
  rw [hr, hl]
  cases hkind : d.kind with
  | runCompleted => rfl
  | runFailed => rfl
  | _ =>
      rw [hkind] at hk
      cases hk

theorem wakeRows_nil (h : ¬ (reportsEnd d.kind = true ∧ d.runId.isSome = true ∧
    (Table.lookup WorkerRow.taskId s.workers d.taskId).isSome = true)) :
    s.wakeRows id q d now = [] := by
  unfold wakeRows
  split
  · next hk hr hl =>
      refine absurd ⟨?_, ?_, ?_⟩ h
      · revert hk
        cases d.kind <;> simp [terminalOf, reportsEnd]
      · rw [hr]
        rfl
      · rw [hl]
        rfl
  · rfl

/-- At most one wake of an event is open. -/
theorem openWake_count (hu : Table.Unique WakeRow.eventId s.wakes) :
    s.wakes.countP (openWake id) = 1 ↔ ∃ w ∈ s.wakes, openWake id w = true := by
  have hle := List.nodup_iff_count_le_one.mp hu id
  rw [List.count, List.countP_map] at hle
  have hmono : s.wakes.countP (openWake id) ≤ s.wakes.countP ((· == id) ∘ WakeRow.eventId) := by
    refine List.countP_mono_left ?_
    intro w _ hw
    exact beq_iff_eq.mpr (of_decide_eq_true hw).1
  rw [← List.countP_pos_iff]
  omega

/-- What is done to open wakes does nothing where there is none. -/
theorem map_openWake_id {f : WakeRow → WakeRow}
    (h : ¬ ∃ w ∈ s.wakes, openWake id w = true) :
    s.wakes.map (fun w => if openWake id w then f w else w) = s.wakes := by
  have hself : ∀ w ∈ s.wakes, (if openWake id w then f w else w) = w := by
    intro w hw
    exact if_neg fun hopen => h ⟨w, hw, hopen⟩
  exact (List.map_congr_left hself).trans (List.map_id' _)

end Store

section MapOpen

variable {id : EventId} {f : WakeRow → WakeRow}
  (hf : ∀ w, (f w).eventId = w.eventId ∧ (f w).channel = w.channel ∧ (f w).sequence = w.sequence)

include hf

/-- Rewriting the open wakes keeps the columns that `f` keeps. -/
theorem mapOpen_keys (w : WakeRow) :
    (if Store.openWake id w then f w else w).eventId = w.eventId ∧
      (if Store.openWake id w then f w else w).channel = w.channel ∧
      (if Store.openWake id w then f w else w).sequence = w.sequence := by
  split
  · exact hf w
  · exact ⟨rfl, rfl, rfl⟩

theorem mapOpen_rows (wakes : List WakeRow) :
    (wakes.map (fun w => if Store.openWake id w then f w else w)).map
      (fun w => (w.eventId, w.channel)) = wakes.map (fun w => (w.eventId, w.channel)) := by
  rw [List.map_map]
  refine List.map_congr_left ?_
  intro w _
  exact Prod.ext (mapOpen_keys hf w).1 (mapOpen_keys hf w).2.1

theorem mapOpen_ids (wakes : List WakeRow) :
    (wakes.map (fun w => if Store.openWake id w then f w else w)).map WakeRow.eventId =
      wakes.map WakeRow.eventId := by
  rw [List.map_map]
  exact List.map_congr_left fun w _ => (mapOpen_keys hf w).1

theorem mapOpen_ordered {wakes : List WakeRow}
    (h : wakes.Pairwise (fun a b => a.sequence < b.sequence)) :
    (wakes.map (fun w => if Store.openWake id w then f w else w)).Pairwise
      (fun a b => a.sequence < b.sequence) := by
  rw [List.pairwise_map]
  refine h.imp ?_
  intro a b hab
  rwa [(mapOpen_keys hf a).2.2, (mapOpen_keys hf b).2.2]

end MapOpen

/-- The wakes of a store after a call, by what the call is remembered for. -/
inductive WakeStep (env : CallEnv) (s : Store) : StoreCall → Option WakeChange → List WakeRow → Prop
  | still {call : StoreCall} : WakeStep env s call none s.wakes
  | created {id : EventId} {d : EventDraft} {r : RunId} {channel : String}
      (hid : id ∉ s.events.map EventOf.eventId) :
      WakeStep env s (.appendNodeEvent id d) (some (.created id channel))
        (s.wakes ++ [⟨id, s.maxSequence + 1, channel, d.taskId, r, d.kind, fmtTime env.now, 0,
          fmtTime env.now, none, none⟩])
  | deferred {id : EventId} {error : String} {wake : WakeRow} (hmem : wake ∈ s.wakes)
      (hopen : Store.openWake id wake = true) :
      WakeStep env s (.deferAssistantWake id error) (some (.deferred id))
        (s.wakes.map (fun w =>
          if Store.openWake id w then Store.deferred env error wake.attemptCount w else w))
  | completed {id : EventId} {wake : WakeRow} (hmem : wake ∈ s.wakes)
      (hopen : Store.openWake id wake = true) :
      WakeStep env s (.completeAssistantWake id) (some (.completed id))
        (s.wakes.map (fun w =>
          if Store.openWake id w then { w with processedAt := some (fmtTime env.now) } else w))

/-- **One call.** -/
theorem StoreCall.perform_wakeStep {env : CallEnv} {s : Store} (hlog : EventLog s)
    {call : StoreCall} {w : Written} (h : call.perform env s = .ok w) :
    WakeStep env s call (call.wakeChange env s) w.store.wakes := by
  have hwakes := perform_wakes h
  cases call with
  | appendNodeEvent id d =>
      obtain ⟨⟨s', o⟩, hop, -⟩ := Result.bind_eq_ok.mp h
      rw [hwakes]
      simp only [wakesAfter, wakeChange, hop]
      obtain ⟨-, ⟨r, hl, -, rfl⟩ | ⟨hl, -, -, -, rfl⟩⟩ := Store.appendNodeEvent_eq_ok.mp hop
      · have hmem : id ∈ s.events.map EventOf.eventId := by
          rw [← Table.lookup_isSome, hl]
          rfl
        rw [if_pos hmem, if_neg (fun hc => Bool.false_ne_true hc.1)]
        exact .still
      · rw [if_neg (Table.lookup_eq_none.mp hl)]
        by_cases howes : reportsEnd d.kind = true ∧ d.runId.isSome = true ∧
            (Table.lookup WorkerRow.taskId s.workers d.taskId).isSome = true
        · obtain ⟨hk, hr, hworker⟩ := howes
          obtain ⟨r, hr'⟩ := Option.isSome_iff_exists.mp hr
          obtain ⟨worker, hworker⟩ := Option.isSome_iff_exists.mp hworker
          rw [Store.wakeRows_eq hk hr' hworker, if_pos ⟨rfl, hk, hr⟩, hworker]
          exact .created (Table.lookup_eq_none.mp hl)
        · rw [Store.wakeRows_nil howes, List.append_nil]
          split
          · next hc =>
              cases hworker : Table.lookup WorkerRow.taskId s.workers d.taskId with
              | none => exact .still
              | some worker => exact absurd ⟨hc.2.1, hc.2.2, by rw [hworker]; rfl⟩ howes
          · exact .still
  | completeAssistantWake id =>
      obtain ⟨⟨s', b⟩, hop, -⟩ := Result.bind_eq_ok.mp h
      rw [hwakes]
      simp only [wakesAfter, wakeChange, hop]
      obtain ⟨-, -, rfl⟩ := Store.completeAssistantWake_eq_ok.mp hop
      by_cases hopen : ∃ w ∈ s.wakes, Store.openWake id w = true
      · rw [decide_eq_true ((Store.openWake_count hlog.wakeIds).mpr hopen)]
        obtain ⟨wake, hmem, hopen⟩ := hopen
        exact .completed hmem hopen
      · rw [decide_eq_false (mt (Store.openWake_count hlog.wakeIds).mp hopen),
          Store.map_openWake_id hopen]
        exact .still
  | deferAssistantWake id error =>
      obtain ⟨⟨s', b⟩, hop, -⟩ := Result.bind_eq_ok.mp h
      rw [hwakes]
      simp only [wakesAfter, wakeChange, hop]
      obtain ⟨-, ⟨hfind, -, rfl⟩ | ⟨wake, hfind, -, rfl⟩⟩ := Store.deferAssistantWake_eq_ok.mp hop
      · rw [hfind]
        exact .still
      · rw [hfind]
        exact .deferred (List.mem_of_find?_eq_some hfind) (List.find?_some hfind)
  | _ => exact hwakes ▸ .still

/-- A call that fails is remembered for nothing. -/
theorem StoreCall.wakeChange_error {env : CallEnv} {s : Store} {call : StoreCall} {err : Error}
    (h : call.perform env s = .error err) : call.wakeChange env s = none := by
  cases call with
  | appendNodeEvent id d =>
      cases hop : s.appendNodeEvent env id d with
      | error _ => simp only [wakeChange, hop]
      | ok r =>
          rw [perform, hop] at h
          cases h
  | completeAssistantWake id =>
      cases hop : s.completeAssistantWake env id with
      | error _ => simp only [wakeChange, hop]
      | ok r =>
          rw [perform, hop] at h
          cases h
  | deferAssistantWake id error =>
      cases hop : s.deferAssistantWake env id error with
      | error _ => simp only [wakeChange, hop]
      | ok r =>
          rw [perform, hop] at h
          cases h
  | _ => rfl

/-! ## The law -/

/-- **The law of the wakes**, in a state of a run: there is one row for each wake
owed, and none else; its text of the next attempt is the text of the recorded
time, and its attempts are its deferrals, in 64 bits; no wake is completed twice. -/
structure WakesKept (db : Database) (r : WakeRecord) : Prop where
  rows : db.store.wakes.map (fun w => (w.eventId, w.channel)) = r.owed
  once : (r.owed.map Prod.fst).Nodup
  next : ∀ w ∈ db.store.wakes, ∃ t, r.next w.eventId = some t ∧ w.nextAttemptAt = fmtTime t
  attempts : ∀ w ∈ db.store.wakes, w.attemptCount = r.deferred.count w.eventId ∧
    w.attemptCount < 2 ^ 63
  completed : r.completed.Nodup

/-- The answers a caller gets: the pending wakes are the due ones, and an open
wake, and only such, can be completed or deferred. -/
structure WakesAnswered (db : Database) (r : WakeRecord) (env : CallEnv) : Prop where
  pending : ∀ channel, ∃ ws, db.store.pendingAssistantWakes env channel = .ok ws ∧
    ws.map AssistantWake.eventId = r.due channel env.now
  complete : ∀ id, ∃ s, db.store.completeAssistantWake env id = .ok (s, decide (r.Open id))
  defer : ∀ id error, ∃ s, db.store.deferAssistantWake env id error = .ok (s, decide (r.Open id))

/-- The clocks stay in years of four digits at most, and no wake is deferred so
often that its counter overflows. -/
def FourDigitClocks (h : Database × WakeRecord) : DatabaseLabel → Prop
  | .call env (.appendNodeEvent _ _) => env.now.year ≤ 9999
  | .call env (.deferAssistantWake id _) =>
      (env.now.addSeconds (backoff (h.2.deferred.count id))).year ≤ 9999 ∧
        h.2.deferred.count id + 1 < 2 ^ 63
  | _ => True

/-! ## The rows and the record -/

/-- The delay of the code is the backoff. -/
theorem wakeDelay_eq (n : ℕ) : Store.wakeDelay ((n : ℤ) + 1) = backoff n := by
  unfold Store.wakeDelay backoff
  congr 2
  omega

/-- The rows agree with the record. -/
structure WakesTracked (wakes : List WakeRow) (r : WakeRecord) : Prop where
  rows : wakes.map (fun w => (w.eventId, w.channel)) = r.owed
  ordered : wakes.Pairwise (fun a b => a.sequence < b.sequence)
  next : ∀ w ∈ wakes, ∃ t, r.next w.eventId = some t ∧ w.nextAttemptAt = fmtTime t ∧
    t.year ≤ 9999
  attempts : ∀ w ∈ wakes, w.attemptCount = r.deferred.count w.eventId ∧
    w.attemptCount < 2 ^ 63
  processed : ∀ w ∈ wakes, (w.processedAt = none ↔ w.eventId ∉ r.completed)
  completed : r.completed.Nodup
  known : ∀ id, id ∈ r.deferred ∨ id ∈ r.completed → id ∈ wakes.map WakeRow.eventId

namespace WakesTracked

variable {s : Store} {r : WakeRecord} {env : CallEnv} {id : EventId}

theorem ids (hi : WakesTracked s.wakes r) :
    r.owed.map Prod.fst = s.wakes.map WakeRow.eventId := by
  rw [← hi.rows, List.map_map]
  rfl

/-- An open wake is the only wake of its event. -/
theorem open_iff (hlog : EventLog s) {wake : WakeRow} (hmem : wake ∈ s.wakes)
    (hopen : Store.openWake id wake = true) {w : WakeRow} (hw : w ∈ s.wakes) :
    Store.openWake id w = true ↔ w.eventId = id := by
  constructor
  · intro h
    exact (of_decide_eq_true h).1
  · intro h
    have hid := (of_decide_eq_true hopen).1
    rw [List.inj_on_of_nodup_map hlog.wakeIds hw hmem (h.trans hid.symm)]
    exact hopen

/-- A new wake. -/
theorem created (hi : WakesTracked s.wakes r) (hlog : EventLog s)
    (hid : id ∉ s.events.map EventOf.eventId) (hnow : env.now.year ≤ 9999) {row : WakeRow}
    (hrow : row.eventId = id ∧ row.sequence = s.maxSequence + 1 ∧
      row.nextAttemptAt = fmtTime env.now ∧ row.attemptCount = 0 ∧ row.processedAt = none) :
    WakesTracked (s.wakes ++ [row]) (r.after env.now (some (.created id row.channel))) := by
  obtain ⟨rfl, hseq, hnext, hcount, hprocessed⟩ := hrow
  have hnew : ∀ w ∈ s.wakes, w.eventId ≠ row.eventId := by
    intro w hw heq
    obtain ⟨e, he, hkey, -⟩ := hlog.wakes w hw
    exact hid (heq ▸ hkey ▸ List.mem_map_of_mem he)
  have hfresh : row.eventId ∉ s.wakes.map WakeRow.eventId := by
    intro hmem
    obtain ⟨w, hw, heq⟩ := List.mem_map.mp hmem
    exact hnew w hw heq
  have hunknown : row.eventId ∉ r.deferred ∧ row.eventId ∉ r.completed :=
    ⟨fun h => hfresh (hi.known _ (.inl h)), fun h => hfresh (hi.known _ (.inr h))⟩
  constructor
  case rows =>
    rw [List.map_append, hi.rows]
    rfl
  case ordered =>
    rw [List.pairwise_append]
    refine ⟨hi.ordered, List.pairwise_singleton _ _, ?_⟩
    intro w hw w' hw'
    obtain rfl := List.mem_singleton.mp hw'
    obtain ⟨e, he, -, heq⟩ := hlog.wakes w hw
    have hle := Store.le_maxSequence he
    omega
  case next =>
    intro w hw
    rcases List.mem_append.mp hw with hw | hw
    · obtain ⟨t, ht, htext⟩ := hi.next w hw
      exact ⟨t, (Function.update_of_ne (hnew w hw) _ _).trans ht, htext⟩
    · obtain rfl := List.mem_singleton.mp hw
      exact ⟨env.now, Function.update_self _ _ _, hnext, hnow⟩
  case attempts =>
    intro w hw
    rcases List.mem_append.mp hw with hw | hw
    · exact hi.attempts w hw
    · obtain rfl := List.mem_singleton.mp hw
      show w.attemptCount = r.deferred.count w.eventId ∧ _
      rw [hcount, List.count_eq_zero.mpr hunknown.1]
      exact ⟨rfl, by decide⟩
  case processed =>
    intro w hw
    rcases List.mem_append.mp hw with hw | hw
    · exact hi.processed w hw
    · obtain rfl := List.mem_singleton.mp hw
      exact iff_of_true hprocessed hunknown.2
  case completed => exact hi.completed
  case known =>
    intro i hmem
    rw [List.map_append]
    exact List.mem_append_left _ (hi.known i hmem)

/-- An open wake is put off. -/
theorem deferred (hi : WakesTracked s.wakes r) (hlog : EventLog s) {wake : WakeRow}
    (hmem : wake ∈ s.wakes) (hopen : Store.openWake id wake = true) (error : String)
    (hnext : (env.now.addSeconds (backoff (r.deferred.count id))).year ≤ 9999)
    (hfew : r.deferred.count id + 1 < 2 ^ 63) :
    WakesTracked (s.wakes.map (fun w =>
        if Store.openWake id w then Store.deferred env error wake.attemptCount w else w))
      (r.after env.now (some (.deferred id))) := by
  have hid : wake.eventId = id := (of_decide_eq_true hopen).1
  have hcount : wake.attemptCount = r.deferred.count id := hid ▸ (hi.attempts wake hmem).1
  have hiff : ∀ w ∈ s.wakes, Store.openWake id w = true ↔ w.eventId = id :=
    fun w hw => open_iff hlog hmem hopen hw
  have hf : ∀ w, (Store.deferred env error wake.attemptCount w).eventId = w.eventId ∧
      (Store.deferred env error wake.attemptCount w).channel = w.channel ∧
      (Store.deferred env error wake.attemptCount w).sequence = w.sequence :=
    fun w => ⟨rfl, rfl, rfl⟩
  constructor
  case rows => exact (mapOpen_rows hf s.wakes).trans hi.rows
  case ordered => exact mapOpen_ordered hf hi.ordered
  case next =>
    rw [List.forall_mem_map]
    intro w hw
    by_cases heq : w.eventId = id
    · rw [if_pos ((hiff w hw).mpr heq)]
      refine ⟨env.now.addSeconds (backoff (r.deferred.count id)), ?_, ?_, hnext⟩
      · exact heq ▸ Function.update_self _ _ _
      · show fmtTime _ = fmtTime _
        rw [hcount, wakeDelay_eq]
    · rw [if_neg (mt (hiff w hw).mp heq)]
      obtain ⟨t, ht, htext⟩ := hi.next w hw
      exact ⟨t, (Function.update_of_ne heq _ _).trans ht, htext⟩
  case attempts =>
    rw [List.forall_mem_map]
    intro w hw
    rw [(mapOpen_keys hf w).1]
    show _ = ((r.deferred ++ [id]).count w.eventId : ℤ) ∧ _
    by_cases heq : w.eventId = id
    · rw [if_pos ((hiff w hw).mpr heq), heq, List.count_append, List.count_singleton_self]
      show wake.attemptCount + 1 = _ ∧ wake.attemptCount + 1 < _
      rw [hcount]
      exact ⟨by push_cast; rfl, by exact_mod_cast hfew⟩
    · rw [if_neg (mt (hiff w hw).mp heq), List.count_append,
        List.count_eq_zero.mpr (fun h => heq (List.mem_singleton.mp h))]
      exact hi.attempts w hw
  case processed =>
    rw [List.forall_mem_map]
    intro w hw
    rw [(mapOpen_keys hf w).1]
    refine Iff.trans ?_ (hi.processed w hw)
    split <;> rfl
  case completed => exact hi.completed
  case known =>
    intro i hknown
    rw [mapOpen_ids hf]
    rcases hknown with hknown | hknown
    · rcases List.mem_append.mp hknown with hknown | hknown
      · exact hi.known i (.inl hknown)
      · obtain rfl := List.mem_singleton.mp hknown
        exact List.mem_map.mpr ⟨wake, hmem, hid⟩
    · exact hi.known i (.inr hknown)

/-- An open wake is completed. -/
theorem complete (hi : WakesTracked s.wakes r) (hlog : EventLog s) {wake : WakeRow}
    (hmem : wake ∈ s.wakes) (hopen : Store.openWake id wake = true) :
    WakesTracked (s.wakes.map (fun w =>
        if Store.openWake id w then { w with processedAt := some (fmtTime env.now) } else w))
      (r.after env.now (some (.completed id))) := by
  have hid : wake.eventId = id := (of_decide_eq_true hopen).1
  have hopen' : id ∉ r.completed :=
    hid ▸ (hi.processed wake hmem).mp (of_decide_eq_true hopen).2
  have hf : ∀ w : WakeRow, { w with processedAt := some (fmtTime env.now) }.eventId = w.eventId ∧
      { w with processedAt := some (fmtTime env.now) }.channel = w.channel ∧
      { w with processedAt := some (fmtTime env.now) }.sequence = w.sequence :=
    fun w => ⟨rfl, rfl, rfl⟩
  constructor
  case rows => exact (mapOpen_rows hf s.wakes).trans hi.rows
  case ordered => exact mapOpen_ordered hf hi.ordered
  case next =>
    rw [List.forall_mem_map]
    intro w hw
    rw [(mapOpen_keys hf w).1]
    obtain ⟨t, ht, htext, hyear⟩ := hi.next w hw
    refine ⟨t, ht, ?_, hyear⟩
    rw [← htext]
    split <;> rfl
  case attempts =>
    rw [List.forall_mem_map]
    intro w hw
    rw [(mapOpen_keys hf w).1]
    have hcount := hi.attempts w hw
    split
    · exact hcount
    · exact hcount
  case processed =>
    rw [List.forall_mem_map]
    intro w hw
    rw [(mapOpen_keys hf w).1]
    show _ ↔ w.eventId ∉ r.completed ++ [id]
    rw [List.mem_append, List.mem_singleton, not_or]
    by_cases heq : w.eventId = id
    · rw [if_pos ((open_iff hlog hmem hopen hw).mpr heq)]
      refine iff_of_false ?_ fun h => h.2 heq
      intro hnone
      cases hnone
    · rw [if_neg (mt (open_iff hlog hmem hopen hw).mp heq), hi.processed w hw]
      exact (and_iff_left heq).symm
  case completed =>
    show (r.completed ++ [id]).Nodup
    exact List.nodup_append_comm.mp (List.nodup_cons.mpr ⟨hopen', hi.completed⟩)
  case known =>
    intro i hknown
    rw [mapOpen_ids hf]
    rcases hknown with hknown | hknown
    · exact hi.known i (.inl hknown)
    · rcases List.mem_append.mp hknown with hknown | hknown
      · exact hi.known i (.inr hknown)
      · obtain rfl := List.mem_singleton.mp hknown
        exact List.mem_map.mpr ⟨wake, hmem, hid⟩

/-- **One call.** -/
theorem step (hi : WakesTracked s.wakes r) (hlog : EventLog s) {db : Database} {c : StoreCall}
    (hok : FourDigitClocks (db, r) (.call env c))
    {change : Option WakeChange} {wakes : List WakeRow} (hs : WakeStep env s c change wakes) :
    WakesTracked wakes (r.after env.now change) := by
  cases hs with
  | still => exact hi
  | created hid => exact hi.created hlog hid hok ⟨rfl, rfl, rfl, rfl, rfl⟩
  | deferred hmem hopen => exact hi.deferred hlog hmem hopen _ hok.1 hok.2
  | completed hmem hopen => exact hi.complete hlog hmem hopen

theorem of_reach {h : Database × WakeRecord} (hreach : wakeHistory.Reach FourDigitClocks h) :
    WakesTracked h.1.store.wakes h.2 := by
  refine hreach.invariant_reach (P := fun h => WakesTracked h.1.store.wakes h.2) ?_ ?_
  · rintro ⟨db, r⟩ ⟨hdb, rfl⟩
    obtain rfl : db = _ := hdb
    constructor
    case rows => rfl
    case ordered => exact .nil
    case completed => exact .nil
    case known => rintro id (h | h) <;> cases h
    all_goals
      intro w hw
      cases hw
  · rintro ⟨db, r⟩ a h' hreach hi hok hs
    have hlog := (Recorded.of_reach hreach.of_recording).log
    obtain ⟨db', hdb, rfl⟩ := Option.map_eq_some_iff.mp hs
    cases a with
    | call env c =>
        simp only [Database.system, Database.step] at hdb
        split at hdb
        · split at hdb
          · next w hw =>
              obtain rfl := Option.some.inj hdb
              exact hi.step hlog hok (StoreCall.perform_wakeStep hlog hw)
          · next err hw =>
              obtain rfl := Option.some.inj hdb
              show WakesTracked db.store.wakes (r.after env.now (c.wakeChange env db.store))
              rw [StoreCall.wakeChange_error hw]
              exact hi
        · cases hdb
    | close =>
        obtain rfl := Option.some.inj hdb
        exact hi
    | reopen refusal =>
        simp only [Database.system, Database.step] at hdb
        split at hdb
        · cases hdb
        · obtain rfl := Option.some.inj hdb
          obtain ⟨m, hm⟩ := db.store.runMigrations_fst refusal
          show WakesTracked (db.store.runMigrations refusal).1.wakes r
          rw [hm]
          exact hi

end WakesTracked

/-! ## The answers -/

namespace WakesTracked

variable {db : Database} {r : WakeRecord} {env : CallEnv}

/-- The wakes that can be completed or deferred. -/
theorem exists_open (hi : WakesTracked db.store.wakes r) (id : EventId) :
    (∃ w ∈ db.store.wakes, Store.openWake id w = true) ↔ r.Open id := by
  unfold WakeRecord.Open
  rw [hi.ids, List.mem_map]
  constructor
  · rintro ⟨w, hw, hopen⟩
    obtain ⟨rfl, hnone⟩ := of_decide_eq_true hopen
    exact ⟨⟨w, hw, rfl⟩, (hi.processed w hw).mp hnone⟩
  · rintro ⟨⟨w, hw, rfl⟩, hnot⟩
    exact ⟨w, hw, decide_eq_true ⟨rfl, (hi.processed w hw).mpr hnot⟩⟩

/-- The pending wakes are the due ones. -/
theorem pending (hi : WakesTracked db.store.wakes r) (hr : env.refusal = none)
    (hnow : env.now.Readable) (channel : String) :
    ∃ ws, db.store.pendingAssistantWakes env channel = .ok ws ∧
      ws.map AssistantWake.eventId = r.due channel env.now := by
  have hlets : env.admit = .ok () := CallEnv.admit_eq_ok.mpr hr
  refine ⟨_, by unfold Store.pendingAssistantWakes; rw [hlets]; rfl, ?_⟩
  -- the wakes are stored oldest first
  have hsorted : (db.store.wakes.filter (fun w => decide (w.channel = channel ∧
      w.processedAt = none ∧ w.nextAttemptAt ≤ fmtTime env.now))).Pairwise
      (fun a b : WakeRow => a.sequence ≤ b.sequence) :=
    (hi.ordered.imp fun hlt => le_of_lt hlt).sublist List.filter_sublist
  rw [hsorted.insertionSort_eq, List.map_map]
  unfold WakeRecord.due
  rw [← hi.rows, List.filter_map, List.map_map]
  show (List.filter _ db.store.wakes).map WakeRow.eventId = _
  refine congrArg (List.map WakeRow.eventId) (List.filter_congr ?_)
  intro w hw
  obtain ⟨t, ht, htext, hyear⟩ := hi.next w hw
  have htime : w.nextAttemptAt ≤ fmtTime env.now ↔ t ≤ env.now :=
    htext ▸ (fmtTime_le_iff hnow).mpr hyear
  simp only [Function.comp_apply, ht, Option.any_some, htime, hi.processed w hw]
  rw [← Bool.decide_and]
  congr 1
  exact propext and_assoc.symm

theorem answered (hi : WakesTracked db.store.wakes r) (hlog : EventLog db.store)
    (hr : env.refusal = none) (hnow : env.now.Readable) : WakesAnswered db r env where
  pending := hi.pending hr hnow
  complete id := by
    have hcount : db.store.wakes.countP (Store.openWake id) = 1 ↔ r.Open id := by
      rw [Store.openWake_count hlog.wakeIds, hi.exists_open]
    exact ⟨_, Store.completeAssistantWake_eq_ok.mpr ⟨hr, rfl, (decide_eq_decide.mpr hcount).symm⟩⟩
  defer id error := by
    by_cases hopen : r.Open id
    · obtain ⟨w, hw, hwopen⟩ := (hi.exists_open id).mpr hopen
      obtain ⟨wake, hwake⟩ : ∃ wake, db.store.wakes.find? (Store.openWake id) = some wake := by
        rw [← Option.isSome_iff_exists, List.find?_isSome]
        exact ⟨w, hw, hwopen⟩
      rw [decide_eq_true hopen]
      exact ⟨_, Store.deferAssistantWake_eq_ok.mpr ⟨hr, .inr ⟨wake, hwake, rfl, rfl⟩⟩⟩
    · have hnone : db.store.wakes.find? (Store.openWake id) = none := by
        rw [List.find?_eq_none]
        intro w hw hwopen
        exact hopen ((hi.exists_open id).mp ⟨w, hw, hwopen⟩)
      rw [decide_eq_false hopen]
      exact ⟨_, Store.deferAssistantWake_eq_ok.mpr ⟨hr, .inl ⟨hnone, rfl, rfl⟩⟩⟩

end WakesTracked

/-- **Assistant wakes are created once and never lost**, in the runs whose clocks
stay below the year 10000, for a reader whose clock has a four-digit year. -/
theorem wakes_kept {h : Database × WakeRecord} (hreach : wakeHistory.Reach FourDigitClocks h) :
    WakesKept h.1 h.2 ∧
      ∀ env, env.refusal = none → env.now.Readable → WakesAnswered h.1 h.2 env := by
  have hi := WakesTracked.of_reach hreach
  have hlog := (Recorded.of_reach hreach.of_recording).log
  refine ⟨⟨hi.rows, ?_, ?_, hi.attempts, hi.completed⟩, ?_⟩
  · exact hi.ids ▸ hlog.wakeIds
  · intro w hw
    obtain ⟨t, ht, htext, -⟩ := hi.next w hw
    exact ⟨t, ht, htext⟩
  · intro env hr hnow
    exact hi.answered hlog hr hnow

/-- A call at `now`, minting the id 1. -/
def callAt (now : DateTime) (c : StoreCall) : DatabaseLabel := .call ⟨now, 1#128, none⟩ c

/-- The channel "c" waits for a task. -/
def waiting : DatabaseLabel := callAt .epoch (.registerAssistantWorker "c" ⟨3#128⟩)

/-- A run of the task is completed. -/
def ending : DatabaseLabel := callAt .epoch (.appendNodeEvent ⟨2#128⟩
  ((EventDraft.new .runCompleted ⟨3#128⟩ ⟨"laptop"⟩ .epoch).withRun ⟨4#128⟩))

/-- Its wake is deferred. -/
def deferring (now : DateTime) : DatabaseLabel :=
  callAt now (.deferAssistantWake ⟨2#128⟩ "busy")

def noWakes : Database × WakeRecord := (⟨Store.blank, false, [], []⟩, .empty)

theorem noWakes_init : wakeHistory.init noWakes := ⟨rfl, rfl⟩

theorem wakes_kept_sample :
    ∃ h, wakeHistory.run noWakes [.reopen (fun _ => none), waiting, ending, deferring .epoch] =
        some h ∧
      h.2.owed = [(⟨2#128⟩, "c")] ∧ h.2.deferred.length = 1 ∧ WakesKept h.1 h.2 ∧
      WakesAnswered h.1 h.2 ⟨.epoch, 5#128, none⟩ := by
  refine ⟨_, rfl, rfl, rfl, ?_⟩
  have hfresh : wakeHistory.Reach FourDigitClocks noWakes := .start noWakes_init
  have hopen := hfresh.next (a := DatabaseLabel.reopen (fun _ => none)) trivial rfl
  have hwaiting := hopen.next (a := waiting) trivial rfl
  have hended := hwaiting.next (a := ending) (show DateTime.epoch.year ≤ 9999 by decide) rfl
  have hdeferred := hended.next (a := deferring .epoch) ⟨by decide, by decide⟩ rfl
  obtain ⟨hkept, hanswered⟩ := wakes_kept hdeferred
  exact ⟨hkept, hanswered ⟨.epoch, 5#128, none⟩ rfl (by decide)⟩

/-- Two seconds before the year 10000. -/
def DateTime.lastSeconds : DateTime := ⟨9999, 12, 31, 23, 59, 58, 0, by decide, by decide⟩

/-- A wake deferred into the year 10000 is pending at once. -/
theorem wake_pending_early :
    ∃ h, wakeHistory.Reach Anyway h ∧ ¬ WakesAnswered h.1 h.2 ⟨.lastSeconds, 1#128, none⟩ := by
  have hrun : ∃ h, wakeHistory.run noWakes [.reopen (fun _ => none), waiting, ending,
        deferring .lastSeconds] = some h ∧
      (∃ w ws, h.1.store.pendingAssistantWakes ⟨.lastSeconds, 1#128, none⟩ "c" = .ok (w :: ws)) ∧
      h.2.due "c" .lastSeconds = [] := ⟨_, rfl, ⟨_, _, rfl⟩, by decide⟩
  obtain ⟨h, hrun, ⟨w, ws, hpending⟩, hdue⟩ := hrun
  refine ⟨h, .of_run (.start noWakes_init) hrun, ?_⟩
  intro hans
  obtain ⟨ws', hws, hids⟩ := hans.pending "c"
  obtain rfl := Except.ok.inj (hpending.symm.trans hws)
  rw [hdue] at hids
  cases hids

end Stackhour.Domain
