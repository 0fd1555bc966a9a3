import Stackhour.Domain.EventLog

/-!
# Reading the log back

The database with the events it has accepted, as the values their callers gave.
The log holds them as rows in the order of acceptance, and a row gives its event
back exactly when its two timestamps have four-digit years.
-/

namespace Stackhour.Domain

open TransitionSystem

/-! ## The row of an event -/

/-- The row that holds an event. -/
def EventOf.toRow (e : Event) : EventRow :=
  { e with occurredAt := fmtTime e.occurredAt, hubReceivedAt := fmtTime e.hubReceivedAt }

/-- Both timestamps have four-digit years. -/
def EventOf.Readable (e : Event) : Prop := e.occurredAt.Readable ∧ e.hubReceivedAt.Readable

theorem readTime_fmtTime_eq_ok {t t' : DateTime} :
    readTime (fmtTime t) = .ok t' ↔ t.Readable ∧ t' = t := by
  by_cases ht : t.Readable
  · rw [readTime_fmtTime ht, Except.ok.injEq]
    constructor
    · intro h
      exact ⟨ht, h.symm⟩
    · intro h
      exact h.2.symm
  · obtain ⟨e, he⟩ := readTime_fmtTime_error ht
    rw [he]
    constructor
    · intro h
      cases h
    · intro h
      exact absurd h.1 ht

/-- **One row.** -/
theorem rowToEvent_toRow (e x : Event) : rowToEvent e.toRow = .ok x ↔ e.Readable ∧ x = e := by
  unfold rowToEvent
  simp only [Result.bind_eq_ok, Result.pure_eq_ok, EventOf.toRow, readTime_fmtTime_eq_ok]
  constructor
  · rintro ⟨_, ⟨ho, rfl⟩, _, ⟨hh, rfl⟩, rfl⟩
    exact ⟨⟨ho, hh⟩, rfl⟩
  · rintro ⟨⟨ho, hh⟩, rfl⟩
    exact ⟨_, ⟨ho, rfl⟩, _, ⟨hh, rfl⟩, rfl⟩

/-! ## Acceptance -/

/-- The event that a call makes the log accept. -/
def StoreCall.accepts (env : CallEnv) (s : Store) : StoreCall → Option Event
  | .appendCommandBundle c d e disp =>
      match s.appendCommandBundle env c d e disp with
      | .ok (_, o) =>
          if o.created then some (d.stamped o.sequence o.eventId (some c) env.now) else none
      | .error _ => none
  | .appendNodeEvent id d =>
      match s.appendNodeEvent env id d with
      | .ok (_, o) =>
          if o.created then some (d.stamped o.sequence o.eventId none env.now) else none
      | .error _ => none
  | _ => none

/-- A call that succeeds appends the row of what it makes the log accept. -/
theorem StoreCall.accepts_perform {env : CallEnv} {s : Store} {call : StoreCall} {w : Written}
    (h : call.perform env s = .ok w) :
    w.store.events = s.events ++ (call.accepts env s).toList.map EventOf.toRow := by
  cases call with
  | appendCommandBundle c d e disp =>
      obtain ⟨⟨s', o⟩, hop, hw⟩ := Result.bind_eq_ok.mp h
      rw [Result.pure_eq_ok] at hw
      simp only [accepts, hop]
      obtain ⟨-, ⟨r, -, rfl, rfl⟩ | ⟨-, -, rfl, rfl⟩⟩ := Store.appendCommandBundle_eq_ok.mp hop
      · obtain rfl := hw
        exact (List.append_nil _).symm
      · obtain rfl := hw
        rfl
  | appendNodeEvent id d =>
      obtain ⟨⟨s', o⟩, hop, hw⟩ := Result.bind_eq_ok.mp h
      rw [Result.pure_eq_ok] at hw
      simp only [accepts, hop]
      obtain ⟨-, ⟨r, -, rfl, rfl⟩ | ⟨-, -, -, rfl, rfl⟩⟩ := Store.appendNodeEvent_eq_ok.mp hop
      · obtain rfl := hw
        exact (List.append_nil _).symm
      · obtain rfl := hw
        rfl
  | _ =>
      -- no other call appends
      obtain ⟨_, _, _, _, hcall, -⟩ | ⟨_, _, hcall, -⟩ | hquiet := perform_cases h
      · cases hcall
      · cases hcall
      · exact hquiet.events.trans (List.append_nil _).symm

/-- A call that fails makes the log accept nothing. -/
theorem StoreCall.accepts_error {env : CallEnv} {s : Store} {call : StoreCall} {err : Error}
    (h : call.perform env s = .error err) : call.accepts env s = none := by
  cases call with
  | appendCommandBundle c d e disp =>
      cases hop : s.appendCommandBundle env c d e disp with
      | error _ => simp only [accepts, hop]
      | ok r =>
          rw [perform, hop] at h
          cases h
  | appendNodeEvent id d =>
      cases hop : s.appendNodeEvent env id d with
      | error _ => simp only [accepts, hop]
      | ok r =>
          rw [perform, hop] at h
          cases h
  | _ => rfl

/-! ## The journal -/

def Database.accepts (db : Database) : DatabaseLabel → Option Event
  | .call env c => c.accepts env db.store
  | _ => none

/-- The database, and the events it has accepted. -/
def journal : System (Database × List Event) DatabaseLabel :=
  Database.system.recording [] (fun db events a => events ++ (db.accepts a).toList)

/-- **One step.** -/
theorem Database.rows_step {db db' : Database} {a : DatabaseLabel} (hs : db.step a = some db') :
    db'.store.events = db.store.events ++ (db.accepts a).toList.map EventOf.toRow := by
  cases a with
  | call env c =>
      show db'.store.events = db.store.events ++ (c.accepts env db.store).toList.map EventOf.toRow
      simp only [Database.step] at hs
      split at hs
      · split at hs
        · next w hw =>
            obtain rfl := Option.some.inj hs
            exact StoreCall.accepts_perform hw
        · next err hw =>
            obtain rfl := Option.some.inj hs
            rw [StoreCall.accepts_error hw]
            exact (List.append_nil _).symm
      · cases hs
  | close =>
      obtain rfl := Option.some.inj hs
      exact (List.append_nil _).symm
  | reopen refusal =>
      simp only [Database.step] at hs
      split at hs
      · cases hs
      · obtain rfl := Option.some.inj hs
        obtain ⟨m, hm⟩ := db.store.runMigrations_fst refusal
        rw [hm]
        exact (List.append_nil _).symm

/-- The log is the rows of the accepted events. -/
theorem journal_rows {j : Database × List Event} (h : journal.Reach Anyway j) :
    j.1.store.events = j.2.map EventOf.toRow := by
  refine h.invariant (P := fun j => j.1.store.events = j.2.map EventOf.toRow) ?_ ?_
  · rintro j ⟨hdb, hevents⟩
    rw [hevents, hdb]
    rfl
  · intro j a j' hi _ hs
    obtain ⟨db, hdb, rfl⟩ := Option.map_eq_some_iff.mp hs
    show db.store.events = (j.2 ++ (j.1.accepts a).toList).map EventOf.toRow
    rw [List.map_append, ← hi]
    exact Database.rows_step hdb

/-- **Every accepted event can be read back**, field for field and in order, from
every cursor above which both timestamps of each accepted event have four-digit
years; from the other cursors the read fails. -/
theorem accepted_read_back {j : Database × List Event} (h : journal.Reach Anyway j)
    {env : CallEnv} (hr : env.refusal = none) (k : ℤ) :
    j.1.store.eventsAfter env k = .ok (j.2.filter (fun e => decide (k < e.sequence))) ↔
      ∀ e ∈ j.2, k < e.sequence → e.Readable := by
  have hlog := (Recorded.of_reach h.of_recording).log
  have hlets : env.admit = .ok () := CallEnv.admit_eq_ok.mpr hr
  rw [hlog.eventsAfter_eq, hlets, journal_rows h, List.filter_map]
  show List.mapM rowToEvent ((j.2.filter (fun e => decide (k < e.sequence))).map
    EventOf.toRow) = _ ↔ _
  rw [Result.mapM_map_eq_ok rowToEvent_toRow]
  simp only [and_true, List.mem_filter, decide_eq_true_eq, and_imp]

/-- A node event that happened at `t`, received at the epoch. -/
def receiving (t : DateTime) : List DatabaseLabel :=
  [.reopen (fun _ => none), .call ⟨.epoch, 1#128, none⟩
    (.appendNodeEvent ⟨2#128⟩ (EventDraft.new .runCompleted ⟨3#128⟩ ⟨"laptop"⟩ t))]

def emptyJournal : Database × List Event := (⟨Store.blank, false, [], []⟩, [])

theorem emptyJournal_init : journal.init emptyJournal := ⟨rfl, rfl⟩

theorem accepted_read_back_sample :
    ∃ j, journal.run emptyJournal (receiving .epoch) = some j ∧ j.2.length = 1 ∧
      j.1.store.eventsAfter ⟨.epoch, 4#128, none⟩ 0 =
        .ok (j.2.filter (fun e => decide (0 < e.sequence))) := by
  refine ⟨_, rfl, rfl, ?_⟩
  have hreach := System.Reach.of_run (.start emptyJournal_init)
    (rfl : journal.run emptyJournal (receiving .epoch) = some _)
  refine (accepted_read_back hreach rfl 0).mpr ?_
  intro e he _
  obtain rfl := List.mem_singleton.mp he
  exact ⟨by decide, by decide⟩

/-- The first instant of the year 10000 is `9999-12-31T23:00:00-01:00` on the wire. -/
def DateTime.tenThousand : DateTime := ⟨10000, 1, 1, 0, 0, 0, 0, by decide, epoch.time_ok⟩

theorem accepted_not_read_back :
    ∃ j, journal.Reach Anyway j ∧ (∃ e ∈ j.2, e.sequence = 1) ∧
      ∀ now uuid es, j.1.store.eventsAfter ⟨now, uuid, none⟩ 0 ≠ .ok es := by
  refine ⟨_, System.Reach.of_run (.start emptyJournal_init)
    (rfl : journal.run emptyJournal (receiving .tenThousand) = some _),
    ⟨_, List.mem_singleton_self _, rfl⟩, ?_⟩
  rintro now uuid es ⟨⟩

end Stackhour.Domain
