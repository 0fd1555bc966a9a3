import Stackhour.Agent.TornAppends
import Stackhour.Tracker.Heartbeats

/-!
# End-to-end delivery

Ticks in which no file operation fails, against the tracker's table. Rows whose
response is lost are sent again, in whatever batches they then fall into, and the
table takes each key once.
-/

namespace Stackhour.Agent

open Core Domain Tracker TransitionSystem

variable {Row : Type*}

/-- A completed tick: the rows of its watchers, the rows it sent and what became
of them. -/
structure Round (Row : Type*) where
  fresh : List Row
  batch : List Row
  delivery : Delivery

/-- The rows that the agent knows the server has. -/
def acknowledged (rounds : List (Round Row)) : List Row :=
  rounds.flatMap (fun r => if r.delivery = .confirmed then r.batch else [])

/-- The queue and the table, with what they were when the run began and the ticks
since. -/
structure Delivering (Row : Type*) where
  start : File
  startTable : Heartbeats
  queue : File
  table : Heartbeats
  rounds : List (Round Row)

/-- A tick: what the watchers return, what becomes of the batch, and the server's
clock. -/
structure Turn (Row : Type*) where
  fresh : List Row
  delivery : Delivery
  now : F64

namespace Delivering

variable (S : Serde Row)

/-- The operations of a tick one by one. -/
def ticks : System (Tick Row) (TickLabel Row) where
  init t := t.stage = .idle
  step := Tick.step S

/-- What the tick has to send. -/
def pending (s : Delivering Row) (a : Turn Row) : List Row := readQueue S s.queue true ++ a.fresh

/-- The operations of a tick that has these rows to send. -/
def operations (pending : List Row) (a : Turn Row) : List (TickLabel Row) :=
  [.watch a.fresh true, .append .done, .save .done, .send a.delivery] ++
    if a.delivery = .confirmed ∧ pending ≠ [] then [.rewrite .done] else []

variable (fl : Floats) (value : Row → Json)

/-- The table after the server has taken a batch, or has not. -/
def receive (table : Heartbeats) (batch : List Row) (a : Turn Row) : Heartbeats :=
  if a.delivery = .notAccepted then table
  else (insertHeartbeats fl a.now table (batch.map value) none).1

def step (s : Delivering Row) (a : Turn Row) : Option (Delivering Row) :=
  let batch := Tick.batch S (s.pending S a)
  ((ticks S).run ⟨s.queue, .idle⟩ (operations (s.pending S a) a)).map (fun t =>
    { s with
      queue := t.queue
      table := receive fl value s.table batch a
      rounds := s.rounds ++ [⟨a.fresh, batch, a.delivery⟩] })

/-- Any queue file and any table. -/
def system : System (Delivering Row) (Turn Row) where
  init s := s.queue = s.start ∧ s.table = s.startTable ∧ s.rounds = []
  step := step S fl value

end Delivering

/-- **Delivery is exactly once by key.** Every tick sends the oldest rows that are
not acknowledged, or has none; the queue holds those after the last
acknowledgement; and the table has gained the keys of the batches the server
took. -/
structure DeliversOnce (S : Serde Row) (fl : Floats) (value : Row → Json)
    (s : Delivering Row) : Prop where
  oldestFirst : ∀ before r after, s.rounds = before ++ r :: after →
    ∃ rest, readQueue S s.start true ++ (before ++ [r]).flatMap Round.fresh =
      acknowledged before ++ r.batch ++ rest ∧ (r.batch = [] → rest = [])
  queued : readQueue S s.start true ++ s.rounds.flatMap Round.fresh =
    acknowledged s.rounds ++ readQueue S s.queue true
  keys : ∀ k, k ∈ s.table.keys ↔ k ∈ s.startTable.keys ∨
    ∃ r ∈ s.rounds, r.delivery ≠ .notAccepted ∧
      k ∈ r.batch.filterMap (fun row => rowKey fl (value row))
  once : s.table.keys.Nodup

/-- The watchers' rows go behind a text that ends at a line. -/
def AppendsToLine (s : Delivering Row) (a : Turn Row) : Prop :=
  a.fresh ≠ [] → EndsAtTextLine s.queue

namespace Delivering

variable {S : Serde Row}

/-! ## One tick -/

theorem readQueue_appendQueue (hS : S.Lawful) {queue : File} {rows : List Row}
    (hends : rows ≠ [] → EndsAtTextLine queue) :
    readQueue S (appendQueue S queue rows .done).1 true = readQueue S queue true ++ rows := by
  by_cases hrows : rows = []
  · rw [hrows, List.append_nil]
    rfl
  · obtain ⟨text, htext, hwhole⟩ := hends hrows
    have hbefore : readQueue S queue true = S.values text := by
      cases queue with
      | none =>
          have hnil : text = [] := by
            have hdecode := congrArg Utf8.decode htext
            rw [Utf8.decode_encode] at hdecode
            exact (Option.some.inj hdecode).symm
          rw [hnil]
          rfl
      | some bytes =>
          rw [show bytes = Utf8.encode text from htext, readQueue_text]
    unfold appendQueue
    rw [List.isEmpty_eq_false_iff.mpr hrows]
    show readQueue S (some (queue.getD [] ++ encodeBytes S rows)) true = _
    rw [htext, encodeBytes, ← Utf8.encode_append, readQueue_text, S.values_append hwhole,
      encode_eq hrows, hS.values_lines, hbefore]

/-- What a tick leaves in the queue file. -/
theorem run_operations (queue : File) (a : Turn Row) :
    (ticks S).run ⟨queue, .idle⟩ (operations (readQueue S queue true ++ a.fresh) a) =
      some ⟨if a.delivery = .confirmed ∧ readQueue S queue true ++ a.fresh ≠ [] then
          (saveQueue S (appendQueue S queue a.fresh .done).1
            (Tick.remaining S (readQueue S queue true ++ a.fresh)) .done).1
        else (appendQueue S queue a.fresh .done).1, .idle⟩ := by
  obtain ⟨fresh, delivery, now⟩ := a
  have hsent : ∀ more, (ticks S).run ⟨queue, .idle⟩
      (.watch fresh true :: .append .done :: .save .done :: .send delivery :: more) =
      (ticks S).run ⟨(appendQueue S queue fresh .done).1,
        if (readQueue S queue true ++ fresh).isEmpty then .idle
        else if delivery = .confirmed then
          .confirmed ((⟨queue, .idle⟩ : Tick Row).reads true) (readQueue S queue true ++ fresh)
        else .idle⟩ more := fun more => rfl
  unfold operations
  by_cases hconfirmed : delivery = .confirmed ∧ readQueue S queue true ++ fresh ≠ []
  · rw [if_pos hconfirmed, if_pos hconfirmed]
    refine (hsent _).trans ?_
    rw [if_neg (by rw [List.isEmpty_iff]; exact hconfirmed.2), if_pos hconfirmed.1]
    rfl
  · rw [if_neg hconfirmed, if_neg hconfirmed]
    refine (hsent _).trans ?_
    by_cases hempty : readQueue S queue true ++ fresh = []
    · rw [if_pos (List.isEmpty_iff.mpr hempty)]
      rfl
    · rw [if_neg (by rwa [List.isEmpty_iff]), if_neg (fun h => hconfirmed ⟨h, hempty⟩)]
      rfl

/-- **One tick.** Its queue is read as what it did not get acknowledged. -/
theorem step_queue (hS : S.Lawful) {fl : Floats} {value : Row → Json} {s t : Delivering Row}
    {a : Turn Row} (hok : AppendsToLine s a) (hs : step S fl value s a = some t) :
    t = { s with
      queue := t.queue
      table := receive fl value s.table (Tick.batch S (s.pending S a)) a
      rounds := s.rounds ++ [⟨a.fresh, Tick.batch S (s.pending S a), a.delivery⟩] } ∧
    s.pending S a = acknowledged [⟨a.fresh, Tick.batch S (s.pending S a), a.delivery⟩] ++
      readQueue S t.queue true := by
  obtain ⟨tick, htick, rfl⟩ := Option.map_eq_some_iff.mp hs
  refine ⟨rfl, ?_⟩
  obtain rfl := Option.some.inj ((run_operations s.queue a).symm.trans htick)
  show s.pending S a = _
  unfold acknowledged
  rw [List.flatMap_cons, List.flatMap_nil, List.append_nil]
  by_cases hconfirmed : a.delivery = .confirmed
  · by_cases hempty : s.pending S a = []
    · have hread : readQueue S (appendQueue S s.queue a.fresh .done).1 true = [] :=
        (readQueue_appendQueue hS hok).trans hempty
      rw [if_pos hconfirmed, if_neg (fun h => h.2 hempty), hread, hempty]
      rfl
    · rw [if_pos hconfirmed, if_pos ⟨hconfirmed, hempty⟩, readQueue_saveQueue hS]
      exact (List.take_append_drop _ _).symm
  · rw [if_neg hconfirmed, if_neg (fun h => hconfirmed h.1), readQueue_appendQueue hS hok]
    rfl

theorem acknowledged_append (rounds more : List (Round Row)) :
    acknowledged (rounds ++ more) = acknowledged rounds ++ acknowledged more :=
  List.flatMap_append

/-- A tick with rows to send sends some. -/
theorem batch_split (pending : List Row) : ∃ rest, pending = Tick.batch S pending ++ rest ∧
    (Tick.batch S pending = [] → rest = []) := by
  refine ⟨Tick.remaining S pending, (List.take_append_drop _ _).symm, ?_⟩
  intro hbatch
  by_cases hpending : pending = []
  · rw [hpending]
    rfl
  · have hpos := takeSendBatch_pos (S := S) hpending MAX_SEND_BYTES
    rcases List.take_eq_nil_iff.mp hbatch with hzero | hnil
    · omega
    · exact absurd hnil hpending

theorem mem_keys_receive (fl : Floats) (value : Row → Json) (table : Heartbeats)
    (batch : List Row) (a : Turn Row) (k : DedupeKey) :
    k ∈ (receive fl value table batch a).keys ↔ k ∈ table.keys ∨
      (a.delivery ≠ .notAccepted ∧ k ∈ batch.filterMap (fun row => rowKey fl (value row))) := by
  unfold receive insertHeartbeats
  by_cases hdelivery : a.delivery = .notAccepted
  · rw [if_pos hdelivery]
    constructor
    · exact .inl
    · rintro (hk | ⟨hne, -⟩)
      · exact hk
      · exact absurd hdelivery hne
  · rw [if_neg hdelivery]
    refine (mem_keys_insertRows a.now table _ k).trans ?_
    rw [List.filterMap_map]
    exact or_congr Iff.rfl (and_iff_right hdelivery).symm

/-- One tick keeps the law. -/
theorem step_delivers (hS : S.Lawful) {fl : Floats} {value : Row → Json} {s t : Delivering Row}
    {a : Turn Row} (h : DeliversOnce S fl value s) (hok : AppendsToLine s a)
    (hs : step S fl value s a = some t) : DeliversOnce S fl value t := by
  obtain ⟨ht, hqueue⟩ := step_queue hS hok hs
  have hrounds : t.rounds = s.rounds ++ [⟨a.fresh, Tick.batch S (s.pending S a), a.delivery⟩] := by
    rw [ht]
  have hstart : t.start = s.start := by rw [ht]
  have htable : t.table = receive fl value s.table (Tick.batch S (s.pending S a)) a := by rw [ht]
  -- what has been produced is what has been acknowledged and what is to send
  have hproduced : readQueue S s.start true ++ t.rounds.flatMap Round.fresh =
      acknowledged s.rounds ++ s.pending S a := by
    rw [hrounds, List.flatMap_append, ← List.append_assoc, h.queued, List.append_assoc,
      List.flatMap_cons, List.flatMap_nil, List.append_nil]
    rfl
  constructor
  · intro before r after hsplit
    rw [hstart]
    rcases List.eq_nil_or_concat after with rfl | ⟨after, last, rfl⟩
    · rw [hrounds] at hsplit
      obtain ⟨rfl, hr⟩ := List.append_inj' hsplit rfl
      obtain rfl := (List.singleton_inj.mp hr).symm
      obtain ⟨rest, hrest, hnil⟩ := batch_split (S := S) (s.pending S a)
      refine ⟨rest, ?_, hnil⟩
      rw [hrounds] at hproduced
      rw [hproduced, List.append_assoc]
      exact congrArg _ hrest
    · rw [hrounds, List.concat_eq_append, ← List.cons_append, ← List.append_assoc] at hsplit
      exact h.oldestFirst before r after (List.append_inj' hsplit rfl).1
  · rw [hstart, hproduced, hqueue, ← List.append_assoc, ← acknowledged_append, ← hrounds]
  · intro k
    rw [htable, mem_keys_receive, h.keys, hrounds]
    have hsame : t.startTable = s.startTable := by rw [ht]
    rw [hsame, or_assoc]
    refine or_congr Iff.rfl ?_
    simp only [List.mem_append, List.mem_singleton, or_and_right, exists_or, exists_eq_left]
  · exact t.table.unique

end Delivering

/-- **Delivery is exactly once by key** when rows go behind whole lines. -/
theorem delivers_once {S : Serde Row} (hS : S.Lawful) (fl : Floats) (value : Row → Json)
    {s : Delivering Row} (hreach : (Delivering.system S fl value).Reach AppendsToLine s) :
    DeliversOnce S fl value s := by
  refine hreach.invariant ?_ fun s a t h hok hs => Delivering.step_delivers hS h hok hs
  rintro s ⟨hqueue, htable, hrounds⟩
  constructor
  · intro before r after hsplit
    rw [hrounds] at hsplit
    cases before <;> cases hsplit
  · rw [hrounds, hqueue]
    exact List.append_nil _
  · intro k
    rw [htable, hrounds]
    simp
  · exact s.table.unique

/-- The arithmetic of the times 1 and 2. -/
def sampleFloats : Floats where
  ofInt n := if n = 1 then F64.one else if n = 2 then 0x4000000000000000 else F64.zero
  toInt _ := 0
  round f := f
  isSafeInteger _ := true
  sub f _ := f
  display _ := "1"
  parse _ := F64.nan

/-- The rows at time 1 and 2. -/
def rowValue (late : Bool) : Json := .object [("time", .number (.int (if late then 2 else 1)))]

def freshDelivering (queue : File) : Delivering Bool :=
  ⟨queue, Heartbeats.empty, queue, Heartbeats.empty, []⟩

theorem freshDelivering_init (queue : File) :
    (Delivering.system rowSerde sampleFloats rowValue).init (freshDelivering queue) :=
  ⟨rfl, rfl, rfl⟩

set_option maxRecDepth 4096 in
/-- A lost response, then both rows in one batch. -/
theorem delivers_once_sample :
    ∃ s, (Delivering.system rowSerde sampleFloats rowValue).run (freshDelivering none)
        [⟨[false], .responseLost, F64.zero⟩, ⟨[true], .confirmed, F64.zero⟩] = some s ∧
      s.queue = none ∧ DeliversOnce rowSerde sampleFloats rowValue s := by
  have hstart : (Delivering.system rowSerde sampleFloats rowValue).Reach AppendsToLine
      (freshDelivering none) := .start (freshDelivering_init none)
  have hlost := hstart.next (a := ⟨[false], .responseLost, F64.zero⟩)
    (fun _ => ⟨[], rfl, .inl rfl⟩) rfl
  have hagain := hlost.next (a := ⟨[true], .confirmed, F64.zero⟩)
    (fun _ => ⟨rowText false ++ ['\n'], by decide, .inr ⟨_, rfl⟩⟩) rfl
  exact ⟨_, rfl, rfl, delivers_once rowSerde_lawful sampleFloats rowValue hagain⟩

set_option maxRecDepth 4096 in
/-- A refused row behind a torn line is not in the queue. -/
theorem torn_start : ∃ s,
    (Delivering.system rowSerde sampleFloats rowValue).Reach Anyway s ∧
      ¬ DeliversOnce rowSerde sampleFloats rowValue s := by
  have hrun : ∃ s, (Delivering.system rowSerde sampleFloats rowValue).run
        (freshDelivering (some (Utf8.encode "\x7b\"tim".toList)))
        [⟨[false], .notAccepted, F64.zero⟩] = some s ∧
      readQueue rowSerde s.start true = [] ∧ s.rounds.flatMap Round.fresh = [false] ∧
      acknowledged s.rounds = [] ∧ readQueue rowSerde s.queue true = [] :=
    ⟨_, rfl, by decide, by decide, by decide, by decide⟩
  obtain ⟨s, hs, hstart, hfresh, hacknowledged, hqueue⟩ := hrun
  refine ⟨s, .of_run (.start (freshDelivering_init _)) hs, ?_⟩
  intro h
  have hqueued := h.queued
  rw [hstart, hfresh, hacknowledged, hqueue] at hqueued
  cases hqueued

end Stackhour.Agent
