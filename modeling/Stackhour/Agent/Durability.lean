import Stackhour.Agent.Tick

/-!
# What saved offsets stand for

Rows are meant to be in the queue file before the offsets that produced them are
in the state file. The tick logs an append that fails and saves the offsets all
the same; it appends to a file that ends in the middle of a line; and it
rewrites a queue it could not read.
-/

namespace Stackhour.Agent

open Core TransitionSystem

variable {Row : Type*}

/-! ## Rows in the queue file -/

/-- The row has a line of the queue file to itself. -/
def Stored (S : Serde Row) (queue : File) (row : Row) : Prop :=
  Utf8.encode (S.print row) ∈ Lines.complete Utf8.newline (queue.getD [])

/-- The queue file ends at a line. -/
def EndsAtLine (queue : File) : Prop := Lines.Whole Utf8.newline (queue.getD [])

/-- The agent with what its ticks have made durable and the server has taken:
`durable` are the rows whose offsets are in the state file, `accepted` those of
the batches the server accepted. -/
structure Tracked (Row : Type*) where
  tick : Tick Row
  durable : List Row
  accepted : List Row

namespace Tracked

variable (S : Serde Row)

/-- The rows whose offsets a step makes durable. -/
def saves (t : Tick Row) : TickLabel Row → List Row
  | .save how =>
      match t.stage, how with
      | .appended _ _ _ fresh, .notChmodded => fresh
      | .appended _ _ _ fresh, .done => fresh
      | _, _ => []
  | _ => []

/-- The rows that the server takes in a step. -/
def accepts (t : Tick Row) : TickLabel Row → List Row
  | .send delivery =>
      match t.stage, delivery with
      | .saved _ pending, .responseLost => Tick.batch S pending
      | .saved _ pending, .confirmed => Tick.batch S pending
      | _, _ => []
  | _ => []

def step (s : Tracked Row) (a : TickLabel Row) : Option (Tracked Row) :=
  (s.tick.step S a).map (fun t =>
    ⟨t, s.durable ++ saves s.tick a, s.accepted ++ accepts S s.tick a⟩)

/-- An agent that starts over a queue file that holds the rows of the saved
offsets. -/
def system : System (Tracked Row) (TickLabel Row) where
  init s := s.tick.stage = .idle ∧ ∀ row ∈ s.durable, Stored S s.tick.queue row ∨ row ∈ s.accepted
  step := step S

end Tracked

/-- **No row is lost.** Saved offsets stand for rows in the queue file or on the
server. -/
def KeepsRows (S : Serde Row) (s : Tracked Row) : Prop :=
  ∀ row ∈ s.durable, Stored S s.tick.queue row ∨ row ∈ s.accepted

/-- Rows are appended to a file that ends at a line, offsets are saved only after
their rows were appended, and a queue is rewritten only if the tick has read
it. -/
def Sound (s : Tracked Row) : TickLabel Row → Prop
  | .append how =>
      match s.tick.stage with
      | .watched _ _ fresh => how = .done → fresh ≠ [] → EndsAtLine s.tick.queue
      | _ => True
  | .save how =>
      match s.tick.stage with
      | .appended _ stored _ _ => how ≠ .notRenamed → stored = true
      | _ => True
  | .rewrite how =>
      match s.tick.stage with
      | .confirmed read _ => how ≠ .notRenamed → read = true
      | _ => True
  | _ => True

/-! ## The queue file -/

section Queue

variable {S : Serde Row}

theorem encode_snoc (cs : List Char) :
    Utf8.encode (cs ++ ['\n']) = Utf8.encode cs ++ [Utf8.newline] := Utf8.encode_append cs ['\n']

theorem newline_not_mem_row (hS : S.Lawful) (row : Row) :
    Utf8.newline ∉ Utf8.encode (S.print row) :=
  fun h => hS.oneLine row (Utf8.newline_mem_encode h)

/-- The lines of encoded rows are the rows. -/
theorem complete_lines (hS : S.Lawful) (rows : List Row) :
    Lines.complete Utf8.newline (Utf8.encode (rows.flatMap S.line)) =
      rows.map (fun row => Utf8.encode (S.print row)) := by
  induction rows with
  | nil => rfl
  | cons row rows ih =>
      rw [List.flatMap_cons, Utf8.encode_append, Serde.line, encode_snoc, List.append_assoc,
        List.singleton_append, Lines.complete_append_cons,
        List.splitOn_eq_singleton (newline_not_mem_row hS row), ih]
      rfl

theorem complete_encodeBytes (hS : S.Lawful) {rows : List Row} (h : rows ≠ []) :
    Lines.complete Utf8.newline (encodeBytes S rows) =
      rows.map (fun row => Utf8.encode (S.print row)) := by
  unfold encodeBytes
  rw [encode_eq h, complete_lines hS]

/-- Appending leaves the lines of the file. -/
theorem Stored.append {queue : File} {row : Row} (h : Stored S queue row) (rows : List Row)
    (how : Append) : Stored S (appendQueue S queue rows how).1 row := by
  unfold appendQueue
  split
  · exact h
  · cases how with
    | notOpened => exact h
    | torn kept => exact (Lines.complete_prefix _ _).subset h
    | done => exact (Lines.complete_prefix _ _).subset h

/-- Rows appended to a file that ends at a line are in it. -/
theorem stored_of_appended (hS : S.Lawful) {queue : File} {rows : List Row} {how : Append}
    (hends : how = .done → rows ≠ [] → EndsAtLine queue)
    (hstored : (appendQueue S queue rows how).2 = true) :
    ∀ row ∈ rows, Stored S (appendQueue S queue rows how).1 row := by
  intro row hrow
  have hne : rows ≠ [] := List.ne_nil_of_mem hrow
  have hempty : rows.isEmpty = false := List.isEmpty_eq_false_iff.mpr hne
  unfold appendQueue at hstored ⊢
  rw [hempty] at hstored ⊢
  cases how with
  | notOpened => cases hstored
  | torn kept => cases hstored
  | done =>
      show Utf8.encode (S.print row) ∈
        Lines.complete Utf8.newline (queue.getD [] ++ encodeBytes S rows)
      rw [Lines.complete_append (hends rfl hne), complete_encodeBytes hS hne]
      exact List.mem_append_right _ (List.mem_map_of_mem hrow)

/-- A rewritten queue holds its rows. -/
theorem stored_of_saved (hS : S.Lawful) (queue : File) {rows : List Row} {row : Row}
    (hrow : row ∈ rows) {how : AtomicWrite} (hhow : how ≠ .notRenamed) :
    Stored S (saveQueue S queue rows how).1 row := by
  have hne : rows ≠ [] := List.ne_nil_of_mem hrow
  have hempty : rows.isEmpty = false := List.isEmpty_eq_false_iff.mpr hne
  have hline : Utf8.encode (S.print row) ∈ Lines.complete Utf8.newline (encodeBytes S rows) := by
    rw [complete_encodeBytes hS hne]
    exact List.mem_map_of_mem hrow
  unfold saveQueue
  rw [hempty]
  cases how with
  | notRenamed => exact absurd rfl hhow
  | notChmodded => exact hline
  | done => exact hline

theorem saveQueue_notRenamed (queue : File) (rows : List Row) :
    (saveQueue S queue rows .notRenamed).1 = queue := by
  unfold saveQueue
  split <;> rfl

/-- A row of the file is read. -/
theorem mem_readQueue (hS : S.Lawful) {t : Tick Row} {readable : Bool}
    (hread : t.reads readable = true) {row : Row} (hrow : Stored S t.queue row) :
    row ∈ readQueue S t.queue readable := by
  cases hq : t.queue with
  | none =>
      rw [hq] at hrow
      cases hrow
  | some bytes =>
      rw [hq] at hrow
      unfold Tick.reads at hread
      rw [hq] at hread
      obtain ⟨text, htext⟩ := Option.isSome_iff_exists.mp hread
      unfold readQueue
      rw [htext]
      have hdecode : Utf8.decode bytes = some text := by
        unfold readToString at htext
        split at htext
        · exact htext
        · cases htext
      -- the row's line is a line of the text
      have hline : S.print row ∈ text.splitOn '\n' := by
        have hbytes : Utf8.encode (S.print row) ∈ bytes.splitOn Utf8.newline :=
          (List.dropLast_sublist _).subset hrow
        have hmap := List.mem_map_of_mem (f := Utf8.decode) hbytes
        rw [Utf8.decode_encode, Utf8.decode_splitOn bytes hdecode] at hmap
        obtain ⟨line, hline, heq⟩ := List.mem_map.mp hmap
        rwa [← Option.some.inj heq]
      show row ∈ S.values text
      unfold Serde.values
      refine List.mem_filterMap.mpr ⟨S.print row, List.mem_filter.mpr ⟨hline, ?_⟩, ?_⟩
      · rw [Bool.not_eq_true', List.isEmpty_eq_false_iff]
        exact hS.nonempty row
      · exact hS.parse_print row

end Queue

/-! ## Runs -/

/-- What the stage of a tick knows of the saved rows: those that a rewrite would
drop have been accepted. -/
def Tracked.Knows (S : Serde Row) (s : Tracked Row) : Prop :=
  match s.tick.stage with
  | .idle => True
  | .watched read queued _ => read = true → ∀ row ∈ s.durable, row ∈ queued ∨ row ∈ s.accepted
  | .appended read stored queued fresh =>
      (read = true → ∀ row ∈ s.durable, row ∈ queued ∨ row ∈ s.accepted) ∧
        (stored = true → ∀ row ∈ fresh, Stored S s.tick.queue row)
  | .saved read pending => read = true → ∀ row ∈ s.durable, row ∈ pending ∨ row ∈ s.accepted
  | .confirmed read pending =>
      (read = true → ∀ row ∈ s.durable, row ∈ pending ∨ row ∈ s.accepted) ∧
        ∀ row ∈ Tick.batch S pending, row ∈ s.accepted

namespace Tracked

variable {S : Serde Row} {s s' : Tracked Row}

theorem step_eq {a : TickLabel Row} (hs : step S s a = some s') : ∃ t, s.tick.step S a = some t ∧
    s' = ⟨t, s.durable ++ saves s.tick a, s.accepted ++ accepts S s.tick a⟩ := by
  obtain ⟨t, ht, rfl⟩ := Option.map_eq_some_iff.mp hs
  exact ⟨t, ht, rfl⟩

/-- A step that makes nothing durable and leaves the queue's lines. -/
theorem keeps_of {t : Tick Row} {accepted : List Row} (hkeeps : KeepsRows S s)
    (hstored : ∀ row, Stored S s.tick.queue row → Stored S t.queue row) :
    KeepsRows S ⟨t, s.durable ++ [], s.accepted ++ accepted⟩ := by
  intro row hrow
  rw [List.append_nil] at hrow
  rcases hkeeps row hrow with h | h
  · exact .inl (hstored row h)
  · exact .inr (List.mem_append_left _ h)

/-- One step of a tick. -/
theorem step_keeps (hS : S.Lawful) (hkeeps : KeepsRows S s) (hknows : s.Knows S)
    (a : TickLabel Row) (hok : Sound s a) (hs : step S s a = some s') :
    KeepsRows S s' ∧ s'.Knows S := by
  obtain ⟨t, ht, rfl⟩ := step_eq hs
  unfold Knows at hknows
  cases a with
  | watch fresh readable =>
      obtain ⟨hstage, rfl⟩ := Tick.step_watch ht
      refine ⟨keeps_of hkeeps fun row h => h, ?_⟩
      intro hread row hrow
      change row ∈ s.durable ++ [] at hrow
      rw [List.append_nil] at hrow
      rcases hkeeps row hrow with h | h
      · exact .inl (mem_readQueue hS hread h)
      · exact .inr (List.mem_append_left _ h)
  | append how =>
      obtain ⟨read, queued, fresh, hstage, rfl⟩ := Tick.step_append ht
      rw [hstage] at hknows
      unfold Sound at hok
      rw [hstage] at hok
      refine ⟨keeps_of hkeeps fun row h => h.append fresh how, ?_, ?_⟩
      · intro hread row hrow
        change row ∈ s.durable ++ [] at hrow
        rw [List.append_nil] at hrow
        rcases hknows hread row hrow with h | h
        · exact .inl h
        · exact .inr (List.mem_append_left _ h)
      · intro hstored
        exact stored_of_appended hS hok hstored
  | save how =>
      obtain ⟨read, stored, queued, fresh, hstage, rfl⟩ := Tick.step_save ht
      rw [hstage] at hknows
      unfold Sound at hok
      rw [hstage] at hok
      -- offsets that become durable are those of the appended rows
      have hsaves : ∀ row ∈ saves s.tick (.save how), row ∈ fresh ∧ stored = true := by
        intro row hrow
        unfold saves at hrow
        rw [hstage] at hrow
        cases how with
        | notRenamed => cases hrow
        | notChmodded => exact ⟨hrow, hok (by rintro ⟨⟩)⟩
        | done => exact ⟨hrow, hok (by rintro ⟨⟩)⟩
      refine ⟨?_, ?_⟩
      · intro row hrow
        rcases List.mem_append.mp hrow with h | h
        · rcases hkeeps row h with h | h
          · exact .inl h
          · exact .inr (List.mem_append_left _ h)
        · obtain ⟨hfresh, hstored⟩ := hsaves row h
          exact .inl (hknows.2 hstored row hfresh)
      · intro hread row hrow
        rcases List.mem_append.mp hrow with h | h
        · rcases hknows.1 hread row h with h | h
          · exact .inl (List.mem_append_left _ h)
          · exact .inr (List.mem_append_left _ h)
        · exact .inl (List.mem_append_right _ (hsaves row h).1)
  | send delivery =>
      obtain ⟨read, pending, hstage, hnext⟩ := Tick.step_send ht
      rw [hstage] at hknows
      rcases hnext with ⟨rfl, -, rfl⟩ | rfl
      · refine ⟨keeps_of hkeeps fun row h => h, ?_, ?_⟩
        · intro hread row hrow
          change row ∈ s.durable ++ [] at hrow
          rw [List.append_nil] at hrow
          rcases hknows hread row hrow with h | h
          · exact .inl h
          · exact .inr (List.mem_append_left _ h)
        · intro row hrow
          refine List.mem_append_right _ ?_
          unfold accepts
          rw [hstage]
          exact hrow
      · exact ⟨keeps_of hkeeps fun row h => h, trivial⟩
  | rewrite how =>
      obtain ⟨read, pending, hstage, rfl⟩ := Tick.step_rewrite ht
      rw [hstage] at hknows
      unfold Sound at hok
      rw [hstage] at hok
      refine ⟨?_, trivial⟩
      by_cases hhow : how = .notRenamed
      · rw [hhow, saveQueue_notRenamed]
        exact keeps_of hkeeps fun row h => h
      · intro row hrow
        change row ∈ s.durable ++ [] at hrow
        rw [List.append_nil] at hrow
        rcases hknows.1 (hok hhow) row hrow with h | h
        · -- what is not sent is written back
          rw [← List.take_append_drop (takeSendBatch S pending MAX_SEND_BYTES) pending] at h
          rcases List.mem_append.mp h with h | h
          · exact .inr (List.mem_append_left _ (hknows.2 row h))
          · exact .inl (stored_of_saved hS _ h hhow)
        · exact .inr (List.mem_append_left _ h)
  | crash =>
      obtain rfl := Tick.step_crash ht
      exact ⟨keeps_of hkeeps fun row h => h, trivial⟩

end Tracked

/-- **A sound tick loses no row.** -/
theorem keeps_rows {S : Serde Row} (hS : S.Lawful) {s : Tracked Row}
    (hreach : (Tracked.system S).Reach Sound s) : KeepsRows S s := by
  have hinv : KeepsRows S s ∧ s.Knows S := by
    refine hreach.invariant (P := fun s => KeepsRows S s ∧ s.Knows S) ?_ ?_
    · rintro s ⟨hstage, hkeeps⟩
      refine ⟨hkeeps, ?_⟩
      unfold Tracked.Knows
      rw [hstage]
      trivial
    · rintro s a t ⟨hkeeps, hknows⟩ hok hs
      exact Tracked.step_keeps hS hkeeps hknows a hok hs
  exact hinv.1

/-- The text of a row at time 1 or 2. -/
def rowText (late : Bool) : List Char :=
  (if late then "\x7b\"time\":2\x7d" else "\x7b\"time\":1\x7d").toList

/-- Two rows. -/
def rowSerde : Serde Bool where
  print := rowText
  parse text :=
    if text = rowText false then some false else if text = rowText true then some true else none

theorem rowSerde_lawful : rowSerde.Lawful := by
  refine ⟨?_, ?_, ?_⟩
  · intro v
    cases v <;> decide
  · intro v
    cases v <;> decide
  · intro v
    cases v <;> decide

/-- An agent without files. -/
def freshTracked : Tracked Bool := ⟨⟨none, .idle⟩, [], []⟩

theorem freshTracked_init : (Tracked.system rowSerde).init freshTracked :=
  ⟨rfl, by rintro row ⟨⟩⟩

set_option maxRecDepth 4096 in
/-- The server is down and the row stays in the file. -/
theorem keeps_rows_sample :
    ∃ s, (Tracked.system rowSerde).run freshTracked
        [.watch [false] true, .append .done, .save .done, .send .notAccepted] = some s ∧
      s.durable = [false] ∧ s.accepted = [] ∧ KeepsRows rowSerde s := by
  have hstart : (Tracked.system rowSerde).Reach Sound freshTracked := .start freshTracked_init
  have hwatched := hstart.next (a := TickLabel.watch [false] true) trivial rfl
  have happended := hwatched.next (a := TickLabel.append .done) (fun _ _ => .inl rfl) rfl
  have hsaved := happended.next (a := TickLabel.save .done) (fun _ => rfl) rfl
  have hsent := hsaved.next (a := TickLabel.send .notAccepted) trivial rfl
  exact ⟨_, rfl, rfl, rfl, keeps_rows rowSerde_lawful hsent⟩

set_option maxRecDepth 4096 in
/-- The append fails and the offsets are saved. -/
theorem row_lost : ∃ s, (Tracked.system rowSerde).Reach Anyway s ∧ ¬ KeepsRows rowSerde s := by
  have hrun : ∃ s, (Tracked.system rowSerde).run freshTracked
        [.watch [false] true, .append .notOpened, .save .done] = some s ∧
      s.durable = [false] ∧ s.accepted = [] ∧ s.tick.queue = none := ⟨_, rfl, rfl, rfl, rfl⟩
  obtain ⟨s, hs, hdurable, haccepted, hqueue⟩ := hrun
  refine ⟨s, .of_run (.start freshTracked_init) hs, ?_⟩
  intro hkeeps
  rcases hkeeps false (hdurable ▸ List.mem_singleton_self _) with h | h
  · unfold Stored at h
    rw [hqueue] at h
    cases h
  · rw [haccepted] at h
    cases h

end Stackhour.Agent
