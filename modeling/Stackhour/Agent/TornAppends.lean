import Stackhour.Agent.Durability

/-!
# Torn appends

A process that dies in an append leaves any prefix of the bytes. The next append
goes on in the middle of that line, and a prefix that ends inside a character
makes the file unreadable, which the reader takes for an empty queue and the
rewriter writes back.
-/

namespace Stackhour.Agent

open Core TransitionSystem

variable {Row : Type*}

/-- The agent with the rows that it owes: those whose append completed and that
no rewrite after a successful send has removed. -/
structure Kept (Row : Type*) where
  tick : Tick Row
  owed : List Row

/-- Whether a rewrite takes effect. -/
def rewrites (rows : List Row) : AtomicWrite → Bool
  | .notRenamed => false
  | .notChmodded => !rows.isEmpty
  | .done => true

namespace Kept

section System

variable [DecidableEq Row] (S : Serde Row)

def owes (s : Kept Row) : TickLabel Row → List Row
  | .append how =>
      match s.tick.stage, how with
      | .watched _ _ fresh, .done => s.owed ++ fresh
      | _, _ => s.owed
  | .rewrite how =>
      match s.tick.stage with
      | .confirmed _ pending =>
          if rewrites (Tick.remaining S pending) how then s.owed.diff (Tick.batch S pending)
          else s.owed
      | _ => s.owed
  | _ => s.owed

def step (s : Kept Row) (a : TickLabel Row) : Option (Kept Row) :=
  (s.tick.step S a).map (fun t => ⟨t, s.owes S a⟩)

/-- An agent that starts over any queue file and owes the rows of its complete
lines. -/
def system : System (Kept Row) (TickLabel Row) where
  init s := s.tick.stage = .idle ∧
    ((s.tick.queue = none ∧ s.owed = []) ∨
      ∃ front back, s.tick.queue = some (Utf8.encode (front ++ back)) ∧
        Lines.Whole '\n' front ∧ '\n' ∉ back ∧ s.owed = S.values front)
  step := step S

end System

end Kept

/-- The file is a text that ends at a line. -/
def EndsAtTextLine (queue : File) : Prop :=
  ∃ text, queue.getD [] = Utf8.encode text ∧ Lines.Whole '\n' text

/-- Rows are appended to a text that ends at a line, a torn append keeps whole
characters while rows are owed, and a queue is rewritten only if the tick has
read it. -/
def Clean (S : Serde Row) (s : Kept Row) : TickLabel Row → Prop
  | .append how =>
      match s.tick.stage, how with
      | .watched _ _ fresh, .done => fresh ≠ [] → EndsAtTextLine s.tick.queue
      | .watched _ _ fresh, .torn kept => fresh ≠ [] → s.owed ≠ [] →
          ∃ text, (encodeBytes S fresh).take kept = Utf8.encode text
      | _, _ => True
  | .rewrite how =>
      match s.tick.stage with
      | .confirmed read _ => how ≠ .notRenamed → read = true
      | _ => True
  | _ => True

namespace Kept

variable {S : Serde Row} {s s' : Kept Row}

/-- The rows owed are in the complete lines of a readable file. -/
def Holds (S : Serde Row) (s : Kept Row) : Prop :=
  s.owed = [] ∨ ∃ front back, s.tick.queue = some (Utf8.encode (front ++ back)) ∧
    Lines.Whole '\n' front ∧ s.owed.Sublist (S.values front)

/-- What the stage of a tick knows of the rows owed: a tick that has read its
queue has them in memory. -/
def Knows (s : Kept Row) : Prop :=
  match s.tick.stage with
  | .idle => True
  | .watched read queued _ => read = true → s.owed.Sublist queued
  | .appended read _ queued fresh => read = true → s.owed.Sublist (queued ++ fresh)
  | .saved read pending => read = true → s.owed.Sublist pending
  | .confirmed read pending => read = true → s.owed.Sublist pending

theorem Holds.read (h : s.Holds S) : s.owed.Sublist (readQueue S s.tick.queue true) := by
  rcases h with h | ⟨front, back, hqueue, hwhole, howed⟩
  · rw [h]
    exact List.nil_sublist _
  · rw [hqueue, readQueue_text, S.values_append hwhole]
    exact howed.trans (List.sublist_append_left _ _)

/-- The reading of a text that ends at a line. -/
theorem Holds.text (h : s.Holds S) {text : List Char}
    (htext : s.tick.queue.getD [] = Utf8.encode text) : s.owed.Sublist (S.values text) := by
  rcases h with h | h
  · rw [h]
    exact List.nil_sublist _
  · have hread := Holds.read (.inr h)
    obtain ⟨front, back, hqueue, -⟩ := h
    rw [hqueue] at htext
    rw [hqueue, show Utf8.encode (front ++ back) = Utf8.encode text from htext,
      readQueue_text] at hread
    exact hread

variable [DecidableEq Row]

theorem diff_take (pending : List Row) (n : ℕ) :
    pending.diff (pending.take n) = pending.drop n := by
  induction pending generalizing n with
  | nil => simp
  | cons row rows ih =>
      cases n with
      | zero => rfl
      | succ n =>
          rw [List.take_succ_cons, List.drop_succ_cons, List.diff_cons, List.erase_cons_head]
          exact ih n

theorem step_eq {a : TickLabel Row} (hs : step S s a = some s') :
    ∃ t, s.tick.step S a = some t ∧ s' = ⟨t, s.owes S a⟩ := by
  obtain ⟨t, ht, rfl⟩ := Option.map_eq_some_iff.mp hs
  exact ⟨t, ht, rfl⟩

/-- Appending rows. -/
theorem append_holds (hS : S.Lawful) (h : s.Holds S) {fresh queued : List Row} {read : Bool}
    (hstage : s.tick.stage = .watched read queued fresh) (hknows : read = true → s.owed.Sublist queued)
    {how : Append} (hok : Clean S s (.append how)) {stage : Stage Row}
    (hnext : stage = .appended read (appendQueue S s.tick.queue fresh how).2 queued fresh) :
    Holds S ⟨⟨(appendQueue S s.tick.queue fresh how).1, stage⟩, s.owes S (.append how)⟩ ∧
      Knows ⟨⟨(appendQueue S s.tick.queue fresh how).1, stage⟩, s.owes S (.append how)⟩ := by
  subst hnext
  unfold Clean at hok
  simp only [hstage] at hok
  have howes : s.owes S (.append how) = if how = .done then s.owed ++ fresh else s.owed := by
    unfold owes
    simp only [hstage]
    cases how <;> rfl
  rw [howes]
  refine ⟨?_, ?_⟩
  · by_cases hempty : fresh = []
    · have hsame : (if how = .done then s.owed ++ fresh else s.owed) = s.owed := by
        rw [hempty, List.append_nil, ite_self]
      rw [hsame, hempty]
      exact h
    · have hfalse : fresh.isEmpty = false := List.isEmpty_eq_false_iff.mpr hempty
      unfold appendQueue
      rw [hfalse]
      cases how with
      | notOpened => exact h
      | torn kept =>
          rcases h with h | ⟨front, back, hqueue, hwhole, howed⟩
          · exact .inl h
          · by_cases hnone : s.owed = []
            · exact .inl hnone
            · obtain ⟨text, htext⟩ := hok hempty hnone
              refine .inr ⟨front, back ++ text, ?_, hwhole, howed⟩
              show some (s.tick.queue.getD [] ++ (encodeBytes S fresh).take kept) = _
              rw [hqueue, htext, ← List.append_assoc, Utf8.encode_append _ text]
              rfl
      | done =>
          obtain ⟨text, htext, hwhole⟩ := hok hempty
          refine .inr ⟨text ++ encode S fresh, [], ?_, hwhole.append (encode_whole fresh), ?_⟩
          · show some (s.tick.queue.getD [] ++ encodeBytes S fresh) = _
            rw [htext, List.append_nil, Utf8.encode_append]
            rfl
          · show (s.owed ++ fresh).Sublist _
            rw [S.values_append hwhole, encode_eq hempty, hS.values_lines]
            exact (h.text htext).append (List.Sublist.refl fresh)
  · intro hread
    show List.Sublist (if how = .done then s.owed ++ fresh else s.owed) (queued ++ fresh)
    split
    · exact (hknows hread).append (List.Sublist.refl fresh)
    · exact (hknows hread).trans (List.sublist_append_left queued fresh)

/-- Rewriting the queue. -/
theorem rewrite_holds (hS : S.Lawful) (h : s.Holds S) {pending : List Row} {read : Bool}
    (hstage : s.tick.stage = .confirmed read pending)
    (hknows : read = true → s.owed.Sublist pending) {how : AtomicWrite}
    (hok : Clean S s (.rewrite how)) {stage : Stage Row} :
    Holds S ⟨⟨(saveQueue S s.tick.queue (Tick.remaining S pending) how).1, stage⟩,
      s.owes S (.rewrite how)⟩ := by
  unfold Clean at hok
  simp only [hstage] at hok
  have howes : s.owes S (.rewrite how) =
      if rewrites (Tick.remaining S pending) how then s.owed.diff (Tick.batch S pending)
      else s.owed := by
    unfold owes
    simp only [hstage]
  rw [howes]
  by_cases hhow : how = .notRenamed
  · rw [hhow, saveQueue_notRenamed]
    exact h
  · have hsub : (s.owed.diff (Tick.batch S pending)).Sublist (Tick.remaining S pending) := by
      have hdiff : (s.owed.diff (Tick.batch S pending)).Sublist
          (pending.diff (Tick.batch S pending)) := (hknows (hok hhow)).diff_right
      rwa [show pending.diff (Tick.batch S pending) = Tick.remaining S pending from
        diff_take pending _] at hdiff
    unfold saveQueue
    by_cases hempty : Tick.remaining S pending = []
    · rw [hempty] at hsub ⊢
      cases how with
      | notRenamed => exact absurd rfl hhow
      | notChmodded => exact h
      | done => exact .inl (List.sublist_nil.mp hsub)
    · have hfalse : (Tick.remaining S pending).isEmpty = false :=
        List.isEmpty_eq_false_iff.mpr hempty
      have hwritten : Holds S ⟨⟨some (encodeBytes S (Tick.remaining S pending)), stage⟩,
          s.owed.diff (Tick.batch S pending)⟩ := by
        refine .inr ⟨encode S (Tick.remaining S pending), [], ?_, encode_whole _, ?_⟩
        · rw [List.append_nil]
          rfl
        · rwa [encode_eq hempty, hS.values_lines]
      rw [hfalse]
      cases how with
      | notRenamed => exact absurd rfl hhow
      | notChmodded =>
          unfold rewrites
          rw [hfalse]
          exact hwritten
      | done => exact hwritten

/-- One step of a tick. -/
theorem step_holds (hS : S.Lawful) (h : s.Holds S) (hknows : s.Knows) (a : TickLabel Row)
    (hok : Clean S s a) (hs : step S s a = some s') : s'.Holds S ∧ s'.Knows := by
  obtain ⟨t, ht, rfl⟩ := step_eq hs
  unfold Knows at hknows
  cases a with
  | watch fresh readable =>
      obtain ⟨hstage, rfl⟩ := Tick.step_watch ht
      refine ⟨h, ?_⟩
      intro hread
      show s.owed.Sublist (readQueue S s.tick.queue readable)
      cases readable with
      | true => exact h.read
      | false =>
          -- an unreadable queue is read only if it is missing
          unfold Tick.reads at hread
          cases hqueue : s.tick.queue with
          | some bytes =>
              rw [hqueue] at hread
              cases hread
          | none =>
              rcases h with h | ⟨front, back, hsome, -⟩
              · rw [h]
                exact List.nil_sublist _
              · cases hqueue.symm.trans hsome
  | append how =>
      obtain ⟨read, queued, fresh, hstage, rfl⟩ := Tick.step_append ht
      rw [hstage] at hknows
      exact append_holds hS h hstage hknows hok rfl
  | save how =>
      obtain ⟨read, stored, queued, fresh, hstage, rfl⟩ := Tick.step_save ht
      rw [hstage] at hknows
      exact ⟨h, hknows⟩
  | send delivery =>
      obtain ⟨read, pending, hstage, hnext⟩ := Tick.step_send ht
      rw [hstage] at hknows
      rcases hnext with ⟨-, -, rfl⟩ | rfl
      · exact ⟨h, hknows⟩
      · exact ⟨h, trivial⟩
  | rewrite how =>
      obtain ⟨read, pending, hstage, rfl⟩ := Tick.step_rewrite ht
      rw [hstage] at hknows
      exact ⟨rewrite_holds hS h hstage hknows hok, trivial⟩
  | crash =>
      obtain rfl := Tick.step_crash ht
      exact ⟨h, trivial⟩

end Kept

/-- **Clean appends survive.** Every row whose append completed and that was not
removed is read, in order. -/
theorem appends_survive [DecidableEq Row] {S : Serde Row} (hS : S.Lawful) {s : Kept Row}
    (hreach : (Kept.system S).Reach (Clean S) s) :
    s.owed.Sublist (readQueue S s.tick.queue true) := by
  have hinv : s.Holds S ∧ s.Knows := by
    refine hreach.invariant (P := fun s => s.Holds S ∧ s.Knows) ?_ ?_
    · rintro s ⟨hstage, hinit⟩
      refine ⟨?_, ?_⟩
      · rcases hinit with ⟨-, howed⟩ | ⟨front, back, hqueue, hwhole, -, howed⟩
        · exact .inl howed
        · exact .inr ⟨front, back, hqueue, hwhole, howed ▸ List.Sublist.refl _⟩
      · unfold Kept.Knows
        rw [hstage]
        trivial
    · rintro s a t ⟨hholds, hknows⟩ hok hs
      exact Kept.step_holds hS hholds hknows a hok hs
  exact hinv.1.read

/-- An agent without files. -/
def freshKept : Kept Bool := ⟨⟨none, .idle⟩, []⟩

theorem freshKept_init : (Kept.system rowSerde).init freshKept := ⟨rfl, .inl ⟨rfl, rfl⟩⟩

set_option maxRecDepth 4096 in
/-- A row outlives a torn append and is rewritten with the next one. -/
theorem appends_survive_sample :
    ∃ s, (Kept.system rowSerde).run freshKept
        [.watch [false] true, .append .done, .crash, .watch [true] true, .append (.torn 5),
          .crash] = some s ∧
      s.owed = [false] ∧ s.owed.Sublist (readQueue rowSerde s.tick.queue true) := by
  have hstart : (Kept.system rowSerde).Reach (Clean rowSerde) freshKept := .start freshKept_init
  have hwatched := hstart.next (a := TickLabel.watch [false] true) trivial rfl
  have happended := hwatched.next (a := TickLabel.append .done)
    (fun _ => ⟨[], rfl, .inl rfl⟩) rfl
  have hcrashed := happended.next (a := TickLabel.crash) trivial rfl
  have hagain := hcrashed.next (a := TickLabel.watch [true] true) trivial rfl
  have htorn := hagain.next (a := TickLabel.append (.torn 5))
    (fun _ _ => ⟨"\x7b\"tim".toList, by decide⟩) rfl
  have hlast := htorn.next (a := TickLabel.crash) trivial rfl
  exact ⟨_, rfl, rfl, appends_survive rowSerde_lawful hlast⟩

set_option maxRecDepth 4096 in
/-- The row appended after a torn one is not read. -/
theorem append_swallowed : ∃ s, (Kept.system rowSerde).Reach Anyway s ∧
    ¬ s.owed.Sublist (readQueue rowSerde s.tick.queue true) := by
  have hrun : ∃ s, (Kept.system rowSerde).run freshKept
        [.watch [false] true, .append (.torn 5), .crash, .watch [true] true, .append .done] =
          some s ∧
      s.owed = [true] ∧ s.tick.queue = some (Utf8.encode ("\x7b\"tim".toList ++
        rowText true ++ ['\n'])) := ⟨_, rfl, rfl, by decide⟩
  obtain ⟨s, hs, howed, hqueue⟩ := hrun
  refine ⟨s, .of_run (.start freshKept_init) hs, ?_⟩
  intro hsub
  rw [howed, hqueue, readQueue_text] at hsub
  exact absurd hsub (by decide)

end Stackhour.Agent
