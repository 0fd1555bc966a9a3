import Mathlib.Data.List.Nodup
import Stackhour.Claire.Steps

/-!
# What the threads keep

The thread of a run holds the session's run and its place among the busy ones until
the run's terminal event is in the log. A run has one reply, which is handled while
the session names its run. All of this under the condition that no turn is started on
a run that has ended.
-/

namespace Stackhour.Claire

open Domain TransitionSystem

/-! ## Runs with a reply -/

def Event.replyRun (e : Event) : Option Run :=
  if e.kind = .messageAssistantCompleted then e.run else none

/-- The runs whose replies are among these events. -/
def replies (events : List Event) : List Run := events.filterMap Event.replyRun

theorem mem_replies {events : List Event} {r : Run} :
    r ∈ replies events ↔ ∃ e ∈ events, e.kind = .messageAssistantCompleted ∧ e.run = some r := by
  unfold replies Event.replyRun
  rw [List.mem_filterMap]
  refine exists_congr fun e => and_congr_right fun _ => ?_
  split
  · next h => simp [h]
  · next h => simp [h]

theorem replies_append (events more : List Event) :
    replies (events ++ more) = replies events ++ replies more := List.filterMap_append

/-- An event that is no reply adds none. -/
theorem replies_snoc {e : Event} (h : e.kind ≠ .messageAssistantCompleted) (events : List Event) :
    replies (events ++ [e]) = replies events := by
  have hnone : replies [e] = [] := by
    unfold replies Event.replyRun
    rw [List.filterMap_cons, if_neg h, List.filterMap_nil]
  rw [replies_append, hnone, List.append_nil]

theorem mem_replies_snoc {events : List Event} {e : Event} {r : Run} :
    r ∈ replies (events ++ [e]) ↔
      r ∈ replies events ∨ (e.kind = .messageAssistantCompleted ∧ e.run = some r) := by
  simp only [mem_replies, List.mem_append, List.mem_singleton, or_and_right, exists_or,
    exists_eq_left]

/-- The log has no terminal event of the run. -/
def Unended (log : List Event) (r : Run) : Prop :=
  ∀ e ∈ log, e.run = some r → isTerminal e.kind = false

/-- A run has one reply, which precedes what ends it. -/
structure Ordered (log : List Event) : Prop where
  reply_run : ∀ e ∈ log, e.kind = .messageAssistantCompleted → e.run ≠ none
  nodup : (replies log).Nodup
  completed : ∀ e ∈ log, e.kind = .runCompleted → ∀ r, e.run = some r → r ∈ replies log
  final : log.Pairwise fun e f =>
    isTerminal e.kind = true → f.kind = .messageAssistantCompleted → e.run ≠ f.run

theorem Ordered.snoc {log : List Event} (h : Ordered log) {e : Event}
    (hreply : e.kind = .messageAssistantCompleted →
      ∃ r, e.run = some r ∧ r ∉ replies log ∧ Unended log r)
    (hcompleted : e.kind = .runCompleted → ∀ r, e.run = some r → r ∈ replies log) :
    Ordered (log ++ [e]) := by
  refine ⟨?_, ?_, ?_, ?_⟩
  · intro f hf hkind
    rcases List.mem_append.mp hf with hf | hf
    · exact h.reply_run f hf hkind
    · obtain rfl := List.mem_singleton.mp hf
      obtain ⟨r, hr, -⟩ := hreply hkind
      rw [hr]
      exact Option.some_ne_none r
  · by_cases hkind : e.kind = .messageAssistantCompleted
    · obtain ⟨r, hr, hnew, -⟩ := hreply hkind
      have hone : replies [e] = [r] := by
        unfold replies Event.replyRun
        rw [List.filterMap_cons, if_pos hkind, hr, List.filterMap_nil]
      rw [replies_append, hone]
      apply List.Nodup.append h.nodup (List.nodup_singleton r)
      rw [List.disjoint_singleton]
      exact hnew
    · rw [replies_snoc hkind]
      exact h.nodup
  · intro f hf hkind r hr
    rw [mem_replies_snoc]
    rcases List.mem_append.mp hf with hf | hf
    · exact .inl (h.completed f hf hkind r hr)
    · obtain rfl := List.mem_singleton.mp hf
      exact .inl (hcompleted hkind r hr)
  · rw [List.pairwise_append]
    refine ⟨h.final, List.pairwise_singleton _ e, ?_⟩
    intro f hf e' he' hterminal hkind hrun
    obtain rfl := List.mem_singleton.mp he'
    obtain ⟨r, hr, -, hunended⟩ := hreply hkind
    rw [hunended f hf (hrun.trans hr)] at hterminal
    cases hterminal

/-- Events that neither reply nor complete a run. -/
theorem Ordered.append {log events : List Event} (h : Ordered log)
    (hevents : ∀ e ∈ events, e.kind ≠ .messageAssistantCompleted ∧ e.kind ≠ .runCompleted) :
    Ordered (log ++ events) ∧ replies (log ++ events) = replies log := by
  induction events using List.reverseRecOn with
  | nil =>
      rw [List.append_nil]
      exact ⟨h, rfl⟩
  | append_singleton events e ih =>
      obtain ⟨hordered, hreplies⟩ := ih fun f hf => hevents f (List.mem_append_left _ hf)
      obtain ⟨hreply, hcompleted⟩ := hevents e (List.mem_append_right _ List.mem_cons_self)
      rw [← List.append_assoc]
      refine ⟨hordered.snoc (fun hk => absurd hk hreply) (fun hk => absurd hk hcompleted), ?_⟩
      rw [replies_snoc hreply, hreplies]

/-! ## The threads -/

/-- The thread still holds its run. -/
def Stage.Active : Stage → Prop
  | .stopped | .ended => False
  | _ => True

/-- The thread has not yet written a reply. -/
def Stage.Early : Stage → Prop
  | .running | .exited _ | .holding _ _ _ | .saved _ => True
  | _ => False

theorem Stage.Early.active {stage : Stage} (h : stage.Early) : stage.Active := by
  cases stage <;> trivial

namespace State

/-- The run that the session names. -/
def namedRun (s : State) : Option Run := s.session.bind Session.run

/-- The events that the output loop has still to handle. -/
def ahead (s : State) : List Event :=
  match s.phase with
  | .boot => []
  | .handle _ e => e :: s.log.drop s.cursor
  | _ => s.log.drop s.cursor

/-- A process for the run was started. -/
def Launched (s : State) (r : Run) : Prop := ∃ prompt, .turn r prompt ∈ s.record

/-- Numbers that are given out are below the next one. -/
structure Bounded (s : State) : Prop where
  cursor : s.cursor ≤ s.log.length
  log : ∀ e ∈ s.log, ∀ r, e.run = some r → r < s.runs
  named : ∀ r, s.namedRun = some r → r < s.runs
  jobs : ∀ r j, s.jobs r = some j → r < s.runs
  busy : ∀ r ∈ s.busy, r < s.runs
  launched : ∀ r, s.Launched r → r < s.runs

/-- A run is held by its thread, by its place among the busy ones, or by neither. -/
structure Threaded (s : State) : Prop where
  active : ∀ r j, s.jobs r = some j → j.stage.Active →
    r ∈ s.busy ∧ Unended s.log r ∧ ∃ x, s.session = some x ∧ x.run = some r ∧ j.task = x.task
  early : ∀ r j, s.jobs r = some j → j.stage.Early → r ∉ replies s.log
  replied : ∀ r task, s.jobs r = some ⟨task, .replied⟩ → r ∈ replies s.log
  holding : ∀ r task copy sessionId text, s.jobs r = some ⟨task, .holding copy sessionId text⟩ →
    s.session = some copy
  named : ∀ r, s.namedRun = some r → r ∉ s.busy → r ∉ replies s.log
  launched : ∀ r, s.namedRun = some r → s.Launched r → r ∈ s.busy ∨ ¬Unended s.log r

/-- What the output loop has taken, and the replies that it has still to handle. -/
structure Looped (s : State) : Prop where
  taken : ∀ upto e, s.phase = .handle upto e → ∃ before, s.log.take s.cursor = before ++ [e]
  awaited : ∀ e ∈ s.ahead, e.kind = .messageAssistantCompleted →
    ∃ x r, e.run = some r ∧ s.session = some x ∧ x.run = some r ∧ x.task = e.task ∧ r ∈ s.busy

structure Base (s : State) : Prop where
  bounded : s.Bounded
  ordered : Ordered s.log
  threaded : s.Threaded
  looped : s.Looped

/-- No thread holds a run. -/
def Still (s : State) : Prop := ∀ r j, s.jobs r = some j → ¬ j.stage.Active

/-- No thread is about to save a session it has read. -/
def Unheld (s : State) : Prop :=
  ∀ r task copy sessionId text, s.jobs r ≠ some ⟨task, .holding copy sessionId text⟩

/-- The session's run is not busy. -/
def Idle (s : State) : Prop := ∀ r, s.namedRun = some r → r ∉ s.busy

theorem idle_of_isBusy {s : State} (h : s.isBusy = false) : s.Idle := by
  intro r hr hbusy
  unfold isBusy at h
  unfold namedRun at hr
  rw [hr] at h
  simp [hbusy] at h

theorem idle_of_busy {s : State} (h : s.busy = []) : s.Idle := by
  intro r _ hbusy
  rw [h] at hbusy
  cases hbusy

theorem Still.unheld {s : State} (h : s.Still) : s.Unheld :=
  fun r _ _ _ _ hj => h r _ hj trivial

theorem namedRun_eq {s : State} {x : Session} (h : s.session = some x) : s.namedRun = x.run := by
  unfold namedRun
  rw [h]
  rfl

/-- An idle session has no thread, and no reply is awaited. -/
theorem Base.still {s : State} (h : s.Base) (hidle : s.Idle) : s.Still := by
  intro r j hj hactive
  obtain ⟨hr, -, x, hx, hrun, -⟩ := h.threaded.active r j hj hactive
  exact hidle r ((namedRun_eq hx).trans hrun) hr

theorem Base.unawaited {s : State} (h : s.Base) (hidle : s.Idle) :
    ∀ e ∈ s.ahead, e.kind ≠ .messageAssistantCompleted := by
  intro e he hkind
  obtain ⟨x, r, -, hx, hrun, -, hr⟩ := h.looped.awaited e he hkind
  exact hidle r ((namedRun_eq hx).trans hrun) hr

theorem ahead_append {s t : State} {events : List Event} (hcursor : s.cursor ≤ s.log.length)
    (hlog : t.log = s.log ++ events) (hsame : t.cursor = s.cursor) (hphase : t.phase = s.phase) :
    ∀ e ∈ t.ahead, e ∈ s.ahead ∨ e ∈ events := by
  intro e he
  unfold ahead at he ⊢
  rw [hphase, hlog, hsame, List.drop_append_of_le_length hcursor] at he
  cases hp : s.phase with
  | boot =>
      rw [hp] at he
      cases he
  | handle upto e' =>
      rw [hp] at he
      rcases List.mem_cons.mp he with rfl | he
      · exact .inl List.mem_cons_self
      · rcases List.mem_append.mp he with he | he
        · exact .inl (List.mem_cons_of_mem _ he)
        · exact .inr he
  | read | events upto | reconcile | followUp | wake =>
      rw [hp] at he
      exact List.mem_append.mp he

theorem Looped.taken_append {s t : State} (h : s.Looped) {events : List Event}
    (hcursor : s.cursor ≤ s.log.length) (hlog : t.log = s.log ++ events)
    (hsame : t.cursor = s.cursor) (hphase : t.phase = s.phase) :
    ∀ upto e, t.phase = .handle upto e → ∃ before, t.log.take t.cursor = before ++ [e] := by
  intro upto e he
  obtain ⟨before, hbefore⟩ := h.taken upto e (hphase ▸ he)
  refine ⟨before, ?_⟩
  rw [hlog, hsame, List.take_append_of_le_length hcursor]
  exact hbefore

/-! ## Steps beside the threads -/

/-- A step while the session's run is not busy: it writes no reply, and the session names the
run that it named, or a new one, or none. -/
structure Aside (s t : State) : Prop where
  log : ∃ events, t.log = s.log ++ events ∧ ∀ e ∈ events,
    (e.kind ≠ .messageAssistantCompleted ∧ e.kind ≠ .runCompleted) ∧
      ∀ r, e.run = some r → r < t.runs ∨ s.namedRun = some r
  runs : s.runs ≤ t.runs
  busy : t.busy ⊆ s.busy
  jobs : t.jobs = s.jobs
  cursor : t.cursor = s.cursor
  phase : t.phase = s.phase
  launched : ∀ r, t.Launched r ↔ s.Launched r
  named : ∀ r, t.namedRun = some r → s.namedRun = some r ∨ (s.runs ≤ r ∧ r < t.runs)

theorem Aside.trans {s t u : State} (h : Aside s t) (h' : Aside t u) : Aside s u := by
  obtain ⟨events, hlog, hevents⟩ := h.log
  obtain ⟨more, hmore, hmores⟩ := h'.log
  refine ⟨⟨events ++ more, ?_, ?_⟩, h.runs.trans h'.runs, fun _ hr => h.busy (h'.busy hr),
    h'.jobs.trans h.jobs, h'.cursor.trans h.cursor, h'.phase.trans h.phase,
    fun r => (h'.launched r).trans (h.launched r), ?_⟩
  · rw [hmore, hlog, List.append_assoc]
  · intro e he
    rcases List.mem_append.mp he with he | he
    · obtain ⟨hkind, hrun⟩ := hevents e he
      exact ⟨hkind, fun r hr => (hrun r hr).imp_left fun hlt => hlt.trans_le h'.runs⟩
    · obtain ⟨hkind, hrun⟩ := hmores e he
      refine ⟨hkind, fun r hr => ?_⟩
      rcases hrun r hr with hlt | hnamed
      · exact .inl hlt
      · rcases h.named r hnamed with hold | ⟨-, hlt⟩
        · exact .inr hold
        · exact .inl (hlt.trans_le h'.runs)
  · intro r hr
    rcases h'.named r hr with hnamed | ⟨hle, hlt⟩
    · rcases h.named r hnamed with hold | ⟨hle, hlt⟩
      · exact .inl hold
      · exact .inr ⟨hle, hlt.trans_le h'.runs⟩
    · exact .inr ⟨h.runs.trans hle, hlt⟩

theorem Aside.idle {s t : State} (h : Aside s t) (hbase : s.Base) (hidle : s.Idle) : t.Idle := by
  intro r hr hbusy
  rcases h.named r hr with hold | ⟨hle, -⟩
  · exact hidle r hold (h.busy hbusy)
  · exact absurd (hbase.bounded.busy r (h.busy hbusy)) (Nat.not_lt.mpr hle)

theorem Base.aside {s t : State} (h : s.Base) (hidle : s.Idle) (ht : Aside s t) : t.Base := by
  obtain ⟨events, hlog, hevents⟩ := ht.log
  obtain ⟨hordered, hreplies⟩ := h.ordered.append fun e he => (hevents e he).1
  have hstill : t.Still := by
    intro r j hj
    rw [ht.jobs] at hj
    exact h.still hidle r j hj
  have hnew : ∀ {r}, s.runs ≤ r → r ∉ replies s.log ∧ ¬s.Launched r := by
    intro r hle
    refine ⟨fun hr => ?_, fun hr => ?_⟩
    · obtain ⟨e, he, -, hrun⟩ := mem_replies.mp hr
      exact absurd (h.bounded.log e he r hrun) (Nat.not_lt.mpr hle)
    · exact absurd (h.bounded.launched r hr) (Nat.not_lt.mpr hle)
  refine ⟨⟨?_, ?_, ?_, ?_, ?_, ?_⟩, hlog ▸ hordered,
    ⟨fun r j hj ha => absurd ha (hstill r j hj), fun r j hj he => absurd he.active (hstill r j hj),
      fun r task hj => absurd trivial (hstill r _ hj),
      fun r task copy sessionId text hj => absurd trivial (hstill r _ hj), ?_, ?_⟩,
    ⟨h.looped.taken_append h.bounded.cursor hlog ht.cursor ht.phase, ?_⟩⟩
  · rw [hlog, ht.cursor, List.length_append]
    exact h.bounded.cursor.trans (Nat.le_add_right _ _)
  · intro e he r hr
    rw [hlog] at he
    rcases List.mem_append.mp he with he | he
    · exact (h.bounded.log e he r hr).trans_le ht.runs
    · rcases (hevents e he).2 r hr with hlt | hnamed
      · exact hlt
      · exact (h.bounded.named r hnamed).trans_le ht.runs
  · intro r hr
    rcases ht.named r hr with hold | ⟨-, hlt⟩
    · exact (h.bounded.named r hold).trans_le ht.runs
    · exact hlt
  · intro r j hj
    rw [ht.jobs] at hj
    exact (h.bounded.jobs r j hj).trans_le ht.runs
  · intro r hr
    exact (h.bounded.busy r (ht.busy hr)).trans_le ht.runs
  · intro r hr
    exact (h.bounded.launched r ((ht.launched r).mp hr)).trans_le ht.runs
  · intro r hr _
    rw [hlog, hreplies]
    rcases ht.named r hr with hold | ⟨hle, -⟩
    · exact h.threaded.named r hold (hidle r hold)
    · exact (hnew hle).1
  · intro r hr hlaunched
    have hlaunched := (ht.launched r).mp hlaunched
    rcases ht.named r hr with hold | ⟨hle, -⟩
    · right
      intro hunended
      refine ((h.threaded.launched r hold hlaunched).resolve_left (hidle r hold)) ?_
      intro e he hrun
      exact hunended e (hlog ▸ List.mem_append_left _ he) hrun
    · exact absurd hlaunched (hnew hle).2
  · intro e he hkind
    rcases ahead_append h.bounded.cursor hlog ht.cursor ht.phase e he with he | he
    · exact absurd hkind (h.unawaited hidle e he)
    · exact absurd hkind (hevents e he).1.1

/-! ## Steps that the threads do not see -/

/-- A step that leaves the runs, the threads and the events alone. -/
structure Frame (s t : State) : Prop where
  log : t.log = s.log
  busy : t.busy = s.busy
  jobs : t.jobs = s.jobs
  runs : t.runs = s.runs
  cursor : t.cursor = s.cursor
  phase : t.phase = s.phase
  launched : ∀ r, t.Launched r ↔ s.Launched r
  session : t.session.map (fun x => (x.task, x.run)) = s.session.map (fun x => (x.task, x.run))

theorem Frame.refl (s : State) : Frame s s :=
  ⟨rfl, rfl, rfl, rfl, rfl, rfl, fun _ => Iff.rfl, rfl⟩

theorem Frame.trans {s t u : State} (h : Frame s t) (h' : Frame t u) : Frame s u :=
  ⟨h'.log.trans h.log, h'.busy.trans h.busy, h'.jobs.trans h.jobs, h'.runs.trans h.runs,
    h'.cursor.trans h.cursor, h'.phase.trans h.phase,
    fun r => (h'.launched r).trans (h.launched r), h'.session.trans h.session⟩

theorem Frame.named {s t : State} (h : Frame s t) : t.namedRun = s.namedRun := by
  have hsame := h.session
  unfold namedRun
  cases hs : s.session with
  | none =>
      rw [hs] at hsame
      rw [Option.map_eq_none_iff.mp hsame]
  | some x =>
      rw [hs] at hsame
      obtain ⟨y, hy, hpair⟩ := Option.map_eq_some_iff.mp hsame
      rw [hy]
      exact congrArg Prod.snd hpair

theorem Frame.aside {s t : State} (h : Frame s t) : Aside s t := by
  refine ⟨⟨[], by rw [h.log, List.append_nil], by simp⟩, h.runs.ge, h.busy ▸ List.Subset.refl _,
    h.jobs, h.cursor, h.phase, h.launched, fun r hr => .inl ?_⟩
  rw [← h.named]
  exact hr

theorem Base.frame {s t : State} (h : s.Base) (hf : Frame s t)
    (hsame : t.session = s.session ∨ s.Unheld) : t.Base := by
  have hsession : ∀ {x}, s.session = some x →
      ∃ y, t.session = some y ∧ y.task = x.task ∧ y.run = x.run := by
    intro x hx
    have hmap := hf.session
    rw [hx] at hmap
    obtain ⟨y, hy, hpair⟩ := Option.map_eq_some_iff.mp hmap
    exact ⟨y, hy, congrArg Prod.fst hpair, congrArg Prod.snd hpair⟩
  refine ⟨⟨?_, ?_, ?_, ?_, ?_, ?_⟩, ?_, ⟨?_, ?_, ?_, ?_, ?_, ?_⟩, ⟨?_, ?_⟩⟩
  · rw [hf.cursor, hf.log]
    exact h.bounded.cursor
  · rw [hf.log, hf.runs]
    exact h.bounded.log
  · rw [hf.named, hf.runs]
    exact h.bounded.named
  · rw [hf.jobs, hf.runs]
    exact h.bounded.jobs
  · rw [hf.busy, hf.runs]
    exact h.bounded.busy
  · intro r hr
    rw [hf.runs]
    exact h.bounded.launched r ((hf.launched r).mp hr)
  · rw [hf.log]
    exact h.ordered
  · intro r j hj hactive
    rw [hf.jobs] at hj
    obtain ⟨hbusy, hunended, x, hx, hrun, htask⟩ := h.threaded.active r j hj hactive
    obtain ⟨y, hy, hytask, hyrun⟩ := hsession hx
    rw [hf.busy, hf.log]
    exact ⟨hbusy, hunended, y, hy, hyrun.trans hrun, htask.trans hytask.symm⟩
  · rw [hf.jobs, hf.log]
    exact h.threaded.early
  · rw [hf.jobs, hf.log]
    exact h.threaded.replied
  · intro r task copy sessionId text hj
    rw [hf.jobs] at hj
    rcases hsame with hsame | hunheld
    · rw [hsame]
      exact h.threaded.holding r task copy sessionId text hj
    · exact absurd hj (hunheld r task copy sessionId text)
  · rw [hf.named, hf.busy, hf.log]
    exact h.threaded.named
  · intro r hr hlaunched
    rw [hf.named] at hr
    rw [hf.busy, hf.log]
    exact h.threaded.launched r hr ((hf.launched r).mp hlaunched)
  · rw [hf.phase, hf.log, hf.cursor]
    exact h.looped.taken
  · intro e he hkind
    have hahead : t.ahead = s.ahead := by
      unfold ahead
      rw [hf.phase, hf.log, hf.cursor]
    obtain ⟨x, r, hr, hx, hrun, htask, hbusy⟩ := h.looped.awaited e (hahead ▸ he) hkind
    obtain ⟨y, hy, hytask, hyrun⟩ := hsession hx
    rw [hf.busy]
    exact ⟨y, r, hr, hy, hyrun.trans hrun, hytask.trans htask, hbusy⟩

theorem Frame.save {s : State} {x y : Session} (hx : s.session = some x) (htask : y.task = x.task)
    (hrun : y.run = x.run) : Frame s (s.save y) := by
  refine ⟨rfl, rfl, rfl, rfl, rfl, rfl, fun _ => Iff.rfl, ?_⟩
  rw [hx]
  show some (y.task, y.run) = some (x.task, x.run)
  rw [htask, hrun]

theorem Frame.note (s : State) {h : Happening} (hturn : ∀ run prompt, h ≠ .turn run prompt) :
    Frame s (s.note h) := by
  refine ⟨rfl, rfl, rfl, rfl, rfl, rfl, fun r => exists_congr fun prompt => ?_, rfl⟩
  show _ ∈ s.record ++ [h] ↔ _
  rw [List.mem_append, List.mem_singleton]
  exact or_iff_left (fun heq => hturn r prompt heq.symm)

theorem Frame.drop (cause : Cause) (x : Session) (s : State) : Frame s (s.drop cause x) := by
  unfold State.drop
  split
  · exact Frame.note s (fun _ _ h => by cases h)
  · exact Frame.refl s

theorem Frame.defer (now : DateTime) (error : String) (id : EventId) (s : State) :
    Frame s (s.defer now error id) := ⟨rfl, rfl, rfl, rfl, rfl, rfl, fun _ => Iff.rfl, rfl⟩

theorem Frame.complete (now : DateTime) (id : EventId) (s : State) :
    Frame s (s.complete now id) := ⟨rfl, rfl, rfl, rfl, rfl, rfl, fun _ => Iff.rfl, rfl⟩

theorem Frame.clearWake (id : EventId) (s : State) : Frame s (s.clearWake id) := by
  unfold State.clearWake
  split
  · next x hx =>
      split
      · exact Frame.save hx rfl rfl
      · exact Frame.refl s
  · exact Frame.refl s

theorem Frame.deferSessionWake (now : DateTime) (reason : String) (x : Session) (s : State) :
    Frame s (s.deferSessionWake now reason x) := by
  unfold State.deferSessionWake
  split
  · exact (Frame.defer now reason _ s).trans (Frame.clearWake _ _)
  · exact Frame.refl s

/-! ## The steps of the threads -/

theorem Unended.mono {log log' : List Event} {r : Run} (h : Unended log' r)
    (hle : ∀ e ∈ log, e ∈ log') : Unended log r := fun e he => h e (hle e he)

theorem jobs_update {s : State} {run r : Run} {new j : Job}
    (h : Function.update s.jobs run (some new) r = some j) :
    (r = run ∧ j = new) ∨ (r ≠ run ∧ s.jobs r = some j) := by
  by_cases hr : r = run
  · subst hr
    rw [Function.update_self] at h
    exact .inl ⟨rfl, (Option.some.inj h).symm⟩
  · rw [Function.update_of_ne hr] at h
    exact .inr ⟨hr, h⟩

/-- The session has one run. -/
theorem Base.active_unique {s : State} (h : s.Base) {r r' : Run} {j j' : Job}
    (hj : s.jobs r = some j) (ha : j.stage.Active) (hj' : s.jobs r' = some j')
    (ha' : j'.stage.Active) : r = r' := by
  obtain ⟨-, -, x, hx, hrun, -⟩ := h.threaded.active r j hj ha
  obtain ⟨-, -, y, hy, hrun', -⟩ := h.threaded.active r' j' hj' ha'
  obtain rfl := Option.some.inj (hx.symm.trans hy)
  exact Option.some.inj (hrun.symm.trans hrun')

/-- The thread of a run writes an event of it. -/
theorem Base.advance {s : State} (h : s.Base) {run : Run} {task : Task} {old new : Stage}
    {e : Event} (hj : s.jobs run = some ⟨task, old⟩) (hold : old.Active) (hrun : e.run = some run)
    (htask : e.task = task) (hordered : Ordered (s.log ++ [e]))
    (hactive : new.Active → isTerminal e.kind = false) (hearly : ¬ new.Early)
    (hreplied : new = .replied → run ∈ replies (s.log ++ [e])) :
    ((s.append e).setStage run task new).Base := by
  obtain ⟨hbusy, hunended, x, hx, hxrun, hxtask⟩ := h.threaded.active run _ hj hold
  have hforeign : ∀ {r}, r ≠ run → (r ∈ replies (s.log ++ [e]) ↔ r ∈ replies s.log) := by
    intro r hne
    rw [mem_replies_snoc]
    exact or_iff_left (fun hr => hne (Option.some.inj (hr.2.symm.trans hrun)))
  refine ⟨⟨?_, ?_, h.bounded.named, ?_, h.bounded.busy, h.bounded.launched⟩, hordered,
    ⟨?_, ?_, ?_, ?_, ?_, ?_⟩,
    ⟨h.looped.taken_append h.bounded.cursor rfl rfl rfl, ?_⟩⟩
  · exact h.bounded.cursor.trans (by simp [setStage, append])
  · intro f hf r hr
    rcases List.mem_append.mp hf with hf | hf
    · exact h.bounded.log f hf r hr
    · obtain rfl := List.mem_singleton.mp hf
      obtain rfl := Option.some.inj (hrun.symm.trans hr)
      exact h.bounded.busy run hbusy
  · intro r j hj'
    rcases jobs_update hj' with ⟨rfl, -⟩ | ⟨-, hj'⟩
    · exact h.bounded.busy r hbusy
    · exact h.bounded.jobs r j hj'
  · intro r j hj' hactive'
    rcases jobs_update hj' with ⟨rfl, rfl⟩ | ⟨hne, hj'⟩
    · refine ⟨hbusy, ?_, x, hx, hxrun, hxtask⟩
      intro f hf hfrun
      rcases List.mem_append.mp hf with hf | hf
      · exact hunended f hf hfrun
      · obtain rfl := List.mem_singleton.mp hf
        exact hactive hactive'
    · exact absurd (h.active_unique hj' hactive' hj hold) hne
  · intro r j hj' hearly'
    rcases jobs_update hj' with ⟨rfl, rfl⟩ | ⟨hne, hj'⟩
    · exact absurd hearly' hearly
    · show r ∉ replies (s.log ++ [e])
      rw [hforeign hne]
      exact h.threaded.early r j hj' hearly'
  · intro r task' hj'
    rcases jobs_update hj' with ⟨rfl, hsame⟩ | ⟨hne, hj'⟩
    · exact hreplied (congrArg Job.stage hsame).symm
    · show r ∈ replies (s.log ++ [e])
      rw [hforeign hne]
      exact h.threaded.replied r task' hj'
  · intro r task' copy sessionId text hj'
    rcases jobs_update hj' with ⟨rfl, hsame⟩ | ⟨-, hj'⟩
    · obtain rfl : Stage.holding copy sessionId text = new := congrArg Job.stage hsame
      exact absurd trivial hearly
    · exact h.threaded.holding r task' copy sessionId text hj'
  · intro r hr hidle
    by_cases hne : r = run
    · subst hne
      exact absurd hbusy hidle
    · show r ∉ replies (s.log ++ [e])
      rw [hforeign hne]
      exact h.threaded.named r hr hidle
  · intro r hr hlaunched
    refine (h.threaded.launched r hr hlaunched).imp_right fun hended hunended => hended ?_
    exact Unended.mono hunended fun f hf => List.mem_append_left _ hf
  · intro f hf hkind
    have hlog : ((s.append e).setStage run task new).log = s.log ++ [e] := rfl
    rcases ahead_append h.bounded.cursor hlog rfl rfl f hf with hf | hf
    · exact h.looped.awaited f hf hkind
    · obtain rfl := List.mem_singleton.mp hf
      exact ⟨x, run, hrun, hx, hxrun, hxtask.symm.trans htask.symm, hbusy⟩

/-- The thread of a run goes on without writing an event. -/
theorem Base.setStage {s : State} (h : s.Base) {run : Run} {task : Task} {old new : Stage}
    (hj : s.jobs run = some ⟨task, old⟩) (hactive : new.Active → old.Active)
    (hearly : new.Early → old.Early) (hreplied : new ≠ .replied)
    (hholding : ∀ copy sessionId text, new = .holding copy sessionId text →
      s.session = some copy) : (s.setStage run task new).Base := by
  refine ⟨⟨h.bounded.cursor, h.bounded.log, h.bounded.named, ?_, h.bounded.busy,
    h.bounded.launched⟩, h.ordered, ⟨?_, ?_, ?_, ?_, h.threaded.named, h.threaded.launched⟩,
    ⟨h.looped.taken, h.looped.awaited⟩⟩
  · intro r j hj'
    rcases jobs_update hj' with ⟨rfl, -⟩ | ⟨-, hj'⟩
    · exact h.bounded.jobs r _ hj
    · exact h.bounded.jobs r j hj'
  · intro r j hj' hactive'
    rcases jobs_update hj' with ⟨rfl, rfl⟩ | ⟨-, hj'⟩
    · exact h.threaded.active r ⟨task, old⟩ hj (hactive hactive')
    · exact h.threaded.active r j hj' hactive'
  · intro r j hj' hearly'
    rcases jobs_update hj' with ⟨rfl, rfl⟩ | ⟨-, hj'⟩
    · exact h.threaded.early r ⟨task, old⟩ hj (hearly hearly')
    · exact h.threaded.early r j hj' hearly'
  · intro r task' hj'
    rcases jobs_update hj' with ⟨rfl, hsame⟩ | ⟨-, hj'⟩
    · exact absurd (congrArg Job.stage hsame).symm hreplied
    · exact h.threaded.replied r task' hj'
  · intro r task' copy sessionId text hj'
    rcases jobs_update hj' with ⟨rfl, hsame⟩ | ⟨-, hj'⟩
    · exact hholding copy sessionId text (congrArg Job.stage hsame).symm
    · exact h.threaded.holding r task' copy sessionId text hj'

theorem Base.removeJob {s : State} (h : s.Base) (run : Run) : (s.removeJob run).Base := by
  have hjobs : ∀ {r j}, (s.removeJob run).jobs r = some j → s.jobs r = some j := by
    intro r j hj
    have hupdate : Function.update s.jobs run none r = some j := hj
    by_cases hr : r = run
    · rw [hr, Function.update_self] at hupdate
      cases hupdate
    · rwa [Function.update_of_ne hr] at hupdate
  exact ⟨⟨h.bounded.cursor, h.bounded.log, h.bounded.named,
      fun r j hj => h.bounded.jobs r j (hjobs hj), h.bounded.busy, h.bounded.launched⟩, h.ordered,
    ⟨fun r j hj => h.threaded.active r j (hjobs hj), fun r j hj => h.threaded.early r j (hjobs hj),
      fun r task hj => h.threaded.replied r task (hjobs hj),
      fun r task copy sessionId text hj =>
        h.threaded.holding r task copy sessionId text (hjobs hj),
      h.threaded.named, h.threaded.launched⟩, ⟨h.looped.taken, h.looped.awaited⟩⟩

/-- The process of a run exits. -/
theorem Base.exits {s t : State} (h : s.Base) {run : Run} {result : ProcessEnd}
    (ht : s.exits run result = some t) : t.Base := by
  unfold State.exits at ht
  split at ht
  · next task hj =>
      obtain rfl := Option.some.inj ht
      exact h.setStage hj (fun _ => trivial) (fun _ => trivial) (fun hs => by cases hs)
        (fun _ _ _ hs => by cases hs)
  · obtain rfl := Option.some.inj ht
    exact h.removeJob run
  · cases ht

/-- The thread that waited for it goes on. -/
theorem Base.supervise {s t : State} (h : s.Base) {run : Run} (ht : s.supervise run = some t) :
    t.Base := by
  unfold State.supervise at ht
  split at ht
  · next task error hj =>
      obtain rfl := Option.some.inj ht
      refine h.advance hj trivial rfl rfl (h.ordered.snoc ?_ ?_) (fun ha => ha.elim) id
        (fun hs => by cases hs)
      · intro hk
        cases hk
      · intro hk
        cases hk
  · next task sessionId text hj =>
      split at ht
      · next x hx =>
          split at ht
          · obtain rfl := Option.some.inj ht
            refine h.setStage hj (fun _ => trivial) (fun _ => trivial) (fun hs => by cases hs) ?_
            intro copy _ _ hs
            cases hs
            exact hx
          · obtain rfl := Option.some.inj ht
            exact h.setStage hj (fun _ => trivial) (fun _ => trivial) (fun hs => by cases hs)
              (fun _ _ _ hs => by cases hs)
      · obtain rfl := Option.some.inj ht
        exact h.setStage hj (fun _ => trivial) (fun _ => trivial) (fun hs => by cases hs)
          (fun _ _ _ hs => by cases hs)
  · next task copy sessionId text hj =>
      obtain rfl := Option.some.inj ht
      have hsession := h.threaded.holding run task copy sessionId text hj
      have hnext : (s.setStage run task (.saved text)).Base :=
        h.setStage hj (fun _ => trivial) (fun _ => trivial) (fun hs => by cases hs)
          (fun _ _ _ hs => by cases hs)
      refine hnext.frame (Frame.save hsession rfl rfl) (.inr ?_)
      -- no other thread holds a run
      intro r task' copy' sessionId' text' hj'
      rcases jobs_update hj' with ⟨-, hsame⟩ | ⟨hne, hj'⟩
      · cases hsame
      · exact hne (h.active_unique hj' trivial hj trivial)
  · next task text hj =>
      obtain rfl := Option.some.inj ht
      obtain ⟨-, hunended, -⟩ := h.threaded.active run _ hj trivial
      have hnew : run ∉ replies s.log := h.threaded.early run _ hj trivial
      refine h.advance hj trivial rfl rfl (h.ordered.snoc ?_ ?_) (fun _ => rfl) id ?_
      · exact fun _ => ⟨run, rfl, hnew, hunended⟩
      · intro hk
        cases hk
      · exact fun _ => mem_replies_snoc.mpr (.inr ⟨rfl, rfl⟩)
  · next task hj =>
      obtain rfl := Option.some.inj ht
      refine h.advance hj trivial rfl rfl (h.ordered.snoc ?_ ?_) (fun ha => ha.elim) id
        (fun hs => by cases hs)
      · intro hk
        cases hk
      · intro _ r hr
        obtain rfl := Option.some.inj hr
        exact h.threaded.replied run task hj
  · obtain rfl := Option.some.inj ht
    exact h.removeJob run
  · cases ht

/-! ## Starting a turn -/

theorem launched_of_record {s t : State} (h : t.record = s.record) (r : Run) :
    t.Launched r ↔ s.Launched r := by
  unfold Launched
  rw [h]

theorem Untaken.aside {s t : State} (h : Untaken s t) : Aside s t := by
  obtain ⟨events, hlog, hevents⟩ := h.log
  refine ⟨⟨events, hlog, fun e he => ?_⟩, h.runs.ge, h.busy ▸ List.Subset.refl _, h.jobs, h.cursor,
    h.phase, launched_of_record h.record, fun r hr => .inl ?_⟩
  · obtain ⟨⟨hterminal, hreply⟩, hrun⟩ := hevents e he
    have hnone : e.run = none := hrun.elim id id
    refine ⟨⟨hreply, fun hk => ?_⟩, fun r hr => ?_⟩
    · rw [hk] at hterminal
      cases hterminal
    · rw [hnone] at hr
      cases hr
  · unfold namedRun at hr ⊢
    rw [h.session] at hr
    exact hr

theorem Submitted.aside {s t : State} {x : Session} {r : Run} (h : Submitted s t x r) :
    Aside s t := by
  obtain ⟨events, hlog, hevents⟩ := h.log
  have hnamed : s.namedRun = some r ∨ (s.runs ≤ r ∧ r < t.runs) := by
    rcases h.fresh with ⟨rfl, hruns⟩ | ⟨-, hsession, -⟩
    · rw [hruns]
      exact .inr ⟨le_rfl, Nat.lt_succ_self _⟩
    · exact .inl ((namedRun_eq hsession).trans h.run)
  refine ⟨⟨events, hlog, fun e he => ?_⟩, ?_, h.busy ▸ List.Subset.refl _, h.jobs, h.cursor,
    h.phase, launched_of_record h.record, fun r' hr' => ?_⟩
  · obtain ⟨⟨hterminal, hreply⟩, hrun⟩ := hevents e he
    refine ⟨⟨hreply, fun hk => ?_⟩, fun r' hr' => ?_⟩
    · rw [hk] at hterminal
      cases hterminal
    · rcases hrun with hrun | hrun
      · rw [hrun] at hr'
        cases hr'
      · obtain rfl := Option.some.inj (hrun.symm.trans hr')
        exact hnamed.symm.imp_left And.right
  · rcases h.fresh with ⟨-, hruns⟩ | ⟨hruns, -⟩
    · exact hruns ▸ Nat.le_succ _
    · exact hruns.ge
  · obtain rfl := Option.some.inj (h.run.symm.trans ((namedRun_eq h.session).symm.trans hr'))
    exact hnamed

theorem Unstarted.aside {s t : State} {r : Run} (h : Unstarted s t r)
    (hr : s.namedRun = some r) : Aside s t := by
  obtain ⟨events, hlog, hevents⟩ := h.log
  refine ⟨⟨events, hlog, fun e he => ?_⟩, h.runs.ge, ?_, h.jobs, h.cursor, h.phase,
    launched_of_record h.record, fun r' hr' => .inl ?_⟩
  · obtain ⟨hrun, hkind⟩ := hevents e he
    refine ⟨?_, fun r' hr' => .inr ?_⟩
    · rw [hkind]
      simp
    · exact hr.trans (hrun.symm.trans hr')
  · rw [h.busy]
    exact List.filter_sublist.subset
  · unfold namedRun at hr' ⊢
    rw [h.session] at hr'
    exact hr'

/-- The run that a turn would go on with has not ended. -/
def Renewed (s : State) : Prop :=
  ∀ x r, s.session = some x → x.engine = s.engine → x.run = some r → Unended s.log r

/-- The run of a turn that was taken: it has not ended, and no process was started for it. -/
theorem Submitted.free {s t : State} {x : Session} {r : Run} (h : Submitted s t x r)
    (hbase : s.Base) (hidle : s.Idle) (hrenewed : s.Renewed) :
    Unended t.log r ∧ ¬t.Launched r ∧ r ∉ replies t.log := by
  obtain ⟨events, hlog, hevents⟩ := h.log
  have hbaset := hbase.aside hidle h.aside
  have hnamed : t.namedRun = some r := (namedRun_eq h.session).trans h.run
  have hidlet := h.aside.idle hbase hidle
  have hunended : Unended s.log r := by
    rcases h.fresh with ⟨rfl, -⟩ | ⟨-, hsession, hengine⟩
    · intro e he hrun
      exact absurd (hbase.bounded.log e he s.runs hrun) (lt_irrefl _)
    · exact hrenewed x r hsession hengine h.run
  have hunended : Unended t.log r := by
    intro e he hrun
    rw [hlog] at he
    rcases List.mem_append.mp he with he | he
    · exact hunended e he hrun
    · exact (hevents e he).1.1
  refine ⟨hunended, fun hlaunched => ?_, hbaset.threaded.named r hnamed (hidlet r hnamed)⟩
  rcases hbaset.threaded.launched r hnamed hlaunched with hbusy | hended
  · exact hidlet r hnamed hbusy
  · exact hended hunended

theorem mem_insert {busy : List Run} {r r' : Run} : r' ∈ busy.insert r ↔ r' = r ∨ r' ∈ busy :=
  List.mem_insert_iff

theorem launched_begun {s : State} {prompt : Prompt} {task : Task} {r r' : Run} :
    (begun prompt task r s).Launched r' ↔ r' = r ∨ s.Launched r' := by
  unfold Launched begun note insertBusy
  simp only [List.mem_append, List.mem_singleton, Happening.turn.injEq, exists_or]
  constructor
  · rintro (hold | ⟨p, rfl, -⟩)
    · exact .inr hold
    · exact .inl rfl
  · rintro (rfl | hold)
    · exact .inr ⟨prompt, rfl, rfl⟩
    · exact .inl hold

/-- The process of a turn that was taken starts. -/
theorem Base.begun {s : State} (h : s.Base) (hidle : s.Idle) {x : Session} {r : Run}
    (hx : s.session = some x) (hr : x.run = some r) (hunended : Unended s.log r)
    (hreply : r ∉ replies s.log) (prompt : Prompt) : (s.begun prompt x.task r).Base := by
  have hstill := h.still hidle
  have hnamed : s.namedRun = some r := (namedRun_eq hx).trans hr
  have hbound : r < s.runs := h.bounded.named r hnamed
  refine ⟨⟨h.bounded.cursor, h.bounded.log, h.bounded.named, ?_, ?_, ?_⟩, h.ordered,
    ⟨?_, ?_, ?_, ?_, ?_, ?_⟩, ⟨h.looped.taken, ?_⟩⟩
  · intro r' j hj
    rcases jobs_update hj with ⟨rfl, -⟩ | ⟨-, hj⟩
    · exact hbound
    · exact h.bounded.jobs r' j hj
  · intro r' hr'
    rcases mem_insert.mp hr' with rfl | hr'
    · exact hbound
    · exact h.bounded.busy r' hr'
  · intro r' hr'
    rcases launched_begun.mp hr' with rfl | hr'
    · exact hbound
    · exact h.bounded.launched r' hr'
  · intro r' j hj hactive
    rcases jobs_update hj with ⟨rfl, rfl⟩ | ⟨-, hj⟩
    · exact ⟨mem_insert.mpr (.inl rfl), hunended, x, hx, hr, rfl⟩
    · exact absurd hactive (hstill r' j hj)
  · intro r' j hj hearly
    rcases jobs_update hj with ⟨rfl, rfl⟩ | ⟨-, hj⟩
    · exact hreply
    · exact absurd hearly.active (hstill r' j hj)
  · intro r' task hj
    rcases jobs_update hj with ⟨-, hsame⟩ | ⟨-, hj⟩
    · cases hsame
    · exact absurd trivial (hstill r' _ hj)
  · intro r' task copy sessionId text hj
    rcases jobs_update hj with ⟨-, hsame⟩ | ⟨-, hj⟩
    · cases hsame
    · exact absurd trivial (hstill r' _ hj)
  · intro r' hr' hfree
    exact h.threaded.named r' hr' fun hmem => hfree (mem_insert.mpr (.inr hmem))
  · intro r' hr' _
    obtain rfl := Option.some.inj (hnamed.symm.trans hr')
    exact .inl (mem_insert.mpr (.inl rfl))
  · intro e he hkind
    exact absurd hkind (h.unawaited hidle e he)

theorem Base.startTurn {s : State} (h : s.Base) (hidle : s.Idle) {env : Env}
    (hrenewed : env.settings = none → env.spawned = true → s.Renewed) (prompt : Prompt) :
    (s.startTurn env prompt).1.Base := by
  rcases startTurn_cases env prompt s with
    ⟨t, hstart, ht⟩ | ⟨t, x, r, ht, ⟨hstart, -, hsettings, hspawned⟩ | hfail⟩
  · rw [hstart]
    exact h.aside hidle ht.aside
  · rw [hstart]
    obtain ⟨hunended, -, hreply⟩ := ht.free h hidle (hrenewed hsettings hspawned)
    exact (h.aside hidle ht.aside).begun (ht.aside.idle h hidle) ht.session ht.run hunended hreply
      prompt
  · obtain ⟨u, error, hstart, hu⟩ := hfail
    rw [hstart]
    exact h.aside hidle (ht.aside.trans (hu.aside ((namedRun_eq ht.session).trans ht.run)))

/-! ## Follow-ups and wakes -/

/-- A follow-up that was not started: its results are given up, and its wake is deferred. -/
structure Stalled (s t : State) (b : FollowUp) : Prop where
  aside : Aside s t
  session : ∃ z, t.session = some z ∧ z.pendingWake = none ∧ z.pendingFollowUp = none ∧
    z.followUpInProgress = false
  record : t.record = s.record ++ [.dropped b .startFailed]
  wakes : Deferral s.wakes t.wakes

theorem appendStartFailure_session (x : Session) (error : String) (s : State) :
    (appendStartFailure x error s).session = s.session ∧
      (appendStartFailure x error s).wakes = s.wakes ∧
      (appendStartFailure x error s).record = s.record := by
  unfold appendStartFailure
  split
  · split <;> exact ⟨rfl, rfl, rfl⟩
  · exact ⟨rfl, rfl, rfl⟩

theorem appendStartFailure_aside {s : State} {x : Session} (hx : s.session = some x)
    (error : String) : Aside s (appendStartFailure x error s) := by
  unfold appendStartFailure
  cases hr : x.run with
  | none => exact (Frame.refl s).aside
  | some run =>
      dsimp only
      split
      · exact (Frame.refl s).aside
      · refine ⟨⟨[_], rfl, fun e he => ?_⟩, le_rfl, List.Subset.refl _, rfl, rfl, rfl,
          fun _ => Iff.rfl, fun r hr => .inl hr⟩
        rw [List.mem_singleton.mp he]
        exact ⟨by simp, fun r hr' => .inr ((namedRun_eq hx).trans (hr.trans hr'))⟩

theorem stalled_of_aside {s u : State} {y z : Session} (hu : Aside s u) (hz : u.session = some z)
    (hwake : z.pendingWake = y.pendingWake) (hrecord : u.record = s.record)
    (hwakes : u.wakes = s.wakes) (error : String) (b : FollowUp) (now : DateTime)
    (reason : String) :
    Stalled s (((abandonFollowUp error u).note (.dropped b .startFailed)).deferSessionWake now
      reason y) b := by
  have habandon : ∃ v, abandonFollowUp error u =
      v.save { z with pendingFollowUp := none, followUpInProgress := false } ∧ Aside u v ∧
        v.session = some z ∧ v.record = u.record ∧ v.wakes = u.wakes := by
    unfold abandonFollowUp
    rw [hz]
    dsimp only
    obtain ⟨hsession, hsame, hrecord⟩ := appendStartFailure_session z error u
    split
    · exact ⟨_, rfl, appendStartFailure_aside hz error, hsession.trans hz, hrecord, hsame⟩
    · exact ⟨_, rfl, (Frame.refl u).aside, hz, rfl, rfl⟩
  obtain ⟨v, hv, haside, hsession, hvrecord, hvwakes⟩ := habandon
  rw [hv]
  let given : Session := { z with pendingFollowUp := none, followUpInProgress := false }
  obtain ⟨wakes, hdeferral, hdefer⟩ := @deferSessionWake_eq
    ((v.save given).note (.dropped b .startFailed)) given y rfl hwake.symm now reason
  have hsave : Frame v (v.save given) := Frame.save hsession rfl rfl
  have hnote : Frame (v.save given) ((v.save given).note (.dropped b .startFailed)) :=
    Frame.note _ nofun
  have haside := (hu.trans haside).trans
    ((hsave.trans hnote).trans (Frame.deferSessionWake now reason y _)).aside
  rw [hdefer] at haside ⊢
  refine ⟨haside, ⟨_, rfl, rfl, rfl, rfl⟩, ?_, ?_⟩
  · show v.record ++ _ = _
    rw [hvrecord, hrecord]
  · have hsame : ((v.save given).note (.dropped b .startFailed)).wakes = s.wakes :=
      hvwakes.trans hwakes
    rwa [hsame] at hdeferral

/-- What the output loop does for pending results: nothing, or it starts their follow-up, or
gives them up. -/
theorem startFollowUp_cases (env : Env) (s : State) :
    (startFollowUp env s = s ∧ (s.busy = [] → s.session.bind Session.pendingFollowUp = none)) ∨
      ∃ x b, s.busy = [] ∧ s.session = some x ∧ x.pendingFollowUp = some b ∧
        ((∃ t x' r, Submitted
            (s.save { x with pendingFollowUp := none, followUpInProgress := true }) t x' r ∧
            env.settings = none ∧ env.spawned = true ∧
            startFollowUp env s = begun (.followUp b) x'.task r t) ∨
          Stalled s (startFollowUp env s) b) := by
  unfold startFollowUp
  split
  · next hbusy => exact .inl ⟨rfl, fun h => absurd h hbusy⟩
  · next hbusy =>
      have hbusy : s.busy = [] := not_not.mp hbusy
      cases hx : s.session with
      | none => exact .inl ⟨rfl, fun _ => rfl⟩
      | some x =>
          dsimp only
          cases hb : x.pendingFollowUp with
          | none => exact .inl ⟨rfl, fun _ => hb⟩
          | some b =>
              refine .inr ⟨x, b, hbusy, rfl, hb, ?_⟩
              dsimp only
              let y : Session := { x with pendingFollowUp := none, followUpInProgress := true }
              have hframe : Aside s (s.save y) := (@Frame.save s x y hx rfl rfl).aside
              rcases startTurn_cases env (.followUp b) (s.save y) with
                ⟨t, hstart, ht⟩ |
                  ⟨t, x', r, ht, ⟨hstart, -, hsettings, hspawned⟩ | ⟨u, error, hstart, hu⟩⟩
              · right
                rw [hstart]
                exact stalled_of_aside (hframe.trans ht.aside) ht.session rfl ht.record ht.wakes _ b
                  _ _
              · rw [hstart]
                exact .inl ⟨t, x', r, ht, hsettings, hspawned, rfl⟩
              · right
                rw [hstart]
                have hrun := (namedRun_eq ht.session).trans ht.run
                have hrest : x'.pendingWake = x.pendingWake :=
                  congrArg (fun q => q.2.1) ht.rest
                exact stalled_of_aside (hframe.trans (ht.aside.trans (hu.aside hrun)))
                  (hu.session.trans ht.session) hrest (hu.record.trans ht.record)
                  (hu.wakes.trans ht.wakes) _ b _ _

/-- A wake that is not assessed now. -/
structure Passed (s t : State) : Prop where
  aside : Aside s t
  record : t.record = s.record
  wakes : Deferral s.wakes t.wakes
  session : t.session = s.session ∨
    ∃ u x r, Submitted s u x r ∧ t.session = some { x with pendingWake := none }

theorem passed_of_unstarted {s t u : State} {x : Session} {r : Run} (ht : Submitted s t x r)
    {id : EventId} (hu : Unstarted (t.save { x with pendingWake := some id }) u r)
    (now : DateTime) (reason : String) :
    Passed s (u.deferSessionWake now reason { x with pendingWake := some id }) := by
  let y : Session := { x with pendingWake := some id }
  have hsave : Frame t (t.save y) := Frame.save ht.session rfl rfl
  have hnamed : (t.save y).namedRun = some r := ht.run
  have haside := ((ht.aside.trans hsave.aside).trans (hu.aside hnamed)).trans
    (Frame.deferSessionWake now reason y u).aside
  obtain ⟨wakes, hdeferral, hdefer⟩ := @deferSessionWake_eq u y y hu.session rfl now reason
  have hwakes : u.wakes = s.wakes := hu.wakes.trans ht.wakes
  rw [hwakes] at hdeferral
  rw [hdefer] at haside ⊢
  exact ⟨haside, hu.record.trans ht.record, hdeferral, .inr ⟨t, x, r, ht, rfl⟩⟩

/-- What the output loop does for a wake: nothing, or it starts the assessment, or puts it off. -/
theorem startWake_cases (channel : String) (env : Env) (s : State) :
    startWake channel env s = s ∨ ∃ id, s.busy = [] ∧
      firstWake channel env.now s.wakes = some id ∧
        ((∃ t x r, Submitted s t x r ∧ env.settings = none ∧ env.spawned = true ∧
            startWake channel env s =
              begun (.wake id) x.task r (t.save { x with pendingWake := some id })) ∨
          Passed s (startWake channel env s)) := by
  unfold startWake
  split
  · exact .inl rfl
  · next hbusy =>
      cases hid : firstWake channel env.now s.wakes with
      | none => exact .inl rfl
      | some id =>
          refine .inr ⟨id, not_not.mp hbusy, rfl, ?_⟩
          dsimp only
          rcases submit_cases env.acceptance s with ⟨t, hsubmit, ht⟩ | ⟨t, x, r, hsubmit, ht⟩
          · rw [hsubmit]
            refine .inr ⟨ht.aside.trans (Frame.defer env.now env.detail id t).aside, ht.record, ?_,
              .inl ht.session⟩
            exact .inr ⟨env.now, env.detail, id, congrArg (deferred env.now env.detail id) ht.wakes⟩
          · rw [hsubmit]
            dsimp only
            obtain ⟨y, hy⟩ : ∃ y : Session, y = { x with pendingWake := some id } := ⟨_, rfl⟩
            have hyrun : y.run = some r := by
              rw [hy]
              exact ht.run
            rw [← hy, ht.run]
            dsimp only
            cases hsettings : env.settings with
            | some error =>
                have hu : Unstarted (t.save y) (((t.save y).insertBusy r).removeBusy r) r :=
                  ⟨⟨[], (List.append_nil _).symm, nofun⟩, rfl, rfl, rfl, rfl,
                    insert_filter t.busy r, rfl, rfl, rfl, rfl⟩
                subst hy
                exact .inr (passed_of_unstarted ht hu env.now error)
            | none =>
                dsimp only
                rcases launch_cases env (.wake id) y r (t.save y) with
                  ⟨hlaunch, -, hspawned⟩ | ⟨u, error, hlaunch, hu⟩
                · rw [hlaunch]
                  subst hy
                  exact .inl ⟨t, x, r, ht, rfl, hspawned, rfl⟩
                · rw [hlaunch]
                  have hu := hu y hyrun
                  subst hy
                  exact .inr (passed_of_unstarted ht hu env.now error)

end State

end Stackhour.Claire
