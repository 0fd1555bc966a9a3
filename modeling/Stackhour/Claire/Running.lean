import Stackhour.Claire.Threads

/-!
# One turn at a time

Every step of the assistant keeps what its threads rest on, as long as no turn is
started on a run that has ended. Then at most one process is live, and its run is the
session's.
-/

namespace Stackhour.Claire

open Domain TransitionSystem

variable {Action : Type*}

namespace State

/-! ## The output loop goes on -/

/-- The loop takes or skips events that it has read. -/
theorem Base.move {s : State} (h : s.Base) {cursor : ℕ} {phase : Phase}
    (hcursor : cursor ≤ s.log.length)
    (htaken : ∀ upto e, phase = .handle upto e → ∃ before, s.log.take cursor = before ++ [e])
    (hahead : ∀ e ∈ ({ s with cursor := cursor, phase := phase } : State).ahead, e ∈ s.ahead) :
    ({ s with cursor := cursor, phase := phase } : State).Base :=
  ⟨⟨hcursor, h.bounded.log, h.bounded.named, h.bounded.jobs, h.bounded.busy, h.bounded.launched⟩,
    h.ordered,
    ⟨h.threaded.active, h.threaded.early, h.threaded.replied, h.threaded.holding, h.threaded.named,
      h.threaded.launched⟩,
    ⟨htaken, fun e he => h.looped.awaited e (hahead e he)⟩⟩

/-- The event that the loop has taken is in the log. -/
theorem Base.taken_mem {s : State} (h : s.Base) {upto : ℕ} {e : Event}
    (hphase : s.phase = .handle upto e) : e ∈ s.log := by
  obtain ⟨before, hbefore⟩ := h.looped.taken upto e hphase
  apply List.mem_of_mem_take (i := s.cursor)
  rw [hbefore]
  exact List.mem_append_right _ List.mem_cons_self

theorem Base.ahead_mem {s : State} (h : s.Base) {e : Event} (he : e ∈ s.ahead) : e ∈ s.log := by
  unfold ahead at he
  cases hphase : s.phase with
  | boot =>
      rw [hphase] at he
      cases he
  | handle upto e' =>
      rw [hphase] at he
      rcases List.mem_cons.mp he with rfl | he
      · exact h.taken_mem hphase
      · exact List.mem_of_mem_drop he
  | read | events upto | reconcile | followUp | wake =>
      rw [hphase] at he
      exact List.mem_of_mem_drop he

theorem ahead_handle {s : State} {upto : ℕ} {e : Event} (hphase : s.phase = .handle upto e) :
    s.ahead = e :: s.log.drop s.cursor := by
  unfold ahead
  rw [hphase]

/-! ## What replies do -/

theorem turn_not_mem_drops (cause : Cause) (results : Option FollowUp) (r : Run)
    (prompt : Prompt) : Happening.turn r prompt ∉ drops cause results := by
  intro hmem
  obtain ⟨b, -, hsame⟩ := mem_drops.mp hmem
  cases hsame

/-- A step that changes what the session waits for. -/
theorem Frame.of_record {s : State} {x y : Session} {wakes : List WakeRow}
    {record more : List Happening} (hx : s.session = some x) (htask : y.task = x.task)
    (hrun : y.run = x.run) (hrecord : record = s.record ++ more)
    (hmore : ∀ r prompt, Happening.turn r prompt ∉ more) :
    Frame s { s with session := some y, wakes := wakes, record := record } := by
  refine ⟨rfl, rfl, rfl, rfl, rfl, rfl, fun r => exists_congr fun prompt => ?_, ?_⟩
  · show _ ∈ record ↔ _
    rw [hrecord, List.mem_append]
    exact or_iff_left (hmore r prompt)
  · rw [hx]
    show some (y.task, y.run) = some (x.task, x.run)
    rw [htask, hrun]

theorem Replied.record_new {parse : String → Option (Envelope Action)} {h : Handling Action}
    {e : Event} {x : Session} {s t : State} (ht : Replied parse h e x s t) :
    ∃ more, t.record = s.record ++ more ∧ ∀ r prompt, Happening.turn r prompt ∉ more := by
  cases ht with
  | malformed wakes _ _ => exact ⟨_, rfl, turn_not_mem_drops _ _⟩
  | refused envelope wakes _ _ _ _ | pending envelope _ _ _ _ =>
      refine ⟨_, List.append_assoc _ _ _, fun r prompt hmem => ?_⟩
      rcases List.mem_append.mp hmem with hmem | hmem
      · cases List.mem_singleton.mp hmem
      · exact turn_not_mem_drops _ _ r prompt hmem
  | answered envelope wakes did said _ hdid hsaid =>
      refine ⟨_, List.append_assoc _ _ _, fun r prompt hmem => ?_⟩
      rcases List.mem_append.mp hmem with hmem | hmem
      · rcases hdid with rfl | ⟨-, rfl⟩
        · cases hmem
        · cases List.mem_singleton.mp hmem
      · rcases hsaid with ⟨rfl, -⟩ | ⟨id, -, -, -, rfl⟩
        · cases hmem
        · cases List.mem_singleton.mp hmem

theorem Replied.frame {parse : String → Option (Envelope Action)} {h : Handling Action} {e : Event}
    {x : Session} {s t : State} (ht : Replied parse h e x s t) (hx : s.session = some x) :
    Frame s t := by
  obtain ⟨more, hrecord, hmore⟩ := ht.record_new
  cases ht <;> exact Frame.of_record hx rfl rfl hrecord hmore

/-- A run that has replied is past the time when its thread saves the session. -/
theorem Base.unheld {s : State} (h : s.Base) {e : Event} (he : e ∈ s.ahead)
    (hkind : e.kind = .messageAssistantCompleted) : s.Unheld := by
  intro r' task copy sessionId text hj
  obtain ⟨x, r, hr, hx, hrun, -, -⟩ := h.looped.awaited e he hkind
  obtain ⟨-, -, y, hy, hrun', -⟩ := h.threaded.active r' _ hj trivial
  obtain rfl := Option.some.inj (hx.symm.trans hy)
  obtain rfl := Option.some.inj (hrun.symm.trans hrun')
  exact h.threaded.early r _ hj trivial (mem_replies.mpr ⟨e, h.ahead_mem he, hkind, hr⟩)

/-! ## What ends a run does -/

/-- A run is over: it is not busy, and the session does not name it. -/
structure Ended (r : Option Run) (s t : State) : Prop where
  log : t.log = s.log
  busy : t.busy = s.busy.filter (fun run => decide (some run ≠ r))
  jobs : t.jobs = s.jobs
  runs : t.runs = s.runs
  cursor : t.cursor = s.cursor
  phase : t.phase = s.phase
  launched : ∀ run, t.Launched run ↔ s.Launched run
  session : (s.namedRun = r ∧ t.namedRun = none) ∨
    (t.session = s.session ∧ ∀ x, s.session = some x → x.run ≠ r)

theorem Over.ended {e : Event} {s t : State} (ht : Over e s t) : Ended e.run s t := by
  cases ht with
  | other hother => exact ⟨rfl, rfl, rfl, rfl, rfl, rfl, fun _ => Iff.rfl, .inr ⟨rfl, hother⟩⟩
  | completed x hx hrun _ =>
      exact ⟨rfl, rfl, rfl, rfl, rfl, rfl, fun _ => Iff.rfl,
        .inl ⟨(namedRun_eq hx).trans hrun, rfl⟩⟩
  | failed x wakes hx hrun _ =>
      refine ⟨rfl, rfl, rfl, rfl, rfl, rfl, fun r => exists_congr fun prompt => ?_,
        .inl ⟨(namedRun_eq hx).trans hrun, rfl⟩⟩
      show _ ∈ s.record ++ drops .runFailed x.pendingFollowUp ↔ _
      rw [List.mem_append]
      exact or_iff_left (turn_not_mem_drops _ _ r prompt)

/-- A reply does not come after the end of its run. -/
theorem Base.replied_before {s : State} (h : s.Base) {upto : ℕ} {e f : Event}
    (hphase : s.phase = .handle upto e) (hterminal : isTerminal e.kind = true) (hf : f ∈ s.ahead)
    (hkind : f.kind = .messageAssistantCompleted) : e.run ≠ f.run := by
  rw [ahead_handle hphase] at hf
  rcases List.mem_cons.mp hf with rfl | hf
  · rw [hkind] at hterminal
    cases hterminal
  · obtain ⟨before, hbefore⟩ := h.looped.taken upto e hphase
    have hfinal := h.ordered.final
    rw [← List.take_append_drop s.cursor s.log, List.pairwise_append] at hfinal
    have htaken : e ∈ s.log.take s.cursor := by
      rw [hbefore]
      exact List.mem_append_right _ List.mem_cons_self
    exact hfinal.2.2 e htaken f hf hterminal hkind

/-- The loop has taken the event that ends a run. -/
theorem Base.ended {s t : State} (h : s.Base) {upto : ℕ} {e : Event}
    (hphase : s.phase = .handle upto e) (hterminal : isTerminal e.kind = true)
    (ht : Ended e.run s t) : t.Base := by
  have hover : ∀ {r}, Unended s.log r → some r ≠ e.run := by
    intro r hunended hrun
    have hfalse := hunended e (h.taken_mem hphase) hrun.symm
    rw [hterminal] at hfalse
    cases hfalse
  have hbusy : ∀ {r}, r ∈ s.busy → some r ≠ e.run → r ∈ t.busy := by
    intro r hr hne
    rw [ht.busy]
    exact List.mem_filter.mpr ⟨hr, by simpa using hne⟩
  have hkept : ∀ {x r}, s.session = some x → x.run = some r → some r ≠ e.run →
      t.session = some x := by
    intro x r hx hr hne
    rcases ht.session with ⟨hnamed, -⟩ | ⟨hsame, -⟩
    · exact absurd (hr.symm.trans ((namedRun_eq hx).symm.trans hnamed)) hne
    · exact hsame.trans hx
  have hnamed : ∀ {r}, t.namedRun = some r → s.namedRun = some r ∧ some r ≠ e.run := by
    intro r hr
    rcases ht.session with ⟨-, hnone⟩ | ⟨hsame, hne⟩
    · rw [hnone] at hr
      cases hr
    · have hold : s.namedRun = some r := by
        unfold namedRun at hr ⊢
        rwa [← hsame]
      obtain ⟨x, hx, hxr⟩ := Option.bind_eq_some_iff.mp hold
      exact ⟨hold, fun hrun => hne x hx (hxr.trans hrun)⟩
  refine ⟨⟨?_, ?_, ?_, ?_, ?_, ?_⟩, ?_, ⟨?_, ?_, ?_, ?_, ?_, ?_⟩, ⟨?_, ?_⟩⟩
  · rw [ht.cursor, ht.log]
    exact h.bounded.cursor
  · rw [ht.log, ht.runs]
    exact h.bounded.log
  · intro r hr
    rw [ht.runs]
    exact h.bounded.named r (hnamed hr).1
  · rw [ht.jobs, ht.runs]
    exact h.bounded.jobs
  · intro r hr
    rw [ht.busy] at hr
    rw [ht.runs]
    exact h.bounded.busy r (List.mem_filter.mp hr).1
  · intro r hr
    rw [ht.runs]
    exact h.bounded.launched r ((ht.launched r).mp hr)
  · rw [ht.log]
    exact h.ordered
  · intro r j hj hactive
    rw [ht.jobs] at hj
    obtain ⟨hr, hunended, x, hx, hxr, htask⟩ := h.threaded.active r j hj hactive
    rw [ht.log]
    exact ⟨hbusy hr (hover hunended), hunended, x, hkept hx hxr (hover hunended), hxr, htask⟩
  · rw [ht.jobs, ht.log]
    exact h.threaded.early
  · rw [ht.jobs, ht.log]
    exact h.threaded.replied
  · intro r task copy sessionId text hj
    rw [ht.jobs] at hj
    obtain ⟨-, hunended, x, hx, hxr, -⟩ := h.threaded.active r _ hj trivial
    rw [hkept hx hxr (hover hunended), ← hx]
    exact h.threaded.holding r task copy sessionId text hj
  · intro r hr hidle
    obtain ⟨hold, hne⟩ := hnamed hr
    rw [ht.log]
    exact h.threaded.named r hold fun hr => hidle (hbusy hr hne)
  · intro r hr hlaunched
    obtain ⟨hold, hne⟩ := hnamed hr
    rw [ht.log]
    exact (h.threaded.launched r hold ((ht.launched r).mp hlaunched)).imp_left
      fun hr => hbusy hr hne
  · rw [ht.phase, ht.log, ht.cursor]
    exact h.looped.taken
  · intro f hf hkind
    have hahead : t.ahead = s.ahead := by
      unfold ahead
      rw [ht.phase, ht.log, ht.cursor]
    rw [hahead] at hf
    obtain ⟨x, r, hr, hx, hxr, htask, hin⟩ := h.looped.awaited f hf hkind
    have hne : some r ≠ e.run := by
      rw [← hr]
      exact (h.replied_before hphase hterminal hf hkind).symm
    exact ⟨x, r, hr, hkept hx hxr hne, hxr, htask, hbusy hin hne⟩

/-- The event that the loop has taken ends a run, or is the reply of the session's run, or is
passed over. -/
theorem Base.handleEvent_cases {s : State} (hbase : s.Base) {upto : ℕ} {e : Event}
    (hphase : s.phase = .handle upto e) (parse : String → Option (Envelope Action))
    (h : Handling Action) :
    (isTerminal e.kind = true ∧ Over e s (handleEvent parse h e s)) ∨
      (e.kind = .messageAssistantCompleted ∧ ∃ x r, s.session = some x ∧ x.run = some r ∧
        e.run = some r ∧ r ∈ s.busy ∧ Replied parse h e x s (handleEvent parse h e s)) ∨
      (Mute e ∧ handleEvent parse h e s = s) := by
  cases hterminal : isTerminal e.kind with
  | true => exact .inl ⟨rfl, handleEvent_terminal parse h s hterminal⟩
  | false =>
      by_cases hreply : e.kind = .messageAssistantCompleted
      · have hahead : e ∈ s.ahead := by
          rw [ahead_handle hphase]
          exact List.mem_cons_self
        obtain ⟨x, r, hr, hx, hrun, -, hbusy⟩ := hbase.looped.awaited e hahead hreply
        exact .inr (.inl ⟨hreply, x, r, hx, hrun, hr, hbusy, handleEvent_reply parse h hreply hx⟩)
      · exact .inr (.inr ⟨⟨hterminal, hreply⟩, handleEvent_mute parse h s ⟨hterminal, hreply⟩⟩)

/-- The loop handles the event that it has taken. -/
theorem Base.handleEvent {s : State} (hbase : s.Base) {upto : ℕ} {e : Event}
    (hphase : s.phase = .handle upto e) (parse : String → Option (Envelope Action))
    (h : Handling Action) :
    (handleEvent parse h e s).Base ∧ (handleEvent parse h e s).phase = s.phase := by
  have hahead : e ∈ s.ahead := by
    rw [ahead_handle hphase]
    exact List.mem_cons_self
  rcases hbase.handleEvent_cases hphase parse h with
    ⟨hterminal, hover⟩ | ⟨hreply, x, r, hx, -, -, -, hreplied⟩ | ⟨-, hsame⟩
  · exact ⟨hbase.ended hphase hterminal hover.ended, hover.ended.phase⟩
  · exact ⟨hbase.frame (hreplied.frame hx) (.inr (hbase.unheld hahead hreply)),
      (hreplied.frame hx).phase⟩
  · rw [hsame]
    exact ⟨hbase, rfl⟩

/-! ## What leaves no thread with a run -/

/-- A step after which no thread holds a run: it writes no reply, and the session names no run
that it did not name. -/
theorem Base.rest {s t : State} (h : s.Base) {events : List Event}
    (hlog : t.log = s.log ++ events)
    (hevents : ∀ e ∈ events, (e.kind ≠ .messageAssistantCompleted ∧ e.kind ≠ .runCompleted) ∧
      ∀ r, e.run = some r → r < s.runs)
    (hruns : t.runs = s.runs) (hbusy : t.busy ⊆ s.busy)
    (hjobs : ∀ r j, t.jobs r = some j → ¬ j.stage.Active ∧ r < s.runs)
    (hlaunched : ∀ r, t.Launched r ↔ s.Launched r)
    (hnamed : ∀ r, t.namedRun = some r → s.namedRun = some r ∧ (r ∈ s.busy → r ∈ t.busy))
    (hcursor : t.cursor ≤ t.log.length) (hlooped : t.Looped) : t.Base := by
  obtain ⟨hordered, hreplies⟩ := h.ordered.append fun e he => (hevents e he).1
  refine ⟨⟨hcursor, ?_, ?_, ?_, ?_, ?_⟩, hlog ▸ hordered,
    ⟨fun r j hj ha => absurd ha (hjobs r j hj).1,
      fun r j hj he => absurd he.active (hjobs r j hj).1,
      fun r task hj => absurd trivial (hjobs r _ hj).1,
      fun r task copy sessionId text hj => absurd trivial (hjobs r _ hj).1, ?_, ?_⟩, hlooped⟩
  · intro e he r hr
    rw [hlog] at he
    rw [hruns]
    rcases List.mem_append.mp he with he | he
    · exact h.bounded.log e he r hr
    · exact (hevents e he).2 r hr
  · intro r hr
    rw [hruns]
    exact h.bounded.named r (hnamed r hr).1
  · intro r j hj
    rw [hruns]
    exact (hjobs r j hj).2
  · intro r hr
    rw [hruns]
    exact h.bounded.busy r (hbusy hr)
  · intro r hr
    rw [hruns]
    exact h.bounded.launched r ((hlaunched r).mp hr)
  · intro r hr hidle
    obtain ⟨hold, hstill⟩ := hnamed r hr
    rw [hlog, hreplies]
    exact h.threaded.named r hold fun hr => hidle (hstill hr)
  · intro r hr hlaunch
    obtain ⟨hold, hstill⟩ := hnamed r hr
    refine (h.threaded.launched r hold ((hlaunched r).mp hlaunch)).imp hstill ?_
    intro hended hunended
    exact hended (Unended.mono hunended fun e he => hlog ▸ List.mem_append_left _ he)

theorem launched_drops {s t : State} {cause : Cause} {results : Option FollowUp}
    (hrecord : t.record = s.record ++ drops cause results) (r : Run) : t.Launched r ↔ s.Launched r := by
  refine exists_congr fun prompt => ?_
  rw [hrecord, List.mem_append]
  exact or_iff_left (turn_not_mem_drops cause results r prompt)

/-- The user's turn is stopped. -/
theorem Base.stop {s : State} (h : s.Base) (now : DateTime) : (stop now s).Base := by
  rcases stop_cases now s with hsame | ⟨x, run, task, wakes, hx, hrun, hjob, -, hstop⟩
  · rw [hsame]
    exact h
  · have hahead := @ahead_append s (State.stop now s) [⟨x.task, some run, .runInterrupted, ""⟩]
      h.bounded.cursor (by rw [hstop]) (by rw [hstop]) (by rw [hstop])
    rw [hstop] at hahead ⊢
    have hbound : run < s.runs := h.bounded.jobs run _ hjob
    -- the process has not replied
    have hunreplied : ∀ e ∈ s.ahead, e.kind ≠ .messageAssistantCompleted := by
      intro e he hkind
      obtain ⟨y, r, hr, hy, hyr, -, -⟩ := h.looped.awaited e he hkind
      obtain rfl := Option.some.inj (hx.symm.trans hy)
      obtain rfl := Option.some.inj (hrun.symm.trans hyr)
      exact h.threaded.early run _ hjob trivial (mem_replies.mpr ⟨e, h.ahead_mem he, hkind, hr⟩)
    refine h.rest rfl ?_ rfl List.filter_sublist.subset ?_ (launched_drops rfl) nofun ?_
      ⟨h.looped.taken_append h.bounded.cursor rfl rfl rfl, ?_⟩
    · intro e he
      rw [List.mem_singleton.mp he]
      refine ⟨by simp, fun r hr => ?_⟩
      rwa [← Option.some.inj hr]
    · intro r j hj
      rcases jobs_update hj with ⟨rfl, rfl⟩ | ⟨hne, hj⟩
      · exact ⟨id, hbound⟩
      · exact ⟨fun ha => hne (h.active_unique hj ha hjob trivial), h.bounded.jobs r j hj⟩
    · exact h.bounded.cursor.trans (by simp)
    · intro e he hkind
      rcases hahead e he with he | he
      · exact absurd hkind (hunreplied e he)
      · rw [List.mem_singleton.mp he] at hkind
        cases hkind

/-- A process that left no terminal event is found out. -/
theorem Base.reconcile {s : State} (h : s.Base) (now : DateTime) :
    (reconcile now s).Base ∧ (reconcile now s).phase = s.phase := by
  rcases reconcile_cases now s with hsame | ⟨x, run, wakes, hx, hrun, hbusy, hjob, -, hreconcile⟩
  · rw [hsame]
    exact ⟨h, rfl⟩
  · have hahead := @ahead_append s (State.reconcile now s) _
      h.bounded.cursor (by rw [hreconcile]) (by rw [hreconcile]) (by rw [hreconcile])
    rw [hreconcile] at hahead ⊢
    have hbound : run < s.runs := h.bounded.busy run hbusy
    have hnamed : s.namedRun = some run := (namedRun_eq hx).trans hrun
    refine ⟨h.rest rfl ?_ rfl (List.Subset.refl _) ?_ (fun _ => Iff.rfl) ?_ ?_
      ⟨h.looped.taken_append h.bounded.cursor rfl rfl rfl, ?_⟩, rfl⟩
    · intro e he
      rw [List.mem_singleton.mp he]
      refine ⟨by simp, fun r hr => ?_⟩
      rwa [← Option.some.inj hr]
    · intro r j hj
      refine ⟨fun ha => ?_, h.bounded.jobs r j hj⟩
      obtain ⟨-, -, y, hy, hyr, -⟩ := h.threaded.active r j hj ha
      obtain rfl := Option.some.inj (hx.symm.trans hy)
      obtain rfl := Option.some.inj (hrun.symm.trans hyr)
      rw [hjob] at hj
      cases hj
    · intro r hr
      refine ⟨?_, id⟩
      rw [hnamed, ← hrun]
      exact hr
    · exact h.bounded.cursor.trans (by simp)
    · intro e he hkind
      rcases hahead e he with he | he
      · obtain ⟨y, r, hr, hy, hyr, htask, hin⟩ := h.looped.awaited e he hkind
        obtain rfl := Option.some.inj (hx.symm.trans hy)
        exact ⟨{ x with pendingWake := none }, r, hr, rfl, hyr, htask, hin⟩
      · rw [List.mem_singleton.mp he] at hkind
        cases hkind

theorem Base.restart {s : State} (h : s.Base) (now : DateTime) : (restart now s).Base := by
  obtain ⟨events, wakes, -, hevents, hrestart⟩ := restart_eq now s
  rw [hrestart]
  have hnamed : (s.session.map fun x => { x with run := none, pendingWake := none }).bind
      Session.run = none := by
    cases s.session <;> rfl
  refine h.rest rfl ?_ rfl (List.nil_subset _) nofun (fun _ => Iff.rfl) ?_ (Nat.zero_le _)
    ⟨nofun, nofun⟩
  · intro e he
    obtain ⟨hkind, hrun⟩ := hevents e he
    refine ⟨by rw [hkind]; simp, fun r hr => h.bounded.named r ?_⟩
    exact hrun.symm.trans hr
  · intro r hr
    have hfalse := hnamed.symm.trans hr
    cases hfalse

/-! ## What the user asks for -/

/-- A session that lets go of its run while it is idle, or a session that is given up. -/
theorem Base.letGo {s t : State} (h : s.Base) (hidle : s.Idle) {cause : Cause}
    {results : Option FollowUp} (hlog : t.log = s.log) (hruns : t.runs = s.runs) (hbusy : t.busy = s.busy)
    (hjobs : t.jobs = s.jobs) (hcursor : t.cursor = s.cursor) (hphase : t.phase = s.phase)
    (hrecord : t.record = s.record ++ drops cause results) (hnamed : t.namedRun = none) : t.Base := by
  refine h.aside hidle ⟨⟨[], by rw [hlog, List.append_nil], nofun⟩, hruns.ge,
    hbusy ▸ List.Subset.refl _, hjobs, hcursor, hphase, launched_drops hrecord, fun r hr => ?_⟩
  rw [hnamed] at hr
  cases hr

theorem Base.clearCurrentRun {s : State} (h : s.Base) (hidle : s.Idle) (now : DateTime)
    (engine : String) : (clearCurrentRun now engine s).Base := by
  rcases clearCurrentRun_cases now engine s with hsame | ⟨x, wakes, -, -, hclear⟩
  · rw [hsame]
    exact h
  · rw [hclear]
    exact h.letGo hidle rfl rfl rfl rfl rfl rfl rfl rfl

theorem Base.reset {s : State} (h : s.Base) (hidle : s.Idle) (now : DateTime) :
    (reset now s).Base := by
  rcases reset_cases now s with hsame | ⟨x, wakes, -, -, hreset⟩
  · rw [hsame]
    exact h
  · rw [hreset]
    exact h.letGo hidle rfl rfl rfl rfl rfl rfl rfl rfl

theorem Base.engine {s : State} (h : s.Base) (engine : String) :
    ({ s with engine := engine } : State).Base :=
  h.frame ⟨rfl, rfl, rfl, rfl, rfl, rfl, fun _ => Iff.rfl, rfl⟩ (.inl rfl)

theorem Base.handleInput {s : State} (h : s.Base) {text : String} {env : Env}
    (hrenewed : (∃ prompt, readInput text = .turn prompt) → s.isBusy = false →
      env.settings = none → env.spawned = true → s.Renewed) :
    (handleInput text env s).Base := by
  unfold State.handleInput
  cases hread : readInput text with
  | quiet => exact h
  | stop => exact h.stop env.now
  | engine name =>
      dsimp only
      split
      · exact h
      · next hbusy =>
          have hidle : s.Idle := idle_of_isBusy (Bool.eq_false_iff.mpr hbusy)
          exact (h.engine name).clearCurrentRun hidle env.now name
  | model =>
      dsimp only
      split
      · exact h
      · next hbusy =>
          exact h.clearCurrentRun (idle_of_isBusy (Bool.eq_false_iff.mpr hbusy)) env.now s.engine
  | reset =>
      dsimp only
      split
      · exact h
      · next hbusy => exact h.reset (idle_of_isBusy (Bool.eq_false_iff.mpr hbusy)) env.now
  | turn prompt =>
      dsimp only
      split
      · exact h
      · next hbusy =>
          have hfree := Bool.eq_false_iff.mpr hbusy
          exact h.startTurn (idle_of_isBusy hfree) (hrenewed ⟨prompt, hread⟩ hfree) (.user prompt)

/-! ## What the loop starts -/

theorem Base.save {s : State} (h : s.Base) (hidle : s.Idle) {x y : Session}
    (hx : s.session = some x) (htask : y.task = x.task) (hrun : y.run = x.run) :
    (s.save y).Base :=
  h.frame (Frame.save hx htask hrun) (.inr (h.still hidle).unheld)

theorem Renewed.save {s : State} (h : s.Renewed) {x y : Session} (hx : s.session = some x)
    (hengine : y.engine = x.engine) (hrun : y.run = x.run) : (s.save y).Renewed := by
  intro z r hz hsame hr
  obtain rfl := Option.some.inj hz
  exact h x r hx (hengine.symm.trans hsame) (hrun.symm.trans hr)

theorem Base.startFollowUp {s : State} (h : s.Base) {env : Env}
    (hrenewed : s.busy = [] → (s.session.bind Session.pendingFollowUp).isSome →
      env.settings = none → env.spawned = true → s.Renewed) :
    (startFollowUp env s).Base ∧ (startFollowUp env s).phase = s.phase := by
  rcases startFollowUp_cases env s with
    ⟨hsame, -⟩ | ⟨x, b, hbusy, hx, hb, ⟨t, x', r, ht, hsettings, hspawned, hstart⟩ | hstalled⟩
  · rw [hsame]
    exact ⟨h, rfl⟩
  · rw [hstart]
    have hidle := idle_of_busy hbusy
    have hpending : (s.session.bind Session.pendingFollowUp).isSome := by
      rw [hx]
      exact Option.isSome_iff_exists.mpr ⟨b, hb⟩
    have hnew := hrenewed hbusy hpending hsettings hspawned
    have hsave := @Base.save s h hidle x
      { x with pendingFollowUp := none, followUpInProgress := true } hx rfl rfl
    have hidle' : (s.save { x with pendingFollowUp := none, followUpInProgress := true }).Idle :=
      idle_of_busy hbusy
    have hnew' := hnew.save (y := { x with pendingFollowUp := none, followUpInProgress := true })
      hx rfl rfl
    obtain ⟨hunended, -, hreply⟩ := ht.free hsave hidle' hnew'
    exact ⟨(hsave.aside hidle' ht.aside).begun (ht.aside.idle hsave hidle') ht.session ht.run
      hunended hreply _, ht.phase⟩
  · exact ⟨h.aside (idle_of_busy hbusy) hstalled.aside, hstalled.aside.phase⟩

theorem Base.startWake {s : State} (h : s.Base) {channel : String} {env : Env}
    (hrenewed : s.busy = [] → (firstWake channel env.now s.wakes).isSome →
      env.settings = none → env.spawned = true → s.Renewed) :
    (startWake channel env s).Base ∧ (startWake channel env s).phase = s.phase := by
  rcases startWake_cases channel env s with
    hsame | ⟨id, hbusy, hid, ⟨t, x, r, ht, hsettings, hspawned, hstart⟩ | hpassed⟩
  · rw [hsame]
    exact ⟨h, rfl⟩
  · rw [hstart]
    have hidle := idle_of_busy hbusy
    have hnew := hrenewed hbusy (Option.isSome_iff_exists.mpr ⟨id, hid⟩) hsettings hspawned
    obtain ⟨hunended, -, hreply⟩ := ht.free h hidle hnew
    have hbase := h.aside hidle ht.aside
    have hidle' := ht.aside.idle h hidle
    have hsave := @Base.save t hbase hidle' x { x with pendingWake := some id } ht.session rfl rfl
    refine ⟨hsave.begun (x := { x with pendingWake := some id }) (fun r' hr' => ?_) rfl ht.run
      hunended hreply _, ht.phase⟩
    exact hidle' r' ((namedRun_eq ht.session).trans hr')
  · exact ⟨h.aside (idle_of_busy hbusy) hpassed.aside, hpassed.aside.phase⟩

/-! ## Runs -/

/-- The step starts a process for a turn, if it can. -/
def Starts (channel : String) (s : State) : Label Action → Prop
  | .input text env => s.isBusy = false ∧ (∃ prompt, readInput text = .turn prompt) ∧
      env.settings = none ∧ env.spawned = true
  | .output env _ => s.busy = [] ∧ env.settings = none ∧ env.spawned = true ∧
      ((s.phase = .followUp ∧ (s.session.bind Session.pendingFollowUp).isSome) ∨
        (s.phase = .wake ∧ (firstWake channel env.now s.wakes).isSome))
  | _ => False

/-- A turn is not started on a run that has ended. -/
def Fresh (channel : String) (s : State) (a : Label Action) : Prop :=
  Starts channel s a → s.Renewed

theorem isClaire_of_awaited {s : State} {x : Session} {e : Event} (hx : s.session = some x)
    (htask : x.task = e.task) (hrun : e.run = x.run) : s.isClaire e = true := by
  unfold isClaire
  rw [hx]
  simp [htask, hrun]

theorem Base.output {s : State} (hbase : s.Base) {channel : String}
    {parse : String → Option (Envelope Action)} {env : Env} {h : Handling Action}
    (hfresh : Fresh channel s (.output env h)) : (output channel parse env h s).Base := by
  unfold State.output
  cases hphase : s.phase with
  | boot => exact hbase.move le_rfl nofun (by unfold ahead; simp)
  | read =>
      refine hbase.move hbase.bounded.cursor nofun fun e he => ?_
      unfold ahead at he ⊢
      rw [hphase]
      exact he
  | events upto =>
      have hahead : s.ahead = s.log.drop s.cursor := by
        unfold ahead
        rw [hphase]
      dsimp only
      split
      · refine hbase.move hbase.bounded.cursor nofun fun e he => ?_
        rw [hahead]
        exact he
      · cases hnext : s.log[s.cursor]? with
        | none =>
            refine hbase.move hbase.bounded.cursor nofun fun e he => ?_
            rw [hahead]
            exact he
        | some e =>
            obtain ⟨hlt, he⟩ := List.getElem?_eq_some_iff.mp hnext
            have hdrop : s.log.drop s.cursor = e :: s.log.drop (s.cursor + 1) := by
              rw [List.drop_eq_getElem_cons hlt, he]
            refine hbase.move (Nat.succ_le_of_lt hlt) ?_ fun f hf => ?_
            · intro upto' e' hsame
              split at hsame
              · obtain ⟨-, rfl⟩ := Phase.handle.inj hsame
                exact ⟨s.log.take s.cursor, by rw [List.take_add_one, hnext]; rfl⟩
              · cases hsame
            · rw [hahead, hdrop]
              unfold ahead at hf
              dsimp only at hf
              split at hf
              · cases hf
              · next upto' e' hsame =>
                  split at hsame
                  · obtain ⟨-, rfl⟩ := Phase.handle.inj hsame
                    exact hf
                  · cases hsame
              · exact List.mem_cons_of_mem _ hf
  | handle upto e =>
      obtain ⟨hnext, hsame⟩ := hbase.handleEvent hphase parse h
      refine hnext.move hnext.bounded.cursor nofun fun f hf => ?_
      rw [ahead_handle (hsame.trans hphase)]
      exact List.mem_cons_of_mem _ hf
  | reconcile =>
      obtain ⟨hnext, hsame⟩ := hbase.reconcile env.now
      refine hnext.move hnext.bounded.cursor nofun fun f hf => ?_
      unfold ahead
      rw [hsame, hphase]
      exact hf
  | followUp =>
      obtain ⟨hnext, hsame⟩ := @Base.startFollowUp s hbase env fun hbusy hpending hsettings hspawned =>
        hfresh ⟨hbusy, hsettings, hspawned, .inl ⟨hphase, hpending⟩⟩
      refine hnext.move hnext.bounded.cursor nofun fun f hf => ?_
      unfold ahead
      rw [hsame, hphase]
      exact hf
  | wake =>
      obtain ⟨hnext, hsame⟩ := @Base.startWake s hbase channel env
        fun hbusy hwake hsettings hspawned =>
          hfresh ⟨hbusy, hsettings, hspawned, .inr ⟨hphase, hwake⟩⟩
      refine hnext.move hnext.bounded.cursor nofun fun f hf => ?_
      unfold ahead
      rw [hsame, hphase]
      exact hf

theorem Base.initial (engine : String) : (initial engine).Base := by
  have hjobs : ∀ r j, (State.initial engine).jobs r ≠ some j := fun _ j => (Option.some_ne_none j).symm
  constructor
  · refine ⟨le_rfl, List.forall_mem_nil _, nofun, fun r j hj => absurd hj (hjobs r j),
      nofun, ?_⟩
    rintro r ⟨prompt, hprompt⟩
    cases hprompt
  · exact ⟨List.forall_mem_nil _, List.nodup_nil, List.forall_mem_nil _, List.Pairwise.nil⟩
  · exact ⟨fun r j hj => absurd hj (hjobs r j), fun r j hj => absurd hj (hjobs r j),
      fun r _ hj => absurd hj (hjobs r _), fun r _ _ _ _ hj => absurd hj (hjobs r _), nofun, nofun⟩
  · exact ⟨nofun, nofun⟩

theorem Base.step {channel : String} {parse : String → Option (Envelope Action)} {s t : State}
    {a : Label Action} (h : s.Base) (hfresh : Fresh channel s a)
    (hstep : step channel parse s a = some t) : t.Base := by
  cases a with
  | input text env =>
      obtain rfl := Option.some.inj hstep
      exact h.handleInput fun hturn hbusy hsettings hspawned =>
        hfresh ⟨hbusy, hturn, hsettings, hspawned⟩
  | output env handling =>
      obtain rfl := Option.some.inj hstep
      exact h.output hfresh
  | exits run result => exact h.exits hstep
  | supervise run => exact h.supervise hstep
  | panel engine =>
      obtain rfl := Option.some.inj hstep
      exact h.engine engine
  | workerEnded row =>
      unfold State.step workerEnded at hstep
      dsimp only at hstep
      split at hstep
      · obtain rfl := Option.some.inj hstep
        have hnote : Frame s (s.note (.queued row.eventId)) := Frame.note s nofun
        exact h.frame ⟨hnote.log, hnote.busy, hnote.jobs, hnote.runs, hnote.cursor, hnote.phase,
          hnote.launched, hnote.session⟩ (.inl rfl)
      · cases hstep
  | restart now =>
      obtain rfl := Option.some.inj hstep
      exact h.restart now

theorem base_of_reach {channel : String} {parse : String → Option (Envelope Action)} {s : State}
    (h : (system channel parse).Reach (Fresh channel) s) : s.Base := by
  refine h.invariant ?_ fun s a t hbase hfresh hstep => hbase.step hfresh hstep
  rintro s ⟨engine, rfl⟩
  exact Base.initial engine

/-- A process of the run is live and has not been told to stop. -/
def Live (s : State) (r : Run) : Prop := ∃ task, s.jobs r = some ⟨task, .running⟩

/-- **One turn at a time.** If no turn is started on a run that has ended, at most one process
is live, and its run is the session's and busy. -/
theorem one_live {channel : String} {parse : String → Option (Envelope Action)} {s : State}
    (h : (system channel parse).Reach (Fresh channel) s) :
    (∀ r r', s.Live r → s.Live r' → r = r') ∧ ∀ r, s.Live r → s.namedRun = some r ∧ r ∈ s.busy := by
  have hbase := base_of_reach h
  constructor
  · rintro r r' ⟨task, hj⟩ ⟨task', hj'⟩
    exact hbase.active_unique hj trivial hj' trivial
  · rintro r ⟨task, hj⟩
    obtain ⟨hbusy, -, x, hx, hrun, -⟩ := hbase.threaded.active r _ hj trivial
    exact ⟨(namedRun_eq hx).trans hrun, hbusy⟩

/-- A turn that is taken, and whether its process gets its thread. -/
def starting (spawned : Bool) : Env := ⟨.epoch, .accepted, none, spawned, "no thread"⟩

/-- Nothing is to be kept, done or sent. -/
def idleHandling : Handling Unit := ⟨.epoch, fun _ => none, fun _ => .error "", true⟩

/-- The system of an assistant that does nothing. -/
def idleSystem : System State (Label Unit) := system "telegram.7" fun _ => none

theorem one_live_started : ∃ s, idleSystem.Reach (Fresh "telegram.7") s ∧ s.Live 0 ∧
    s.namedRun = some 0 ∧ 0 ∈ s.busy := by
  have hstart : idleSystem.Reach (Fresh "telegram.7") (initial "claude") := .start ⟨_, rfl⟩
  have hturn := hstart.next (a := .input "hello" (starting true)) (fun _ => nofun) rfl
  have hlive : (handleInput "hello" (starting true) (initial "claude")).Live 0 := ⟨0, rfl⟩
  exact ⟨_, hturn, hlive, (one_live hturn).2 0 hlive⟩

set_option maxRecDepth 4096 in
/-- A turn is started again on the run of a start that failed; when the failure is handled, the
session lets go of the live run, and the next message starts a second process. -/
theorem two_live : ∃ s, idleSystem.Reach Anyway s ∧ s.Live 0 ∧ s.Live 1 := by
  have hrun : ∃ s, idleSystem.run (initial "claude")
        ([.output (starting true) idleHandling, .input "hello" (starting false),
            .input "hello again" (starting true)] ++
          List.replicate 9 (.output (starting true) idleHandling) ++
          [.input "are you there" (starting true)]) = some s ∧ s.Live 0 ∧ s.Live 1 :=
    ⟨_, rfl, ⟨_, rfl⟩, ⟨_, rfl⟩⟩
  obtain ⟨s, hs, hzero, hone⟩ := hrun
  exact ⟨s, .of_run (.start ⟨_, rfl⟩) hs, hzero, hone⟩

end State

end Stackhour.Claire
