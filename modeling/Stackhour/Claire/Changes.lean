import Stackhour.Claire.Running

/-!
# What changes

Each step of the system in terms of what is pending: the run that the session names, the
wake and the results that it waits with, the replies that are still to be handled, and
the record. What later proofs say of whole runs is a case analysis on these changes.
-/

namespace Stackhour.Claire

open Domain TransitionSystem

variable {Action : Type*}

/-- What a session waits for; no session waits for nothing. -/
structure View where
  run : Option Run
  wake : Option EventId
  results : Option FollowUp
  progress : Bool

def View.bare : View := ⟨none, none, none, false⟩

def Session.view (x : Session) : View :=
  ⟨x.run, x.pendingWake, x.pendingFollowUp, x.followUpInProgress⟩

/-- The loop neither has its cursor to set nor an event to handle. -/
def Phase.Plain : Phase → Prop
  | .boot | .handle _ _ => False
  | _ => True

namespace State

def view (s : State) : View := (s.session.map Session.view).getD .bare

theorem view_eq {s : State} {x : Session} (hx : s.session = some x) : s.view = x.view := by
  unfold view
  rw [hx]
  rfl

theorem view_none {s : State} (hx : s.session = none) : s.view = .bare := by
  unfold view
  rw [hx]
  rfl

theorem view_run (s : State) : s.view.run = s.namedRun := by
  unfold view namedRun
  cases s.session <;> rfl

theorem view_turnSession (s : State) : s.view = s.turnSession.view := by
  unfold view turnSession
  cases s.session <;> rfl

/-! ## Replies that are still to be handled -/

/-- The reply of the run is still to be written, or still to be handled. -/
def Unhandled (s : State) (r : Run) : Prop := r ∉ replies s.log ∨ r ∈ replies s.ahead

theorem ahead_plain {s : State} (h : s.phase.Plain) : s.ahead = s.log.drop s.cursor := by
  unfold ahead
  cases hphase : s.phase <;> rw [hphase] at h <;> first | rfl | cases h

/-- Events were written, and the loop has still to handle them beside those it had. -/
structure Writing (s t : State) (events : List Event) : Prop where
  log : t.log = s.log ++ events
  old : ∀ e ∈ t.ahead, e ∈ s.ahead ∨ e ∈ events
  new : s.phase ≠ .boot → ∀ e, e ∈ s.ahead ∨ e ∈ events → e ∈ t.ahead
  boot : s.phase ≠ .boot → t.phase ≠ .boot

theorem Writing.of_same {s t : State} {events : List Event} (hcursor : s.cursor ≤ s.log.length)
    (hlog : t.log = s.log ++ events) (hsame : t.cursor = s.cursor) (hphase : t.phase = s.phase) :
    Writing s t events := by
  refine ⟨hlog, ahead_append hcursor hlog hsame hphase, fun hboot e he => ?_, hphase ▸ id⟩
  unfold ahead at he ⊢
  rw [hphase, hlog, hsame, List.drop_append_of_le_length hcursor]
  cases hp : s.phase with
  | boot => exact absurd hp hboot
  | handle upto e' =>
      rw [hp] at he
      rcases he with he | he
      · rcases List.mem_cons.mp he with rfl | he
        · exact List.mem_cons_self
        · exact List.mem_cons_of_mem _ (List.mem_append_left _ he)
      · exact List.mem_cons_of_mem _ (List.mem_append_right _ he)
  | read | events upto | reconcile | followUp | wake =>
      rw [hp] at he
      exact List.mem_append.mpr he

/-- What a step keeps unless it handles a reply or is a restart: the replies to handle, and that
results do not wait where a wake is looked for. -/
structure Passes (s t : State) : Prop where
  unhandled : ∀ r, t.Unhandled r → s.Unhandled r
  still : s.phase ≠ .boot → ∀ r, s.Unhandled r → t.Unhandled r
  boot : s.phase ≠ .boot → t.phase ≠ .boot
  wake : t.phase = .wake → s.phase = .wake ∨ t.busy ≠ [] ∨ t.view.results = none

theorem Writing.passes {s t : State} {events : List Event} (h : Writing s t events)
    (hnew : ∀ e ∈ events, e.kind = .messageAssistantCompleted → ∀ r, e.run = some r →
      r ∉ replies s.log)
    (hwake : t.phase = .wake → s.phase = .wake ∨ t.busy ≠ [] ∨ t.view.results = none) :
    Passes s t := by
  refine ⟨fun r hr => ?_, fun hboot r hr => ?_, h.boot, hwake⟩
  · rcases hr with hr | hr
    · rw [h.log, replies_append] at hr
      exact .inl fun hold => hr (List.mem_append_left _ hold)
    · obtain ⟨e, he, hkind, hrun⟩ := mem_replies.mp hr
      rcases h.old e he with he | he
      · exact .inr (mem_replies.mpr ⟨e, he, hkind, hrun⟩)
      · exact .inl (hnew e he hkind r hrun)
  · by_cases hwritten : r ∈ replies t.log
    · rw [h.log, replies_append] at hwritten
      right
      rcases List.mem_append.mp hwritten with hold | hwritten
      · rcases hr with hr | hr
        · exact absurd hold hr
        · obtain ⟨e, he, hkind, hrun⟩ := mem_replies.mp hr
          exact mem_replies.mpr ⟨e, h.new hboot e (.inl he), hkind, hrun⟩
      · obtain ⟨e, he, hkind, hrun⟩ := mem_replies.mp hwritten
        exact mem_replies.mpr ⟨e, h.new hboot e (.inr he), hkind, hrun⟩
    · exact .inl hwritten

theorem not_boot_of_plain {phase : Phase} (h : phase.Plain) : phase ≠ .boot := by
  rintro rfl
  cases h

theorem unhandled_plain {t : State} (hplain : t.phase.Plain) {phase : Phase}
    (hphase : phase.Plain) (r : Run) :
    ({ t with phase := phase } : State).Unhandled r ↔ t.Unhandled r := by
  have hahead : ({ t with phase := phase } : State).ahead = t.ahead := by
    rw [ahead_plain hplain]
    exact ahead_plain (s := { t with phase := phase }) hphase
  unfold Unhandled
  rw [hahead]

/-- The loop goes from one of its steps to the next. -/
theorem Passes.plain {s t : State} (h : Passes s t) (hplain : t.phase.Plain) {phase : Phase}
    (hphase : phase.Plain) (hwake : phase = .wake → t.busy ≠ [] ∨ t.view.results = none) :
    Passes s { t with phase := phase } :=
  ⟨fun r hr => h.unhandled r ((unhandled_plain hplain hphase r).mp hr),
    fun hboot r hr => (unhandled_plain hplain hphase r).mpr (h.still hboot r hr),
    fun _ => not_boot_of_plain hphase, fun hsame => .inr (hwake hsame)⟩

/-! ## The changes -/

/-- A process was started for a turn, on a run that had none. -/
structure Begins (s t : State) (r : Run) (prompt : Prompt) : Prop where
  passes : Passes s t
  record : t.record = s.record ++ [.turn r prompt]
  wakes : t.wakes = s.wakes
  busy : t.busy = s.busy.insert r
  free : ¬s.Launched r
  unhandled : t.Unhandled r

/-- The reply of the session's run was handled. -/
structure Handles (s t : State) (a : Label Action) (e : Event) (x : Session) (r : Run)
    (h : Handling Action) : Prop where
  label : ∃ env, a = .output env h
  phase : ∃ upto, s.phase = .handle upto e
  kind : e.kind = .messageAssistantCompleted
  session : s.session = some x
  run : x.run = some r
  event : e.run = some r
  busy : r ∈ s.busy
  unhandled : s.Unhandled r
  handled : ¬t.Unhandled r
  others : ∀ r', t.Unhandled r' → s.Unhandled r'

/-- What a step can do to what is pending. -/
inductive Change (channel : String) (parse : String → Option (Envelope Action)) (s : State)
    (a : Label Action) (t : State) : Prop
  | still (hpass : Passes s t) (hview : t.view = s.view) (hbusy : t.busy = s.busy)
      (hrecord : t.record = s.record) (hwakes : t.wakes = s.wakes)
  | queued (row : WakeRow) (hpass : Passes s t) (hview : t.view = s.view) (hbusy : t.busy = s.busy)
      (hopen : row.processedAt = none) (hnew : row.eventId ∉ s.wakes.map WakeRow.eventId)
      (hrecord : t.record = s.record ++ [.queued row.eventId]) (hwakes : t.wakes = s.wakes ++ [row])
  | letGo (cause : Cause)
      (hcause : cause = .stopped ∨ cause = .conversationReset ∨ cause = .reconfigured)
      (hpass : Passes s t) (hview : t.view = .bare)
      (hrecord : t.record = s.record ++ drops cause s.view.results)
      (hwakes : Deferral s.wakes t.wakes)
  | unstarted (hidle : s.Idle) (hidle' : t.Idle) (hpass : Passes s t)
      (hwake : t.view.wake = s.view.wake ∨ t.view.wake = none)
      (hresults : t.view.results = s.view.results) (hprogress : t.view.progress = s.view.progress)
      (hbusy : t.busy = s.busy) (hrecord : t.record = s.record)
      (hwakes : Deferral s.wakes t.wakes)
  | asked (text prompt : String) (env : Env) (r : Run) (ha : a = .input text env)
      (hstarts : Starts channel s a) (hidle : s.Idle) (hbegins : Begins s t r (.user prompt))
      (hview : t.view = { s.view with run := some r })
  | followed (b : FollowUp) (r : Run) (hbusy : s.busy = []) (hphase : s.phase = .followUp)
      (hb : s.view.results = some b) (hbegins : Begins s t r (.followUp b))
      (hview : t.view = ⟨some r, s.view.wake, none, true⟩)
  | woken (id : EventId) (r : Run) (hbusy : s.busy = []) (hphase : s.phase = .wake)
      (hbegins : Begins s t r (.wake id))
      (hview : t.view = { s.view with run := some r, wake := some id })
  | stalled (b : FollowUp) (hbusy : s.busy = []) (hbusy' : t.busy = [])
      (hb : s.view.results = some b) (hpass : Passes s t) (hwake : t.view.wake = none) (hresults : t.view.results = none)
      (hprogress : t.view.progress = false)
      (hrecord : t.record = s.record ++ [.dropped b .startFailed])
      (hwakes : Deferral s.wakes t.wakes)
  | lost (r : Run) (hrun : s.view.run = some r) (hr : r ∈ s.busy) (hpass : Passes s t)
      (hview : t.view = { s.view with wake := none }) (hbusy : t.busy = s.busy)
      (hrecord : t.record = s.record) (hwakes : Deferral s.wakes t.wakes)
  | terminal (e : Event) (upto : ℕ) (u : State) (hphase : s.phase = .handle upto e)
      (hterminal : isTerminal e.kind = true) (hover : Over e s u)
      (ht : t = { u with phase := .events upto }) (hpass : Passes s t)
      (hhandled : e.kind = .runCompleted → ∀ r, e.run = some r → ¬s.Unhandled r)
  | replied (e : Event) (x : Session) (r : Run) (h : Handling Action) (u : State)
      (hhandles : Handles s t a e x r h) (hreplied : Replied parse h e x s u)
      (ht : ∃ upto, t = { u with phase := .events upto })
  | restarted (now : DateTime) (ha : a = .restart now) (hview : t.view =
        ⟨none, none, s.view.results, s.view.progress⟩) (hbusy : t.busy = [])
      (hphase : t.phase = .boot) (hunhandled : ∀ r, t.Unhandled r → s.Unhandled r)
      (hrecord : t.record = s.record) (hwakes : Deferral s.wakes t.wakes)

theorem Aside.writing {s t : State} (h : Aside s t) (hcursor : s.cursor ≤ s.log.length) :
    ∃ events, Writing s t events ∧ ∀ e ∈ events, e.kind ≠ .messageAssistantCompleted := by
  obtain ⟨events, hlog, hevents⟩ := h.log
  exact ⟨events, .of_same hcursor hlog h.cursor h.phase, fun e he => (hevents e he).1.1⟩

theorem Aside.passes {s t : State} (h : Aside s t) (hcursor : s.cursor ≤ s.log.length) :
    Passes s t := by
  obtain ⟨events, hwriting, hevents⟩ := h.writing hcursor
  exact hwriting.passes (fun e he hkind => absurd hkind (hevents e he)) fun hwake =>
    .inl (h.phase ▸ hwake)

theorem Submitted.view {s t : State} {x : Session} {r : Run} (h : Submitted s t x r) :
    x.view = { s.view with run := some r } := by
  have hrest := h.rest
  simp only [Prod.mk.injEq] at hrest
  obtain ⟨-, hwake, hresults, hprogress⟩ := hrest
  rw [view_turnSession]
  unfold Session.view
  rw [h.run, hwake, hresults, hprogress]

/-- Taking a turn while idle frees no other run. -/
theorem Unstarted.busy_eq {s t u : State} {x : Session} {r : Run} (hbase : s.Base)
    (hidle : s.Idle) (ht : Submitted s t x r) (hu : Unstarted t u r) : u.busy = s.busy := by
  rw [hu.busy, ht.busy, List.filter_eq_self]
  intro r' hr'
  have hne : r' ≠ r := by
    rintro rfl
    have hnamed := (namedRun_eq ht.session).trans ht.run
    exact ht.aside.idle hbase hidle r' hnamed (ht.busy ▸ hr')
  simpa using hne

theorem Submitted.begins {s t : State} {x : Session} {r : Run} (ht : Submitted s t x r)
    (hbase : s.Base) (hidle : s.Idle) (hrenewed : s.Renewed) (prompt : Prompt) :
    Begins s (begun prompt x.task r t) r prompt := by
  obtain ⟨-, hfree, hreply⟩ := ht.free hbase hidle hrenewed
  have hpass := ht.aside.passes hbase.bounded.cursor
  refine ⟨⟨hpass.unhandled, hpass.still, hpass.boot, fun hwake => .inl ?_⟩, ?_, ht.wakes, ?_, ?_,
    .inl hreply⟩
  · exact ht.phase.symm.trans hwake
  · show t.record ++ _ = _
    rw [ht.record]
  · show t.busy.insert r = _
    rw [ht.busy]
  · exact fun hlaunched => hfree ((launched_of_record ht.record r).mpr hlaunched)

theorem Begins.plain {s t : State} {r : Run} {prompt : Prompt} (h : Begins s t r prompt)
    (hplain : t.phase.Plain) {phase : Phase} (hphase : phase.Plain) :
    Begins s { t with phase := phase } r prompt := by
  refine ⟨h.passes.plain hplain hphase fun _ => .inl fun hnone => ?_, h.record, h.wakes, h.busy,
    h.free, ?_⟩
  · have hmem : r ∈ t.busy := by
      rw [h.busy]
      exact mem_insert.mpr (.inl rfl)
    rw [hnone] at hmem
    cases hmem
  · exact (unhandled_plain hplain hphase r).mpr h.unhandled

theorem Begins.of_save {s t : State} {x : Session} {r : Run} {prompt : Prompt}
    (h : Begins (s.save x) t r prompt) : Begins s t r prompt :=
  ⟨⟨h.passes.unhandled, h.passes.still, h.passes.boot, h.passes.wake⟩, h.record, h.wakes, h.busy,
    h.free, h.unhandled⟩

theorem still_of_same {channel : String} {parse : String → Option (Envelope Action)} {s : State}
    {a : Label Action} : Change channel parse s a s :=
  .still ⟨fun _ => id, fun _ _ => id, id, .inl⟩ rfl rfl rfl rfl

/-- The session lets go of what is pending. -/
theorem letGo_of_bare {channel : String} {parse : String → Option (Envelope Action)} {s t : State}
    {a : Label Action} {events : List Event} {x : Session} {cause : Cause}
    (hcause : cause = .stopped ∨ cause = .conversationReset ∨ cause = .reconfigured)
    (hcursor : s.cursor ≤ s.log.length) (hlog : t.log = s.log ++ events)
    (hevents : ∀ e ∈ events, e.kind ≠ .messageAssistantCompleted) (hsame : t.cursor = s.cursor)
    (hphase : t.phase = s.phase) (hx : s.session = some x) (hview : t.view = .bare)
    (hrecord : t.record = s.record ++ drops cause x.pendingFollowUp)
    (hwakes : Deferral s.wakes t.wakes) : Change channel parse s a t := by
  refine .letGo cause hcause ((Writing.of_same hcursor hlog hsame hphase).passes
    (fun e he hkind => absurd hkind (hevents e he)) fun hwake => .inl (hphase ▸ hwake)) hview ?_
    hwakes
  rw [hrecord, view_eq hx]
  rfl

theorem clearCurrentRun_change {channel : String} {parse : String → Option (Envelope Action)}
    {s : State} {a : Label Action} (hcursor : s.cursor ≤ s.log.length) (now : DateTime)
    (engine engine' : String) : Change channel parse s a
      (clearCurrentRun now engine { s with engine := engine' }) := by
  rcases clearCurrentRun_cases now engine { s with engine := engine' } with
    hsame | ⟨x, wakes, hx, hwakes, hclear⟩
  · rw [hsame]
    exact .still ⟨fun _ => id, fun _ _ => id, id, .inl⟩ rfl rfl rfl rfl
  · rw [hclear]
    exact letGo_of_bare (.inr (.inr rfl)) hcursor (List.append_nil _).symm nofun rfl rfl hx rfl rfl
      hwakes

/-- The user's messages. -/
theorem Base.change_input {s : State} (hbase : s.Base) {channel : String}
    {parse : String → Option (Envelope Action)} {text : String} {env : Env}
    (hfresh : Fresh channel s (.input text env : Label Action)) :
    Change channel parse s (.input text env) (State.handleInput text env s) := by
  have hcursor := hbase.bounded.cursor
  unfold State.handleInput
  cases hread : readInput text with
  | quiet => exact still_of_same
  | stop =>
      dsimp only
      rcases stop_cases env.now s with hsame | ⟨x, run, task, wakes, hx, -, -, hwakes, hstop⟩
      · rw [hsame]
        exact still_of_same
      · rw [hstop]
        refine letGo_of_bare (.inl rfl) hcursor rfl (fun e he => ?_) rfl rfl hx rfl rfl hwakes
        rw [List.mem_singleton.mp he]
        simp
  | engine name =>
      dsimp only
      split
      · exact still_of_same
      · exact clearCurrentRun_change hcursor env.now name name
  | model =>
      dsimp only
      split
      · exact still_of_same
      · exact clearCurrentRun_change hcursor env.now s.engine s.engine
  | reset =>
      dsimp only
      split
      · exact still_of_same
      · rcases reset_cases env.now s with hsame | ⟨x, wakes, hx, hwakes, hreset⟩
        · rw [hsame]
          exact still_of_same
        · rw [hreset]
          exact letGo_of_bare (.inr (.inl rfl)) hcursor (List.append_nil _).symm nofun rfl rfl hx
            rfl rfl hwakes
  | turn prompt =>
      dsimp only
      split
      · exact still_of_same
      · next hbusy =>
          have hfree := Bool.eq_false_iff.mpr hbusy
          have hidle : s.Idle := idle_of_isBusy hfree
          rcases startTurn_cases env (.user prompt) s with
            ⟨t, hstart, ht⟩ | ⟨t, x, r, ht, ⟨hstart, -, hsettings, hspawned⟩ | ⟨u, error, hstart, hu⟩⟩
          · rw [hstart]
            have hview : t.view = s.view := by
              unfold State.view
              rw [ht.session]
            exact .unstarted hidle (ht.aside.idle hbase hidle) (ht.aside.passes hcursor)
              (.inl (by rw [hview])) (by rw [hview]) (by rw [hview]) ht.busy ht.record (.inl ht.wakes)
          · rw [hstart]
            have hstarts : Starts channel s (.input text env : Label Action) :=
              ⟨hfree, ⟨prompt, hread⟩, hsettings, hspawned⟩
            exact .asked text prompt env r rfl hstarts hidle
              (ht.begins hbase hidle (hfresh hstarts) _) ((view_eq ht.session).trans ht.view)
          · rw [hstart]
            have hnamed := (namedRun_eq ht.session).trans ht.run
            have hview : u.view = { s.view with run := some r } :=
              (view_eq (hu.session.trans ht.session)).trans ht.view
            have haside := ht.aside.trans (hu.aside hnamed)
            exact .unstarted hidle (haside.idle hbase hidle) (haside.passes hcursor)
              (.inl (by rw [hview])) (by rw [hview]) (by rw [hview])
              (Unstarted.busy_eq hbase hidle ht hu) (hu.record.trans ht.record)
              (.inl (hu.wakes.trans ht.wakes))

/-! ## The changes of the output loop -/

theorem Passes.refl (s : State) : Passes s s := ⟨fun _ => id, fun _ _ => id, id, .inl⟩

/-- The loop takes or skips events, and the same replies are still to be handled. -/
theorem Passes.of_ahead {s t : State} (hlog : t.log = s.log)
    (hahead : ∀ r, r ∈ replies t.ahead ↔ r ∈ replies s.ahead) (hboot : t.phase ≠ .boot)
    (hwake : t.phase ≠ .wake) : Passes s t := by
  have hsame : ∀ r, t.Unhandled r ↔ s.Unhandled r := by
    intro r
    unfold Unhandled
    rw [hlog, hahead]
  exact ⟨fun r => (hsame r).mp, fun _ r => (hsame r).mpr, fun _ => hboot, fun h => absurd h hwake⟩

theorem replies_cons {e : Event} (h : e.kind ≠ .messageAssistantCompleted) (events : List Event) :
    replies (e :: events) = replies events := by
  unfold replies Event.replyRun
  rw [List.filterMap_cons, if_neg h]

/-- The loop goes on after an event that is no reply. -/
theorem Passes.of_handled {s t : State} {upto : ℕ} {e : Event} (hphase : s.phase = .handle upto e)
    (hkind : e.kind ≠ .messageAssistantCompleted) (hlog : t.log = s.log)
    (hcursor : t.cursor = s.cursor) (hnext : t.phase = .events upto) : Passes s t := by
  refine .of_ahead hlog (fun r => ?_) (by rw [hnext]; nofun) (by rw [hnext]; nofun)
  have hplain : t.phase.Plain := by
    rw [hnext]
    trivial
  rw [ahead_plain hplain, ahead_handle hphase, replies_cons hkind, hlog, hcursor]

/-- A run that has completed has had its reply handled. -/
theorem Base.handled_of_completed {s : State} (hbase : s.Base) {upto : ℕ} {e : Event}
    (hphase : s.phase = .handle upto e) (hkind : e.kind = .runCompleted) {r : Run}
    (hr : e.run = some r) : ¬s.Unhandled r := by
  have hmem := hbase.taken_mem hphase
  rintro (hnone | hahead)
  · exact hnone (hbase.ordered.completed e hmem hkind r hr)
  · obtain ⟨f, hf, hreply, hrun⟩ := mem_replies.mp hahead
    exact hbase.replied_before hphase (by rw [hkind]; rfl) hf hreply (hr.trans hrun.symm)

/-- A reply is handled once. -/
theorem Base.handled_of_reply {s t : State} (hbase : s.Base) {upto : ℕ} {e : Event}
    (hphase : s.phase = .handle upto e) (hkind : e.kind = .messageAssistantCompleted) {r : Run}
    (hr : e.run = some r) (hlog : t.log = s.log) (hcursor : t.cursor = s.cursor)
    (hplain : t.phase.Plain) : ¬t.Unhandled r := by
  have hmem := hbase.taken_mem hphase
  rintro (hnone | hahead)
  · rw [hlog] at hnone
    exact hnone (mem_replies.mpr ⟨e, hmem, hkind, hr⟩)
  · rw [ahead_plain hplain, hlog, hcursor] at hahead
    obtain ⟨before, hbefore⟩ := hbase.looped.taken upto e hphase
    have hnodup := hbase.ordered.nodup
    rw [← List.take_append_drop s.cursor s.log, replies_append] at hnodup
    have htaken : r ∈ replies (s.log.take s.cursor) := by
      rw [hbefore]
      exact mem_replies.mpr ⟨e, List.mem_append_right _ List.mem_cons_self, hkind, hr⟩
    exact List.disjoint_of_nodup_append hnodup htaken hahead

/-- The output loop looks at the next event. -/
theorem Base.change_events {s : State} (hbase : s.Base) {channel : String}
    {parse : String → Option (Envelope Action)} {env : Env} {h : Handling Action} {upto : ℕ}
    (hphase : s.phase = .events upto) :
    Change channel parse s (.output env h) (State.output channel parse env h s) := by
  have hplain : s.phase.Plain := by
    rw [hphase]
    trivial
  have hreconcile : Passes s { s with phase := .reconcile } :=
    (Passes.refl s).plain hplain trivial nofun
  unfold State.output
  rw [hphase]
  dsimp only
  split
  · exact .still hreconcile rfl rfl rfl rfl
  · cases hnext : s.log[s.cursor]? with
    | none => exact .still hreconcile rfl rfl rfl rfl
    | some e =>
        obtain ⟨hlt, he⟩ := List.getElem?_eq_some_iff.mp hnext
        have hahead : s.ahead = e :: s.log.drop (s.cursor + 1) := by
          rw [ahead_plain hplain, List.drop_eq_getElem_cons hlt, he]
        dsimp only
        split
        · exact .still (.of_ahead rfl (fun r => by rw [hahead]; rfl) nofun nofun) rfl rfl rfl rfl
        · next hother =>
            -- a reply that is awaited is the assistant's
            have hkind : e.kind ≠ .messageAssistantCompleted := by
              intro hkind
              obtain ⟨x, r, hr, hx, hrun, htask, -⟩ :=
                hbase.looped.awaited e (hahead ▸ List.mem_cons_self) hkind
              exact hother (isClaire_of_awaited hx htask (hr.trans hrun.symm))
            refine .still (.of_ahead rfl (fun r => ?_) nofun nofun) rfl rfl rfl rfl
            rw [hahead, replies_cons hkind]
            rfl

/-- The output loop handles the event that it has taken. -/
theorem Base.change_handle {s : State} (hbase : s.Base) {channel : String}
    {parse : String → Option (Envelope Action)} {env : Env} {h : Handling Action} {upto : ℕ}
    {e : Event} (hphase : s.phase = .handle upto e) :
    Change channel parse s (.output env h) (State.output channel parse env h s) := by
  have houtput : State.output channel parse env h s =
      { State.handleEvent parse h e s with phase := .events upto } := by
    unfold State.output
    rw [hphase]
  rw [houtput]
  rcases hbase.handleEvent_cases hphase parse h with
    ⟨hterminal, hover⟩ | ⟨hkind, x, r, hx, hrun, hr, hbusy, hreplied⟩ | ⟨⟨-, hkind⟩, hsame⟩
  · have hkind : e.kind ≠ .messageAssistantCompleted := by
      intro hkind
      rw [hkind] at hterminal
      cases hterminal
    exact .terminal e upto _ hphase hterminal hover rfl
      (.of_handled hphase hkind hover.ended.log hover.ended.cursor rfl)
      fun hcompleted r hr => hbase.handled_of_completed hphase hcompleted hr
  · have hframe := hreplied.frame hx
    have hahead : e ∈ s.ahead := by
      rw [ahead_handle hphase]
      exact List.mem_cons_self
    refine .replied e x r h _ ⟨⟨env, rfl⟩, ⟨upto, hphase⟩, hkind, hx, hrun, hr, hbusy,
      .inr (mem_replies.mpr ⟨e, hahead, hkind, hr⟩),
      hbase.handled_of_reply hphase hkind hr hframe.log hframe.cursor trivial, ?_⟩ hreplied
      ⟨upto, rfl⟩
    rintro r' (hnone | hin)
    · left
      rwa [← hframe.log]
    · right
      have hplain : ({ State.handleEvent parse h e s with phase := .events upto } : State).phase.Plain :=
        trivial
      rw [ahead_plain hplain] at hin
      rw [ahead_handle hphase]
      obtain ⟨f, hf, hreply, hrun'⟩ := mem_replies.mp hin
      rw [hframe.log, hframe.cursor] at hf
      exact mem_replies.mpr ⟨f, List.mem_cons_of_mem _ hf, hreply, hrun'⟩
  · rw [hsame]
    exact .still (.of_handled hphase hkind rfl rfl rfl) rfl rfl rfl rfl

/-- The output loop looks for a lost process. -/
theorem Base.change_reconcile {s : State} (hbase : s.Base) {channel : String}
    {parse : String → Option (Envelope Action)} {env : Env} {h : Handling Action}
    (hphase : s.phase = .reconcile) :
    Change channel parse s (.output env h) (State.output channel parse env h s) := by
  have hplain : s.phase.Plain := by
    rw [hphase]
    trivial
  have houtput : State.output channel parse env h s =
      { State.reconcile env.now s with phase := .followUp } := by
    unfold State.output
    rw [hphase]
  rw [houtput]
  rcases reconcile_cases env.now s with hsame | ⟨x, run, wakes, hx, hrun, hr, -, hwakes, hlost⟩
  · rw [hsame]
    exact .still ((Passes.refl s).plain hplain trivial nofun) rfl rfl rfl rfl
  · have hwriting : Writing s (State.reconcile env.now s) _ :=
      .of_same hbase.bounded.cursor (by rw [hlost]) (by rw [hlost]) (by rw [hlost])
    have hpass := hwriting.passes
      (fun e he hkind => by rw [List.mem_singleton.mp he] at hkind; cases hkind)
      fun hwake => .inl (by rw [hlost] at hwake; exact hwake)
    have hpass := hpass.plain (by rw [hlost]; exact hplain) (show Phase.followUp.Plain from trivial)
      nofun
    rw [hlost] at hpass ⊢
    refine .lost run ?_ hr hpass ?_ rfl rfl hwakes
    · rw [view_eq hx]
      exact hrun
    · rw [view_eq hx]
      rfl

/-- The output loop looks for pending results. -/
theorem Base.change_followUp {s : State} (hbase : s.Base) {channel : String}
    {parse : String → Option (Envelope Action)} {env : Env} {h : Handling Action}
    (hfresh : Fresh channel s (.output env h)) (hphase : s.phase = .followUp) :
    Change channel parse s (.output env h) (State.output channel parse env h s) := by
  have hplain : s.phase.Plain := by
    rw [hphase]
    trivial
  have houtput : State.output channel parse env h s =
      { State.startFollowUp env s with phase := .wake } := by
    unfold State.output
    rw [hphase]
  rw [houtput]
  rcases startFollowUp_cases env s with
    ⟨hsame, hnone⟩ | ⟨x, b, hbusy, hx, hb, ⟨t, x', r, ht, hsettings, hspawned, hstart⟩ | hstalled⟩
  · rw [hsame]
    refine .still ((Passes.refl s).plain hplain trivial fun _ => ?_) rfl rfl rfl rfl
    by_cases hbusy : s.busy = []
    · right
      have hresults := hnone hbusy
      cases hx : s.session with
      | none => rw [view_none hx]; rfl
      | some x =>
          rw [hx] at hresults
          rw [view_eq hx]
          exact hresults
    · exact .inl hbusy
  · let y : Session := { x with pendingFollowUp := none, followUpInProgress := true }
    have hidle : s.Idle := idle_of_busy hbusy
    have hresults : s.view.results = some b := by
      rw [view_eq hx]
      exact hb
    have hpending : (s.session.bind Session.pendingFollowUp).isSome := by
      rw [hx]
      exact Option.isSome_iff_exists.mpr ⟨b, hb⟩
    have hnew : s.Renewed := hfresh ⟨hbusy, hsettings, hspawned, .inl ⟨hphase, hpending⟩⟩
    have hsave : (s.save y).Base := hbase.save hidle hx rfl rfl
    have hbegins := (ht.begins hsave (idle_of_busy hbusy) (hnew.save hx rfl rfl)
      (.followUp b)).of_save
    rw [hstart]
    refine .followed b r hbusy hphase hresults (hbegins.plain ?_ trivial) ?_
    · exact ht.phase ▸ hplain
    · rw [view_eq hx]
      exact (view_eq ht.session).trans ht.view
  · have hresults : s.view.results = some b := by
      rw [view_eq hx]
      exact hb
    obtain ⟨z, hz, hwake, hnone, hprogress⟩ := hstalled.session
    have hview := view_eq hz
    have hpass := hstalled.aside.passes hbase.bounded.cursor
    have hbusy' : (State.startFollowUp env s).busy = [] := by
      rw [← List.subset_nil, ← hbusy]
      exact hstalled.aside.busy
    refine .stalled b hbusy hbusy' hresults (hpass.plain ?_ trivial fun _ => .inr ?_) ?_ ?_ ?_
      hstalled.record hstalled.wakes
    · exact hstalled.aside.phase ▸ hplain
    · rw [hview]
      exact hnone
    · exact (congrArg View.wake hview).trans hwake
    · exact (congrArg View.results hview).trans hnone
    · exact (congrArg View.progress hview).trans hprogress

/-- The output loop looks for a wake. -/
theorem Base.change_wake {s : State} (hbase : s.Base) {channel : String}
    {parse : String → Option (Envelope Action)} {env : Env} {h : Handling Action}
    (hfresh : Fresh channel s (.output env h)) (hphase : s.phase = .wake) :
    Change channel parse s (.output env h) (State.output channel parse env h s) := by
  have hplain : s.phase.Plain := by
    rw [hphase]
    trivial
  have houtput : State.output channel parse env h s =
      { State.startWake channel env s with phase := .read } := by
    unfold State.output
    rw [hphase]
  rw [houtput]
  rcases startWake_cases channel env s with
    hsame | ⟨id, hbusy, hid, ⟨t, x, r, ht, hsettings, hspawned, hstart⟩ | hpassed⟩
  · rw [hsame]
    exact .still ((Passes.refl s).plain hplain trivial nofun) rfl rfl rfl rfl
  · have hidle : s.Idle := idle_of_busy hbusy
    have hnew : s.Renewed := hfresh ⟨hbusy, hsettings, hspawned,
      .inr ⟨hphase, Option.isSome_iff_exists.mpr ⟨id, hid⟩⟩⟩
    have hbegins := ht.begins hbase hidle hnew (Prompt.wake id)
    rw [hstart]
    have hsaved : Begins s (State.begun (Prompt.wake id) x.task r
        (t.save { x with pendingWake := some id })) r (Prompt.wake id) :=
      ⟨⟨hbegins.passes.unhandled, hbegins.passes.still, hbegins.passes.boot,
        fun hwake => .inl (ht.phase.symm.trans hwake)⟩, hbegins.record, hbegins.wakes,
        hbegins.busy, hbegins.free, hbegins.unhandled⟩
    refine .woken id r hbusy hphase (hsaved.plain ?_ trivial) ?_
    · exact ht.phase ▸ hplain
    · show { x.view with wake := some id } = _
      rw [ht.view]
  · have hidle : s.Idle := idle_of_busy hbusy
    have hpass := hpassed.aside.passes hbase.bounded.cursor
    have hbusy' : (State.startWake channel env s).busy = s.busy := by
      rw [hbusy, ← List.subset_nil, ← hbusy]
      exact hpassed.aside.busy
    have hpass := hpass.plain (hpassed.aside.phase ▸ hplain) (show Phase.read.Plain from trivial)
      nofun
    have hidle' := hpassed.aside.idle hbase hidle
    rcases hpassed.session with hsame | ⟨u, x, r, hu, hsame⟩
    · have hview : (State.startWake channel env s).view = s.view := by
        unfold State.view
        rw [hsame]
      exact .unstarted hidle hidle' hpass (.inl (congrArg View.wake hview)) (congrArg View.results hview)
        (congrArg View.progress hview) hbusy' hpassed.record hpassed.wakes
    · have hview : (State.startWake channel env s).view =
          { ({ s.view with run := some r } : View) with wake := none } := by
        rw [← hu.view]
        exact view_eq hsame
      have hresults : (State.startWake channel env s).view.results = s.view.results := by
        rw [hview]
      have hprogress : (State.startWake channel env s).view.progress = s.view.progress := by
        rw [hview]
      exact .unstarted hidle hidle' hpass (.inr (congrArg View.wake hview)) hresults hprogress hbusy'
        hpassed.record hpassed.wakes

/-- The output loop. -/
theorem Base.change_output {s : State} (hbase : s.Base) {channel : String}
    {parse : String → Option (Envelope Action)} {env : Env} {h : Handling Action}
    (hfresh : Fresh channel s (.output env h)) :
    Change channel parse s (.output env h) (State.output channel parse env h s) := by
  cases hphase : s.phase with
  | boot =>
      unfold State.output
      rw [hphase]
      refine .still ⟨fun r hr => ?_, fun hboot => absurd hphase hboot, fun _ => nofun, nofun⟩ rfl rfl
        rfl rfl
      rcases hr with hr | hr
      · exact .inl hr
      · unfold ahead at hr
        rw [List.drop_length] at hr
        cases hr
  | read =>
      unfold State.output
      rw [hphase]
      exact .still ((Passes.refl s).plain (by rw [hphase]; trivial) trivial nofun) rfl rfl rfl rfl
  | events upto => exact hbase.change_events hphase
  | handle upto e => exact hbase.change_handle hphase
  | reconcile => exact hbase.change_reconcile hphase
  | followUp => exact hbase.change_followUp hfresh hphase
  | wake => exact hbase.change_wake hfresh hphase

/-! ## The changes of the threads -/

/-- A process exits, and what its thread does with that. -/
theorem Base.change_exits {s t : State} (hbase : s.Base) {channel : String}
    {parse : String → Option (Envelope Action)} {run : Run} {result : ProcessEnd}
    (ht : s.exits run result = some t) : Change channel parse s (.exits run result) t := by
  have hpass : ∀ {u : State}, u.log = s.log → u.cursor = s.cursor → u.phase = s.phase →
      Passes s u := fun hlog hcursor hphase =>
    (Writing.of_same hbase.bounded.cursor (hlog.trans (List.append_nil _).symm) hcursor hphase).passes
      nofun fun hwake => .inl (hphase ▸ hwake)
  unfold State.exits at ht
  split at ht
  · obtain rfl := Option.some.inj ht
    exact .still (hpass rfl rfl rfl) rfl rfl rfl rfl
  · obtain rfl := Option.some.inj ht
    exact .still (hpass rfl rfl rfl) rfl rfl rfl rfl
  · cases ht

theorem Base.change_supervise {s t : State} (hbase : s.Base) {channel : String}
    {parse : String → Option (Envelope Action)} {run : Run} (ht : s.supervise run = some t) :
    Change channel parse s (.supervise run) t := by
  have hpass : ∀ {u : State} (events : List Event), u.log = s.log ++ events →
      (∀ e ∈ events, e.kind = .messageAssistantCompleted → ∀ r, e.run = some r →
        r ∉ replies s.log) → u.cursor = s.cursor → u.phase = s.phase → Passes s u :=
    fun events hlog hnew hcursor hphase =>
      (Writing.of_same hbase.bounded.cursor hlog hcursor hphase).passes hnew
        fun hwake => .inl (hphase ▸ hwake)
  have hquiet : ∀ {u : State}, u.log = s.log → u.cursor = s.cursor → u.phase = s.phase →
      Passes s u := fun hlog => hpass [] (hlog.trans (List.append_nil _).symm) nofun
  unfold State.supervise at ht
  split at ht
  · obtain rfl := Option.some.inj ht
    refine .still (hpass _ rfl (fun e he hkind => ?_) rfl rfl) rfl rfl rfl rfl
    rw [List.mem_singleton.mp he] at hkind
    cases hkind
  · split at ht
    · split at ht <;> obtain rfl := Option.some.inj ht <;>
        exact .still (hquiet rfl rfl rfl) rfl rfl rfl rfl
    · obtain rfl := Option.some.inj ht
      exact .still (hquiet rfl rfl rfl) rfl rfl rfl rfl
  · next task copy sessionId text hj =>
      obtain rfl := Option.some.inj ht
      refine .still (hquiet rfl rfl rfl) ?_ rfl rfl rfl
      rw [view_eq (hbase.threaded.holding run task copy sessionId text hj)]
      rfl
  · next task text hj =>
      obtain rfl := Option.some.inj ht
      refine .still (hpass _ rfl (fun e he _ r hr => ?_) rfl rfl) rfl rfl rfl rfl
      rw [List.mem_singleton.mp he] at hr
      obtain rfl := Option.some.inj hr
      exact hbase.threaded.early run _ hj trivial
  · obtain rfl := Option.some.inj ht
    refine .still (hpass _ rfl (fun e he hkind => ?_) rfl rfl) rfl rfl rfl rfl
    rw [List.mem_singleton.mp he] at hkind
    cases hkind
  · obtain rfl := Option.some.inj ht
    exact .still (hquiet rfl rfl rfl) rfl rfl rfl rfl
  · cases ht

/-- Every step is one of the changes. -/
theorem Base.change {s t : State} (hbase : s.Base) {channel : String}
    {parse : String → Option (Envelope Action)} {a : Label Action} (hfresh : Fresh channel s a)
    (hstep : State.step channel parse s a = some t) : Change channel parse s a t := by
  cases a with
  | input text env =>
      obtain rfl := Option.some.inj hstep
      exact hbase.change_input hfresh
  | output env h =>
      obtain rfl := Option.some.inj hstep
      exact hbase.change_output hfresh
  | exits run result => exact hbase.change_exits hstep
  | supervise run => exact hbase.change_supervise hstep
  | panel engine =>
      obtain rfl := Option.some.inj hstep
      exact .still ⟨fun _ => id, fun _ _ => id, id, .inl⟩ rfl rfl rfl rfl
  | workerEnded row =>
      unfold State.step workerEnded at hstep
      dsimp only at hstep
      split at hstep
      · next hnew =>
          obtain rfl := Option.some.inj hstep
          exact .queued row ⟨fun _ => id, fun _ _ => id, id, .inl⟩ rfl rfl hnew.1 hnew.2 rfl rfl
      · cases hstep
  | restart now =>
      obtain rfl := Option.some.inj hstep
      obtain ⟨events, wakes, hwakes, hevents, hrestart⟩ := restart_eq now s
      show Change channel parse s (.restart now) (State.restart now s)
      rw [hrestart]
      refine .restarted now rfl ?_ rfl rfl (fun r hr => ?_) rfl hwakes
      · unfold State.view
        dsimp only
        cases s.session <;> rfl
      · rcases hr with hr | hr
        · rw [replies_append] at hr
          exact .inl fun hold => hr (List.mem_append_left _ hold)
        · cases hr

/-! ## Turns -/

theorem Replied.view_run {parse : String → Option (Envelope Action)} {h : Handling Action}
    {e : Event} {x : Session} {s u : State} (h : Replied parse h e x s u)
    (hx : s.session = some x) : u.view.run = x.run := by
  rw [State.view_run, (h.frame hx).named, namedRun_eq hx]

/-- Why a step adds this to the record. -/
def Adds (parse : String → Option (Envelope Action)) (s t : State) (a : Label Action) :
    Happening → Prop
  | .queued id => ∃ row : WakeRow, row.eventId = id ∧ row.processedAt = none ∧
      t.wakes = s.wakes ++ [row]
  | .turn r prompt => Begins s t r prompt
  | .executed run results => ∃ e x r h, Handles s t a e x r h ∧ run = some r ∧
      x.followUpInProgress = false ∧
      (results ≠ [] → t.view.results = some ⟨run, followUpText results⟩)
  | .refused run => ∃ e x r h, Handles s t a e x r h ∧ run = some r ∧ x.followUpInProgress = true
  | .dropped b cause => s.view.results = some b ∧
      (cause ∈ [.stopped, .conversationReset, .reconfigured, .runFailed, .startFailed] ∨
        ∃ e x r h, Handles s t a e x r h ∧ (parse e.text = none ∨ x.followUpInProgress = true ∨
          ∃ envelope, parse e.text = some envelope ∧ actionResults h envelope ≠ []))
  | .completed c => ∃ x r h envelope, Handles s t a c.reply x r h ∧
      parse c.reply.text = some envelope ∧ x.pendingWake = some c.wake ∧
      c.shown = shown envelope ∧ (c.shown = none ∨ c.sent = true) ∧ c.pending = x.pendingFollowUp

/-- What the handling of a reply adds to the record. -/
theorem Replied.adds {parse : String → Option (Envelope Action)} {s u : State} {a : Label Action}
    {e : Event} {x : Session} {r : Run} {h : Handling Action} {upto : ℕ}
    (hreplied : Replied parse h e x s u)
    (hhandles : Handles s { u with phase := .events upto } a e x r h) :
    ∃ more, u.record = s.record ++ more ∧
      ∀ happening ∈ more, Adds parse s { u with phase := .events upto } a happening := by
  have hview : s.view.results = x.pendingFollowUp := by
    rw [view_eq hhandles.session]
    rfl
  have hdrops : ∀ {cause happening}, happening ∈ drops cause x.pendingFollowUp →
      (parse e.text = none ∨ x.followUpInProgress = true ∨
        ∃ envelope, parse e.text = some envelope ∧ actionResults h envelope ≠ []) →
      Adds parse s { u with phase := .events upto } a happening := by
    intro cause happening hmem hwhy
    obtain ⟨b, hb, rfl⟩ := mem_drops.mp hmem
    exact ⟨hview.trans hb, .inr ⟨e, x, r, h, hhandles, hwhy⟩⟩
  cases hreplied with
  | malformed wakes _ hparse => exact ⟨_, rfl, fun happening hmem => hdrops hmem (.inl hparse)⟩
  | refused envelope wakes _ hparse hprogress _ =>
      refine ⟨_, List.append_assoc _ _ _, fun happening hmem => ?_⟩
      rcases List.mem_append.mp hmem with hmem | hmem
      · rw [List.mem_singleton.mp hmem]
        exact ⟨e, x, r, h, hhandles, hhandles.event, hprogress⟩
      · exact hdrops hmem (.inr (.inl hprogress))
  | pending envelope hparse hprogress _ hresults =>
      refine ⟨_, List.append_assoc _ _ _, fun happening hmem => ?_⟩
      rcases List.mem_append.mp hmem with hmem | hmem
      · rw [List.mem_singleton.mp hmem]
        exact ⟨e, x, r, h, hhandles, hhandles.event, hprogress, fun _ => rfl⟩
      · exact hdrops hmem (.inr (.inr ⟨envelope, hparse, hresults⟩))
  | answered envelope wakes did said hparse hdid hsaid =>
      refine ⟨_, List.append_assoc _ _ _, fun happening hmem => ?_⟩
      rcases List.mem_append.mp hmem with hmem | hmem
      · rcases hdid with rfl | ⟨hprogress, rfl⟩
        · cases hmem
        · rw [List.mem_singleton.mp hmem]
          exact ⟨e, x, r, h, hhandles, hhandles.event, hprogress, fun hne => absurd rfl hne⟩
      · rcases hsaid with ⟨rfl, -⟩ | ⟨id, hid, hdelivered, -, rfl⟩
        · cases hmem
        · rw [List.mem_singleton.mp hmem]
          exact ⟨x, r, h, envelope, hhandles, hparse, hid, rfl, hdelivered, rfl⟩

/-- The record only grows, and by what a step accounts for. -/
theorem Change.record_new {channel : String} {parse : String → Option (Envelope Action)}
    {s t : State} {a : Label Action} (h : Change channel parse s a t) :
    ∃ more, t.record = s.record ++ more ∧ ∀ happening ∈ more, Adds parse s t a happening := by
  have hnone : t.record = s.record → ∃ more, t.record = s.record ++ more ∧
      ∀ happening ∈ more, Adds parse s t a happening :=
    fun hrecord => ⟨[], hrecord.trans (List.append_nil _).symm, List.forall_mem_nil _⟩
  have hone : ∀ {happening}, t.record = s.record ++ [happening] → Adds parse s t a happening →
      ∃ more, t.record = s.record ++ more ∧ ∀ happening ∈ more, Adds parse s t a happening := by
    intro happening hrecord hadds
    refine ⟨_, hrecord, fun other hmem => ?_⟩
    rw [List.mem_singleton.mp hmem]
    exact hadds
  have hdrops : ∀ {cause}, t.record = s.record ++ drops cause s.view.results →
      cause ∈ [Cause.stopped, .conversationReset, .reconfigured, .runFailed, .startFailed] →
      ∃ more, t.record = s.record ++ more ∧ ∀ happening ∈ more, Adds parse s t a happening := by
    intro cause hrecord hcause
    refine ⟨_, hrecord, fun happening hmem => ?_⟩
    obtain ⟨b, hb, rfl⟩ := mem_drops.mp hmem
    exact ⟨hb, .inl hcause⟩
  cases h with
  | still _ _ _ hrecord _ => exact hnone hrecord
  | unstarted _ _ _ _ _ _ _ hrecord _ => exact hnone hrecord
  | lost _ _ _ _ _ _ hrecord _ => exact hnone hrecord
  | restarted _ _ _ _ _ _ hrecord _ => exact hnone hrecord
  | queued row _ _ _ hopen _ hrecord hwakes => exact hone hrecord ⟨row, rfl, hopen, hwakes⟩
  | letGo cause hcause _ _ hrecord _ =>
      refine hdrops hrecord ?_
      rcases hcause with rfl | rfl | rfl <;> simp
  | stalled b _ _ hb _ _ _ _ hrecord _ => exact hone hrecord ⟨hb, .inl (by simp)⟩
  | asked _ _ _ _ _ _ _ hbegins _ => exact hone hbegins.record hbegins
  | followed _ _ _ _ _ hbegins _ => exact hone hbegins.record hbegins
  | woken _ _ _ _ hbegins _ => exact hone hbegins.record hbegins
  | terminal e upto u _ _ hover ht _ _ =>
      subst ht
      cases hover with
      | other | completed => exact hnone rfl
      | failed x wakes hx _ _ =>
          refine hdrops ?_ (by simp : Cause.runFailed ∈ _)
          rw [view_eq hx]
          rfl
  | replied e x r h u hhandles hreplied ht =>
      obtain ⟨upto, rfl⟩ := ht
      exact hreplied.adds hhandles

theorem Change.record_mono {channel : String} {parse : String → Option (Envelope Action)}
    {s t : State} {a : Label Action} (h : Change channel parse s a t) : s.record ⊆ t.record := by
  obtain ⟨more, hrecord, -⟩ := h.record_new
  rw [hrecord]
  exact List.subset_append_left _ _

theorem Change.adds {channel : String} {parse : String → Option (Envelope Action)} {s t : State}
    {a : Label Action} (h : Change channel parse s a t) {happening : Happening}
    (hmem : happening ∈ t.record) : happening ∈ s.record ∨ Adds parse s t a happening := by
  obtain ⟨more, hrecord, hmore⟩ := h.record_new
  rw [hrecord] at hmem
  exact (List.mem_append.mp hmem).imp_right (hmore happening)

/-- A run has one turn, and the session knows a follow-up's until its reply is handled. -/
structure Turned (s : State) : Prop where
  single : ∀ r prompt prompt', .turn r prompt ∈ s.record → .turn r prompt' ∈ s.record →
    prompt = prompt'
  followUp : ∀ r b, s.view.run = some r → r ∈ s.busy → .turn r (.followUp b) ∈ s.record →
    s.Unhandled r → s.view.progress = true

theorem Begins.turn {s t : State} {r : Run} {prompt : Prompt} (h : Begins s t r prompt) :
    .turn r prompt ∈ t.record := by
  rw [h.record]
  exact List.mem_append_right _ List.mem_cons_self

theorem Turned.single_change {channel : String} {parse : String → Option (Envelope Action)}
    {s t : State} {a : Label Action} (h : s.Turned) (hchange : Change channel parse s a t)
    {r : Run} {prompt prompt' : Prompt} (hturn : .turn r prompt ∈ t.record)
    (hturn' : .turn r prompt' ∈ t.record) : prompt = prompt' := by
  rcases hchange.adds hturn with hold | hbegins <;>
    rcases hchange.adds hturn' with hold' | hbegins'
  · exact h.single r prompt prompt' hold hold'
  · exact absurd ⟨prompt, hold⟩ hbegins'.free
  · exact absurd ⟨prompt', hold'⟩ hbegins.free
  · have hsame := hbegins.record.symm.trans hbegins'.record
    exact (Happening.turn.inj (List.singleton_inj.mp (List.append_cancel_left hsame))).2

theorem Turned.change {channel : String} {parse : String → Option (Envelope Action)}
    {s t : State} {a : Label Action} (h : s.Turned) (hchange : Change channel parse s a t) :
    t.Turned := by
  refine ⟨fun r prompt prompt' => h.single_change hchange, ?_⟩
  intro r b hrun hbusy hturn hunhandled
  have hbegun : ∀ {r' prompt}, Begins s t r' prompt → t.view.run = some r' →
      prompt = .followUp b := by
    intro r' prompt hbegins hrun'
    obtain rfl := Option.some.inj (hrun.symm.trans hrun')
    exact h.single_change hchange hbegins.turn hturn
  cases hchange with
  | still hpass hview hbusy' hrecord _ =>
      rw [hview] at hrun ⊢
      refine h.followUp r b hrun (hbusy' ▸ hbusy) (hrecord ▸ hturn) (hpass.unhandled r hunhandled)
  | queued row hpass hview hbusy' _ _ hrecord _ =>
      rw [hview] at hrun ⊢
      rw [hrecord] at hturn
      refine h.followUp r b hrun (hbusy' ▸ hbusy) ?_ (hpass.unhandled r hunhandled)
      exact (List.mem_append.mp hturn).resolve_right (by simp)
  | letGo cause _ _ hview _ _ =>
      rw [hview] at hrun
      cases hrun
  | unstarted _ hidle' _ _ _ _ _ _ _ =>
      rw [State.view_run] at hrun
      exact absurd hbusy (hidle' r hrun)
  | asked text prompt env r' _ _ _ hbegins hview =>
      cases hbegun hbegins (congrArg View.run hview)
  | followed b' r' _ _ _ hbegins hview => rw [hview]
  | woken id r' _ _ hbegins hview => cases hbegun hbegins (congrArg View.run hview)
  | stalled b' _ hbusy' _ _ _ _ _ _ _ =>
      rw [hbusy'] at hbusy
      cases hbusy
  | lost r' _ _ hpass hview hbusy' hrecord _ =>
      rw [hview] at hrun ⊢
      exact h.followUp r b hrun (hbusy' ▸ hbusy) (hrecord ▸ hturn) (hpass.unhandled r hunhandled)
  | terminal e upto u _ _ hover ht hpass _ =>
      subst ht
      cases hover with
      | other _ =>
          exact h.followUp r b hrun (List.mem_filter.mp hbusy).1 hturn (hpass.unhandled r hunhandled)
      | completed => cases hrun
      | failed => cases hrun
  | replied e x r' h' u hhandles hreplied ht =>
      obtain ⟨upto, rfl⟩ := ht
      have hsame := (hreplied.view_run hhandles.session).trans hhandles.run
      obtain rfl := Option.some.inj (hrun.symm.trans hsame)
      exact absurd hunhandled hhandles.handled
  | restarted now _ _ hbusy' _ _ _ _ =>
      rw [hbusy'] at hbusy
      cases hbusy

theorem Turned.initial (engine : String) : (initial engine).Turned :=
  ⟨fun _ _ _ h => absurd h List.not_mem_nil, nofun⟩

end State

end Stackhour.Claire
