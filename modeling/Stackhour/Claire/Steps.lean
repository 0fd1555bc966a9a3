import Stackhour.Claire.System

/-!
# What a step can do

One statement for each function of the assistant: the state it leaves, written out, and
when it leaves which.
-/

namespace Stackhour.Claire

open Domain TransitionSystem

variable {Action : Type*}

/-- A reply asks for something to be done. -/
abbrev Envelope.Works (envelope : Envelope Action) : Prop :=
  envelope.remember ≠ [] ∨ ¬ envelope.actions.isEmpty

namespace State

/-! ## Results and wakes that are given up -/

/-- What is recorded of pending results when they are given up. -/
def drops (cause : Cause) (results : Option FollowUp) : List Happening :=
  (results.map (fun b => Happening.dropped b cause)).toList

theorem mem_drops {cause : Cause} {results : Option FollowUp} {happening : Happening} :
    happening ∈ drops cause results ↔ ∃ b, results = some b ∧ happening = .dropped b cause := by
  unfold drops
  cases results with
  | none => simp
  | some b => simp

theorem drop_eq (cause : Cause) (x : Session) (s : State) :
    s.drop cause x = { s with record := s.record ++ drops cause x.pendingFollowUp } := by
  unfold State.drop drops
  cases x.pendingFollowUp with
  | none =>
      show s = { s with record := s.record ++ [] }
      rw [List.append_nil]
  | some b => rfl

/-- The wakes are those before, or one of them was deferred. -/
def Deferral (wakes wakes' : List WakeRow) : Prop :=
  wakes' = wakes ∨ ∃ now error id, wakes' = deferred now error id wakes

/-- The wake that a session waits for is deferred, and it waits for none. -/
theorem deferSessionWake_eq {s : State} {x y : Session} (hx : s.session = some x)
    (hwake : y.pendingWake = x.pendingWake) (now : DateTime) (reason : String) :
    ∃ wakes, Deferral s.wakes wakes ∧ s.deferSessionWake now reason y =
      { s with session := some { x with pendingWake := none }, wakes := wakes } := by
  unfold State.deferSessionWake
  cases hy : y.pendingWake with
  | none =>
      refine ⟨s.wakes, .inl rfl, ?_⟩
      have hnone : x.pendingWake = none := hwake.symm.trans hy
      have hsame : x = { x with pendingWake := none } := by rw [← hnone]
      rw [← hsame, ← hx]
  | some id =>
      refine ⟨deferred now reason id s.wakes, .inr ⟨now, reason, id, rfl⟩, ?_⟩
      have hdefer : (s.defer now reason id).session = some x := hx
      unfold State.clearWake
      dsimp only
      rw [hdefer]
      dsimp only
      rw [if_pos (hwake.symm.trans hy)]
      rfl

/-! ## What the user does -/

/-- A session that has let go of everything. -/
def bare (x : Session) (engine : String) : Session := ⟨x.task, none, engine, none, none, none, false⟩

theorem stop_cases (now : DateTime) (s : State) :
    stop now s = s ∨ ∃ x run task wakes, s.session = some x ∧ x.run = some run ∧
      s.jobs run = some ⟨task, .running⟩ ∧ Deferral s.wakes wakes ∧
      stop now s = { s with
        session := some (bare x x.engine)
        log := s.log ++ [⟨x.task, some run, .runInterrupted, ""⟩]
        wakes := wakes
        busy := s.busy.filter (fun r => decide (r ≠ run))
        jobs := Function.update s.jobs run (some ⟨task, .stopped⟩)
        record := s.record ++ drops .stopped x.pendingFollowUp } := by
  unfold stop
  cases hx : s.session with
  | none => exact .inl rfl
  | some x =>
      dsimp only
      cases hrun : x.run with
      | none => exact .inl rfl
      | some run =>
          dsimp only
          unfold stopJob
          cases hjob : s.jobs run with
          | none => exact .inl rfl
          | some j =>
              obtain ⟨task, stage⟩ := j
              cases stage with
              | running =>
                  right
                  dsimp only
                  obtain ⟨wakes, hwakes, hdefer⟩ := @deferSessionWake_eq
                    ({ s with jobs := Function.update s.jobs run (some ⟨task, .stopped⟩) }.append
                      ⟨x.task, some run, .runInterrupted, ""⟩) x x hx rfl now
                      "assessment stopped by user"
                  refine ⟨x, run, task, wakes, rfl, hrun, hjob, hwakes, ?_⟩
                  rw [hdefer, drop_eq]
                  rfl
              | stopped | exited _ | holding _ _ _ | saved _ | replied | ended => exact .inl rfl

theorem clearCurrentRun_cases (now : DateTime) (engine : String) (s : State) :
    clearCurrentRun now engine s = s ∨ ∃ x wakes, s.session = some x ∧ Deferral s.wakes wakes ∧
      clearCurrentRun now engine s = { s with
        session := some (bare x engine)
        wakes := wakes
        record := s.record ++ drops .reconfigured x.pendingFollowUp } := by
  unfold clearCurrentRun
  cases hx : s.session with
  | none => exact .inl rfl
  | some x =>
      obtain ⟨wakes, hwakes, hdefer⟩ := deferSessionWake_eq hx rfl now
        "assistant configuration changed"
      refine .inr ⟨x, wakes, rfl, hwakes, ?_⟩
      dsimp only
      rw [hdefer, drop_eq]
      rfl

theorem reset_cases (now : DateTime) (s : State) :
    reset now s = s ∨ ∃ x wakes, s.session = some x ∧ Deferral s.wakes wakes ∧
      reset now s = { s with
        session := none
        wakes := wakes
        record := s.record ++ drops .conversationReset x.pendingFollowUp } := by
  unfold reset
  cases hx : s.session with
  | none => exact .inl rfl
  | some x =>
      obtain ⟨wakes, hwakes, hdefer⟩ := deferSessionWake_eq hx rfl now "conversation reset"
      refine .inr ⟨x, wakes, rfl, hwakes, ?_⟩
      dsimp only
      rw [hdefer, drop_eq]

/-! ## What the loop and a restart do beside turns -/

theorem reconcile_cases (now : DateTime) (s : State) :
    reconcile now s = s ∨ ∃ x run wakes, s.session = some x ∧ x.run = some run ∧ run ∈ s.busy ∧
      s.jobs run = none ∧ Deferral s.wakes wakes ∧
      reconcile now s = { s with
        session := some { x with pendingWake := none }
        log := s.log ++ [⟨x.task, some run, .runFailed,
          "assistant process exited without a durable terminal event"⟩]
        wakes := wakes } := by
  unfold reconcile
  cases hx : s.session with
  | none => exact .inl rfl
  | some x =>
      dsimp only
      cases hrun : x.run with
      | none => exact .inl rfl
      | some run =>
          dsimp only
          split
          · exact .inl rfl
          · next hlost =>
              obtain ⟨hbusy, hlost⟩ := not_or.mp hlost
              obtain ⟨hjob, -⟩ := not_or.mp hlost
              obtain ⟨wakes, hwakes, hdefer⟩ := deferSessionWake_eq hx rfl now
                "assistant process exited without a durable terminal event"
              have hnone : s.jobs run = none := by
                unfold isRunning at hjob
                simpa using hjob
              refine .inr ⟨x, run, wakes, rfl, hrun, not_not.mp hbusy, hnone, hwakes, ?_⟩
              rw [hdefer]
              rfl

theorem restart_eq (now : DateTime) (s : State) : ∃ events wakes, Deferral s.wakes wakes ∧
    (∀ e ∈ events, e.kind = .runInterrupted ∧ e.run = s.session.bind Session.run) ∧
    restart now s = { s with
      session := s.session.map (fun x => { x with run := none, pendingWake := none })
      log := s.log ++ events
      wakes := wakes
      busy := []
      jobs := fun _ => none
      cursor := 0
      phase := .boot } := by
  unfold restart recover
  cases hx : s.session with
  | none =>
      refine ⟨[], s.wakes, .inl rfl, by simp, ?_⟩
      rw [List.append_nil]
      dsimp only
      rw [hx]
      rfl
  | some x =>
      dsimp only
      have hinterrupted : ∀ run, x.run = some run →
          ∀ e ∈ [(⟨x.task, some run, .runInterrupted, ""⟩ : Event)],
            e.kind = .runInterrupted ∧ e.run = (some x).bind Session.run := by
        intro run hrun e he
        rw [List.mem_singleton.mp he]
        exact ⟨rfl, hrun.symm⟩
      cases hrun : x.run with
      | none =>
          cases x.pendingWake with
          | none =>
              refine ⟨[], s.wakes, .inl rfl, by simp, ?_⟩
              rw [List.append_nil]
              rfl
          | some id =>
              refine ⟨[], _, .inr ⟨now, "hub restarted during assessment", id, rfl⟩, by simp, ?_⟩
              rw [List.append_nil]
              rfl
      | some run =>
          cases x.pendingWake with
          | none => exact ⟨_, s.wakes, .inl rfl, hinterrupted run hrun, rfl⟩
          | some id =>
              exact ⟨_, _, .inr ⟨now, "hub restarted during assessment", id, rfl⟩,
                hinterrupted run hrun, rfl⟩

/-! ## What a reply does -/

/-- A session whose turn is over, with nothing pending. -/
def settled (x : Session) : Session :=
  { x with pendingWake := none, pendingFollowUp := none, followUpInProgress := false }

/-- What the handling of a reply leaves: the reply was not acted on, its results are
pending, or it is the answer of its turn. -/
inductive Replied (parse : String → Option (Envelope Action)) (h : Handling Action) (e : Event)
    (x : Session) (s : State) : State → Prop
  | malformed (wakes : List WakeRow) (hwakes : Deferral s.wakes wakes)
      (hparse : parse e.text = none) : Replied parse h e x s { s with
        session := some (settled x)
        wakes := wakes
        record := s.record ++ drops .malformedReply x.pendingFollowUp }
  | refused (envelope : Envelope Action) (wakes : List WakeRow) (hwakes : Deferral s.wakes wakes)
      (hparse : parse e.text = some envelope) (hprogress : x.followUpInProgress = true)
      (hworks : envelope.Works) : Replied parse h e x s { s with
        session := some (settled x)
        wakes := wakes
        record := (s.record ++ [.refused e.run]) ++ drops .refusedReply x.pendingFollowUp }
  | pending (envelope : Envelope Action) (hparse : parse e.text = some envelope)
      (hprogress : x.followUpInProgress = false) (hworks : envelope.Works)
      (hresults : actionResults h envelope ≠ []) : Replied parse h e x s { s with
        session := some { x with
          pendingFollowUp := some ⟨e.run, followUpText (actionResults h envelope)⟩
          followUpInProgress := false }
        record := (s.record ++ [.executed e.run (actionResults h envelope)]) ++
          drops .overwritten x.pendingFollowUp }
  | answered (envelope : Envelope Action) (wakes : List WakeRow) (did said : List Happening)
      (hparse : parse e.text = some envelope)
      (hdid : did = [] ∨ x.followUpInProgress = false ∧ did = [.executed e.run []])
      (hsaid : (said = [] ∧ Deferral s.wakes wakes) ∨ ∃ id, x.pendingWake = some id ∧
        (shown envelope = none ∨ h.sent = true) ∧ wakes = completed h.now id s.wakes ∧
        said = [.completed ⟨id, e, shown envelope, h.sent, x.pendingFollowUp⟩]) :
      Replied parse h e x s { s with
        session := some { x with pendingWake := none, followUpInProgress := false }
        wakes := wakes
        record := (s.record ++ did) ++ said }

theorem rejectReply_eq {s : State} {x : Session} (hx : s.session = some x) (now : DateTime)
    (cause : Cause) (reason message : String) : ∃ wakes, Deferral s.wakes wakes ∧
      rejectReply now cause reason message s =
        ({ s with session := some (settled x), wakes := wakes, record := s.record ++ drops cause x.pendingFollowUp },
          ⟨if x.pendingWake.isSome then none else some message, none, false⟩) := by
  unfold rejectReply
  rw [hx]
  dsimp only
  rw [drop_eq]
  obtain ⟨wakes, hwakes, hdefer⟩ := @deferSessionWake_eq
    (({ s with record := s.record ++ drops cause x.pendingFollowUp } : State).save
      { x with pendingFollowUp := none, followUpInProgress := false })
    { x with pendingFollowUp := none, followUpInProgress := false }
    { x with pendingFollowUp := none, followUpInProgress := false } rfl rfl now reason
  refine ⟨wakes, hwakes, ?_⟩
  rw [hdefer]
  rfl

theorem endProgress_eq {s : State} {x : Session} (hx : s.session = some x) :
    s.endProgress = { s with session := some { x with followUpInProgress := false } } := by
  unfold endProgress
  rw [hx]
  dsimp only
  split
  · rfl
  · next hprogress =>
      have hsame : x = { x with followUpInProgress := false } := by
        rw [← Bool.eq_false_iff.mpr hprogress]
      rw [← hsame, ← hx]

theorem setFollowUp_eq {s : State} {x : Session} (hx : s.session = some x) (b : FollowUp) :
    s.setFollowUp b = { s with
      session := some { x with pendingFollowUp := some b }
      record := s.record ++ drops .overwritten x.pendingFollowUp } := by
  unfold setFollowUp
  rw [hx]
  dsimp only
  rw [drop_eq]
  rfl

/-- A reply that asks for nothing has no results. -/
theorem actionResults_idle (h : Handling Action) {envelope : Envelope Action}
    (hidle : ¬ envelope.Works) : actionResults h envelope = [] := by
  obtain ⟨hremember, hactions⟩ := not_or.mp hidle
  unfold actionResults
  rw [not_not.mp hremember, List.isEmpty_iff.mp (not_not.mp hactions)]
  rfl

/-- The results of a reply that may be acted on. -/
theorem processReply_eq (parse : String → Option (Envelope Action)) (h : Handling Action)
    {e : Event} {s : State} {x : Session} {envelope : Envelope Action} (hx : s.session = some x)
    (hparse : parse e.text = some envelope)
    (hallowed : ¬ (x.followUpInProgress = true ∧ envelope.Works)) : ∃ did,
      ((did = [] ∧ ¬ envelope.Works) ∨ (x.followUpInProgress = false ∧ envelope.Works ∧
        did = [.executed e.run (actionResults h envelope)])) ∧
      processReply parse h e s =
        if actionResults h envelope = [] then
          ({ s with
              session := some { x with followUpInProgress := false }
              record := s.record ++ did }, ⟨shown envelope, x.pendingWake, false⟩)
        else
          ({ s with
              session := some { x with
                pendingFollowUp := some ⟨e.run, followUpText (actionResults h envelope)⟩
                followUpInProgress := false }
              record := (s.record ++ did) ++ drops .overwritten x.pendingFollowUp },
            ⟨none, x.pendingWake, true⟩) := by
  have hinProgress : s.inProgress = x.followUpInProgress := by
    unfold inProgress
    rw [hx]
    rfl
  have hprocess : processReply parse h e s = executeReply h e envelope s.endProgress := by
    unfold processReply
    rw [hparse]
    dsimp only
    rw [hinProgress, if_neg hallowed]
  rw [hprocess, endProgress_eq hx]
  unfold executeReply
  dsimp only
  by_cases hworks : envelope.Works
  · have hprogress : x.followUpInProgress = false :=
      Bool.eq_false_iff.mpr fun hprogress => hallowed ⟨hprogress, hworks⟩
    refine ⟨_, .inr ⟨hprogress, hworks, rfl⟩, ?_⟩
    rw [if_pos hworks]
    split
    · rfl
    · rw [setFollowUp_eq (x := { x with followUpInProgress := false }) rfl]
      rfl
  · refine ⟨[], .inl ⟨rfl, hworks⟩, ?_⟩
    rw [if_neg hworks, if_pos (actionResults_idle h hworks), if_pos (actionResults_idle h hworks),
      List.append_nil]
    rfl

/-- The wake of the session is done with: it waits for none. -/
theorem clearWake_eq {s : State} {x : Session} {id : EventId} (hx : s.session = some x)
    (hid : x.pendingWake = some id) :
    s.clearWake id = { s with session := some { x with pendingWake := none } } := by
  unfold clearWake
  rw [hx]
  dsimp only
  rw [if_pos hid]
  rfl

theorem handleEvent_reply (parse : String → Option (Envelope Action)) (h : Handling Action)
    {e : Event} {s : State} {x : Session} (hkind : e.kind = .messageAssistantCompleted)
    (hx : s.session = some x) : Replied parse h e x s (handleEvent parse h e s) := by
  have hprocess : processEvent parse h e s = processReply parse h e s := by
    unfold processEvent
    rw [hkind]
  have hinProgress : s.inProgress = x.followUpInProgress := by
    unfold inProgress
    rw [hx]
    rfl
  unfold handleEvent
  rw [hprocess]
  cases hparse : parse e.text with
  | none =>
      obtain ⟨wakes, hwakes, hreject⟩ := rejectReply_eq hx h.now .malformedReply
        "Claire returned a malformed envelope"
        "Claire returned an invalid response. Please try again."
      have hreply : processReply parse h e s = rejectReply h.now .malformedReply
          "Claire returned a malformed envelope"
          "Claire returned an invalid response. Please try again." s := by
        unfold processReply
        rw [hparse]
      rw [hreply, hreject]
      exact .malformed wakes hwakes hparse
  | some envelope =>
      by_cases hallowed : x.followUpInProgress = true ∧ envelope.Works
      · obtain ⟨hprogress, hworks⟩ := hallowed
        obtain ⟨wakes, hwakes, hreject⟩ := @rejectReply_eq (s.note (.refused e.run)) x hx
          h.now .refusedReply "Claire requested another action during final disclosure"
          "Claire couldn't finalize that turn. Please try again."
        have hreply : processReply parse h e s = rejectReply h.now .refusedReply
            "Claire requested another action during final disclosure"
            "Claire couldn't finalize that turn. Please try again." (s.note (.refused e.run)) := by
          unfold processReply
          rw [hparse]
          dsimp only
          rw [hinProgress, if_pos ⟨hprogress, hworks⟩]
        rw [hreply, hreject]
        exact .refused envelope wakes hwakes hparse hprogress hworks
      · obtain ⟨did, hdid, hreply⟩ := processReply_eq parse h hx hparse hallowed
        rw [hreply]
        have hdone : did = [] ∨ x.followUpInProgress = false ∧
            did = [.executed e.run (actionResults h envelope)] :=
          hdid.imp And.left fun hworks => ⟨hworks.1, hworks.2.2⟩
        split
        · next hresults =>
            rw [hresults] at hdone
            dsimp only
            cases hid : x.pendingWake with
            | none =>
                rw [← List.append_nil (s.record ++ did)]
                exact .answered envelope s.wakes did [] hparse hdone (.inl ⟨rfl, .inl rfl⟩)
            | some id =>
                dsimp only
                split
                · next hdelivered =>
                    rw [if_neg Bool.false_ne_true, clearWake_eq rfl rfl]
                    refine .answered envelope (completed h.now id s.wakes) did _ hparse hdone
                      (.inr ⟨id, hid, ?_, rfl, rfl⟩)
                    rwa [Bool.or_eq_true, Option.isNone_iff_eq_none] at hdelivered
                · rw [clearWake_eq rfl rfl, ← List.append_nil (s.record ++ did)]
                  exact .answered envelope _ did [] hparse hdone
                    (.inl ⟨rfl, .inr ⟨h.now, "Telegram delivery failed", id, rfl⟩⟩)
        · next hresults =>
            obtain ⟨-, hidle⟩ | ⟨hprogress, hworks, hdid⟩ := hdid
            · exact absurd (actionResults_idle h hidle) hresults
            · dsimp only
              rw [hdid]
              cases hid : x.pendingWake with
              | none =>
                  dsimp only
                  rw [← hid]
                  exact .pending envelope hparse hprogress hworks hresults
              | some id =>
                  dsimp only
                  rw [if_pos (by simp), if_pos rfl, ← hid]
                  exact .pending envelope hparse hprogress hworks hresults

/-! ## What the end of a run does -/

theorem freeRun_eq (e : Event) (s : State) :
    s.freeRun e = { s with busy := s.busy.filter (fun run => decide (some run ≠ e.run)) } := by
  unfold freeRun removeBusy
  cases e.run <;> simp

/-- A run is no longer busy. -/
def freed (e : Event) (busy : List Run) : List Run :=
  busy.filter (fun run => decide (some run ≠ e.run))

theorem endTurn_cases (now : DateTime) (reason : String) (e : Event) (s : State) :
    (endTurn now reason e s = s ∧ ∀ x, s.session = some x → x.run ≠ e.run) ∨
      ∃ x wakes, s.session = some x ∧ x.run = e.run ∧ Deferral s.wakes wakes ∧
        endTurn now reason e s = { s with
          session := some ⟨x.task, none, x.engine, x.providerSession, none, none, false⟩
          wakes := wakes
          record := s.record ++ drops .runFailed x.pendingFollowUp } := by
  unfold endTurn
  cases hx : s.session with
  | none => exact .inl ⟨rfl, nofun⟩
  | some x =>
      dsimp only
      split
      · next hrun =>
          cases x.pendingWake with
          | none =>
              refine .inr ⟨x, s.wakes, rfl, hrun, .inl rfl, ?_⟩
              rw [drop_eq]
              rfl
          | some id =>
              refine .inr ⟨x, deferred now reason id s.wakes, rfl, hrun,
                .inr ⟨now, reason, id, rfl⟩, ?_⟩
              dsimp only
              rw [drop_eq]
              rfl
      · next hrun =>
          refine .inl ⟨rfl, fun y hy => ?_⟩
          rwa [← Option.some.inj hy]

theorem endRun_cases (e : Event) (s : State) :
    (endRun e s = s ∧ ∀ x, s.session = some x → x.run ≠ e.run) ∨
      ∃ x, s.session = some x ∧ x.run = e.run ∧
        endRun e s = { s with session := some { x with run := none } } := by
  unfold endRun
  cases hx : s.session with
  | none => exact .inl ⟨rfl, nofun⟩
  | some x =>
      dsimp only
      split
      · next hrun => exact .inr ⟨x, rfl, hrun, rfl⟩
      · next hrun =>
          refine .inl ⟨rfl, fun y hy => ?_⟩
          rwa [← Option.some.inj hy]

/-- What the end of a run does: the run is free, and a session that names it lets go of it. -/
inductive Over (e : Event) (s : State) : State → Prop
  | other (hother : ∀ x, s.session = some x → x.run ≠ e.run) :
      Over e s { s with busy := freed e s.busy }
  | completed (x : Session) (hx : s.session = some x) (hrun : x.run = e.run)
      (hkind : e.kind = .runCompleted) : Over e s { s with
        session := some { x with run := none }
        busy := freed e s.busy }
  | failed (x : Session) (wakes : List WakeRow) (hx : s.session = some x) (hrun : x.run = e.run)
      (hwakes : Deferral s.wakes wakes) : Over e s { s with
        session := some ⟨x.task, none, x.engine, x.providerSession, none, none, false⟩
        wakes := wakes
        busy := freed e s.busy
        record := s.record ++ drops .runFailed x.pendingFollowUp }

theorem Over.of_endTurn (now : DateTime) (reason : String) (e : Event) (s : State) :
    Over e s (endTurn now reason e (s.freeRun e)) := by
  rw [freeRun_eq]
  rcases endTurn_cases now reason e { s with
      busy := s.busy.filter (fun run => decide (some run ≠ e.run)) } with
    ⟨hend, hother⟩ | ⟨x, wakes, hx, hrun, hwakes, hend⟩
  · rw [hend]
    exact .other hother
  · rw [hend]
    exact .failed x wakes hx hrun hwakes

theorem handleEvent_terminal (parse : String → Option (Envelope Action)) (h : Handling Action)
    {e : Event} (s : State) (hterminal : isTerminal e.kind = true) :
    Over e s (handleEvent parse h e s) := by
  unfold handleEvent processEvent
  cases hkind : e.kind <;> rw [hkind] at hterminal <;> try cases hterminal
  case runCompleted =>
    show Over e s (endRun e (s.freeRun e))
    rw [freeRun_eq]
    rcases endRun_cases e { s with
        busy := s.busy.filter (fun run => decide (some run ≠ e.run)) } with
      ⟨hend, hother⟩ | ⟨x, hx, hrun, hend⟩
    · rw [hend]
      exact .other hother
    · rw [hend]
      exact .completed x hx hrun hkind
  case runFailed => exact Over.of_endTurn h.now e.text e s
  case runInterrupted => exact Over.of_endTurn h.now "assessment interrupted" e s

/-- The loop passes over the other events. -/
theorem handleEvent_mute (parse : String → Option (Envelope Action)) (h : Handling Action)
    {e : Event} (s : State) (hmute : Mute e) : handleEvent parse h e s = s := by
  obtain ⟨hterminal, hreply⟩ := hmute
  unfold handleEvent processEvent
  cases hkind : e.kind <;> rw [hkind] at hterminal hreply <;>
    first | rfl | exact absurd rfl hreply | exact Bool.noConfusion hterminal

end State

end Stackhour.Claire
