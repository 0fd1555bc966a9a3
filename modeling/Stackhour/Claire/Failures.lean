import Stackhour.Claire.System

/-!
# Claire's threads over a store that fails

The same threads, where every operation on the store may fail. A step comes with how
each of its operations goes; where none fails it is the step of the threads.
-/

namespace Stackhour.Claire

open Domain TransitionSystem

/-- How an operation on the store goes. An event that is `unread` is durable, and reading it
back fails: the caller is told that the operation did. -/
inductive Outcome where
  | done
  | lost
  | unread
deriving DecidableEq

/-- The operations on the store, by where they are made. -/
inductive Call where
  | inputSession
  | settings
  | saveSettings
  | commandSession
  | saveCommand
  | stopEvent
  | deferWake
  | deferSession
  | saveDeferred
  | submitSession
  | createTask
  | contract
  | startRun
  | saveRun
  | context
  | message
  | settingsEvent
  | spawnEvent
  | startEvents
  | startEvent
  | followUpSession
  | saveFollowUp
  | abandonSession
  | abandonEvents
  | abandonEvent
  | saveAbandoned
  | pendingWakes
  | deferEarly
  | saveWake
  | reconcileSession
  | reconcileEvents
  | reconcileEvent
  | loopCursor
  | loopEvents
  | loopSession
  | replySession
  | saveReply
  | progressSession
  | endSession
  | saveEnd
  | replySettings
  | resultsSession
  | saveResults
  | wakeSession
  | endedSession
  | deferEnded
  | saveEnded
  | completeWake
  | deferUnsent
  | handledSession
  | saveHandled
  | threadSession
  | saveThread
  | threadReply
  | threadEnd
  | recoverSession
  | recoverEvent
  | recoverWake
  | saveRecovered
deriving DecidableEq

/-- How the operations of a step go, and the text of an error of the store. -/
structure Faults where
  outcome : Call → Outcome
  error : String

namespace Faults

/-- The store works. -/
def clean : Faults := ⟨fun _ => .done, ""⟩

def ok (f : Faults) (c : Call) : Bool := decide (f.outcome c = .done)

def lost (f : Faults) (c : Call) : Bool := decide (f.outcome c = .lost)

end Faults

namespace State

/-- A session that cannot be read is taken for one that is not there. -/
def read (ok : Bool) (s : State) : Option Session := if ok then s.session else none

def trySave (ok : Bool) (x : Session) (s : State) : State := if ok then s.save x else s

def tryAppend (lost : Bool) (e : Event) (s : State) : State := if lost then s else s.append e

end State

namespace Failing

variable (f : Faults)

/-! ## Wakes -/

def clearWake (session save : Call) (id : EventId) (s : State) : State :=
  match s.read (f.ok session) with
  | some x =>
      if x.pendingWake = some id then s.trySave (f.ok save) { x with pendingWake := none } else s
  | none => s

def defer (call : Call) (now : DateTime) (error : String) (id : EventId) (s : State) : State :=
  if f.ok call then s.defer now error id else s

/-- `defer_session_wake`. -/
def deferSessionWake (now : DateTime) (reason : String) (x : Session) (s : State) : State :=
  match x.pendingWake with
  | some id => clearWake f .deferSession .saveDeferred id (defer f .deferWake now reason id s)
  | none => s

/-! ## Starting a turn -/

/-- The end of `submit_claire_prompt`: the session's run is told the prompt. -/
def submitMessage (x : Session) (s : State) : State × Option Session :=
  if f.ok .context then
    (s.tryAppend (f.lost .message) ⟨x.task, x.run, .messageUser, ""⟩,
      if f.ok .message then some x else none)
  else (s, none)

/-- `submit_claire_prompt`; no session when it fails. -/
def submit (acceptance : Acceptance) (s : State) : State × Option Session :=
  let x := s.turnSession
  if acceptance = .unread ∨ f.ok .submitSession = false then (s, none)
  else if s.session.isNone ∧ f.ok .createTask = false then
    (if f.lost .createTask then s else s.openTask, none)
  else if f.ok .contract = false then (s.openTask, none)
  else if x.run = none ∨ x.engine ≠ s.engine then
    if acceptance = .accepted ∧ f.lost .startRun = false then
      let y := s.newRun
      let t := { s.openTask with runs := s.runs + 1 }.append ⟨x.task, y.run, .runStarted, ""⟩
      if f.ok .startRun ∧ f.ok .saveRun then submitMessage f y (t.save y) else (t, none)
    else (s.openTask, none)
  else submitMessage f x s

/-- `ClaireRunner::start`; the error of a turn that is not started. -/
def launch (env : Env) (prompt : Prompt) (x : Session) (run : Run) (s : State) :
    State × Option String :=
  if (s.jobs run).isSome then (s, some "Claire already has a turn running")
  else if s.engine ≠ "claude" ∧ s.engine ≠ "codex" then
    (s, some "Claire's engine must be claude or codex")
  else if !env.spawned then
    let error := "cannot start Claire supervisor: " ++ env.detail
    (s.tryAppend (f.lost .spawnEvent) ⟨x.task, some run, .runFailed, error⟩, some error)
  else ({ s with jobs := Function.update s.jobs run (some ⟨x.task, .running⟩) }.note
    (.turn run prompt), none)

/-- `append_claire_start_failure`: events that cannot be read are taken for none. -/
def appendStartFailure (read write : Call) (x : Session) (error : String) (s : State) : State :=
  match x.run with
  | some run =>
      if f.ok read ∧ s.terminalIsDurable x.task run then s
      else s.tryAppend (f.lost write) ⟨x.task, some run, .runFailed, error⟩
  | none => s

/-- `start_claire_turn`. -/
def startTurn (env : Env) (prompt : Prompt) (s : State) : State × Started :=
  match submit f env.acceptance s with
  | (s, none) => (s, .refused)
  | (s, some x) =>
      match x.run with
      | none => (s, .failed "Claire's hub-local run is missing")
      | some run =>
          match env.settings with
          | some error =>
              (((s.insertBusy run).removeBusy run).tryAppend (f.lost .settingsEvent)
                ⟨x.task, some run, .runFailed, error⟩, .failed error)
          | none =>
              match launch f env prompt x run (s.insertBusy run) with
              | (s, none) => (s, .running)
              | (s, some error) =>
                  (appendStartFailure f .startEvents .startEvent x error (s.removeBusy run),
                    .failed error)

/-! ## The steps of the output loop -/

/-- A follow-up that could not be started leaves nothing behind. -/
def abandonFollowUp (error : String) (s : State) : State :=
  match s.read (f.ok .abandonSession) with
  | some current =>
      let s := if current.run.isSome then
        appendStartFailure f .abandonEvents .abandonEvent current error s else s
      s.trySave (f.ok .saveAbandoned)
        { current with pendingFollowUp := none, followUpInProgress := false }
  | none => s

/-- `start_pending_claire_follow_up`. -/
def startFollowUp (env : Env) (s : State) : State :=
  if s.busy ≠ [] then s
  else match s.read (f.ok .followUpSession) with
    | none => s
    | some x =>
        match x.pendingFollowUp with
        | none => s
        | some b =>
            if f.ok .saveFollowUp then
              let y := { x with pendingFollowUp := none, followUpInProgress := true }
              let reason := "action-result follow-up failed to start"
              let failed := fun (error : String) (s : State) =>
                deferSessionWake f env.now reason y
                  ((abandonFollowUp f error s).note (.dropped b .startFailed))
              match startTurn f env (.followUp b) (s.save y) with
              | (s, .running) => s
              | (s, .failed error) => failed error s
              | (s, .refused) => failed env.detail s
            else s

/-- `wake_claire_for_pending_worker`. -/
def startWake (channel : String) (env : Env) (s : State) : State :=
  if s.busy ≠ [] then s
  else match if f.ok .pendingWakes then State.firstWake channel env.now s.wakes else none with
    | none => s
    | some id =>
        match submit f env.acceptance s with
        | (s, none) => defer f .deferEarly env.now env.detail id s
        | (s, some x) =>
            let y := { x with pendingWake := some id }
            if f.ok .saveWake then
              match y.run with
              | none => deferSessionWake f env.now "Claire run was not created" y (s.save y)
              | some run =>
                  let s := (s.save y).insertBusy run
                  match env.settings with
                  | some error => deferSessionWake f env.now error y (s.removeBusy run)
                  | none =>
                      match launch f env (.wake id) y run s with
                      | (s, none) => s
                      | (s, some error) =>
                          deferSessionWake f env.now error y
                            (appendStartFailure f .startEvents .startEvent y error
                              (s.removeBusy run))
            else defer f .deferEarly env.now f.error id s

/-- `reconcile_claire_runner`. -/
def reconcile (now : DateTime) (s : State) : State :=
  match s.read (f.ok .reconcileSession) with
  | none => s
  | some x =>
      match x.run with
      | none => s
      | some run =>
          if run ∉ s.busy ∨ s.isRunning run = true ∨
              (f.ok .reconcileEvents ∧ s.terminalIsDurable x.task run = true) then s
          else
            let error := "assistant process exited without a durable terminal event"
            (deferSessionWake f now error x s).tryAppend (f.lost .reconcileEvent)
              ⟨x.task, some run, .runFailed, error⟩

/-! ## What the user says -/

/-- `clear_current_run`. -/
def clearCurrentRun (now : DateTime) (engine : String) (s : State) : State :=
  match s.read (f.ok .commandSession) with
  | none => s
  | some x =>
      let s := deferSessionWake f now "assistant configuration changed" x s
      if f.ok .saveCommand then
        (s.drop .reconfigured x).save ⟨x.task, none, engine, none, none, none, false⟩
      else s

/-- `/new`. -/
def reset (now : DateTime) (s : State) : State :=
  match s.read (f.ok .commandSession) with
  | none => s
  | some x =>
      let s := deferSessionWake f now "conversation reset" x s
      if f.ok .saveCommand then { s.drop .conversationReset x with session := none } else s

/-- `/stop`: a process that has not exited is told to, and whether that is durable decides
what follows. -/
def stop (now : DateTime) (s : State) : State :=
  match s.read (f.ok .commandSession) with
  | none => s
  | some x =>
      match x.run with
      | none => s
      | some run =>
          match s.jobs run with
          | some ⟨task, .running⟩ =>
              let s := { s with jobs := Function.update s.jobs run (some ⟨task, .stopped⟩) }
              let s := s.tryAppend (f.lost .stopEvent) ⟨x.task, some run, .runInterrupted, ""⟩
              if f.ok .stopEvent then
                let s := (deferSessionWake f now "assessment stopped by user" x s).removeBusy run
                if f.ok .saveCommand then
                  (s.drop .stopped x).save ⟨x.task, none, x.engine, none, none, none, false⟩
                else s
              else s
          | _ => s

/-- The settings are read and saved. -/
def saved (s : State) : Bool := !s.isBusy && f.ok .settings && f.ok .saveSettings

/-- `handle_claire_input`. -/
def handleInput (text : String) (env : Env) (s : State) : State :=
  if f.ok .inputSession then
    match State.readInput text with
    | .quiet => s
    | .stop => stop f env.now s
    | .engine name =>
        if saved f s then clearCurrentRun f env.now name { s with engine := name } else s
    | .model => if saved f s then clearCurrentRun f env.now s.engine s else s
    | .reset => if s.isBusy then s else reset f env.now s
    | .turn text => if s.isBusy then s else (startTurn f env (.user text) s).1
  else s

/-! ## Replies -/

variable {Action : Type*}

/-- The results of a reply's notes and actions; without the settings none is kept or done. -/
def actionResults (h : Handling Action) (envelope : Envelope Action) : List String :=
  if f.ok .replySettings then State.actionResults h envelope
  else if envelope.remember ≠ [] ∨ ¬ envelope.actions.isEmpty then
    ["Internal settings unavailable; no requested action ran: " ++ f.error]
  else []

/-- A reply that is not acted on: the turn is over, and its wake is assessed again. -/
def rejectReply (now : DateTime) (cause : Cause) (reason message : String) (s : State) :
    State × Projection :=
  match s.read (f.ok .replySession) with
  | none => (s, ⟨some message, none, false⟩)
  | some x =>
      let y := { x with pendingFollowUp := none, followUpInProgress := false }
      let s := if f.ok .saveReply then (s.drop cause x).save y else s
      (deferSessionWake f now reason y s,
        ⟨if x.pendingWake.isSome then none else some message, none, false⟩)

def inProgress (s : State) : Bool :=
  (s.read (f.ok .progressSession)).any Session.followUpInProgress

def pendingWake (s : State) : Option EventId :=
  (s.read (f.ok .wakeSession)).bind Session.pendingWake

/-- A follow-up that was read to be in progress no longer is. -/
def endProgress (s : State) : State :=
  match s.read (f.ok .endSession) with
  | some x => s.trySave (f.ok .saveEnd) { x with followUpInProgress := false }
  | none => s

/-- Results wait for their follow-up. -/
def setFollowUp (b : FollowUp) (s : State) : State :=
  match s.read (f.ok .resultsSession) with
  | some x =>
      if f.ok .saveResults then (s.drop .overwritten x).save { x with pendingFollowUp := some b }
      else s
  | none => s

/-- The notes and actions of a reply, and its results. -/
def executeReply (h : Handling Action) (e : Event) (envelope : Envelope Action) (s : State) :
    State × Projection :=
  let results := actionResults f h envelope
  let s := if f.ok .replySettings ∧ (envelope.remember ≠ [] ∨ ¬ envelope.actions.isEmpty) then
    s.note (.executed e.run results) else s
  if results = [] then (s, ⟨State.shown envelope, pendingWake f s, false⟩)
  else
    let s := setFollowUp f ⟨e.run, State.followUpText results⟩ s
    (s, ⟨none, pendingWake f s, true⟩)

/-- A completed message; `parse` is `parse_claire_envelope`. -/
def processReply (parse : String → Option (Envelope Action)) (h : Handling Action) (e : Event)
    (s : State) : State × Projection :=
  match parse e.text with
  | none =>
      rejectReply f h.now .malformedReply "Claire returned a malformed envelope"
        "Claire returned an invalid response. Please try again." s
  | some envelope =>
      if inProgress f s then
        if envelope.remember ≠ [] ∨ ¬ envelope.actions.isEmpty then
          rejectReply f h.now .refusedReply
            "Claire requested another action during final disclosure"
            "Claire couldn't finalize that turn. Please try again." (s.note (.refused e.run))
        else executeReply f h e envelope (endProgress f s)
      else executeReply f h e envelope s

/-- The event's run is over, with its turn. -/
def endTurn (now : DateTime) (reason : String) (e : Event) (s : State) : State :=
  match s.read (f.ok .endedSession) with
  | none => s
  | some x =>
      if x.run = e.run then
        let s := match x.pendingWake with
          | some id => defer f .deferEnded now reason id s
          | none => s
        if f.ok .saveEnded then
          (s.drop .runFailed x).save
            ⟨x.task, none, x.engine, x.providerSession, none, none, false⟩
        else s
      else s

/-- The event's run is over, and what it left waits. -/
def endRun (e : Event) (s : State) : State :=
  match s.read (f.ok .endedSession) with
  | none => s
  | some x => if x.run = e.run then s.trySave (f.ok .saveEnded) { x with run := none } else s

/-- `process_claire_event`. -/
def processEvent (parse : String → Option (Envelope Action)) (h : Handling Action) (e : Event)
    (s : State) : State × Projection :=
  match e.kind with
  | .messageAssistantCompleted => processReply f parse h e s
  | .runFailed =>
      let matched := (s.read (f.ok .endedSession)).any
        (fun x => decide (x.run = e.run) && x.pendingWake.isNone)
      (endTurn f h.now e.text e (State.freeRun e s),
        ⟨if matched then some "Claire couldn't finish that turn. Please try again." else none,
          none, false⟩)
  | .runInterrupted =>
      (endTurn f h.now "assessment interrupted" e (State.freeRun e s), ⟨none, none, false⟩)
  | .runCompleted => (endRun f e (State.freeRun e s), ⟨none, none, false⟩)
  | _ => (s, ⟨none, none, false⟩)

/-- `handle_claire_event`. -/
def handleEvent (parse : String → Option (Envelope Action)) (h : Handling Action) (e : Event)
    (s : State) : State :=
  let r := processEvent f parse h e s
  let delivered := r.2.reply.isNone || h.sent
  match r.2.wake with
  | none => r.1
  | some id =>
      if delivered then
        if r.2.awaiting then r.1
        else
          let pending := r.1.session.bind Session.pendingFollowUp
          let s := if f.ok .completeWake then
            (r.1.complete h.now id).note (.completed ⟨id, e, r.2.reply, h.sent, pending⟩) else r.1
          clearWake f .handledSession .saveHandled id s
      else
        clearWake f .handledSession .saveHandled id
          (defer f .deferUnsent h.now "Telegram delivery failed" id r.1)

/-! ## The output loop -/

/-- The loop takes an event for the assistant's; without the session it takes none. -/
def isClaire (s : State) (e : Event) : Bool :=
  (s.read (f.ok .loopSession)).any (fun x => decide (x.task = e.task) &&
    (e.run.isNone || decide (e.run = x.run)))

/-- The next operation of the output loop. -/
def output (channel : String) (parse : String → Option (Envelope Action)) (env : Env)
    (h : Handling Action) (s : State) : State :=
  match s.phase with
  | .boot => { s with cursor := if f.ok .loopCursor then s.log.length else 0, phase := .read }
  | .read =>
      if f.ok .loopEvents then { s with phase := .events s.log.length }
      else { s with phase := .reconcile }
  | .events upto =>
      if upto ≤ s.cursor then { s with phase := .reconcile }
      else match s.log[s.cursor]? with
        | some e =>
            { s with
              cursor := s.cursor + 1
              phase := if isClaire f s e then .handle upto e else .events upto }
        | none => { s with phase := .reconcile }
  | .handle upto e => { handleEvent f parse h e s with phase := .events upto }
  | .reconcile => { reconcile f env.now s with phase := .followUp }
  | .followUp => { startFollowUp f env s with phase := .wake }
  | .wake => { startWake f channel env s with phase := .read }

/-! ## The waiting threads -/

/-- The next operation of the thread that waited. -/
def supervise (run : Run) (s : State) : Option State :=
  match s.jobs run with
  | some ⟨task, .exited (.failed error)⟩ =>
      some ((s.tryAppend (f.lost .threadEnd) ⟨task, some run, .runFailed, error⟩).setStage run task
        .ended)
  | some ⟨task, .exited (.completed sessionId text)⟩ =>
      match s.read (f.ok .threadSession) with
      | some x =>
          if x.run = some run then some (s.setStage run task (.holding x sessionId text))
          else some (s.setStage run task (.saved text))
      | none => some (s.setStage run task (.saved text))
  | some ⟨task, .holding copy sessionId text⟩ =>
      some ((s.trySave (f.ok .saveThread) { copy with providerSession := sessionId }).setStage run
        task (.saved text))
  | some ⟨task, .saved text⟩ =>
      some ((s.tryAppend (f.lost .threadReply)
        ⟨task, some run, .messageAssistantCompleted, text⟩).setStage run task .replied)
  | some ⟨task, .replied⟩ =>
      some ((s.tryAppend (f.lost .threadEnd) ⟨task, some run, .runCompleted, ""⟩).setStage run task
        .ended)
  | some ⟨_, .ended⟩ => some (s.removeJob run)
  | _ => none

/-! ## A restart -/

/-- `recover_hub_local_assistant`, and whether the hub comes up. -/
def recover (now : DateTime) (s : State) : State × Bool :=
  if f.ok .recoverSession then
    match s.session with
    | none => (s, true)
    | some x =>
        let s := match x.run with
          | some run => s.tryAppend (f.lost .recoverEvent) ⟨x.task, some run, .runInterrupted, ""⟩
          | none => s
        if x.run.isSome ∧ f.ok .recoverEvent = false then (s, false)
        else if x.pendingWake.isSome ∧ f.ok .recoverWake = false then (s, false)
        else
          let s := match x.pendingWake with
            | some id => s.defer now "hub restarted during assessment" id
            | none => s
          (s.trySave (f.ok .saveRecovered) { x with run := none, pendingWake := none },
            f.ok .saveRecovered)
  else (s, false)

/-- A new hub process: what was in memory is gone. -/
def forgotten (s : State) : State :=
  { s with busy := [], jobs := fun _ => none, cursor := 0, phase := .boot }

/-! ## A store that works -/

theorem ok_clean (c : Call) : Faults.clean.ok c = true := rfl

theorem lost_clean (c : Call) : Faults.clean.lost c = false := rfl

theorem deferSessionWake_clean (now : DateTime) (reason : String) (x : Session) (s : State) :
    deferSessionWake .clean now reason x s = s.deferSessionWake now reason x := rfl

theorem submitMessage_clean (x : Session) (s : State) :
    submitMessage .clean x s = (s.append ⟨x.task, x.run, .messageUser, ""⟩, some x) := rfl

theorem submit_clean (acceptance : Acceptance) (s : State) :
    submit .clean acceptance s = s.submit acceptance := by
  unfold submit State.submit
  simp only [ok_clean, lost_clean, submitMessage_clean, Bool.true_eq_false, or_false, and_false,
    and_true, if_false, if_true, and_self]
  by_cases hrun : s.turnSession.run = none ∨ s.turnSession.engine ≠ s.engine
  · rw [if_pos hrun, if_pos hrun]
    rfl
  · rw [if_neg hrun, if_neg hrun]

theorem launch_clean (env : Env) (prompt : Prompt) (x : Session) (run : Run) (s : State) :
    launch .clean env prompt x run s = s.launch env prompt x run := rfl

theorem appendStartFailure_clean (read write : Call) (x : Session) (error : String) (s : State) :
    appendStartFailure .clean read write x error s = s.appendStartFailure x error := by
  unfold appendStartFailure State.appendStartFailure
  cases x.run with
  | none => rfl
  | some run =>
      simp only [ok_clean, true_and]
      rfl

theorem startTurn_clean (env : Env) (prompt : Prompt) (s : State) :
    startTurn .clean env prompt s = s.startTurn env prompt := by
  unfold startTurn State.startTurn
  simp only [submit_clean, launch_clean, appendStartFailure_clean]
  rfl

theorem abandonFollowUp_clean (error : String) (s : State) :
    abandonFollowUp .clean error s = s.abandonFollowUp error := by
  unfold abandonFollowUp State.abandonFollowUp
  simp only [appendStartFailure_clean]
  rfl

theorem startFollowUp_clean (env : Env) (s : State) :
    startFollowUp .clean env s = s.startFollowUp env := by
  unfold startFollowUp State.startFollowUp
  simp only [startTurn_clean, abandonFollowUp_clean, deferSessionWake_clean, ok_clean]
  rfl

theorem startWake_clean (channel : String) (env : Env) (s : State) :
    startWake .clean channel env s = s.startWake channel env := by
  unfold startWake State.startWake
  simp only [submit_clean, appendStartFailure_clean, deferSessionWake_clean, ok_clean, launch_clean]
  rfl

theorem reconcile_clean (now : DateTime) (s : State) :
    reconcile .clean now s = s.reconcile now := by
  unfold reconcile State.reconcile
  simp only [deferSessionWake_clean, ok_clean, true_and]
  rfl

theorem clearCurrentRun_clean (now : DateTime) (engine : String) (s : State) :
    clearCurrentRun .clean now engine s = s.clearCurrentRun now engine := rfl

theorem reset_clean (now : DateTime) (s : State) : reset .clean now s = s.reset now := rfl

theorem stop_clean (now : DateTime) (s : State) : stop .clean now s = s.stop now := by
  have hread : s.read true = s.session := rfl
  unfold stop State.stop State.stopJob
  rw [ok_clean, hread]
  cases s.session with
  | none => rfl
  | some x =>
      dsimp only
      cases x.run with
      | none => rfl
      | some run =>
          dsimp only
          cases s.jobs run with
          | none => rfl
          | some job =>
              obtain ⟨task, stage⟩ := job
              cases stage <;> rfl

theorem handleInput_clean (text : String) (env : Env) (s : State) :
    handleInput .clean text env s = s.handleInput text env := by
  unfold handleInput State.handleInput saved
  simp only [stop_clean, startTurn_clean, clearCurrentRun_clean, reset_clean, ok_clean]
  cases State.readInput text <;> cases s.isBusy <;> rfl

theorem executeReply_clean (h : Handling Action) (e : Event) (envelope : Envelope Action)
    (s : State) : executeReply .clean h e envelope s = s.executeReply h e envelope := by
  unfold executeReply State.executeReply
  simp only [ok_clean, true_and]
  rfl

/-- A follow-up in progress ends, and one that is not stays as it is. -/
theorem endProgress_clean {s : State} (h : s.inProgress = true) :
    endProgress .clean s = s.endProgress := by
  unfold State.inProgress at h
  unfold endProgress State.endProgress
  rw [ok_clean]
  show (match s.session with
    | some x => s.trySave true { x with followUpInProgress := false }
    | none => s) = _
  cases hx : s.session with
  | none => rfl
  | some x =>
      rw [hx, Option.any_some] at h
      dsimp only
      rw [if_pos h]
      rfl

theorem endProgress_idle {s : State} (h : s.inProgress = false) : s.endProgress = s := by
  unfold State.inProgress at h
  unfold State.endProgress
  cases hx : s.session with
  | none => rfl
  | some x =>
      rw [hx, Option.any_some] at h
      dsimp only
      rw [h]
      rfl

theorem processReply_clean (parse : String → Option (Envelope Action)) (h : Handling Action)
    (e : Event) (s : State) : processReply .clean parse h e s = s.processReply parse h e := by
  have hprogress : inProgress .clean s = s.inProgress := rfl
  unfold processReply State.processReply
  cases parse e.text with
  | none => rfl
  | some envelope =>
      dsimp only
      rw [hprogress]
      cases hin : s.inProgress with
      | true =>
          simp only [true_and, if_true]
          split
          · rfl
          · rw [executeReply_clean, endProgress_clean hin]
      | false =>
          simp only [Bool.false_eq_true, false_and, if_false]
          rw [executeReply_clean, endProgress_idle hin]

theorem processEvent_clean (parse : String → Option (Envelope Action)) (h : Handling Action)
    (e : Event) (s : State) : processEvent .clean parse h e s = s.processEvent parse h e := by
  unfold processEvent State.processEvent
  rw [processReply_clean]
  rfl

theorem handleEvent_clean (parse : String → Option (Envelope Action)) (h : Handling Action)
    (e : Event) (s : State) : handleEvent .clean parse h e s = s.handleEvent parse h e := by
  unfold handleEvent State.handleEvent
  rw [processEvent_clean]
  rfl

theorem output_clean (channel : String) (parse : String → Option (Envelope Action)) (env : Env)
    (h : Handling Action) (s : State) :
    output .clean channel parse env h s = s.output channel parse env h := by
  unfold output State.output
  simp only [handleEvent_clean, reconcile_clean, startFollowUp_clean, startWake_clean]
  rfl

theorem supervise_clean (run : Run) (s : State) : supervise .clean run s = s.supervise run := by
  rfl

theorem recover_clean (now : DateTime) (s : State) :
    recover .clean now s = (s.recover now, true) := by
  unfold recover State.recover
  rw [ok_clean, if_pos rfl]
  cases s.session with
  | none => rfl
  | some x =>
      simp only [ok_clean, Bool.true_eq_false, and_false, if_false]
      rfl

end Failing

/-! ## The system -/

/-- A hub that could not recover the assistant is not up, and can only be started again. -/
structure Hub where
  state : State
  up : Bool

namespace Hub

variable {Action : Type*}

/-- A step of the threads, and how its operations go. -/
def stepUp (channel : String) (parse : String → Option (Envelope Action)) (s : State) (f : Faults) :
    Label Action → Option State
  | .input text env => some (Failing.handleInput f text env s)
  | .output env h => some (Failing.output f channel parse env h s)
  | .exits run result => State.exits run result s
  | .supervise run => Failing.supervise f run s
  | .panel engine => some { s with engine := engine }
  | .workerEnded row => State.workerEnded row s
  | .restart _ => none

def step (channel : String) (parse : String → Option (Envelope Action)) (h : Hub)
    (a : Label Action × Faults) : Option Hub :=
  match a.1 with
  | .restart now =>
      let r := Failing.recover a.2 now h.state
      some ⟨Failing.forgotten r.1, r.2⟩
  | l => if h.up then (stepUp channel parse h.state a.2 l).map (⟨·, true⟩) else none

def system (channel : String) (parse : String → Option (Envelope Action)) :
    System Hub (Label Action × Faults) where
  init h := ∃ engine, h = ⟨State.initial engine, true⟩
  step := step channel parse

/-- **Where the store works, a step is one of the threads.** -/
theorem step_clean (channel : String) (parse : String → Option (Envelope Action)) (s : State)
    (l : Label Action) : step channel parse ⟨s, true⟩ (l, .clean) =
      (State.step channel parse s l).map (⟨·, true⟩) := by
  cases l with
  | input text env =>
      exact congrArg (fun t => some (Hub.mk t true)) (Failing.handleInput_clean text env s)
  | output env h =>
      exact congrArg (fun t => some (Hub.mk t true)) (Failing.output_clean channel parse env h s)
  | exits run result => rfl
  | supervise run =>
      exact congrArg (Option.map (Hub.mk · true)) (Failing.supervise_clean run s)
  | panel engine => rfl
  | workerEnded row => rfl
  | restart now =>
      exact congrArg (fun r => some (Hub.mk (Failing.forgotten r.1) r.2))
        (Failing.recover_clean now s)

end Hub

end Stackhour.Claire
