import Mathlib.Logic.Function.Basic
import Stackhour.Core.Text
import Stackhour.Domain.Wakes

/-!
# Claire's turns

The assistant's session, her turns and what her replies do. The functions here run
under the turn gate. A record beside the state keeps what became of every turn,
every batch of action results and every completed wake; no function reads it.
-/

namespace Stackhour.Claire

open Core Domain

/-! ## The session and its events -/

/-- Runs are numbered as they are minted, and so are tasks. -/
abbrev Run := ℕ

abbrev Task := ℕ

/-- `pending_follow_up`, with the run whose reply it reports on; the code keeps the
text alone. -/
structure FollowUp where
  source : Option Run
  text : String
deriving DecidableEq

/-- `AssistantSession`. -/
structure Session where
  task : Task
  run : Option Run
  engine : String
  providerSession : Option String
  pendingWake : Option EventId
  pendingFollowUp : Option FollowUp
  followUpInProgress : Bool

/-- What a turn is asked. -/
inductive Prompt where
  | user (text : String)
  | wake (id : EventId)
  | followUp (b : FollowUp)

/-- An event of one of the assistant's tasks, with the text of its payload: a reply
or an error. -/
structure Event where
  task : Task
  run : Option Run
  kind : EventKind
  text : String

/-- The kinds that end a run. -/
def isTerminal : EventKind → Bool
  | .runCompleted | .runFailed | .runInterrupted => true
  | _ => false

/-! ## The provider's processes -/

/-- How a process ends. -/
inductive ProcessEnd where
  | completed (sessionId : Option String) (text : String)
  | failed (error : String)

/-- Where a process and the thread that waits for it have come to. `holding` has
read the session and not yet saved it. -/
inductive Stage where
  | running
  | stopped
  | exited (result : ProcessEnd)
  | holding (copy : Session) (sessionId : Option String) (text : String)
  | saved (text : String)
  | replied
  | ended

structure Job where
  task : Task
  stage : Stage

/-! ## The state -/

/-- Where the output loop is: up to which event it goes on, and which event it has
taken for the assistant. -/
inductive Phase where
  | boot
  | read
  | events (upto : ℕ)
  | handle (upto : ℕ) (e : Event)
  | reconcile
  | followUp
  | wake

/-- Why a batch of results is not submitted. -/
inductive Cause where
  | stopped
  | conversationReset
  | reconfigured
  | runFailed
  | startFailed
  | overwritten
  | malformedReply
  | refusedReply
deriving DecidableEq

/-- A wake marked complete: on which reply, what was shown of it, whether that was
sent, and what the session then had pending. -/
structure Completion where
  wake : EventId
  reply : Event
  shown : Option String
  sent : Bool
  pending : Option FollowUp

/-- A `turn` is a process that was started; a wake is `queued` by a worker's end. -/
inductive Happening where
  | queued (wake : EventId)
  | turn (run : Run) (prompt : Prompt)
  | executed (run : Option Run) (results : List String)
  | refused (run : Option Run)
  | dropped (b : FollowUp) (cause : Cause)
  | completed (c : Completion)

/-- The durable state, the engine of the settings, the memory of the process, and
the record. -/
structure State where
  session : Option Session
  log : List Event
  wakes : List WakeRow
  tasks : ℕ
  runs : ℕ
  engine : String
  busy : List Run
  jobs : Run → Option Job
  cursor : ℕ
  phase : Phase
  record : List Happening

/-- How a turn is taken: its settings are not read, its run is refused, or neither. -/
inductive Acceptance where
  | unread
  | refused
  | accepted
deriving DecidableEq

/-- What a turn meets: the clock, how it is taken, the error of reading the settings again, and
whether the thread for its process is started. -/
structure Env where
  now : DateTime
  acceptance : Acceptance
  settings : Option String
  spawned : Bool
  detail : String

/-! ## What the functions take and give -/

/-- How starting a turn went. -/
inductive Started where
  | refused
  | failed (error : String)
  | running

/-- What a message asks for. A `quiet` one changes no turn. -/
inductive Input where
  | quiet
  | engine (name : String)
  | reset
  | stop
  | model
  | turn (text : String)

/-- `ClaireEnvelope`. -/
structure Envelope (Action : Type*) where
  notify : Bool
  reply : String
  remember : List String
  actions : List Action

/-- What an event meets: the error of each memory note, the result or error of each
action, and whether a message is sent. -/
structure Handling (Action : Type*) where
  now : DateTime
  remember : String → Option String
  execute : Action → Except String String
  sent : Bool

/-- `ClaireProjection`. -/
structure Projection where
  reply : Option String
  wake : Option EventId
  awaiting : Bool

namespace State

def append (s : State) (e : Event) : State := { s with log := s.log ++ [e] }

def save (s : State) (x : Session) : State := { s with session := some x }

def note (s : State) (h : Happening) : State := { s with record := s.record ++ [h] }

/-- Results that are pending are given up. -/
def drop (cause : Cause) (x : Session) (s : State) : State :=
  match x.pendingFollowUp with
  | some b => s.note (.dropped b cause)
  | none => s

/-! ## Wakes -/

/-- The wakes after `defer_assistant_wake`. -/
def deferred (now : DateTime) (error : String) (id : EventId) (wakes : List WakeRow) :
    List WakeRow :=
  match wakes.find? (Store.openWake id) with
  | none => wakes
  | some wake => wakes.map (fun w =>
      if Store.openWake id w then Store.deferred ⟨now, 0, none⟩ error wake.attemptCount w else w)

/-- The wakes after `complete_assistant_wake`. -/
def completed (now : DateTime) (id : EventId) (wakes : List WakeRow) : List WakeRow :=
  wakes.map (fun w =>
    if Store.openWake id w then { w with processedAt := some (fmtTime now) } else w)

/-- `pending_assistant_wakes`. -/
def pendingWakes (channel : String) (now : DateTime) (wakes : List WakeRow) : List WakeRow :=
  (wakes.filter (fun w => decide (w.channel = channel ∧ w.processedAt = none ∧
    w.nextAttemptAt ≤ fmtTime now))).insertionSort (fun a b : WakeRow => a.sequence ≤ b.sequence)

def firstWake (channel : String) (now : DateTime) (wakes : List WakeRow) : Option EventId :=
  (pendingWakes channel now wakes).head?.map WakeRow.eventId

/-- The wakes of the assistant are those of the store. -/
theorem deferred_eq (env : CallEnv) (s : Store) (id : EventId) (error : String) :
    (StoreCall.deferAssistantWake id error).wakesAfter env s =
      deferred env.now error id s.wakes := rfl

theorem completed_eq (env : CallEnv) (s : Store) (id : EventId) :
    (StoreCall.completeAssistantWake id).wakesAfter env s = completed env.now id s.wakes := rfl

def defer (now : DateTime) (error : String) (id : EventId) (s : State) : State :=
  { s with wakes := deferred now error id s.wakes }

def complete (now : DateTime) (id : EventId) (s : State) : State :=
  { s with wakes := completed now id s.wakes }

/-- The session no longer waits for a wake. -/
def clearWake (id : EventId) (s : State) : State :=
  match s.session with
  | some x => if x.pendingWake = some id then s.save { x with pendingWake := none } else s
  | none => s

/-- `defer_session_wake`. -/
def deferSessionWake (now : DateTime) (reason : String) (x : Session) (s : State) : State :=
  match x.pendingWake with
  | some id => (s.defer now reason id).clearWake id
  | none => s

/-! ## Starting a turn -/

/-- `task_events`. -/
def taskEvents (s : State) (task : Task) : List Event :=
  let events := s.log.filter (fun e => decide (e.task = task))
  events.drop (events.length - 200)

/-- A terminal event of the run is among the events of its task. -/
def terminalIsDurable (s : State) (task : Task) (run : Run) : Bool :=
  (s.taskEvents task).any (fun e => decide (e.run = some run) && isTerminal e.kind)

/-- The session, or one with a new task. -/
def turnSession (s : State) : Session :=
  s.session.getD ⟨s.tasks, none, s.engine, none, none, none, false⟩

/-- The task of a session that is not there yet. -/
def openTask (s : State) : State :=
  match s.session with
  | some _ => s
  | none => { s with tasks := s.tasks + 1 }.append ⟨s.tasks, none, .taskCreated, ""⟩

/-- The session with a new run of the engine of the settings. -/
def newRun (s : State) : Session :=
  let x := s.turnSession
  { x with
    run := some s.runs
    engine := s.engine
    providerSession := if x.engine = s.engine then x.providerSession else none }

/-- `submit_claire_prompt`; no session when the turn is not taken. -/
def submit (acceptance : Acceptance) (s : State) : State × Option Session :=
  let x := s.turnSession
  if acceptance = .unread then (s, none)
  else if x.run = none ∨ x.engine ≠ s.engine then
    if acceptance = .accepted then
      let y := s.newRun
      ((({ s.openTask with runs := s.runs + 1 }.append ⟨x.task, y.run, .runStarted, ""⟩).save
        y).append ⟨x.task, y.run, .messageUser, ""⟩, some y)
    else (s.openTask, none)
  else (s.append ⟨x.task, x.run, .messageUser, ""⟩, some x)

/-- `ClaireRunner::start`; the error of a turn that is not started. -/
def launch (env : Env) (prompt : Prompt) (x : Session) (run : Run) (s : State) :
    State × Option String :=
  if (s.jobs run).isSome then (s, some "Claire already has a turn running")
  else if s.engine ≠ "claude" ∧ s.engine ≠ "codex" then
    (s, some "Claire's engine must be claude or codex")
  else if !env.spawned then
    let error := "cannot start Claire supervisor: " ++ env.detail
    (s.append ⟨x.task, some run, .runFailed, error⟩, some error)
  else ({ s with jobs := Function.update s.jobs run (some ⟨x.task, .running⟩) }.note
    (.turn run prompt), none)

/-- `append_claire_start_failure`. -/
def appendStartFailure (x : Session) (error : String) (s : State) : State :=
  match x.run with
  | some run =>
      if s.terminalIsDurable x.task run then s else s.append ⟨x.task, some run, .runFailed, error⟩
  | none => s

def insertBusy (run : Run) (s : State) : State := { s with busy := s.busy.insert run }

def removeBusy (run : Run) (s : State) : State :=
  { s with busy := s.busy.filter (fun r => decide (r ≠ run)) }

/-- `start_claire_turn`. -/
def startTurn (env : Env) (prompt : Prompt) (s : State) : State × Started :=
  match submit env.acceptance s with
  | (s, none) => (s, .refused)
  | (s, some x) =>
      match x.run with
      | none => (s, .failed "Claire's hub-local run is missing")
      | some run =>
          match env.settings with
          | some error =>
              (((s.insertBusy run).removeBusy run).append ⟨x.task, some run, .runFailed, error⟩,
                .failed error)
          | none =>
              match launch env prompt x run (s.insertBusy run) with
              | (s, none) => (s, .running)
              | (s, some error) => (appendStartFailure x error (s.removeBusy run), .failed error)

/-! ## The steps of the output loop -/

/-- A follow-up that could not be started leaves nothing behind. -/
def abandonFollowUp (error : String) (s : State) : State :=
  match s.session with
  | some current =>
      let s := if current.run.isSome then appendStartFailure current error s else s
      s.save { current with pendingFollowUp := none, followUpInProgress := false }
  | none => s

/-- `start_pending_claire_follow_up`. -/
def startFollowUp (env : Env) (s : State) : State :=
  if s.busy ≠ [] then s
  else match s.session with
    | none => s
    | some x =>
        match x.pendingFollowUp with
        | none => s
        | some b =>
            let y := { x with pendingFollowUp := none, followUpInProgress := true }
            let reason := "action-result follow-up failed to start"
            let failed := fun (error : String) (s : State) =>
              ((abandonFollowUp error s).note (.dropped b .startFailed)).deferSessionWake env.now
                reason y
            match startTurn env (.followUp b) (s.save y) with
            | (s, .running) => s
            | (s, .failed error) => failed error s
            | (s, .refused) => failed env.detail s

/-- `wake_claire_for_pending_worker`. -/
def startWake (channel : String) (env : Env) (s : State) : State :=
  if s.busy ≠ [] then s
  else match firstWake channel env.now s.wakes with
    | none => s
    | some id =>
        match submit env.acceptance s with
        | (s, none) => s.defer env.now env.detail id
        | (s, some x) =>
            let y := { x with pendingWake := some id }
            match y.run with
            | none => (s.save y).deferSessionWake env.now "Claire run was not created" y
            | some run =>
                let s := (s.save y).insertBusy run
                match env.settings with
                | some error => (s.removeBusy run).deferSessionWake env.now error y
                | none =>
                    match launch env (.wake id) y run s with
                    | (s, none) => s
                    | (s, some error) =>
                        (appendStartFailure y error (s.removeBusy run)).deferSessionWake env.now
                          error y

/-- `ClaireRunner::is_running`. -/
def isRunning (s : State) (run : Run) : Bool := (s.jobs run).isSome

/-- `reconcile_claire_runner`. -/
def reconcile (now : DateTime) (s : State) : State :=
  match s.session with
  | none => s
  | some x =>
      match x.run with
      | none => s
      | some run =>
          if run ∉ s.busy ∨ s.isRunning run = true ∨ s.terminalIsDurable x.task run = true then s
          else
            let error := "assistant process exited without a durable terminal event"
            (s.deferSessionWake now error x).append ⟨x.task, some run, .runFailed, error⟩

/-! ## What the user says -/

/-- `validate_selector`. -/
def validSelector (value : String) : Bool :=
  value != "" && decide (Hub.utf8Len value ≤ 200) &&
    value.toList.all (fun c => Hub.isAsciiAlphanumeric c || ['.', '_', '-', '/', ':'].contains c)

def trimmed (text : String) : String := String.ofList (trim text.toList)

/-- The commands of `handle_claire_input`. -/
def readInput (text : String) : Input :=
  let text := trimmed text
  if ["/help", "/start", "/where", "/model"].contains text then .quiet
  else if text = "/claude" then .engine "claude"
  else if text = "/codex" then .engine "codex"
  else if text = "/new" then .reset
  else if text = "/stop" then .stop
  else if text = "/tasks" then
    .turn "Review current Stackhour task activity and decide what is useful to tell Nikita."
  else if "/model ".toList.isPrefixOf text.toList then
    let name := trimStartMatches "/model ".toList text.length text.toList
    if validSelector (trimmed (String.ofList name)) then .model else .quiet
  else if text.toList.head? = some '/' then .quiet
  else .turn text

/-- The session's own turn is running. -/
def isBusy (s : State) : Bool :=
  match s.session.bind Session.run with
  | some run => s.busy.contains run
  | none => false

/-- `clear_current_run`. -/
def clearCurrentRun (now : DateTime) (engine : String) (s : State) : State :=
  match s.session with
  | none => s
  | some x =>
      ((s.deferSessionWake now "assistant configuration changed" x).drop .reconfigured x).save
        ⟨x.task, none, engine, none, none, none, false⟩

/-- `/new`. -/
def reset (now : DateTime) (s : State) : State :=
  match s.session with
  | none => s
  | some x =>
      { (s.deferSessionWake now "conversation reset" x).drop .conversationReset x with
        session := none }

/-- `ClaireRunner::stop`: a process that has not exited is told to. -/
def stopJob (x : Session) (run : Run) (s : State) : Option State :=
  match s.jobs run with
  | some ⟨task, .running⟩ =>
      some ({ s with jobs := Function.update s.jobs run (some ⟨task, .stopped⟩) }.append
        ⟨x.task, some run, .runInterrupted, ""⟩)
  | _ => none

/-- `/stop`. -/
def stop (now : DateTime) (s : State) : State :=
  match s.session with
  | none => s
  | some x =>
      match x.run with
      | none => s
      | some run =>
          match stopJob x run s with
          | none => s
          | some s =>
              (((s.deferSessionWake now "assessment stopped by user" x).removeBusy run).drop
                .stopped x).save ⟨x.task, none, x.engine, none, none, none, false⟩

/-- `handle_claire_input`. -/
def handleInput (text : String) (env : Env) (s : State) : State :=
  match readInput text with
  | .quiet => s
  | .stop => stop env.now s
  | .engine name => if s.isBusy then s else clearCurrentRun env.now name { s with engine := name }
  | .model => if s.isBusy then s else clearCurrentRun env.now s.engine s
  | .reset => if s.isBusy then s else reset env.now s
  | .turn text => if s.isBusy then s else (startTurn env (.user text) s).1

/-! ## Replies -/

variable {Action : Type*}

/-- The results of a reply's notes and actions; a note that is kept has none. -/
def actionResults (h : Handling Action) (envelope : Envelope Action) : List String :=
  envelope.remember.filterMap (fun note => (h.remember note).map ("Memory action failed: " ++ ·)) ++
    envelope.actions.map (fun action => match h.execute action with
      | .ok result => result
      | .error error => "Action failed: " ++ error)

/-- The prompt of the follow-up. -/
def followUpText (results : List String) : String :=
  "Internal Stackhour action results:\n" ++ "\n".intercalate results ++
    "\n\nReassess now and make the final notify/reply decision. Do not claim anything beyond " ++
    "these results."

/-- A reply that is not acted on: the turn is over, and its wake is assessed again. -/
def rejectReply (now : DateTime) (cause : Cause) (reason message : String) (s : State) :
    State × Projection :=
  match s.session with
  | none => (s, ⟨some message, none, false⟩)
  | some x =>
      let y := { x with pendingFollowUp := none, followUpInProgress := false }
      (((s.drop cause x).save y).deferSessionWake now reason y,
        ⟨if x.pendingWake.isSome then none else some message, none, false⟩)

def inProgress (s : State) : Bool := s.session.any Session.followUpInProgress

def pendingWake (s : State) : Option EventId := s.session.bind Session.pendingWake

/-- What is shown of a reply without results. -/
def shown (envelope : Envelope Action) : Option String :=
  if envelope.notify ∧ trim envelope.reply.toList ≠ [] then some envelope.reply else none

def endProgress (s : State) : State :=
  match s.session with
  | some x => if x.followUpInProgress then s.save { x with followUpInProgress := false } else s
  | none => s

/-- Results wait for their follow-up. -/
def setFollowUp (b : FollowUp) (s : State) : State :=
  match s.session with
  | some x => (s.drop .overwritten x).save { x with pendingFollowUp := some b }
  | none => s

/-- The notes and actions of a reply, and its results. -/
def executeReply (h : Handling Action) (e : Event) (envelope : Envelope Action) (s : State) :
    State × Projection :=
  let results := actionResults h envelope
  let s := if envelope.remember ≠ [] ∨ ¬ envelope.actions.isEmpty then
    s.note (.executed e.run results) else s
  if results = [] then (s, ⟨shown envelope, s.pendingWake, false⟩)
  else
    let s := s.setFollowUp ⟨e.run, followUpText results⟩
    (s, ⟨none, s.pendingWake, true⟩)

/-- A completed message; `parse` is `parse_claire_envelope`. -/
def processReply (parse : String → Option (Envelope Action)) (h : Handling Action) (e : Event)
    (s : State) : State × Projection :=
  match parse e.text with
  | none =>
      rejectReply h.now .malformedReply "Claire returned a malformed envelope"
        "Claire returned an invalid response. Please try again." s
  | some envelope =>
      if s.inProgress ∧ (envelope.remember ≠ [] ∨ ¬ envelope.actions.isEmpty) then
        rejectReply h.now .refusedReply "Claire requested another action during final disclosure"
          "Claire couldn't finalize that turn. Please try again." (s.note (.refused e.run))
      else executeReply h e envelope s.endProgress

/-- The event's run is over, with its turn. -/
def endTurn (now : DateTime) (reason : String) (e : Event) (s : State) : State :=
  match s.session with
  | none => s
  | some x =>
      if x.run = e.run then
        let s := match x.pendingWake with
          | some id => s.defer now reason id
          | none => s
        (s.drop .runFailed x).save
          ⟨x.task, none, x.engine, x.providerSession, none, none, false⟩
      else s

/-- The event's run is over, and what it left waits. -/
def endRun (e : Event) (s : State) : State :=
  match s.session with
  | none => s
  | some x => if x.run = e.run then s.save { x with run := none } else s

def freeRun (e : Event) (s : State) : State :=
  match e.run with
  | some run => s.removeBusy run
  | none => s

/-- `process_claire_event`. -/
def processEvent (parse : String → Option (Envelope Action)) (h : Handling Action) (e : Event)
    (s : State) : State × Projection :=
  match e.kind with
  | .messageAssistantCompleted => processReply parse h e s
  | .runFailed =>
      let matched := s.session.any (fun x => decide (x.run = e.run) && x.pendingWake.isNone)
      (endTurn h.now e.text e (freeRun e s),
        ⟨if matched then some "Claire couldn't finish that turn. Please try again." else none,
          none, false⟩)
  | .runInterrupted =>
      (endTurn h.now "assessment interrupted" e (freeRun e s), ⟨none, none, false⟩)
  | .runCompleted => (endRun e (freeRun e s), ⟨none, none, false⟩)
  | _ => (s, ⟨none, none, false⟩)

/-- `handle_claire_event`. -/
def handleEvent (parse : String → Option (Envelope Action)) (h : Handling Action) (e : Event)
    (s : State) : State :=
  let r := processEvent parse h e s
  let delivered := r.2.reply.isNone || h.sent
  match r.2.wake with
  | none => r.1
  | some id =>
      if delivered then
        if r.2.awaiting then r.1
        else
          let pending := r.1.session.bind Session.pendingFollowUp
          ((r.1.complete h.now id).note (.completed ⟨id, e, r.2.reply, h.sent, pending⟩)).clearWake
            id
      else (r.1.defer h.now "Telegram delivery failed" id).clearWake id

/-! ## A restart -/

/-- `recover_hub_local_assistant`. -/
def recover (now : DateTime) (s : State) : State :=
  match s.session with
  | none => s
  | some x =>
      let s := match x.run with
        | some run => s.append ⟨x.task, some run, .runInterrupted, ""⟩
        | none => s
      let s := match x.pendingWake with
        | some id => s.defer now "hub restarted during assessment" id
        | none => s
      s.save { x with run := none, pendingWake := none }

/-! ## What starting a turn does -/

/-- An event that neither ends a run nor replies. -/
def Mute (e : Event) : Prop := isTerminal e.kind = false ∧ e.kind ≠ .messageAssistantCompleted

/-- Mute events of a run were written, or of none. -/
structure Writes (r : Option Run) (s t : State) : Prop where
  log : ∃ events, t.log = s.log ++ events ∧ ∀ e ∈ events, Mute e ∧ (e.run = none ∨ e.run = r)
  wakes : t.wakes = s.wakes
  engine : t.engine = s.engine
  busy : t.busy = s.busy
  jobs : t.jobs = s.jobs
  cursor : t.cursor = s.cursor
  phase : t.phase = s.phase
  record : t.record = s.record

/-- A turn was taken on a run: a new one, or that of the session. -/
structure Submitted (s t : State) (x : Session) (r : Run) : Prop extends Writes (some r) s t where
  session : t.session = some x
  run : x.run = some r
  rest : (x.task, x.pendingWake, x.pendingFollowUp, x.followUpInProgress) =
    (s.turnSession.task, s.turnSession.pendingWake, s.turnSession.pendingFollowUp,
      s.turnSession.followUpInProgress)
  fresh : (r = s.runs ∧ t.runs = s.runs + 1) ∨
    (t.runs = s.runs ∧ s.session = some x ∧ x.engine = s.engine)

/-- A turn was not taken. -/
structure Untaken (s t : State) : Prop extends Writes none s t where
  session : t.session = s.session
  runs : t.runs = s.runs

theorem openTask_untaken (s : State) : Untaken s s.openTask := by
  unfold openTask
  split
  · exact ⟨⟨⟨[], by simp⟩, rfl, rfl, rfl, rfl, rfl, rfl, rfl⟩, rfl, rfl⟩
  · refine ⟨⟨⟨[_], rfl, ?_⟩, rfl, rfl, rfl, rfl, rfl, rfl, rfl⟩, rfl, rfl⟩
    intro e he
    rw [List.mem_singleton.mp he]
    exact ⟨⟨rfl, by simp⟩, .inl rfl⟩

theorem submit_cases (acceptance : Acceptance) (s : State) :
    (∃ t, submit acceptance s = (t, none) ∧ Untaken s t) ∨
      ∃ t x r, submit acceptance s = (t, some x) ∧ Submitted s t x r := by
  unfold submit
  dsimp only
  split
  · exact .inl ⟨s, rfl, ⟨⟨[], by simp⟩, rfl, rfl, rfl, rfl, rfl, rfl, rfl⟩, rfl, rfl⟩
  · split
    · split
      · refine .inr ⟨_, _, s.runs, rfl, ?_⟩
        obtain ⟨events, hlog, hevents⟩ := (openTask_untaken s).log
        have hopen := openTask_untaken s
        refine ⟨⟨⟨events ++ [⟨s.turnSession.task, some s.runs, .runStarted, ""⟩,
          ⟨s.turnSession.task, some s.runs, .messageUser, ""⟩], ?_, ?_⟩, hopen.wakes, hopen.engine,
          hopen.busy, hopen.jobs, hopen.cursor, hopen.phase, hopen.record⟩, rfl, rfl, rfl,
          .inl ⟨rfl, rfl⟩⟩
        · show (s.openTask.log ++ [_]) ++ [_] = _
          rw [hlog, List.append_assoc, List.append_assoc]
          rfl
        · intro e he
          rcases List.mem_append.mp he with he | he
          · obtain ⟨hmute, hrun⟩ := hevents e he
            exact ⟨hmute, .inl (hrun.elim id id)⟩
          · rcases List.mem_cons.mp he with rfl | he
            · exact ⟨⟨rfl, by simp⟩, .inr rfl⟩
            · rw [List.mem_singleton.mp he]
              exact ⟨⟨rfl, by simp⟩, .inr rfl⟩
      · exact .inl ⟨_, rfl, openTask_untaken s⟩
    · next hkept =>
        obtain ⟨hrun, hengine⟩ := not_or.mp hkept
        obtain ⟨r, hr⟩ := Option.ne_none_iff_exists'.mp hrun
        have hsession : s.session = some s.turnSession := by
          cases hs : s.session with
          | none =>
              have hnone : s.turnSession.run = none := by
                unfold turnSession
                rw [hs]
                rfl
              exact absurd hnone hrun
          | some x =>
              unfold turnSession
              rw [hs]
              rfl
        refine .inr ⟨_, _, r, rfl, ⟨⟨[_], rfl, ?_⟩, rfl, rfl, rfl, rfl, rfl, rfl, rfl⟩, hsession, hr,
          rfl, .inr ⟨rfl, hsession, not_not.mp hengine⟩⟩
        intro e he
        rw [List.mem_singleton.mp he]
        exact ⟨⟨rfl, by simp⟩, .inr hr⟩

/-- A turn that was taken did not start: its run has failed, or nothing was written. -/
structure Unstarted (s t : State) (r : Run) : Prop where
  log : ∃ events, t.log = s.log ++ events ∧
    ∀ e ∈ events, e.run = some r ∧ e.kind = .runFailed
  session : t.session = s.session
  wakes : t.wakes = s.wakes
  runs : t.runs = s.runs
  engine : t.engine = s.engine
  busy : t.busy = s.busy.filter (fun r' => decide (r' ≠ r))
  jobs : t.jobs = s.jobs
  cursor : t.cursor = s.cursor
  phase : t.phase = s.phase
  record : t.record = s.record

/-- The process of a turn runs. -/
def begun (prompt : Prompt) (task : Task) (r : Run) (s : State) : State :=
  { s.insertBusy r with jobs := Function.update s.jobs r (some ⟨task, .running⟩) }.note
    (.turn r prompt)

theorem insert_filter (busy : List Run) (r : Run) :
    (busy.insert r).filter (fun r' => decide (r' ≠ r)) = busy.filter (fun r' => decide (r' ≠ r)) := by
  unfold List.insert
  split
  · rfl
  · rw [List.filter_cons]
    simp

theorem launch_cases (env : Env) (prompt : Prompt) (x : Session) (r : Run) (s : State) :
    (launch env prompt x r (s.insertBusy r) = (begun prompt x.task r s, none) ∧ s.jobs r = none ∧
        env.spawned = true) ∨
      ∃ t error, launch env prompt x r (s.insertBusy r) = (t, some error) ∧
        ∀ y, y.run = some r → Unstarted s (appendStartFailure y error (t.removeBusy r)) r := by
  have hfailure : ∀ (events : List Event) {u : State} {y : Session} {error : String},
      y.run = some r → u.log = s.log ++ events →
      (∀ e ∈ events, e.run = some r ∧ e.kind = .runFailed) → u.session = s.session →
      u.wakes = s.wakes → u.runs = s.runs → u.engine = s.engine → u.busy = s.busy.insert r →
      u.jobs = s.jobs → u.cursor = s.cursor → u.phase = s.phase → u.record = s.record →
      Unstarted s (appendStartFailure y error (u.removeBusy r)) r := by
    intro events u y error hy hlog hevents h1 h2 h3 h4 h5 h6 h7 h8 h9
    have hbusy : u.busy.filter (fun r' => decide (r' ≠ r)) =
        s.busy.filter (fun r' => decide (r' ≠ r)) := by
      rw [h5, insert_filter]
    unfold appendStartFailure
    rw [hy]
    dsimp only
    split
    · exact ⟨⟨events, hlog, hevents⟩, h1, h2, h3, h4, hbusy, h6, h7, h8, h9⟩
    · refine ⟨⟨events ++ [⟨y.task, some r, .runFailed, error⟩], ?_, ?_⟩, h1, h2, h3, h4, hbusy, h6,
        h7, h8, h9⟩
      · show u.log ++ _ = _
        rw [hlog, List.append_assoc]
      · intro e he
        rcases List.mem_append.mp he with he | he
        · exact hevents e he
        · rw [List.mem_singleton.mp he]
          exact ⟨rfl, rfl⟩
  unfold launch
  split
  · exact .inr ⟨_, _, rfl, fun y hy => hfailure [] hy (by simp [insertBusy]) (by simp)
      rfl rfl rfl rfl rfl rfl rfl rfl rfl⟩
  · next hjob =>
      split
      · exact .inr ⟨_, _, rfl, fun y hy => hfailure [] hy (by simp [insertBusy])
          (by simp) rfl rfl rfl rfl rfl rfl rfl rfl rfl⟩
      · split
        · refine .inr ⟨_, _, rfl, fun y hy => hfailure
            [⟨x.task, some r, .runFailed, _⟩] hy rfl ?_ rfl rfl rfl rfl rfl rfl rfl
            rfl rfl⟩
          intro e he
          rw [List.mem_singleton.mp he]
          exact ⟨rfl, rfl⟩
        · next hspawned =>
            refine .inl ⟨rfl, ?_, by simpa using hspawned⟩
            simpa [insertBusy] using hjob

/-- A turn is not taken, or it is taken on a run; then its process runs, or the run has
failed. -/
theorem startTurn_cases (env : Env) (prompt : Prompt) (s : State) :
    (∃ t, startTurn env prompt s = (t, .refused) ∧ Untaken s t) ∨
      ∃ t x r, Submitted s t x r ∧
        ((startTurn env prompt s = (begun prompt x.task r t, .running) ∧ t.jobs r = none ∧
            env.settings = none ∧ env.spawned = true) ∨
          ∃ u error, startTurn env prompt s = (u, .failed error) ∧ Unstarted t u r) := by
  unfold startTurn
  rcases submit_cases env.acceptance s with ⟨t, hsubmit, ht⟩ | ⟨t, x, r, hsubmit, ht⟩
  · rw [hsubmit]
    exact .inl ⟨t, rfl, ht⟩
  · refine .inr ⟨t, x, r, ht, ?_⟩
    rw [hsubmit]
    dsimp only
    rw [ht.run]
    dsimp only
    cases hsettings : env.settings with
    | some error =>
        refine .inr ⟨_, error, rfl, ⟨[⟨x.task, some r, .runFailed, error⟩], rfl, ?_⟩, rfl, rfl, rfl,
          rfl, insert_filter t.busy r, rfl, rfl, rfl, rfl⟩
        intro e he
        rw [List.mem_singleton.mp he]
        exact ⟨rfl, rfl⟩
    | none =>
        dsimp only
        rcases launch_cases env prompt x r t with ⟨hlaunch, hjob, hspawned⟩ | ⟨u, error, hlaunch, hu⟩
        · rw [hlaunch]
          exact .inl ⟨rfl, hjob, rfl, hspawned⟩
        · rw [hlaunch]
          exact .inr ⟨_, error, rfl, hu x ht.run⟩

end State

end Stackhour.Claire
