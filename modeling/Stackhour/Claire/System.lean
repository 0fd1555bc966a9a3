import Stackhour.Claire.Turns
import Stackhour.Lib.System

/-!
# Claire's threads

The input thread, the output loop and the threads that wait for provider processes.
A step of the first two is what they do under the turn gate; the output loop chooses
the assistant's events before it takes the gate. A waiting thread takes no gate:
each of its operations on the store is a step.
-/

namespace Stackhour.Claire

open Domain TransitionSystem

variable {Action : Type*}

inductive Label (Action : Type*) where
  | input (text : String) (env : Env)
  | output (env : Env) (h : Handling Action)
  | exits (run : Run) (result : ProcessEnd)
  | supervise (run : Run)
  | panel (engine : String)
  | workerEnded (row : WakeRow)
  | restart (now : DateTime)

namespace State

/-! ## The output loop -/

/-- The loop takes an event for the assistant's. -/
def isClaire (s : State) (e : Event) : Bool :=
  s.session.any (fun x => decide (x.task = e.task) &&
    (e.run.isNone || decide (e.run = x.run)))

/-- The next operation of the output loop. -/
def output (channel : String) (parse : String → Option (Envelope Action)) (env : Env)
    (h : Handling Action) (s : State) : State :=
  match s.phase with
  | .boot => { s with cursor := s.log.length, phase := .read }
  | .read => { s with phase := .events s.log.length }
  | .events upto =>
      if upto ≤ s.cursor then { s with phase := .reconcile }
      else match s.log[s.cursor]? with
        | some e =>
            { s with
              cursor := s.cursor + 1
              phase := if s.isClaire e then .handle upto e else .events upto }
        | none => { s with phase := .reconcile }
  | .handle upto e => { handleEvent parse h e s with phase := .events upto }
  | .reconcile => { reconcile env.now s with phase := .followUp }
  | .followUp => { startFollowUp env s with phase := .wake }
  | .wake => { startWake channel env s with phase := .read }

/-! ## The waiting threads -/

def setStage (run : Run) (task : Task) (stage : Stage) (s : State) : State :=
  { s with jobs := Function.update s.jobs run (some ⟨task, stage⟩) }

def removeJob (run : Run) (s : State) : State :=
  { s with jobs := Function.update s.jobs run none }

/-- A process ends; one that was told to stop leaves no result. -/
def exits (run : Run) (result : ProcessEnd) (s : State) : Option State :=
  match s.jobs run with
  | some ⟨task, .running⟩ => some (s.setStage run task (.exited result))
  | some ⟨_, .stopped⟩ => some (s.removeJob run)
  | _ => none

/-- The next operation of the thread that waited. -/
def supervise (run : Run) (s : State) : Option State :=
  match s.jobs run with
  | some ⟨task, .exited (.failed error)⟩ =>
      some ((s.append ⟨task, some run, .runFailed, error⟩).setStage run task .ended)
  | some ⟨task, .exited (.completed sessionId text)⟩ =>
      match s.session with
      | some x =>
          if x.run = some run then some (s.setStage run task (.holding x sessionId text))
          else some (s.setStage run task (.saved text))
      | none => some (s.setStage run task (.saved text))
  | some ⟨task, .holding copy sessionId text⟩ =>
      some ((s.save { copy with providerSession := sessionId }).setStage run task (.saved text))
  | some ⟨task, .saved text⟩ =>
      some ((s.append ⟨task, some run, .messageAssistantCompleted, text⟩).setStage run task
        .replied)
  | some ⟨task, .replied⟩ =>
      some ((s.append ⟨task, some run, .runCompleted, ""⟩).setStage run task .ended)
  | some ⟨_, .ended⟩ => some (s.removeJob run)
  | _ => none

/-! ## The system -/

/-- A new hub process: what was in memory is gone. -/
def restart (now : DateTime) (s : State) : State :=
  { recover now s with busy := [], jobs := fun _ => none, cursor := 0, phase := .boot }

/-- A worker's end is owed an assessment. -/
def workerEnded (row : WakeRow) (s : State) : Option State :=
  if row.processedAt = none ∧ row.eventId ∉ s.wakes.map WakeRow.eventId then
    some ({ s with wakes := s.wakes ++ [row] }.note (.queued row.eventId))
  else none

def step (channel : String) (parse : String → Option (Envelope Action)) (s : State) :
    Label Action → Option State
  | .input text env => some (handleInput text env s)
  | .output env h => some (output channel parse env h s)
  | .exits run result => exits run result s
  | .supervise run => supervise run s
  | .panel engine => some { s with engine := engine }
  | .workerEnded row => workerEnded row s
  | .restart now => some (restart now s)

/-- The first start of a hub, with an engine in its settings. -/
def initial (engine : String) : State :=
  ⟨none, [], [], 0, 0, engine, [], fun _ => none, 0, .boot, []⟩

def system (channel : String) (parse : String → Option (Envelope Action)) :
    System State (Label Action) where
  init s := ∃ engine, s = initial engine
  step := step channel parse

end State

end Stackhour.Claire
