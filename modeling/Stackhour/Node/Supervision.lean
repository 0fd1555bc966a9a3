import Stackhour.Node.Commands

/-!
# Interrupting prompts

The engine with the processes of its prompts. A stop marks the run and then
signals the process registered for it; the supervisor of a process takes the
mark when the process has ended. Mark and registration are per run while
processes are per prompt, so both go astray once two prompts of a run overlap,
and the mark does when a process ends by itself before its supervisor looks.
-/

namespace Stackhour.Node

open Domain TransitionSystem

/-! ## What a message asks for -/

namespace CliNode

/-- The run that a message makes the engine stop. -/
def stops (d : CliNode) (nowSecs : ℤ) : HubToNode → Option RunId
  | .dispatchCommand c expiresAt (.interruptRun r) =>
      if expired expiresAt nowSecs || d.state.seen c then none else some r
  | .cancelCommand c => d.state.commandRuns c
  | _ => none

/-- The run that an `InterruptRun` names, the first time it is delivered. -/
def interrupts (d : CliNode) (nowSecs : ℤ) : HubToNode → Option RunId
  | .dispatchCommand c expiresAt (.interruptRun r) =>
      if expired expiresAt nowSecs || d.state.seen c then none else some r
  | _ => none

/-- The prompt that a message brings, the first time it is delivered. -/
def accepts (d : CliNode) (nowSecs : ℤ) : HubToNode → Option CommandId
  | .dispatchCommand c expiresAt (.sendPrompt ..) =>
      if expired expiresAt nowSecs || d.state.seen c then none else some c
  | _ => none

/-- A process is named by the command of its prompt. -/
def nameOf (d : CliNode) (job : ℕ) : Option CommandId := (d.effects[job]?).map Prod.fst

/-- The process registered for a run. -/
def job (d : CliNode) (r : RunId) : Option CommandId := (d.state.jobs r).bind d.nameOf

/-- The processes started for a run. -/
def processes (d : CliNode) (r : RunId) : List CommandId :=
  d.effects.filterMap (fun p =>
    match p.2 with
    | .executed r' _ _ => if r' = r then some p.1 else none
    | _ => none)

end CliNode

def isTerminal : EventKind → Bool
  | .runCompleted | .runFailed | .runInterrupted => true
  | _ => false

/-- The terminal events that a task has still to emit. -/
def Work.owing : Work → ℕ
  | .emit notices => notices.countP (fun n => isTerminal n.kind)
  | .supervise .. => 1
  | .update .. => 0

/-- The prompt that a new task reports on. -/
def SpawnedTask.speaker (t : SpawnedTask) : Option CommandId :=
  if t.work.owing = 0 then none else t.toAck

/-! ## Processes -/

/-- A process runs, has exited, or has been waited for: only then is its job's
PID slot empty. -/
inductive Phase where
  | live
  | exited
  | waited
deriving DecidableEq

/-- `signal` is the process that a stop has marked and not yet signalled. The
rest records the run: the processes signalled while they were live, those that
were live at an `InterruptRun` of their run, the accepted prompts, the prompt
each task reports on, and the events emitted for prompts. -/
structure Supervised where
  node : CliNode
  phase : CommandId → Option Phase
  signal : Option CommandId
  killed : List CommandId
  owed : List CommandId
  prompts : List CommandId
  speakers : List (Option CommandId)
  emitted : List (CommandId × Notice)

/-- `other` are the steps of the engine that concern no process. -/
inductive SupervisionLabel where
  | hear (m : HubToNode) (nowSecs : ℤ)
  | signal
  | start (spawned : Bool)
  | exit (c : CommandId)
  | wait (c : CommandId)
  | join (i : ℕ) (result : Option RunResult)
  | emit (i : ℕ) (eventId : EventId) (now : DateTime)
  | other (a : CliLabel)

def CliLabel.isOther : CliLabel → Bool
  | .acknowledge _ | .launch _ | .attach _ | .detach | .resend => true
  | _ => false

namespace Supervised

/-- The engine moves on; the tasks it spawned are attributed. -/
def advance (s : Supervised) (d : CliNode) : Supervised :=
  { s with
    node := d
    speakers := s.speakers ++ (d.tasks.drop s.node.tasks.length).map SpawnedTask.speaker }

/-- The live processes of a run. -/
def liveOf (s : Supervised) (r : RunId) : List CommandId :=
  (s.node.processes r).filter (fun c => decide (s.phase c = some .live))

/-- The event that a task is about to emit, if it reports on a prompt. -/
def next (s : Supervised) (i : ℕ) : Option (CommandId × Notice) :=
  match s.node.tasks[i]?, s.speakers[i]? with
  | some ⟨none, .emit (n :: _)⟩, some (some c) => some (c, n)
  | _, _ => none

def step (s : Supervised) : SupervisionLabel → Option Supervised
  -- the receive loop is busy until it has signalled the process it stops
  | .hear m nowSecs =>
      if s.signal.isSome then none
      else
        (s.node.step (.hear m nowSecs)).map (fun d =>
          { s.advance d with
            signal := (d.terminated.drop s.node.terminated.length).head?.bind d.nameOf
            owed := s.owed ++ (s.node.interrupts nowSecs m).toList.flatMap s.liveOf
            prompts := s.prompts ++ (s.node.accepts nowSecs m).toList })
  -- `terminate_if_running`: nothing is signalled once the slot is empty, and a
  -- process that has exited is past being terminated
  | .signal =>
      s.signal.map (fun c =>
        { s with
          signal := none
          killed := if s.phase c = some .live then s.killed ++ [c] else s.killed })
  -- a process that cannot be spawned has an empty slot from the beginning
  | .start spawned =>
      s.node.starting.bind (fun st =>
        (s.node.step .start).map (fun d =>
          { s.advance d with
            phase := Function.update s.phase st.commandId
              (some (if spawned then .live else .waited)) }))
  | .exit c =>
      if s.phase c = some .live then
        some { s with phase := Function.update s.phase c (some .exited) }
      else none
  | .wait c =>
      if s.phase c = some .exited then
        some { s with phase := Function.update s.phase c (some .waited) }
      else none
  | .join i result =>
      match s.node.tasks[i]? with
      | some ⟨_, .supervise c _ _⟩ =>
          if s.phase c = some .waited then (s.node.step (.join i result)).map s.advance else none
      | _ => none
  | .emit i eventId now =>
      (s.node.step (.emit i eventId now)).map (fun d =>
        { s.advance d with emitted := s.emitted ++ (s.next i).toList })
  | .other a => if a.isOther then (s.node.step a).map s.advance else none

/-- A node process that has just started. -/
def system : System Supervised SupervisionLabel where
  init s := CliNode.system.init s.node ∧ s.phase = (fun _ => none) ∧ s.signal = none ∧
    s.killed = [] ∧ s.owed = [] ∧ s.prompts = [] ∧ s.speakers = [] ∧ s.emitted = []
  step := step

end Supervised

/-! ## The contract and its condition -/

namespace Supervised

/-- The terminal events emitted for a prompt. -/
def terminals (s : Supervised) (c : CommandId) : ℕ :=
  s.emitted.countP (fun p => decide (p.1 = c) && isTerminal p.2.kind)

/-- No task has anything left to emit for the prompt. -/
def Settled (s : Supervised) (c : CommandId) : Prop :=
  (∀ st, s.node.starting = some st → st.commandId ≠ c) ∧
    ∀ (i : ℕ) (t : SpawnedTask), s.speakers[i]? = some (some c) → s.node.tasks[i]? = some t →
      t.work.owing = 0

end Supervised

/-- **Interrupts and terminal events.** An `InterruptRun` terminates the live
processes of its run, a prompt emits one terminal event, and it says that it was
interrupted only if its process was terminated while live. -/
structure Supervises (s : Supervised) : Prop where
  terminates : ∀ c ∈ s.owed, c ∈ s.killed ∨ s.signal = some c
  atMostOne : ∀ c, s.terminals c ≤ 1
  exactlyOne : ∀ c ∈ s.prompts, s.Settled c → s.terminals c = 1
  interrupted : ∀ p ∈ s.emitted, p.2.kind = .runInterrupted → p.1 ∈ s.killed

/-- A stop finds its run with no live process but the registered one, and the
registered one live (or terminated before) and the only one whose supervisor is
still to come; it stays live until it is signalled, and no prompt of the run is
started before its supervisor has come. -/
def Undisturbed (s : Supervised) : SupervisionLabel → Prop
  | .hear m nowSecs => ∀ r, s.node.stops nowSecs m = some r →
      (∀ c ∈ s.liveOf r, s.node.job r = some c) ∧
      ∀ c, s.node.job r = some c → (s.phase c = some .live ∨ c ∈ s.killed) ∧
        ∀ t ∈ s.node.tasks, ∀ k tid, t.work = .supervise k r tid → k = c
  | .start _ => ∀ st, s.node.starting = some st → s.node.state.interrupted st.runId = false
  | .exit c => s.signal = some c → c ∈ s.killed
  | _ => True

/-! ## What a message does -/

/-- The task says nothing of an interrupt and awaits no process. -/
def SpawnedTask.Plain (t : SpawnedTask) : Prop :=
  ∃ notices, t.work = .emit notices ∧ ∀ n ∈ notices, n.kind ≠ .runInterrupted

/-- What hearing a message changes: `stop` is the run it stops and `prompt` the
prompt it brings, which is then refused by a task or about to be started. -/
structure Hears (d : CliNode) (stop : Option RunId) (prompt : Option CommandId)
    (d' : CliNode) : Prop where
  jobs : d'.state.jobs = d.state.jobs
  effects : d.effects <+: d'.effects
  marked : ∀ r, d'.state.interrupted r = true →
    d.state.interrupted r = true ∨ (stop = some r ∧ (d.state.jobs r).isSome)
  terminated : d'.terminated = d.terminated ++ (stop.bind d.state.jobs).toList
  seen : ∀ c, d.state.seen c = true → d'.state.seen c = true
  fresh : ∀ c, prompt = some c → d.state.seen c = false ∧ d'.state.seen c = true
  rest : (d'.tasks = d.tasks ∧ d'.starting = none ∧ prompt = none) ∨
    (∃ t c, d'.tasks = d.tasks ++ [t] ∧ d'.starting = none ∧ t.toAck = some c ∧
      ((t.work.owing = 0 ∧ prompt = none ∧ ∀ k r tid, t.work ≠ .supervise k r tid) ∨
        (t.work.owing = 1 ∧ prompt = some c ∧ t.Plain))) ∨
    ∃ st, d'.tasks = d.tasks ∧ d'.starting = some st ∧ prompt = some st.commandId ∧ stop = none

/-- A task that only acknowledges. -/
theorem Hears.spawn {d : CliNode} {stop : Option RunId} {d' : CliNode} (h : Hears d stop none d')
    (ht : d'.tasks = d.tasks) (hs : d'.starting = none) (c : CommandId) {work : Work}
    (howing : work.owing = 0) (hwork : ∀ k r tid, work ≠ .supervise k r tid) :
    Hears d stop none (d'.spawn c work) := by
  refine ⟨h.jobs, h.effects, h.marked, h.terminated, h.seen, h.fresh, .inr (.inl ?_)⟩
  refine ⟨⟨some c, work⟩, c, ?_, hs, rfl, .inl ⟨howing, rfl, hwork⟩⟩
  simp only [CliNode.spawn, ht]

/-- The run that new work stops. -/
def runStopped : NodeWork → Option RunId
  | .interruptRun r => some r
  | _ => none

/-- The prompt in new work. -/
def promptIn (c : CommandId) : NodeWork → Option CommandId
  | .sendPrompt .. => some c
  | _ => none

namespace CliNode

variable {d : CliNode}

theorem stops_of_interrupts {nowSecs : ℤ} {m : HubToNode} {r : RunId}
    (h : d.interrupts nowSecs m = some r) : d.stops nowSecs m = some r := by
  unfold interrupts at h
  split at h
  · exact h
  · cases h

theorem stopRun_hears (hs : d.starting = none) (r : RunId) :
    Hears d (some r) none (d.stopRun r) := by
  unfold stopRun
  cases hj : d.state.jobs r with
  | none =>
      refine ⟨rfl, List.prefix_rfl, fun r' h => .inl h, ?_, fun c h => h, ?_, .inl ⟨rfl, hs, rfl⟩⟩
      · rw [Option.bind_some, hj]
        exact (List.append_nil _).symm
      · rintro c ⟨⟩
  | some j =>
      refine ⟨rfl, List.prefix_rfl, ?_, ?_, fun c h => h, ?_, .inl ⟨rfl, hs, rfl⟩⟩
      · intro r' h
        by_cases hr : r' = r
        · subst hr
          exact .inr ⟨rfl, by rw [hj]; rfl⟩
        · refine .inl ?_
          simpa only [Function.update_of_ne hr] using h
      · rw [Option.bind_some, hj]
        rfl
      · rintro c ⟨⟩

/-- The first delivery of a command. -/
theorem perform_hears (hs : d.starting = none) {c : CommandId} (hnew : d.state.seen c = false)
    (work : NodeWork) :
    Hears d (runStopped work) (promptIn c work) ((d.markSeen c).perform c work) := by
  have hseen : ∀ k, d.state.seen k = true → (d.markSeen c).state.seen k = true := by
    intro k hk
    simp only [markSeen, Function.update_apply, hk, ite_self]
  have hmark : (d.markSeen c).state.seen c = true := Function.update_self ..
  cases work with
  | startRun r t engine model effort prompt policy path =>
      refine ⟨rfl, List.prefix_append _ _, fun r' h => .inl h, (List.append_nil _).symm, hseen, ?_,
        .inr (.inl ⟨_, c, rfl, hs, rfl, .inl ⟨rfl, rfl, ?_⟩⟩)⟩
      · rintro k ⟨⟩
      · rintro k r' tid ⟨⟩
  | update version =>
      refine ⟨rfl, List.prefix_rfl, fun r' h => .inl h, (List.append_nil _).symm, hseen, ?_,
        .inr (.inl ⟨_, c, rfl, hs, rfl, .inl ⟨rfl, rfl, ?_⟩⟩)⟩
      · rintro k ⟨⟩
      · rintro k r' tid ⟨⟩
  | interruptRun r =>
      have hstop := stopRun_hears (d := d.markSeen c) hs r
      refine ⟨hstop.jobs, hstop.effects.trans (List.prefix_append _ _), hstop.marked,
        hstop.terminated, fun k hk => hstop.seen k (hseen k hk), ?_, .inr (.inl ?_)⟩
      · rintro k ⟨⟩
      · have htasks : ((d.markSeen c).stopRun r).tasks = d.tasks := by
          unfold stopRun
          split <;> rfl
        have hstarting : ((d.markSeen c).stopRun r).starting = none := by
          unfold stopRun
          split <;> exact hs
        refine ⟨⟨some c, .emit []⟩, c, ?_, hstarting, rfl, .inl ⟨rfl, rfl, ?_⟩⟩
        · simp only [perform, CliNode.spawn, CliNode.effect, htasks]
        · rintro k r' tid ⟨⟩
  | sendPrompt t r text mid =>
      have hrefused : ∀ error, Hears d none (some c)
          ((d.markSeen c).spawn c (.emit [.failed t r error])) := by
        intro error
        refine ⟨rfl, List.prefix_rfl, fun r' h => .inl h, (List.append_nil _).symm, hseen, ?_,
          .inr (.inl ⟨_, c, rfl, hs, rfl, .inr ⟨rfl, rfl, _, rfl, ?_⟩⟩)⟩
        · rintro k ⟨⟩
          exact ⟨hnew, hmark⟩
        · intro n hn
          rw [List.mem_singleton.mp hn]
          exact EventKind.noConfusion
      simp only [perform]
      split
      · exact hrefused _
      · split
        · refine ⟨rfl, List.prefix_rfl, fun r' h => .inl h, (List.append_nil _).symm, hseen, ?_,
            .inr (.inr ⟨_, rfl, rfl, rfl, rfl⟩)⟩
          rintro k ⟨⟩
          exact ⟨hnew, hmark⟩
        · exact hrefused _

theorem hears_rfl (hs : d.starting = none) : Hears d none none d := by
  refine ⟨rfl, List.prefix_rfl, fun r h => .inl h, (List.append_nil _).symm, fun c h => h, ?_,
    .inl ⟨rfl, hs, rfl⟩⟩
  rintro c ⟨⟩

/-- **What a message does.** -/
theorem handle_hears (hs : d.starting = none) (nowSecs : ℤ) (m : HubToNode) :
    Hears d (d.stops nowSecs m) (d.accepts nowSecs m) (d.handleHubMessage nowSecs m) := by
  cases m with
  | dispatchCommand c expiresAt work =>
      let g : CliNode := { d with heard := d.heard ++ [c] }
      by_cases hold : (expired expiresAt nowSecs || d.state.seen c) = true
      · -- an expired delivery is dropped, and a repeated one acknowledged
        have hstops : d.stops nowSecs (.dispatchCommand c expiresAt work) = none := by
          unfold stops
          cases work <;> first | rfl | exact if_pos hold
        have haccepts : d.accepts nowSecs (.dispatchCommand c expiresAt work) = none := by
          unfold accepts
          cases work <;> first | rfl | exact if_pos hold
        rw [hstops, haccepts]
        have hsame := hears_rfl hs
        simp only [handleHubMessage]
        split
        · exact ⟨hsame.jobs, hsame.effects, hsame.marked, hsame.terminated, hsame.seen,
            hsame.fresh, hsame.rest⟩
        · next hexpired =>
            have hseen : g.state.seen c = true := by
              rcases Bool.or_eq_true_iff.mp hold with h | h
              · exact absurd h hexpired
              · exact h
            unfold dispatch
            rw [if_pos hseen]
            have hg : Hears d none none g := ⟨hsame.jobs, hsame.effects, hsame.marked,
              hsame.terminated, hsame.seen, hsame.fresh, hsame.rest⟩
            refine hg.spawn rfl hs c (rfl : (Work.emit []).owing = 0) ?_
            rintro k r tid ⟨⟩
      · obtain ⟨hexpired, hseen⟩ := not_or.mp (Bool.or_eq_true_iff.not.mp hold)
        have hnew : d.state.seen c = false := Bool.eq_false_iff.mpr hseen
        have hstops : d.stops nowSecs (.dispatchCommand c expiresAt work) = runStopped work := by
          unfold stops
          cases work <;> first | rfl | exact if_neg hold
        have haccepts : d.accepts nowSecs (.dispatchCommand c expiresAt work) =
            promptIn c work := by
          unfold accepts
          cases work <;> first | rfl | exact if_neg hold
        have hperform := perform_hears (d := g) hs hnew work
        simp only [handleHubMessage]
        rw [hstops, haccepts, if_neg hexpired]
        unfold dispatch
        rw [if_neg hseen]
        exact ⟨hperform.jobs, hperform.effects, hperform.marked, hperform.terminated,
          hperform.seen, hperform.fresh, hperform.rest⟩
  | cancelCommand c =>
      simp only [handleHubMessage, cancel, stops, accepts]
      cases hc : d.state.commandRuns c with
      | none => exact hears_rfl hs
      | some r => exact stopRun_hears hs r
  | eventAck id =>
      have h := hears_rfl hs
      exact ⟨h.jobs, h.effects, h.marked, h.terminated, h.seen, h.fresh, h.rest⟩
  | approvalDecision id decision actor => exact hears_rfl hs
  | heartbeat => exact hears_rfl hs

end CliNode

/-! ## The steps -/

namespace Supervised

variable {s s' : Supervised}

@[simp] theorem advance_node (d : CliNode) : (s.advance d).node = d := rfl

theorem advance_speakers {d : CliNode} (h : d.tasks.length = s.node.tasks.length) :
    (s.advance d).speakers = s.speakers := by
  unfold advance
  rw [List.drop_eq_nil_of_le h.le, List.map_nil, List.append_nil]

theorem advance_speakers_snoc {d : CliNode} {t : SpawnedTask} (h : d.tasks = s.node.tasks ++ [t]) :
    (s.advance d).speakers = s.speakers ++ [t.speaker] := by
  unfold advance
  rw [h, List.drop_left, List.map_singleton]

theorem step_hear {m : HubToNode} {nowSecs : ℤ} (hs : s.step (.hear m nowSecs) = some s') :
    s.signal = none ∧ s.node.starting = none ∧
      s' = { s.advance (s.node.handleHubMessage nowSecs m) with
        signal := ((s.node.handleHubMessage nowSecs m).terminated.drop
          s.node.terminated.length).head?.bind (s.node.handleHubMessage nowSecs m).nameOf
        owed := s.owed ++ (s.node.interrupts nowSecs m).toList.flatMap s.liveOf
        prompts := s.prompts ++ (s.node.accepts nowSecs m).toList } := by
  delta step at hs
  dsimp only at hs
  split at hs
  · cases hs
  · next hsignal =>
      obtain ⟨d, hd, rfl⟩ := Option.map_eq_some_iff.mp hs
      simp only [CliNode.step] at hd
      split at hd
      · cases hd
      · next hstarting =>
          obtain rfl := Option.some.inj hd
          exact ⟨Option.not_isSome_iff_eq_none.mp hsignal,
            Option.not_isSome_iff_eq_none.mp hstarting, rfl⟩

theorem step_start {spawned : Bool} (hs : s.step (.start spawned) = some s') :
    ∃ st, s.node.starting = some st ∧
      s' = { s.advance (s.node.startProcess st) with
        phase := Function.update s.phase st.commandId
          (some (if spawned then .live else .waited)) } := by
  delta step at hs
  dsimp only at hs
  obtain ⟨st, hst, hs⟩ := Option.bind_eq_some_iff.mp hs
  obtain ⟨d, hd, rfl⟩ := Option.map_eq_some_iff.mp hs
  refine ⟨st, hst, ?_⟩
  simp only [CliNode.step, hst, Option.map_some, Option.some.injEq] at hd
  rw [hd]

theorem step_signal (hs : s.step .signal = some s') : ∃ c, s.signal = some c ∧
    s' = { s with
      signal := none
      killed := if s.phase c = some .live then s.killed ++ [c] else s.killed } := by
  obtain ⟨c, hc, rfl⟩ := Option.map_eq_some_iff.mp hs
  exact ⟨c, hc, rfl⟩

theorem step_exit {c : CommandId} (hs : s.step (.exit c) = some s') : s.phase c = some .live ∧
    s' = { s with phase := Function.update s.phase c (some .exited) } := by
  delta step at hs
  dsimp only at hs
  split at hs
  · next h => exact ⟨h, (Option.some.inj hs).symm⟩
  · cases hs

theorem step_wait {c : CommandId} (hs : s.step (.wait c) = some s') : s.phase c = some .exited ∧
    s' = { s with phase := Function.update s.phase c (some .waited) } := by
  delta step at hs
  dsimp only at hs
  split at hs
  · next h => exact ⟨h, (Option.some.inj hs).symm⟩
  · cases hs

theorem step_join {i : ℕ} {result : Option RunResult} (hs : s.step (.join i result) = some s') :
    ∃ c r tid, s.node.tasks[i]? = some ⟨none, .supervise c r tid⟩ ∧ s.phase c = some .waited ∧
      s' = s.advance ((s.node.become i (.emit (endNotices tid r (s.node.state.interrupted r)
        result))).finish c r result) := by
  delta step at hs
  dsimp only at hs
  split at hs
  · next a c r tid hi =>
      split at hs
      · next hphase =>
          obtain ⟨d, hd, rfl⟩ := Option.map_eq_some_iff.mp hs
          simp only [CliNode.step] at hd
          split at hd
          · next c' r' tid' hi' =>
              obtain ⟨-, hwork⟩ := SpawnedTask.mk.inj (Option.some.inj (hi.symm.trans hi'))
              obtain ⟨rfl, rfl, rfl⟩ := Work.supervise.inj hwork
              obtain rfl := Option.some.inj hd
              exact ⟨c, r, tid, hi', hphase, rfl⟩
          · cases hd
      · cases hs
  · cases hs

theorem step_emit {i : ℕ} {id : EventId} {now : DateTime} (hs : s.step (.emit i id now) = some s') :
    ∃ n rest outbox handed, s.node.tasks[i]? = some ⟨none, .emit (n :: rest)⟩ ∧
      s' = { s.advance { s.node.become i (.emit rest) with outbox := outbox, handed := handed } with
        emitted := s.emitted ++ (s.next i).toList } := by
  delta step at hs
  dsimp only at hs
  obtain ⟨d, hd, rfl⟩ := Option.map_eq_some_iff.mp hs
  simp only [CliNode.step] at hd
  split at hd
  · next n rest hi => exact ⟨n, rest, _, _, hi, by rw [← Option.some.inj hd]⟩
  · cases hd

/-- The next event of a task and the prompt it is about. -/
theorem next_eq_some {i : ℕ} {n : Notice} {rest : List Notice} {p : CommandId × Notice}
    (hi : s.node.tasks[i]? = some ⟨none, .emit (n :: rest)⟩) (hp : s.next i = some p) :
    p.2 = n ∧ s.speakers[i]? = some (some p.1) := by
  unfold next at hp
  rw [hi] at hp
  split at hp
  · next m _ c htask hspeaker =>
      obtain ⟨-, hwork⟩ := SpawnedTask.mk.inj (Option.some.inj htask)
      obtain ⟨rfl, -⟩ := List.cons.inj (Work.emit.inj hwork)
      obtain rfl := Option.some.inj hp
      exact ⟨rfl, hspeaker⟩
  · cases hp

/-- A task takes up work that owes the same. -/
def Turns (w w' : Work) : Prop := w' = w ∨ ∃ c v, w = .update c v ∧ w' = .emit []

theorem step_other {a : CliLabel} (hs : s.step (.other a) = some s') :
    ∃ d, s' = s.advance d ∧ d.state = s.node.state ∧ d.starting = s.node.starting ∧
      s.node.effects <+: d.effects ∧
      (d.tasks = s.node.tasks ∨ ∃ i t work, s.node.tasks[i]? = some t ∧ Turns t.work work ∧
        d.tasks = s.node.tasks.set i ⟨none, work⟩) := by
  delta step at hs
  dsimp only at hs
  split at hs
  · next ha =>
      obtain ⟨d, hd, rfl⟩ := Option.map_eq_some_iff.mp hs
      refine ⟨d, rfl, ?_⟩
      cases a with
      | acknowledge i =>
          simp only [CliNode.step] at hd
          split at hd
          · next c work hi =>
              split at hd <;> obtain rfl := Option.some.inj hd
              · exact ⟨rfl, rfl, List.prefix_rfl, .inr ⟨i, _, work, hi, .inl rfl, rfl⟩⟩
              · exact ⟨rfl, rfl, List.prefix_rfl, .inr ⟨i, _, work, hi, .inl rfl, rfl⟩⟩
          · cases hd
      | launch i =>
          simp only [CliNode.step] at hd
          split at hd
          · next c v hi =>
              obtain rfl := Option.some.inj hd
              have hturn : Turns (.update c v) (.emit []) := .inr ⟨c, v, rfl, rfl⟩
              split
              · exact ⟨rfl, rfl, List.prefix_append _ _, .inr ⟨i, _, _, hi, hturn, rfl⟩⟩
              · exact ⟨rfl, rfl, List.prefix_rfl, .inr ⟨i, _, _, hi, hturn, rfl⟩⟩
          · cases hd
      | attach tx =>
          obtain rfl := Option.some.inj hd
          exact ⟨rfl, rfl, List.prefix_rfl, .inl rfl⟩
      | detach =>
          obtain rfl := Option.some.inj hd
          exact ⟨rfl, rfl, List.prefix_rfl, .inl rfl⟩
      | resend =>
          obtain rfl := Option.some.inj hd
          exact ⟨rfl, rfl, List.prefix_rfl, .inl rfl⟩
      | hear m nowSecs => cases ha
      | start => cases ha
      | emit i id now => cases ha
      | join i result => cases ha
  · cases hs

end Supervised

/-! ## One terminal event a prompt -/

theorem endNotices_owing (t : TaskId) (r : RunId) (interrupted : Bool)
    (result : Option RunResult) : (Work.emit (endNotices t r interrupted result)).owing = 1 := by
  unfold endNotices
  split
  · rfl
  · split
    · rfl
    · split <;> rfl

/-- A run that is not marked was not interrupted. -/
theorem endNotices_plain {t : TaskId} {r : RunId} {result : Option RunResult} {n : Notice}
    (hn : n ∈ endNotices t r false result) : n.kind ≠ .runInterrupted := by
  unfold endNotices at hn
  rw [if_neg Bool.false_ne_true] at hn
  split at hn
  · rw [List.mem_singleton.mp hn]
    exact EventKind.noConfusion
  · split at hn
    · rcases List.mem_pair.mp hn with rfl | rfl
      · exact EventKind.noConfusion
      · exact EventKind.noConfusion
    · rw [List.mem_singleton.mp hn]
      exact EventKind.noConfusion

/-- A task reports on one prompt at most, and what it has emitted and what it
owes is one terminal event. -/
structure Ledger (s : Supervised) : Prop where
  length : s.speakers.length = s.node.tasks.length
  unique : ∀ (i j : ℕ) c, s.speakers[i]? = some (some c) → s.speakers[j]? = some (some c) → i = j
  seen : ∀ (i : ℕ) c, s.speakers[i]? = some (some c) → s.node.state.seen c = true
  starting : ∀ st, s.node.starting = some st → s.node.state.seen st.commandId = true ∧
    ∀ i : ℕ, s.speakers[i]? ≠ some (some st.commandId)
  balance : ∀ (i : ℕ) c (t : SpawnedTask), s.speakers[i]? = some (some c) →
    s.node.tasks[i]? = some t → s.terminals c + t.work.owing = 1
  silent : ∀ c, (∀ i : ℕ, s.speakers[i]? ≠ some (some c)) → s.terminals c = 0
  quiet : ∀ (i : ℕ) (t : SpawnedTask), s.speakers[i]? = some none → s.node.tasks[i]? = some t →
    t.work.owing = 0
  prompts : ∀ c ∈ s.prompts, (∃ st, s.node.starting = some st ∧ st.commandId = c) ∨
    ∃ i : ℕ, s.speakers[i]? = some (some c)

namespace Ledger

variable {s s' : Supervised}

theorem task (h : Ledger s) {i : ℕ} {o : Option CommandId} (hi : s.speakers[i]? = some o) :
    ∃ t, s.node.tasks[i]? = some t := by
  obtain ⟨hlt, -⟩ := List.getElem?_eq_some_iff.mp hi
  exact ⟨_, List.getElem?_eq_getElem (h.length ▸ hlt)⟩

theorem terminals_congr (he : s'.emitted = s.emitted) (c : CommandId) :
    s'.terminals c = s.terminals c := by
  unfold Supervised.terminals
  rw [he]

/-- A step that touches no task. -/
theorem frame (h : Ledger s) (hn : s'.node.tasks = s.node.tasks)
    (hseen : ∀ c, s.node.state.seen c = true → s'.node.state.seen c = true)
    (hsp : s'.speakers = s.speakers) (he : s'.emitted = s.emitted)
    (hst : ∀ st, s'.node.starting = some st → s'.node.state.seen st.commandId = true ∧
      ∀ i : ℕ, s.speakers[i]? ≠ some (some st.commandId))
    (hp : ∀ c ∈ s'.prompts, (∃ st, s'.node.starting = some st ∧ st.commandId = c) ∨
      ∃ i : ℕ, s.speakers[i]? = some (some c)) : Ledger s' := by
  refine ⟨?_, ?_, ?_, ?_, ?_, ?_, ?_, ?_⟩
  · rw [hsp, hn]
    exact h.length
  · rw [hsp]
    exact h.unique
  · intro i c hi
    exact hseen c (h.seen i c (hsp ▸ hi))
  · rw [hsp]
    exact hst
  · intro i c t hi ht
    rw [terminals_congr he]
    exact h.balance i c t (hsp ▸ hi) (hn ▸ ht)
  · intro c hc
    rw [terminals_congr he]
    exact h.silent c (hsp ▸ hc)
  · rw [hsp, hn]
    exact h.quiet
  · rw [hsp]
    exact hp

/-- A step that changes nothing of the engine. -/
theorem same (h : Ledger s) (hn : s'.node = s.node) (hsp : s'.speakers = s.speakers)
    (he : s'.emitted = s.emitted) (hp : s'.prompts = s.prompts) : Ledger s' := by
  refine h.frame (congrArg CliNode.tasks hn) ?_ hsp he ?_ ?_
  · rw [hn]
    exact fun c hc => hc
  · rw [hn]
    exact h.starting
  · rw [hn, hp]
    exact h.prompts

/-- A task goes on: what it emits it no longer owes. -/
theorem turn (h : Ledger s) {i : ℕ} {t : SpawnedTask} {work : Work}
    (hi : s.node.tasks[i]? = some t) (hn : s'.node.tasks = s.node.tasks.set i ⟨none, work⟩)
    (hseen : s'.node.state.seen = s.node.state.seen) (hst : s'.node.starting = s.node.starting)
    (hsp : s'.speakers = s.speakers) (hp : s'.prompts = s.prompts)
    (hown : ∀ c, s.speakers[i]? = some (some c) →
      s'.terminals c + work.owing = s.terminals c + t.work.owing)
    (hothers : ∀ c, s.speakers[i]? ≠ some (some c) → s'.terminals c = s.terminals c)
    (hquiet : t.work.owing = 0 → work.owing = 0) : Ledger s' := by
  have hget : ∀ {j : ℕ} {t' : SpawnedTask}, s'.node.tasks[j]? = some t' →
      (j = i ∧ t' = ⟨none, work⟩) ∨ (j ≠ i ∧ s.node.tasks[j]? = some t') := by
    intro j t' hj
    rw [hn, List.getElem?_set] at hj
    by_cases hij : i = j
    · subst hij
      obtain ⟨hlt, -⟩ := List.getElem?_eq_some_iff.mp hi
      rw [if_pos rfl, if_pos hlt] at hj
      exact .inl ⟨rfl, (Option.some.inj hj).symm⟩
    · rw [if_neg hij] at hj
      exact .inr ⟨Ne.symm hij, hj⟩
  refine ⟨?_, ?_, ?_, ?_, ?_, ?_, ?_, ?_⟩
  · rw [hsp, hn, List.length_set]
    exact h.length
  · rw [hsp]
    exact h.unique
  · rw [hsp, hseen]
    exact h.seen
  · rw [hst, hseen, hsp]
    exact h.starting
  · intro j c t' hj ht'
    rw [hsp] at hj
    rcases hget ht' with ⟨rfl, rfl⟩ | ⟨hne, ht'⟩
    · rw [hown c hj]
      exact h.balance j c t hj hi
    · rw [hothers c fun hc => hne (h.unique j i c hj hc)]
      exact h.balance j c t' hj ht'
  · intro c hc
    rw [hsp] at hc
    rw [hothers c (hc i)]
    exact h.silent c hc
  · intro j t' hj ht'
    rw [hsp] at hj
    rcases hget ht' with ⟨rfl, rfl⟩ | ⟨-, ht'⟩
    · exact hquiet (h.quiet j t hj hi)
    · exact h.quiet j t' hj ht'
  · rw [hp, hst, hsp]
    exact h.prompts

/-- A task is spawned; it may report on a prompt that none reports on yet. -/
theorem spawn (h : Ledger s) {t : SpawnedTask} (hn : s'.node.tasks = s.node.tasks ++ [t])
    (hseen : ∀ c, s.node.state.seen c = true → s'.node.state.seen c = true)
    (hst : s'.node.starting = none) (hsp : s'.speakers = s.speakers ++ [t.speaker])
    (he : s'.emitted = s.emitted)
    (howing : ∀ c, t.speaker = some c → t.work.owing = 1 ∧ s'.node.state.seen c = true ∧
      ∀ i : ℕ, s.speakers[i]? ≠ some (some c))
    (hquiet : t.speaker = none → t.work.owing = 0)
    (hp : ∀ c ∈ s'.prompts, t.speaker = some c ∨ ∃ i : ℕ, s.speakers[i]? = some (some c)) :
    Ledger s' := by
  have hget : ∀ {j : ℕ} {o : Option CommandId}, s'.speakers[j]? = some o →
      (j < s.speakers.length ∧ s.speakers[j]? = some o) ∨
        (j = s.speakers.length ∧ o = t.speaker) := by
    intro j o hj
    rw [hsp] at hj
    by_cases hlt : j < s.speakers.length
    · rw [List.getElem?_append_left hlt] at hj
      exact .inl ⟨hlt, hj⟩
    · rw [List.getElem?_append_right (Nat.le_of_not_lt hlt)] at hj
      rw [List.getElem?_singleton] at hj
      split at hj
      · next hzero => exact .inr ⟨by omega, (Option.some.inj hj).symm⟩
      · cases hj
  have htask : ∀ {j : ℕ} {t' : SpawnedTask}, s'.node.tasks[j]? = some t' →
      (j < s.speakers.length → s.node.tasks[j]? = some t') ∧
        (j = s.speakers.length → t' = t) := by
    intro j t' hj
    rw [hn] at hj
    constructor
    · intro hlt
      rwa [List.getElem?_append_left (h.length ▸ hlt)] at hj
    · intro heq
      rw [heq, h.length, List.getElem?_concat_length] at hj
      exact (Option.some.inj hj).symm
  have hnew : s'.speakers[s.speakers.length]? = some t.speaker := by
    rw [hsp]
    exact List.getElem?_concat_length
  have hold : ∀ {j : ℕ} {o : Option CommandId}, s.speakers[j]? = some o →
      s'.speakers[j]? = some o := by
    intro j o hj
    obtain ⟨hlt, -⟩ := List.getElem?_eq_some_iff.mp hj
    rw [hsp, List.getElem?_append_left hlt]
    exact hj
  refine ⟨?_, ?_, ?_, ?_, ?_, ?_, ?_, ?_⟩
  · rw [hsp, hn, List.length_append, List.length_append, h.length]
    rfl
  · intro i j c hi hj
    rcases hget hi with ⟨-, hi⟩ | ⟨hi, hc⟩
    · rcases hget hj with ⟨-, hj⟩ | ⟨hj, hc⟩
      · exact h.unique i j c hi hj
      · exact absurd hi ((howing c hc.symm).2.2 i)
    · rcases hget hj with ⟨-, hj⟩ | ⟨hj, -⟩
      · exact absurd hj ((howing c hc.symm).2.2 j)
      · exact hi.trans hj.symm
  · intro i c hi
    rcases hget hi with ⟨-, hi⟩ | ⟨-, hc⟩
    · exact hseen c (h.seen i c hi)
    · exact (howing c hc.symm).2.1
  · intro st hstart
    rw [hst] at hstart
    cases hstart
  · intro i c t' hi ht'
    rw [terminals_congr he]
    rcases hget hi with ⟨hlt, hi⟩ | ⟨hlen, hc⟩
    · exact h.balance i c t' hi ((htask ht').1 hlt)
    · obtain ⟨hone, -, hfree⟩ := howing c hc.symm
      rw [(htask ht').2 hlen, hone, h.silent c hfree]
  · intro c hc
    rw [terminals_congr he]
    exact h.silent c fun i hi => hc i (hold hi)
  · intro i t' hi ht'
    rcases hget hi with ⟨hlt, hi⟩ | ⟨hlen, hc⟩
    · exact h.quiet i t' hi ((htask ht').1 hlt)
    · rw [(htask ht').2 hlen]
      exact hquiet hc.symm
  · intro c hc
    rcases hp c hc with hc | ⟨i, hi⟩
    · exact .inr ⟨_, hc ▸ hnew⟩
    · exact .inr ⟨i, hold hi⟩

theorem speaker_some {t : SpawnedTask} {c : CommandId} (hack : t.toAck = some c)
    (howing : t.work.owing = 1) : t.speaker = some c := by
  unfold SpawnedTask.speaker
  rw [if_neg (by omega)]
  exact hack

theorem speaker_none {t : SpawnedTask} (howing : t.work.owing = 0) : t.speaker = none := by
  unfold SpawnedTask.speaker
  rw [if_pos howing]

theorem hear (h : Ledger s) {m : HubToNode} {nowSecs : ℤ}
    (hs : s.step (.hear m nowSecs) = some s') : Ledger s' := by
  obtain ⟨-, hstarting, rfl⟩ := Supervised.step_hear hs
  have hhears := CliNode.handle_hears hstarting nowSecs m
  have hprompts : ∀ c ∈ s.prompts ++ (s.node.accepts nowSecs m).toList,
      s.node.accepts nowSecs m = some c ∨ ∃ i : ℕ, s.speakers[i]? = some (some c) := by
    intro c hc
    rcases List.mem_append.mp hc with hc | hc
    · rcases h.prompts c hc with ⟨st, hst, -⟩ | hi
      · rw [hstarting] at hst
        cases hst
      · exact .inr hi
    · exact .inl (Option.mem_toList.mp hc)
  -- a prompt is new, so nothing reports on it yet
  have hfree : ∀ c, s.node.accepts nowSecs m = some c →
      ∀ i : ℕ, s.speakers[i]? ≠ some (some c) := by
    intro c hc i hi
    have hnew := (hhears.fresh c hc).1
    rw [h.seen i c hi] at hnew
    cases hnew
  rcases hhears.rest with ⟨htasks, hst, hnone⟩ | ⟨t, c, htasks, hst, hack, hwork⟩ |
    ⟨st, htasks, hst, hprompt, -⟩
  · refine h.frame htasks hhears.seen (Supervised.advance_speakers (congrArg List.length htasks)) rfl
      ?_ ?_
    · intro st hst'
      cases hst.symm.trans hst'
    · intro c hc
      rcases hprompts c hc with hc | hi
      · cases hnone.symm.trans hc
      · exact .inr hi
  · refine h.spawn htasks hhears.seen hst (Supervised.advance_speakers_snoc htasks) rfl ?_ ?_ ?_
    · intro k hk
      rcases hwork with ⟨hzero, -⟩ | ⟨hone, hprompt, -⟩
      · rw [speaker_none hzero] at hk
        cases hk
      · rw [speaker_some hack hone] at hk
        obtain rfl := Option.some.inj hk
        exact ⟨hone, (hhears.fresh c hprompt).2, hfree c hprompt⟩
    · intro hnone
      rcases hwork with ⟨hzero, -⟩ | ⟨hone, -⟩
      · exact hzero
      · rw [speaker_some hack hone] at hnone
        cases hnone
    · intro k hk
      rcases hprompts k hk with hk | hi
      · rcases hwork with ⟨-, hnone, -⟩ | ⟨hone, hprompt, -⟩
        · rw [hnone] at hk
          cases hk
        · obtain rfl := Option.some.inj (hprompt.symm.trans hk)
          exact .inl (speaker_some hack hone)
      · exact .inr hi
  · refine h.frame htasks hhears.seen (Supervised.advance_speakers (congrArg List.length htasks)) rfl
      ?_ ?_
    · intro st' hst'
      obtain rfl := Option.some.inj (hst.symm.trans hst')
      exact ⟨(hhears.fresh _ hprompt).2, hfree _ hprompt⟩
    · intro c hc
      rcases hprompts c hc with hc | hi
      · exact .inl ⟨st, hst, Option.some.inj (hprompt.symm.trans hc)⟩
      · exact .inr hi

theorem start (h : Ledger s) {spawned : Bool} (hs : s.step (.start spawned) = some s') :
    Ledger s' := by
  obtain ⟨st, hst, rfl⟩ := Supervised.step_start hs
  obtain ⟨hseen, hfree⟩ := h.starting st hst
  let t : SpawnedTask := ⟨some st.commandId, .supervise st.commandId st.runId st.spec.taskId⟩
  have htasks : (s.node.startProcess st).tasks = s.node.tasks ++ [t] := rfl
  have hspeaker : t.speaker = some st.commandId := speaker_some rfl rfl
  refine h.spawn htasks (fun c hc => hc) rfl (Supervised.advance_speakers_snoc htasks) rfl ?_ ?_ ?_
  · intro c hc
    obtain rfl := Option.some.inj (hspeaker.symm.trans hc)
    exact ⟨rfl, hseen, hfree⟩
  · intro hnone
    cases hspeaker.symm.trans hnone
  · intro c hc
    rcases h.prompts c hc with ⟨st', hst', rfl⟩ | hi
    · obtain rfl := Option.some.inj (hst.symm.trans hst')
      exact .inl hspeaker
    · exact .inr hi

theorem join (h : Ledger s) {i : ℕ} {result : Option RunResult}
    (hs : s.step (.join i result) = some s') : Ledger s' := by
  obtain ⟨c, r, tid, hi, -, rfl⟩ := Supervised.step_join hs
  refine h.turn hi rfl rfl rfl (Supervised.advance_speakers List.length_set) rfl ?_ ?_ ?_
  · intro c' _
    rw [endNotices_owing]
    rfl
  · intro c' _
    rfl
  · rintro ⟨⟩

theorem emit (h : Ledger s) {i : ℕ} {id : EventId} {now : DateTime}
    (hs : s.step (.emit i id now) = some s') : Ledger s' := by
  obtain ⟨n, rest, outbox, handed, hi, rfl⟩ := Supervised.step_emit hs
  have howing : (Work.emit (n :: rest)).owing =
      (Work.emit rest).owing + if isTerminal n.kind then 1 else 0 := by
    simp only [Work.owing, List.countP_cons]
  refine h.turn hi rfl rfl rfl (Supervised.advance_speakers List.length_set) rfl ?_ ?_ ?_
  · intro c hc
    have hnext : s.next i = some (c, n) := by
      unfold Supervised.next
      rw [hi, hc]
    simp only [Supervised.terminals, hnext, Option.toList_some, List.countP_append,
      List.countP_singleton, howing, decide_true, Bool.true_and]
    omega
  · intro c hc
    have hnext : ∀ p ∈ (s.next i).toList, p.1 ≠ c := by
      rintro p hp rfl
      exact hc (Supervised.next_eq_some hi (Option.mem_toList.mp hp)).2
    simp only [Supervised.terminals, List.countP_append]
    rw [Nat.add_eq_left, List.countP_eq_zero]
    intro p hp
    simp only [Bool.and_eq_true, decide_eq_true_eq, not_and]
    exact fun heq => absurd heq (hnext p hp)
  · intro hzero
    simp only [howing] at hzero
    exact Nat.eq_zero_of_add_eq_zero_right hzero

theorem other (h : Ledger s) {a : CliLabel} (hs : s.step (.other a) = some s') : Ledger s' := by
  obtain ⟨d, rfl, hstate, hstarting, -, htasks | ⟨i, t, work, hi, hturn, htasks⟩⟩ :=
    Supervised.step_other hs
  · refine h.frame htasks ?_ (Supervised.advance_speakers (congrArg List.length htasks)) rfl ?_ ?_
    · intro c hc
      exact (congrArg (fun st => CliState.seen st c) hstate).trans hc
    · intro st hst
      obtain ⟨hseen, hfree⟩ := h.starting st (hstarting.symm.trans hst)
      exact ⟨(congrArg (fun x => CliState.seen x st.commandId) hstate).trans hseen, hfree⟩
    · intro c hc
      rcases h.prompts c hc with ⟨st, hst, hc⟩ | hi
      · exact .inl ⟨st, hstarting.trans hst, hc⟩
      · exact .inr hi
  · have howing : work.owing = t.work.owing := by
      rcases hturn with rfl | ⟨c, v, hupdate, rfl⟩
      · rfl
      · rw [hupdate]
        rfl
    refine h.turn hi htasks (congrArg CliState.seen hstate) hstarting
      (Supervised.advance_speakers ?_) rfl ?_ ?_ ?_
    · rw [htasks, List.length_set]
    · intro c _
      rw [howing]
      rfl
    · intro c _
      rfl
    · intro hzero
      rwa [howing]

/-- One step of the engine or of a process. -/
theorem step (h : Ledger s) : ∀ a : SupervisionLabel, s.step a = some s' → Ledger s' := by
  intro a hs
  cases a with
  | hear m nowSecs => exact h.hear hs
  | start spawned => exact h.start hs
  | signal =>
      obtain ⟨c, -, rfl⟩ := Supervised.step_signal hs
      exact h.same rfl rfl rfl rfl
  | exit c =>
      obtain ⟨-, rfl⟩ := Supervised.step_exit hs
      exact h.same rfl rfl rfl rfl
  | wait c =>
      obtain ⟨-, rfl⟩ := Supervised.step_wait hs
      exact h.same rfl rfl rfl rfl
  | join i result => exact h.join hs
  | emit i id now => exact h.emit hs
  | other a => exact h.other hs

theorem init (hs : Supervised.system.init s) : Ledger s := by
  obtain ⟨⟨config, nodeId, hnode⟩, -, -, -, -, hprompts, hspeakers, hemitted⟩ := hs
  have htasks : s.node.tasks = [] := congrArg CliNode.tasks hnode
  have hstarting : s.node.starting = none := congrArg CliNode.starting hnode
  have hnobody : ∀ (i : ℕ) o, s.speakers[i]? ≠ some o := by
    intro i o hi
    rw [hspeakers] at hi
    cases hi
  refine ⟨?_, fun i _ c hi => absurd hi (hnobody i _), fun i c hi => absurd hi (hnobody i _), ?_,
    fun i c _ hi => absurd hi (hnobody i _), ?_, fun i _ hi => absurd hi (hnobody i _), ?_⟩
  · rw [hspeakers, htasks]
    rfl
  · intro st hst
    cases hstarting.symm.trans hst
  · intro c _
    unfold Supervised.terminals
    rw [hemitted]
    rfl
  · rw [hprompts]
    rintro c ⟨⟩

/-- The ledger is kept whatever the messages and the processes do. -/
theorem of_reach {guard : Supervised → SupervisionLabel → Prop}
    (hreach : Supervised.system.Reach guard s) : Ledger s :=
  hreach.invariant (fun _ hs => init hs) (fun _ _ _ h _ hs => h.step _ hs)

end Ledger

/-! ## Interrupts -/

/-- The task is to report an interruption. -/
def SpawnedTask.Reports (t : SpawnedTask) : Prop :=
  ∃ notices, t.work = .emit notices ∧ ∃ n ∈ notices, n.kind = .runInterrupted

/-- What an undisturbed run keeps: a mark stands for one process, which has been
or is about to be signalled, and only its supervisor can take the mark. -/
structure Watch (s : Supervised) : Prop where
  registered : ∀ r j, s.node.state.jobs r = some j → j < s.node.effects.length
  idle : s.node.starting.isSome → s.signal = none
  signal : ∀ c, s.signal = some c → s.phase c = some .live ∨ c ∈ s.killed
  mark : ∀ r, s.node.state.interrupted r = true → ∃ c, (c ∈ s.killed ∨ s.signal = some c) ∧
    ∀ t ∈ s.node.tasks, ∀ k tid, t.work = .supervise k r tid → k = c
  speaker : ∀ (i : ℕ) (t : SpawnedTask) k r tid, s.node.tasks[i]? = some t →
    t.work = .supervise k r tid → s.speakers[i]? = some (some k)
  pending : ∀ (i : ℕ) (t : SpawnedTask) c, s.node.tasks[i]? = some t → t.Reports →
    s.speakers[i]? = some (some c) → c ∈ s.killed
  terminates : ∀ c ∈ s.owed, c ∈ s.killed ∨ s.signal = some c
  interrupted : ∀ p ∈ s.emitted, p.2.kind = .runInterrupted → p.1 ∈ s.killed

namespace Watch

variable {s s' : Supervised}

theorem init (hs : Supervised.system.init s) : Watch s := by
  obtain ⟨⟨config, nodeId, hnode⟩, -, hsignal, -, howed, -, -, hemitted⟩ := hs
  have htasks : s.node.tasks = [] := congrArg CliNode.tasks hnode
  have hstate : s.node.state = (CliNode.fresh config nodeId).state := congrArg CliNode.state hnode
  have hnobody : ∀ (i : ℕ) t, s.node.tasks[i]? ≠ some t := by
    intro i t hi
    rw [htasks] at hi
    cases hi
  refine ⟨?_, fun _ => hsignal, ?_, ?_, fun i t _ _ _ hi => absurd hi (hnobody i t),
    fun i t _ hi => absurd hi (hnobody i t), ?_, ?_⟩
  · intro r j hj
    rw [hstate] at hj
    cases hj
  · intro c hc
    cases hsignal.symm.trans hc
  · intro r hr
    rw [hstate] at hr
    cases hr
  · rw [howed]
    rintro c ⟨⟩
  · rw [hemitted]
    rintro p ⟨⟩

/-- The registered process has a name. -/
theorem job_isSome (h : Watch s) {r : RunId} {j : ℕ} (hj : s.node.state.jobs r = some j) :
    ∃ c, s.node.nameOf j = some c ∧ s.node.job r = some c := by
  have hlt := h.registered r j hj
  have hname : s.node.nameOf j = some (s.node.effects[j]).1 := by
    unfold CliNode.nameOf
    rw [List.getElem?_eq_getElem hlt]
    rfl
  refine ⟨_, hname, ?_⟩
  unfold CliNode.job
  rw [hj]
  exact hname

theorem nameOf_of_prefix {d d' : CliNode} (h : d.effects <+: d'.effects) {j : ℕ} {c : CommandId}
    (hj : d.nameOf j = some c) : d'.nameOf j = some c := by
  obtain ⟨p, hp, rfl⟩ := Option.map_eq_some_iff.mp hj
  obtain ⟨rest, hrest⟩ := h
  obtain ⟨hlt, -⟩ := List.getElem?_eq_some_iff.mp hp
  unfold CliNode.nameOf
  rw [← hrest, List.getElem?_append_left hlt, hp]
  rfl

/-- A step of a process alone. -/
theorem process (h : Watch s) (hn : s'.node = s.node) (hsp : s'.speakers = s.speakers)
    (he : s'.emitted = s.emitted) (ho : s'.owed = s.owed)
    (hidle : s.signal = none → s'.signal = none)
    (hk : ∀ c ∈ s.killed, c ∈ s'.killed)
    (hsignal : ∀ c, s'.signal = some c → s'.phase c = some .live ∨ c ∈ s'.killed)
    (hsent : ∀ c, s.signal = some c → c ∈ s'.killed ∨ s'.signal = some c) : Watch s' := by
  have hdone : ∀ {c}, (c ∈ s.killed ∨ s.signal = some c) → c ∈ s'.killed ∨ s'.signal = some c := by
    rintro c (hc | hc)
    · exact .inl (hk c hc)
    · exact hsent c hc
  refine ⟨?_, ?_, hsignal, ?_, ?_, ?_, ?_, ?_⟩
  · rw [hn]
    exact h.registered
  · rw [hn]
    exact fun hst => hidle (h.idle hst)
  · rw [hn]
    intro r hr
    obtain ⟨c, hc, honly⟩ := h.mark r hr
    exact ⟨c, hdone hc, honly⟩
  · rw [hn, hsp]
    exact h.speaker
  · rw [hn, hsp]
    intro i t c hi hreports hc
    exact hk c (h.pending i t c hi hreports hc)
  · rw [ho]
    intro c hc
    exact hdone (h.terminates c hc)
  · rw [he]
    intro p hp hkind
    exact hk _ (h.interrupted p hp hkind)

theorem signalled (h : Watch s) (hs : s.step .signal = some s') : Watch s' := by
  obtain ⟨c, hc, rfl⟩ := Supervised.step_signal hs
  have hkilled : ∀ k ∈ s.killed,
      k ∈ (if s.phase c = some .live then s.killed ++ [c] else s.killed) := by
    intro k hk
    split
    · exact List.mem_append_left _ hk
    · exact hk
  refine h.process rfl rfl rfl rfl (fun _ => rfl) hkilled ?_ ?_
  · rintro k ⟨⟩
  · intro k hk
    obtain rfl := Option.some.inj (hc.symm.trans hk)
    refine .inl ?_
    rcases h.signal c hc with hlive | hin
    · show c ∈ if s.phase c = some .live then s.killed ++ [c] else s.killed
      rw [if_pos hlive]
      exact List.mem_append_right _ (List.mem_singleton_self c)
    · exact hkilled c hin

/-- A process that is not the one to be signalled, or was terminated, goes on. -/
theorem ends (h : Watch s) {c : CommandId} {p : Phase}
    (hc : s.signal = some c → c ∈ s.killed) :
    Watch { s with phase := Function.update s.phase c (some p) } := by
  refine h.process rfl rfl rfl rfl id (fun _ hk => hk) ?_ (fun _ hk => .inr hk)
  intro k hk
  by_cases heq : k = c
  · exact .inr (heq ▸ hc (heq ▸ hk))
  · show Function.update s.phase c (some p) k = _ ∨ _
    rw [Function.update_of_ne heq]
    exact h.signal k hk

/-- A task goes on. -/
theorem turn (h : Watch s) {d : CliNode} {i : ℕ} {t : SpawnedTask} {work : Work}
    (hi : s.node.tasks[i]? = some t) (htasks : d.tasks = s.node.tasks.set i ⟨none, work⟩)
    (hjobs : ∀ r j, d.state.jobs r = some j → j < d.effects.length)
    (hstart : d.starting = s.node.starting)
    (hmarks : ∀ r, d.state.interrupted r = true → s.node.state.interrupted r = true)
    (hwork : ∀ k r tid, work = .supervise k r tid → t.work = .supervise k r tid)
    (hreports : ∀ c, SpawnedTask.Reports ⟨none, work⟩ → s.speakers[i]? = some (some c) →
      c ∈ s.killed) : Watch (s.advance d) := by
  have hsp : (s.advance d).speakers = s.speakers :=
    Supervised.advance_speakers (by rw [htasks, List.length_set])
  have hget : ∀ {j : ℕ} {t' : SpawnedTask}, d.tasks[j]? = some t' →
      (j = i ∧ t' = ⟨none, work⟩) ∨ s.node.tasks[j]? = some t' := by
    intro j t' hj
    rw [htasks, List.getElem?_set] at hj
    by_cases hij : i = j
    · subst hij
      obtain ⟨hlt, -⟩ := List.getElem?_eq_some_iff.mp hi
      rw [if_pos rfl, if_pos hlt] at hj
      exact .inl ⟨rfl, (Option.some.inj hj).symm⟩
    · rw [if_neg hij] at hj
      exact .inr hj
  refine ⟨hjobs, ?_, h.signal, ?_, ?_, ?_, h.terminates, h.interrupted⟩
  · show d.starting.isSome → _
    rw [hstart]
    exact h.idle
  · intro r hr
    obtain ⟨c, hc, honly⟩ := h.mark r (hmarks r hr)
    refine ⟨c, hc, ?_⟩
    intro t' ht' k tid hk
    obtain ⟨j, hj⟩ := List.getElem?_of_mem ht'
    rcases hget hj with ⟨rfl, rfl⟩ | hj
    · exact honly t (List.mem_of_getElem? hi) k tid (hwork k r tid hk)
    · exact honly t' (List.mem_of_getElem? hj) k tid hk
  · intro j t' k r tid hj hk
    rw [hsp]
    rcases hget hj with ⟨rfl, rfl⟩ | hj
    · exact h.speaker j t k r tid hi (hwork k r tid hk)
    · exact h.speaker j t' k r tid hj hk
  · intro j t' c hj hr hc
    rw [hsp] at hc
    rcases hget hj with ⟨rfl, rfl⟩ | hj
    · exact hreports c hr hc
    · exact h.pending j t' c hj hr hc

theorem join (h : Watch s) {i : ℕ} {result : Option RunResult}
    (hs : s.step (.join i result) = some s') : Watch s' := by
  obtain ⟨c, r, tid, hi, hphase, rfl⟩ := Supervised.step_join hs
  refine h.turn hi rfl ?_ rfl ?_ ?_ ?_
  · intro r' j hj
    simp only [CliNode.finish, CliNode.become, Function.update_apply] at hj
    split at hj
    · cases hj
    · exact h.registered r' j hj
  · intro r' hr
    simp only [CliNode.finish, CliNode.become, Function.update_apply] at hr
    split at hr
    · cases hr
    · exact hr
  · rintro k r' tid' ⟨⟩
  · rintro k ⟨notices, hnotices, n, hn, hkind⟩ hk
    obtain rfl := Work.emit.inj hnotices
    have hspeaker := h.speaker i _ c r tid hi rfl
    obtain rfl := Option.some.inj (Option.some.inj (hspeaker.symm.trans hk))
    -- only a marked run reports an interruption, and the mark is this process's
    have hmarked : s.node.state.interrupted r = true := by
      rw [← Bool.not_eq_false]
      intro hfalse
      rw [hfalse] at hn
      exact endNotices_plain hn hkind
    obtain ⟨k, hsignalled, honly⟩ := h.mark r hmarked
    obtain rfl := honly _ (List.mem_of_getElem? hi) c tid rfl
    rcases hsignalled with hkilled | hsignal
    · exact hkilled
    · rcases h.signal c hsignal with hlive | hkilled
      · cases hlive.symm.trans hphase
      · exact hkilled

theorem emit (h : Watch s) {i : ℕ} {id : EventId} {now : DateTime}
    (hs : s.step (.emit i id now) = some s') : Watch s' := by
  obtain ⟨n, rest, outbox, handed, hi, rfl⟩ := Supervised.step_emit hs
  have hturn : Watch (s.advance
      { s.node.become i (.emit rest) with outbox := outbox, handed := handed }) := by
    refine h.turn hi rfl h.registered rfl (fun r hr => hr) ?_ ?_
    · rintro k r tid ⟨⟩
    · rintro c ⟨notices, hnotices, hreports⟩ hc
      obtain rfl := Work.emit.inj hnotices
      obtain ⟨m, hm, hkind⟩ := hreports
      exact h.pending i _ c hi ⟨_, rfl, m, List.mem_cons_of_mem n hm, hkind⟩ hc
  refine ⟨hturn.registered, hturn.idle, hturn.signal, hturn.mark, hturn.speaker, hturn.pending,
    hturn.terminates, ?_⟩
  intro p hp hkind
  rcases List.mem_append.mp hp with hp | hp
  · exact h.interrupted p hp hkind
  · obtain ⟨rfl, hspeaker⟩ := Supervised.next_eq_some hi (Option.mem_toList.mp hp)
    exact h.pending i _ _ hi ⟨_, rfl, _, List.mem_cons_self, hkind⟩ hspeaker

theorem other (h : Watch s) {a : CliLabel} (hs : s.step (.other a) = some s') : Watch s' := by
  obtain ⟨d, rfl, hstate, hstarting, heffects, htasks | ⟨i, t, work, hi, hturn, htasks⟩⟩ :=
    Supervised.step_other hs
  · have hsp := Supervised.advance_speakers (s := s) (congrArg List.length htasks)
    refine ⟨?_, ?_, h.signal, ?_, ?_, ?_, h.terminates, h.interrupted⟩
    · show ∀ r j, d.state.jobs r = some j → j < d.effects.length
      rw [hstate]
      exact fun r j hj => (h.registered r j hj).trans_le heffects.length_le
    · show d.starting.isSome → _
      rw [hstarting]
      exact h.idle
    · show ∀ r, d.state.interrupted r = true → _
      simp only [hstate, Supervised.advance_node, htasks]
      exact h.mark
    · simp only [Supervised.advance_node, htasks, hsp]
      exact h.speaker
    · simp only [Supervised.advance_node, htasks, hsp]
      exact h.pending
  · refine h.turn hi htasks ?_ hstarting ?_ ?_ ?_
    · rw [hstate]
      exact fun r j hj => (h.registered r j hj).trans_le heffects.length_le
    · rw [hstate]
      exact fun r hr => hr
    · intro k r tid hk
      rcases hturn with rfl | ⟨c, v, -, rfl⟩
      · exact hk
      · cases hk
    · rintro c ⟨notices, hnotices, hreports⟩ hc
      rcases hturn with rfl | ⟨_, v, -, rfl⟩
      · exact h.pending i t c hi ⟨notices, hnotices, hreports⟩ hc
      · obtain rfl := Work.emit.inj hnotices
        obtain ⟨n, ⟨⟩, -⟩ := hreports

theorem getElem?_snoc_cases {α β : Type*} {xs : List α} {ys : List β}
    (hlen : ys.length = xs.length) {i : ℕ} {x x' : α} (y : β) (hi : (xs ++ [x])[i]? = some x') :
    (xs[i]? = some x' ∧ (ys ++ [y])[i]? = ys[i]?) ∨ (x' = x ∧ (ys ++ [y])[i]? = some y) := by
  by_cases hlt : i < xs.length
  · rw [List.getElem?_append_left hlt] at hi
    exact .inl ⟨hi, List.getElem?_append_left (hlen ▸ hlt)⟩
  · obtain ⟨hle, -⟩ := List.getElem?_eq_some_iff.mp hi
    rw [List.length_append, List.length_singleton] at hle
    obtain rfl : i = xs.length := by omega
    rw [List.getElem?_concat_length] at hi
    refine .inr ⟨(Option.some.inj hi).symm, ?_⟩
    rw [← hlen]
    exact List.getElem?_concat_length

/-- A new task reports no interruption; if it is a supervisor it is attributed. -/
theorem attributed_snoc (h : Watch s) (hledger : Ledger s) {t : SpawnedTask}
    (hspeaker : ∀ k r tid, t.work = .supervise k r tid → t.speaker = some k)
    (hreports : ∀ c, t.Reports → t.speaker ≠ some c) (i : ℕ) (t' : SpawnedTask)
    (hi : (s.node.tasks ++ [t])[i]? = some t') :
    (∀ k r tid, t'.work = .supervise k r tid →
      (s.speakers ++ [t.speaker])[i]? = some (some k)) ∧
    ∀ c, t'.Reports → (s.speakers ++ [t.speaker])[i]? = some (some c) → c ∈ s.killed := by
  rcases getElem?_snoc_cases hledger.length t.speaker hi with ⟨hi, hsame⟩ | ⟨rfl, hnew⟩
  · rw [hsame]
    exact ⟨fun k r tid => h.speaker i t' k r tid hi, fun c => h.pending i t' c hi⟩
  · rw [hnew]
    refine ⟨fun k r tid hk => congrArg some (hspeaker k r tid hk), ?_⟩
    intro c hr hc
    exact absurd (Option.some.inj hc) (hreports c hr)

theorem attributed_same (h : Watch s) {d : CliNode} (htasks : d.tasks = s.node.tasks) :
    (∀ t ∈ d.tasks, ∀ k r tid, t.work = .supervise k r tid → t ∈ s.node.tasks) ∧
    ∀ (i : ℕ) (t : SpawnedTask), d.tasks[i]? = some t →
      (∀ k r tid, t.work = .supervise k r tid → (s.advance d).speakers[i]? = some (some k)) ∧
      ∀ c, t.Reports → (s.advance d).speakers[i]? = some (some c) → c ∈ s.killed := by
  rw [Supervised.advance_speakers (congrArg List.length htasks), htasks]
  refine ⟨fun t ht _ _ _ _ => ht, ?_⟩
  intro i t hi
  exact ⟨fun k r tid => h.speaker i t k r tid hi, fun c => h.pending i t c hi⟩

theorem start (h : Watch s) (hledger : Ledger s) {spawned : Bool}
    (hok : Undisturbed s (.start spawned)) (hs : s.step (.start spawned) = some s') :
    Watch s' := by
  obtain ⟨st, hst, rfl⟩ := Supervised.step_start hs
  have hsignal : s.signal = none := h.idle (by rw [hst]; rfl)
  let t : SpawnedTask := ⟨some st.commandId, .supervise st.commandId st.runId st.spec.taskId⟩
  have htasks : (s.node.startProcess st).tasks = s.node.tasks ++ [t] := rfl
  have hattributed := h.attributed_snoc hledger (t := t) ?_ ?_
  · refine ⟨?_, ?_, ?_, ?_, ?_, ?_, h.terminates, h.interrupted⟩
    · intro r j hj
      show j < (s.node.effects ++ [_]).length
      change Function.update s.node.state.jobs st.runId (some s.node.effects.length) r = some j at hj
      rw [Function.update_apply] at hj
      rw [List.length_append]
      split at hj
      · rw [← Option.some.inj hj]
        exact Nat.lt_succ_self _
      · exact (h.registered r j hj).trans (Nat.lt_succ_self _)
    · intro _
      exact hsignal
    · intro c hc
      cases hsignal.symm.trans hc
    · intro r hr
      obtain ⟨c, hc, honly⟩ := h.mark r hr
      refine ⟨c, hc, ?_⟩
      intro t' ht' k tid hk
      rcases List.mem_append.mp (htasks ▸ ht') with ht' | ht'
      · exact honly t' ht' k tid hk
      · rw [List.mem_singleton.mp ht'] at hk
        obtain ⟨rfl, rfl, rfl⟩ := Work.supervise.inj hk
        cases (hok st hst).symm.trans hr
    · intro i t' k r tid hi hk
      change (s.advance _).speakers[i]? = _
      rw [Supervised.advance_speakers_snoc htasks]
      exact (hattributed i t' hi).1 k r tid hk
    · intro i t' c hi hr hc
      change (s.advance _).speakers[i]? = _ at hc
      rw [Supervised.advance_speakers_snoc htasks] at hc
      exact (hattributed i t' hi).2 c hr hc
  · intro k r tid hk
    obtain ⟨rfl, -⟩ := Work.supervise.inj hk
    exact Ledger.speaker_some rfl rfl
  · rintro c ⟨notices, ⟨⟩, -⟩

/-- The process that a stop is about to signal. -/
theorem signal_of_stop (h : Watch s) {m : HubToNode} {nowSecs : ℤ} {stop : Option RunId}
    {prompt : Option CommandId}
    (hhears : Hears s.node stop prompt (s.node.handleHubMessage nowSecs m)) :
    ((s.node.handleHubMessage nowSecs m).terminated.drop s.node.terminated.length).head?.bind
      (s.node.handleHubMessage nowSecs m).nameOf = stop.bind s.node.job := by
  rw [hhears.terminated, List.drop_left]
  cases stop with
  | none => rfl
  | some r =>
      rw [Option.bind_some, Option.bind_some]
      cases hj : s.node.state.jobs r with
      | none =>
          unfold CliNode.job
          rw [hj]
          rfl
      | some j =>
          obtain ⟨c, hname, hjob⟩ := h.job_isSome hj
          rw [hjob]
          exact nameOf_of_prefix hhears.effects hname

theorem hear (h : Watch s) (hledger : Ledger s) {m : HubToNode} {nowSecs : ℤ}
    (hok : Undisturbed s (.hear m nowSecs)) (hs : s.step (.hear m nowSecs) = some s') :
    Watch s' := by
  obtain ⟨hnone, hstarting, rfl⟩ := Supervised.step_hear hs
  have hhears := CliNode.handle_hears hstarting nowSecs m
  have hsignal := h.signal_of_stop hhears
  have hkilled : ∀ c, (c ∈ s.killed ∨ s.signal = some c) → c ∈ s.killed := by
    rintro c (hc | hc)
    · exact hc
    · cases hnone.symm.trans hc
  have hattributed : (∀ t ∈ (s.node.handleHubMessage nowSecs m).tasks, ∀ k r tid,
      t.work = .supervise k r tid → t ∈ s.node.tasks) ∧
      ∀ (i : ℕ) (t : SpawnedTask), (s.node.handleHubMessage nowSecs m).tasks[i]? = some t →
        (∀ k r tid, t.work = .supervise k r tid →
          (s.advance (s.node.handleHubMessage nowSecs m)).speakers[i]? = some (some k)) ∧
        ∀ c, t.Reports →
          (s.advance (s.node.handleHubMessage nowSecs m)).speakers[i]? = some (some c) →
          c ∈ s.killed := by
    rcases hhears.rest with ⟨htasks, -⟩ | ⟨t, c, htasks, -, -, hwork⟩ | ⟨st, htasks, -⟩
    · exact h.attributed_same htasks
    · rw [htasks, Supervised.advance_speakers_snoc htasks]
      have hplain : (∀ k r tid, t.work ≠ .supervise k r tid) ∧
          ∀ c, t.Reports → t.speaker ≠ some c := by
        rcases hwork with ⟨hzero, -, hnot⟩ | ⟨-, -, notices, hnotices, hplain⟩
        · refine ⟨hnot, ?_⟩
          intro c _
          rw [Ledger.speaker_none hzero]
          rintro ⟨⟩
        · refine ⟨?_, ?_⟩
          · rw [hnotices]
            rintro k r tid ⟨⟩
          · rintro c ⟨notices', hnotices', n, hn, hkind⟩
            obtain rfl := Work.emit.inj (hnotices.symm.trans hnotices')
            exact absurd hkind (hplain n hn)
      refine ⟨?_, h.attributed_snoc hledger (fun k r tid hk => absurd hk (hplain.1 k r tid))
        hplain.2⟩
      intro t' ht' k r tid hk
      rcases List.mem_append.mp ht' with ht' | ht'
      · exact ht'
      · rw [List.mem_singleton.mp ht'] at hk
        exact absurd hk (hplain.1 k r tid)
    · exact h.attributed_same htasks
  refine ⟨?_, ?_, ?_, ?_, fun i t k r tid hi => (hattributed.2 i t hi).1 k r tid,
    fun i t c hi => (hattributed.2 i t hi).2 c, ?_, h.interrupted⟩
  · intro r j hj
    change (s.node.handleHubMessage nowSecs m).state.jobs r = some j at hj
    rw [hhears.jobs] at hj
    exact (h.registered r j hj).trans_le hhears.effects.length_le
  · intro hst
    show _ = none
    rw [hsignal]
    rcases hhears.rest with ⟨-, hst', -⟩ | ⟨t, c, -, hst', -⟩ | ⟨st, -, -, -, hstop⟩
    · change (s.node.handleHubMessage nowSecs m).starting.isSome at hst
      rw [hst'] at hst
      cases hst
    · change (s.node.handleHubMessage nowSecs m).starting.isSome at hst
      rw [hst'] at hst
      cases hst
    · rw [hstop]
      rfl
  · intro c hc
    change _ = some c at hc
    rw [hsignal] at hc
    obtain ⟨r, hstop, hjob⟩ := Option.bind_eq_some_iff.mp hc
    exact ((hok r hstop).2 c hjob).1
  · intro r hr
    rcases hhears.marked r hr with hold | ⟨hstop, hj⟩
    · obtain ⟨c, hc, honly⟩ := h.mark r hold
      refine ⟨c, .inl (hkilled c hc), ?_⟩
      intro t ht k tid hk
      exact honly t (hattributed.1 t ht k r tid hk) k tid hk
    · obtain ⟨j, hj⟩ := Option.isSome_iff_exists.mp hj
      obtain ⟨c, -, hjob⟩ := h.job_isSome hj
      refine ⟨c, .inr ?_, ?_⟩
      · show _ = some c
        rw [hsignal, hstop]
        exact hjob
      · intro t ht k tid hk
        exact ((hok r hstop).2 c hjob).2 t (hattributed.1 t ht k r tid hk) k tid hk
  · intro c hc
    rcases List.mem_append.mp hc with hc | hc
    · exact .inl (hkilled c (h.terminates c hc))
    · obtain ⟨r, hr, hlive⟩ := List.mem_flatMap.mp hc
      have hstop := CliNode.stops_of_interrupts (Option.mem_toList.mp hr)
      refine .inr ?_
      show _ = some c
      rw [hsignal, hstop]
      exact (hok r hstop).1 c hlive

theorem step (h : Watch s) (hledger : Ledger s) (a : SupervisionLabel) (hok : Undisturbed s a)
    (hs : s.step a = some s') : Watch s' := by
  cases a with
  | hear m nowSecs => exact h.hear hledger hok hs
  | start spawned => exact h.start hledger hok hs
  | signal => exact h.signalled hs
  | exit c =>
      obtain ⟨-, rfl⟩ := Supervised.step_exit hs
      exact h.ends hok
  | wait c =>
      obtain ⟨hexited, rfl⟩ := Supervised.step_wait hs
      refine h.ends ?_
      intro hc
      rcases h.signal c hc with hlive | hkilled
      · cases hlive.symm.trans hexited
      · exact hkilled
  | join i result => exact h.join hs
  | emit i id now => exact h.emit hs
  | other a => exact h.other hs

theorem of_reach (hreach : Supervised.system.Reach Undisturbed s) : Watch s :=
  hreach.invariant_reach (fun _ hs => init hs)
    (fun _ a _ hr h hok hs => h.step (Ledger.of_reach hr) a hok hs)

end Watch

/-- **Undisturbed interrupts.** While every stop finds its run with the one
registered process, the engine keeps its contract. -/
theorem supervises {s : Supervised} (hreach : Supervised.system.Reach Undisturbed s) :
    Supervises s := by
  have hledger := Ledger.of_reach hreach
  have hwatch := Watch.of_reach hreach
  refine ⟨hwatch.terminates, ?_, ?_, hwatch.interrupted⟩
  · intro c
    by_cases hc : ∃ i : ℕ, s.speakers[i]? = some (some c)
    · obtain ⟨i, hi⟩ := hc
      obtain ⟨t, ht⟩ := hledger.task hi
      have hbalance := hledger.balance i c t hi ht
      omega
    · rw [hledger.silent c (fun i hi => hc ⟨i, hi⟩)]
      exact Nat.zero_le 1
  · intro c hc hsettled
    rcases hledger.prompts c hc with ⟨st, hst, heq⟩ | ⟨i, hi⟩
    · exact absurd heq (hsettled.1 st hst)
    · obtain ⟨t, ht⟩ := hledger.task hi
      have hbalance := hledger.balance i c t hi ht
      rw [hsettled.2 i t hi ht] at hbalance
      exact hbalance

/-- A node process that has just started. -/
def freshSupervised : Supervised := ⟨freshNode, fun _ => none, none, [], [], [], [], []⟩

theorem freshSupervised_init : Supervised.system.init freshSupervised :=
  ⟨⟨_, _, rfl⟩, rfl, rfl, rfl, rfl, rfl, rfl, rfl⟩

/-- A first delivery. -/
def told (u : ℕ) (work : NodeWork) : SupervisionLabel :=
  .hear (.dispatchCommand ⟨BitVec.ofNat 128 u⟩ none work) 0

/-- A prompt of run 10. -/
def prompting (u : ℕ) : SupervisionLabel := told u (.sendPrompt ⟨7⟩ ⟨10⟩ "go on" "m")

/-- The interrupt of run 10. -/
def interrupting (u : ℕ) : SupervisionLabel := told u (.interruptRun ⟨10⟩)

set_option maxRecDepth 4096 in
/-- The only prompt of a run is interrupted and says so. -/
theorem supervises_sample :
    ∃ s, Supervised.system.run freshSupervised [told 1 (runStart 7 10), prompting 2, .start true,
        interrupting 3, .signal, .exit ⟨2⟩, .wait ⟨2⟩, .other (.acknowledge 1), .join 1 none,
        .emit 1 ⟨20⟩ .epoch] = some s ∧
      s.owed = [⟨2⟩] ∧ s.killed = [⟨2⟩] ∧ s.terminals ⟨2⟩ = 1 ∧ Supervises s := by
  have hstart : Supervised.system.Reach Undisturbed freshSupervised :=
    .start freshSupervised_init
  have hrun := hstart.next (a := told 1 (runStart 7 10)) (by rintro r ⟨⟩) rfl
  have hprompt := hrun.next (a := prompting 2) (by rintro r ⟨⟩) rfl
  have hspawned := hprompt.next (a := SupervisionLabel.start true) (by
    intro st hst
    obtain rfl := Option.some.inj hst
    rfl) rfl
  have hinterrupt := hspawned.next (a := interrupting 3) (by
    intro r hr
    obtain rfl := Option.some.inj hr
    refine ⟨?_, ?_⟩
    · intro c hc
      rw [List.mem_singleton.mp hc]
      rfl
    · intro c hc
      obtain rfl := Option.some.inj hc
      refine ⟨.inl rfl, ?_⟩
      intro t ht k tid hk
      rcases List.mem_pair.mp ht with rfl | rfl
      · cases hk
      · exact (Work.supervise.inj hk).1.symm) rfl
  have hsignalled := hinterrupt.next (a := SupervisionLabel.signal) trivial rfl
  have hexited := hsignalled.next (a := SupervisionLabel.exit ⟨2⟩) (by rintro ⟨⟩) rfl
  have hwaited := hexited.next (a := SupervisionLabel.wait ⟨2⟩) trivial rfl
  have hacked := hwaited.next (a := SupervisionLabel.other (.acknowledge 1)) trivial rfl
  have hjoined := hacked.next (a := SupervisionLabel.join 1 none) trivial rfl
  have hemitted := hjoined.next (a := SupervisionLabel.emit 1 ⟨20⟩ .epoch) trivial rfl
  exact ⟨_, rfl, rfl, rfl, rfl, supervises hemitted⟩

set_option maxRecDepth 4096 in
/-- Of two live prompts of a run an interrupt terminates the later one. -/
theorem overlooked :
    ∃ s, Supervised.system.Reach Anyway s ∧ ¬ Supervises s ∧ s.owed = [⟨2⟩, ⟨3⟩] ∧
      s.killed = [⟨3⟩] ∧ s.signal = none ∧ s.phase ⟨2⟩ = some .live := by
  have hrun : ∃ s, Supervised.system.run freshSupervised [told 1 (runStart 7 10), prompting 2,
        .start true, prompting 3, .start true, interrupting 4, .signal] = some s ∧
      s.owed = [⟨2⟩, ⟨3⟩] ∧ s.killed = [⟨3⟩] ∧ s.signal = none ∧ s.phase ⟨2⟩ = some .live :=
    ⟨_, rfl, rfl, rfl, rfl, rfl⟩
  obtain ⟨s, hs, howed, hkilled, hsignal, hlive⟩ := hrun
  refine ⟨s, .of_run (.start freshSupervised_init) hs, ?_, howed, hkilled, hsignal, hlive⟩
  intro h
  rcases h.terminates ⟨2⟩ (howed ▸ List.mem_cons_self) with hin | hsome
  · rw [hkilled] at hin
    exact absurd (List.mem_singleton.mp hin) (by decide)
  · cases hsignal.symm.trans hsome

end Stackhour.Node
