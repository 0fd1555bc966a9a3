import Stackhour.Node.StreamSpec

/-!
# Conversations go on

A run that is prompted again resumes the session that its provider named. The node learns of a
session from the output of a process and keeps it for the next prompt, with other runs and other
prompts of the same run under way.
-/

namespace Stackhour.Node

open Core Domain JsonGrammar TransitionSystem

/-! ## The end of a process -/

/-- How a process ended. -/
inductive Exit where
  | notSpawned (error : String)
  | ended (output : List UInt8) (code : Option ℤ) (stderr : String)

def Exit.output : Exit → List UInt8
  | notSpawned _ => []
  | ended output _ _ => output

def streamKind (engine : String) : StreamKind :=
  if engine = "claude" then .claudeStreamJson else .codexJsonl

/-- What `spawn_engine` hands to the supervisor. -/
def Exit.result (ft : FloatText) (engine : String) (request : RunRequest) : Exit → RunResult
  | notSpawned error => ⟨"", request.sessionId, none, some error, ""⟩
  | ended output code stderr =>
      let s := StreamState.readOutput ft (streamKind engine) request.sessionId output
      ⟨s.text, s.sessionId, code, none, stderr⟩

/-- A process of a run that has ended: what it resumed and what it printed. -/
structure Turn where
  runId : RunId
  engine : String
  resumed : Option String
  output : List UInt8

def Turn.events (ft : FloatText) (t : Turn) : List Json := eventsIn ft (outputLines t.output)

/-- The sessions that a process named. -/
def Turn.named (ft : FloatText) (t : Turn) : List String :=
  (t.events ft).filterMap
    (if t.engine = "claude" then (strField · "session_id") else threadStarted)

/-- The session a process leaves. -/
def Turn.reported (ft : FloatText) (t : Turn) : Option String :=
  if t.engine = "claude" then claudeSession t.resumed (t.events ft)
  else codexSession t.resumed (t.events ft)

/-- The session that a run was last in. -/
def lastReported (ft : FloatText) (r : RunId) (turns : List Turn) : Option String :=
  ((turns.filter fun t => t.runId = r).filterMap (Turn.reported ft)).getLast?

/-! ## The node and what its runs have said -/

/-- The process that a command started. -/
def executionOf (d : CliNode) (c : CommandId) (r : RunId) : Option (String × RunRequest) :=
  d.effects.findSome? fun e =>
    match e.2 with
    | .executed r' engine request => if e.1 = c ∧ r' = r then some (engine, request) else none
    | _ => none

/-- The node, the turns that its runs have taken, and how many there had been when a prompt was
dispatched. -/
structure Conversing where
  node : CliNode
  begun : List (CommandId × ℕ)
  turns : List Turn

/-- A process ends with what it printed, or its supervisor fails. -/
inductive TurnLabel where
  | node (a : CliLabel)
  | exit (i : ℕ) (e : Option Exit)

namespace Conversing

def step (ft : FloatText) (s : Conversing) : TurnLabel → Option Conversing
  | .node (.join _ _) => none
  | .node (.hear m nowSecs) =>
      (s.node.step (.hear m nowSecs)).map fun d =>
        { s with
          node := d
          begun := s.begun ++ (d.starting.map fun st => (st.commandId, s.turns.length)).toList }
  | .node a => (s.node.step a).map fun d => { s with node := d }
  | .exit i e =>
      match s.node.tasks[i]? with
      | some ⟨none, .supervise c r _⟩ =>
          (executionOf s.node c r).bind fun x =>
            (s.node.step (.join i (e.map (Exit.result ft x.1 x.2)))).map fun d =>
              { s with
                node := d
                turns := s.turns ++ (e.map fun e => ⟨r, x.1, x.2.sessionId, e.output⟩).toList }
      | _ => none

def system (ft : FloatText) : System Conversing TurnLabel where
  init s := CliNode.system.init s.node ∧ s.begun = [] ∧ s.turns = []
  step := step ft

end Conversing

/-! ## Steps of the node -/

def Work.supervises : Work → Bool
  | .supervise .. => true
  | _ => false

def Effect.executes : Effect → Bool
  | .executed .. => true
  | _ => false

/-- A step that starts and ends no process. -/
def CliLabel.isBystander : CliLabel → Bool
  | .hear .. | .start | .join .. => false
  | _ => true

namespace CliNode

variable {d d' : CliNode}

/-- What leaves the sessions, and starts and supervises no process. -/
structure Steady (d d' : CliNode) : Prop where
  sessions : d'.state.sessions = d.state.sessions
  executed : ∀ c r engine request, (c, Effect.executed r engine request) ∈ d'.effects →
    (c, Effect.executed r engine request) ∈ d.effects
  effects : d.effects <+: d'.effects
  supervised : ∀ t ∈ d'.tasks, ∀ c r tid, t.work = .supervise c r tid →
    ∃ t' ∈ d.tasks, t'.work = .supervise c r tid

theorem Steady.refl (d : CliNode) : Steady d d :=
  ⟨rfl, fun _ _ _ _ h => h, List.prefix_refl _, fun t ht _ _ _ hw => ⟨t, ht, hw⟩⟩

theorem Steady.same (hsessions : d'.state.sessions = d.state.sessions)
    (heffects : d'.effects = d.effects) (htasks : d'.tasks = d.tasks) : Steady d d' :=
  ⟨hsessions, fun _ _ _ _ h => heffects ▸ h, heffects ▸ List.prefix_refl _,
    fun t ht _ _ _ hw => ⟨t, htasks ▸ ht, hw⟩⟩

theorem Steady.trans {d'' : CliNode} (h : Steady d d') (h' : Steady d' d'') : Steady d d'' where
  sessions := h'.sessions.trans h.sessions
  executed c r engine request hmem := h.executed c r engine request (h'.executed c r _ _ hmem)
  effects := h.effects.trans h'.effects
  supervised t ht c r tid hw := by
    obtain ⟨t', ht', hw'⟩ := h'.supervised t ht c r tid hw
    exact h.supervised t' ht' c r tid hw'

/-- From a state that agrees on all of this. -/
theorem Steady.since {d₁ : CliNode} (h : Steady d₁ d')
    (hsessions : d₁.state.sessions = d.state.sessions) (heffects : d₁.effects = d.effects)
    (htasks : d₁.tasks = d.tasks) : Steady d d' :=
  (Steady.same hsessions heffects htasks).trans h

/-- A task that supervises nothing. -/
theorem Steady.spawn (d : CliNode) (c : CommandId) {work : Work} (h : work.supervises = false) :
    Steady d (d.spawn c work) := by
  refine ⟨rfl, fun _ _ _ _ h => h, List.prefix_refl _, ?_⟩
  intro t ht c' r tid hw
  rcases List.mem_append.mp ht with ht | ht
  · exact ⟨t, ht, hw⟩
  · obtain rfl := List.mem_singleton.mp ht
    dsimp only at hw
    rw [hw] at h
    cases h

theorem Steady.effect (d : CliNode) (c : CommandId) {e : Effect} (h : e.executes = false) :
    Steady d (d.effect c e) := by
  refine ⟨rfl, ?_, List.prefix_append _ _, fun t ht _ _ _ hw => ⟨t, ht, hw⟩⟩
  intro c' r engine request hmem
  rcases List.mem_append.mp hmem with hmem | hmem
  · exact hmem
  · obtain ⟨-, rfl⟩ := Prod.ext_iff.mp (List.mem_singleton.mp hmem)
    cases h

theorem Steady.become (d : CliNode) (i : ℕ) {work : Work}
    (h : ∀ c r tid, work = .supervise c r tid → ∃ t ∈ d.tasks, t.work = .supervise c r tid) :
    Steady d (d.become i work) := by
  refine ⟨rfl, fun _ _ _ _ h => h, List.prefix_refl _, ?_⟩
  intro t ht c r tid hw
  rcases List.mem_or_eq_of_mem_set ht with ht | rfl
  · exact ⟨t, ht, hw⟩
  · exact h c r tid hw

theorem Steady.stopRun (d : CliNode) (r : RunId) : Steady d (d.stopRun r) := by
  unfold CliNode.stopRun
  split
  · exact Steady.same rfl rfl rfl
  · exact Steady.refl d

/-- What a dispatch may start: the prompt resumes the session of its run. -/
def Resumes (d d' : CliNode) : Prop :=
  d'.starting = d.starting ∨ ∃ st, d'.starting = some st ∧
    st.sessionId = d.state.sessions st.runId

theorem stopRun_starting (d : CliNode) (r : RunId) : (d.stopRun r).starting = d.starting := by
  unfold CliNode.stopRun
  split <;> rfl

theorem perform_steady (d : CliNode) (c : CommandId) (work : NodeWork) :
    Steady d (d.perform c work) ∧ Resumes d (d.perform c work) := by
  cases work with
  | startRun r t engine model effort prompt policy path =>
      refine ⟨?_, .inl rfl⟩
      exact ((Steady.effect _ c rfl).trans (Steady.spawn _ c rfl)).since rfl rfl rfl
  | sendPrompt t r text m =>
      unfold CliNode.perform
      dsimp only
      split
      · exact ⟨Steady.spawn _ c rfl, .inl rfl⟩
      · split
        · exact ⟨Steady.same rfl rfl rfl, .inr ⟨_, rfl, rfl⟩⟩
        · exact ⟨Steady.spawn _ c rfl, .inl rfl⟩
  | interruptRun r =>
      refine ⟨?_, .inl (d.stopRun_starting r)⟩
      exact ((Steady.stopRun d r).trans (Steady.effect _ c rfl)).trans (Steady.spawn _ c rfl)
  | update version => exact ⟨Steady.spawn _ c rfl, .inl rfl⟩

theorem handle_steady (d : CliNode) (nowSecs : ℤ) (m : HubToNode) :
    Steady d (d.handleHubMessage nowSecs m) ∧ Resumes d (d.handleHubMessage nowSecs m) := by
  cases m with
  | dispatchCommand c expiresAt work =>
      unfold CliNode.handleHubMessage
      dsimp only
      split
      · exact ⟨Steady.same rfl rfl rfl, .inl rfl⟩
      · unfold CliNode.dispatch
        split
        · exact ⟨(Steady.spawn _ c rfl).since rfl rfl rfl, .inl rfl⟩
        · obtain ⟨hsteady, hresumes⟩ := perform_steady
            (({ d with heard := d.heard ++ [c] } : CliNode).markSeen c) c work
          exact ⟨hsteady.since rfl rfl rfl, hresumes⟩
  | cancelCommand c =>
      unfold CliNode.handleHubMessage CliNode.cancel
      dsimp only
      split
      · exact ⟨Steady.stopRun d _, .inl (d.stopRun_starting _)⟩
      · exact ⟨Steady.refl d, .inl rfl⟩
  | eventAck id => exact ⟨Steady.same rfl rfl rfl, .inl rfl⟩
  | approvalDecision id decision actor => exact ⟨Steady.refl d, .inl rfl⟩
  | heartbeat => exact ⟨Steady.refl d, .inl rfl⟩

theorem step_steady {a : CliLabel} (ha : a.isBystander = true) (hs : d.step a = some d') :
    Steady d d' ∧ d'.starting = d.starting := by
  cases a with
  | hear m nowSecs => cases ha
  | start => cases ha
  | join i result => cases ha
  | acknowledge i =>
      simp only [CliNode.step] at hs
      split at hs
      · next c work hi =>
          have hbecome : Steady d (d.become i work) := by
            apply Steady.become
            intro c' r tid hw
            exact ⟨_, List.mem_of_getElem? hi, hw⟩
          split at hs
          · obtain rfl := Option.some.inj hs
            exact ⟨hbecome.trans (Steady.same rfl rfl rfl), rfl⟩
          · obtain rfl := Option.some.inj hs
            exact ⟨hbecome.trans (Steady.same rfl rfl rfl), rfl⟩
      · cases hs
  | emit i eventId now =>
      simp only [CliNode.step] at hs
      split at hs
      · next n rest hi =>
        obtain rfl := Option.some.inj hs
        have hbecome : Steady d (d.become i (.emit rest)) :=
          Steady.become d i fun _ _ _ h => nomatch h
        exact ⟨hbecome.trans (Steady.same rfl rfl rfl), rfl⟩
      · cases hs
  | launch i =>
      simp only [CliNode.step] at hs
      split at hs
      · next c version hi =>
          obtain rfl := Option.some.inj hs
          have hbecome : Steady d (d.become i (.emit [])) :=
            Steady.become d i fun _ _ _ h => nomatch h
          split
          · exact ⟨hbecome.trans (Steady.effect _ c rfl), rfl⟩
          · exact ⟨hbecome, rfl⟩
      · cases hs
  | attach tx =>
      obtain rfl := Option.some.inj hs
      exact ⟨Steady.same rfl rfl rfl, rfl⟩
  | detach =>
      obtain rfl := Option.some.inj hs
      exact ⟨Steady.same rfl rfl rfl, rfl⟩
  | resend =>
      obtain rfl := Option.some.inj hs
      exact ⟨Steady.same rfl rfl rfl, rfl⟩

theorem step_join {i : ℕ} {result : Option RunResult} {c : CommandId} {r : RunId} {tid : TaskId}
    (hi : d.tasks[i]? = some ⟨none, .supervise c r tid⟩) (hs : d.step (.join i result) = some d') :
    d' = (d.become i (.emit (endNotices tid r (d.state.interrupted r) result))).finish c r
      result := by
  simp only [CliNode.step, hi] at hs
  exact (Option.some.inj hs).symm

end CliNode

/-! ## What is reported -/

variable {ft : FloatText} {r : RunId}

theorem mem_executionOf {d : CliNode} {c : CommandId} {x : String × RunRequest}
    (h : executionOf d c r = some x) : (c, Effect.executed r x.1 x.2) ∈ d.effects := by
  obtain ⟨⟨c', e⟩, hmem, he⟩ := List.exists_of_findSome?_eq_some h
  cases e with
  | executed r' engine request =>
      dsimp only at he
      split at he
      · next hsame =>
          obtain ⟨rfl, rfl⟩ := hsame
          obtain rfl := Option.some.inj he
          exact hmem
      · cases he
  | _ => cases he

theorem executionOf_isSome {d : CliNode} {c : CommandId} {engine : String} {request : RunRequest}
    (h : (c, Effect.executed r engine request) ∈ d.effects) :
    (executionOf d c r).isSome = true := by
  unfold executionOf
  rw [List.findSome?_isSome_iff]
  exact ⟨_, h, by simp⟩

theorem Exit.result_session (engine : String) (request : RunRequest) (e : Exit) :
    (e.result ft engine request).sessionId =
      Turn.reported ft ⟨r, engine, request.sessionId, e.output⟩ := by
  unfold Turn.reported Turn.events
  cases e with
  | notSpawned error =>
      have hnone : eventsIn ft (outputLines (Exit.notSpawned error).output) = [] := rfl
      rw [hnone]
      dsimp only
      split_ifs <;> simp [Exit.result, claudeSession, codexSession]
  | ended output code stderr =>
      unfold Exit.result StreamState.readOutput streamKind Exit.output
      dsimp only
      split_ifs
      · rw [(StreamState.takes_claude ft).foldl_feed _ rfl]
        exact (foldl_feedClaude _ _).2
      · rw [(StreamState.takes_codex ft).foldl_feed _ rfl]
        exact (foldl_feedCodex _ _).2

theorem lastReported_snoc (turns : List Turn) (t : Turn) :
    lastReported ft r (turns ++ [t]) =
      if t.runId = r then (t.reported ft).or (lastReported ft r turns)
      else lastReported ft r turns := by
  unfold lastReported
  rw [List.filter_append, List.filterMap_append, List.getLast?_append]
  by_cases h : t.runId = r
  · rw [if_pos h, List.filter_cons_of_pos (by simpa using h)]
    congr 1
    cases hreported : t.reported ft <;> simp [hreported]
  · rw [if_neg h, List.filter_cons_of_neg (by simpa using h)]
    rfl

/-- What a process reports it has named, or it had resumed it. -/
theorem Turn.named_or_resumed {t : Turn} {id : String} (h : t.reported ft = some id) :
    id ∈ t.named ft ∨ t.resumed = some id := by
  unfold Turn.reported at h
  unfold Turn.named
  split_ifs at h ⊢ with hengine
  · unfold claudeSession at h
    rcases Option.or_eq_some_iff.mp h with h | ⟨-, h⟩
    · rcases Option.or_eq_some_iff.mp h with h | ⟨-, h⟩
      · obtain ⟨e, he, hid⟩ := List.mem_filterMap.mp (List.mem_of_getLast? h)
        refine .inl (List.mem_filterMap.mpr ⟨e, he, ?_⟩)
        unfold resultSession at hid
        split at hid
        · exact hid
        · cases hid
      · exact .inr h
    · exact .inl (List.mem_of_head? h)
  · unfold codexSession at h
    rcases Option.or_eq_some_iff.mp h with h | ⟨-, h⟩
    · exact .inl (List.mem_of_getLast? h)
    · exact .inr h

theorem Turn.reported_of_named {t : Turn} (h : t.named ft ≠ []) :
    (t.reported ft).isSome = true := by
  unfold Turn.named at h
  unfold Turn.reported
  split_ifs at h ⊢ with hengine
  · unfold claudeSession
    rw [Option.isSome_or, List.isSome_head?.mpr h, Bool.or_true]
  · unfold codexSession
    rw [Option.isSome_or, List.getLast?_isSome.mpr h, Bool.true_or]

/-! ## The invariant -/

namespace Conversing

/-- A prompt that resumes what its run had last reported when it was dispatched. -/
def Begun (ft : FloatText) (s : Conversing) (c : CommandId) (r : RunId)
    (session : Option String) : Prop :=
  ∃ n ≤ s.turns.length, (c, n) ∈ s.begun ∧ session = lastReported ft r (s.turns.take n)

structure Inv (ft : FloatText) (s : Conversing) : Prop where
  sessions : ∀ r, s.node.state.sessions r = lastReported ft r s.turns
  starting : ∀ st, s.node.starting = some st → s.Begun ft st.commandId st.runId st.sessionId
  executed : ∀ c r engine request, (c, Effect.executed r engine request) ∈ s.node.effects →
    s.Begun ft c r request.sessionId
  turns : ∀ n t, s.turns[n]? = some t →
    ∃ m ≤ n, t.resumed = lastReported ft t.runId (s.turns.take m)
  supervised : ∀ t ∈ s.node.tasks, ∀ c r tid, t.work = .supervise c r tid →
    (executionOf s.node c r).isSome = true

variable {s s' : Conversing}

theorem Begun.mono {c : CommandId} {session : Option String} (h : s.Begun ft c r session)
    {m : List (CommandId × ℕ)} {l : List Turn} (hbegun : s'.begun = s.begun ++ m)
    (hturns : s'.turns = s.turns ++ l) : s'.Begun ft c r session := by
  obtain ⟨n, hn, hmem, hsession⟩ := h
  refine ⟨n, ?_, ?_, ?_⟩
  · rw [hturns, List.length_append]
    exact hn.trans (Nat.le_add_right _ _)
  · rw [hbegun]
    exact List.mem_append_left _ hmem
  · rw [hturns, List.take_append_of_le_length hn]
    exact hsession

theorem executionOf_mono {d d' : CliNode} (h : d.effects <+: d'.effects) {c : CommandId}
    (hd : (executionOf d c r).isSome = true) : (executionOf d' c r).isSome = true := by
  obtain ⟨x, hx⟩ := Option.isSome_iff_exists.mp hd
  exact executionOf_isSome (h.subset (mem_executionOf hx))

namespace Inv

/-- Steps that start and end no process. -/
theorem steady (h : Inv ft s) {d : CliNode} (hsteady : CliNode.Steady s.node d)
    (more : List (CommandId × ℕ))
    (hstarting : ∀ st, d.starting = some st → s.node.starting = some st ∨
      (st.sessionId = s.node.state.sessions st.runId ∧
        (st.commandId, s.turns.length) ∈ s.begun ++ more)) :
    Inv ft { s with node := d, begun := s.begun ++ more } where
  sessions r := (congrFun hsteady.sessions r).trans (h.sessions r)
  starting st hst := by
    rcases hstarting st hst with hold | ⟨hsession, hmem⟩
    · exact (h.starting st hold).mono (l := []) rfl (List.append_nil _).symm
    · refine ⟨s.turns.length, Nat.le_refl _, hmem, ?_⟩
      rw [hsession, h.sessions, List.take_length]
  executed c r engine request hmem :=
    (h.executed c r engine request (hsteady.executed c r engine request hmem)).mono (l := [])
      rfl (List.append_nil _).symm
  turns := h.turns
  supervised t ht c r tid hw := by
    obtain ⟨t', ht', hw'⟩ := hsteady.supervised t ht c r tid hw
    exact executionOf_mono hsteady.effects (h.supervised t' ht' c r tid hw')

theorem start (h : Inv ft s) {st : Starting} (hst : s.node.starting = some st) :
    Inv ft { s with node := s.node.startProcess st } where
  sessions := h.sessions
  starting := nofun
  executed c r engine request hmem := by
    rcases List.mem_append.mp hmem with hmem | hmem
    · exact (h.executed c r engine request hmem).mono (m := []) (l := [])
        (List.append_nil _).symm (List.append_nil _).symm
    · obtain ⟨rfl, he⟩ := Prod.ext_iff.mp (List.mem_singleton.mp hmem)
      obtain ⟨rfl, rfl, rfl⟩ := Effect.executed.inj he
      exact (h.starting st hst).mono (m := []) (l := [])
        (List.append_nil _).symm (List.append_nil _).symm
  turns := h.turns
  supervised t ht c r tid hw := by
    have hprefix : s.node.effects <+: (s.node.startProcess st).effects := List.prefix_append _ _
    rcases List.mem_append.mp ht with ht | ht
    · exact executionOf_mono hprefix (h.supervised t ht c r tid hw)
    · obtain rfl := List.mem_singleton.mp ht
      obtain ⟨rfl, rfl, -⟩ := Work.supervise.inj hw
      exact executionOf_isSome (List.mem_append_right _ (List.mem_singleton_self _))

/-- The end of a process: its session is what its run resumes next. -/
theorem exit (h : Inv ft s) {i : ℕ} {c : CommandId} {tid : TaskId} {x : String × RunRequest}
    (hi : s.node.tasks[i]? = some ⟨none, .supervise c r tid⟩)
    (hx : executionOf s.node c r = some x) (e : Option Exit) {d : CliNode}
    (hd : s.node.step (.join i (e.map (Exit.result ft x.1 x.2))) = some d) :
    Inv ft { s with
      node := d
      turns := s.turns ++ (e.map fun e => ⟨r, x.1, x.2.sessionId, e.output⟩).toList } := by
  obtain rfl := CliNode.step_join hi hd
  constructor
  · intro r'
    dsimp only [CliNode.finish, CliNode.become]
    cases e with
    | none => exact (h.sessions r').trans (congrArg _ (List.append_nil _).symm)
    | some e =>
        rw [Option.map_some, Option.bind_some, Exit.result_session (r := r), Option.map_some,
          Option.toList_some, lastReported_snoc]
        by_cases hr : r = r'
        · subst hr
          rw [if_pos rfl]
          cases Turn.reported ft ⟨r, x.1, x.2.sessionId, e.output⟩ with
          | none => exact h.sessions r
          | some id => exact Function.update_self ..
        · rw [if_neg hr]
          cases Turn.reported ft ⟨r, x.1, x.2.sessionId, e.output⟩ with
          | none => exact h.sessions r'
          | some id => exact (Function.update_of_ne (Ne.symm hr) ..).trans (h.sessions r')
  · intro st hst
    exact (h.starting st hst).mono (m := []) (List.append_nil _).symm rfl
  · intro c' r' engine request hmem
    exact (h.executed c' r' engine request hmem).mono (m := []) (List.append_nil _).symm rfl
  · intro n t ht
    dsimp only at ht ⊢
    rcases Nat.lt_or_ge n s.turns.length with hn | hn
    · rw [List.getElem?_append_left hn] at ht
      obtain ⟨m, hm, hresumed⟩ := h.turns n t ht
      exact ⟨m, hm, hresumed.trans
        (congrArg _ (List.take_append_of_le_length (hm.trans hn.le)).symm)⟩
    · cases e with
      | none =>
          rw [Option.map_none, Option.toList_none, List.append_nil,
            List.getElem?_eq_none hn] at ht
          cases ht
      | some e =>
          rw [List.getElem?_append_right hn] at ht
          obtain rfl := List.mem_singleton.mp (List.mem_of_getElem? ht)
          obtain ⟨m, hm, -, hresumed⟩ := h.executed c r x.1 x.2 (mem_executionOf hx)
          exact ⟨m, hm.trans hn, hresumed.trans
            (congrArg _ (List.take_append_of_le_length hm).symm)⟩
  · intro t ht c' r' tid' hw
    rcases List.mem_or_eq_of_mem_set ht with ht | rfl
    · exact h.supervised t ht c' r' tid' hw
    · cases hw

theorem step (h : Inv ft s) {a : TurnLabel} (hs : s.step ft a = some s') : Inv ft s' := by
  have hother : ∀ {a : CliLabel}, a.isBystander = true →
      s.step ft (.node a) = some s' → Inv ft s' := by
    intro a ha hs
    have hstep : s.step ft (.node a) = (s.node.step a).map fun d => { s with node := d } := by
      cases a <;> first | rfl | cases ha
    rw [hstep] at hs
    obtain ⟨d, hd, rfl⟩ := Option.map_eq_some_iff.mp hs
    obtain ⟨hsteady, hstarting⟩ := CliNode.step_steady ha hd
    have hnext := h.steady hsteady [] fun st hst => .inl (hstarting ▸ hst)
    rwa [List.append_nil] at hnext
  cases a with
  | exit i e =>
      simp only [Conversing.step] at hs
      split at hs
      · next c r tid hi =>
          obtain ⟨x, hx, hs⟩ := Option.bind_eq_some_iff.mp hs
          obtain ⟨d, hd, rfl⟩ := Option.map_eq_some_iff.mp hs
          exact h.exit hi hx e hd
      · cases hs
  | node a =>
      cases a with
      | join i result => cases hs
      | hear m nowSecs =>
          obtain ⟨d, hd, rfl⟩ := Option.map_eq_some_iff.mp hs
          simp only [CliNode.step] at hd
          split at hd
          · cases hd
          · next hnone =>
              obtain rfl := Option.some.inj hd
              obtain ⟨hsteady, hresumes⟩ := CliNode.handle_steady s.node nowSecs m
              apply h.steady hsteady
              intro st hst
              rcases hresumes with hsame | ⟨st', hst', hsession⟩
              · exact .inl (hsame ▸ hst)
              · obtain rfl := Option.some.inj (hst.symm.trans hst')
                refine .inr ⟨hsession, List.mem_append_right _ ?_⟩
                rw [hst, Option.map_some]
                exact List.mem_singleton_self _
      | start =>
          obtain ⟨d, hd, rfl⟩ := Option.map_eq_some_iff.mp hs
          obtain ⟨st, hst, rfl⟩ := Option.map_eq_some_iff.mp hd
          exact h.start hst
      | acknowledge i => exact hother rfl hs
      | emit i eventId now => exact hother rfl hs
      | launch i => exact hother rfl hs
      | attach tx => exact hother rfl hs
      | detach => exact hother rfl hs
      | resend => exact hother rfl hs

theorem reach (h : (Conversing.system ft).Reach Anyway s) : Inv ft s := by
  refine h.invariant ?_ fun s a t hinv _ hs => hinv.step hs
  rintro ⟨_, _, _⟩ ⟨⟨config, nodeId, rfl⟩, rfl, rfl⟩
  exact ⟨fun _ => rfl, nofun, nofun, nofun, nofun⟩

/-- A session that is resumed was named by a process of the same run. By induction on how many
turns had been taken: a process reports what it named or what it had itself resumed. -/
theorem named (h : Inv ft s) {n : ℕ} {id : String}
    (hid : lastReported ft r (s.turns.take n) = some id) :
    ∃ t ∈ s.turns.take n, t.runId = r ∧ id ∈ t.named ft := by
  induction n using Nat.strongRecOn generalizing id with
  | ind n ih =>
      obtain ⟨t, ht, hreported⟩ := List.mem_filterMap.mp (List.mem_of_getLast? hid)
      obtain ⟨hmem, hrun⟩ := List.mem_filter.mp ht
      have hrun : t.runId = r := of_decide_eq_true hrun
      rcases Turn.named_or_resumed hreported with hnamed | hresumed
      · exact ⟨t, hmem, hrun, hnamed⟩
      · obtain ⟨k, hk⟩ := List.mem_iff_getElem?.mp hmem
        have hkn : k < n := by
          by_contra hge
          rw [List.getElem?_take, if_neg hge] at hk
          cases hk
        rw [List.getElem?_take_of_lt hkn] at hk
        obtain ⟨m, hm, heq⟩ := h.turns k t hk
        rw [hrun, hresumed] at heq
        obtain ⟨t', ht', hrun', hid'⟩ := ih m (Nat.lt_of_le_of_lt hm hkn) heq.symm
        exact ⟨t', List.take_subset_take_left _ (hm.trans hkn.le) ht', hrun', hid'⟩

end Inv

/-- **A conversation goes on.** In every run of the node, whatever else is under way: a prompt
resumes the session that its run had last reported when it was dispatched, if any process of the
run had named one; and that session was named by a process of that run, not of another. -/
theorem conversation_kept (h : (Conversing.system ft).Reach Anyway s) :
    (∀ c r engine request, (c, Effect.executed r engine request) ∈ s.node.effects →
      s.Begun ft c r request.sessionId) ∧
    ∀ n r, (∀ id, lastReported ft r (s.turns.take n) = some id →
        ∃ t ∈ s.turns.take n, t.runId = r ∧ id ∈ t.named ft) ∧
      ((∃ t ∈ s.turns.take n, t.runId = r ∧ t.named ft ≠ []) →
        (lastReported ft r (s.turns.take n)).isSome = true) := by
  have hinv := Inv.reach h
  refine ⟨hinv.executed, fun n r => ⟨fun id hid => hinv.named hid, ?_⟩⟩
  rintro ⟨t, ht, hrun, hnamed⟩
  obtain ⟨id, hid⟩ := Option.isSome_iff_exists.mp (Turn.reported_of_named hnamed)
  apply List.getLast?_isSome.mpr
  apply List.ne_nil_of_mem (a := id)
  exact List.mem_filterMap.mpr ⟨t, List.mem_filter.mpr ⟨ht, decide_eq_true hrun⟩, hid⟩

/-- Every process that is supervised can end, in any way. -/
theorem exit_enabled (h : (Conversing.system ft).Reach Anyway s) {i : ℕ} {c : CommandId}
    {tid : TaskId} (hi : s.node.tasks[i]? = some ⟨none, .supervise c r tid⟩) (e : Option Exit) :
    (s.step ft (.exit i e)).isSome = true := by
  obtain ⟨x, hx⟩ := Option.isSome_iff_exists.mp
    ((Inv.reach h).supervised _ (List.mem_of_getElem? hi) c r tid rfl)
  simp only [Conversing.step, hi, hx, Option.bind_some, Option.isSome_map, CliNode.step]
  rfl

/-- A prompt of run 10. -/
def asking (c : CommandId) (text : String) : TurnLabel :=
  .node (.hear (.dispatchCommand c none (.sendPrompt ⟨7⟩ ⟨10⟩ text "m")) 0)

/-- A run of Codex that is prompted twice. -/
def talk : List TurnLabel :=
  [.node (.hear (.dispatchCommand ⟨1⟩ none
      (.startRun ⟨10⟩ ⟨7⟩ "codex" none none none .automatic none)) 0),
    asking ⟨2⟩ "go on", .node .start, .node (.acknowledge 1),
    .exit 1 (some (.ended (codexTurn.flatMap (Printed.bytes floatBits)) (some 0) "")),
    asking ⟨3⟩ "and then", .node .start]

theorem codexTurn_reported :
    lastReported floatBits ⟨10⟩
      [⟨⟨10⟩, "codex", none, codexTurn.flatMap (Printed.bytes floatBits)⟩] = some "t1" := by
  have hblank : ∀ text, Utf8.decode [] = some text → Unreadable floatBits text := by
    intro text htext
    obtain rfl : [] = text := Option.some.inj htext
    exact .inl rfl
  have hevents := eventsIn_printed floatBits_lawful codexTurn_carried (by decide) hblank
  rw [List.append_nil] at hevents
  have hreported : Turn.reported floatBits
      ⟨⟨10⟩, "codex", none, codexTurn.flatMap (Printed.bytes floatBits)⟩ = some "t1" := by
    unfold Turn.reported Turn.events
    rw [hevents, if_neg (by decide)]
    rfl
  rw [← List.nil_append [_], lastReported_snoc, if_pos rfl, hreported]
  rfl

/-- The second prompt resumes the thread of the first. -/
theorem conversation_kept_talk :
    ∃ s, (Conversing.system floatBits).run ⟨.fresh ⟨none, none, none⟩ ⟨"n"⟩, [], []⟩ talk =
        some s ∧
      ∀ request, (⟨3⟩, Effect.executed ⟨10⟩ "codex" request) ∈ s.node.effects →
        request.sessionId = some "t1" := by
  have hinit : (Conversing.system floatBits).init ⟨.fresh ⟨none, none, none⟩ ⟨"n"⟩, [], []⟩ :=
    ⟨⟨_, _, rfl⟩, rfl, rfl⟩
  refine ⟨_, rfl, ?_⟩
  intro request hmem
  have hreach := @System.Reach.of_run _ _ _ _ _ talk (System.Reach.start hinit) rfl
  obtain ⟨n, -, hbegun, hsession⟩ := (conversation_kept hreach).1 _ _ _ _ hmem
  obtain rfl : n = 1 := by
    change ((⟨3⟩ : CommandId), n) ∈ [(⟨2⟩, 0), (⟨3⟩, 1)] at hbegun
    simpa using hbegun
  exact hsession.trans codexTurn_reported

end Conversing

end Stackhour.Node
