import Stackhour.Core.EngineSpec
import Stackhour.Node.Engine

/-!
# The processes of the engines

What `spawn_engine` starts: the arguments and the prompt of a provider process. An engine
without an argument for the system prompt gets it in front of the user's message.
-/

namespace Stackhour.Node

open Core Domain

/-! ## The prompt -/

/-- `SYSTEM_PROMPT_TURN`. -/
def systemPromptTurn : String :=
  "[System instructions]\n\x7b\x7bsystem\x7d\x7d\n\n[User message]\n\x7b\x7bprompt\x7d\x7d"

def placeholderSystem : String := "\x7b\x7bsystem\x7d\x7d"

def placeholderPrompt : String := "\x7b\x7bprompt\x7d\x7d"

/-- The two replacements of `apply_system_prompt`, in their order. -/
def turnBindings (system prompt : String) : List (Template.Binding Char) :=
  [⟨placeholderSystem.toList, system.toList, by decide⟩,
    ⟨placeholderPrompt.toList, prompt.toList, by decide⟩]

def renderTurn (system prompt : String) : String :=
  String.ofList (Template.fill (turnBindings system prompt) systemPromptTurn.toList)

/-- `apply_system_prompt`. -/
def applySystemPrompt (d : EngineDef) (r : RunRequest) : RunRequest :=
  if d.systemPromptArgs.isSome then r
  else if r.sessionId.isSome ∧ d.kind ≠ .claudeStreamJson then r
  else
    match r.systemPrompt with
    | none => r
    | some system =>
        if trim system = "" then { r with systemPrompt := none }
        else { r with systemPrompt := none, prompt := renderTurn system r.prompt }

/-! ## The process -/

def RunRequest.argvVars (r : RunRequest) : ArgvVars where
  sessionId := r.sessionId
  model := r.model
  permissionMode := r.permissionMode
  systemPrompt := r.systemPrompt
  effort := r.effort
  allowTools := []
  denyTools := []
  liveStatus := r.liveStatus

/-- `build_argv`. -/
def buildArgv (d : EngineDef) (r : RunRequest) : List String :=
  d.assembleArgv r.argvVars ++ if d.promptDelivery = .lastArg then [r.prompt] else []

/-- A process as it is started, and what is written to it. -/
structure Spawn where
  bin : String
  args : List String
  cwd : Option String
  stdin : Option String

/-- `spawn_engine`. -/
def spawnEngine (d : EngineDef) (r : RunRequest) : Spawn :=
  let r := applySystemPrompt d r
  { bin := r.bin.getD d.bin
    args := buildArgv d r
    cwd := r.cwd
    stdin := if d.promptDelivery = .stdin then some r.prompt else none }

/-- The prompt as the process gets it: written to it, or as its last argument. -/
def Spawn.received (s : Spawn) : Option String := s.stdin.or s.args.getLast?

/-! ## What a turn reads -/

/-- The literal parts of the template with the two texts in their places. -/
def turnText (system prompt : String) : String :=
  "[System instructions]\n" ++ system ++ "\n\n[User message]\n" ++ prompt

/-- The system text that goes in front of the user's message, if one does. -/
def prepended (d : EngineDef) (r : RunRequest) : Option String :=
  if d.systemPromptArgs.isSome ∨ (r.sessionId.isSome ∧ d.kind ≠ .claudeStreamJson) then none
  else r.systemPrompt.filter (fun system => trim system != "")

def promptText (d : EngineDef) (r : RunRequest) : String :=
  match prepended d r with
  | none => r.prompt
  | some system => turnText system r.prompt

theorem newline_separates (system prompt : String) :
    Template.Separates (turnBindings system prompt) '\n' := by
  intro b hb
  simp only [turnBindings, List.mem_cons, List.not_mem_nil, or_false] at hb
  rcases hb with rfl | rfl
  · show '\n' ∉ placeholderSystem.toList
    decide
  · show '\n' ∉ placeholderPrompt.toList
    decide

theorem turn_literal (system prompt : String) {s : List Char}
    (h : ¬ placeholderSystem.toList <:+: s ∧ ¬ placeholderPrompt.toList <:+: s) :
    Template.fill (turnBindings system prompt) s = s := by
  apply Template.fill_literal
  intro b hb
  simp only [turnBindings, List.mem_cons, List.not_mem_nil, or_false] at hb
  rcases hb with rfl | rfl
  · exact h.1
  · exact h.2

/-- The user's prompt comes to its place, and into the system text. -/
theorem renderTurn_eq (system prompt : String) : (renderTurn system prompt).toList =
    "[System instructions]".toList ++ '\n' ::
      (Template.replace placeholderPrompt.toList prompt.toList system.toList ++ '\n' ::
        ("\n[User message]".toList ++ '\n' :: prompt.toList)) := by
  have hsplit : systemPromptTurn.toList = "[System instructions]".toList ++ '\n' ::
      (placeholderSystem.toList ++ '\n' ::
        ("\n[User message]".toList ++ '\n' :: placeholderPrompt.toList)) := by
    decide
  have hsystem : Template.fill (turnBindings system prompt) placeholderSystem.toList =
      Template.replace placeholderPrompt.toList prompt.toList system.toList := by
    exact @Template.fill_placeholder _ _ []
      [⟨placeholderPrompt.toList, prompt.toList, by decide⟩]
      ⟨placeholderSystem.toList, system.toList, by decide⟩ nofun
  have hprompt : Template.fill (turnBindings system prompt) placeholderPrompt.toList =
      prompt.toList := by
    refine @Template.fill_placeholder _ _ [⟨placeholderSystem.toList, system.toList, by decide⟩] []
      ⟨placeholderPrompt.toList, prompt.toList, by decide⟩ ?_
    intro q hq
    rw [List.mem_singleton.mp hq]
    show ¬ placeholderSystem.toList <:+: placeholderPrompt.toList
    decide
  have hsep := newline_separates system prompt
  unfold renderTurn
  rw [String.toList_ofList, hsplit, Template.fill_sep hsep, Template.fill_sep hsep,
    Template.fill_sep hsep, hsystem, hprompt, turn_literal _ _ (by decide),
    turn_literal _ _ (by decide)]

theorem renderTurn_eq_iff (system prompt : String) :
    renderTurn system prompt = turnText system prompt ↔
      ¬ placeholderPrompt.toList <:+: system.toList ∨ prompt = placeholderPrompt := by
  have hturn : (turnText system prompt).toList = "[System instructions]".toList ++ '\n' ::
      (system.toList ++ '\n' :: ("\n[User message]".toList ++ '\n' :: prompt.toList)) := by
    have hhead : "[System instructions]\n".toList = "[System instructions]".toList ++ ['\n'] := by
      decide
    have hmiddle : "\n\n[User message]\n".toList =
        '\n' :: ("\n[User message]".toList ++ ['\n']) := by
      decide
    unfold turnText
    rw [String.toList_append, String.toList_append, String.toList_append, hhead, hmiddle]
    simp only [List.append_assoc, List.cons_append, List.nil_append]
  have hreplaced := @Template.replace_eq_self_iff _ _ placeholderPrompt.toList (by decide)
    prompt.toList system.toList
  rw [← String.toList_inj, renderTurn_eq, hturn, ← String.toList_inj]
  generalize "[System instructions]".toList = head
  generalize "\n[User message]".toList = middle
  simp only [List.append_cancel_left_eq, List.cons.injEq, List.append_cancel_right_eq, true_and]
  exact hreplaced

theorem received_eq (d : EngineDef) (r : RunRequest) :
    (spawnEngine d r).received = some (applySystemPrompt d r).prompt := by
  unfold spawnEngine Spawn.received buildArgv
  cases d.promptDelivery with
  | stdin => rfl
  | lastArg => exact List.getLast?_concat ..

/-- **The prompt is filled in simultaneously** exactly when the system text has no place for
the user's message, or the message is that place itself. -/
theorem prompt_received (d : EngineDef) (r : RunRequest) :
    (spawnEngine d r).received = some (promptText d r) ↔
      ∀ system, prepended d r = some system →
        ¬ placeholderPrompt.toList <:+: system.toList ∨ r.prompt = placeholderPrompt := by
  rw [received_eq, Option.some_inj]
  unfold applySystemPrompt promptText prepended
  by_cases hargs : d.systemPromptArgs.isSome = true
  · rw [if_pos hargs, if_pos (.inl hargs)]
    exact iff_of_true rfl nofun
  · by_cases hresumed : r.sessionId.isSome = true ∧ d.kind ≠ .claudeStreamJson
    · rw [if_neg hargs, if_pos hresumed, if_pos (.inr hresumed)]
      exact iff_of_true rfl nofun
    · rw [if_neg hargs, if_neg hresumed, if_neg (not_or.mpr ⟨hargs, hresumed⟩)]
      cases hsystem : r.systemPrompt with
      | none => exact iff_of_true rfl nofun
      | some system =>
          dsimp only
          by_cases hblank : trim system = ""
          · have hfilter : Option.filter (fun system => trim system != "") (some system) = none := by
              simp [Option.filter, hblank]
            rw [if_pos hblank, hfilter]
            exact iff_of_true rfl nofun
          · have hfilter : Option.filter (fun system => trim system != "") (some system) =
                some system := by
              simp [Option.filter, hblank]
            rw [if_neg hblank, hfilter]
            dsimp only
            rw [renderTurn_eq_iff]
            constructor
            · rintro h _ ⟨⟩
              exact h
            · exact fun h => h system rfl

/-- The user's message is put into the system text too. -/
theorem prompt_twice : ¬ ∀ (d : EngineDef) (r : RunRequest),
    (spawnEngine d r).received = some (promptText d r) := by
  intro h
  have hreceived := h builtinCodex ⟨"hi", none, none, some "default", some placeholderPrompt, none,
    none, true, none⟩
  exact absurd hreceived (by decide)

end Stackhour.Node
