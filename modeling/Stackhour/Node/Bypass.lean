import Stackhour.Hub.Validation
import Stackhour.Node.Process

/-!
# Runs without full access

Which arguments of a provider process come from the request, and when one of them is an
argument that takes the provider out of its sandbox or past its permission checks.
-/

namespace Stackhour.Node

open Core Domain

/-- The arguments by which a provider leaves its sandbox or its permission checks. -/
def bypassFlags : List String :=
  [bypassSandboxFlag, bypassPermissionMode, "--dangerously-skip-permissions"]

/-- A value with the placeholders that are filled after its own, the `k` first ones. -/
def filledAfter (k : ℕ) (vars : ArgvVars) (value : String) : String :=
  String.ofList (Template.fill (vars.bindings.drop k) value.toList)

/-- The texts of a request that become arguments of their own. -/
def exposed (e : Shipped) (r : RunRequest) : List String :=
  r.model.toList ++
    match e with
    | .claude => (r.systemPrompt.map (filledAfter 4 r.argvVars)).toList ++
        (r.sessionId.map (filledAfter 1 r.argvVars)).toList
    | .codex => r.sessionId.toList

/-! ## Single arguments -/

theorem flag_not_quoted {f : String} (hf : f ∈ bypassFlags) : '"' ∉ f.toList := by
  have hflags : ∀ f ∈ bypassFlags, '"' ∉ f.toList := by decide
  exact hflags f hf

/-- The argument for the effort is quoted. -/
theorem effort_quoted (vars : ArgvVars) : '"' ∈ (subst vars effortTemplate).toList := by
  have hsplit : effortTemplate.toList = "model_reasoning_effort=".toList ++ '"' ::
      (placeholderEffort.toList ++ ['"']) := by
    decide
  unfold subst
  rw [String.toList_ofList, hsplit, Template.fill_sep (quote_separates vars)]
  exact List.mem_append_right _ List.mem_cons_self

theorem literal_of_no_brace {s : String} (h : '\x7b' ∉ s.toList) : Literal s := by
  have hbrace : ∀ p ∈ placeholders, '\x7b' ∈ p.toList := by decide
  exact fun p hp hin => h (hin.subset (hbrace p hp))

theorem system_prompt_argument {vars : ArgvVars} {system : String}
    (h : vars.systemPrompt = some system) :
    subst vars placeholderSystemPrompt = filledAfter 4 vars system := by
  have hfilled := @subst_placeholder vars (vars.bindings.take 3) (vars.bindings.drop 4)
    ⟨placeholderSystemPrompt.toList, (vars.systemPrompt.getD "").toList, by decide⟩ rfl
  rw [String.ofList_toList] at hfilled
  rw [hfilled, h]
  rfl

theorem session_argument {vars : ArgvVars} {sid : String} (h : vars.sessionId = some sid) :
    subst vars placeholderSessionId = filledAfter 1 vars sid := by
  have hfilled := @subst_placeholder vars [] (vars.bindings.drop 1)
    ⟨placeholderSessionId.toList, (vars.sessionId.getD "").toList, by decide⟩ rfl
  rw [String.ofList_toList] at hfilled
  rw [hfilled, h]
  rfl

/-- A model that was accepted is its argument. -/
theorem model_argument {vars : ArgvVars} {model : String} (h : vars.model = some model)
    (hmodel : '\x7b' ∉ model.toList) : subst vars placeholderModel = model := by
  have hfilled := @subst_placeholder vars (vars.bindings.take 1) (vars.bindings.drop 2)
    ⟨placeholderModel.toList, (vars.model.getD "").toList, by decide⟩ rfl
  have hfree := (literal_of_no_brace hmodel).free vars
  have hrest := Template.fill_literal fun b (hb : b ∈ vars.bindings.drop 2) =>
    hfree b (List.mem_of_mem_drop hb)
  rw [String.ofList_toList] at hfilled
  rw [hfilled, h]
  exact (congrArg String.ofList hrest).trans String.ofList_toList

/-! ## The arguments of a request -/

theorem applySystemPrompt_argv (d : EngineDef) (r : RunRequest) :
    ∃ system prompt, applySystemPrompt d r = { r with systemPrompt := system, prompt := prompt } := by
  unfold applySystemPrompt
  split
  · exact ⟨_, _, rfl⟩
  · split
    · exact ⟨_, _, rfl⟩
    · split
      · exact ⟨_, _, rfl⟩
      · split
        · exact ⟨_, _, rfl⟩
        · exact ⟨_, _, rfl⟩

/-- A literal argument is none of the flags, unless it is written as one. -/
theorem flag_not_literal {vars : ArgvVars} {f : String} (hf : f ∈ bypassFlags)
    {literals : List String} (h : ∀ l ∈ literals, Literal l ∧ l ∉ bypassFlags) :
    f ∉ literals.map (subst vars) := by
  intro hin
  obtain ⟨l, hl, rfl⟩ := List.mem_map.mp hin
  rw [(h l hl).1.subst_eq] at hf
  exact (h l hl).2 hf

/-- A group of a name and a value brings the value. -/
theorem mem_named {vars : ArgvVars} {name placeholder : String} {value : Option String}
    {g : String → String} (hname : Literal name ∧ name ∉ bypassFlags)
    (hvalue : ∀ v, value = some v → subst vars placeholder = g v) {f : String}
    (hf : f ∈ bypassFlags) :
    f ∈ (EngineDef.optional value.isSome (some [name, placeholder])).map (subst vars) ↔
      f ∈ (value.map g).toList := by
  cases h : value with
  | none => exact Iff.rfl
  | some v =>
      have hown : f ≠ name := fun heq => hname.2 (heq ▸ hf)
      show f ∈ [subst vars name, subst vars placeholder] ↔ f ∈ [g v]
      rw [hname.1.subst_eq, hvalue v h, List.mem_cons]
      exact or_iff_right hown

theorem mem_model {vars : ArgvVars} (hmodel : ∀ m, vars.model = some m → '\x7b' ∉ m.toList)
    {f : String} (hf : f ∈ bypassFlags) :
    f ∈ (EngineDef.optional vars.model.isSome (some ["--model", placeholderModel])).map (subst vars) ↔
      f ∈ vars.model.toList := by
  have hargument := fun m h => model_argument h (hmodel m h)
  have hmem := @mem_named vars "--model" _ vars.model id (by decide) hargument f hf
  rw [Option.map_id, id] at hmem
  exact hmem

theorem not_misread (e : Shipped) (vars : ArgvVars) : ¬ e.engineDef.Misread (subst vars) vars := by
  have hverbose : Literal "--verbose" := by decide
  cases e with
  | claude => exact EngineDef.claude_not_misread (hverbose.subst_eq vars) vars
  | codex => exact EngineDef.codex_not_misread _ vars

theorem flag_not_base (e : Shipped) {vars : ArgvVars} {f : String} (hf : f ∈ bypassFlags) :
    f ∉ e.engineDef.args.map (subst vars) := by
  cases e
  · exact flag_not_literal hf (by decide)
  · exact flag_not_literal hf (by decide)

theorem flag_not_live (e : Shipped) {f : String} (hf : f ∈ bypassFlags) (live : Bool) :
    f ∉ EngineDef.optional live (e.engineDef.partialMessagesFlag.map (fun flag => [flag])) := by
  have hown : ∀ f ∈ bypassFlags, f ∉ EngineDef.optional live
      (e.engineDef.partialMessagesFlag.map (fun flag => [flag])) := by
    cases e <;> cases live <;> decide
  exact hown f hf

theorem flag_not_permission (e : Shipped) {f : String} (hf : f ∈ bypassFlags) :
    f ∉ e.engineDef.permissionArgv (some "default") := by
  have hown : ∀ f ∈ bypassFlags, f ∉ e.engineDef.permissionArgv (some "default") := by
    cases e <;> decide
  exact hown f hf

theorem flag_not_effort (e : Shipped) {vars : ArgvVars} {f : String} (hf : f ∈ bypassFlags) :
    f ∉ (EngineDef.optional vars.effort.isSome e.engineDef.effortArgs).map (subst vars) := by
  intro hin
  cases e with
  | claude =>
      have hnone : EngineDef.optional vars.effort.isSome builtinClaude.effortArgs = [] := by
        cases vars.effort <;> rfl
      rw [show Shipped.claude.engineDef = builtinClaude from rfl, hnone] at hin
      cases hin
  | codex =>
      cases heffort : vars.effort with
      | none =>
          rw [heffort] at hin
          cases hin
      | some effort =>
          have hname : f ∉ ["-c"].map (subst vars) := flag_not_literal hf (by decide)
          rw [heffort] at hin
          rcases List.mem_cons.mp hin with h | h
          · exact hname (List.mem_singleton.mpr h)
          · rw [List.mem_singleton.mp h] at hf
            exact flag_not_quoted hf (effort_quoted vars)

/-- The flags among the arguments: the model, or what the groups of the system prompt and of the
session bring. -/
theorem mem_args (e : Shipped) {vars : ArgvVars} (hmode : vars.permissionMode = some "default")
    (hmodel : ∀ m, vars.model = some m → '\x7b' ∉ m.toList)
    (hallow : vars.allowTools = []) (hdeny : vars.denyTools = []) {f : String}
    (hf : f ∈ bypassFlags) :
    f ∈ e.engineDef.assembleArgv vars ↔
      f ∈ vars.model.toList ∨
        f ∈ (EngineDef.optional vars.systemPrompt.isSome e.engineDef.systemPromptArgs).map
          (subst vars) ∨
        f ∈ e.engineDef.resumeArgs (subst vars) vars := by
  have hdash : Literal "-" := by decide
  have hdash := hdash.subst_eq vars
  have hmodelArgs : e.engineDef.modelArgs = some ["--model", placeholderModel] := by
    cases e <;> rfl
  have hbase : f ∈ e.engineDef.args.map (subst vars) ↔ False := iff_false_intro (flag_not_base e hf)
  have hlive : f ∈ EngineDef.optional vars.liveStatus
      (e.engineDef.partialMessagesFlag.map (fun flag => [flag])) ↔ False :=
    iff_false_intro (flag_not_live e hf vars.liveStatus)
  have hpermission : f ∈ e.engineDef.permissionArgv vars.permissionMode ↔ False :=
    iff_false_intro (hmode ▸ flag_not_permission e hf)
  have heffort : f ∈ (EngineDef.optional vars.effort.isSome e.engineDef.effortArgs).map
      (subst vars) ↔ False := iff_false_intro (flag_not_effort e hf)
  have htools : ∀ template, EngineDef.optional (!([] : List String).isEmpty) template = [] :=
    fun _ => rfl
  rw [EngineDef.assembleArgv, EngineDef.assembleWith_eq hdash (not_misread e vars),
    EngineDef.mem_documentedWith hdash, hbase]
  unfold EngineDef.groups EngineDef.optionalGroups
  rw [hallow, hdeny, htools, htools, hmodelArgs]
  simp only [List.map_cons, List.map_nil, List.flatten_cons, List.flatten_nil, List.mem_append,
    List.not_mem_nil, or_false, false_or, hlive, hpermission, heffort, mem_model hmodel hf]
  rw [or_comm (a := f ∈ List.map _ _), or_assoc]

theorem mem_resume (e : Shipped) {vars : ArgvVars} {f : String} (hf : f ∈ bypassFlags) :
    f ∈ e.engineDef.resumeArgs (subst vars) vars ↔
      f ∈ match e with
        | .claude => (vars.sessionId.map (filledAfter 1 vars)).toList
        | .codex => vars.sessionId.toList := by
  unfold EngineDef.resumeArgs
  cases h : vars.sessionId with
  | none => cases e <;> exact Iff.rfl
  | some sid =>
      cases e with
      | claude =>
          have hname : f ∉ ["--resume"].map (subst vars) := flag_not_literal hf (by decide)
          show f ∈ [subst vars "--resume", subst vars placeholderSessionId] ↔
            f ∈ [filledAfter 1 vars sid]
          rw [session_argument h, List.mem_cons]
          exact or_iff_right fun heq => hname (List.mem_singleton.mpr heq)
      | codex =>
          have hword : ∀ f ∈ bypassFlags, f ≠ "resume" := by decide
          show f ∈ ["resume", sid] ↔ f ∈ [sid]
          rw [List.mem_cons]
          exact or_iff_right (hword f hf)

theorem mem_system_prompt {vars : ArgvVars} {f : String} (hf : f ∈ bypassFlags) :
    f ∈ (EngineDef.optional vars.systemPrompt.isSome builtinClaude.systemPromptArgs).map
        (subst vars) ↔
      f ∈ (vars.systemPrompt.map (filledAfter 4 vars)).toList :=
  mem_named (by decide) (fun _ h => system_prompt_argument h) hf

/-- The flags that are among the arguments are the request's own texts. -/
theorem mem_spawned (e : Shipped) {r : RunRequest} (hmode : r.permissionMode = some "default")
    (hmodel : ∀ m, r.model = some m → '\x7b' ∉ m.toList) {f : String} (hf : f ∈ bypassFlags) :
    f ∈ (spawnEngine e.engineDef r).args ↔ f ∈ exposed e r := by
  have hargs : (spawnEngine e.engineDef r).args =
      e.engineDef.assembleArgv (applySystemPrompt e.engineDef r).argvVars := by
    unfold spawnEngine buildArgv
    cases e <;> exact List.append_nil _
  cases e with
  | claude =>
      have hr : applySystemPrompt Shipped.claude.engineDef r = r := rfl
      rw [hargs, hr, mem_args .claude hmode hmodel rfl rfl hf, mem_resume .claude hf]
      show _ ∨ f ∈ (EngineDef.optional _ builtinClaude.systemPromptArgs).map _ ∨ _ ↔ _
      rw [mem_system_prompt hf]
      unfold exposed
      rw [List.mem_append, List.mem_append]
      exact Iff.rfl
  | codex =>
      obtain ⟨system, prompt, hr⟩ := applySystemPrompt_argv Shipped.codex.engineDef r
      have hnone : ∀ enabled, EngineDef.optional enabled Shipped.codex.engineDef.systemPromptArgs =
          [] := by
        decide
      rw [hargs, hr, mem_args .codex hmode hmodel rfl rfl hf, mem_resume .codex hf, hnone,
        List.map_nil, or_iff_right List.not_mem_nil]
      unfold exposed
      rw [List.mem_append]
      exact Iff.rfl

theorem model_without_brace {engine : String}
    {model reasoningEffort systemPrompt workspacePath : Option String}
    (h : Hub.validateRunConfiguration engine model reasoningEffort systemPrompt workspacePath =
      .ok ()) : ∀ m, model = some m → '\x7b' ∉ m.toList := by
  rintro m rfl hin
  rcases Hub.validated_model h _ hin with halnum | hmark
  · exact absurd halnum (by decide)
  · exact absurd hmark (by decide)

/-- **No bypass without full access** exactly when no text of the request that becomes an
argument of its own is one of the flags. -/
theorem no_bypass_without_full_access (e : Shipped) (s : Starting) (config : CliEngineConfig)
    (workspacePath : Option String)
    (hvalid : Hub.validateRunConfiguration e.engineDef.name s.spec.model s.spec.reasoningEffort
      s.spec.systemPrompt workspacePath = .ok ())
    (hpolicy : s.spec.accessPolicy ≠ .fullAccess) :
    (∀ a ∈ (spawnEngine e.engineDef (s.request config)).args, a ∉ bypassFlags) ↔
      ∀ a ∈ exposed e (s.request config), a ∉ bypassFlags := by
  have hmode : (s.request config).permissionMode = some "default" := by
    unfold Starting.request
    cases h : s.spec.accessPolicy with
    | fullAccess => exact absurd h hpolicy
    | supervised => rfl
    | automatic => rfl
  have hmodel := model_without_brace hvalid
  constructor
  · exact fun h a ha hflag => h a ((mem_spawned e hmode hmodel hflag).mpr ha) hflag
  · exact fun h a ha hflag => h a ((mem_spawned e hmode hmodel hflag).mp ha) hflag

/-- A supervised codex run that starts a session. -/
def supervisedRun (model : String) : Starting where
  commandId := ⟨1⟩
  runId := ⟨1⟩
  spec := ⟨⟨1⟩, "codex", some model, some "high", some "be brief", .supervised, some "/w"⟩
  text := "hi"
  sessionId := none

/-- A model as it is usually named. -/
theorem no_bypass_without_full_access_sample :
    Hub.validateRunConfiguration "codex" (some "gpt-5") (some "high") (some "be brief")
        (some "/w") = .ok () ∧
      ((∀ a ∈ (spawnEngine builtinCodex ((supervisedRun "gpt-5").request ⟨none, none, none⟩)).args,
          a ∉ bypassFlags) ↔
        ∀ a ∈ exposed .codex ((supervisedRun "gpt-5").request ⟨none, none, none⟩),
          a ∉ bypassFlags) :=
  ⟨by decide, no_bypass_without_full_access .codex (supervisedRun "gpt-5") ⟨none, none, none⟩
    (some "/w") (by decide) (by decide)⟩

/-- A model may be named like the flag, and is an argument of its own. -/
theorem model_is_flag : ¬ ∀ (e : Shipped) (s : Starting) (config : CliEngineConfig)
    (workspacePath : Option String),
    Hub.validateRunConfiguration e.engineDef.name s.spec.model s.spec.reasoningEffort
        s.spec.systemPrompt workspacePath = .ok () →
      s.spec.accessPolicy ≠ .fullAccess →
        ∀ a ∈ (spawnEngine e.engineDef (s.request config)).args, a ∉ bypassFlags := by
  intro h
  have hargs := h .codex (supervisedRun bypassSandboxFlag) ⟨none, none, none⟩ (some "/w")
    (by decide) (by decide) bypassSandboxFlag (by decide)
  exact hargs (by decide)

end Stackhour.Node
