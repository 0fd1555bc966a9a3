import Stackhour.Lib.Template

/-!
# Engine definitions

How a coding engine is spawned, as data: the templates of its arguments, and how they are
filled and put together for one spawn.
-/

namespace Stackhour.Core

/-- `BYPASS_PERMISSION_MODE`. -/
def bypassPermissionMode : String := "bypassPermissions"

/-- `BYPASS_SANDBOX_FLAG`. -/
def bypassSandboxFlag : String := "--dangerously-bypass-approvals-and-sandbox"

def placeholderSessionId : String := "\x7b\x7bsession_id\x7d\x7d"

def placeholderModel : String := "\x7b\x7bmodel\x7d\x7d"

def placeholderPermissionMode : String := "\x7b\x7bpermission_mode\x7d\x7d"

def placeholderSystemPrompt : String := "\x7b\x7bsystem_prompt\x7d\x7d"

def placeholderEffort : String := "\x7b\x7beffort\x7d\x7d"

def placeholderAllowedTools : String := "\x7b\x7ballowed_tools\x7d\x7d"

def placeholderDisallowedTools : String := "\x7b\x7bdisallowed_tools\x7d\x7d"

inductive StreamKind where
  | claudeStreamJson
  | codexJsonl
  | plainLines
deriving DecidableEq

inductive ResumeStyle where
  | flag (args : List String)
  | subcommand (insert : String)
deriving DecidableEq

inductive PromptDelivery where
  | stdin
  | lastArg
deriving DecidableEq

structure EngineDef where
  name : String
  bin : String
  kind : StreamKind
  args : List String
  resume : ResumeStyle
  modelArgs : Option (List String)
  permissionArgs : Option (List String)
  systemPromptArgs : Option (List String)
  promptDelivery : PromptDelivery
  partialMessagesFlag : Option String
  effortArgs : Option (List String)
  allowedToolsArgs : Option (List String)
  disallowedToolsArgs : Option (List String)
deriving DecidableEq

structure ArgvVars where
  sessionId : Option String
  model : Option String
  permissionMode : Option String
  systemPrompt : Option String
  effort : Option String
  allowTools : List String
  denyTools : List String
  liveStatus : Bool
deriving DecidableEq

namespace ArgvVars

/-- `ArgvVars::default`. -/
def default : ArgvVars := ⟨none, none, none, none, none, [], [], false⟩

/-- What `subst` replaces, in its order. -/
def bindings (vars : ArgvVars) : List (Template.Binding Char) :=
  [⟨placeholderSessionId.toList, (vars.sessionId.getD "").toList, by decide⟩,
    ⟨placeholderModel.toList, (vars.model.getD "").toList, by decide⟩,
    ⟨placeholderPermissionMode.toList, (vars.permissionMode.getD "default").toList, by decide⟩,
    ⟨placeholderSystemPrompt.toList, (vars.systemPrompt.getD "").toList, by decide⟩,
    ⟨placeholderEffort.toList, (vars.effort.getD "").toList, by decide⟩,
    ⟨placeholderAllowedTools.toList, (",".intercalate vars.allowTools).toList, by decide⟩,
    ⟨placeholderDisallowedTools.toList, (",".intercalate vars.denyTools).toList, by decide⟩]

end ArgvVars

/-- `subst`. -/
def subst (vars : ArgvVars) (template : String) : String :=
  String.ofList (Template.fill vars.bindings template.toList)

/-! ## The engines that are shipped -/

/-- `builtin_claude`. -/
def builtinClaude : EngineDef where
  name := "claude"
  bin := "claude"
  kind := .claudeStreamJson
  args := ["-p", "--output-format", "stream-json", "--verbose"]
  resume := .flag ["--resume", placeholderSessionId]
  modelArgs := some ["--model", placeholderModel]
  permissionArgs := some ["--permission-mode", placeholderPermissionMode]
  systemPromptArgs := some ["--append-system-prompt", placeholderSystemPrompt]
  promptDelivery := .stdin
  partialMessagesFlag := some "--include-partial-messages"
  effortArgs := none
  allowedToolsArgs := some ["--allowedTools", placeholderAllowedTools]
  disallowedToolsArgs := some ["--disallowedTools", placeholderDisallowedTools]

/-- `builtin_codex`. -/
def builtinCodex : EngineDef where
  name := "codex"
  bin := "codex"
  kind := .codexJsonl
  args := ["exec", "--json", "--skip-git-repo-check", "-"]
  resume := .subcommand "resume"
  modelArgs := some ["--model", placeholderModel]
  permissionArgs := some ["--sandbox", "workspace-write"]
  systemPromptArgs := none
  promptDelivery := .stdin
  partialMessagesFlag := none
  effortArgs := some ["-c", "model_reasoning_effort=\"\x7b\x7beffort\x7d\x7d\""]
  allowedToolsArgs := none
  disallowedToolsArgs := none

/-! ## Assembly -/

/-- `splice_in`: the items go in at the splice point, which moves behind them. -/
def spliceIn (s : List String × ℕ) (items : List String) : List String × ℕ :=
  items.foldl (fun s item => (s.1.insertIdx s.2 item, s.2 + 1)) s

/-- Just before a last `-`, or the end. -/
def beforeSentinel (out : List String) : ℕ :=
  if out.getLast? = some "-" then out.length - 1 else out.length

namespace EngineDef

/-- `permission_argv`. -/
def permissionArgv (d : EngineDef) (permissionMode : Option String) : List String :=
  match d.permissionArgs with
  | none => []
  | some template =>
      let mode := permissionMode.getD "default"
      let takesModeFlag :=
        template.any (fun a => decide (placeholderPermissionMode.toList <:+: a.toList))
      if mode = bypassPermissionMode ∧ takesModeFlag = false then [bypassSandboxFlag]
      else template.map (subst { ArgvVars.default with permissionMode := some mode })

/-- A group of arguments, when it is enabled and the engine has it. -/
def optional (enabled : Bool) (template : Option (List String)) : List String :=
  if enabled then template.getD [] else []

/-- The templates of the groups that are spliced in after the permission arguments. -/
def optionalGroups (d : EngineDef) (vars : ArgvVars) : List (List String) :=
  [optional vars.systemPrompt.isSome d.systemPromptArgs,
    optional vars.model.isSome d.modelArgs,
    optional vars.effort.isSome d.effortArgs,
    optional (!vars.allowTools.isEmpty) d.allowedToolsArgs,
    optional (!vars.denyTools.isEmpty) d.disallowedToolsArgs]

/-- What is spliced in, group by group; `render` fills a template. -/
def groups (d : EngineDef) (render : String → String) (vars : ArgvVars) : List (List String) :=
  optional vars.liveStatus (d.partialMessagesFlag.map (fun flag => [flag])) ::
    d.permissionArgv vars.permissionMode ::
    (d.optionalGroups vars).map (List.map render)

/-- `assemble_argv`, with the function that fills the templates. -/
def assembleWith (d : EngineDef) (render : String → String) (vars : ArgvVars) : List String :=
  let out := d.args.map render
  let out := ((d.groups render vars).foldl spliceIn (out, beforeSentinel out)).1
  match vars.sessionId with
  | none => out
  | some sid =>
      match d.resume with
      | .flag args => out ++ args.map render
      | .subcommand insert =>
          let out := out.insertIdx (min 1 out.length) insert
          out.insertIdx (beforeSentinel out) sid

/-- `assemble_argv`. -/
def assembleArgv (d : EngineDef) (vars : ArgvVars) : List String :=
  d.assembleWith (subst vars) vars

example : builtinCodex.assembleArgv
    { ArgvVars.default with sessionId := some "t1", model := some "gpt-5" } =
      ["exec", "resume", "--json", "--skip-git-repo-check", "--sandbox", "workspace-write",
        "--model", "gpt-5", "t1", "-"] := by
  decide

end EngineDef

end Stackhour.Core
