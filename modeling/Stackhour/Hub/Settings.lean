import Mathlib.Logic.Function.Basic
import Stackhour.Domain.Wire
import Stackhour.Hub.Validation

/-!
# The settings of the control plane

The hub keeps the assistant's settings, the update policy, a session for each channel and the
active channel as JSON texts in one table. Each of its methods holds the database for itself.
-/

namespace Stackhour.Hub

open Core Domain Records

/-! ## What is kept -/

/-- `AssistantSettings`. -/
structure AssistantSettings where
  name : String
  personality : String
  engine : String
  claudeModel : Option String
  codexModel : Option String
  reasoningEffort : String
  workspace : Option String
  memoryEnabled : Bool
  memoryCommand : Option String
  memoryDir : Option String
deriving DecidableEq

/-- `UpdateSettings`. -/
structure UpdateSettings where
  automatic : Bool
  intervalHours : UInt16
  includeNodes : Bool
deriving DecidableEq

/-- `AssistantSession`. -/
structure AssistantSession where
  taskId : TaskId
  runId : Option RunId
  engine : String
  providerSessionId : Option String
  pendingWakeEventId : Option EventId
  pendingFollowUp : Option String
  actionFollowUpInProgress : Bool
deriving DecidableEq

def CLAIRE_PERSONALITY : String :=
  "You are Claire, Nikita's personal operations assistant. " ++
  "You are warm, composed, candid, lightly witty, and economical with words. " ++
  "You remember context, take ownership of follow-through, and distinguish clearly between " ++
  "what you know, what you inferred, and what you changed. You coordinate Stackhour tasks and " ++
  "coding agents; do not pretend work happened until a durable Stackhour event confirms it."

namespace AssistantSettings

/-- `Default`. -/
def default : AssistantSettings where
  name := "Claire"
  personality := CLAIRE_PERSONALITY
  engine := "claude"
  claudeModel := none
  codexModel := none
  reasoningEffort := "high"
  workspace := none
  memoryEnabled := false
  memoryCommand := none
  memoryDir := none

def validateEngine (engine : String) : Except String Unit :=
  if ["claude", "codex"].contains engine then .ok ()
  else .error "engine must be claude or codex"

def validatePath (label value : String) : Except String Unit := do
  validateText label value 1024
  if isAbsolutePath value then .ok () else .error (label ++ " must be an absolute path")

/-- `AssistantSettings::validate`. -/
def validate (s : AssistantSettings) : Except String Unit := do
  validateText "name" s.name 40
  validateText "personality" s.personality 16000
  validateEngine s.engine
  validateEffort s.reasoningEffort
  whenSome (validateIdentifier "claude_model") s.claudeModel
  whenSome (validateIdentifier "codex_model") s.codexModel
  whenSome (validatePath "workspace") s.workspace
  whenSome (validatePath "memory_command") s.memoryCommand
  whenSome (validatePath "memory_dir") s.memoryDir
  if s.memoryEnabled && s.memoryCommand.isNone then
    .error "memory_command is required when OptMem is enabled"
  else .ok ()

end AssistantSettings

namespace UpdateSettings

/-- `Default`. -/
def default : UpdateSettings where
  automatic := false
  intervalHours := 24
  includeNodes := true

/-- `UpdateSettings::validate`. -/
def validate (s : UpdateSettings) : Except String Unit :=
  if 1 ≤ s.intervalHours ∧ s.intervalHours ≤ 168 then .ok ()
  else .error "interval_hours must be between 1 and 168"

end UpdateSettings

/-! ## Their JSON -/

namespace Settings

open Wire

/-- A `u16`. -/
def u16 : Codec Json UInt16 where
  enc n := .number (.int n.toNat)
  dec v := (v.asI64.filter fun n => decide (0 ≤ n ∧ n < 65536)).map fun n => UInt16.ofNat n.toNat

def assistantSlots (s : AssistantSettings) : List (Slot String Json) :=
  [.must "name" string s.name, .must "personality" string s.personality,
    .must "engine" string s.engine, .nullable "claude_model" string s.claudeModel,
    .nullable "codex_model" string s.codexModel,
    .must "reasoning_effort" string s.reasoningEffort, .nullable "workspace" string s.workspace,
    .must "memory_enabled" bool s.memoryEnabled,
    .nullable "memory_command" string s.memoryCommand, .nullable "memory_dir" string s.memoryDir]

def readAssistant (fields : Fields) : Option AssistantSettings := do
  let name ← required string "name" fields
  let personality ← required string "personality" fields
  let engine ← required string "engine" fields
  let claudeModel ← Wire.option string "claude_model" fields
  let codexModel ← Wire.option string "codex_model" fields
  let effort ← required string "reasoning_effort" fields
  let workspace ← Wire.option string "workspace" fields
  let enabled ← required bool "memory_enabled" fields
  let command ← Wire.option string "memory_command" fields
  let dir ← Wire.option string "memory_dir" fields
  pure ⟨name, personality, engine, claudeModel, codexModel, effort, workspace, enabled, command,
    dir⟩

def assistant : Codec Json AssistantSettings := object assistantSlots readAssistant

def updateSlots (s : UpdateSettings) : List (Slot String Json) :=
  [.must "automatic" bool s.automatic, .must "interval_hours" u16 s.intervalHours,
    .must "include_nodes" bool s.includeNodes]

def readUpdate (fields : Fields) : Option UpdateSettings := do
  let automatic ← required bool "automatic" fields
  let hours ← required u16 "interval_hours" fields
  let nodes ← required bool "include_nodes" fields
  pure ⟨automatic, hours, nodes⟩

def update : Codec Json UpdateSettings := object updateSlots readUpdate

variable (cr : Crates)

def sessionSlots (s : AssistantSession) : List (Slot String Json) :=
  [.must "task_id" (taskId cr) s.taskId, .nullable "run_id" (runId cr) s.runId,
    .must "engine" string s.engine, .skip "provider_session_id" string s.providerSessionId,
    .skip "pending_wake_event_id" (eventId cr) s.pendingWakeEventId,
    .skip "pending_follow_up" string s.pendingFollowUp,
    .must "action_follow_up_in_progress" bool s.actionFollowUpInProgress]

/-- A field with `serde(default)` that may be missing, but not null. -/
def flagOrFalse (k : String) (fields : Fields) : Option Bool :=
  match Records.get k fields with
  | none => some false
  | some v => bool.dec v

def readSession (fields : Fields) : Option AssistantSession := do
  let task ← required (taskId cr) "task_id" fields
  let run ← Wire.option (runId cr) "run_id" fields
  let engine ← required string "engine" fields
  let provider ← Wire.option string "provider_session_id" fields
  let wake ← Wire.option (eventId cr) "pending_wake_event_id" fields
  let followUp ← Wire.option string "pending_follow_up" fields
  let inProgress ← flagOrFalse "action_follow_up_in_progress" fields
  pure ⟨task, run, engine, provider, wake, followUp, inProgress⟩

def session : Codec Json AssistantSession := object (sessionSlots cr) (readSession cr)

/-! ## The table -/

/-- `control_settings`: the text of each key. -/
abbrev Table := String → Option (List Char)

/-- How keys and values are named in the errors of a setting that cannot be read. -/
structure Texts where
  debug : String → String
  unread : Json → String

/-- Which of a method's statements fail. -/
structure Faults where
  read : Option String
  write : Option String

variable (ft : JsonGrammar.FloatText) (tx : Texts)

/-- `get_setting`. -/
def getSetting (t : Table) (key : String) (fault : Option String) : Except String (Option Json) :=
  match fault, t key with
  | some e, _ => .error e
  | none, none => .ok none
  | none, some text =>
      match JsonGrammar.parse ft text with
      | .ok v => .ok (some v)
      | .error e => .error ("bad control setting " ++ tx.debug key ++ ": " ++ e)

/-- `put_setting`. -/
def putSetting (t : Table) (key : String) (v : Json) (fault : Option String) :
    Table × Except String Unit :=
  match fault with
  | some e => (t, .error e)
  | none => (Function.update t key (some (JsonGrammar.compact ft v)), .ok ())

/-- `from_value`. -/
def fromValue {α : Type} (c : Codec Json α) (label : String) (v : Json) : Except String α :=
  match c.dec v with
  | some a => .ok a
  | none => .error ("bad " ++ label ++ ": " ++ tx.unread v)

/-- Settings that are checked when they are read. -/
def readChecked {α : Type} (c : Codec Json α) (validate : α → Except String Unit) (default : α)
    (key label : String) (t : Table) (fault : Option String) : Except String α := do
  match ← getSetting ft tx t key fault with
  | some v =>
      let a ← fromValue tx c label v
      validate a
      pure a
  | none => pure default

/-- Settings that are checked before they are written. -/
def saveChecked {α : Type} (c : Codec Json α) (validate : α → Except String Unit) (key : String)
    (a : α) (t : Table) (fault : Option String) : Table × Except String Unit :=
  match validate a with
  | .error e => (t, .error e)
  | .ok () => putSetting ft t key (c.enc a) fault

def ASSISTANT_SETTINGS_KEY : String := "assistant.settings"

def UPDATE_SETTINGS_KEY : String := "update.settings"

def ACTIVE_CHANNEL_KEY : String := "assistant.active_channel"

def sessionKey (channel : String) : String := "assistant.session." ++ channel

/-! ## The methods of `HubState` -/

/-- `assistant_settings`. -/
def assistantSettings : Table → Option String → Except String AssistantSettings :=
  readChecked ft tx assistant AssistantSettings.validate .default ASSISTANT_SETTINGS_KEY
    "assistant settings"

/-- `save_assistant_settings`. -/
def saveAssistantSettings : AssistantSettings → Table → Option String →
    Table × Except String Unit :=
  saveChecked ft assistant AssistantSettings.validate ASSISTANT_SETTINGS_KEY

/-- `initialize_assistant_settings`. -/
def initializeAssistantSettings (s : AssistantSettings) (t : Table) (f : Faults) :
    Table × Except String Unit :=
  match s.validate, getSetting ft tx t ASSISTANT_SETTINGS_KEY f.read with
  | .error e, _ => (t, .error e)
  | .ok (), .error e => (t, .error e)
  | .ok (), .ok (some _) => (t, .ok ())
  | .ok (), .ok none => putSetting ft t ASSISTANT_SETTINGS_KEY (assistant.enc s) f.write

/-- `update_settings`. -/
def updateSettings : Table → Option String → Except String UpdateSettings :=
  readChecked ft tx update UpdateSettings.validate .default UPDATE_SETTINGS_KEY "update settings"

/-- `save_update_settings`. -/
def saveUpdateSettings : UpdateSettings → Table → Option String → Table × Except String Unit :=
  saveChecked ft update UpdateSettings.validate UPDATE_SETTINGS_KEY

/-- `assistant_session`. -/
def assistantSession (channel : String) (t : Table) (fault : Option String) :
    Except String (Option AssistantSession) := do
  match (← getSetting ft tx t (sessionKey channel) fault).filter (fun v => !isNull v) with
  | some v => (fromValue tx (session cr) "assistant session" v).map some
  | none => pure none

/-- `save_assistant_session`. -/
def saveAssistantSession (channel : String) (s : AssistantSession) (t : Table)
    (fault : Option String) : Table × Except String Unit :=
  putSetting ft t (sessionKey channel) ((session cr).enc s) fault

/-- `clear_assistant_session`. -/
def clearAssistantSession (channel : String) (t : Table) (fault : Option String) :
    Table × Except String Unit :=
  putSetting ft t (sessionKey channel) .null fault

/-- `active_assistant_channel`. -/
def activeAssistantChannel (t : Table) (fault : Option String) : Except String (Option String) :=
  (getSetting ft tx t ACTIVE_CHANNEL_KEY fault).map fun v =>
    (v.bind Json.asStr).filter fun s => !s.toList.all isWhitespace

/-- `set_active_assistant_channel`. -/
def setActiveAssistantChannel (channel : String) (t : Table) (fault : Option String) :
    Table × Except String Unit :=
  saveChecked ft string (validateIdentifier "assistant channel") ACTIVE_CHANNEL_KEY channel t fault

/-! ## Runs -/

/-- A call that changes settings. -/
inductive Call where
  | saveAssistant (s : AssistantSettings)
  | initializeAssistant (s : AssistantSettings)
  | saveUpdates (s : UpdateSettings)
  | saveSession (channel : String) (s : AssistantSession)
  | clearSession (channel : String)
  | setChannel (channel : String)

/-- What a call does to the table. -/
def Call.run (t : Table) (f : Faults) : Call → Table × Except String Unit
  | .saveAssistant s => saveAssistantSettings ft s t f.write
  | .initializeAssistant s => initializeAssistantSettings ft tx s t f
  | .saveUpdates s => saveUpdateSettings ft s t f.write
  | .saveSession channel s => saveAssistantSession cr ft channel s t f.write
  | .clearSession channel => clearAssistantSession ft channel t f.write
  | .setChannel channel => setActiveAssistantChannel ft channel t f.write

end Settings

end Stackhour.Hub
