import Stackhour.Domain.Store
import Stackhour.Lib.Sql

/-!
# The migrations of the control-plane database

`MIGRATIONS` of the hub with the statements of each. The history check of the store
is the opener's.
-/

namespace Stackhour.Domain

open Migrations Sql

/-- A table of a script. -/
def newTable (name : String) (columns : List (String × String)) : Sql.Table :=
  ⟨name, columns.map (fun c => ⟨c.1, c.2⟩), [], []⟩

/-! ## The scripts -/

def SCHEMA : List Statement :=
  [createTable true (newTable "events"
      [("sequence", "INTEGER PRIMARY KEY"), ("event_id", "TEXT NOT NULL UNIQUE"),
        ("command_id", "TEXT"), ("kind", "TEXT NOT NULL"), ("task_id", "TEXT NOT NULL"),
        ("run_id", "TEXT"), ("provider_session_id", "TEXT"), ("node_id", "TEXT NOT NULL"),
        ("protocol_version", "INTEGER NOT NULL"), ("occurred_at", "TEXT NOT NULL"),
        ("hub_received_at", "TEXT NOT NULL"), ("payload", "TEXT NOT NULL")]),
    createIndex true ⟨"events_task", "events", false, ["task_id", "sequence"]⟩,
    createTable true (newTable "command_receipts"
      [("command_id", "TEXT PRIMARY KEY"), ("sequence", "INTEGER NOT NULL"),
        ("event_id", "TEXT NOT NULL"), ("received_at", "TEXT NOT NULL")]),
    createTable true (newTable "tasks"
      [("task_id", "TEXT PRIMARY KEY"), ("title", "TEXT NOT NULL"), ("status", "TEXT NOT NULL"),
        ("created_at", "TEXT NOT NULL")]),
    createTable true (newTable "runs"
      [("run_id", "TEXT PRIMARY KEY"), ("task_id", "TEXT NOT NULL"), ("node_id", "TEXT NOT NULL"),
        ("engine", "TEXT NOT NULL"), ("access_policy", "TEXT NOT NULL"), ("workspace_path", "TEXT"),
        ("status", "TEXT NOT NULL"), ("started_at", "TEXT NOT NULL")]),
    createTable true (newTable "approvals"
      [("approval_id", "TEXT PRIMARY KEY"), ("run_id", "TEXT NOT NULL"),
        ("task_id", "TEXT NOT NULL"), ("tool_call_id", "TEXT NOT NULL"), ("scope", "TEXT NOT NULL"),
        ("options", "TEXT NOT NULL"), ("expires_at", "TEXT"), ("decision", "TEXT NOT NULL"),
        ("resolved_by", "TEXT"), ("created_at", "TEXT NOT NULL"), ("resolved_at", "TEXT")]),
    createTable true (newTable "nodes"
      [("node_id", "TEXT PRIMARY KEY"), ("label", "TEXT NOT NULL"), ("status", "TEXT NOT NULL"),
        ("software_version", "TEXT NOT NULL"), ("capabilities", "TEXT NOT NULL"),
        ("last_seen_sequence", "INTEGER")]),
    createTable true (newTable "pending_dispatches"
      [("command_id", "TEXT PRIMARY KEY"), ("node_id", "TEXT NOT NULL"),
        ("message", "TEXT NOT NULL"), ("created_at", "TEXT NOT NULL"), ("acked_at", "TEXT")]),
    createIndex true
      ⟨"pending_dispatches_node", "pending_dispatches", false, ["node_id", "created_at"]⟩]

def RUN_CONFIGURATION_AND_SETTINGS : List Statement :=
  [addColumn "runs" ⟨"model", "TEXT"⟩ .null,
    addColumn "runs" ⟨"reasoning_effort", "TEXT"⟩ .null,
    addColumn "runs" ⟨"system_prompt", "TEXT"⟩ .null,
    createTable false (newTable "control_settings"
      [("key", "TEXT PRIMARY KEY"), ("value", "TEXT NOT NULL"), ("updated_at", "TEXT NOT NULL")])]

def ASSISTANT_WORKER_WAKEUPS : List Statement :=
  [createTable false (newTable "assistant_workers"
      [("task_id", "TEXT PRIMARY KEY"), ("channel", "TEXT NOT NULL"),
        ("created_at", "TEXT NOT NULL")]),
    createTable false (newTable "assistant_wakes"
      [("event_id", "TEXT PRIMARY KEY"), ("sequence", "INTEGER NOT NULL UNIQUE"),
        ("channel", "TEXT NOT NULL"), ("task_id", "TEXT NOT NULL"), ("run_id", "TEXT NOT NULL"),
        ("kind", "TEXT NOT NULL"), ("created_at", "TEXT NOT NULL"),
        ("attempt_count", "INTEGER NOT NULL DEFAULT 0"), ("next_attempt_at", "TEXT NOT NULL"),
        ("last_error", "TEXT"), ("processed_at", "TEXT")]),
    createIndex false ⟨"assistant_wakes_pending", "assistant_wakes", false,
      ["channel", "processed_at", "sequence"]⟩]

/-- `MIGRATIONS`. -/
def hubMigrations : List (Migration Schema) :=
  [⟨1, "create control-plane schema", fun _ => SCHEMA⟩,
    ⟨2, "add run model configuration and control settings",
      fun _ => RUN_CONFIGURATION_AND_SETTINGS⟩,
    ⟨3, "add durable assistant worker wakeups", fun _ => ASSISTANT_WORKER_WAKEUPS⟩]

/-- `run_migrations` of the hub; nothing follows it. -/
def hubOpener : Opener Schema where
  migrations := hubMigrations
  tail := []
  newer version := "control-plane database schema version " ++ toString version ++
    " is newer than supported version 3"
  invalid expected found := "invalid control-plane migration history at version " ++
    toString found.1 ++ ": expected " ++ toString expected.1 ++ " (\"" ++ expected.2 ++
    "\"), found " ++ toString found.1 ++ " (\"" ++ found.2 ++ "\")"
  failed m error := "control-plane database migration " ++ toString m.version ++ " (" ++ m.name ++
    ") failed: " ++ error

/-- **The store's check is the opener's.** -/
theorem checkHistory_eq (applied : List (ℤ × String)) :
    ∀ ms : List (Migration Schema), Store.checkHistory applied (ms.map Migration.entry) =
      match hubOpener.check applied ms with
      | none => .ok ()
      | some error => .error ⟨error⟩ := by
  induction applied with
  | nil =>
      intro ms
      unfold Store.checkHistory Opener.check
      rfl
  | cons found applied ih =>
      intro ms
      obtain ⟨version, name⟩ := found
      cases ms with
      | nil => rfl
      | cons m ms =>
          rw [List.map_cons]
          unfold Store.checkHistory Opener.check
          show (if version = m.version ∧ name = m.name then _ else _) = _
          by_cases h : version = m.version ∧ name = m.name
          · rw [if_pos h, ih ms, if_pos (show (version, name) = m.entry from Prod.ext h.1 h.2)]
          · rw [if_neg h, if_neg]
            · rfl
            · intro heq
              exact h ⟨congrArg Prod.fst heq, congrArg Prod.snd heq⟩

theorem hubOpener_settled : hubOpener.Settled := by
  intro base data _ statement hmem
  cases hmem

end Stackhour.Domain
