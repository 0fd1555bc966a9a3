import Stackhour.Core.JsNum
import Stackhour.Domain.Migrations

/-!
# The migrations of the tracker's database

The tracker adopts databases from before it kept a history: its migrations look at
the columns that are there. The index and the auxiliary tables are set up again on
every open.
-/

namespace Stackhour.Tracker

open Domain Migrations Sql

/-! ## The actor backfill -/

/-- The characters of the class `[a-z0-9_]`. -/
def isAiWord (c : Char) : Bool :=
  ('a' ≤ c && c ≤ 'z') || ('0' ≤ c && c ≤ '9') || c == '_'

/-- GLOB `*[^a-z0-9_]ai`, or `*[^a-z0-9_]ai[^a-z0-9_]*`. -/
def globAiInside : List Char → Bool
  | [] => false
  | c :: rest =>
      (!isAiWord c &&
        match rest with
        | ['a', 'i'] => true
        | 'a' :: 'i' :: d :: _ => !isAiWord d
        | _ => false) || globAiInside rest

/-- GLOB `ai[^a-z0-9_]*`. -/
def globAiFirst : List Char → Bool
  | 'a' :: 'i' :: d :: _ => !isAiWord d
  | _ => false

/-- The text of a column. -/
def columnText (row : Row) (column : String) : List Char :=
  match row.lookup column with
  | some (.text s) => s.toList
  | _ => []

/-- The condition of the backfill; LIKE and `lower` fold ASCII letters. -/
def isAgentRow (row : Row) : Bool :=
  let source := columnText row "source"
  let category := (columnText row "category").map Char.toLower
  "claude-".toList.isPrefixOf (source.map Char.toLower) ||
    "codex-".toList.isPrefixOf (source.map Char.toLower) ||
    source == "zed-agent".toList || category == "ai".toList || globAiFirst category ||
    globAiInside category

/-- Setting the actor of a row. -/
def setActor (row : Row) : Row :=
  row.map (fun cell => if cell.1 = "actor" then ("actor", .text "agent") else cell)

/-! ## The scripts -/

/-- `HEARTBEATS_DDL`. -/
def heartbeatsDdl : Statement := createTable true (newTable "heartbeats"
  [("id", "INTEGER PRIMARY KEY"), ("time", "REAL NOT NULL"), ("machine", "TEXT NOT NULL"),
    ("source", "TEXT NOT NULL"), ("project", "TEXT NOT NULL"), ("entity", "TEXT NOT NULL"),
    ("entity_type", "TEXT NOT NULL DEFAULT 'file'"), ("category", "TEXT NOT NULL DEFAULT 'coding'"),
    ("language", "TEXT"), ("branch", "TEXT"), ("is_write", "INTEGER NOT NULL DEFAULT 0"),
    ("actor", "TEXT NOT NULL DEFAULT 'human'"), ("tokens_in", "INTEGER NOT NULL DEFAULT 0"),
    ("tokens_out", "INTEGER NOT NULL DEFAULT 0"), ("cost", "REAL NOT NULL DEFAULT 0"),
    ("created_at", "REAL NOT NULL")])

/-- `ACTOR_MIGRATION`. -/
def actorMigration : List Statement :=
  [addColumn "heartbeats" ⟨"actor", "TEXT NOT NULL DEFAULT 'human'"⟩ (.text "human"),
    update "heartbeats" ["source", "category", "actor"]
      (fun row => if isAgentRow row then setActor row else row)]

/-- The columns of `migrate_3_usage`. -/
def usageColumns : List (Column × Value) :=
  [(⟨"tokens_in", "INTEGER NOT NULL DEFAULT 0"⟩, .int 0),
    (⟨"tokens_out", "INTEGER NOT NULL DEFAULT 0"⟩, .int 0),
    (⟨"cost", "REAL NOT NULL DEFAULT 0"⟩, .real 0)]

def hbDedupe2 : Index :=
  ⟨"hb_dedupe2", "heartbeats", true, ["time", "machine", "source", "project", "entity", "actor"]⟩

def hbTime : Index := ⟨"hb_time", "heartbeats", false, ["time"]⟩

def wakatimeDays : Sql.Table :=
  { newTable "wakatime_days"
      [("date", "TEXT NOT NULL"), ("project", "TEXT NOT NULL"), ("seconds", "REAL NOT NULL")] with
    constraints := ["UNIQUE (date, project)"] }

def agentStatusTable : Sql.Table := newTable "agent_status"
  [("machine", "TEXT PRIMARY KEY"), ("reported_at", "REAL NOT NULL"),
    ("received_at", "REAL NOT NULL"), ("version", "TEXT NOT NULL"),
    ("node_version", "TEXT NOT NULL"), ("interval_seconds", "REAL NOT NULL"),
    ("queue_depth", "INTEGER NOT NULL"), ("queue_bytes", "INTEGER NOT NULL"),
    ("clock_skew_seconds", "REAL NOT NULL"), ("watchers_json", "TEXT NOT NULL")]

/-- `TAIL_DDL`. -/
def tailDdl : List Statement :=
  [dropIndex "hb_dedupe", createIndex true hbDedupe2, createIndex true hbTime,
    createTable true wakatimeDays, createTable true agentStatusTable]

/-- `MIGRATIONS`. -/
def trackerMigrations : List (Migration Schema) :=
  [⟨1, "create heartbeat schema", fun _ => [heartbeatsDdl]⟩,
    ⟨2, "add actor classification", fun d =>
      if (d.columnNames "heartbeats").contains "actor" then [] else actorMigration⟩,
    ⟨3, "add token and cost accounting", fun d =>
      (usageColumns.filter (fun c => !(d.columnNames "heartbeats").contains c.1.name)).map
        (fun c => addColumn "heartbeats" c.1 c.2)⟩,
    ⟨4, "add indexes and auxiliary tables", fun _ => tailDdl⟩]

/-- `open_db`, from its migrations on. -/
def trackerOpener : Opener Schema where
  migrations := trackerMigrations
  tail := tailDdl
  newer version := "database schema version " ++ toString version ++
    " is newer than supported version 4"
  invalid expected found := "invalid database migration history at version " ++
    toString found.1 ++ ": expected " ++ toString expected.1 ++ " (\"" ++ expected.2 ++
    "\"), found " ++ toString found.1 ++ " (\"" ++ found.2 ++ "\")"
  failed m error := "database migration " ++ toString m.version ++ " (" ++ m.name ++
    ") failed: " ++ error

/-! ## The tail repeats itself -/

/-- Running the tail leaves tables on which each of its statements does nothing. -/
theorem tailDdl_settles {d e : Schema} (h : runScript tailDdl d = .ok e) :
    ∀ statement ∈ tailDdl, Settles statement e := by
  obtain ⟨d₁, hdrop, h⟩ := runScript_cons h
  obtain ⟨d₂, hdedupe, h⟩ := runScript_cons h
  obtain ⟨d₃, htime, h⟩ := runScript_cons h
  obtain ⟨d₄, hdays, h⟩ := runScript_cons h
  obtain ⟨d₅, hstatus, h⟩ := runScript_cons h
  obtain rfl := Except.ok.inj h
  obtain ⟨hdropped, -⟩ := dropIndex_ok hdrop
  obtain ⟨hdedupe, -, hdedupeOthers⟩ := createIndex_ok hdedupe
  obtain ⟨htime, -, htimeOthers⟩ := createIndex_ok htime
  obtain ⟨hdays, hdaysIndexes, -⟩ := createTable_ok hdays
  obtain ⟨hstatus, hstatusIndexes, hstatusOthers⟩ := createTable_ok hstatus
  -- the tables that follow leave the indexes
  have hindexes : ∀ name, d₅.hasIndex name = d₃.hasIndex name := by
    intro name
    unfold Schema.hasIndex
    rw [hstatusIndexes, hdaysIndexes]
  intro statement hmem
  simp only [tailDdl, List.mem_cons, List.not_mem_nil, or_false] at hmem
  rcases hmem with rfl | rfl | rfl | rfl | rfl
  · apply dropIndex_settles
    rw [hindexes, htimeOthers _ (by decide), hdedupeOthers _ (by decide)]
    exact hdropped
  · apply createIndex_settles
    rw [hindexes, htimeOthers _ (by decide)]
    exact hdedupe
  · apply createIndex_settles
    rw [hindexes]
    exact htime
  · apply createTable_settles
    exact hstatusOthers _ hdays
  · apply createTable_settles
    exact hstatus

theorem trackerOpener_settled : trackerOpener.Settled := by
  intro base data h statement hmem
  obtain ⟨before, -, htail⟩ := @runAll_append _ (trackerMigrations.take 3) _ _ _ h
  exact tailDdl_settles htail statement hmem

/-! ## Both databases -/

/-- The databases of the program. -/
inductive Kept where
  | tracker
  | hub

def Kept.opener : Kept → Opener Schema
  | .tracker => trackerOpener
  | .hub => hubOpener

/-- **Migrations are prefix-consistent.** -/
theorem prefix_consistent (kept : Kept) {start : Image Schema} {p : Opening Schema}
    (hreach : (kept.opener.system start).Reach TransitionSystem.Anyway p) :
    kept.opener.Consistent start p := by
  cases kept with
  | tracker => exact Opener.consistent trackerOpener_settled hreach
  | hub => exact Opener.consistent hubOpener_settled hreach

/-- A tracker from before the history, with one heartbeat and without `actor`. -/
def legacy : Image Schema :=
  ⟨none, ⟨[⟨"heartbeats", [⟨"time", "REAL NOT NULL"⟩, ⟨"source", "TEXT NOT NULL"⟩,
      ⟨"category", "TEXT NOT NULL DEFAULT 'coding'"⟩], [],
      [[("time", .int 1), ("source", .text "codex-cli"), ("category", .text "coding")]]⟩], []⟩⟩

/-- The opener dies when it has added the column and not yet set the actor. -/
theorem prefix_consistent_sample :
    ∃ p, (trackerOpener.system legacy).run ⟨legacy, .closed none⟩
        [.go, .go, .go, .go, .go, .go, .go, .go, .go, .go, .crash] = some p ∧
      p.durable.applied = [(1, "create heartbeat schema")] ∧ p.durable.data = legacy.data ∧
      trackerOpener.Consistent legacy p := by
  have hstart : (trackerOpener.system legacy).Reach TransitionSystem.Anyway
      ⟨legacy, .closed none⟩ := .start rfl
  have hrun : ∃ p, (trackerOpener.system legacy).run ⟨legacy, .closed none⟩
        [.go, .go, .go, .go, .go, .go, .go, .go, .go, .go, .crash] = some p ∧
      p.durable.applied = [(1, "create heartbeat schema")] ∧ p.durable.data = legacy.data :=
    ⟨_, rfl, rfl, rfl⟩
  obtain ⟨p, hp, happlied, hdata⟩ := hrun
  exact ⟨p, hp, happlied, hdata, prefix_consistent .tracker (hstart.of_run hp)⟩

end Stackhour.Tracker
