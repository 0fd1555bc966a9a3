import Stackhour.Agent.Watchers

/-!
# The Zed watcher

Zed keeps its agent threads in a database of its own. The watcher reads it when the
signature of its files has changed, and reports the threads that were updated since the
reading before.
-/

namespace Stackhour.Agent

open Core Domain

/-- `ValueRef`, with texts and blobs as they are decoded. -/
inductive SqlValue where
  | null
  | integer (n : ℤ)
  | real (f : F64)
  | text (s : String)
  | blob (s : String)

/-- A table, whose rows have a value for every column. -/
structure ZedTable where
  name : String
  cols : List String
  rows : List (String → SqlValue)

/-- What is found where Zed keeps its threads: nothing, or files with a signature, in
which some read may fail. -/
inductive ZedFiles where
  | absent
  | found (signature : String) (db : Except String (List ZedTable))

structure ZedWorld where
  enabled : Bool
  files : ZedFiles

variable (ar : Arithmetic)

/-- `sql_to_string`. -/
def sqlToString : SqlValue → String
  | .null => ""
  | .integer n => toString n
  | .real f => jsDisplay ar.toFloats (jsonFloat f)
  | .text s => s
  | .blob s => s

/-- The table with the columns of threads; the one that Zed uses goes first. -/
def threadsTable (tables : List ZedTable) : Option ZedTable :=
  (tables.filter (fun t => t.name = "threads") ++ tables.filter (fun t => t.name ≠ "threads")).find?
    (fun t => "id" ∈ t.cols ∧ "updated_at" ∈ t.cols)

/-- A thread as it is read. -/
structure ZedThread where
  key : String
  updated : String
  entity : String

/-- The entity of a row: 120 characters of the summary, if there is one. -/
def threadEntity (t : ZedTable) (row : String → SqlValue) : String :=
  let summary := if "summary" ∈ t.cols then sqlToString ar (row "summary") else ""
  if summary = "" then "thread " ++ sqlToString ar (row "id")
  else String.ofList (summary.toList.take 120)

def threadsOf (t : ZedTable) : List ZedThread :=
  t.rows.map fun row =>
    ⟨sqlToString ar (row "id"), sqlToString ar (row "updated_at"), threadEntity ar t row⟩

/-- `as_str` on a field. -/
def stringAt (fields : Fields) (key : String) : Option String :=
  match Fields.get fields key with
  | some (.string s) => some s
  | _ => none

/-- A thread that is reported: not as it was, and not seen for the first time in the
first reading. -/
def isReported (previous : Fields) (initDone : Bool) (thread : ZedThread) : Bool :=
  !decide (stringAt previous thread.key = some thread.updated) &&
    ((Fields.get previous thread.key).isSome || initDone)

def threadRow (now : F64) (thread : ZedThread) : Json :=
  .object
    [("time", jsonFloat now), ("source", .string "zed-agent"), ("project", .string "zed-agent"),
      ("entity", .string thread.entity), ("entity_type", .string "app"),
      ("category", .string "ai coding"), ("actor", .string "agent"), ("is_write", .number (.int 0))]

/-- The threads that the next reading is compared with. -/
def nextThreads (threads : List ZedThread) : Fields :=
  threads.foldl (fun next thread => Fields.insert next thread.key (.string thread.updated)) []

/-- `record_signature`. -/
def recordSignature (state : Fields) (signature : String) : Fields :=
  (Fields.insert state "zedDbSignature" (.string signature)).remove "zedDbMtime"

/-- `read_threads`, when no read fails. -/
def readThreads (tables : List ZedTable) (state : Fields) (now : F64) (signature : String) :
    Fields × List Json :=
  match threadsTable tables with
  | none => (recordSignature state signature, [])
  | some t =>
      let threads := threadsOf ar t
      let previous := objectAt state "zedThreads"
      let initDone := ((Fields.get state "zedInitDone").map (jsTruthy ar.toFloats)).getD false
      let next := Fields.insert (Fields.insert state "zedThreads" (.object (nextThreads threads)))
        "zedInitDone" (.bool true)
      (recordSignature next signature,
        (threads.filter (isReported previous initDone)).map (threadRow now))

/-- `ZedWatcher`. -/
def zedWatcher : Watcher ZedWorld where
  name := "zed"
  gate world := if world.enabled then .run else .skipped false false "disabled in config"
  inputMarker _ state := ((stringAt state "zedDbSignature").or (stringAt state "zedDbMtime")).or
    (some "")
  run world state now :=
    match world.files with
    | .absent => (state, .ok [])
    | .found signature db =>
        if stringAt state "zedDbSignature" = some signature then (state, .ok [])
        else
          match db with
          | .error message => (state, .error message)
          | .ok tables =>
              let r := readThreads ar tables state now signature
              (r.1, .ok r.2)

end Stackhour.Agent
