import Stackhour.Core.Whole
import Stackhour.Core.JsonText
import Stackhour.Lib.System

/-!
# The watchers of a tick

A tick runs every watcher in a fixed order over one state document. A watcher that fails is
noted in its health entry and the tick goes on; the entries are what the doctor judges the
watchers by.
-/

namespace Stackhour.Agent

open Core Domain TransitionSystem

/-! ## Watchers -/

/-- `Gate`. -/
inductive Gate where
  | run
  | skipped (enabled available : Bool) (reason : String)

/-- `Watcher`: the configuration and all that it reads besides the state is its world. -/
structure Watcher (World : Type*) where
  name : String
  gate : World → Gate
  inputMarker : World → Fields → Option String
  run : World → Fields → F64 → Fields × Except String (List Json)

/-- What the clock gives around a run. -/
structure Clock where
  now : F64
  durationMs : F64
  finished : F64

/-- `json!` of a float. -/
def jsonFloat (f : F64) : Json := if f.isFinite then .number (.float f) else .null

/-- The map under a key; another value counts as an empty one. -/
def objectAt (fields : Fields) (key : String) : Fields :=
  match Fields.get fields key with
  | some (.object m) => m
  | _ => []

/-- `state.watcherHealth[name]`. -/
def healthOf (state : Fields) (name : String) : Fields :=
  objectAt (objectAt state "watcherHealth") name

/-- `health_mut` and an edit of the map. -/
def editHealth (state : Fields) (name : String) (f : Fields → Fields) : Fields :=
  Fields.insert state "watcherHealth" <| .object <|
    Fields.insert (objectAt state "watcherHealth") name (.object (f (healthOf state name)))

variable (ar : Arithmetic)

/-- `and_then(as_f64).unwrap_or(default)`. -/
def floatOr (default : F64) (v : Option Json) : F64 :=
  match v with
  | some (.number n) => asF64 ar.toFloats n
  | _ => default

def number (fields : Fields) (key : String) : F64 := floatOr ar F64.zero (Fields.get fields key)

/-- A counter goes up by one. -/
def bump (health : Fields) (key : String) : Fields :=
  Fields.insert health key (jsonFloat (ar.add (number ar health key) (ar.ofInt 1)))

def skippedHealth (enabled available : Bool) (reason : String) (health : Fields) : Fields :=
  (((health.insert "enabled" (.bool enabled)).insert "available" (.bool available)).insert
    "lastCount" (.number (.int 0))).insert "reason" (.string reason)

def startedHealth (health : Fields) : Fields :=
  ((health.insert "enabled" (.bool true)).insert "available" (.bool true)).remove "reason"

/-- `NEG_INFINITY`. -/
def negInfinity : F64 := 0xFFF0000000000000

/-- The latest time of some rows; one without a time counts as new. -/
def maxTime (finished : F64) (rows : List Json) : F64 :=
  (rows.map fun row => floatOr ar finished (row.get "time")).foldl ar.max negInfinity

/-- What a run that succeeded leaves in the entry. -/
def okHealth (clock : Clock) (changed : Bool) (rows : List Json) (health : Fields) : Fields :=
  let health := health.insert "lastOk" (jsonFloat clock.finished)
  let health := health.insert "lastDurationMs" (jsonFloat clock.durationMs)
  let health := health.insert "lastCount" (.number (.int rows.length))
  let health := health.insert "consecutiveErrors" (.number (.int 0))
  let health := health.insert "error" .null
  let health := if changed then health.insert "lastInput" (jsonFloat clock.finished) else health
  if 0 < rows.length then
    (health.insert "lastEvent" (jsonFloat (maxTime ar clock.finished rows))).insert
      "unmatchedInputRuns" (.number (.int 0))
  else if changed then bump ar health "unmatchedInputRuns"
  else health

/-- What a run that failed leaves in the entry: no more than 500 characters of its message. -/
def errorHealth (clock : Clock) (message : String) (health : Fields) : Fields :=
  let health := health.insert "lastDurationMs" (jsonFloat clock.durationMs)
  let health := health.insert "lastError" (jsonFloat clock.finished)
  (bump ar health "consecutiveErrors").insert "error"
    (.string (String.ofList (message.toList.take 500)))

variable {World : Type*}

/-- One turn of the loop of `run_watchers`: the state and the rows. -/
def runWatcher (world : World) (clock : Clock) (w : Watcher World) (state : Fields) :
    Fields × List Json :=
  match w.gate world with
  | .skipped enabled available reason =>
      (editHealth state w.name (skippedHealth enabled available reason), [])
  | .run =>
      let state := editHealth state w.name startedHealth
      let before := w.inputMarker world state
      match w.run world state clock.now with
      | (state, .ok rows) =>
          let changed := decide (before ≠ w.inputMarker world state) || !rows.isEmpty
          (editHealth state w.name (okHealth ar clock changed rows), rows)
      | (state, .error message) =>
          (editHealth state w.name (errorHealth ar clock message), [])

/-- `run_watchers`, with the clock as each watcher finds it. -/
def runWatchers (world : World) (clock : String → Clock) (watchers : List (Watcher World))
    (state : Fields) : Fields × List Json :=
  watchers.foldl (fun acc w =>
    let r := runWatcher ar world (clock w.name) w acc.1
    (r.1, acc.2 ++ r.2)) (state, [])

/-! ## The doctor -/

/-- `CheckStatus`. -/
inductive Status where
  | ok
  | warn
  | error
deriving DecidableEq

structure Check where
  id : String
  status : Status
  message : String
deriving DecidableEq

/-- What `format!` makes of a float, and `js_round_f64`; `abs` of the age stays out of it. -/
structure Rendering where
  display : F64 → String
  round : F64 → F64

/-- A flag of an entry. -/
def flag (health : Fields) (key : String) : Bool :=
  match Fields.get health key with
  | some (.bool b) => b
  | _ => false

/-- The error of an entry; one that is no string counts as none. -/
def errorText (health : Fields) : String :=
  match Fields.get health "error" with
  | some (.string s) => s
  | _ => ""

/-- The `watcher-<name>` check of `agent_report_checks`; a watcher that is off has none. -/
def watcherCheck (r : Rendering) (staleAfter now : F64) (name : String) (health : Fields) :
    Option Check :=
  if !flag health "enabled" || !flag health "available" then none
  else
    let lastOk := number ar health "lastOk"
    let age := ar.sub now lastOk
    let consecutive := number ar health "consecutiveErrors"
    let unmatched := number ar health "unmatchedInputRuns"
    let key := "watcher-" ++ name
    if errorText health ≠ "" ∨ ar.less F64.zero consecutive = true then
      some ⟨key, .error,
        if errorText health = "" then r.display consecutive ++ " consecutive errors"
        else errorText health⟩
    else if lastOk.isZero = true ∨ ar.less staleAfter age = true then
      some ⟨key, .error, "last successful poll " ++ r.display (r.round age) ++ "s ago"⟩
    else if ar.less unmatched (ar.ofInt 5) = false then
      some ⟨key, .warn, r.display unmatched ++ " input changes produced no heartbeat"⟩
    else
      some ⟨key, .ok, "last poll " ++ r.display (r.round (ar.max age F64.zero)) ++ "s ago"⟩

end Stackhour.Agent
