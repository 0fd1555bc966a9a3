import Mathlib.Data.List.Induction
import Stackhour.Agent.WatchersSpec
import Stackhour.Core.FsUtil
import Stackhour.Core.JsonCompact

/-!
# The doctor judges a watcher by its history

The entry of a watcher is rewritten at every tick and goes through the state file. What the doctor
says of the watcher is nevertheless what its history says: whether its last run failed, how long
ago it succeeded, and how often its input has changed in vain since it last gave a row.
-/

namespace Stackhour.Agent

open Core Domain TransitionSystem

variable {World : Type*}

/-! ## What happened -/

/-- What one tick was to a watcher. -/
inductive Outcome where
  | skipped (enabled available : Bool) (reason : String)
  | ok (clock : Clock) (changed : Bool) (rows : List Json)
  | failed (clock : Clock) (message : String)

/-- What a watcher does at its turn. -/
def outcome (world : World) (clock : Clock) (w : Watcher World) (state : Fields) : Outcome :=
  match w.gate world with
  | .skipped enabled available reason => .skipped enabled available reason
  | .run =>
      let state := editHealth state w.name startedHealth
      let after := w.run world state clock.now
      match after.2 with
      | .ok rows =>
          .ok clock (decide (w.inputMarker world state ≠ w.inputMarker world after.1) ||
            !rows.isEmpty) rows
      | .error message => .failed clock message

variable (ar : Arithmetic)

/-- What an outcome makes of the entry. -/
def Outcome.record : Outcome → Fields → Fields
  | skipped enabled available reason, health => skippedHealth enabled available reason health
  | ok clock changed rows, health => okHealth ar clock changed rows (startedHealth health)
  | failed clock message, health => errorHealth ar clock message (startedHealth health)

/-- The outcomes of a tick, with the names of the watchers. -/
def outcomes (world : World) (clocks : String → Clock) :
    List (Watcher World) → Fields → List (String × Outcome)
  | [], _ => []
  | w :: ws, state =>
      (w.name, outcome world (clocks w.name) w state) ::
        outcomes world clocks ws (runWatcher ar world (clocks w.name) w state).1

/-! ## The state file -/

/-- The state in the file, if that can be read and holds an object. -/
def storedState (ft : JsonGrammar.FloatText) (file : File) (readable : Bool) : Option Fields :=
  match (readToString file readable).map (JsonGrammar.parse ft) with
  | some (.ok (.object state)) => some state
  | _ => none

/-- `load_state`: anything else is an empty state. -/
def loadState (ft : JsonGrammar.FloatText) (file : File) (readable : Bool) : Fields :=
  (storedState ft file readable).getD []

/-- `save_state`. -/
def saveState (ft : JsonGrammar.FloatText) (file : File) (state : Fields) (how : AtomicWrite) :
    File × Bool :=
  atomicWrite file (Utf8.encode (JsonGrammar.compact ft (.object state))) how

/-- The state file, and what the state in it has seen: the outcomes since a state was last lost. -/
structure AgentState where
  file : File
  history : List (String × Outcome)

/-- One tick of the agent, as far as the state goes. -/
structure AgentTurn (World : Type*) where
  world : World
  clocks : String → Clock
  readable : Bool
  save : AtomicWrite

/-- A tick that does not get its state into the file leaves nothing of what happened. -/
def AgentState.step (ft : JsonGrammar.FloatText) (ws : List (Watcher World)) (s : AgentState)
    (a : AgentTurn World) : Option AgentState :=
  let state := loadState ft s.file a.readable
  let before := if (storedState ft s.file a.readable).isSome then s.history else []
  some
    { file := (saveState ft s.file (runWatchers ar a.world a.clocks ws state).1 a.save).1
      history :=
        if a.save = .notRenamed then s.history
        else before ++ outcomes ar a.world a.clocks ws state }

def AgentState.system (ft : JsonGrammar.FloatText) (ws : List (Watcher World)) :
    System AgentState (AgentTurn World) where
  init s := s = ⟨none, []⟩
  step := AgentState.step ar ft ws

/-- What happened to one watcher. -/
def logOf (name : String) (history : List (String × Outcome)) : List Outcome :=
  (history.filter fun e => e.1 = name).map Prod.snd

/-! ## What a history says -/

def Outcome.isSkipped : Outcome → Bool
  | skipped .. => true
  | _ => false

/-- Failures since the last run that succeeded. -/
def errorStreak (log : List Outcome) : ℕ :=
  log.foldl (fun n o =>
    match o with
    | .skipped .. => n
    | .ok .. => 0
    | .failed .. => n + 1) 0

/-- Changes of the input without a row, since the last run that gave one. -/
def unmatchedStreak (log : List Outcome) : ℕ :=
  log.foldl (fun n o =>
    match o with
    | .ok _ changed rows => if rows ≠ [] then 0 else if changed then n + 1 else n
    | _ => n) 0

/-- When the watcher last succeeded. -/
def lastOk (log : List Outcome) : Option F64 :=
  log.foldl (fun t o =>
    match o with
    | .ok clock _ _ => some clock.finished
    | _ => t) none

/-- The message of the last run, if that failed. -/
def lastError (log : List Outcome) : Option String :=
  log.foldl (fun e o =>
    match o with
    | .skipped .. => e
    | .ok .. => none
    | .failed _ message => some (String.ofList (message.toList.take 500))) none

/-- Whether the watcher was on at the last tick. -/
def isOn (log : List Outcome) : Bool :=
  log.foldl (fun _ o =>
    match o with
    | .skipped enabled available _ => enabled && available
    | _ => true) false

/-- What the doctor is to say of a watcher with this history. -/
def verdict (r : Rendering) (staleAfter now : F64) (name : String) (log : List Outcome) :
    Option Check :=
  let key := "watcher-" ++ name
  let age := ar.sub now ((lastOk log).getD F64.zero)
  if isOn log = false then none
  else
    match lastError log with
    | some message =>
        some ⟨key, .error,
          if message = "" then r.display (ar.ofInt (errorStreak log)) ++ " consecutive errors"
          else message⟩
    | none =>
        if ((lastOk log).getD F64.zero).isZero = true ∨ ar.less staleAfter age = true then
          some ⟨key, .error, "last successful poll " ++ r.display (r.round age) ++ "s ago"⟩
        else if 5 ≤ unmatchedStreak log then
          some ⟨key, .warn, r.display (ar.ofInt (unmatchedStreak log)) ++
            " input changes produced no heartbeat"⟩
        else some ⟨key, .ok, "last poll " ++ r.display (r.round (ar.max age F64.zero)) ++ "s ago"⟩

variable {ar} {ft : JsonGrammar.FloatText} {ws : List (Watcher World)}

/-! ## The entry is a record of the history -/

/-- A watcher that leaves the entries to the loop, and the state a document. -/
structure KeepsHealth (w : Watcher World) : Prop where
  health : ∀ world s now, (w.run world s now).1.get "watcherHealth" = s.get "watcherHealth"
  fits : ∀ world s now, Json.Fits 127 (.object s) →
    Json.Fits 127 (.object (w.run world s now).1)
  count : ∀ world s now rows, (w.run world s now).2 = .ok rows → rows.length < 2 ^ 64

/-- A turn records its outcome with the watcher, and nothing with another one. -/
theorem runWatcher_health {w : Watcher World} (hw : KeepsHealth w) (world : World) (clock : Clock)
    (state : Fields) (name : String) :
    healthOf (runWatcher ar world clock w state).1 name =
      if w.name = name then (outcome world clock w state).record ar (healthOf state name)
      else healthOf state name := by
  unfold runWatcher outcome
  cases w.gate world with
  | skipped enabled available reason =>
      dsimp only
      split
      · next h =>
          subst h
          exact healthOf_edit state w.name _
      · next h => exact healthOf_edit_of_ne (Ne.symm h) state _
  | run =>
      have hran := hw.health world (editHealth state w.name startedHealth) clock.now
      dsimp only
      generalize w.run world (editHealth state w.name startedHealth) clock.now = after at hran
      obtain ⟨after, result⟩ := after
      have hkept : ∀ name, healthOf after name =
          healthOf (editHealth state w.name startedHealth) name := fun name =>
        healthOf_congr hran name
      cases result with
      | ok rows =>
          dsimp only
          split
          · next h =>
              subst h
              rw [healthOf_edit, hkept, healthOf_edit]
              rfl
          · next h =>
              rw [healthOf_edit_of_ne (Ne.symm h), hkept, healthOf_edit_of_ne (Ne.symm h)]
      | error message =>
          dsimp only
          split
          · next h =>
              subst h
              rw [healthOf_edit, hkept, healthOf_edit]
              rfl
          · next h =>
              rw [healthOf_edit_of_ne (Ne.symm h), hkept, healthOf_edit_of_ne (Ne.symm h)]

variable (ar) in
/-- The entry that a log leaves over another one. -/
def replay (log : List Outcome) (health : Fields) : Fields :=
  log.foldl (fun health o => o.record ar health) health

theorem replay_append (log more : List Outcome) (health : Fields) :
    replay ar (log ++ more) health = replay ar more (replay ar log health) := List.foldl_append

theorem logOf_append (name : String) (a b : List (String × Outcome)) :
    logOf name (a ++ b) = logOf name a ++ logOf name b := by
  unfold logOf
  rw [List.filter_append, List.map_append]

theorem logOf_cons (name : String) (e : String × Outcome) (history : List (String × Outcome)) :
    logOf name (e :: history) = if e.1 = name then e.2 :: logOf name history
      else logOf name history := by
  unfold logOf
  by_cases h : e.1 = name
  · rw [if_pos h, List.filter_cons_of_pos (by simpa using h), List.map_cons]
  · rw [if_neg h, List.filter_cons_of_neg (by simpa using h)]

/-- A tick leaves in every entry what its outcomes make of it. -/
theorem runWatchers_health (hws : ∀ w ∈ ws, KeepsHealth w) (world : World)
    (clocks : String → Clock) (state : Fields) (name : String) :
    healthOf (runWatchers ar world clocks ws state).1 name =
      replay ar (logOf name (outcomes ar world clocks ws state)) (healthOf state name) := by
  induction ws generalizing state with
  | nil => rfl
  | cons w ws ih =>
      rw [runWatchers_cons]
      dsimp only
      rw [ih fun v hv => hws v (List.mem_cons_of_mem w hv),
        runWatcher_health (hws w List.mem_cons_self)]
      rw [outcomes, logOf_cons]
      split <;> rfl

/-! ### The state stays a document -/

/-- The fields that every run that succeeds sets. -/
def succeededHealth (clock : Clock) (rows : List Json) (health : Fields) : Fields :=
  ((((health.insert "lastOk" (jsonFloat clock.finished)).insert "lastDurationMs"
    (jsonFloat clock.durationMs)).insert "lastCount" (.number (.int rows.length))).insert
      "consecutiveErrors" (.number (.int 0))).insert "error" .null

theorem okHealth_eq (clock : Clock) (changed : Bool) (rows : List Json) (health : Fields) :
    okHealth ar clock changed rows health =
      let health := succeededHealth clock rows health
      let health :=
        if changed then health.insert "lastInput" (jsonFloat clock.finished) else health
      if 0 < rows.length then
        (health.insert "lastEvent" (jsonFloat (maxTime ar clock.finished rows))).insert
          "unmatchedInputRuns" (.number (.int 0))
      else if changed then bump ar health "unmatchedInputRuns"
      else health := rfl

theorem objectAt_fits {depth : ℕ} {fields : Fields} (h : Json.Fits (depth + 2) (.object fields))
    (key : String) : Json.Fits (depth + 1) (.object (objectAt fields key)) := by
  unfold objectAt
  split
  · next m hm =>
      cases h with
      | object _ hfields => exact hfields _ (Fields.mem_of_get hm)
  · exact fits_empty

theorem editHealth_fits {f : Fields → Fields}
    (hf : ∀ {depth health}, Json.Fits (depth + 1) (.object health) →
      Json.Fits (depth + 1) (.object (f health)))
    {state : Fields} (h : Json.Fits 127 (.object state)) (name : String) :
    Json.Fits 127 (.object (editHealth state name f)) :=
  h.insert _ ((objectAt_fits h _).insert _ (hf (objectAt_fits (objectAt_fits h _) _)))

theorem jsonFloat_fits (f : F64) {depth : ℕ} : (jsonFloat f).Fits depth := by
  unfold jsonFloat
  split
  · next h => exact .number h
  · exact .null

theorem count_fits {n : ℕ} (h : n < 2 ^ 64) {depth : ℕ} : (Json.number (.int n)).Fits depth := by
  apply Json.Fits.number
  constructor
  · exact le_trans (by decide) (Int.natCast_nonneg n)
  · exact_mod_cast h

section Entries

variable {depth : ℕ} {health : Fields}

theorem bump_fits (h : Json.Fits (depth + 1) (.object health)) (key : String) :
    Json.Fits (depth + 1) (.object (bump ar health key)) := h.insert _ (jsonFloat_fits _)

theorem skippedHealth_fits (enabled available : Bool) (reason : String)
    (h : Json.Fits (depth + 1) (.object health)) :
    Json.Fits (depth + 1) (.object (skippedHealth enabled available reason health)) :=
  (((h.insert _ (.bool enabled)).insert _ (.bool available)).insert _
    (count_fits (by decide))).insert _ (.string reason)

theorem startedHealth_fits (h : Json.Fits (depth + 1) (.object health)) :
    Json.Fits (depth + 1) (.object (startedHealth health)) :=
  ((h.insert _ (.bool true)).insert _ (.bool true)).remove _

theorem okHealth_fits (clock : Clock) (changed : Bool) {rows : List Json}
    (hrows : rows.length < 2 ^ 64) (h : Json.Fits (depth + 1) (.object health)) :
    Json.Fits (depth + 1) (.object (okHealth ar clock changed rows health)) := by
  have hinput : Json.Fits (depth + 1) (.object
      (if changed then (succeededHealth clock rows health).insert "lastInput"
        (jsonFloat clock.finished) else succeededHealth clock rows health)) := by
    have hbase : Json.Fits (depth + 1) (.object (succeededHealth clock rows health)) :=
      ((((h.insert _ (jsonFloat_fits _)).insert _ (jsonFloat_fits _)).insert _
        (count_fits hrows)).insert _ (count_fits (by decide))).insert _ .null
    split
    · exact hbase.insert _ (jsonFloat_fits _)
    · exact hbase
  rw [okHealth_eq]
  dsimp only
  split
  · exact (hinput.insert _ (jsonFloat_fits _)).insert _ (count_fits (by decide))
  · generalize (if changed then (succeededHealth clock rows health).insert "lastInput"
      (jsonFloat clock.finished) else succeededHealth clock rows health) = entry at hinput
    split
    · exact bump_fits hinput _
    · exact hinput

theorem errorHealth_fits (clock : Clock) (message : String)
    (h : Json.Fits (depth + 1) (.object health)) :
    Json.Fits (depth + 1) (.object (errorHealth ar clock message health)) :=
  (bump_fits ((h.insert _ (jsonFloat_fits _)).insert _ (jsonFloat_fits _)) _).insert _ (.string _)

end Entries

theorem runWatcher_fits {w : Watcher World} (hw : KeepsHealth w) (world : World) (clock : Clock)
    {state : Fields} (h : Json.Fits 127 (.object state)) :
    Json.Fits 127 (.object (runWatcher ar world clock w state).1) := by
  unfold runWatcher
  cases w.gate world with
  | skipped enabled available reason =>
      exact editHealth_fits (skippedHealth_fits enabled available reason) h _
  | run =>
      have hran := hw.fits world _ clock.now (editHealth_fits startedHealth_fits h w.name)
      have hcount := hw.count world (editHealth state w.name startedHealth) clock.now
      dsimp only
      generalize w.run world (editHealth state w.name startedHealth) clock.now = after
        at hran hcount
      obtain ⟨after, result⟩ := after
      cases result with
      | ok rows => exact editHealth_fits (okHealth_fits clock _ (hcount rows rfl)) hran _
      | error message => exact editHealth_fits (errorHealth_fits clock message) hran _

theorem runWatchers_fits (hws : ∀ w ∈ ws, KeepsHealth w) (world : World) (clocks : String → Clock)
    {state : Fields} (h : Json.Fits 127 (.object state)) :
    Json.Fits 127 (.object (runWatchers ar world clocks ws state).1) := by
  induction ws generalizing state with
  | nil => exact h
  | cons w ws ih =>
      rw [runWatchers_cons]
      exact ih (fun v hv => hws v (List.mem_cons_of_mem w hv))
        (runWatcher_fits (hws w List.mem_cons_self) world _ h)

/-! ### The file -/

/-- What is saved is what is loaded. -/
theorem storedState_saved (hft : ft.Lawful) {state : Fields}
    (h : Json.Fits 127 (.object state)) :
    storedState ft (some (Utf8.encode (JsonGrammar.compact ft (.object state)))) true =
      some state := by
  unfold storedState
  rw [readToString_encode, Option.map_some, JsonGrammar.parse_compact hft h]

/-- The state in the file is a record of the history. -/
structure Recorded (ft : JsonGrammar.FloatText) (ar : Arithmetic) (s : AgentState) : Prop where
  empty : s.file = none → s.history = []
  whole : s.file ≠ none → (storedState ft s.file true).isSome = true
  fits : Json.Fits 127 (.object (loadState ft s.file true))
  health : ∀ name, healthOf (loadState ft s.file true) name = replay ar (logOf name s.history) []

theorem Recorded.saved (hft : ft.Lawful) {state : Fields} {history : List (String × Outcome)}
    (hfits : Json.Fits 127 (.object state))
    (hhealth : ∀ name, healthOf state name = replay ar (logOf name history) []) :
    Recorded ft ar
      ⟨some (Utf8.encode (JsonGrammar.compact ft (.object state))), history⟩ := by
  have hstored := storedState_saved hft hfits
  have hloaded : loadState ft (some (Utf8.encode (JsonGrammar.compact ft (.object state)))) true =
      state := by
    unfold loadState
    rw [hstored, Option.getD_some]
  constructor
  · nofun
  · intro _
    rw [hstored]
    rfl
  · rw [hloaded]
    exact hfits
  · rw [hloaded]
    exact hhealth

theorem Recorded.step (hft : ft.Lawful) (hws : ∀ w ∈ ws, KeepsHealth w) {s t : AgentState}
    {a : AgentTurn World} (h : Recorded ft ar s) (hs : s.step ar ft ws a = some t) :
    Recorded ft ar t := by
  obtain rfl := Option.some.inj hs
  -- what is loaded is recorded by what is kept of the history
  have hloaded : Json.Fits 127 (.object (loadState ft s.file a.readable)) ∧
      ∀ name, healthOf (loadState ft s.file a.readable) name =
        replay ar (logOf name (if (storedState ft s.file a.readable).isSome
          then s.history else [])) [] := by
    cases a.readable with
    | false => exact ⟨fits_empty, fun _ => rfl⟩
    | true =>
        refine ⟨h.fits, fun name => ?_⟩
        rw [h.health name]
        split
        · rfl
        · next hlost =>
            by_cases hnone : s.file = none
            · rw [h.empty hnone]
            · exact absurd (h.whole hnone) hlost
  have hwritten : Recorded ft ar
      ⟨some (Utf8.encode (JsonGrammar.compact ft (.object
          (runWatchers ar a.world a.clocks ws (loadState ft s.file a.readable)).1))),
        (if (storedState ft s.file a.readable).isSome then s.history else []) ++
          outcomes ar a.world a.clocks ws (loadState ft s.file a.readable)⟩ := by
    apply Recorded.saved hft (runWatchers_fits hws a.world a.clocks hloaded.1)
    intro name
    rw [runWatchers_health hws, hloaded.2 name, logOf_append, replay_append]
  cases hsave : a.save with
  | notRenamed =>
      rw [if_pos rfl]
      exact h
  | notChmodded =>
      rw [if_neg (by decide)]
      exact hwritten
  | done =>
      rw [if_neg (by decide)]
      exact hwritten

/-- **The state file keeps the history** of every watcher, in every run of ticks. -/
theorem recorded_of_run (hft : ft.Lawful) (hws : ∀ w ∈ ws, KeepsHealth w) {s : AgentState}
    (hreach : (AgentState.system ar ft ws).Reach Anyway s) : Recorded ft ar s := by
  refine hreach.invariant ?_ fun s a t h _ hs => h.step hft hws hs
  rintro s rfl
  exact ⟨fun _ => rfl, fun h => absurd rfl h, fits_empty, fun _ => rfl⟩

/-! ## What the entry says of the history -/

theorem get_insert_eq (fields : Fields) (key : String) (v : Json) (k : String) :
    (fields.insert key v).get k = if k = key then some v else Fields.get fields k := by
  split
  · next h =>
      subst h
      exact Fields.get_insert fields k v
  · next h => exact Fields.get_insert_of_ne h v

theorem get_remove_eq (fields : Fields) (key k : String) :
    (fields.remove key).get k = if k = key then none else Fields.get fields k := by
  split
  · next h =>
      subst h
      exact Fields.get_remove fields k
  · next h => exact Fields.get_remove_of_ne h fields

theorem isFinite_whole {n : ℕ} (h : n < Binary64.limit) : (ar.ofInt n).isFinite = true :=
  F64.isFinite_of_exponent (ar.bits_whole n h).1 (ar.bits_whole n h).2.1

theorem floatOr_jsonFloat {f : F64} (h : f.isFinite = true) (default : F64) :
    floatOr ar default (some (jsonFloat f)) = f := by
  unfold jsonFloat
  rw [if_pos h]
  rfl

/-- A counter that goes up stays a whole number. -/
theorem bump_get {health : Fields} {key : String} {n : ℕ} (hn : n + 1 < Binary64.limit)
    (h : number ar health key = ar.ofInt n) (k : String) : Fields.get (bump ar health key) k =
      if k = key then some (jsonFloat (ar.ofInt (n + 1 : ℕ))) else Fields.get health k := by
  have hone : ar.ofInt (1 : ℕ) = ar.ofInt 1 := rfl
  unfold bump
  rw [get_insert_eq, h, ← hone, ar.add_whole n 1 hn]

/-- The clock was finite when a run ended. -/
def Outcome.Timed : Outcome → Prop
  | ok clock _ _ => clock.finished.isFinite = true
  | _ => True

/-- What an entry says is what the history says. -/
structure Reads (ar : Arithmetic) (health : Fields) (log : List Outcome) : Prop where
  consecutive : number ar health "consecutiveErrors" = ar.ofInt (errorStreak log)
  unmatched : number ar health "unmatchedInputRuns" = ar.ofInt (unmatchedStreak log)
  lastOk : number ar health "lastOk" = (lastOk log).getD F64.zero
  error : errorText health = (lastError log).getD ""
  on : (flag health "enabled" && flag health "available") = isOn log
  streak : lastError log = none ↔ errorStreak log = 0
  bounded : errorStreak log ≤ log.length ∧ unmatchedStreak log ≤ log.length

/-- A history with one more outcome. -/
theorem streaks_snoc (log : List Outcome) (o : Outcome) :
    errorStreak (log ++ [o]) = (match o with
      | .skipped .. => errorStreak log
      | .ok .. => 0
      | .failed .. => errorStreak log + 1) ∧
    unmatchedStreak (log ++ [o]) = (match o with
      | .ok _ changed rows =>
          if rows ≠ [] then 0 else if changed then unmatchedStreak log + 1 else unmatchedStreak log
      | _ => unmatchedStreak log) ∧
    lastOk (log ++ [o]) = (match o with
      | .ok clock _ _ => some clock.finished
      | _ => lastOk log) ∧
    lastError (log ++ [o]) = (match o with
      | .skipped .. => lastError log
      | .ok .. => none
      | .failed _ message => some (String.ofList (message.toList.take 500))) ∧
    isOn (log ++ [o]) = (match o with
      | .skipped enabled available _ => enabled && available
      | _ => true) := by
  unfold errorStreak unmatchedStreak lastOk lastError isOn
  rw [List.foldl_append, List.foldl_append, List.foldl_append, List.foldl_append,
    List.foldl_append]
  exact ⟨rfl, rfl, rfl, rfl, rfl⟩

/-- What a watcher that starts keeps of its entry. -/
theorem startedHealth_get (health : Fields) (k : String) :
    Fields.get (startedHealth health) k =
      if k = "reason" then none
      else if k = "enabled" ∨ k = "available" then some (.bool true)
      else Fields.get health k := by
  unfold startedHealth
  rw [get_remove_eq, get_insert_eq, get_insert_eq]
  by_cases henabled : k = "enabled" <;> by_cases havailable : k = "available" <;>
    simp [henabled, havailable]

theorem Reads.skipped {health : Fields} {log : List Outcome} (h : Reads ar health log)
    (enabled available : Bool) (reason : String) :
    Reads ar (skippedHealth enabled available reason health)
      (log ++ [.skipped enabled available reason]) := by
  obtain ⟨herrors, hinputs, hok, hlast, hison⟩ :=
    streaks_snoc log (.skipped enabled available reason)
  have hget : ∀ k, k ≠ "enabled" → k ≠ "available" → k ≠ "lastCount" → k ≠ "reason" →
      Fields.get (skippedHealth enabled available reason health) k = Fields.get health k := by
    intro k henabled havailable hcount hreason
    unfold skippedHealth
    rw [get_insert_eq, if_neg hreason, get_insert_eq, if_neg hcount, get_insert_eq,
      if_neg havailable, get_insert_eq, if_neg henabled]
  have hnumber : ∀ k, k ≠ "enabled" → k ≠ "available" → k ≠ "lastCount" → k ≠ "reason" →
      number ar (skippedHealth enabled available reason health) k = number ar health k :=
    fun k h₁ h₂ h₃ h₄ => congrArg (floatOr ar F64.zero) (hget k h₁ h₂ h₃ h₄)
  refine ⟨?_, ?_, ?_, ?_, ?_, ?_, ?_⟩
  · rw [herrors, hnumber _ (by decide) (by decide) (by decide) (by decide), h.consecutive]
  · rw [hinputs, hnumber _ (by decide) (by decide) (by decide) (by decide), h.unmatched]
  · rw [hok, hnumber _ (by decide) (by decide) (by decide) (by decide), h.lastOk]
  · rw [hlast, ← h.error]
    unfold errorText
    rw [hget _ (by decide) (by decide) (by decide) (by decide)]
  · rw [hison]
    simp [skippedHealth, flag, get_insert_eq]
  · rw [hlast, herrors]
    exact h.streak
  · rw [herrors, hinputs, List.length_append]
    exact ⟨h.bounded.1.trans (Nat.le_add_right _ _), h.bounded.2.trans (Nat.le_add_right _ _)⟩

theorem Reads.failed {health : Fields} {log : List Outcome} (h : Reads ar health log)
    (hlength : log.length + 1 < Binary64.limit) (clock : Clock) (message : String) :
    Reads ar (errorHealth ar clock message (startedHealth health))
      (log ++ [.failed clock message]) := by
  obtain ⟨herrors, hinputs, hok, hlast, hison⟩ := streaks_snoc log (.failed clock message)
  have hsmall : errorStreak log + 1 < Binary64.limit :=
    lt_of_le_of_lt (Nat.succ_le_succ h.bounded.1) hlength
  have hbefore : number ar (((startedHealth health).insert "lastDurationMs"
      (jsonFloat clock.durationMs)).insert "lastError" (jsonFloat clock.finished))
        "consecutiveErrors" = ar.ofInt (errorStreak log) := by
    rw [← h.consecutive]
    unfold number
    rw [get_insert_eq, if_neg (by decide), get_insert_eq, if_neg (by decide), startedHealth_get,
      if_neg (by decide), if_neg (by decide)]
  have hget : ∀ k, Fields.get (errorHealth ar clock message (startedHealth health)) k =
      if k = "error" then some (.string (String.ofList (message.toList.take 500)))
      else if k = "consecutiveErrors" then some (jsonFloat (ar.ofInt (errorStreak log + 1 : ℕ)))
      else if k = "lastError" then some (jsonFloat clock.finished)
      else if k = "lastDurationMs" then some (jsonFloat clock.durationMs)
      else Fields.get (startedHealth health) k := by
    intro k
    unfold errorHealth
    dsimp only
    rw [get_insert_eq, bump_get hsmall hbefore, get_insert_eq, get_insert_eq]
  refine ⟨?_, ?_, ?_, ?_, ?_, ?_, ?_⟩
  · rw [herrors]
    unfold number
    rw [hget, if_neg (by decide), if_pos rfl, floatOr_jsonFloat (isFinite_whole hsmall)]
  · rw [hinputs, ← h.unmatched]
    unfold number
    rw [hget]
    simp [startedHealth_get]
  · rw [hok, ← h.lastOk]
    unfold number
    rw [hget]
    simp [startedHealth_get]
  · rw [hlast]
    unfold errorText
    rw [hget, if_pos rfl]
    rfl
  · rw [hison]
    simp [flag, hget, startedHealth_get]
  · rw [hlast, herrors]
    exact iff_of_false nofun (Nat.succ_ne_zero _)
  · rw [herrors, hinputs, List.length_append]
    exact ⟨Nat.succ_le_succ h.bounded.1, h.bounded.2.trans (Nat.le_add_right _ _)⟩

/-- What depends on the rows and the input stays apart from the rest. -/
theorem okHealth_get {k : String} (hinput : k ≠ "lastInput") (hevent : k ≠ "lastEvent")
    (hruns : k ≠ "unmatchedInputRuns") (clock : Clock) (changed : Bool) (rows : List Json)
    (health : Fields) : Fields.get (okHealth ar clock changed rows health) k =
      Fields.get (succeededHealth clock rows health) k := by
  rw [okHealth_eq]
  cases changed with
  | false =>
      by_cases hrows : 0 < rows.length
      · simp only [hrows, if_true, Bool.false_eq_true, if_false]
        rw [Fields.get_insert_of_ne hruns, Fields.get_insert_of_ne hevent]
      · simp only [hrows, Bool.false_eq_true, if_false]
  | true =>
      by_cases hrows : 0 < rows.length
      · simp only [hrows, if_true]
        rw [Fields.get_insert_of_ne hruns, Fields.get_insert_of_ne hevent,
          Fields.get_insert_of_ne hinput]
      · simp only [hrows, if_true, if_false]
        unfold bump
        rw [Fields.get_insert_of_ne hruns, Fields.get_insert_of_ne hinput]

theorem succeededHealth_get (clock : Clock) (rows : List Json) (health : Fields) (k : String) :
    Fields.get (succeededHealth clock rows health) k =
      if k = "error" then some .null
      else if k = "consecutiveErrors" then some (.number (.int 0))
      else if k = "lastCount" then some (.number (.int rows.length))
      else if k = "lastDurationMs" then some (jsonFloat clock.durationMs)
      else if k = "lastOk" then some (jsonFloat clock.finished)
      else Fields.get health k := by
  unfold succeededHealth
  rw [get_insert_eq, get_insert_eq, get_insert_eq, get_insert_eq, get_insert_eq]

/-- A productive run ends the streak, and one that changed its input in vain lengthens it. -/
theorem okHealth_unmatched {n : ℕ} (hn : n + 1 < Binary64.limit) {health : Fields}
    (h : number ar health "unmatchedInputRuns" = ar.ofInt n) (clock : Clock) (changed : Bool)
    (rows : List Json) :
    number ar (okHealth ar clock changed rows health) "unmatchedInputRuns" =
      ar.ofInt (if rows ≠ [] then 0 else if changed then n + 1 else n : ℕ) := by
  have hbase : number ar (succeededHealth clock rows health) "unmatchedInputRuns" =
      ar.ofInt n := by
    rw [← h]
    unfold number
    rw [succeededHealth_get]
    rfl
  rw [okHealth_eq]
  by_cases hrows : rows = []
  · subst hrows
    cases changed with
    | false =>
        simp only [List.length_nil, lt_irrefl, if_false, Bool.false_eq_true, ne_eq,
          not_true_eq_false]
        exact hbase
    | true =>
        have hinput : number ar ((succeededHealth clock [] health).insert "lastInput"
            (jsonFloat clock.finished)) "unmatchedInputRuns" = ar.ofInt n := by
          rw [← hbase]
          exact congrArg (floatOr ar F64.zero) (Fields.get_insert_of_ne (by decide) _)
        have hbumped := bump_get hn hinput "unmatchedInputRuns"
        rw [if_pos rfl] at hbumped
        have hcount := (congrArg (floatOr ar F64.zero) hbumped).trans
          (floatOr_jsonFloat (isFinite_whole hn) _)
        simp only [List.length_nil, lt_irrefl, if_false, if_true, ne_eq, not_true_eq_false]
        exact hcount
  · simp only [List.length_pos_iff.mpr hrows, if_true, hrows, ne_eq, not_false_eq_true]
    unfold number
    rw [Fields.get_insert]
    rfl

theorem Reads.ok {health : Fields} {log : List Outcome} (h : Reads ar health log)
    (hlength : log.length + 1 < Binary64.limit) {clock : Clock}
    (hclock : clock.finished.isFinite = true) (changed : Bool) (rows : List Json) :
    Reads ar (okHealth ar clock changed rows (startedHealth health))
      (log ++ [.ok clock changed rows]) := by
  obtain ⟨herrors, hinputs, hok, hlast, hison⟩ := streaks_snoc log (.ok clock changed rows)
  have hsmall : unmatchedStreak log + 1 < Binary64.limit :=
    lt_of_le_of_lt (Nat.succ_le_succ h.bounded.2) hlength
  have hstarted : number ar (startedHealth health) "unmatchedInputRuns" =
      ar.ofInt (unmatchedStreak log) := by
    rw [← h.unmatched]
    unfold number
    rw [startedHealth_get, if_neg (by decide), if_neg (by decide)]
  have hget : ∀ k, k ≠ "lastInput" → k ≠ "lastEvent" → k ≠ "unmatchedInputRuns" →
      Fields.get (okHealth ar clock changed rows (startedHealth health)) k = _ :=
    fun k hinput hevent hruns =>
      (okHealth_get hinput hevent hruns clock changed rows _).trans (succeededHealth_get _ _ _ _)
  refine ⟨?_, ?_, ?_, ?_, ?_, ?_, ?_⟩
  · rw [herrors]
    unfold number
    rw [hget _ (by decide) (by decide) (by decide)]
    rfl
  · rw [hinputs]
    exact okHealth_unmatched hsmall hstarted clock changed rows
  · rw [hok]
    unfold number
    rw [hget _ (by decide) (by decide) (by decide)]
    exact floatOr_jsonFloat hclock _
  · rw [hlast]
    unfold errorText
    rw [hget _ (by decide) (by decide) (by decide)]
    rfl
  · rw [hison]
    unfold flag
    rw [hget _ (by decide) (by decide) (by decide), hget _ (by decide) (by decide) (by decide)]
    simp [startedHealth_get]
  · rw [hlast, herrors]
    exact iff_of_true rfl rfl
  · rw [herrors, hinputs, List.length_append]
    refine ⟨Nat.zero_le _, ?_⟩
    dsimp only
    split
    · exact Nat.zero_le _
    · split
      · exact Nat.succ_le_succ h.bounded.2
      · exact h.bounded.2.trans (Nat.le_add_right _ _)

/-- **An entry that records a history says it.** By induction on the history. -/
theorem reads_replay {log : List Outcome} (hlength : log.length < Binary64.limit)
    (htimed : ∀ o ∈ log, o.Timed) : Reads ar (replay ar log []) log := by
  induction log using List.reverseRecOn with
  | nil =>
      have hzero : ∀ key, number ar [] key = ar.ofInt (0 : ℕ) := by
        intro key
        rw [Arithmetic.zero_whole]
        rfl
      exact ⟨hzero _, hzero _, rfl, rfl, rfl, iff_of_true rfl rfl, le_rfl, le_rfl⟩
  | append_singleton log o ih =>
      rw [List.length_append, List.length_singleton] at hlength
      have hshort : log.length < Binary64.limit := lt_of_le_of_lt (Nat.le_succ _) hlength
      have hlog := ih hshort fun o ho => htimed o (List.mem_append_left _ ho)
      have hlast := htimed o (List.mem_append_right _ (List.mem_singleton_self o))
      rw [replay_append]
      have hone : ∀ health, replay ar [o] health = o.record ar health := fun _ => rfl
      rw [hone]
      cases o with
      | skipped enabled available reason => exact hlog.skipped enabled available reason
      | failed clock message =>
          have hnext := hlog.failed hlength clock message
          exact hnext
      | ok clock changed rows =>
          have hnext := hlog.ok hlength hlast changed rows
          exact hnext

/-- **The doctor judges a watcher by its history.** In every run of ticks, whichever watchers
fail, are skipped or are switched off, and wherever a state was lost or not saved: the check of a
watcher on the state in the file is the verdict on what that state has seen of it. -/
theorem doctor_judges_history (hft : ft.Lawful) (hws : ∀ w ∈ ws, KeepsHealth w)
    (hless : ∀ a b : ℕ, a < Binary64.limit → b < Binary64.limit →
      ar.less (ar.ofInt a) (ar.ofInt b) = decide (a < b)) {s : AgentState}
    (hreach : (AgentState.system ar ft ws).Reach Anyway s) (r : Rendering) (staleAfter now : F64)
    {name : String} (hlength : (logOf name s.history).length < Binary64.limit)
    (htimed : ∀ o ∈ logOf name s.history, o.Timed) :
    watcherCheck ar r staleAfter now name (healthOf (loadState ft s.file true) name) =
      verdict ar r staleAfter now name (logOf name s.history) := by
  rw [(recorded_of_run hft hws hreach).health name]
  have h := @reads_replay ar _ hlength htimed
  have herrors : errorStreak (logOf name s.history) < Binary64.limit :=
    lt_of_le_of_lt h.bounded.1 hlength
  have hinputs : unmatchedStreak (logOf name s.history) < Binary64.limit :=
    lt_of_le_of_lt h.bounded.2 hlength
  have hfailing : ar.less F64.zero (ar.ofInt (errorStreak (logOf name s.history))) =
      decide (0 < errorStreak (logOf name s.history)) := by
    rw [← @Arithmetic.zero_whole ar]
    exact hless 0 _ (by decide) herrors
  have hfew : ar.less (ar.ofInt (unmatchedStreak (logOf name s.history))) (ar.ofInt 5) =
      decide (unmatchedStreak (logOf name s.history) < 5) := hless _ 5 hinputs (by decide)
  unfold watcherCheck verdict
  dsimp only
  rw [h.consecutive, h.unmatched, h.lastOk, h.error, hfailing, hfew]
  have hoff : (!flag (replay ar (logOf name s.history) []) "enabled" ||
      !flag (replay ar (logOf name s.history) []) "available") = !isOn (logOf name s.history) := by
    rw [← Bool.not_and, h.on]
  rw [hoff]
  cases hon : isOn (logOf name s.history) with
  | false => rfl
  | true =>
      simp only [Bool.not_true, Bool.false_eq_true, Bool.true_eq_false, if_false]
      cases hlast : lastError (logOf name s.history) with
      | some message =>
          -- the last run failed, so that the streak is not empty
          have hpos : 0 < errorStreak (logOf name s.history) := by
            apply Nat.pos_of_ne_zero
            intro hzero
            rw [h.streak.mpr hzero] at hlast
            cases hlast
          rw [if_pos (.inr (decide_eq_true hpos))]
          rfl
      | none =>
          have hzero : errorStreak (logOf name s.history) = 0 := h.streak.mp hlast
          rw [if_neg (by rw [hzero]; decide)]
          dsimp only
          split
          · rfl
          · by_cases hmany : 5 ≤ unmatchedStreak (logOf name s.history)
            · rw [if_pos (decide_eq_false (Nat.not_lt.mpr hmany)), if_pos hmany]
            · rw [if_neg (by simpa using hmany), if_neg hmany]

/-! ## A directory that is not there -/

theorem rowWatcher_keeps : KeepsHealth rowWatcher where
  health _ _ _ := Fields.get_insert_of_ne (by decide) _
  fits _ _ _ h := h.insert _ .null
  count _ _ _ _ h := by
    obtain rfl := Except.ok.inj h
    decide

theorem lostWatcher_keeps : KeepsHealth lostWatcher where
  health _ _ _ := rfl
  fits _ _ _ h := h
  count _ _ _ _ h := nomatch h

def lostTurn : AgentTurn Unit where
  world := ()
  clocks _ := ⟨F64.one, F64.zero, F64.one⟩
  readable := true
  save := .done

def rendered : Rendering := ⟨fun f => toString (Binary64.decode f), id⟩

/-- The doctor names the error of the watcher that failed. -/
theorem doctor_judges_history_lost :
    ∃ s, (AgentState.system Tracker.Charging.wholeNumbers JsonGrammar.floatBits
        [lostWatcher, rowWatcher]).run ⟨none, []⟩ [lostTurn] = some s ∧
      watcherCheck Tracker.Charging.wholeNumbers rendered F64.one F64.one "claude"
          (healthOf (loadState JsonGrammar.floatBits s.file true) "claude") =
        some ⟨"watcher-claude", .error, "no such directory"⟩ := by
  refine ⟨_, rfl, ?_⟩
  have hws : ∀ w ∈ [lostWatcher, rowWatcher], KeepsHealth w := by
    intro w hw
    rcases List.mem_cons.mp hw with rfl | hw
    · exact lostWatcher_keeps
    · obtain rfl := List.mem_singleton.mp hw
      exact rowWatcher_keeps
  have hless : ∀ a b : ℕ, a < Binary64.limit → b < Binary64.limit →
      Tracker.Charging.wholeNumbers.less (Tracker.Charging.wholeNumbers.ofInt a)
        (Tracker.Charging.wholeNumbers.ofInt b) = decide (a < b) := by
    intro a b ha hb
    exact congrArg₂ (fun m n => decide (m < n)) (Binary64.decode_encode ha)
      (Binary64.decode_encode hb)
  have hreach := (System.Reach.start rfl : (AgentState.system Tracker.Charging.wholeNumbers
    JsonGrammar.floatBits [lostWatcher, rowWatcher]).Reach Anyway ⟨none, []⟩).next
      (a := lostTurn) trivial rfl
  apply (doctor_judges_history JsonGrammar.floatBits_lawful hws hless hreach rendered F64.one
    F64.one (by decide) ?_).trans rfl
  intro o ho
  obtain rfl := List.mem_singleton.mp ho
  trivial

end Stackhour.Agent
