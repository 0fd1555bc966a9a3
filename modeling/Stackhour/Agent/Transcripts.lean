import Stackhour.Core.JsonText
import Stackhour.Core.Whole

/-!
# Claude and Codex transcripts

What the two watchers make of the lines of a transcript: heartbeats, of which some carry
the tokens of a message or of an event. Claude repeats a message with growing counters, so
that the watcher keeps the maxima of every message and charges what exceeds them.
-/

namespace Stackhour.Agent

open Core Domain

namespace Transcripts

/-- What a run of a watcher knows besides the lines: the time, `parse_ts_seconds` of a text,
`resolve_project`, `str::to_lowercase` and `cost_of` under the configured prices. -/
structure Watching where
  now : F64
  seconds : String → Option F64
  resolveProject : String → String
  lowercase : String → String
  cost : String → F64 × F64 × F64 × F64 → F64
  seconds_finite : ∀ text ts, seconds text = some ts → ts.isFinite = true

/-- Whose tokens a row carries. -/
inductive Payer where
  | message (id : String)
  | session (path : String)
deriving DecidableEq

/-- A row, with whose tokens it carries if any; the watchers emit the row alone. -/
structure Row where
  payer : Option Payer
  fields : Fields

/-- `RECENT_WINDOW_S`. -/
def RECENT_WINDOW_S : F64 := 0x40AC200000000000

/-- `USAGE_BY_ID_CAP`. -/
def USAGE_BY_ID_CAP : ℕ := 20000

variable (ar : Arithmetic) (w : Watching)

/-- `Value::pointer` of two keys. -/
def pointer (v : Json) (a b : String) : Option Json := (v.get a).bind (Json.get b)

def isObject : Json → Bool
  | .object _ => true
  | _ => false

def contains (text part : String) : Bool := text.toList.tails.any (part.toList.isPrefixOf ·)

/-- A number that was computed. -/
def json (f : F64) : Json := .number (.float f)

/-- A string that is not empty. -/
def nonempty (v : Option Json) : Option String := (v.bind Json.asStr).filter (· ≠ "")

/-- A counter; one that is missing is zero. -/
def counter (v : Json) (key : String) : F64 :=
  match v.get key with
  | some (.number n) => asF64 ar.toFloats n
  | _ => F64.zero

/-- The time of a line within the window. -/
def recent (line : Json) : Option F64 :=
  (((line.get "timestamp").bind Json.asStr).bind w.seconds).filter
    (fun ts => !ar.less RECENT_WINDOW_S (ar.sub w.now ts))

/-- What a row carries of tokens. -/
structure TokenFields where
  tokensIn : F64
  tokensOut : F64
  cost : F64

/-- `attach`. -/
def attach (row : Fields) : Option TokenFields → Fields
  | none => row
  | some f =>
      row ++ [("tokens_in", json f.tokensIn), ("tokens_out", json f.tokensOut),
        ("cost", json f.cost)]

def appFields (base : Fields) (actor cwd : String) : Fields :=
  base ++ [("actor", .string actor), ("entity", .string cwd), ("entity_type", .string "app"),
    ("is_write", .number (.int 0))]

def fileFields (base : Fields) (path : String) (isWrite : Bool) : Fields :=
  base ++ [("actor", .string "agent"), ("entity", .string path), ("entity_type", .string "file"),
    ("is_write", .number (.int (if isWrite then 1 else 0)))]

/-! ## Claude -/

/-- The four usage counters. -/
structure Counters (α : Type*) where
  input : α
  cacheWrite : α
  cacheRead : α
  output : α

def Counters.map {α β : Type*} (f : α → β) (c : Counters α) : Counters β where
  input := f c.input
  cacheWrite := f c.cacheWrite
  cacheRead := f c.cacheRead
  output := f c.output

def Counters.map₂ {α : Type*} (f : α → α → α) (a b : Counters α) : Counters α where
  input := f a.input b.input
  cacheWrite := f a.cacheWrite b.cacheWrite
  cacheRead := f a.cacheRead b.cacheRead
  output := f a.output b.output

/-- `read_usage`. -/
def readUsage (usage : Json) : Counters F64 where
  input := counter ar usage "input_tokens"
  cacheWrite := counter ar usage "cache_creation_input_tokens"
  cacheRead := counter ar usage "cache_read_input_tokens"
  output := counter ar usage "output_tokens"

/-- `read_previous`. -/
def readPrevious (usageById : Fields) (id : String) : Counters F64 :=
  match usageById.get id with
  | none => ⟨F64.zero, F64.zero, F64.zero, F64.zero⟩
  | some prev =>
      { input := counter ar prev "input"
        cacheWrite := counter ar prev "cacheWrite"
        cacheRead := counter ar prev "cacheRead"
        output := counter ar prev "output" }

/-- The entry of a message. -/
def maxima (c : Counters F64) : Json :=
  .object [("input", json c.input), ("cacheWrite", json c.cacheWrite),
    ("cacheRead", json c.cacheRead), ("output", json c.output)]

/-- `is_human_prompt`. -/
def isHumanPrompt (line : Json) : Bool :=
  if (line.get "type").bind Json.asStr ≠ some "user" then false
  else if ((line.get "isSidechain").map (jsTruthy ar.toFloats)).getD false then false
  else
    match pointer line "message" "content" with
    | some (.string _) => true
    | some (.array blocks) =>
        blocks.any (fun b => decide ((b.get "type").bind Json.asStr = some "text")) &&
          !blocks.any (fun b => decide ((b.get "type").bind Json.asStr = some "tool_result"))
    | _ => false

def usageOf (line : Json) : Option Json := (pointer line "message" "usage").filter isObject

def messageId (line : Json) : Option String :=
  (pointer line "message" "id").map (jsDisplay ar.toFloats)

/-- What is charged for what the counters exceed the maxima by. -/
def charge (line : Json) (delta : Counters F64) : Option TokenFields :=
  if delta.input.isPositive || delta.cacheWrite.isPositive || delta.cacheRead.isPositive ||
    delta.output.isPositive then
    let model := ((pointer line "message" "model").bind Json.asStr).getD ""
    some {
      tokensIn := ar.add (ar.add delta.input delta.cacheWrite) delta.cacheRead
      tokensOut := delta.output
      cost := w.cost model (delta.input, delta.cacheWrite, delta.cacheRead, delta.output) }
  else none

/-- Token accounting: the map of maxima, and what is charged. -/
def account (usageById : Fields) (line : Json) : Fields × Option TokenFields :=
  match usageOf line with
  | none => (usageById, none)
  | some usage =>
      let id := messageId ar line
      let current := readUsage ar usage
      let previous :=
        match id with
        | none => ⟨F64.zero, F64.zero, F64.zero, F64.zero⟩
        | some id => readPrevious ar usageById id
      let delta := Counters.map₂ (fun c p => ar.max (ar.sub c p) F64.zero) current previous
      let usageById :=
        match id with
        | none => usageById
        | some id => usageById.insert id (maxima (Counters.map₂ ar.max current previous))
      (usageById, charge ar w line delta)

def claudeCwd (line : Json) : String := (nonempty (line.get "cwd")).getD "unknown"

def claudeSource (line : Json) : String :=
  if (line.get "entrypoint").bind Json.asStr = some "claude-desktop" then "claude-desktop"
  else "claude-code"

def claudeBase (ts : F64) (line : Json) : Fields :=
  [("time", json ts),
    ("source", .string (claudeSource line)),
    ("project", .string (w.resolveProject (claudeCwd line))),
    ("category", .string "ai coding"),
    ("branch", match line.get "gitBranch" with
      | some (.string s) => .string s
      | _ => .null)]

/-- The file of a `tool_use` block, and whether the tool writes. -/
def toolFile (block : Json) : Option (String × Bool) :=
  if (block.get "type").bind Json.asStr ≠ some "tool_use" then none
  else
    (nonempty (pointer block "input" "file_path")).map fun path =>
      let lowered := w.lowercase (((block.get "name").bind Json.asStr).getD "")
      (path, contains lowered "edit" || contains lowered "write")

def toolFiles (line : Json) : List (String × Bool) :=
  match pointer line "message" "content" with
  | some (.array blocks) => blocks.filterMap (toolFile w)
  | _ => []

def isTurn (line : Json) : Bool :=
  let kind := ((line.get "type").bind Json.asStr).getD ""
  kind == "user" || kind == "assistant"

/-- The rows of a line; the tokens ride on the first file row, or on the app row. -/
def claudeRows (ts : F64) (line : Json) (tokens : Option TokenFields) : List Row :=
  let base := claudeBase w ts line
  let payer := tokens.bind fun _ => (messageId ar line).map Payer.message
  if isHumanPrompt ar line then [⟨none, appFields base "human" (claudeCwd line)⟩]
  else
    match toolFiles w line with
    | first :: rest =>
        ⟨payer, attach (fileFields base first.1 first.2) tokens⟩ ::
          rest.map fun file => ⟨none, fileFields base file.1 file.2⟩
    | [] =>
        if isTurn line then [⟨payer, attach (appFields base "agent" (claudeCwd line)) tokens⟩]
        else []

/-- A line in the loop of `ClaudeWatcher::run`. -/
def claudeLine (usageById : Fields) (line : Json) : Fields × List Row :=
  match recent ar w line with
  | none => (usageById, [])
  | some ts =>
      let (usageById, tokens) := account ar w usageById line
      (usageById, claudeRows ar w ts line tokens)

/-- `trim_usage_by_id`: the oldest entries go. -/
def trimUsageById (usageById : Fields) : Fields :=
  usageById.drop (usageById.length - USAGE_BY_ID_CAP)

/-! ## Codex -/

/-- `source_from_originator`. -/
def sourceFromOriginator (originator : Option Json) : String :=
  let o := w.lowercase ((originator.map (jsDisplay ar.toFloats)).getD "")
  if contains o "desktop" then "codex-desktop"
  else if contains o "vscode" || contains o "ide" then "codex-ide"
  else "codex-cli"

/-- `payload`. -/
def payload (line : Json) : Json :=
  ((line.get "payload").filter (jsTruthy ar.toFloats)).getD line

def insertSome (fields : Fields) (key : String) : Option String → Fields
  | none => fields
  | some v => fields.insert key (.string v)

/-- What a `session_meta` line tells. -/
def sessionMeta (info : Fields) (body : Json) : Fields :=
  (insertSome info "cwd" (nonempty (body.get "cwd"))).insert "source"
    (.string (sourceFromOriginator ar w (body.get "originator")))

/-- The head of the file, read until its directory and its source are known. -/
def headMeta (info : Fields) (firstSight : Bool) (head : Option Json) : Fields :=
  if firstSight || (info.get "cwd").isNone || (info.get "source").isNone then
    match head with
    | none => info
    | some first =>
        let body := payload ar first
        if (first.get "type").bind Json.asStr = some "session_meta" ∨
            (nonempty (body.get "cwd")).isSome then
          sessionMeta ar w info body
        else info
  else info

/-- The usage of a `token_count` event. -/
def tokenUsage (body : Json) : Option Json :=
  if (body.get "type").bind Json.asStr = some "token_count" then
    ((pointer body "info" "last_token_usage").filter isObject).or
      ((pointer body "info" "total_token_usage_delta").filter isObject)
  else none

def codexTokens (info : Fields) (tu : Json) : TokenFields :=
  let output := ar.add (counter ar tu "output_tokens") (counter ar tu "reasoning_output_tokens")
  let cached := counter ar tu "cached_input_tokens"
  let input := counter ar tu "input_tokens"
  { tokensIn := input
    tokensOut := output
    cost := w.cost (((info.get "model").bind Json.asStr).getD "gpt-5")
      (ar.max (ar.sub input cached) F64.zero, F64.zero, cached, output) }

/-- The files of a patch event. -/
def changes (body : Json) : Option Fields :=
  match (body.get "changes").or (pointer body "patch" "changes") with
  | some (.object files) => some files
  | _ => none

def codexCwd (info : Fields) : String := (nonempty (info.get "cwd")).getD "unknown"

def codexSource (info : Fields) : String := ((info.get "source").bind Json.asStr).getD "codex-cli"

def codexBase (ts : F64) (info : Fields) : Fields :=
  [("time", json ts),
    ("source", .string (codexSource info)),
    ("project", .string (w.resolveProject (codexCwd info))),
    ("category", .string "ai coding")]

/-- A line that counts: an event or an item within the window. -/
def codexEvent (line : Json) : Option F64 :=
  let kind := (line.get "type").bind Json.asStr
  if kind = some "response_item" ∨ kind = some "event_msg" then recent ar w line else none

/-- The rows of such a line. -/
def codexRows (path : String) (info : Fields) (ts : F64) (line : Json) : List Row :=
  let body := payload ar line
  let base := codexBase w ts info
  let tokens := (tokenUsage body).map (codexTokens ar w info)
  let human := (line.get "type").bind Json.asStr = some "event_msg" ∧
    (body.get "type").bind Json.asStr = some "user_message"
  match changes body with
  | some files => files.map fun file => ⟨none, fileFields base file.1 true⟩
  | none =>
      let payer := (tokens.filter fun t => t.tokensIn.isPositive || t.tokensOut.isPositive).map
        fun _ => Payer.session path
      [⟨payer,
        attach (appFields base (if human then "human" else "agent") (codexCwd info)) tokens⟩]

/-- A line in the loop of `CodexWatcher::run`. -/
def codexLine (path : String) (info : Fields) (line : Json) : Fields × List Row :=
  let body := payload ar line
  if (line.get "type").bind Json.asStr = some "session_meta" then (sessionMeta ar w info body, [])
  else if (line.get "type").bind Json.asStr = some "turn_context" then
    (insertSome (insertSome info "cwd" (nonempty (body.get "cwd"))) "model"
      (nonempty (body.get "model")), [])
  else
    match codexEvent ar w line with
    | none => (info, [])
    | some ts => (info, codexRows ar w path info ts line)

/-! ## Accounts of a message -/

variable {ar w}

theorem recent_finite {line : Json} {ts : F64} (h : recent ar w line = some ts) :
    ts.isFinite = true := by
  obtain ⟨hseconds, -⟩ := Option.filter_eq_some_iff.mp h
  obtain ⟨text, -, hts⟩ := Option.bind_eq_some_iff.mp hseconds
  exact w.seconds_finite text ts hts

/-- The words of whole counters. -/
def Counters.words (ar : Arithmetic) (c : Counters ℕ) : Counters F64 :=
  c.map fun n : ℕ => ar.ofInt n

def Counters.Below (c : Counters ℕ) : Prop :=
  c.input < Binary64.limit ∧ c.cacheWrite < Binary64.limit ∧ c.cacheRead < Binary64.limit ∧
    c.output < Binary64.limit

/-- Counters whose input fits together. -/
def Counters.Fits (c : Counters ℕ) : Prop :=
  c.input + c.cacheWrite + c.cacheRead < Binary64.limit ∧ c.output < Binary64.limit

/-- Some counter is above the one recorded. -/
def Counters.Exceeds {α : Type*} [LT α] (c p : Counters α) : Prop :=
  p.input < c.input ∨ p.cacheWrite < c.cacheWrite ∨ p.cacheRead < c.cacheRead ∨ p.output < c.output

instance {α : Type*} [LT α] [DecidableLT α] (c p : Counters α) : Decidable (c.Exceeds p) :=
  inferInstanceAs (Decidable (_ ∨ _ ∨ _ ∨ _))

/-- Whole counters, read back from their words. -/
theorem words_whole {c : Counters ℕ} (hc : c.Below) :
    (c.words ar).map ar.toInt = c.map (fun n : ℕ => (n : ℤ)) := by
  unfold Counters.words Counters.map
  dsimp only
  rw [ar.toInt_whole _ hc.1, ar.toInt_whole _ hc.2.1, ar.toInt_whole _ hc.2.2.1,
    ar.toInt_whole _ hc.2.2.2]

theorem Counters.exceeds_cast {c p : Counters ℕ} :
    (c.map fun n : ℕ => (n : ℤ)).Exceeds (p.map fun n : ℕ => (n : ℤ)) ↔ c.Exceeds p := by
  unfold Counters.Exceeds Counters.map
  simp only [Int.ofNat_lt]

theorem Counters.Fits.below {c : Counters ℕ} (h : c.Fits) : c.Below := by
  obtain ⟨hin, hout⟩ := h
  exact ⟨by omega, by omega, by omega, hout⟩

theorem Counters.Below.max {c p : Counters ℕ} (hc : c.Below) (hp : p.Below) :
    (Counters.map₂ max c p).Below :=
  ⟨Nat.max_lt.mpr ⟨hc.1, hp.1⟩, Nat.max_lt.mpr ⟨hc.2.1, hp.2.1⟩,
    Nat.max_lt.mpr ⟨hc.2.2.1, hp.2.2.1⟩, Nat.max_lt.mpr ⟨hc.2.2.2, hp.2.2.2⟩⟩

/-- What was recorded is read back. -/
theorem readPrevious_insert (usageById : Fields) (id : String) (c : Counters F64) :
    readPrevious ar (usageById.insert id (maxima c)) id = c := by
  unfold readPrevious
  rw [Fields.get_insert]
  rfl

theorem readPrevious_insert_of_ne {usageById : Fields} {id id' : String} (h : id' ≠ id)
    (v : Json) : readPrevious ar (usageById.insert id v) id' = readPrevious ar usageById id' := by
  unfold readPrevious
  rw [Fields.get_insert_of_ne h]

theorem excess_words {c p : Counters ℕ} (hc : c.Below) (hp : p.Below) :
    Counters.map₂ (fun c p => ar.max (ar.sub c p) F64.zero) (c.words ar) (p.words ar) =
      (Counters.map₂ Nat.sub c p).words ar := by
  unfold Counters.words Counters.map₂ Counters.map
  dsimp only
  rw [ar.excess_whole _ _ hc.1 hp.1, ar.excess_whole _ _ hc.2.1 hp.2.1,
    ar.excess_whole _ _ hc.2.2.1 hp.2.2.1, ar.excess_whole _ _ hc.2.2.2 hp.2.2.2]
  rfl

theorem max_words {c p : Counters ℕ} (hc : c.Below) (hp : p.Below) :
    Counters.map₂ ar.max (c.words ar) (p.words ar) = (Counters.map₂ max c p).words ar := by
  unfold Counters.words Counters.map₂ Counters.map
  dsimp only
  rw [ar.max_whole _ _ hc.1 hp.1, ar.max_whole _ _ hc.2.1 hp.2.1,
    ar.max_whole _ _ hc.2.2.1 hp.2.2.1, ar.max_whole _ _ hc.2.2.2 hp.2.2.2]

/-- Whole counters that fit together are charged as they are. -/
theorem charge_words (line : Json) {d : Counters ℕ} (hd : d.Fits) : ∃ cost,
    charge ar w line (d.words ar) =
      if 0 < d.input ∨ 0 < d.cacheWrite ∨ 0 < d.cacheRead ∨ 0 < d.output then
        some ⟨ar.ofInt (d.input + d.cacheWrite + d.cacheRead : ℕ), ar.ofInt d.output, cost⟩
      else none := by
  obtain ⟨hinput, hwrite, hread, houtput⟩ := hd.below
  refine ⟨w.cost (((pointer line "message" "model").bind Json.asStr).getD "")
    (ar.ofInt d.input, ar.ofInt d.cacheWrite, ar.ofInt d.cacheRead, ar.ofInt d.output), ?_⟩
  unfold charge Counters.words Counters.map
  dsimp only
  rw [Arithmetic.isPositive_whole hinput, Arithmetic.isPositive_whole hwrite,
    Arithmetic.isPositive_whole hread, Arithmetic.isPositive_whole houtput,
    ar.add_whole _ _ (by have hsum := hd.1; omega), ar.add_whole _ _ hd.1]
  simp only [Bool.or_eq_true, decide_eq_true_eq, or_assoc]

/-- What whole counters exceed the record by is charged, and they are recorded. -/
theorem account_whole {usageById : Fields} {line usage : Json} {id : String} {c p : Counters ℕ}
    (husage : usageOf line = some usage) (hid : messageId ar line = some id)
    (hc : readUsage ar usage = c.words ar) (hfits : c.Fits)
    (hp : readPrevious ar usageById id = p.words ar) (hbelow : p.Below) :
    ∃ cost, account ar w usageById line =
      (usageById.insert id (maxima ((Counters.map₂ max c p).words ar)),
        if c.Exceeds p then some {
          tokensIn := ar.ofInt (c.input - p.input + (c.cacheWrite - p.cacheWrite) +
            (c.cacheRead - p.cacheRead) : ℕ)
          tokensOut := ar.ofInt (c.output - p.output : ℕ)
          cost := cost }
        else none) := by
  have hexcess : (Counters.map₂ Nat.sub c p).Fits := by
    have hinput : c.input.sub p.input ≤ c.input := Nat.sub_le _ _
    have hwrite : c.cacheWrite.sub p.cacheWrite ≤ c.cacheWrite := Nat.sub_le _ _
    have hread : c.cacheRead.sub p.cacheRead ≤ c.cacheRead := Nat.sub_le _ _
    refine ⟨lt_of_le_of_lt ?_ hfits.1, (Nat.sub_le _ _).trans_lt hfits.2⟩
    exact Nat.add_le_add (Nat.add_le_add hinput hwrite) hread
  obtain ⟨cost, hcharge⟩ := @charge_words ar w line _ hexcess
  refine ⟨cost, ?_⟩
  unfold account
  rw [husage]
  dsimp only
  rw [hid]
  dsimp only
  rw [hc, hp, excess_words hfits.below hbelow, max_words hfits.below hbelow, hcharge]
  refine congrArg (Prod.mk _) (if_congr ?_ rfl rfl)
  unfold Counters.Exceeds
  exact or_congr Nat.sub_pos_iff_lt (or_congr Nat.sub_pos_iff_lt
    (or_congr Nat.sub_pos_iff_lt Nat.sub_pos_iff_lt))

/-! ## The row that carries the tokens -/

/-- The fields of a row of the agent about an entity. -/
def AgentFields (base : Fields) (entity : String) (fields : Fields) : Prop :=
  (∃ isWrite, fields = fileFields base entity isWrite) ∨ fields = appFields base "agent" entity

/-- What that row is about: the first file that a tool was used on, or else the directory. -/
def claudeEntity (w : Watching) (line : Json) : String :=
  ((toolFiles w line).head?.map Prod.fst).getD (claudeCwd line)

/-- A line that leaves such a row. -/
def Carried (ar : Arithmetic) (w : Watching) (line : Json) : Prop :=
  isHumanPrompt ar line = false ∧ (toolFiles w line ≠ [] ∨ isTurn line = true)

theorem claudeRows_silent {ts : F64} {line : Json} {tokens : Option TokenFields}
    (h : tokens = none ∨ messageId ar line = none) {r : Row}
    (hr : r ∈ claudeRows ar w ts line tokens) : r.payer = none := by
  have hpayer : (tokens.bind fun _ => (messageId ar line).map Payer.message) = none := by
    rcases h with rfl | hid
    · rfl
    · rw [hid]
      cases tokens <;> rfl
  unfold claudeRows at hr
  dsimp only at hr
  rw [hpayer] at hr
  split at hr
  · rw [List.mem_singleton.mp hr]
  · split at hr
    · rcases List.mem_cons.mp hr with rfl | hr
      · rfl
      · obtain ⟨file, -, rfl⟩ := List.mem_map.mp hr
        rfl
    · split at hr
      · rw [List.mem_singleton.mp hr]
      · cases hr

theorem claudeRows_carrier {ts : F64} {line : Json} {id : String} {f : TokenFields}
    (hid : messageId ar line = some id) (hcarried : Carried ar w line) :
    ∃ fields rest, claudeRows ar w ts line (some f) =
        ⟨some (.message id), attach fields (some f)⟩ :: rest ∧
      AgentFields (claudeBase w ts line) (claudeEntity w line) fields ∧
      ∀ r ∈ rest, r.payer = none := by
  obtain ⟨hhuman, hturn⟩ := hcarried
  unfold claudeRows claudeEntity
  rw [hhuman, hid]
  cases hfiles : toolFiles w line with
  | nil =>
      have hturn : isTurn line = true := hturn.resolve_left (fun h => h hfiles)
      refine ⟨_, [], ?_, .inr rfl, by simp⟩
      simp only [Bool.false_eq_true, if_false, hturn, if_true]
      rfl
  | cons first rest =>
      refine ⟨_, rest.map fun file => ⟨none, fileFields (claudeBase w ts line) file.1 file.2⟩,
        ?_, .inl ⟨first.2, rfl⟩, ?_⟩
      · simp only [Bool.false_eq_true, if_false]
        rfl
      · intro r hr
        obtain ⟨file, -, rfl⟩ := List.mem_map.mp hr
        rfl

/-- What an event charges. -/
structure EventUsage where
  input : ℕ
  output : ℕ
  reasoning : ℕ

/-- The usage of an event in whole numbers. -/
def EventUsage.Of (ar : Arithmetic) (u : EventUsage) (tu : Json) : Prop :=
  counter ar tu "input_tokens" = ar.ofInt u.input ∧
    counter ar tu "output_tokens" = ar.ofInt u.output ∧
    counter ar tu "reasoning_output_tokens" = ar.ofInt u.reasoning

def EventUsage.Fits (u : EventUsage) : Prop :=
  u.input < Binary64.limit ∧ u.output + u.reasoning < Binary64.limit

def EventUsage.Positive (u : EventUsage) : Prop := 0 < u.input ∨ 0 < u.output + u.reasoning

theorem codexTokens_whole {u : EventUsage} {tu : Json} (hu : u.Of ar tu) (hfits : u.Fits)
    (info : Fields) : ∃ cost, codexTokens ar w info tu =
      ⟨ar.ofInt u.input, ar.ofInt (u.output + u.reasoning : ℕ), cost⟩ := by
  obtain ⟨hin, hout, hreasoning⟩ := hu
  unfold codexTokens
  rw [hin, hout, hreasoning]
  dsimp only
  rw [ar.add_whole _ _ hfits.2]
  exact ⟨_, rfl⟩

theorem codexRows_silent {path : String} {info : Fields} {ts : F64} {line : Json}
    (h : ∀ tu, tokenUsage (payload ar line) = some tu →
      ∃ u : EventUsage, u.Of ar tu ∧ u.Fits ∧ ¬u.Positive)
    {r : Row} (hr : r ∈ codexRows ar w path info ts line) : r.payer = none := by
  unfold codexRows at hr
  dsimp only at hr
  split at hr
  · obtain ⟨file, -, rfl⟩ := List.mem_map.mp hr
    rfl
  · rw [List.mem_singleton.mp hr]
    dsimp only
    cases husage : tokenUsage (payload ar line) with
    | none => rfl
    | some tu =>
        obtain ⟨u, hu, hfits, hpos⟩ := h tu husage
        obtain ⟨cost, htokens⟩ := @codexTokens_whole ar w u tu hu hfits info
        unfold EventUsage.Positive at hpos
        rw [Option.map_some, htokens, Option.filter_some, Arithmetic.isPositive_whole hfits.1,
          Arithmetic.isPositive_whole hfits.2]
        simp only [Bool.or_eq_true, decide_eq_true_eq, if_neg hpos, Option.map_none]

theorem codexRows_carrier {path : String} {info : Fields} {ts : F64} {line tu : Json}
    {u : EventUsage} (husage : tokenUsage (payload ar line) = some tu) (hu : u.Of ar tu)
    (hfits : u.Fits) (hpos : u.Positive) (hchanges : changes (payload ar line) = none) :
    ∃ cost, codexRows ar w path info ts line =
      [⟨some (.session path), attach (appFields (codexBase w ts info) "agent" (codexCwd info))
        (some ⟨ar.ofInt u.input, ar.ofInt (u.output + u.reasoning : ℕ), cost⟩)⟩] := by
  have hhuman : ¬((line.get "type").bind Json.asStr = some "event_msg" ∧
      ((payload ar line).get "type").bind Json.asStr = some "user_message") := by
    rintro ⟨-, hmessage⟩
    unfold tokenUsage at husage
    rw [hmessage] at husage
    cases husage
  obtain ⟨cost, htokens⟩ := @codexTokens_whole ar w u tu hu hfits info
  unfold EventUsage.Positive at hpos
  refine ⟨cost, ?_⟩
  unfold codexRows
  dsimp only
  rw [hchanges, husage, Option.map_some, htokens, Option.filter_some,
    Arithmetic.isPositive_whole hfits.1, Arithmetic.isPositive_whole hfits.2]
  simp only [Bool.or_eq_true, decide_eq_true_eq, if_pos hpos, Option.map_some, if_neg hhuman]

theorem codexEvent_finite {line : Json} {ts : F64} (h : codexEvent ar w line = some ts) :
    ts.isFinite = true := by
  unfold codexEvent at h
  dsimp only at h
  split at h
  · exact recent_finite h
  · cases h

theorem codexLine_event {path : String} {info : Fields} {ts : F64} {line : Json}
    (hts : codexEvent ar w line = some ts) :
    codexLine ar w path info line = (info, codexRows ar w path info ts line) := by
  have hkind : (line.get "type").bind Json.asStr = some "response_item" ∨
      (line.get "type").bind Json.asStr = some "event_msg" := by
    by_contra hkind
    unfold codexEvent at hts
    dsimp only at hts
    rw [if_neg hkind] at hts
    cases hts
  unfold codexLine
  rw [hts]
  rcases hkind with hkind | hkind <;> rw [hkind] <;> rfl

theorem codexLine_other {path : String} {info : Fields} {line : Json}
    (hts : codexEvent ar w line = none) : (codexLine ar w path info line).2 = [] := by
  unfold codexLine
  rw [hts]
  dsimp only
  split
  · rfl
  · split <;> rfl

end Transcripts

end Stackhour.Agent
