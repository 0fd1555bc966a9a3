import Stackhour.Tracker.AgentStatus

/-!
# The write routes

`/api/ingest`, `/api/agent-status` and the paths of the WakaTime protocol. Each
checks the machine of what it is sent against the token before it writes; the
store coerces the machine for itself.
-/

namespace Stackhour.Tracker

open Core Domain

/-! ## Tokens and machines -/

/-- Who a request's token stands for. -/
inductive Principal where
  | open
  | global
  | machine (owner : String)

/-- `allows_machine`. -/
def allowsMachine (p : Principal) (machine : Option String) : Bool :=
  match p with
  | .open | .global => true
  | .machine owner => (machine.filter (fun m => m != "")).getD "unknown" == owner

variable (fl : Floats)

/-- `row_machine`. -/
def rowMachine (row : Json) : String :=
  match row.get "machine" with
  | some v => if jsTruthy fl v then jsDisplay fl v else "unknown"
  | none => "unknown"

/-- The headers that the routes read, where they are visible ASCII. -/
structure Headers where
  userAgent : Option String
  machineName : Option String

/-- `machine_header`. -/
def machineHeader (headers : Headers) : String :=
  (headers.machineName.filter (fun v => v != "")).getD "unknown"

/-! ## Responses -/

structure Response where
  status : ℕ
  body : Json

def Response.isSuccess (r : Response) : Bool := decide (200 ≤ r.status ∧ r.status < 300)

def jsonError (status : ℕ) (message : String) : Response :=
  ⟨status, .object [("error", .string message)]⟩

/-- `scope_denied`. -/
def scopeDenied (p : Principal) : Response :=
  jsonError 403 ("token is restricted to machine " ++
    match p with
    | .machine m => m
    | .open | .global => "")

/-- What `read_json` makes of a body. -/
inductive Body where
  | tooLarge
  | invalid
  | json (v : Json)

/-- `read_json`. -/
def readJson : Body → Except Response Json
  | .tooLarge => .error (jsonError 413 "body too large")
  | .invalid => .error (jsonError 400 "invalid JSON")
  | .json v => .ok v

/-! ## The WakaTime rows -/

/-- `h[key] || fallback`. -/
def orValue (h : Json) (key : String) (fallback : Json) : Json :=
  match h.get key with
  | some v => if jsTruthy fl v then v else fallback
  | none => fallback

def isWordChar (c : Char) : Bool := Hub.isAsciiAlphanumeric c || c == '_'

/-- `\bai\b`, ASCII and without case; `word` is whether a word character comes
before. -/
def matchesAi (word : Bool) : List Char → Bool
  | [] => false
  | c :: rest =>
      (!word && (c == 'a' || c == 'A') &&
        match rest with
        | [] => false
        | d :: tail => (d == 'i' || d == 'I') && !(tail.head?.any isWordChar)) ||
      matchesAi (isWordChar c) rest

/-- The first part of a split. -/
def firstPart (sep : Char) (s : String) : String :=
  String.ofList (s.toList.takeWhile (fun c => c != sep))

/-- The plugin from which a row's source is taken. -/
def wakatimePlugin (h : Json) (headers : Headers) : String :=
  match h.get "plugin" with
  | some v => if jsTruthy fl v then jsDisplay fl v else fallback
  | none => fallback
where
  fallback : String :=
    if headers.userAgent.getD "" = "" then "wakatime-plugin" else headers.userAgent.getD ""

/-- `from_wakatime`; `lowercase` is `str::to_lowercase`. -/
def fromWakatime (lowercase : String → String) (h : Json) (headers : Headers) : Json :=
  let token := firstPart ' ' (wakatimePlugin fl h headers)
  let time := ((h.get "time").map (jsNumber fl)).getD F64.nan
  let category := jsStringOr fl (h.get "category") ""
  .object
    [("time", if time.isFinite then .number (jsonNum fl time) else .null),
      ("machine", .string (machineHeader headers)),
      ("source", .string (lowercase (firstPart '/' (if token = "" then "wakatime-plugin" else token)))),
      ("project", orValue fl h "project" (orValue fl h "alternate_project" (.string "unknown"))),
      ("entity", orValue fl h "entity" (.string "unknown")),
      ("entity_type",
        .string (if (h.get "type").bind Json.asStr = some "app" then "app" else "file")),
      ("category", orValue fl h "category" (.string "coding")),
      ("language", orValue fl h "language" .null),
      ("branch", orValue fl h "branch" .null),
      ("is_write",
        .number (.int (if ((h.get "is_write").map (jsTruthy fl)).getD false then 1 else 0))),
      ("actor", .string (if matchesAi false category.toList then "agent" else "human"))]

/-- `echo_pair`. -/
def echoPair (h : Json) : Json :=
  let field (key : String) : List (String × Json) :=
    ((h.get key).map (fun v => (key, v))).toList
  .array [.object [("data", .object (("id", .null) :: field "entity" ++ field "time"))],
    .number (.int 201)]

/-! ## The handlers -/

/-- The two tables that the routes write. -/
structure Db where
  heartbeats : Heartbeats
  agentStatus : AgentStatuses

/-- `ingest_handler`, once the token has been read. -/
def ingestHandler (db : Db) (principal : Principal) (body : Body) (now : F64)
    (sqlError : Option String) : Db × Response :=
  match readJson body with
  | .error res => (db, res)
  | .ok (.array rows) =>
      if rows.any (fun row => !allowsMachine principal (some (rowMachine fl row))) then
        (db, scopeDenied principal)
      else
        match insertHeartbeats fl now db.heartbeats rows sqlError with
        | (heartbeats, .ok inserted) =>
            ({ db with heartbeats := heartbeats },
              ⟨200, .object [("inserted", .number (.int inserted)),
                ("received", .number (.int rows.length))]⟩)
        | (heartbeats, .error e) => ({ db with heartbeats := heartbeats }, jsonError 500 e)
  | .ok _ => (db, jsonError 400 "expected array")

/-- `agent_status_handler`. -/
def agentStatusHandler (db : Db) (principal : Principal) (body : Body) (now : F64)
    (sqlError : Option String) : Db × Response :=
  match readJson body with
  | .error res => (db, res)
  | .ok (.object fields) =>
      if !allowsMachine principal (some (rowMachine fl (.object fields))) then
        (db, scopeDenied principal)
      else
        match upsertAgentStatus fl db.agentStatus (.object fields) now sqlError with
        | (agentStatus, .ok ack) =>
            ({ db with agentStatus := agentStatus },
              ⟨200, .object [("machine", .string ack.machine),
                ("serverTime", .number (jsonNum fl ack.serverTime)),
                ("clockSkewSeconds", .number (jsonNum fl ack.clockSkewSeconds))]⟩)
        | (agentStatus, .error e) => ({ db with agentStatus := agentStatus }, jsonError 400 e)
  | .ok _ => (db, jsonError 400 "expected object")

/-- The batch of a WakaTime body. -/
def wakatimeItems : Json → List Json
  | .array items => items
  | other => [other]

def isNull : Json → Bool
  | .null => true
  | _ => false

/-- `wakatime_handler`. -/
def wakatimeHandler (lowercase : String → String) (db : Db) (principal : Principal)
    (headers : Headers) (body : Body) (now : F64) (sqlError : Option String) : Db × Response :=
  match readJson body with
  | .error res => (db, res)
  | .ok parsed =>
      let items := wakatimeItems parsed
      if !allowsMachine principal (some (machineHeader headers)) then (db, scopeDenied principal)
      else if items.any isNull then
        (db, jsonError 500 "Cannot read properties of null (reading 'plugin')")
      else
        let rows := items.map (fun h => fromWakatime fl lowercase h headers)
        match insertHeartbeats fl now db.heartbeats rows sqlError with
        | (heartbeats, .ok _) =>
            ({ db with heartbeats := heartbeats },
              ⟨202, .object [("responses", .array (items.map echoPair))]⟩)
        | (heartbeats, .error e) => ({ db with heartbeats := heartbeats }, jsonError 500 e)

end Stackhour.Tracker
