import Stackhour.Core.Config
import Stackhour.Core.Enrollment
import Stackhour.Tracker.ReadGuard

/-!
# Enrolling a machine

`token create` gives a machine a secret in the file of the hub and prints a code;
`init agent --enrollment` turns the code into the `agent` section of the file on the
machine. The agent sends the secret with each request, and the hub takes it for the
machine that its own file has it for.
-/

namespace Stackhour.Tracker

open Core Domain JsonGrammar

variable (fl : Floats) (ft : JsonGrammar.FloatText) (parseUrl : String → Option Url)

/-! ## The hub's side -/

/-- `generate_token`, of what the random source gives. -/
def generateToken (bytes : List UInt8) : String := String.ofList (Base64.encode bytes)

/-- What `token create` prints. -/
inductive TokenOutput where
  | secret (name token : String)
  | enrolled (name code : String)
deriving DecidableEq

/-- `public_url`: the override, or `server.publicUrl` of the file. -/
def publicUrl (access : FileAccess) (file : File) (override : Option String) :
    Except String (Option String) :=
  let value : Except String (Option String) :=
    match override.filter (fun u => u != "") with
    | some u => .ok (some u)
    | none =>
        match readToString file access.readable with
        | none => .error ("cannot read config: " ++ access.detail)
        | some text =>
            match (JsonGrammar.text ft).parse text with
            | .error detail => .error ("cannot read config: " ++ detail)
            | .ok config =>
                .ok ((((config.get "server").bind (Json.get "publicUrl")).bind Json.asStr).filter
                  (fun u => u != ""))
  value.bind fun url =>
    match url with
    | some u => (validUrl parseUrl u).map some
    | none => .ok none

/-- `token create`. The file has the new secret also when the output fails. -/
def tokenCreate (access : FileAccess) (file : File) (machine : String) (token : Option String)
    (generated : String) (force raw : Bool) (serverUrl : Option String) :
    File × Except String TokenOutput :=
  let created := createMachineToken fl (JsonGrammar.text ft) access file machine token generated
    force
  match created.2 with
  | .error e => (created.1, .error e)
  | .ok (name, secret) =>
      (created.1, (publicUrl ft parseUrl access created.1 serverUrl).bind fun url =>
        match url with
        | some u =>
            if raw then .ok (.secret name secret)
            else (createEnrollment parseUrl ft u name secret).map (.enrolled name)
        | none => .ok (.secret name secret))

/-! ## The machine's side -/

/-- `InitAgentOpts`. -/
structure InitAgentOpts where
  force : Bool
  serverUrl : Option String
  token : Option String
  machine : Option String
  projectRoots : List String
  enrollment : Option String

/-- What `init agent` finds around it: the host's name, the home, and the real path of a
directory. -/
structure Host where
  hostname : String
  home : String
  realDir : String → Option String

/-- `resolved_roots`. -/
def resolvedRoots (host : Host) : List String → Except String (List String)
  | [] => .ok []
  | root :: roots =>
      match host.realDir (expandHome root host.home) with
      | none => .error ("invalid project root (must be an existing directory): " ++ root)
      | some dir => (resolvedRoots host roots).map (dir :: ·)

/-- `clean_or_default`. -/
def cleanOrDefault (value : Option String) (default : String) : String :=
  jsTrimmed (value.getD default)

/-- `read_existing_raw`. -/
def readExistingRaw (access : FileAccess) (file : File) : Except String Json :=
  match file with
  | none => .ok (.object [])
  | some _ =>
      match readToString file access.readable with
      | none => .error ("cannot read existing config: " ++ access.detail)
      | some text =>
          match (JsonGrammar.text ft).parse text with
          | .error detail => .error ("cannot read existing config: " ++ detail)
          | .ok config => .ok config

/-- The URL, the token and the machine that the options give. -/
def initSource (host : Host) (opts : InitAgentOpts) :
    Except String (Option String × Option String × Option String) :=
  match opts.enrollment.filter (fun code => code != "") with
  | some code =>
      if opts.serverUrl.isSome ∨ opts.token.isSome ∨ opts.machine.any (fun m => m != host.hostname)
      then .error "do not combine --enrollment with server URL, token, or machine"
      else (parseEnrollment parseUrl ft fl code).map fun parsed =>
        (some parsed.serverUrl, some parsed.token, some parsed.machine)
  | none => .ok (opts.serverUrl, opts.token, opts.machine)

/-- The section that `init_agent` writes. -/
def agentSection (serverUrl token machine : String) (roots : List String) : Json :=
  .object [("serverUrl", .string serverUrl), ("token", .string token),
    ("machine", .string machine), ("projectRoots", .array (roots.map .string))]

/-- The map that a section is written into: anything but an object counts as empty. -/
def rootFields : Json → Fields
  | .object fields => fields
  | _ => []

/-- `is_some_and(|v| !v.is_null())` of a section. -/
def hasSection (config : Json) (key : String) : Bool :=
  match config.get key with
  | none | some .null => false
  | some _ => true

/-- `init_agent` up to the write: the configuration and its `agent` section. -/
def initAgentConfig (host : Host) (access : FileAccess) (file : File) (opts : InitAgentOpts) :
    Except String (Json × Json) := do
  let (url, token, machine) ← initSource fl ft parseUrl host opts
  match url.filter (fun u => u != "") with
  | none => .error "--server-url is required"
  | some serverUrl =>
      let cleanToken := jsTrimmed (token.getD "")
      if cleanToken = "" then .error "--token is required"
      else
        let existing ← readExistingRaw ft access file
        if hasSection existing "agent" ∧ opts.force = false then
          .error "agent config already exists; pass --force to replace it"
        else
          let cleanMachine := cleanOrDefault machine host.hostname
          let cleanUrl ← validUrl parseUrl serverUrl
          let roots ← resolvedRoots host opts.projectRoots
          if cleanMachine = "" then .error "machine name cannot be empty"
          else
            let agent := agentSection cleanUrl cleanToken cleanMachine roots
            .ok (.object (Fields.insert (rootFields existing) "agent" agent), agent)

/-- `init_agent`. -/
def initAgent (host : Host) (access : FileAccess) (file : File) (opts : InitAgentOpts) :
    File × Except String Json :=
  commit (JsonGrammar.text ft) access file (initAgentConfig fl ft parseUrl host access file opts)

/-! ## The agent and its requests -/

/-- What the loop of the agent takes from its configuration. -/
structure AgentCfg where
  serverUrl : String
  token : String
  machine : String
deriving DecidableEq

/-- `build_agent`. -/
def buildAgent (text : FloatText) (raw : Json) : AgentCfg where
  serverUrl := Config.stringField text (raw.get "agent") "serverUrl" "http://127.0.0.1:4040"
  token := Config.stringField text (raw.get "agent") "token" ""
  machine := Config.stringField text (raw.get "agent") "machine" ""

/-- The `authorization` header of `post`. -/
def bearer (cfg : AgentCfg) : Option String :=
  if cfg.token = "" then none else some ("Bearer " ++ cfg.token)

/-- `{ machine, ...row }` of `tick`. -/
def stampRow (cfg : AgentCfg) (row : Json) : Json :=
  .object ((rootFields row).foldl (fun out f => Fields.insert out f.1 f.2)
    [("machine", .string cfg.machine)])

/-- A character that `HeaderValue::to_str` lets through. -/
def visibleAscii (c : Char) : Bool := (32 ≤ c.toNat && c.toNat < 127) || c.toNat == 9

/-- A blank that is taken off the ends of a header's value. -/
def headerBlank (c : Char) : Bool := c.toNat == 32 || c.toNat == 9

/-- What the HTTP crates do to a header: `carry` is the text that the server reads of a value,
none where it is no visible ASCII or was never sent. -/
structure HeaderCrate (carry : String → Option String) : Prop where
  visible : ∀ v : String, v.toList.all visibleAscii = true →
    (∀ c, v.toList.head? = some c ∨ v.toList.getLast? = some c → headerBlank c = false) →
    carry v = some v
  hidden : ∀ v : String, v.toList.all visibleAscii = false → carry v = none

/-- Who the hub takes an agent for, with the configuration that the hub has loaded. -/
def admitted (carry : String → Option String)
    (parseQuery : String → List (String × String)) (hub : Json) (cfg : AgentCfg) :
    Option Principal :=
  authenticate fl parseQuery ((bearer cfg).bind carry) "" ((hub.get "server").getD (.object []))

end Stackhour.Tracker
