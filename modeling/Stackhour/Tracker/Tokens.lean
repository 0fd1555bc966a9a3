import Mathlib.Algebra.GroupWithZero.Nat
import Stackhour.Core.JsonRoundTrip
import Stackhour.Core.Text
import Stackhour.Lib.Result
import Stackhour.Lib.System
import Stackhour.Tracker.AgentStatus

/-!
# Machine tokens

`token create` and `token revoke` edit `server.tokens` in the configuration file,
whatever else the file holds. The server takes a secret for the machine whose entry
reads as it.
-/

namespace Stackhour.Tracker

open Core Domain TransitionSystem

/-! ## Names and secrets -/

/-- `utf16_len`. -/
def utf16Len (cs : List Char) : ℕ := (cs.map lenUtf16).sum

/-- `machine_name`: no C0 controls and no DEL. -/
def machineName (value : String) : Except String String :=
  let machine := jsTrim value.toList
  let badChar := machine.any (fun c => c.toNat ≤ 0x1f || c.toNat == 0x7f)
  if machine.isEmpty || 200 < utf16Len machine || badChar then
    .error "machine must be 1-200 printable characters"
  else .ok (String.ofList machine)

variable (fl : Floats)

/-- `is_truthy` of auth. -/
def isTruthy : Json → Bool
  | .null => false
  | .bool b => b
  | .string s => s != ""
  | .number n => !((asF64 fl n).isZero || (asF64 fl n).isNan)
  | .array _ | .object _ => true

/-- `truthy_string`: what a supplied token is compared with. -/
def truthyString (v : Json) : Option String :=
  if !isTruthy fl v then none
  else match v with
    | .string s => some s
    | .bool true => some "true"
    | .number _ => some (jsDisplay fl v)
    | _ => none

/-! ## The configuration -/

/-- `server.tokens`, where it is an object. -/
def tokenMap (config : Json) : Fields :=
  match (config.get "server").bind (Json.get "tokens") with
  | some (.object tokens) => tokens
  | _ => []

/-- `LoadedConfig`: an array takes no `tokens`, and what is set there is lost. -/
structure LoadedConfig where
  config : Json
  phantom : Option Fields

namespace LoadedConfig

def tokens (loaded : LoadedConfig) : Fields := loaded.phantom.getD (tokenMap loaded.config)

/-- An edit through `tokens_mut`. -/
def editTokens (loaded : LoadedConfig) (f : Fields → Fields) : LoadedConfig :=
  match loaded.phantom with
  | some m => { loaded with phantom := some (f m) }
  | none =>
      { loaded with
        config := loaded.config.onObject fun root => Fields.modify root "server" <|
          Json.onObject fun server => Fields.modify server "tokens" (Json.onObject f) }

end LoadedConfig

/-- What the file system does to one operation, and the text of its error. -/
structure FileAccess where
  readable : Bool
  write : AtomicWrite
  detail : String

/-- What a message calls a value that takes no property. -/
def primitiveName : Json → String
  | .number _ => "number"
  | .string _ => "string"
  | _ => "boolean"

variable (J : JsonText)

/-- `tokens ??= {}`: a null is replaced in its place. -/
def orEmptyTokens (server : Fields) : Fields :=
  match Fields.get server "tokens" with
  | none | some .null => Fields.insert server "tokens" (.object [])
  | some _ => server

/-- `read_server_config` of what was read. -/
def serverConfig (config : Json) : Except String LoadedConfig :=
  match config with
  | .null => .error "Cannot read properties of null (reading 'server')"
  | _ =>
      match config.get "server" with
      | none => .error "server is not initialized"
      | some server =>
          if !jsTruthy fl server then .error "server is not initialized"
          else match server with
            | .object fields =>
                match Fields.get (orEmptyTokens fields) "tokens" with
                | some (.object _) =>
                    .ok ⟨config.onObject fun root => Fields.modify root "server" fun _ =>
                      .object (orEmptyTokens fields), none⟩
                | _ => .error "server.tokens must be an object keyed by machine name"
            | .array _ => .ok ⟨config, some []⟩
            | other => .error ("Cannot create property 'tokens' on " ++ primitiveName other ++
                " '" ++ jsDisplay fl other ++ "'")

/-- `read_server_config`. -/
def readServerConfig (access : FileAccess) (file : File) : Except String LoadedConfig :=
  match readToString file access.readable with
  | none => .error ("cannot read config: " ++ access.detail)
  | some text =>
      match J.parse text with
      | .error detail => .error ("cannot read config: " ++ detail)
      | .ok config => serverConfig fl config

/-- The file that a configuration is written to. -/
def fileOf (config : Json) : File := some (Utf8.encode (J.pretty config ++ ['\n']))

/-- `write_raw_config`. -/
def writeRawConfig (access : FileAccess) (file : File) (config : Json) :
    File × Except String Unit :=
  let written := atomicWrite file (Utf8.encode (J.pretty config ++ ['\n'])) access.write
  (written.1, if written.2 then .ok () else .error access.detail)

/-! ## The operations -/

/-- The secret of a new entry: the one passed, trimmed, or a generated one. -/
def newSecret (token : Option String) (generated : String) : String :=
  match token with
  | none => generated
  | some s => String.ofList (jsTrim s.toList)

/-- What `create_machine_token` makes of the configuration. -/
def createEdit (loaded : LoadedConfig) (name : String) (token : Option String)
    (generated : String) (force : Bool) : Except String (Json × String × String) :=
  if name ∈ loaded.tokens.map Prod.fst ∧ force = false then
    .error ("token for " ++ name ++ " already exists; pass --force to rotate it")
  else
    let secret := newSecret token generated
    if secret = "" then .error "token cannot be empty"
    else if loaded.tokens.any (fun e => e.1 != name && e.2.asStr == some secret) then
      .error "token is already assigned to another machine"
    else
      .ok ((loaded.editTokens (Fields.insert · name (.string secret))).config, name, secret)

/-- What `revoke_machine_token` makes of the configuration. -/
def revokeEdit (loaded : LoadedConfig) (name : String) : Except String (Json × String) :=
  if name ∈ loaded.tokens.map Prod.fst then
    .ok ((loaded.editTokens (Fields.remove · name)).config, name)
  else .error ("no token exists for " ++ name)

/-- An edit is written, or the operation ends with its error. -/
def commit {α : Type*} (access : FileAccess) (file : File) :
    Except String (Json × α) → File × Except String α
  | .error e => (file, .error e)
  | .ok (config, a) =>
      let written := writeRawConfig J access file config
      (written.1, written.2.map (fun _ => a))

/-- `create_machine_token` up to the write; `generated` is what `generate_token`
would return. -/
def createdConfig (access : FileAccess) (file : File) (machine : String)
    (token : Option String) (generated : String) (force : Bool) :
    Except String (Json × String × String) := do
  let name ← machineName machine
  let loaded ← readServerConfig fl J access file
  createEdit loaded name token generated force

def createMachineToken (access : FileAccess) (file : File) (machine : String)
    (token : Option String) (generated : String) (force : Bool) :
    File × Except String (String × String) :=
  commit J access file (createdConfig fl J access file machine token generated force)

/-- `revoke_machine_token` up to the write. -/
def revokedConfig (access : FileAccess) (file : File) (machine : String) :
    Except String (Json × String) := do
  let name ← machineName machine
  let loaded ← readServerConfig fl J access file
  revokeEdit loaded name

def revokeMachineToken (access : FileAccess) (file : File) (machine : String) :
    File × Except String String :=
  commit J access file (revokedConfig fl J access file machine)

/-! ## What an edit changes -/

/-- The configuration without its tokens. -/
def withoutTokens (config : Json) : Json :=
  config.onObject fun root => Fields.modify root "server" <|
    Json.onObject fun server => Fields.remove server "tokens"

/-- The configuration with other tokens. -/
def withTokens (root server tokens : Fields) : Json :=
  .object <| Fields.modify root "server" fun _ =>
    .object <| Fields.modify server "tokens" fun _ => .object tokens

variable {fl} {J}

theorem orEmptyTokens_remove (server : Fields) :
    Fields.remove (orEmptyTokens server) "tokens" = Fields.remove server "tokens" := by
  unfold orEmptyTokens
  split
  · exact Fields.insert_remove server "tokens" _
  · exact Fields.insert_remove server "tokens" _
  · rfl

/-- Null and missing tokens are an empty map. -/
theorem orEmptyTokens_get {server tokens : Fields}
    (h : Fields.get (orEmptyTokens server) "tokens" = some (.object tokens)) :
    Fields.get server "tokens" = some (.object tokens) ∨
      (tokens = [] ∧ ∀ m, Fields.get server "tokens" ≠ some (.object m)) := by
  unfold orEmptyTokens at h
  split at h
  · next hnone =>
      rw [Fields.get_insert] at h
      cases h
      exact .inr ⟨rfl, fun m hm => by rw [hnone] at hm; cases hm⟩
  · next hnull =>
      rw [Fields.get_insert] at h
      cases h
      exact .inr ⟨rfl, fun m hm => by rw [hnull] at hm; cases hm⟩
  · exact .inl h

theorem tokenMap_object {root server : Fields}
    (h : Fields.get root "server" = some (.object server)) :
    tokenMap (.object root) =
      match Fields.get server "tokens" with
      | some (.object tokens) => tokens
      | _ => [] := by
  have hserver : Json.get "server" (.object root) = some (.object server) := h
  unfold tokenMap
  rw [hserver, Option.bind_some]
  rfl

/-- A configuration that is loaded has an object under `server`, or an array. -/
theorem serverConfig_ok {config : Json} {loaded : LoadedConfig}
    (h : serverConfig fl config = .ok loaded)
    (harray : ∀ items, config.get "server" ≠ some (.array items)) :
    ∃ root server tokens, config = .object root ∧
      Fields.get root "server" = some (.object server) ∧
      Fields.get (orEmptyTokens server) "tokens" = some (.object tokens) ∧
      loaded = ⟨.object (Fields.modify root "server" fun _ => .object (orEmptyTokens server)),
        none⟩ := by
  cases config with
  | object root =>
      have hget : Json.get "server" (.object root) = Fields.get root "server" := rfl
      unfold serverConfig at h
      dsimp only at h
      rw [hget] at h harray
      split at h
      · cases h
      · next server hserver =>
          split at h
          · cases h
          · cases server with
            | object fields =>
                dsimp only at h
                split at h
                · next tokens htokens =>
                    obtain rfl := Except.ok.inj h
                    exact ⟨root, fields, tokens, rfl, hserver, htokens, rfl⟩
                · cases h
            | array items => exact absurd hserver (harray items)
            | _ => cases h
  | _ => cases h

/-- An edit through `tokens_mut` puts the edited map in the place of the old. -/
theorem editTokens_eq {root server tokens : Fields}
    (htokens : Fields.get server "tokens" = some (.object tokens))
    (hunique : Table.Unique Prod.fst server) (f : Fields → Fields) :
    ((LoadedConfig.mk (.object (Fields.modify root "server" fun _ => .object server))
      none).editTokens f).config = withTokens root server (f tokens) := by
  have hplace : Fields.modify server "tokens" (Json.onObject f) =
      Fields.modify server "tokens" fun _ => .object (f tokens) := by
    apply Fields.modify_congr
    intro e he hkey
    have hvalue := Fields.get_of_mem hunique he
    rw [hkey, htokens] at hvalue
    rw [← Option.some.inj hvalue]
    rfl
  show Json.object (Fields.modify (Fields.modify root "server" _) "server" _) = _
  rw [Fields.modify_modify, withTokens, ← hplace]
  rfl

theorem tokenMap_withTokens {root server tokens new : Fields} {v : Json}
    (hserver : Fields.get root "server" = some v)
    (htokens : Fields.get server "tokens" = some (.object tokens)) :
    tokenMap (withTokens root server new) = new := by
  unfold withTokens
  rw [@tokenMap_object _ (Fields.modify server "tokens" fun _ => .object new)]
  · rw [Fields.get_modify, htokens]
    rfl
  · rw [Fields.get_modify, hserver]
    rfl

theorem withoutTokens_withTokens {root server new : Fields} {old : Fields}
    (hunique : Table.Unique Prod.fst root) (hserver : Fields.get root "server" = some (.object old))
    (hsame : Fields.remove server "tokens" = Fields.remove old "tokens") :
    withoutTokens (withTokens root server new) = withoutTokens (.object root) := by
  show Json.object (Fields.modify (Fields.modify root "server" _) "server" _) =
    Json.object (Fields.modify root "server" _)
  rw [Fields.modify_modify]
  congr 1
  apply Fields.modify_congr
  intro e he hkey
  have hvalue := Fields.get_of_mem hunique he
  rw [hkey, hserver] at hvalue
  rw [← Option.some.inj hvalue]
  show Json.object (Fields.remove (Fields.modify server "tokens" _) "tokens") =
    Json.object (Fields.remove old "tokens")
  rw [Fields.modify_remove, hsame]

/-- The edited configuration can be read back. -/
theorem withTokens_fits {depth : ℕ} {root server new : Fields}
    (hroot : Json.Fits (depth + 3) (.object root))
    (hserver : Json.Fits (depth + 2) (.object server))
    (hnew : Json.Fits (depth + 1) (.object new)) :
    (withTokens root server new).Fits (depth + 3) :=
  hroot.modify fun _ _ _ => hserver.modify fun _ _ _ => hnew

/-! ## One operation after another -/

inductive TokenCommand where
  | create (machine : String) (token : Option String) (generated : String) (force : Bool)
  | revoke (machine : String)

namespace TokenCommand

def machine : TokenCommand → String
  | create machine _ _ _ | revoke machine => machine

/-- The secret that the machine is to have. -/
def secret : TokenCommand → Option String
  | create _ token generated _ => some (newSecret token generated)
  | revoke _ => none

/-- What becomes of the map. -/
def change (c : TokenCommand) (name : String) (tokens : Fields) : Fields :=
  match c.secret with
  | some secret => tokens.insert name (.string secret)
  | none => tokens.remove name

variable (fl) (J)

def perform (c : TokenCommand) (access : FileAccess) (file : File) : File × Except String Unit :=
  match c with
  | create machine token generated force =>
      let r := createMachineToken fl J access file machine token generated force
      (r.1, r.2.map fun _ => ())
  | revoke machine =>
      let r := revokeMachineToken fl J access file machine
      (r.1, r.2.map fun _ => ())

end TokenCommand

/-- An operation of the past. -/
structure Performed where
  command : TokenCommand
  before : File
  after : File
  result : Except String Unit

/-- The file, and the operations on it so far. -/
structure TokenFile where
  file : File
  performed : List Performed

variable (fl) (J)

def TokenFile.step (s : TokenFile) (a : TokenCommand × FileAccess) : Option TokenFile :=
  let r := a.1.perform fl J a.2 s.file
  some ⟨r.1, s.performed ++ [⟨a.1, s.file, r.1, r.2⟩]⟩

def TokenFile.system (start : File) : System TokenFile (TokenCommand × FileAccess) where
  init s := s = ⟨start, []⟩
  step := TokenFile.step fl J

/-- The configuration that a file holds. -/
def configOf (file : File) : Option Json :=
  (file.bind Utf8.decode).bind fun text => (J.parse text).toOption

/-! ## What is kept -/

/-- No secret serves two machines. -/
def Distinct (tokens : Fields) : Prop :=
  ∀ a ∈ tokens, ∀ b ∈ tokens, ∀ secret,
    truthyString fl a.2 = some secret → truthyString fl b.2 = some secret → a.1 = b.1

/-- `server` takes tokens, and those it has are distinct. -/
def Assigned (config : Json) : Prop :=
  (∀ items, config.get "server" ≠ some (.array items)) ∧ Distinct fl (tokenMap config)

/-- An operation changes the entry of its machine and nothing else, or fails and
changes nothing. -/
def Performed.Kept (p : Performed) : Prop :=
  match p.result with
  | .error _ => p.after = p.before
  | .ok _ => ∃ name before after, machineName p.command.machine = .ok name ∧
      configOf J p.before = some before ∧ configOf J p.after = some after ∧
      Fields.get (tokenMap after) name = p.command.secret.map .string ∧
      Fields.remove (tokenMap after) name = Fields.remove (tokenMap before) name ∧
      withoutTokens after = withoutTokens before

/-- The write does not stop between the rename and the permissions, and no other
machine has the new secret as a number or as `true`. -/
def TokenFile.Sound (s : TokenFile) (a : TokenCommand × FileAccess) : Prop :=
  a.2.write ≠ .notChmodded ∧
    ∀ config name secret, configOf J s.file = some config →
      machineName a.1.machine = .ok name → a.1.secret = some secret →
      ∀ e ∈ tokenMap config, e.1 ≠ name → e.2.asStr = none → truthyString fl e.2 ≠ some secret

variable {fl} {J}

namespace TokenCommand

theorem change_get (c : TokenCommand) (name : String) (tokens : Fields) :
    Fields.get (c.change name tokens) name = c.secret.map .string := by
  unfold change
  cases c.secret with
  | some secret => exact Fields.get_insert tokens name _
  | none => exact Fields.get_remove tokens name

theorem change_remove (c : TokenCommand) (name : String) (tokens : Fields) :
    Fields.remove (c.change name tokens) name = Fields.remove tokens name := by
  unfold change
  cases c.secret with
  | some secret => exact Fields.insert_remove tokens name _
  | none => exact Fields.remove_remove tokens name

theorem change_fits (c : TokenCommand) (name : String) {depth : ℕ} {tokens : Fields}
    (h : Json.Fits (depth + 1) (.object tokens)) :
    Json.Fits (depth + 1) (.object (c.change name tokens)) := by
  unfold change
  cases c.secret with
  | some secret => exact h.insert name (.string secret)
  | none => exact h.remove name

/-- An entry of the new map is the new one, or one of another machine. -/
theorem mem_change {c : TokenCommand} {name : String} {tokens : Fields} {e : String × Json}
    (h : e ∈ c.change name tokens) :
    (∃ secret, c.secret = some secret ∧ e = (name, .string secret)) ∨
      (e ∈ tokens ∧ e.1 ≠ name) := by
  unfold change at h
  cases hsecret : c.secret with
  | some secret =>
      rw [hsecret] at h
      rcases Fields.mem_insert h with rfl | hold
      · exact .inl ⟨secret, rfl, rfl⟩
      · exact .inr hold
  | none =>
      rw [hsecret] at h
      have hold := List.mem_filter.mp h
      exact .inr ⟨hold.1, by simpa using hold.2⟩

end TokenCommand

theorem truthyString_string {s secret : String} (h : truthyString fl (.string s) = some secret) :
    s = secret := by
  unfold truthyString at h
  split at h
  · cases h
  · exact Option.some.inj h

/-- A map stays distinct when no other entry has the new secret. -/
theorem Distinct.change {c : TokenCommand} {name : String} {tokens : Fields}
    (h : Distinct fl tokens)
    (hfree : ∀ secret, c.secret = some secret →
      ∀ e ∈ tokens, e.1 ≠ name → truthyString fl e.2 ≠ some secret) :
    Distinct fl (c.change name tokens) := by
  intro a ha b hb secret has hbs
  rcases TokenCommand.mem_change ha with ⟨new, hnew, rfl⟩ | ⟨ha, hane⟩
  · obtain rfl := truthyString_string has
    rcases TokenCommand.mem_change hb with ⟨_, _, rfl⟩ | ⟨hb, hbne⟩
    · rfl
    · exact absurd hbs (hfree _ hnew b hb hbne)
  · rcases TokenCommand.mem_change hb with ⟨new, hnew, rfl⟩ | ⟨hb, hbne⟩
    · obtain rfl := truthyString_string hbs
      exact absurd has (hfree _ hnew a ha hane)
    · exact h a ha b hb secret has hbs

/-! ## What an operation does -/

theorem readServerConfig_ok {access : FileAccess} {file : File} {loaded : LoadedConfig}
    (h : readServerConfig fl J access file = .ok loaded) :
    ∃ config, configOf J file = some config ∧ serverConfig fl config = .ok loaded := by
  unfold readServerConfig at h
  split at h
  · cases h
  · next text htext =>
      split at h
      · cases h
      · next config hconfig =>
          refine ⟨config, ?_, h⟩
          unfold readToString at htext
          split at htext
          · rw [configOf, htext, Option.bind_some, hconfig]
            rfl
          · cases htext

theorem createEdit_ok {loaded : LoadedConfig} {name : String} {token : Option String}
    {generated : String} {force : Bool} {r : Json × String × String}
    (h : createEdit loaded name token generated force = .ok r) :
    (∀ e ∈ loaded.tokens, e.1 ≠ name → e.2.asStr ≠ some (newSecret token generated)) ∧
      r.1 = (loaded.editTokens
        (Fields.insert · name (.string (newSecret token generated)))).config := by
  unfold createEdit at h
  split at h
  · cases h
  · dsimp only at h
    split at h
    · cases h
    · split at h
      · cases h
      · next hduplicate =>
          obtain rfl := Except.ok.inj h
          refine ⟨?_, rfl⟩
          intro e he hne hsecret
          apply hduplicate
          rw [List.any_eq_true]
          exact ⟨e, he, by simp [hne, hsecret]⟩

theorem revokeEdit_ok {loaded : LoadedConfig} {name : String} {r : Json × String}
    (h : revokeEdit loaded name = .ok r) :
    r.1 = (loaded.editTokens (Fields.remove · name)).config := by
  unfold revokeEdit at h
  split at h
  · obtain rfl := Except.ok.inj h
    rfl
  · cases h

/-- An edit that ends with an error leaves the file, any other is written. -/
theorem commit_cases {α : Type*} (access : FileAccess) (file : File)
    (edited : Except String (Json × α)) :
    let r := ((commit J access file edited).1, (commit J access file edited).2.map fun _ => ())
    (∃ e, r = (file, .error e)) ∨
      ∃ config a, edited = .ok (config, a) ∧ r = writeRawConfig J access file config := by
  cases edited with
  | error e => exact .inl ⟨e, rfl⟩
  | ok edit =>
      obtain ⟨config, a⟩ := edit
      refine .inr ⟨config, a, rfl, ?_⟩
      show ((writeRawConfig J access file config).1,
        ((writeRawConfig J access file config).2.map fun _ => a).map fun _ => ()) = _
      cases h : (writeRawConfig J access file config).2 with
      | error e =>
          show (_, Except.error e) = _
          rw [← h]
      | ok u =>
          show (_, Except.ok ()) = _
          rw [← h]

/-- An edit that is to be written. -/
def TokenCommand.Edited (c : TokenCommand) (file : File) (edited : Json) (fl : Floats)
    (J : JsonText) : Prop :=
  ∃ name config loaded, machineName c.machine = .ok name ∧ configOf J file = some config ∧
    serverConfig fl config = .ok loaded ∧
    (∀ secret, c.secret = some secret →
      ∀ e ∈ loaded.tokens, e.1 ≠ name → e.2.asStr ≠ some secret) ∧
    edited = (loaded.editTokens (c.change name)).config

theorem createdConfig_ok {access : FileAccess} {file : File} {machine : String}
    {token : Option String} {generated : String} {force : Bool} {r : Json × String × String}
    (h : createdConfig fl J access file machine token generated force = .ok r) :
    (TokenCommand.create machine token generated force).Edited file r.1 fl J := by
  obtain ⟨name, hname, h⟩ := Result.bind_eq_ok.mp h
  obtain ⟨loaded, hread, h⟩ := Result.bind_eq_ok.mp h
  obtain ⟨config, hconfig, hloaded⟩ := readServerConfig_ok hread
  obtain ⟨hfree, hr⟩ := createEdit_ok h
  refine ⟨name, config, loaded, hname, hconfig, hloaded, ?_, hr⟩
  intro secret hsecret
  obtain rfl := Option.some.inj hsecret
  exact hfree

theorem revokedConfig_ok {access : FileAccess} {file : File} {machine : String}
    {r : Json × String} (h : revokedConfig fl J access file machine = .ok r) :
    (TokenCommand.revoke machine).Edited file r.1 fl J := by
  obtain ⟨name, hname, h⟩ := Result.bind_eq_ok.mp h
  obtain ⟨loaded, hread, h⟩ := Result.bind_eq_ok.mp h
  obtain ⟨config, hconfig, hloaded⟩ := readServerConfig_ok hread
  refine ⟨name, config, loaded, hname, hconfig, hloaded, ?_, revokeEdit_ok h⟩
  intro secret hsecret
  cases hsecret

/-- An operation fails and leaves the file, or writes what it made of it. -/
theorem TokenCommand.perform_cases (c : TokenCommand) (access : FileAccess) (file : File) :
    (∃ e, c.perform fl J access file = (file, .error e)) ∨
      ∃ edited, c.Edited file edited fl J ∧
        c.perform fl J access file = writeRawConfig J access file edited := by
  cases c with
  | create machine token generated force =>
      rcases commit_cases access file
        (createdConfig fl J access file machine token generated force) with
        ⟨e, he⟩ | ⟨edited, _, hedited, hwritten⟩
      · exact .inl ⟨e, he⟩
      · exact .inr ⟨edited, createdConfig_ok hedited, hwritten⟩
  | revoke machine =>
      rcases commit_cases access file (revokedConfig fl J access file machine) with
        ⟨e, he⟩ | ⟨edited, _, hedited, hwritten⟩
      · exact .inl ⟨e, he⟩
      · exact .inr ⟨edited, revokedConfig_ok hedited, hwritten⟩

theorem configOf_fits (hJ : J.Lawful) {file : File} {config : Json}
    (h : configOf J file = some config) : config.Fits 127 := by
  obtain ⟨text, -, hparse⟩ := Option.bind_eq_some_iff.mp h
  cases htext : J.parse text with
  | error e =>
      rw [htext] at hparse
      cases hparse
  | ok v =>
      rw [htext] at hparse
      obtain rfl := Option.some.inj hparse
      exact hJ.fits htext

/-- What is written is read back. -/
theorem configOf_written (hJ : J.Lawful) {config : Json} (h : config.Fits 127) :
    configOf J (fileOf J config) = some config := by
  rw [configOf, fileOf, Option.bind_some, Utf8.decode_encode, Option.bind_some, hJ.parse_pretty h]
  rfl

theorem orEmptyTokens_fits {depth : ℕ} {server : Fields}
    (h : Json.Fits (depth + 2) (.object server)) :
    Json.Fits (depth + 2) (.object (orEmptyTokens server)) := by
  have hempty : Json.Fits (depth + 1) (.object []) :=
    .object Table.unique_nil (fun _ hf => by cases hf)
  unfold orEmptyTokens
  split
  · exact h.insert "tokens" hempty
  · exact h.insert "tokens" hempty
  · exact h

theorem Fits_get {depth : ℕ} {fields : Fields} {key : String} {v : Json}
    (h : Json.Fits (depth + 1) (.object fields)) (hget : Fields.get fields key = some v) :
    v.Fits depth ∧ Table.Unique Prod.fst fields := by
  cases h with
  | object hkeys hfields => exact ⟨hfields _ (Fields.mem_of_get hget), hkeys⟩

/-- **What an edit does to a configuration whose `server` takes tokens.** -/
theorem TokenCommand.Edited.spec (hJ : J.Lawful) {c : TokenCommand} {file : File} {edited : Json}
    (h : c.Edited file edited fl J)
    (harray : ∀ config, configOf J file = some config →
      ∀ items, config.get "server" ≠ some (.array items)) :
    ∃ name config, machineName c.machine = .ok name ∧ configOf J file = some config ∧
      edited.Fits 127 ∧ (∀ items, edited.get "server" ≠ some (.array items)) ∧
      tokenMap edited = c.change name (tokenMap config) ∧
      withoutTokens edited = withoutTokens config ∧
      ∀ secret, c.secret = some secret →
        ∀ e ∈ tokenMap config, e.1 ≠ name → e.2.asStr ≠ some secret := by
  obtain ⟨name, config, loaded, hname, hconfig, hloaded, hfree, rfl⟩ := h
  obtain ⟨root, server, tokens, rfl, hserver, htokens, rfl⟩ :=
    serverConfig_ok hloaded (harray config hconfig)
  -- the parts of what was read fit where they stand
  have hroot : Json.Fits (124 + 3) (.object root) := configOf_fits hJ hconfig
  obtain ⟨hserverFits, hrootKeys⟩ := Fits_get hroot hserver
  have hemptyFits : Json.Fits (124 + 2) (.object (orEmptyTokens server)) :=
    orEmptyTokens_fits hserverFits
  obtain ⟨htokensFits, hserverKeys⟩ := Fits_get hemptyFits htokens
  have hmap : tokenMap (.object root) = tokens := by
    rw [tokenMap_object hserver]
    rcases orEmptyTokens_get htokens with hsame | ⟨rfl, hnone⟩
    · rw [hsame]
    · split
      · next m hm => exact absurd hm (hnone m)
      · rfl
  have hloadedMap : (LoadedConfig.mk (.object (Fields.modify root "server" fun _ =>
      .object (orEmptyTokens server))) none).tokens = tokens := by
    show tokenMap _ = tokens
    rw [@tokenMap_object _ (orEmptyTokens server), htokens]
    rw [Fields.get_modify, hserver]
    rfl
  rw [hloadedMap] at hfree
  have hedited := @editTokens_eq root (orEmptyTokens server) tokens htokens hserverKeys
    (c.change name)
  refine ⟨name, _, hname, hconfig, ?_, ?_, ?_, ?_, ?_⟩
  · rw [hedited]
    exact withTokens_fits hroot hemptyFits (c.change_fits name htokensFits)
  · rw [hedited]
    intro items hitems
    have hget : Fields.get (Fields.modify root "server" _) "server" = some (.array items) := hitems
    rw [Fields.get_modify, hserver] at hget
    cases hget
  · rw [hedited, tokenMap_withTokens hserver htokens, hmap]
  · rw [hedited]
    exact withoutTokens_withTokens hrootKeys hserver (orEmptyTokens_remove server)
  · rw [hmap]
    exact hfree

/-! ## Runs -/

/-- One operation keeps the secrets distinct, and keeps what it does not name. -/
theorem TokenFile.step_kept (hJ : J.Lawful) {s t : TokenFile} {a : TokenCommand × FileAccess}
    (hassigned : ∀ config, configOf J s.file = some config → Assigned fl config)
    (hsound : TokenFile.Sound fl J s a) (hs : TokenFile.step fl J s a = some t) :
    (∀ config, configOf J t.file = some config → Assigned fl config) ∧
      ∀ p ∈ t.performed, p ∈ s.performed ∨ p.Kept J := by
  obtain rfl := Option.some.inj hs
  have hperformed : ∀ r, a.1.perform fl J a.2 s.file = r →
      (∀ config, configOf J r.1 = some config → Assigned fl config) ∧
        (Performed.mk a.1 s.file r.1 r.2).Kept J := by
    rintro r rfl
    rcases @TokenCommand.perform_cases fl J a.1 a.2 s.file with ⟨e, he⟩ | ⟨edited, hedited, hw⟩
    · rw [he]
      exact ⟨hassigned, rfl⟩
    · obtain ⟨name, config, hname, hconfig, hfits, harray, htokens, hothers, hfree⟩ :=
        hedited.spec hJ fun config hconfig => (hassigned config hconfig).1
      rw [hw]
      unfold writeRawConfig
      cases hwrite : a.2.write with
      | notRenamed => exact ⟨hassigned, rfl⟩
      | notChmodded => exact absurd hwrite hsound.1
      | done =>
          have hread := configOf_written hJ hfits
          constructor
          · intro config' hconfig'
            obtain rfl := Option.some.inj (hread.symm.trans hconfig')
            refine ⟨harray, ?_⟩
            rw [htokens]
            apply (hassigned config hconfig).2.change
            intro secret hsecret e he hne hserves
            cases hstr : e.2.asStr with
            | none => exact hsound.2 config name secret hconfig hname hsecret e he hne hstr hserves
            | some text =>
                have hstring : e.2 = .string text := by
                  cases hv : e.2 with
                  | string s =>
                      rw [hv] at hstr
                      rw [Option.some.inj hstr]
                  | _ =>
                      rw [hv] at hstr
                      cases hstr
                rw [hstring] at hserves
                obtain rfl := truthyString_string hserves
                exact hfree _ hsecret e he hne hstr
          · refine ⟨name, config, edited, hname, hconfig, hread, ?_, ?_, hothers⟩
            · rw [htokens]
              exact a.1.change_get name _
            · rw [htokens]
              exact a.1.change_remove name _
  obtain ⟨hnext, hkept⟩ := hperformed _ rfl
  refine ⟨hnext, ?_⟩
  intro p hp
  rcases List.mem_append.mp hp with hp | hp
  · exact .inl hp
  · obtain rfl := List.mem_singleton.mp hp
    exact .inr hkept

/-- **The token configuration stays consistent** in runs of sound operations. -/
theorem stays_assigned (hJ : J.Lawful) {start : File}
    (hstart : ∀ config, configOf J start = some config → Assigned fl config) {s : TokenFile}
    (hreach : (TokenFile.system fl J start).Reach (TokenFile.Sound fl J) s) :
    (∀ config, configOf J s.file = some config → Assigned fl config) ∧
      ∀ p ∈ s.performed, p.Kept J := by
  refine hreach.invariant
    (P := fun s => (∀ config, configOf J s.file = some config → Assigned fl config) ∧
      ∀ p ∈ s.performed, p.Kept J) ?_ ?_
  · rintro s rfl
    exact ⟨hstart, fun p hp => by cases hp⟩
  · intro s a t ih hok hs
    obtain ⟨hassigned, hnew⟩ := TokenFile.step_kept hJ ih.1 hok hs
    refine ⟨hassigned, ?_⟩
    intro p hp
    rcases hnew p hp with hold | hkept
    · exact ih.2 p hold
    · exact hkept

/-! ## A number that is a secret -/

theorem readServerConfig_written (hJ : J.Lawful) {config : Json} (h : config.Fits 127)
    {access : FileAccess} (hreadable : access.readable = true) :
    readServerConfig fl J access (fileOf J config) = serverConfig fl config := by
  unfold readServerConfig fileOf
  rw [hreadable, readToString_encode]
  dsimp only
  rw [hJ.parse_pretty h]

theorem createdConfig_eq {access : FileAccess} {file : File} {machine name : String}
    {loaded : LoadedConfig} (hname : machineName machine = .ok name)
    (hread : readServerConfig fl J access file = .ok loaded) (token : Option String)
    (generated : String) (force : Bool) :
    createdConfig fl J access file machine token generated force =
      createEdit loaded name token generated force := by
  unfold createdConfig
  rw [hname]
  show (readServerConfig fl J access file >>= fun loaded =>
    createEdit loaded name token generated force) = _
  rw [hread]
  rfl

theorem create_written {access : FileAccess} {file : File} {machine : String}
    {token : Option String} {generated : String} {force : Bool} {r : Json × String × String}
    (hwrite : access.write = .done)
    (h : createdConfig fl J access file machine token generated force = .ok r) :
    (TokenCommand.create machine token generated force).perform fl J access file =
      (fileOf J r.1, .ok ()) := by
  obtain ⟨config, a⟩ := r
  unfold TokenCommand.perform createMachineToken
  dsimp only
  rw [h]
  unfold commit writeRawConfig
  rw [hwrite]
  rfl

/-- A configuration with nothing but tokens. -/
def onlyTokens (tokens : Fields) : Json :=
  .object [("server", .object [("tokens", .object tokens)])]

theorem onlyTokens_fits {tokens : Fields} (h : Json.Fits 125 (.object tokens)) :
    (onlyTokens tokens).Fits 127 := by
  have hone : ∀ {depth : ℕ} (key : String) {v : Json}, v.Fits depth →
      Json.Fits (depth + 1) (.object [(key, v)]) := by
    intro depth key v hv
    refine .object (List.nodup_singleton _) ?_
    intro f hf
    rw [List.mem_singleton.mp hf]
    exact hv
  exact hone _ (hone _ h)

theorem onlyTokens_assigned (machine : String) (secret : Json) :
    Assigned fl (onlyTokens [(machine, secret)]) := by
  have harray : ∀ items, (onlyTokens [(machine, secret)]).get "server" ≠ some (.array items) := by
    intro items h
    cases h
  refine ⟨harray, ?_⟩
  intro a ha b hb _ _ _
  rw [List.mem_singleton.mp ha, List.mem_singleton.mp hb]

/-- The grammar of JSON, with floats that no configuration here has. -/
abbrev sampleText : JsonText := JsonGrammar.text JsonGrammar.floatBits

theorem sampleText_lawful : sampleText.Lawful :=
  JsonGrammar.text_lawful JsonGrammar.floatBits_lawful

/-- `token create box` beside a token of `mac`. -/
theorem create_box (secret : Json) (hfits : secret.Fits 124) {token : String}
    (htoken : token ≠ "") (htrim : newSecret (some token) "" = token)
    (hfree : secret.asStr ≠ some token) :
    let before := fileOf sampleText (onlyTokens [("mac", secret)])
    let after := fileOf sampleText (onlyTokens [("mac", secret), ("box", .string token)])
    (TokenFile.system fl sampleText before).step ⟨before, []⟩
        (.create "box" (some token) "" false, ⟨true, .done, ""⟩) =
      some ⟨after, [⟨.create "box" (some token) "" false, before, after, .ok ()⟩]⟩ ∧
      configOf sampleText before = some (onlyTokens [("mac", secret)]) ∧
      configOf sampleText after = some (onlyTokens [("mac", secret), ("box", .string token)]) := by
  have hmac : Json.Fits 125 (.object [("mac", secret)]) := by
    refine .object (List.nodup_singleton _) ?_
    intro f hf
    rw [List.mem_singleton.mp hf]
    exact hfits
  have hfits := onlyTokens_fits hmac
  have hboth := onlyTokens_fits (hmac.insert "box" (.string token))
  have hname : machineName "box" = .ok "box" := rfl
  have hloaded : serverConfig fl (onlyTokens [("mac", secret)]) =
      .ok ⟨onlyTokens [("mac", secret)], none⟩ := rfl
  have hedit : createEdit ⟨onlyTokens [("mac", secret)], none⟩ "box" (some token) "" false =
      .ok (onlyTokens [("mac", secret), ("box", .string token)], "box", token) := by
    have htokens : (LoadedConfig.mk (onlyTokens [("mac", secret)]) none).tokens =
        [("mac", secret)] := rfl
    unfold createEdit
    rw [htokens, if_neg (by simp), htrim]
    dsimp only
    rw [if_neg htoken, if_neg]
    · rfl
    · intro h
      obtain ⟨e, he, hsecret⟩ := List.any_eq_true.mp h
      obtain rfl := List.mem_singleton.mp he
      rw [Bool.and_eq_true, beq_iff_eq] at hsecret
      exact hfree hsecret.2
  have hcreated : createdConfig fl sampleText ⟨true, .done, ""⟩
      (fileOf sampleText (onlyTokens [("mac", secret)])) "box" (some token) "" false =
      .ok (onlyTokens [("mac", secret), ("box", .string token)], "box", token) := by
    rw [← hedit]
    apply createdConfig_eq hname
    rw [readServerConfig_written sampleText_lawful hfits rfl, hloaded]
  refine ⟨?_, configOf_written sampleText_lawful hfits, configOf_written sampleText_lawful hboth⟩
  show TokenFile.step _ _ _ _ = _
  unfold TokenFile.step
  rw [create_written rfl hcreated]
  rfl

/-- Floats of which only the number 5 matters. -/
def fiveFloats : Floats :=
  ⟨fun n => BitVec.ofInt 64 n, fun _ => 0, id, fun _ => true, fun f _ => f, fun _ => "5",
    fun _ => F64.nan⟩

/-- A second machine is given the secret that the server reads from a number. -/
theorem number_is_shared : ∃ (fl : Floats) (J : JsonText) (start : File) (s : TokenFile),
    J.Lawful ∧ (∀ config, configOf J start = some config → Assigned fl config) ∧
      (TokenFile.system fl J start).Reach Anyway s ∧
      ¬ ∀ config, configOf J s.file = some config → Assigned fl config := by
  obtain ⟨hstep, hbefore, hafter⟩ := @create_box fiveFloats (.number (.int 5)) (.number (by decide))
    "5" (by decide) (by decide) (by intro h; cases h)
  refine ⟨fiveFloats, sampleText, _, _, sampleText_lawful, ?_,
    .next (.start rfl) trivial hstep, ?_⟩
  · intro config hconfig
    obtain rfl := Option.some.inj (hbefore.symm.trans hconfig)
    exact onlyTokens_assigned "mac" _
  · intro h
    have hshared := (h _ hafter).2 ("mac", .number (.int 5)) List.mem_cons_self ("box", .string "5")
      (List.mem_cons_of_mem _ List.mem_cons_self) "5" (by decide) (by decide)
    exact absurd hshared (by decide)

/-- A run of one sound operation. -/
theorem stays_assigned_sample : ∃ s : TokenFile, s.performed.length = 1 ∧
    (∃ config, configOf sampleText s.file = some config ∧
      tokenMap config = [("mac", .string "one"), ("box", .string "two")]) ∧
    (∀ config, configOf sampleText s.file = some config → Assigned fiveFloats config) ∧
    ∀ p ∈ s.performed, p.Kept sampleText := by
  obtain ⟨hstep, hbefore, hafter⟩ := @create_box fiveFloats (.string "one") (.string "one")
    "two" (by decide) (by decide) (by decide)
  have hstart : ∀ config, configOf sampleText
      (fileOf sampleText (onlyTokens [("mac", .string "one")])) = some config →
      Assigned fiveFloats config := by
    intro config hconfig
    obtain rfl := Option.some.inj (hbefore.symm.trans hconfig)
    exact onlyTokens_assigned "mac" _
  have hsound : TokenFile.Sound fiveFloats sampleText
      ⟨fileOf sampleText (onlyTokens [("mac", .string "one")]), []⟩
      (.create "box" (some "two") "" false, ⟨true, .done, ""⟩) := by
    refine ⟨by decide, ?_⟩
    intro config name secret hconfig _ _ e he _ hnone
    obtain rfl := Option.some.inj (hbefore.symm.trans hconfig)
    obtain rfl := List.mem_singleton.mp he
    cases hnone
  exact ⟨_, rfl, ⟨_, hafter, rfl⟩,
    stays_assigned sampleText_lawful hstart (.next (.start rfl) hsound hstep)⟩

end Stackhour.Tracker
