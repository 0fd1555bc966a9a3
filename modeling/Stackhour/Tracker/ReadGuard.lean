import Stackhour.Tracker.Ingest
import Stackhour.Tracker.Tokens

/-!
# The read guard

Whether reads are gated is decided from the typed configuration, in which
`server.token` has become a string; whether a request is let in is decided from the
raw one, by truthiness. An array that displays as the empty string is a token to the
one and none to the other.
-/

namespace Stackhour.Tracker

open Core Domain

/-! ## The typed configuration -/

/-- How `{}` and `{:.0}` print a finite `f64`: never as nothing. -/
structure FloatText where
  display : F64 → String
  nonempty : ∀ f, display f ≠ ""

namespace Config

variable (text : FloatText)

/-- `fmt_js_number`. -/
def fmtJsNumber : Number → String
  | .int n => toString n
  | .float f =>
      if F64.isNan f then "NaN"
      else if !F64.isFinite f then (if F64.isNegative f then "-Infinity" else "Infinity")
      else if F64.isZero f then "0"
      else text.display f

mutual

/-- `js_display` of the configuration. -/
def jsDisplay : Json → String
  | .null => "null"
  | .bool true => "true"
  | .bool false => "false"
  | .number n => fmtJsNumber text n
  | .string s => s
  | .array items => ",".intercalate (jsParts items)
  | .object _ => "[object Object]"

/-- The elements of an array; a null one is empty. -/
def jsParts : List Json → List String
  | [] => []
  | .null :: rest => "" :: jsParts rest
  | item :: rest => jsDisplay item :: jsParts rest

end

/-- `string_field`. -/
def stringField (obj : Option Json) (key : String) (default : String) : String :=
  match obj.bind (Json.get key) with
  | none | some .null => default
  | some (.string s) => s
  | some other => jsDisplay text other

end Config

/-- The raw configuration and `server.token` of the typed one. -/
structure Config where
  raw : Json
  token : String

/-- `load_config` and `build_server`, of a merged configuration. -/
def loadConfig (text : FloatText) (raw : Json) : Config :=
  { raw := raw
    token := Config.stringField text (raw.get "server") "token" "" }

/-- `as_object`, if the map is not empty. -/
def nonemptyObject (v : Option Json) : Option Fields :=
  match v with
  | some (.object fields) => if fields.isEmpty then none else some fields
  | _ => none

/-- `has_configured_tokens`. -/
def hasConfiguredTokens (cfg : Config) : Bool :=
  cfg.token != "" ||
    (nonemptyObject ((cfg.raw.get "server").bind (Json.get "tokens"))).isSome

/-! ## Authentication -/

/-- The six bits of a base64 character; `-` and `_` count as `+` and `/`. -/
def sextet (c : Char) : Option ℕ :=
  if 'A' ≤ c ∧ c ≤ 'Z' then some (c.toNat - 'A'.toNat)
  else if 'a' ≤ c ∧ c ≤ 'z' then some (c.toNat - 'a'.toNat + 26)
  else if '0' ≤ c ∧ c ≤ '9' then some (c.toNat - '0'.toNat + 52)
  else if c = '+' ∨ c = '-' then some 62
  else if c = '/' ∨ c = '_' then some 63
  else none

/-- The loop of `decode_base64_lenient`: other characters are skipped, `=` ends it. -/
def decodeBase64From (acc : BitVec 32) (bits : ℕ) : List Char → List UInt8
  | [] => []
  | c :: rest =>
      if c = '=' then []
      else
        match sextet c with
        | none => decodeBase64From acc bits rest
        | some value =>
            let acc := (acc <<< 6) ||| BitVec.ofNat 32 value
            if 8 ≤ bits + 6 then
              UInt8.ofNat (acc >>> (bits + 6 - 8)).toNat :: decodeBase64From acc (bits + 6 - 8) rest
            else decodeBase64From acc (bits + 6) rest

/-- `decode_base64_lenient`. -/
def decodeBase64Lenient (input : List Char) : List UInt8 := decodeBase64From 0 0 input

/-- `strip_suffix(':')`, or the text itself. -/
def stripColon (cs : List Char) : List Char :=
  if cs.getLast? = some ':' then cs.dropLast else cs

/-- `request_token`, with the `Authorization` header as far as it is visible ASCII and
`parseQuery` for `form_urlencoded::parse`. -/
def requestToken (parseQuery : String → List (String × String)) (authorization : Option String)
    (query : String) : String :=
  let header := (authorization.getD "").toList
  match header.dropPrefix? "Bearer ".toList with
  | some rest => String.ofList rest
  | none =>
      match header.dropPrefix? "Basic ".toList with
      | some rest => String.ofList (stripColon (Utf8.lossy (decodeBase64Lenient rest)))
      | none => (((parseQuery query).find? (fun p => p.1 == "api_key")).map Prod.snd).getD ""

/-- The first entry of the map that the token matches; falsy entries match nothing. -/
def matchingMachine (fl : Floats) (supplied : String) (tokens : Fields) : Option Principal :=
  (tokens.find? (fun e => truthyString fl e.2 == some supplied)).map
    (fun e => Principal.machine e.1)

/-- `authenticate`, against the raw `server` section. -/
def authenticate (fl : Floats) (parseQuery : String → List (String × String))
    (authorization : Option String) (query : String) (serverCfg : Json) : Option Principal :=
  let tokens := nonemptyObject (serverCfg.get "tokens")
  let legacyConfigured := ((serverCfg.get "token").map (isTruthy fl)).getD false
  let legacy := (serverCfg.get "token").bind (truthyString fl)
  if !legacyConfigured && tokens.isNone then some .open
  else
    let supplied := requestToken parseQuery authorization query
    if legacy == some supplied then some .global
    else tokens.bind (matchingMachine fl supplied)

/-- `read_guard`: the response that denies a read. -/
def readGuard (fl : Floats) (parseQuery : String → List (String × String)) (cfg : Config)
    (authorization : Option String) (query : Option String) : Option Response :=
  if !hasConfiguredTokens cfg then none
  else
    let serverCfg := (cfg.raw.get "server").getD .null
    match authenticate fl parseQuery authorization (query.getD "") serverCfg with
    | some _ => none
    | none => some (jsonError 401 "unauthorized")

/-! ## Texts that are empty -/

/-- What an element of an array is printed as nothing for: null, an empty string, an empty
array, or an array with one such element. -/
def blankItem : Json → Bool
  | .null => true
  | .string s => s == ""
  | .array [] => true
  | .array [item] => blankItem item
  | _ => false

/-- An array that displays as the empty string. -/
def blankArray (v : Json) : Bool :=
  match v with
  | .array _ => blankItem v
  | _ => false

namespace Config

theorem toString_nat_ne (n : ℕ) : n.repr ≠ "" := by
  intro h
  have htext : (String.ofList (Nat.toDigits 10 n)).toList = [] := congrArg String.toList h
  rw [String.toList_ofList] at htext
  exact Nat.toDigits_ne_nil htext

theorem toString_int_ne (n : ℤ) : toString n ≠ "" := by
  cases n with
  | ofNat n => exact toString_nat_ne n
  | negSucc n =>
      intro h
      have htext : ("-" ++ (n + 1).repr).toList = [] := congrArg String.toList h
      rw [String.toList_append] at htext
      cases List.append_eq_nil_iff.mp htext |>.1

/-- The text of two elements has a comma. -/
theorem intercalate_ne (a b : String) (rest : List String) :
    ",".intercalate (a :: b :: rest) ≠ "" := by
  intro h
  rw [String.intercalate_cons_cons] at h
  have htext := congrArg String.toList h
  rw [String.toList_append, String.toList_append] at htext
  cases (List.append_eq_nil_iff.mp (List.append_eq_nil_iff.mp htext).1).2

variable (text : FloatText)

theorem fmtJsNumber_ne (n : Number) : fmtJsNumber text n ≠ "" := by
  cases n with
  | int n => exact toString_int_ne n
  | float f =>
      unfold fmtJsNumber
      dsimp only
      repeat' split
      all_goals first | decide | exact text.nonempty f

/-- The text of an element of an array. -/
def itemText (item : Json) : String :=
  match item with
  | .null => ""
  | other => jsDisplay text other

theorem jsParts_cons (item : Json) (rest : List Json) :
    jsParts text (item :: rest) = itemText text item :: jsParts text rest := by
  cases item <;> rfl

/-- An element is printed as nothing just when it is blank. -/
theorem itemText_eq (item : Json) : itemText text item = "" ↔ blankItem item = true := by
  induction item using blankItem.induct with
  | case1 => exact ⟨fun _ => rfl, fun _ => rfl⟩
  | case2 s => simp [itemText, jsDisplay, blankItem]
  | case3 => exact ⟨fun _ => rfl, fun _ => rfl⟩
  | case4 item ih =>
      have htext : itemText text (.array [item]) = itemText text item := by
        show ",".intercalate (jsParts text [item]) = _
        rw [jsParts_cons]
        exact String.intercalate_singleton
      rw [htext, ih]
      rfl
  | case5 item hnull hstring hnil hone =>
      have hblank : blankItem item = false := by
        unfold blankItem
        split <;> simp_all
      rw [hblank]
      refine ⟨fun h => ?_, nofun⟩
      cases item with
      | null => exact absurd rfl hnull
      | bool b =>
          cases b
          · exact absurd h (show "false" ≠ "" by decide)
          · exact absurd h (show "true" ≠ "" by decide)
      | number n => exact absurd h (fmtJsNumber_ne text n)
      | string s => exact absurd rfl (hstring s)
      | array items =>
          match items with
          | [] => exact absurd rfl hnil
          | [item] => exact absurd rfl (hone item)
          | a :: b :: rest =>
              have h : ",".intercalate (jsParts text (a :: b :: rest)) = "" := h
              rw [jsParts_cons, jsParts_cons] at h
              exact absurd h (intercalate_ne _ _ _)
      | object fields => exact absurd h (show "[object Object]" ≠ "" by decide)

end Config

/-! ## The two readings of a token -/

/-- `server.token` and `server.tokens` of the raw configuration. -/
def rawToken (raw : Json) : Option Json := (raw.get "server").bind (Json.get "token")

def rawTokens (raw : Json) : Option Fields :=
  nonemptyObject ((raw.get "server").bind (Json.get "tokens"))

variable {fl : Floats} {text : FloatText} {parseQuery : String → List (String × String)}

theorem blankArray_token {raw v : Json} (hv : rawToken raw = some v) (hblank : blankArray v = true) :
    (loadConfig text raw).token = "" := by
  have htoken : Config.stringField text (raw.get "server") "token" "" = "" := by
    unfold Config.stringField
    rw [show (raw.get "server").bind (Json.get "token") = some v from hv]
    cases v with
    | array items => exact (Config.itemText_eq text (.array items)).mpr hblank
    | _ => cases hblank
  exact htoken

theorem blankArray_truthy {v : Json} (hblank : blankArray v = true) : isTruthy fl v = true := by
  cases v with
  | array items => rfl
  | _ => cases hblank

/-- What the typed configuration takes for no token is falsy, or a blank array. -/
theorem falsy_of_not_blank {raw v : Json} (hv : rawToken raw = some v)
    (htoken : (loadConfig text raw).token = "") (hnot : blankArray v = false) :
    isTruthy fl v = false := by
  have htoken : Config.stringField text (raw.get "server") "token" "" = "" := htoken
  unfold Config.stringField at htoken
  rw [show (raw.get "server").bind (Json.get "token") = some v from hv] at htoken
  cases v with
  | null => rfl
  | string s => simpa [isTruthy] using htoken
  | array items =>
      have hblank := (Config.itemText_eq text (.array items)).mp htoken
      exact absurd hblank (Bool.eq_false_iff.mp hnot)
  | bool b => exact absurd ((Config.itemText_eq text (.bool b)).mp htoken) nofun
  | number n => exact absurd ((Config.itemText_eq text (.number n)).mp htoken) nofun
  | object fields => exact absurd ((Config.itemText_eq text (.object fields)).mp htoken) nofun

/-- The `server` section as the guard hands it on. -/
theorem server_get (raw : Json) (key : String) :
    ((raw.get "server").getD .null).get key = (raw.get "server").bind (Json.get key) := by
  cases raw.get "server" <;> rfl

theorem hasConfiguredTokens_eq (raw : Json) : hasConfiguredTokens (loadConfig text raw) =
    ((loadConfig text raw).token != "" || (rawTokens raw).isSome) := rfl

/-- The configuration whose token is a blank array and that has no map of tokens. -/
def Exposed (raw : Json) : Prop :=
  (∃ v, rawToken raw = some v ∧ blankArray v = true) ∧ rawTokens raw = none

/-- Nobody is let in by a token that displays as nothing. -/
theorem authenticate_exposed {raw : Json} (h : Exposed raw) (authorization : Option String)
    (query : String) :
    authenticate fl parseQuery authorization query ((raw.get "server").getD .null) = none := by
  obtain ⟨⟨v, hv, hblank⟩, htokens⟩ := h
  have hv : (raw.get "server").bind (Json.get "token") = some v := hv
  have htokens : nonemptyObject ((raw.get "server").bind (Json.get "tokens")) = none := htokens
  have hmatch : truthyString fl v = none := by
    unfold truthyString
    rw [blankArray_truthy hblank]
    cases v with
    | array items => rfl
    | _ => cases hblank
  unfold authenticate
  rw [server_get, server_get, hv, htokens]
  simp [blankArray_truthy hblank, hmatch]

/-- With no token at all everybody is let in. -/
theorem authenticate_open {raw : Json} (htokens : rawTokens raw = none)
    (hfalsy : ∀ v, rawToken raw = some v → isTruthy fl v = false) (authorization : Option String)
    (query : String) :
    authenticate fl parseQuery authorization query ((raw.get "server").getD .null) =
      some .open := by
  have htokens : nonemptyObject ((raw.get "server").bind (Json.get "tokens")) = none := htokens
  have hlegacy : (((raw.get "server").bind (Json.get "token")).map (isTruthy fl)).getD false =
      false := by
    cases hv : (raw.get "server").bind (Json.get "token") with
    | none => rfl
    | some v => exact hfalsy v hv
  unfold authenticate
  rw [server_get, server_get, htokens]
  dsimp only
  rw [hlegacy]
  rfl

/-- **Reads are locked as writes are**, unless the token is an array that displays as
nothing and no machine has a token. -/
theorem read_guard_agrees (fl : Floats) (text : FloatText)
    (parseQuery : String → List (String × String)) (raw : Json) (authorization : Option String)
    (query : Option String) :
    (readGuard fl parseQuery (loadConfig text raw) authorization query = none ↔
        (authenticate fl parseQuery authorization (query.getD "")
          ((raw.get "server").getD .null)).isSome = true) ↔
      ¬Exposed raw := by
  constructor
  · intro h hexposed
    obtain ⟨⟨v, hv, hblank⟩, htokens⟩ := hexposed
    have hopen : hasConfiguredTokens (loadConfig text raw) = false := by
      rw [hasConfiguredTokens_eq, blankArray_token hv hblank, htokens]
      rfl
    have hpass : readGuard fl parseQuery (loadConfig text raw) authorization query = none := by
      unfold readGuard
      rw [hopen]
      rfl
    have hsome := h.mp hpass
    rw [authenticate_exposed ⟨⟨v, hv, hblank⟩, htokens⟩] at hsome
    cases hsome
  · intro hexposed
    cases hconfigured : hasConfiguredTokens (loadConfig text raw) with
    | true =>
        have hguard : readGuard fl parseQuery (loadConfig text raw) authorization query =
            match authenticate fl parseQuery authorization (query.getD "")
              ((raw.get "server").getD .null) with
            | some _ => none
            | none => some (jsonError 401 "unauthorized") := by
          unfold readGuard
          rw [hconfigured]
          rfl
        rw [hguard]
        cases authenticate fl parseQuery authorization (query.getD "")
            ((raw.get "server").getD .null) with
        | none => exact ⟨nofun, nofun⟩
        | some p => exact ⟨fun _ => rfl, fun _ => rfl⟩
    | false =>
        rw [hasConfiguredTokens_eq, Bool.or_eq_false_iff] at hconfigured
        obtain ⟨htoken, htokens⟩ := hconfigured
        have htoken : (loadConfig text raw).token = "" := by simpa using htoken
        have htokens : rawTokens raw = none := by simpa using htokens
        have hpass : readGuard fl parseQuery (loadConfig text raw) authorization query = none := by
          unfold readGuard
          rw [hasConfiguredTokens_eq, htoken, htokens]
          rfl
        have hfalsy : ∀ v, rawToken raw = some v → isTruthy fl v = false := by
          intro v hv
          refine @falsy_of_not_blank fl text raw v hv htoken ?_
          by_contra hblank
          exact hexposed ⟨⟨v, hv, by simpa using hblank⟩, htokens⟩
        rw [hpass, authenticate_open htokens hfalsy]
        exact ⟨fun _ => rfl, fun _ => rfl⟩

/-- `"token": []`: ingest takes no request, and reads are open. -/
theorem read_guard_open : ¬∀ (fl : Floats) (text : FloatText)
    (parseQuery : String → List (String × String)) (raw : Json) (authorization : Option String)
    (query : Option String),
    readGuard fl parseQuery (loadConfig text raw) authorization query = none ↔
      (authenticate fl parseQuery authorization (query.getD "")
        ((raw.get "server").getD .null)).isSome = true := by
  intro h
  have hpass := (h ⟨fun _ => 0, fun _ => 0, id, fun _ => true, fun a _ => a, fun _ => "0",
    fun _ => 0⟩ ⟨fun _ => "0", fun _ => by decide⟩ (fun _ => [])
    (.object [("server", .object [("token", .array [])])]) none none).mp rfl
  cases hpass

end Stackhour.Tracker
