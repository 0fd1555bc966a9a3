import Mathlib.Algebra.GroupWithZero.Nat
import Stackhour.Domain.Store

/-!
# Checks on what a client asks for

The validation of a run's configuration and the capability test of the
scheduler. A rejected value comes back with the message the client sees.
-/

namespace Stackhour.Hub

open Domain

/-! ## Characters -/

/-- `char::is_control`: the code points of category Cc. -/
def isControl (c : Char) : Bool :=
  c.toNat < 32 || (127 ≤ c.toNat && c.toNat < 160)

/-- `char::is_whitespace`: the code points with the property `White_Space`. -/
def isWhitespace (c : Char) : Bool :=
  let n := c.toNat
  (9 ≤ n && n ≤ 13) || n == 32 || n == 133 || n == 160 || n == 5760 ||
    (8192 ≤ n && n ≤ 8202) || n == 8232 || n == 8233 || n == 8239 || n == 8287 || n == 12288

def isAsciiAlphanumeric (c : Char) : Bool :=
  let n := c.toNat
  (48 ≤ n && n ≤ 57) || (65 ≤ n && n ≤ 90) || (97 ≤ n && n ≤ 122)

/-- `str::len`: the bytes of the UTF-8 encoding. -/
def utf8Len (s : String) : ℕ := (s.toList.map Char.utf8Size).sum

/-! ## Texts and identifiers -/

/-- `validate_text`. -/
def validateText (label value : String) (max : ℕ) : Except String Unit :=
  if value.toList.all isWhitespace then .error (label ++ " must not be blank")
  else if max < value.toList.length || value.toList.any isControl then
    .error (label ++ " is invalid or longer than " ++ toString max ++ " characters")
  else .ok ()

/-- `validate_identifier`. -/
def validateIdentifier (label value : String) : Except String Unit := do
  validateText label value 200
  if value.toList.any (fun c => !(isAsciiAlphanumeric c || ['.', '_', '-', '/', ':'].contains c)) then
    .error (label ++ " contains unsupported characters")
  else .ok ()

/-- `Path::is_absolute` on Unix. -/
def isAbsolutePath (path : String) : Bool := path.toList.head? == some '/'

/-- A check that an absent option passes. -/
def whenSome (check : String → Except String Unit) : Option String → Except String Unit
  | none => .ok ()
  | some value => check value

def validateEffort (effort : String) : Except String Unit :=
  if ["low", "medium", "high"].contains effort then .ok ()
  else .error "reasoning_effort must be low, medium, or high"

def validatePrompt (prompt : String) : Except String Unit :=
  if prompt.toList.isEmpty || 128 * 1024 < utf8Len prompt || prompt.toList.contains '\x00' then
    .error "system_prompt is empty, too large, or contains NUL"
  else .ok ()

def validateWorkspace (path : String) : Except String Unit :=
  if !isAbsolutePath path || path.toList.contains '\x00' then
    .error "workspace_path must be an absolute path"
  else .ok ()

/-- `validate_run_configuration`: the first failing check decides. -/
def validateRunConfiguration (engine : String)
    (model reasoningEffort systemPrompt workspacePath : Option String) :
    Except String Unit := do
  validateIdentifier "engine" engine
  whenSome (validateIdentifier "model") model
  whenSome validateEffort reasoningEffort
  whenSome validatePrompt systemPrompt
  whenSome validateWorkspace workspacePath

theorem validateIdentifier_ok {label value : String} (h : validateIdentifier label value = .ok ()) :
    ∀ c ∈ value.toList, isAsciiAlphanumeric c = true ∨ c ∈ ['.', '_', '-', '/', ':'] := by
  obtain ⟨-, -, h⟩ := Result.bind_eq_ok.mp h
  intro c hc
  split at h
  · cases h
  · next hany =>
      by_contra hneither
      obtain ⟨halnum, hmark⟩ := not_or.mp hneither
      refine hany (List.any_eq_true.mpr ⟨c, hc, ?_⟩)
      simpa [halnum] using hmark

/-- A model that passed has only the characters of an identifier. -/
theorem validated_model {engine model : String}
    {reasoningEffort systemPrompt workspacePath : Option String}
    (h : validateRunConfiguration engine (some model) reasoningEffort systemPrompt workspacePath =
      .ok ()) :
    ∀ c ∈ model.toList, isAsciiAlphanumeric c = true ∨ c ∈ ['.', '_', '-', '/', ':'] := by
  obtain ⟨-, -, h⟩ := Result.bind_eq_ok.mp h
  obtain ⟨_, hmodel, -⟩ := Result.bind_eq_ok.mp h
  exact validateIdentifier_ok hmodel

/-- `node_accepts_engine`: an explicit opt-out wins; otherwise the engine is
listed, or set to true on its own. -/
def nodeAcceptsEngine (capabilities : Json) (engine : String) : Bool :=
  if (capabilities.get "accepts_tasks").bind Json.asBool == some false then false
  else
    (((capabilities.get "engines").bind Json.asArray).any
      (fun engines => engines.any (fun v => v.asStr == some engine))) ||
    ((capabilities.get engine).bind Json.asBool == some true)

example : validateRunConfiguration "claude" none (some "high") none (some "/w") = .ok () := by
  decide

example : validateRunConfiguration "cl aude" none none none none =
    .error "engine contains unsupported characters" := by
  decide

end Stackhour.Hub
