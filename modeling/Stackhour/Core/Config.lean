import Stackhour.Core.JsonText

/-!
# The configuration

The file of the user is merged over the defaults: objects key by key, everything else as a
whole. Where an object of the file meets an array of the defaults, the array counts as the
object of its indices.
-/

namespace Stackhour.Core

open Domain

/-! ## Paths from home -/

/-- One segment of `posix_normalize`, on the stack of those before it. -/
def pushSegment (absolute : Bool) (stack : List (List Char)) (segment : List Char) :
    List (List Char) :=
  if segment = [] ∨ segment = ['.'] then stack
  else if segment = ['.', '.'] then
    match stack with
    | last :: below =>
        if last ≠ ['.', '.'] then below
        else if absolute then stack else segment :: stack
    | [] => if absolute then [] else [segment]
  else segment :: stack

/-- `posix_normalize`. -/
def posixNormalize (p : List Char) : List Char :=
  if p = [] then ['.']
  else
    let absolute := decide (p.head? = some '/')
    let stack := (p.splitOn '/').foldl (pushSegment absolute) []
    let out := (if absolute then ['/'] else []) ++ List.intercalate ['/'] stack.reverse
    if out = [] then ['.']
    else if p.getLast? = some '/' ∧ out.getLast? ≠ some '/' then out ++ ['/']
    else out

/-- `posix_join`. -/
def posixJoin (a b : List Char) : List Char :=
  match a, b with
  | [], [] => ['.']
  | [], b => posixNormalize b
  | a, [] => posixNormalize a
  | a, b => posixNormalize (a ++ '/' :: b)

/-- `expand_home`. -/
def expandHome (p home : String) : String :=
  match p.toList with
  | '~' :: rest => String.ofList (posixJoin home.toList rest)
  | _ => p

/-! ## Merging -/

/-- `spread_into_map`; `js_entries` lists it. -/
def spreadIntoMap : Json → Fields
  | .object m => m
  | .array items => items.zipIdx.map fun p => (p.2.repr, p.1)
  | .string s => s.toList.zipIdx.map fun p => (p.2.repr, .string (String.singleton p.1))
  | _ => []

mutual

/-- The loop of `deep_merge`. -/
def mergeFields (out : Fields) : List (String × Json) → Fields
  | [] => out
  | (k, v) :: rest => mergeFields (out.insert k (mergeValue (out.get k) v)) rest

/-- What the loop puts under a key: an object goes over an object or an array. -/
def mergeValue (old : Option Json) : Json → Json
  | .object fields =>
      match old with
      | some (.object m) => .object (mergeFields (spreadIntoMap (.object m)) fields)
      | some (.array items) => .object (mergeFields (spreadIntoMap (.array items)) fields)
      | _ => .object fields
  | v => v

end

/-- `deep_merge`. -/
def deepMerge (base user : Json) : Json :=
  .object (mergeFields (spreadIntoMap base) (spreadIntoMap user))

/-! ## The file -/

/-- `DEFAULTS`. -/
def defaultsWith (dbPath machine : String) : Json :=
  let app (name source category : String) : String × Json :=
    (name, .object [("source", .string source), ("category", .string category)])
  .object [
    ("server", .object [("port", .number (.int 4040)), ("host", .string "0.0.0.0"),
      ("db", .string dbPath), ("token", .string ""), ("tokens", .object [])]),
    ("agent", .object [("serverUrl", .string "http://127.0.0.1:4040"), ("token", .string ""),
      ("machine", .string machine), ("intervalSeconds", .number (.int 20)),
      ("projectRoots", .array []), ("projectAliases", .object []),
      ("watch", .object (["files", "claude", "codex", "macApps", "ssh", "zed"].map
        fun name => (name, .bool true))),
      ("apps", .object [app "Claude" "claude-desktop" "ai coding",
        app "Codex" "codex-desktop" "ai coding", app "ChatGPT" "codex-desktop" "ai coding",
        app "WebStorm" "webstorm" "coding", app "Zed" "zed" "coding"]),
      ("idleSeconds", .number (.int 120)),
      ("ignoreDirs", .array (["node_modules", ".git", "dist", "build", "out", "target", ".next",
        ".venv", "venv", "vendor", "Library", ".cache", "Pods", "DerivedData", "Temp", "Logs",
        "obj"].map .string)),
      ("maxScanDepth", .number (.int 8))]),
    ("summary", .object [("capSeconds", .number (.int 120)),
      ("lastEventCreditSeconds", .number (.int 60)),
      ("reattributeWindowSeconds", .number (.int 120)), ("joinGapSeconds", .number (.int 300))]),
    ("wakatime", .object [("apiKey", .string "")])]

/-- A path that is a string is expanded. -/
def expandString (home : String) : Json → Json
  | .string s => .string (expandHome s home)
  | v => v

/-- The short form of an app. -/
def normalizeApp : Json → Json
  | .string s => .object [("source", .string s), ("category", .string "coding")]
  | v => v

variable (fl : Floats)

/-- `agent.projectRoots`: a truthy value that is no array is left. -/
def expandRoots (home : String) (agent : Fields) : Fields :=
  match Fields.get agent "projectRoots" with
  | some (.array items) =>
      Fields.modify agent "projectRoots" fun _ => .array (items.map (expandString home))
  | some v => if jsTruthy fl v then agent else Fields.insert agent "projectRoots" (.array [])
  | none => Fields.insert agent "projectRoots" (.array [])

def normalizeApps (agent : Fields) : Fields :=
  Fields.modify agent "apps" (Json.onObject (List.map (Prod.map id normalizeApp)))

/-- The raw configuration that `load_config_with` makes of the file's. -/
def loadRaw (home dbPath machine : String) (user : Json) : Json :=
  (deepMerge (defaultsWith dbPath machine) user).onObject fun root =>
    Fields.modify
      (Fields.modify root "server" (Json.onObject fun server =>
        Fields.modify server "db" (expandString home)))
      "agent" (Json.onObject fun agent => normalizeApps (expandRoots fl home agent))

end Stackhour.Core
