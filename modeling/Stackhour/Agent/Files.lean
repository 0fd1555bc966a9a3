import Stackhour.Agent.Watchers
import Stackhour.Core.Repository

/-!
# The files watcher

Every tick walks the configured roots and reports the files that were written since the
walk before. The time of a walk is noted before it begins.
-/

namespace Stackhour.Agent

open Core Domain

/-- What a directory entry is, when that is not followed where it links. -/
inductive FileType where
  | dir
  | file
  | other
deriving DecidableEq

structure Entry where
  name : List Char
  type : Option FileType

/-- What a scan finds on the disk; a time is one after the epoch. -/
structure FileSystem where
  readDir : List Char → Option (List Entry)
  mtime : List Char → Option F64
  readString : List Char → Option (List Char)
  disk : Disk

/-- What the watcher takes from the configuration. -/
structure FilesConfig where
  enabled : Bool
  projectRoots : List (List Char)
  ignoreDirs : List (List Char)
  maxScanDepth : F64
  intervalSeconds : F64
  projectAliases : List (List Char × List Char)

structure FilesWorld where
  cfg : FilesConfig
  fs : FileSystem
  urls : Urls

/-! ## Walking -/

/-- `Path::join`, with a name. -/
def join (base name : List Char) : List Char :=
  if base = [] ∨ base.getLast? = some '/' then base ++ name else base ++ '/' :: name

/-- A dot hides all but `.env`. -/
def hidden (name : List Char) : Bool := name.head? == some '.' && name != ".env".toList

/-- `walk`: the files by their names below the directory, `turns` levels deep. -/
def walk (fs : FileSystem) (ignoreDirs : List (List Char)) :
    ℕ → List Char → List (List (List Char))
  | 0, _ => []
  | turns + 1, dir =>
      ((fs.readDir dir).getD []).flatMap fun entry =>
        if hidden entry.name then []
        else
          match entry.type with
          | some .dir =>
              if ignoreDirs.contains entry.name then []
              else (walk fs ignoreDirs turns (join dir entry.name)).map (entry.name :: ·)
          | some .file => [[entry.name]]
          | _ => []

/-- The path of a file below a root. -/
def pathOf (root : List Char) (names : List (List Char)) : List Char := names.foldl join root

/-! ## Rows -/

/-- `LANG_BY_EXT`. -/
def LANG_BY_EXT : List (String × String) :=
  [(".ts", "TypeScript"), (".tsx", "TypeScript"), (".js", "JavaScript"), (".jsx", "JavaScript"),
    (".mjs", "JavaScript"), (".cjs", "JavaScript"), (".json", "JSON"), (".css", "CSS"),
    (".scss", "SCSS"), (".html", "HTML"), (".md", "Markdown"), (".py", "Python"), (".rs", "Rust"),
    (".go", "Go"), (".cs", "C#"), (".sh", "Shell"), (".yml", "YAML"), (".yaml", "YAML"),
    (".toml", "TOML"), (".sql", "SQL"), (".vue", "Vue"), (".svelte", "Svelte")]

/-- `Path::extension`: what is behind the last dot, unless that is the first character. -/
def extension (name : List Char) : Option (List Char) :=
  if '.' ∉ name ∨ name = "..".toList then none
  else if (name.rdropWhile (· ≠ '.')).dropLast = [] then none
  else some (name.rtakeWhile (· ≠ '.'))

/-- `language_for`. -/
def languageFor (urls : Urls) (name : List Char) : Json :=
  match extension name with
  | none => .null
  | some ext =>
      match LANG_BY_EXT.find? (fun e => e.1.toList = '.' :: urls.toLowercase ext) with
      | some e => .string e.2
      | none => .null

/-- What is behind a `gitdir:` in a trimmed text. -/
def pointerOf (text : List Char) : Option (List Char) :=
  if "gitdir:".toList.isPrefixOf text then some (trim (text.drop 7)) else none

/-- `git_branch` of this watcher, which follows a pointer as it is written. -/
def branchAt (fs : FileSystem) (projectDir : List Char) : Option (List Char) :=
  let dotGit := join projectDir ".git".toList
  let headOf := fun gitDir =>
    (fs.readString (join gitDir "HEAD".toList)).map (fun head => branchOf (trim head))
  match fs.disk.kind dotGit with
  | none => none
  | some .file =>
      (fs.readString dotGit).bind fun text =>
        (pointerOf (trim text)).bind fun pointer =>
          headOf (if pointer.head? = some '/' then pointer else join projectDir pointer)
  | some _ => headOf dotGit

/-- The first directory below the root, or the root for a file right in it. -/
def projectDirOf (root : List Char) : List (List Char) → List Char
  | top :: _ :: _ => join root top
  | _ => root

/-- The row of a file. -/
def fileRow (world : FilesWorld) (root : List Char) (names : List (List Char)) (mtime : F64) :
    Json :=
  let projectDir := projectDirOf root names
  .object
    [("time", jsonFloat mtime), ("source", .string "editor-files"),
      ("project", .string (String.ofList (resolveProjectWithin world.urls world.fs.disk projectDir
        root world.cfg.projectAliases none))),
      ("entity", .string (String.ofList (pathOf root names))), ("entity_type", .string "file"),
      ("category", .string "coding"), ("language", languageFor world.urls (names.getLastD [])),
      ("branch", ((branchAt world.fs projectDir).map (fun b => Json.string (String.ofList b))).getD
        .null),
      ("is_write", .number (.int 1))]

/-! ## Scanning -/

variable (ar : Arithmetic)

/-- The levels that `maxScanDepth` allows, the root among them. -/
def scanTurns (cfg : FilesConfig) : ℕ :=
  min (ar.toInt (ar.max cfg.maxScanDepth F64.zero)).toNat (2 ^ 32 - 1) + 1

/-- The files below all roots, each with its root. -/
def scanned (world : FilesWorld) : List (List Char × List (List Char)) :=
  world.cfg.projectRoots.flatMap fun root =>
    (walk world.fs world.cfg.ignoreDirs (scanTurns ar world.cfg) root).map fun names =>
      (root, names)

/-- The time after which a file counts as written; a clock that went back begins anew. -/
def scanSince (cfg : FilesConfig) (state : Fields) (now : F64) : F64 :=
  let previous := floatOr ar (ar.sub now cfg.intervalSeconds) (Fields.get state "filesLastScan")
  if ar.less now previous then ar.sub now cfg.intervalSeconds else previous

/-- A time that is new, and at most a minute ahead. -/
def inWindow (since now mtime : F64) : Bool :=
  ar.less since mtime && !ar.less (ar.add now (ar.ofInt 60)) mtime

def rowIn (world : FilesWorld) (since now : F64) (file : List Char × List (List Char)) :
    Option Json :=
  (world.fs.mtime (pathOf file.1 file.2)).bind fun mtime =>
    if inWindow ar since now mtime then some (fileRow world file.1 file.2 mtime) else none

/-- `FilesWatcher`; the disk is the same throughout a scan, so that the branches need no
cache here. -/
def filesWatcher : Watcher FilesWorld where
  name := "files"
  gate world :=
    if !world.cfg.enabled then .skipped false false "disabled in config"
    else if world.cfg.projectRoots = [] then .skipped true false "no project roots configured"
    else .run
  inputMarker _ _ := none
  run world state now :=
    (Fields.insert state "filesLastScan" (jsonFloat now),
      .ok ((scanned ar world).filterMap (rowIn ar world (scanSince ar world.cfg state now) now)))

end Stackhour.Agent
