import Stackhour.Core.Project
import Stackhour.Lib.Paths

/-!
# The project of a place

Repositories are found without git: a directory with a `.git` in it is the root of one,
a `.git` file leads to the directory that stands for it, and a `commondir` in there to
the directory which all worktrees share. The remote in its configuration names the
project, unless the user has an alias for it or for the place.
-/

namespace Stackhour.Core

inductive Kind where
  | dir
  | file
  | other
deriving DecidableEq

/-- What a disk says of a path: what it is, and its text. -/
structure Disk where
  kind : List Char → Option Kind
  read : List Char → Option (List Char)
  cwd : List Char

/-! ## Paths -/

/-- `normalize_abs`: the segments move over a stack of names. -/
def normalizeAbs (p : List Char) : List Char :=
  let stack := Paths.walk [] p
  if stack = [] then ['/'] else '/' :: List.intercalate ['/'] stack

/-- `js_resolve1`. -/
def jsResolve1 (disk : Disk) (p : List Char) : List Char :=
  if p.head? = some '/' then normalizeAbs p else normalizeAbs (disk.cwd ++ '/' :: p)

/-- `js_resolve2`. -/
def jsResolve2 (disk : Disk) (base p : List Char) : List Char :=
  if p.head? = some '/' then normalizeAbs p
  else if base.head? = some '/' then normalizeAbs (base ++ '/' :: p)
  else normalizeAbs (disk.cwd ++ '/' :: (base ++ '/' :: p))

/-- `str::trim_end_matches('/')`. -/
def trimEnd (p : List Char) : List Char := p.rdropWhile (· == '/')

/-- `js_dirname`. -/
def jsDirname (p : List Char) : List Char :=
  let trimmed := trimEnd p
  if '/' ∈ trimmed then
    let before := (trimmed.rdropWhile (· ≠ '/')).dropLast
    if before = [] then ['/'] else before
  else if trimmed = [] then ['/'] else ['.']

/-- `js_basename`. -/
def jsBasename (p : List Char) : List Char := (trimEnd p).rtakeWhile (· ≠ '/')

/-! ## Patterns

A pattern is tried on a trimmed text, so that what it reads ends with no blank. None of
the letters in it has another case outside of ASCII. -/

/-- What is behind a key, in any letter case. -/
def behind (key cs : List Char) : Option (List Char) :=
  if lower (cs.take key.length) = key then some (cs.drop key.length) else none

/-- `\s*(.+)$`. -/
def lineValue (cs : List Char) : Option (List Char) :=
  let value := cs.dropWhile Hub.isWhitespace
  if value = [] ∨ '\n' ∈ value then none else some value

/-- `gitdir_re`. -/
def gitdirPointer (content : List Char) : Option (List Char) :=
  (behind "gitdir:".toList content).bind lineValue

/-- What a quoted name is, if it ends the line. -/
def quotedName : List Char → Option (List Char)
  | '"' :: quoted =>
      let name := quoted.takeWhile (· ≠ '"')
      if name = [] ∨ quoted.dropWhile (· ≠ '"') ≠ ['"', ']'] then none else some name
  | _ => none

/-- `remote_header_re`. -/
def remoteHeader (line : List Char) : Option (List Char) :=
  (behind "[remote".toList line).bind fun rest =>
    if rest.takeWhile Hub.isWhitespace = [] then none
    else quotedName (rest.dropWhile Hub.isWhitespace)

/-- `url_line_re`. -/
def urlLine (line : List Char) : Option (List Char) :=
  (behind "url".toList line).bind fun rest =>
    match rest.dropWhile Hub.isWhitespace with
    | '=' :: value => lineValue value
    | _ => none

/-! ## Repositories -/

def dotGit (root : List Char) : List Char := trimEnd root ++ "/.git".toList

/-- `git_dir_for_s`. -/
def gitDirFor (disk : Disk) (root : List Char) : Option (List Char) :=
  match disk.kind (dotGit root) with
  | none => none
  | some .dir => some (dotGit root)
  | some _ =>
      (disk.read (dotGit root)).bind fun content =>
        (gitdirPointer (trim content)).map (jsResolve2 disk root)

/-- `common_git_dir_s`. -/
def commonGitDir (disk : Disk) (gitDir : List Char) : List Char :=
  match disk.read (gitDir ++ "/commondir".toList) with
  | some content => jsResolve2 disk gitDir (trim content)
  | none => gitDir

/-- Where `repository_root_s` begins. -/
def searchFrom (disk : Disk) (location : List Char) : List Char :=
  match disk.kind location with
  | some .dir => jsResolve1 disk location
  | some _ => jsDirname (jsResolve1 disk location)
  | none => jsResolve1 disk location

/-- Its loop; a parent is shorter, so that there are no more turns than characters. -/
def searchUp (disk : Disk) : ℕ → List Char → Option (List Char)
  | 0, _ => none
  | n + 1, current =>
      if (gitDirFor disk current).isSome then some current
      else if jsDirname current = current then none
      else searchUp disk n (jsDirname current)

/-- `repository_root`. -/
def repositoryRoot (disk : Disk) (location : List Char) : Option (List Char) :=
  searchUp disk ((searchFrom disk location).length + 1) (searchFrom disk location)

/-- The section that is open, if it is one of a remote, and the remotes so far. -/
structure Scan where
  opened : List Char
  remotes : List (List Char × List Char)

def scanLine (st : Scan) (raw : List Char) : Scan :=
  let line := trim raw
  match remoteHeader line with
  | some name => { st with opened := name }
  | none =>
      if line.head? = some '[' then { st with opened := [] }
      else if st.opened = [] then st
      else
        match urlLine line with
        | some url => { st with remotes := st.remotes ++ [(st.opened, trim url)] }
        | none => st

/-- `origin` goes before the first. -/
def preferred (remotes : List (List Char × List Char)) : Option (List Char) :=
  ((remotes.find? (fun r => r.1 = "origin".toList)).or remotes.head?).map (·.2)

/-- `remote_from_config`. -/
def remoteFromConfig (config : List Char) : Option (List Char) :=
  preferred ((config.splitOn '\n').foldl scanLine ⟨[], []⟩).remotes

/-- `git_remote_for_root_s`. -/
def gitRemoteForRoot (urls : Urls) (disk : Disk) (root : List Char) : Option (List Char) :=
  (gitDirFor disk root).bind fun gitDir =>
    (disk.read (commonGitDir disk gitDir ++ "/config".toList)).bind fun config =>
      (remoteFromConfig config).bind (normalizeGitRemote urls)

/-- `git_remote`. -/
def gitRemote (urls : Urls) (disk : Disk) (location : List Char) : Option (List Char) :=
  (repositoryRoot disk location).bind (gitRemoteForRoot urls disk)

/-- `replacen(p, "", 1)`. -/
def removeFirst (p : List Char) : List Char → List Char
  | [] => []
  | c :: cs => if p.isPrefixOf (c :: cs) then (c :: cs).drop p.length else c :: removeFirst p cs

/-- What `git_branch` makes of a `HEAD`. -/
def branchOf (head : List Char) : List Char :=
  if "ref: ".toList.isPrefixOf head then removeFirst "refs/heads/".toList (head.drop 5)
  else head.take 12

/-- `git_branch`; a file alone is a pointer here. -/
def gitBranch (disk : Disk) (projectDir : List Char) : Option (List Char) :=
  let headOf := fun gitDir =>
    (disk.read (gitDir ++ "/HEAD".toList)).map (fun head => branchOf (trim head))
  match disk.kind (dotGit projectDir) with
  | none => none
  | some .file =>
      (disk.read (dotGit projectDir)).bind fun content =>
        (gitdirPointer (trim content)).bind fun pointer =>
          headOf (jsResolve2 disk projectDir pointer)
  | some _ => headOf (dotGit projectDir)

/-! ## Projects -/

/-- The alias of one candidate: under its own name first, then whatever the letter case. -/
def aliasOf (urls : Urls) (aliases : List (List Char × List Char)) (candidate : List Char) :
    Option (List Char) :=
  if candidate = [] then none
  else
    ((aliases.find? (fun e => e.1 = candidate)).or
      (aliases.find? (fun e => urls.toLowercase e.1 = urls.toLowercase candidate))).map (·.2)

/-- `alias_for`. -/
def aliasFor (urls : Urls) (aliases : List (List Char × List Char))
    (candidates : List (Option (List Char))) : Option (List Char) :=
  candidates.reduceOption.findSome? (aliasOf urls aliases)

/-- The last two segments of a remote. -/
def remoteProject (remote : List Char) : List Char :=
  let segments := remote.splitOn '/'
  List.intercalate ['/'] (segments.drop (segments.length - 2))

/-- The name that a place has of its own. -/
def placeName (value : List Char) (fallback root : Option (List Char)) : List Char :=
  let pathFallback :=
    match root with
    | some r => some (jsBasename r)
    | none => if value ≠ [] then some (jsBasename value) else none
  ((fallback.filter (· ≠ [])).or (pathFallback.filter (· ≠ []))).getD "unknown".toList

/-- `resolve_project_with_root`. -/
def resolveProjectWithRoot (urls : Urls) (disk : Disk) (location : List Char)
    (aliases : List (List Char × List Char)) (fallback root : Option (List Char)) :
    List Char :=
  let value := trim location
  let remote := root.bind (gitRemoteForRoot urls disk)
  let name := placeName value fallback root
  let candidates := [if value = [] then none else some (jsResolve1 disk value), root, remote,
    remote.map remoteProject, some name]
  (((aliasFor urls aliases candidates).filter (· ≠ [])).or (remote.map remoteProject)).getD name

/-- The root of a place, if the place is an absolute path. -/
def rootOf (disk : Disk) (value : List Char) : Option (List Char) :=
  if value.head? = some '/' then repositoryRoot disk value else none

/-- `resolve_project`. -/
def resolveProject (urls : Urls) (disk : Disk) (location : List Char)
    (aliases : List (List Char × List Char)) (fallback : Option (List Char)) : List Char :=
  resolveProjectWithRoot urls disk location aliases fallback (rootOf disk (trim location))

/-- `Path::components`, where the root and a first dot count. -/
def components (p : List Char) : List (List Char) :=
  let segments := p.splitOn '/'
  let first :=
    if p.head? = some '/' then [['/']] else if segments.head? = some ['.'] then [['.']] else []
  first ++ segments.filter (fun s => s ≠ [] ∧ s ≠ ['.'])

/-- `resolve_project_within`. -/
def resolveProjectWithin (urls : Urls) (disk : Disk) (location boundary : List Char)
    (aliases : List (List Char × List Char)) (fallback : Option (List Char)) : List Char :=
  resolveProjectWithRoot urls disk location aliases fallback
    ((rootOf disk (trim location)).filter fun root =>
      (components boundary).isPrefixOf (components root))

end Stackhour.Core
