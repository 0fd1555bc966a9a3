import Stackhour.Core.RepositorySpec

/-!
# Checkouts

What a clone or a linked worktree has on a disk, and where a place is in it. The place
has the project of the repository and the branch of its own checkout.
-/

namespace Stackhour.Core

open Paths (render below lead walk IsName)

/-- `.git` -/
def gitName : List Char := ".git".toList

/-- What git keeps of one checkout: in its root, or where the pointer in there leads. -/
inductive GitDir (disk : Disk) (root : List (List Char)) : List (List Char) → Prop
  | within : disk.kind (render (root ++ [gitName])) = some .dir →
      GitDir disk root (root ++ [gitName])
  | pointed {pointer : List Char} : disk.kind (render (root ++ [gitName])) = some .file →
      OneLine pointer →
      disk.read (render (root ++ [gitName])) = some ("gitdir: ".toList ++ pointer ++ ['\n']) →
      GitDir disk root (lead root pointer)

/-- What git keeps of the repository: in the same place, or where `commondir` leads. -/
inductive CommonDir (disk : Disk) (gitDir : List (List Char)) : List (List Char) → Prop
  | own : disk.read (render gitDir ++ "/commondir".toList) = none → CommonDir disk gitDir gitDir
  | shared {path : List Char} : OneLine path →
      disk.read (render gitDir ++ "/commondir".toList) = some (path ++ ['\n']) →
      CommonDir disk gitDir (lead gitDir path)

/-- A checkout, on some branch, of the repository that a host has under a path. -/
structure Checkout (disk : Disk) (h p : List Char) where
  root : List (List Char)
  gitDir : List (List Char)
  common : List (List Char)
  sections : List Section
  spelling : Spelling
  branch : List Char
  names : ∀ n ∈ root, IsName n
  gitDir_ok : GitDir disk root gitDir
  common_ok : CommonDir disk gitDir common
  config : disk.read (render common ++ "/config".toList) = some (printConfig sections)
  sections_ok : ∀ s ∈ sections, s.Ok
  remote : preferred (sections.flatMap Section.remotes) = some (spelling.spell h p)
  spelling_ok : spelling.Ok
  head : disk.read (render gitDir ++ "/HEAD".toList) =
    some ("ref: refs/heads/".toList ++ branch ++ ['\n'])
  branch_ok : OneLine branch

/-- The directory of a path: itself, or the one around it if it is a file. -/
def directoryOf (disk : Disk) (path : List Char) : List (List Char) :=
  match disk.kind path with
  | some .file | some .other => (walk [] path).dropLast
  | _ => walk [] path

/-- An absolute path at a root or below it, with no other `.git` on the way up. -/
structure Inside (disk : Disk) (root : List (List Char)) (location : List Char) : Prop where
  absolute : (trim location).head? = some '/'
  below : ∃ rest, directoryOf disk (trim location) = root ++ rest ∧
    ∀ way, way ≠ [] → way <+: rest → disk.kind (render (root ++ way ++ [gitName])) = none

/-- The project of a remote: an alias for it, or the last two segments of it. -/
def projectOf (urls : Urls) (aliases : List (List Char × List Char)) (h p : List Char) :
    List Char :=
  ((aliasFor urls aliases [some (key h p), some (remoteProject (key h p))]).filter (· ≠ [])).getD
    (remoteProject (key h p))

/-- What a checkout is called by itself. -/
def ownName (fallback : Option (List Char)) (root : List (List Char)) : List Char :=
  ((fallback.filter (· ≠ [])).or root.getLast?).getD "unknown".toList

/-! ## Paths of names -/

section

variable {disk : Disk} {names dir root gitDir : List (List Char)} {path : List Char}

theorem intercalate_below (n : List Char) (names : List (List Char)) :
    '/' :: List.intercalate ['/'] (n :: names) = below (n :: names) := by
  induction names generalizing n with
  | nil => simp [below]
  | cons m names ih =>
      rw [List.intercalate_cons_cons, List.append_assoc, List.singleton_append, ih m]
      rfl

theorem normalizeAbs_eq (p : List Char) : normalizeAbs p = render (walk [] p) := by
  unfold normalizeAbs render
  cases hstack : walk [] p with
  | nil => rfl
  | cons n names => exact intercalate_below n names

theorem jsResolve1_absolute (h : path.head? = some '/') (disk : Disk) :
    jsResolve1 disk path = render (walk [] path) := by
  unfold jsResolve1
  rw [if_pos h, normalizeAbs_eq]

/-- A path that is relative to names leads where it should. -/
theorem jsResolve2_render (h : ∀ n ∈ dir, IsName n) (disk : Disk) (path : List Char) :
    jsResolve2 disk (render dir) path = render (lead dir path) := by
  unfold jsResolve2 lead
  split
  · exact normalizeAbs_eq path
  · rw [if_pos (Paths.head?_render dir), normalizeAbs_eq, Paths.walk_append, Paths.walk_render h]

theorem dotGit_render (h : ∀ n ∈ root, IsName n) :
    dotGit (render root) = render (root ++ [gitName]) := by
  unfold dotGit trimEnd
  rw [Paths.rdropWhile_render h, Paths.render_concat]
  rfl

theorem jsDirname_render (h : ∀ n ∈ names, IsName n) :
    jsDirname (render names) = render names.dropLast := by
  unfold jsDirname trimEnd
  rw [Paths.rdropWhile_render h]
  induction names using List.reverseRecOn with
  | nil => rfl
  | append_singleton names n _ =>
      have hn := (h n (by simp)).2.2.2
      simp only [Paths.below_concat, Paths.rdropWhile_name hn, List.dropLast_concat]
      rw [if_pos (by simp)]
      cases names with
      | nil => rfl
      | cons m names => rfl

theorem jsBasename_render (h : ∀ n ∈ names, IsName n) :
    jsBasename (render names) = names.getLastD [] := by
  unfold jsBasename trimEnd
  rw [Paths.rdropWhile_render h]
  induction names using List.reverseRecOn with
  | nil => rfl
  | append_singleton names n _ =>
      rw [Paths.below_concat, Paths.rtakeWhile_below (h n (by simp)).2.2.2]
      simp

theorem components_render (h : ∀ n ∈ names, IsName n) :
    components (render names) = ['/'] :: names := by
  have hkept : ∀ n ∈ names, decide (n ≠ [] ∧ n ≠ ['.']) = true := fun n hn =>
    decide_eq_true ⟨(h n hn).1, (h n hn).2.1⟩
  have hsplit : ((render names).splitOn '/').filter (fun s => s ≠ [] ∧ s ≠ ['.']) = names := by
    cases names with
    | nil => rfl
    | cons n names =>
        have hslash : ('/' :: List.intercalate ['/'] (n :: names)).splitOn '/' =
            [] :: (List.intercalate ['/'] (n :: names)).splitOn '/' :=
          List.splitOn_append_cons_self [] _
        rw [render, if_neg (List.cons_ne_nil n names), ← intercalate_below, hslash,
          List.splitOn_intercalate _ (fun m hm => (h m hm).2.2.2) (List.cons_ne_nil n names)]
        exact List.filter_eq_self.mpr hkept
  unfold components
  simp only [if_pos (Paths.head?_render names), hsplit]
  rfl

theorem render_injective {names' : List (List Char)} (h : ∀ n ∈ names, IsName n)
    (h' : ∀ n ∈ names', IsName n) (heq : render names = render names') : names = names' := by
  rw [← Paths.walk_render h, heq, Paths.walk_render h']

theorem length_le_render (names : List (List Char)) : names.length ≤ (render names).length := by
  have hbelow : names.length ≤ (below names).length := by
    induction names with
    | nil => exact Nat.zero_le _
    | cons n names ih =>
        simp only [below, List.flatMap_cons, List.length_append, List.length_cons] at ih ⊢
        omega
  unfold render
  split
  · next hnil => simp [hnil]
  · exact hbelow

theorem isName_gitName : IsName gitName := by decide

theorem GitDir.isName (h : GitDir disk root gitDir) (hroot : ∀ n ∈ root, IsName n) :
    ∀ n ∈ gitDir, IsName n := by
  cases h with
  | within =>
      intro n hn
      rcases List.mem_append.mp hn with hn | hn
      · exact hroot n hn
      · exact List.mem_singleton.mp hn ▸ isName_gitName
  | pointed =>
      refine Paths.walk_isName ?_ _
      split
      · exact fun n hn => nomatch hn
      · exact hroot

/-! ## Finding the repository -/

theorem OneLine.trim_newline {v : List Char} (h : OneLine v) : Core.trim (v ++ ['\n']) = v := by
  have hend : ∀ c ∈ ['\n'], Hub.isWhitespace c = true := List.all_eq_true.mp rfl
  exact trimMatches_between (a := []) (fun c hc => nomatch hc) hend h.first h.last h.ne_nil

theorem OneLine.prepend {a v : List Char} (hne : a ≠ []) (hnewline : '\n' ∉ a)
    (hfirst : a.head?.all (fun c => !Hub.isWhitespace c) = true) (h : OneLine v) :
    OneLine (a ++ v) := by
  refine ⟨by simp [hne], ?_, ?_, ?_⟩
  · exact fun hmem => (List.mem_append.mp hmem).elim hnewline h.newline
  · intro c hc
    rw [List.head?_append_of_ne_nil _ hne] at hc
    rw [Option.mem_def.mp hc] at hfirst
    exact Bool.not_eq_true' _ ▸ hfirst
  · intro c hc
    rw [List.getLast?_append_of_ne_nil _ h.ne_nil] at hc
    exact h.last c hc

/-- A pointer is read without the newline behind it. -/
theorem gitdirPointer_pointer {pointer : List Char} (h : OneLine pointer) :
    gitdirPointer (trim ("gitdir: ".toList ++ pointer ++ ['\n'])) = some pointer := by
  have hline : OneLine ("gitdir: ".toList ++ pointer) :=
    h.prepend (by decide) (by decide) (by decide)
  have hkey : "gitdir: ".toList = "gitdir:".toList ++ [' '] := by decide
  have hbehind : behind "gitdir:".toList ("gitdir:".toList ++ ([' '] ++ pointer)) =
      some ([' '] ++ pointer) := behind_eq_some.mpr ⟨_, rfl, by decide⟩
  have hblank : ∀ c ∈ [' '], Hub.isWhitespace c = true := List.all_eq_true.mp rfl
  unfold gitdirPointer
  rw [hline.trim_newline, hkey, List.append_assoc, hbehind]
  exact h.lineValue hblank

theorem gitDirFor_eq (h : GitDir disk root gitDir) (hroot : ∀ n ∈ root, IsName n) :
    gitDirFor disk (render root) = some (render gitDir) := by
  unfold gitDirFor
  rw [dotGit_render hroot]
  cases h with
  | within hkind => rw [hkind]
  | pointed hkind hpointer hread =>
      rw [hkind]
      simp only [hread, Option.bind_some, gitdirPointer_pointer hpointer, Option.map_some,
        jsResolve2_render hroot]

theorem commonGitDir_eq {common : List (List Char)} (h : CommonDir disk gitDir common)
    (hgitDir : ∀ n ∈ gitDir, IsName n) : commonGitDir disk (render gitDir) = render common := by
  unfold commonGitDir
  cases h with
  | own hread => rw [hread]
  | shared hpath hread => simp only [hread, hpath.trim_newline, jsResolve2_render hgitDir]

theorem gitDirFor_none (hroot : ∀ n ∈ root, IsName n)
    (h : disk.kind (render (root ++ [gitName])) = none) : gitDirFor disk (render root) = none := by
  unfold gitDirFor
  rw [dotGit_render hroot, h]

/-- The search goes up to the first directory that has a `.git`. -/
theorem searchUp_root (hgit : (gitDirFor disk (render root)).isSome) {rest : List (List Char)}
    (hnames : ∀ n ∈ root ++ rest, IsName n)
    (hway : ∀ way, way ≠ [] → way <+: rest → disk.kind (render (root ++ way ++ [gitName])) = none) :
    ∀ n, rest.length < n → searchUp disk n (render (root ++ rest)) = some (render root) := by
  induction rest using List.reverseRecOn with
  | nil =>
      intro n hn
      obtain ⟨n, rfl⟩ : ∃ m, n = m + 1 := ⟨n - 1, by omega⟩
      rw [List.append_nil, searchUp, if_pos hgit]
  | append_singleton rest d ih =>
      intro n hn
      rw [List.length_append, List.length_singleton] at hn
      obtain ⟨n, rfl⟩ : ∃ m, n = m + 1 := ⟨n - 1, by omega⟩
      have hnone : gitDirFor disk (render (root ++ (rest ++ [d]))) = none :=
        gitDirFor_none hnames (hway _ (by simp) (List.prefix_refl _))
      have hparent : jsDirname (render (root ++ (rest ++ [d]))) = render (root ++ rest) := by
        rw [jsDirname_render hnames, ← List.append_assoc, List.dropLast_concat]
      have hup : ∀ m ∈ root ++ rest, IsName m := by
        intro m hm
        exact hnames m (by simpa using (List.mem_append.mp hm).imp_right Or.inl)
      have hmoves : render (root ++ rest) ≠ render (root ++ (rest ++ [d])) := by
        intro heq
        have hlength := congrArg List.length (render_injective hup hnames heq)
        simp at hlength
      rw [searchUp, hnone, if_neg (by simp), hparent, if_neg hmoves]
      refine ih hup ?_ n (by omega)
      intro way hne hfront
      exact hway way hne (hfront.trans (List.prefix_append _ _))

/-- The search begins at the directory of a path. -/
theorem searchFrom_eq (h : path.head? = some '/') :
    searchFrom disk path = render (directoryOf disk path) := by
  have hnames : ∀ n ∈ walk [] path, IsName n := Paths.walk_isName (List.forall_mem_nil _) path
  unfold searchFrom directoryOf
  rw [jsResolve1_absolute h]
  cases disk.kind path with
  | none => rfl
  | some kind => cases kind <;> first | rfl | exact jsDirname_render hnames

theorem directoryOf_isName (disk : Disk) (path : List Char) :
    ∀ n ∈ directoryOf disk path, IsName n := by
  have hnames : ∀ n ∈ walk [] path, IsName n := Paths.walk_isName (List.forall_mem_nil _) path
  unfold directoryOf
  split
  · exact fun n hn => hnames n (List.dropLast_subset _ hn)
  · exact fun n hn => hnames n (List.dropLast_subset _ hn)
  · exact hnames

end

section

variable {urls : Urls} {disk : Disk} {h p location : List Char}

/-- The repository of a place is the nearest around it. -/
theorem Checkout.root_of_inside (c : Checkout disk h p) (hin : Inside disk c.root location) :
    repositoryRoot disk (trim location) = some (render c.root) := by
  obtain ⟨rest, hdir, hway⟩ := hin.below
  have hgit : (gitDirFor disk (render c.root)).isSome := by
    rw [gitDirFor_eq c.gitDir_ok c.names]
    rfl
  have hnames := directoryOf_isName disk (trim location)
  unfold repositoryRoot
  rw [searchFrom_eq hin.absolute, hdir]
  rw [hdir] at hnames
  refine searchUp_root hgit hnames hway _ ?_
  have hlength := length_le_render (c.root ++ rest)
  rw [List.length_append] at hlength
  omega

/-- The remote is read from where all checkouts of the repository find it. -/
theorem Checkout.remote_eq (c : Checkout disk h p) (hdoc : Documented urls) (hh : DnsHost urls h)
    (hp : RepoPath p) : gitRemoteForRoot urls disk (render c.root) = some (key h p) := by
  have hgitDir := c.gitDir_ok.isName c.names
  unfold gitRemoteForRoot
  rw [gitDirFor_eq c.gitDir_ok c.names, Option.bind_some, commonGitDir_eq c.common_ok hgitDir,
    c.config, Option.bind_some, remoteFromConfig_printConfig c.sections_ok, c.remote,
    Option.bind_some]
  exact normalize_spell hdoc hh hp c.spelling_ok

theorem removeFirst_prefix {a : List Char} (hne : a ≠ []) (b : List Char) :
    removeFirst a (a ++ b) = b := by
  cases a with
  | nil => exact absurd rfl hne
  | cons c a =>
      have hfront : (c :: a).isPrefixOf (c :: (a ++ b)) = true :=
        List.isPrefixOf_iff_prefix.mpr (List.prefix_append (c :: a) b)
      rw [List.cons_append, removeFirst, if_pos hfront]
      simp

theorem branchOf_head {branch : List Char} (h : OneLine branch) :
    branchOf (trim ("ref: refs/heads/".toList ++ branch ++ ['\n'])) = branch := by
  have hline : OneLine ("ref: refs/heads/".toList ++ branch) :=
    h.prepend (by decide) (by decide) (by decide)
  have hkey : "ref: refs/heads/".toList = "ref: ".toList ++ "refs/heads/".toList := by decide
  have hlength : "ref: ".toList.length = 5 := by decide
  have hfront : "ref: ".toList.isPrefixOf ("ref: ".toList ++ ("refs/heads/".toList ++ branch)) =
      true := List.isPrefixOf_iff_prefix.mpr (List.prefix_append _ _)
  unfold branchOf
  rw [hline.trim_newline, hkey, List.append_assoc, if_pos hfront, ← hlength, List.drop_left]
  exact removeFirst_prefix (by decide) branch

theorem gitBranch_eq {root gitDir : List (List Char)} (h : GitDir disk root gitDir)
    (hroot : ∀ n ∈ root, IsName n) {head : List Char}
    (hhead : disk.read (render gitDir ++ "/HEAD".toList) = some head) :
    gitBranch disk (render root) = some (branchOf (trim head)) := by
  unfold gitBranch
  rw [dotGit_render hroot]
  cases h with
  | within hkind => simp only [hkind, hhead, Option.map_some]
  | pointed hkind hpointer hread =>
      simp only [hkind, hread, Option.bind_some, gitdirPointer_pointer hpointer,
        jsResolve2_render hroot, hhead, Option.map_some]

/-- The branch is the one of the checkout, not of the repository. -/
theorem Checkout.branch_eq (c : Checkout disk h p) :
    gitBranch disk (render c.root) = some c.branch := by
  rw [gitBranch_eq c.gitDir_ok c.names c.head, branchOf_head c.branch_ok]

/-! ## Naming the project -/

/-- An alias for something else is none. -/
theorem aliasOf_none {aliases : List (List Char × List Char)} {candidate : List Char}
    (h : ∀ e ∈ aliases, urls.toLowercase e.1 ≠ urls.toLowercase candidate) :
    aliasOf urls aliases candidate = none := by
  have hexact : aliases.find? (fun e => e.1 = candidate) = none := by
    rw [List.find?_eq_none]
    intro e he heq
    exact h e he (congrArg urls.toLowercase (of_decide_eq_true heq))
  have hfolded : aliases.find?
      (fun e => urls.toLowercase e.1 = urls.toLowercase candidate) = none := by
    rw [List.find?_eq_none]
    intro e he heq
    exact h e he (of_decide_eq_true heq)
  unfold aliasOf
  split
  · rfl
  · rw [hexact, hfolded]
    rfl

theorem placeName_root {root : List (List Char)} (hroot : ∀ n ∈ root, IsName n)
    (value : List Char) (fallback : Option (List Char)) :
    placeName value fallback (some (render root)) = ownName fallback root := by
  unfold placeName ownName
  simp only [jsBasename_render hroot]
  cases hlast : root.getLast? with
  | none =>
      obtain rfl := List.getLast?_eq_none_iff.mp hlast
      rfl
  | some n =>
      have hn := (hroot n (List.mem_of_getLast? hlast)).1
      simp [List.getLastD_eq_getLast?, hlast, hn, Option.filter]

theorem Checkout.resolve_eq (c : Checkout disk h p) (hdoc : Documented urls) (hh : DnsHost urls h)
    (hp : RepoPath p) (habs : (trim location).head? = some '/')
    {aliases : List (List Char × List Char)} {fallback : Option (List Char)}
    (hplace : ∀ e ∈ aliases,
      ∀ place ∈ [render (walk [] (trim location)), render c.root, ownName fallback c.root],
        urls.toLowercase e.1 ≠ urls.toLowercase place) :
    resolveProjectWithRoot urls disk location aliases fallback (some (render c.root)) =
      projectOf urls aliases h p := by
  have hne : trim location ≠ [] := by
    rintro hnil
    rw [hnil] at habs
    cases habs
  have hresolved := aliasOf_none fun e he => hplace e he _ (List.mem_cons_self ..)
  have hroot := aliasOf_none fun e he => hplace e he (render c.root) (by simp)
  have hname := aliasOf_none fun e he => hplace e he (ownName fallback c.root) (by simp)
  unfold resolveProjectWithRoot projectOf aliasFor
  simp only [Option.bind_some, c.remote_eq hdoc hh hp, if_neg hne, placeName_root c.names,
    jsResolve1_absolute habs, Option.map_some]
  have hreduce : ∀ a b d e f : List Char,
      [some a, some b, some d, some e, some f].reduceOption = [a, b, d, e, f] :=
    fun _ _ _ _ _ => rfl
  have hshort : ∀ a b : List Char, [some a, some b].reduceOption = [a, b] := fun _ _ => rfl
  rw [hreduce, hshort]
  simp only [List.findSome?_cons, hresolved, hroot, hname, List.findSome?_nil]
  have hor : ∀ (o : Option (List Char)) (a b : List Char), (o.or (some a)).getD b = o.getD a := by
    rintro (_ | _) _ _ <;> rfl
  exact hor _ _ _

end

/-! ## A linked worktree -/

/-- The files of a repository in `/w/app` and of a worktree of it in `/w/topic`. -/
def worktreeFiles : List (String × String) :=
  [("/w/topic/.git", "gitdir: ../app/.git/worktrees/topic\n"),
    ("/w/app/.git/worktrees/topic/commondir", "../..\n"),
    ("/w/app/.git/worktrees/topic/HEAD", "ref: refs/heads/topic\n"),
    ("/w/app/.git/config",
      "[core]\n\tbare = false\n[remote \"origin\"]\n\turl = git@GitHub.com:Acme/widget.git\n")]

def worktreeDisk : Disk where
  kind p := if (worktreeFiles.map (·.1.toList)).contains p then some .file else
    if p = "/w/topic/src".toList then some .dir else none
  read p := (worktreeFiles.find? (·.1.toList = p)).map (·.2.toList)
  cwd := ['/']

def topicSections : List Section :=
  [⟨"core".toList, none, [("bare".toList, "false".toList)]⟩,
    ⟨"remote".toList, some "origin".toList,
      [("url".toList, "git@GitHub.com:Acme/widget.git".toList)]⟩]

def topicSpelling : Spelling := ⟨.scp, some "git".toList, ".git".toList, 0⟩

theorem oneLine_of {v : List Char} (hne : v ≠ []) (hnewline : '\n' ∉ v)
    (hends : (v.head?.toList ++ v.getLast?.toList).all (fun c => !Hub.isWhitespace c) = true) :
    OneLine v := by
  have hblank : ∀ c ∈ v.head?.toList ++ v.getLast?.toList, Hub.isWhitespace c = false :=
    fun c hc => by simpa using List.all_eq_true.mp hends c hc
  exact ⟨hne, hnewline, fun c hc => hblank c (by simp [Option.mem_def.mp hc]),
    fun c hc => hblank c (by simp [Option.mem_def.mp hc])⟩

def topicCheckout : Checkout worktreeDisk "GitHub.com".toList "Acme/widget".toList where
  root := ["w".toList, "topic".toList]
  gitDir := ["w".toList, "app".toList, gitName, "worktrees".toList, "topic".toList]
  common := ["w".toList, "app".toList, gitName]
  sections := topicSections
  spelling := topicSpelling
  branch := "topic".toList
  names := by decide
  gitDir_ok := by
    have hlead : lead ["w".toList, "topic".toList] "../app/.git/worktrees/topic".toList =
      ["w".toList, "app".toList, gitName, "worktrees".toList, "topic".toList] := by decide
    rw [← hlead]
    exact .pointed (by decide) (oneLine_of (by decide) (by decide) (by decide)) (by decide)
  common_ok := by
    have hlead : lead ["w".toList, "app".toList, gitName, "worktrees".toList, "topic".toList]
        "../..".toList = ["w".toList, "app".toList, gitName] := by decide
    rw [← hlead]
    exact .shared (oneLine_of (by decide) (by decide) (by decide)) (by decide)
  config := by decide
  sections_ok := by
    intro s hs
    rcases List.mem_cons.mp hs with rfl | hs
    · refine ⟨⟨by decide, List.all_eq_true.mp rfl⟩, by decide, ?_⟩
      intro l hl
      obtain rfl := List.mem_singleton.mp hl
      exact ⟨⟨by decide, List.all_eq_true.mp rfl⟩, oneLine_of (by decide) (by decide) (by decide)⟩
    · obtain rfl := List.mem_singleton.mp hs
      refine ⟨⟨by decide, List.all_eq_true.mp rfl⟩, by decide, ?_⟩
      intro l hl
      obtain rfl := List.mem_singleton.mp hl
      exact ⟨⟨by decide, List.all_eq_true.mp rfl⟩, oneLine_of (by decide) (by decide) (by decide)⟩
  remote := by decide
  spelling_ok := ⟨by rintro u ⟨⟩; exact ⟨by decide, List.all_eq_true.mp rfl⟩, by rintro port ⟨⟩,
    .inr (by decide)⟩
  head := by decide
  branch_ok := oneLine_of (by decide) (by decide) (by decide)

theorem inside_topic :
    Inside worktreeDisk topicCheckout.root " /w/topic/src/../src/x.rs".toList where
  absolute := by decide
  below := by
    have hway : ∀ way ∈ ["src".toList, "x.rs".toList].inits, way ≠ [] →
        worktreeDisk.kind (render (topicCheckout.root ++ way ++ [gitName])) = none := by decide
    exact ⟨["src".toList, "x.rs".toList], by decide,
      fun way hne hfront => hway way ((List.mem_inits ..).mpr hfront) hne⟩

end Stackhour.Core
