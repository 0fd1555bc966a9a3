import Stackhour.Install.Options
import Stackhour.Lib.Getopt
import Stackhour.Lib.Shell
import Stackhour.Lib.Template

/-!
# The installation over SSH

The coordinator runs `ssh` with a command for the remote shell. The values that go
into it come from the command line or from the panel of the hub, and pass the
options of `ssh`, the words of the remote shell and the options of the installer
there.
-/

namespace Stackhour.Install

open Core

-- a statement about the characters of a text is decided along the text
attribute [local instance (high)] List.decidableBAll

/-! ## Settings -/

structure NodeSettings where
  hubUrl : String
  id : String
  token : String
  workspace : Option String
  claudeBin : String
  codexBin : String
deriving DecidableEq

/-- What the installer reads of a parsed URL. -/
structure HubUrl where
  scheme : String
  host : Option String

/-- `reqwest::Url::parse`, the files of the coordinator, and the environment
variable `STACKHOUR_CONTROL_NODE_TOKEN`. -/
structure Coordinator where
  parseUrl : String → Except String HubUrl
  isFile : String → Bool
  nodeToken : Option String

/-- `required`. -/
def required (args : List String) (name : String) : Except String String :=
  match option args name with
  | some value => .ok value
  | none => .error ("--" ++ name ++ " is required")

/-- `required_node_token`. -/
def requiredNodeToken (env : Coordinator) (args : List String) : Except String String :=
  match nonBlank ((option args "token").or env.nodeToken) with
  | some value => .ok value
  | none =>
      .error "--token or the STACKHOUR_CONTROL_NODE_TOKEN environment variable is required"

/-- `validate_hub_url`. -/
def validateHubUrl (env : Coordinator) (url : String) : Except String Unit :=
  match env.parseUrl url with
  | .error error => .error ("invalid hub URL: " ++ error)
  | .ok parsed =>
      if !(["ws", "wss", "http", "https"].contains parsed.scheme) then
        .error "hub URL must use ws, wss, http, or https"
      else if parsed.host = none then .error "hub URL must include a host"
      else .ok ()

/-- The characters that both blacklists name. -/
def blacklist : List Char := ['\'', '"', '\x60', '$', ';', '|', '&']

def isUnfit (value : String) : Bool :=
  decide (200 < Hub.utf8Len value) ||
    value.toList.any (fun c => Hub.isControl c || blacklist.contains c)

/-- `validate_simple`. -/
def validateSimple (label value : String) : Except String Unit :=
  if value.toList.isEmpty || isUnfit value then .error (label ++ " contains unsafe characters")
  else .ok ()

/-- `parse::<u16>`: digits, with a plus sign or without. -/
def parsePort (text : String) : Option ℕ :=
  let digits := match text.toList with
    | '+' :: rest => rest
    | cs => cs
  if digits.isEmpty || !digits.all (fun c => decide (48 ≤ c.toNat ∧ c.toNat ≤ 57)) then none
  else
    let n := digits.foldl (fun n c => 10 * n + (c.toNat - 48)) 0
    if n < 65536 then some n else none

/-! ## The plan -/

/-- `shell_quote`. -/
def shellQuote (value : String) : String :=
  "'" ++ String.ofList (Template.replace ['\''] "'\"'\"'".toList value.toList) ++ "'"

/-- `RELEASE_INSTALLER_URL`. -/
def releaseInstallerUrl : String :=
  "https://github.com/NikitaVoitik/stackhour/releases/latest/download/install-stackhour.sh"

/-- The words that the script ends with. -/
def remoteWords (s : NodeSettings) : List String :=
  ["$HOME/.local/bin/stackhour", "control", "install", "node",
    "--hub-url=" ++ shellQuote s.hubUrl, "--id=" ++ shellQuote s.id,
    "--claude-bin=" ++ shellQuote s.claudeBin, "--codex-bin=" ++ shellQuote s.codexBin] ++
  match s.workspace with
  | some workspace => ["--workspace=" ++ shellQuote workspace]
  | none => []

/-- The script in front of the last semicolon. -/
def bootstrap : String :=
  "set -eu; " ++
  "command -v curl >/dev/null 2>&1 || " ++
  "\x7b echo 'curl is required on the SSH machine.' " ++ ">&2; exit 1; \x7d; " ++
  "installer_dir=$(mktemp -d " ++ "\"$\x7bTMPDIR:-/tmp\x7d/stackhour-bootstrap.XXXXXX\"); " ++
  "trap 'rm -rf -- \"$installer_dir\"' " ++ "EXIT HUP INT TERM; " ++
  "curl --fail --location --silent --show-error " ++ shellQuote releaseInstallerUrl ++
  " --output \"$installer_dir/install.sh\"; " ++
  "sh \"$installer_dir/install.sh\" </dev/null; " ++
  "rm -rf -- \"$installer_dir\"; " ++ "trap - EXIT HUP INT TERM; " ++
  "IFS= read -r STACKHOUR_CONTROL_NODE_TOKEN; " ++
  "export STACKHOUR_CONTROL_NODE_TOKEN"

def remoteCommand (s : NodeSettings) : String :=
  bootstrap ++ "; " ++
    String.ofList ([' '].intercalate (("exec" :: remoteWords s).map String.toList))

/-- The arguments of `ssh`. -/
def sshArguments (target : String) (port : ℕ) (identity : Option String) (s : NodeSettings) :
    List String :=
  ["-p", toString port, "-o", "BatchMode=yes", "-o", "StrictHostKeyChecking=yes"] ++
  (match identity with
    | some identity => ["-i", identity]
    | none => []) ++
  [target, remoteCommand s]

/-- `ssh_plan`. -/
def sshPlan (target : String) (port : ℕ) (identity : Option String) (s : NodeSettings) :
    Except String (List String) := do
  validateSimple "SSH target" target
  pure (sshArguments target port identity s)

/-! ## The installation -/

def sshTarget (host : String) : Option String → String
  | some user => user ++ "@" ++ host
  | none => host

/-- The name of the node, unless it is given. -/
def nodeIdOf (target : String) : String :=
  String.ofList (target.toList.map (fun c => if c = '@' then '-' else c))

/-- The settings that the options give. -/
def sshSettings (args : List String) (target hubUrl token : String) : NodeSettings where
  hubUrl := hubUrl
  id := (option args "id").getD (nodeIdOf target)
  token := token
  workspace := option args "workspace"
  claudeBin := (option args "claude-bin").getD "claude"
  codexBin := (option args "codex-bin").getD "codex"

/-- The run of `ssh`, with the token for its input. -/
structure SshRun where
  install : List String
  input : String

def portError : String := "--port must be between 1 and 65535"

def readPort (text : String) : Except String ℕ :=
  match parsePort text with
  | some port => if port = 0 then .error portError else .ok port
  | none => .error portError

def checkIdentity (env : Coordinator) (identity : String) : Except String Unit :=
  if env.isFile identity then .ok ()
  else .error ("SSH identity does not exist: " ++ identity)

/-- The check of a value that may be missing. -/
def checkGiven (check : String → Except String Unit) : Option String → Except String Unit
  | some value => check value
  | none => .ok ()

/-- `install_ssh`, up to the run of `ssh`. -/
def installSsh (env : Coordinator) (args : List String) : Except String SshRun := do
  rejectUnknown sshOptions args
  let host ← required args "host"
  validateSimple "SSH host" host
  checkGiven (validateSimple "SSH user") (option args "user")
  let target := sshTarget host (option args "user")
  let port ← readPort ((option args "port").getD "22")
  let hubUrl ← required args "hub-url"
  validateHubUrl env hubUrl
  validateSimple "node id" ((option args "id").getD (nodeIdOf target))
  let token ← requiredNodeToken env args
  checkGiven (checkIdentity env) (option args "identity")
  let install ← sshPlan target port (option args "identity") (sshSettings args target hubUrl token)
  pure ⟨install, token⟩

/-! ## The panel -/

inductive InstallMode where
  | local
  | ssh
deriving DecidableEq

structure InstallRequest where
  mode : InstallMode
  nodeId : String
  hubUrl : String
  workspace : Option String
  claudeBin : Option String
  codexBin : Option String
  host : Option String
  user : Option String
  port : Option ℕ
  identity : Option String

/-- `safe_identifier`. -/
def safeIdentifier (label value : String) : Except String Unit :=
  if (trim value.toList).isEmpty || isUnfit value then
    .error (label ++ " contains unsafe characters")
  else .ok ()

/-- An option with its value in the same argument. -/
def joined (name value : String) : String := dashed name ++ "=" ++ value

/-- `push_option`. -/
def pushOption (name : String) (value : Option String) : List String :=
  match nonBlank value with
  | some value => [joined name value]
  | none => []

def checkPort : Option ℕ → Except String Unit
  | some 0 => .error "SSH port must be between 1 and 65535"
  | _ => .ok ()

/-- What `install_args` adds for an installation over SSH. -/
def installArgsSsh (request : InstallRequest) : Except String (List String) := do
  let host ← Result.ofOption "SSH host is required" request.host
  safeIdentifier "SSH host" host
  checkGiven (safeIdentifier "SSH user") request.user
  checkPort request.port
  pure (joined "host" host ::
    ((request.user.map (joined "user")).toList ++
      (request.port.map (fun port => joined "port" (toString port))).toList ++
      pushOption "identity" request.identity))

def checkScheme (url : String) : Except String Unit :=
  if "ws://".toList.isPrefixOf url.toList || "wss://".toList.isPrefixOf url.toList then .ok ()
  else .error "hub URL must use ws or wss"

def InstallMode.word : InstallMode → String
  | .local => "node"
  | .ssh => "ssh"

def modeOptions (request : InstallRequest) : Except String (List String) :=
  match request.mode with
  | .local => .ok []
  | .ssh => installArgsSsh request

/-- `install_args`. -/
def installArgs (request : InstallRequest) : Except String (List String) := do
  safeIdentifier "node id" request.nodeId
  checkScheme request.hubUrl
  let options ← modeOptions request
  pure ("control" :: "install" :: request.mode.word :: joined "hub-url" request.hubUrl ::
    joined "id" request.nodeId ::
    (pushOption "workspace" request.workspace ++ pushOption "claude-bin" request.claudeBin ++
      pushOption "codex-bin" request.codexBin ++ options))

/-! ## Passing verbatim -/

/-- The options of `ssh`, and whether they take a value. -/
def sshTakes (c : Char) : Option Bool :=
  if "BbcDEeFIiJLlmOopQRSWw".toList.contains c then some true
  else if "46AaCfGgKkMNnqsTtVvXxYy".toList.contains c then some false
  else none

/-- The path of `stackhour` on the other machine, which begins with an expansion. -/
def stackhourPath : Shell.Word :=
  ('$', true) :: Shell.literal "HOME/.local/bin/stackhour".toList

/-- Options and their values, where there is one. -/
def writeOptions (given : List (String × Option String)) : List String :=
  given.flatMap (fun p => (p.2.map (joined p.1)).toList)

def NodeSettings.given (s : NodeSettings) : List (String × Option String) :=
  [("hub-url", some s.hubUrl), ("id", some s.id), ("claude-bin", some s.claudeBin),
    ("codex-bin", some s.codexBin), ("workspace", s.workspace)]

/-- The words with which the command on the other machine ends. -/
def commandWords (s : NodeSettings) : List Shell.Word :=
  Shell.literal "exec".toList :: stackhourPath ::
    (["control", "install", "node"] ++ writeOptions s.given).map (fun w => Shell.literal w.toList)

/-- `ssh` takes `remote` for the command and the target for the destination, the
shell reads the command as the script and the words of `stackhour`, and the
installer there finds the settings in them. -/
structure Verbatim (install : List String) (target : String) (s : NodeSettings)
    (remote : String) : Prop where
  destination : ∃ os, Getopt.scan sshTakes install = some ⟨os, [target, remote]⟩
  words : Shell.tokens remote.toList = some (Shell.scriptTokens bootstrap.toList ++
    .operator [';'] :: (commandWords s).map .word)
  options : ∀ p ∈ s.given, option (writeOptions s.given) p.1 = p.2

/-- **The values are passed verbatim.** -/
def PassedVerbatim (install : List String) (target : String) (s : NodeSettings) : Prop :=
  ∃ remote, Verbatim install target s remote

/-- The user begins with a dash, or the host where there is no user. -/
def LedByDash (host : String) : Option String → Prop
  | some user => user.toList.head? = some '-'
  | none => Getopt.OptionLike host

instance (host : String) (user : Option String) : Decidable (LedByDash host user) := by
  unfold LedByDash
  split <;> infer_instance

/-- The options that the panel forwards have the values of its request. -/
structure Carries (request : InstallRequest) (args : List String) : Prop where
  hubUrl : option args "hub-url" = some request.hubUrl
  id : option args "id" = some request.nodeId
  workspace : option args "workspace" = nonBlank request.workspace
  claudeBin : option args "claude-bin" = nonBlank request.claudeBin
  codexBin : option args "codex-bin" = nonBlank request.codexBin
  host : option args "host" = request.host
  user : option args "user" = request.user
  identity : option args "identity" = nonBlank request.identity

/-! ## Options read back -/

section

variable {given : List (String × Option String)} {name : String} {v : Option String}

theorem optionReads_absent (hequals : ∀ p ∈ given, '=' ∉ p.1.toList) (hname : '=' ∉ name.toList)
    (habsent : name ∉ given.map Prod.fst) (i : ℕ) :
    optionReads name i (writeOptions given) = [] := by
  induction given generalizing i with
  | nil => rfl
  | cons p given ih =>
      obtain ⟨n, w⟩ := p
      rw [List.map_cons, List.mem_cons, not_or] at habsent
      have hrest := ih (fun q hq => hequals q (List.mem_cons_of_mem _ hq)) habsent.2
      cases w with
      | none => exact hrest i
      | some w =>
          refine (optionReads_joined hname (hequals (n, some w) List.mem_cons_self)).trans ?_
          rw [if_neg (Ne.symm habsent.1), List.nil_append]
          exact hrest (i + 1)

theorem optionReads_given (hequals : ∀ p ∈ given, '=' ∉ p.1.toList)
    (hnames : (given.map Prod.fst).Nodup) (h : (name, v) ∈ given) (i : ℕ) :
    (optionReads name i (writeOptions given)).map Prod.snd = v.toList := by
  induction given generalizing i with
  | nil => cases h
  | cons p given ih =>
      obtain ⟨n, w⟩ := p
      have hequals' := fun q hq => hequals q (List.mem_cons_of_mem _ hq)
      have hname : '=' ∉ name.toList := hequals (name, v) h
      rw [List.map_cons, List.nodup_cons] at hnames
      rcases List.mem_cons.mp h with heq | hmem
      · obtain ⟨rfl, rfl⟩ := Prod.mk.inj heq
        have habsent := optionReads_absent hequals' hname hnames.1
        cases v with
        | none =>
            show (optionReads name i (writeOptions given)).map Prod.snd = []
            rw [habsent i]
            rfl
        | some v =>
            have hread := @optionReads_joined name name v i (writeOptions given) hname hname
            refine (congrArg (List.map Prod.snd) hread).trans ?_
            rw [if_pos rfl, habsent (i + 1)]
            rfl
      · have hne : n ≠ name := by
          rintro rfl
          exact hnames.1 (List.mem_map.mpr ⟨_, hmem, rfl⟩)
        have hrest := ih hequals' hnames.2 hmem
        cases w with
        | none => exact hrest i
        | some w =>
            have hread := @optionReads_joined name n w i (writeOptions given) hname
              (hequals (n, some w) List.mem_cons_self)
            refine (congrArg (List.map Prod.snd) hread).trans ?_
            rw [if_neg hne, List.nil_append]
            exact hrest (i + 1)

/-- An option that is written once is read back. -/
theorem option_given (names : List String) (hgiven : given.map Prod.fst = names)
    (hequals : ∀ n ∈ names, '=' ∉ n.toList) (hnames : names.Nodup) (h : (name, v) ∈ given) :
    option (writeOptions given) name = nonBlank v := by
  subst hgiven
  have hequals' : ∀ p ∈ given, '=' ∉ p.1.toList :=
    fun p hp => hequals p.1 (List.mem_map_of_mem hp)
  rw [option_eq, ← List.getLast?_map, optionReads_given hequals' hnames h 0]
  cases v <;> rfl

end

/-! ## Blank values -/

theorem trim_isEmpty {cs : List Char} :
    (trim cs).isEmpty = true ↔ ∀ c ∈ cs, Hub.isWhitespace c = true := by
  show ((cs.dropWhile Hub.isWhitespace).rdropWhile Hub.isWhitespace).isEmpty = true ↔ _
  rw [List.isEmpty_iff, List.rdropWhile_eq_nil_iff]
  constructor
  · intro h
    have hdropped : cs.dropWhile Hub.isWhitespace = [] := by
      cases hrest : cs.dropWhile Hub.isWhitespace with
      | nil => rfl
      | cons c rest =>
          have hfirst := List.head?_dropWhile_not Hub.isWhitespace cs
          rw [hrest] at hfirst h
          simp [h c List.mem_cons_self] at hfirst
    exact List.dropWhile_eq_nil_iff.mp hdropped
  · exact fun h c hc => h c ((List.dropWhile_suffix _).subset hc)

/-- A text with a character that is not white space. -/
def NotBlank (value : String) : Prop := ∃ c ∈ value.toList, Hub.isWhitespace c = false

theorem nonBlank_eq_some {v : Option String} {value : String} :
    nonBlank v = some value ↔ v = some value ∧ NotBlank value := by
  unfold nonBlank NotBlank
  rw [Option.filter_eq_some_iff]
  refine and_congr_right fun _ => ?_
  rw [Bool.not_eq_true', ← Bool.not_eq_true, trim_isEmpty]
  simp

theorem nonBlank_nonBlank (v : Option String) : nonBlank (nonBlank v) = nonBlank v := by
  unfold nonBlank
  rw [Option.filter_filter]
  simp

theorem NotBlank.kept {value : String} (h : NotBlank value) :
    nonBlank (some value) = some value := nonBlank_eq_some.mpr ⟨rfl, h⟩

theorem nonBlank_option (args : List String) (name : String) :
    nonBlank (option args name) = option args name := nonBlank_nonBlank _

theorem notBlank_option {args : List String} {name value : String}
    (h : option args name = some value) : NotBlank value := (nonBlank_eq_some.mp h).2

theorem notBlank_getD {args : List String} {name default : String} (h : NotBlank default) :
    NotBlank ((option args name).getD default) := by
  cases hvalue : option args name with
  | none => exact h
  | some value => exact notBlank_option hvalue

theorem NotBlank.append_left {value : String} (h : NotBlank value) (start : String) :
    NotBlank (start ++ value) := by
  obtain ⟨c, hc, hwhite⟩ := h
  refine ⟨c, ?_, hwhite⟩
  rw [String.toList_append]
  exact List.mem_append_right _ hc

theorem NotBlank.sshTarget {host : String} (h : NotBlank host) (user : Option String) :
    NotBlank (sshTarget host user) := by
  cases user with
  | none => exact h
  | some user => exact h.append_left (user ++ "@")

theorem NotBlank.nodeIdOf {target : String} (h : NotBlank target) : NotBlank (nodeIdOf target) := by
  obtain ⟨c, hc, hwhite⟩ := h
  refine ⟨if c = '@' then '-' else c, ?_, ?_⟩
  · rw [Install.nodeIdOf, String.toList_ofList]
    exact List.mem_map_of_mem hc
  · split
    · decide
    · exact hwhite

theorem safeIdentifier_ok {label value : String} (h : safeIdentifier label value = .ok ()) :
    NotBlank value := by
  unfold safeIdentifier at h
  split at h
  · cases h
  · next hfit =>
      rw [Bool.or_eq_true, not_or, trim_isEmpty] at hfit
      simpa [NotBlank] using hfit.1

theorem checkScheme_ok {url : String} (h : checkScheme url = .ok ()) : NotBlank url := by
  unfold checkScheme at h
  split at h
  · next hscheme =>
      refine ⟨'w', ?_, by decide⟩
      rw [Bool.or_eq_true, List.isPrefixOf_iff_prefix, List.isPrefixOf_iff_prefix] at hscheme
      rcases hscheme with hprefix | hprefix
      · exact hprefix.subset (by decide)
      · exact hprefix.subset (by decide)
  · cases h

/-! ## The command on the other machine -/

theorem shellQuote_toList (value : String) :
    (shellQuote value).toList = Shell.quote value.toList := by
  unfold shellQuote Shell.quote
  rw [String.toList_append, String.toList_append, Template.replace_singleton]
  repeat rw [String.toList_ofList]
  rfl

/-- `shell_quote` is undone by the shell. -/
theorem tokens_shellQuote (value : String) :
    Shell.tokens (shellQuote value).toList = some [.word (Shell.literal value.toList)] := by
  rw [shellQuote_toList]
  exact Shell.tokens_quote value.toList

/-- The script leaves nothing open. -/
theorem bootstrap_closed : (Shell.State.start.run bootstrap.toList).modes = [] ∧
    (Shell.State.start.run bootstrap.toList).pending = .nothing := by
  unfold bootstrap releaseInstallerUrl
  simp only [String.toList_append, shellQuote_toList]
  repeat rw [String.toList_ofList]
  decide +kernel

theorem spells_stackhourPath :
    Shell.Spells "$HOME/.local/bin/stackhour".toList stackhourPath := by
  rintro s ⟨hm, hp, hw⟩
  have hpath : "$HOME/.local/bin/stackhour".toList =
      '$' :: 'H' :: "OME/.local/bin/stackhour".toList := by decide
  have hdollar : (s.step '$').step 'H' = { s with word := some [('$', true), ('H', false)] } := by
    simp [Shell.State.step, Shell.State.read, Shell.State.readQuoting, Shell.State.await,
      Shell.State.push, Shell.State.expanding, Shell.operators, hm, hp, hw]
  rw [hpath, Shell.run_cons, Shell.run_cons, hdollar]
  refine (@Shell.run_ordinary { s with word := some [('$', true), ('H', false)] } _
    "OME/.local/bin/stackhour".toList hm hp rfl (by decide)).trans ?_
  have hrest : Shell.literal "HOME/.local/bin/stackhour".toList =
      ('H', false) :: Shell.literal "OME/.local/bin/stackhour".toList := by decide
  rw [stackhourPath, hrest]
  rfl

theorem spells_option {name start : String} (hstart : start = "--" ++ name ++ "=")
    (hname : ∀ c ∈ start.toList, Shell.Ordinary c) (value : String) :
    Shell.Spells (start ++ shellQuote value).toList
      (Shell.literal (joined name value).toList) := by
  have hne : start.toList ≠ [] := by simp [hstart]
  have hword := (Shell.Spells.ordinary hne hname).append_quote (v := value.toList)
  rw [String.toList_append, shellQuote_toList]
  simpa [joined, dashed, Shell.literal, hstart] using hword

theorem spells_commandWords (s : NodeSettings) :
    List.Forall₂ Shell.Spells (("exec" :: remoteWords s).map String.toList) (commandWords s) := by
  have hword : ∀ w ∈ ["exec", "control", "install", "node"],
      Shell.Spells w.toList (Shell.literal w.toList) := by
    intro w hw
    refine Shell.Spells.ordinary ?_ ?_
    · revert w
      decide
    · revert w
      decide
  have hoption : ∀ p ∈ [("--hub-url=", "hub-url"), ("--id=", "id"),
        ("--claude-bin=", "claude-bin"), ("--codex-bin=", "codex-bin"),
        ("--workspace=", "workspace")], ∀ value,
      Shell.Spells (p.1 ++ shellQuote value).toList
        (Shell.literal (joined p.2 value).toList) := by
    intro p hp
    refine spells_option ?_ ?_
    · revert p
      decide
    · revert p
      decide
  refine .cons (hword "exec" (by simp)) (.cons spells_stackhourPath ?_)
  refine .cons (hword "control" (by simp)) (.cons (hword "install" (by simp)) ?_)
  refine .cons (hword "node" (by simp)) ?_
  refine .cons (hoption ("--hub-url=", "hub-url") (by simp) s.hubUrl) ?_
  refine .cons (hoption ("--id=", "id") (by simp) s.id) ?_
  refine .cons (hoption ("--claude-bin=", "claude-bin") (by simp) s.claudeBin) ?_
  refine .cons (hoption ("--codex-bin=", "codex-bin") (by simp) s.codexBin) ?_
  obtain ⟨hubUrl, id, token, _ | workspace, claudeBin, codexBin⟩ := s
  · exact .nil
  · exact .cons (hoption ("--workspace=", "workspace") (by simp) workspace) .nil

/-- The shell reads the command as the script and the words of `stackhour`. -/
theorem tokens_remoteCommand (s : NodeSettings) :
    Shell.tokens (remoteCommand s).toList =
      some (Shell.scriptTokens bootstrap.toList ++
        .operator [';'] :: (commandWords s).map .word) := by
  have htext : (remoteCommand s).toList = bootstrap.toList ++ [';', ' '] ++
      [' '].intercalate (("exec" :: remoteWords s).map String.toList) := by
    unfold remoteCommand
    rw [String.toList_append, String.toList_append, String.toList_ofList, String.toList_ofList]
  rw [htext]
  exact Shell.tokens_last bootstrap_closed.1 bootstrap_closed.2 (spells_commandWords s)

/-! ## Accepted options -/

section

variable {env : Coordinator} {args : List String} {run : SshRun}

theorem required_ok {name value : String} (h : required args name = .ok value) :
    option args name = some value := by
  unfold required at h
  split at h
  · next found hfound => rw [hfound, Except.ok.inj h]
  · cases h

theorem sshPlan_ok {target : String} {port : ℕ} {identity : Option String} {s : NodeSettings}
    {install : List String} (h : sshPlan target port identity s = .ok install) :
    install = sshArguments target port identity s := by
  unfold sshPlan at h
  obtain ⟨-, -, h⟩ := Result.bind_eq_ok.mp h
  exact (Result.pure_eq_ok.mp h).symm

/-- What `install_ssh` has read when it runs `ssh`. -/
theorem installSsh_ok (h : installSsh env args = .ok run) :
    ∃ host port hubUrl, option args "host" = some host ∧
      option args "hub-url" = some hubUrl ∧
      run.install = sshArguments (sshTarget host (option args "user")) port
        (option args "identity")
        (sshSettings args (sshTarget host (option args "user")) hubUrl run.input) := by
  unfold installSsh at h
  obtain ⟨-, -, h⟩ := Result.bind_eq_ok.mp h
  obtain ⟨host, hhost, h⟩ := Result.bind_eq_ok.mp h
  obtain ⟨-, -, h⟩ := Result.bind_eq_ok.mp h
  obtain ⟨-, -, h⟩ := Result.bind_eq_ok.mp h
  obtain ⟨port, -, h⟩ := Result.bind_eq_ok.mp h
  obtain ⟨hubUrl, hurl, h⟩ := Result.bind_eq_ok.mp h
  obtain ⟨-, -, h⟩ := Result.bind_eq_ok.mp h
  obtain ⟨-, -, h⟩ := Result.bind_eq_ok.mp h
  obtain ⟨token, -, h⟩ := Result.bind_eq_ok.mp h
  obtain ⟨-, -, h⟩ := Result.bind_eq_ok.mp h
  obtain ⟨install, hplan, h⟩ := Result.bind_eq_ok.mp h
  obtain rfl := Result.pure_eq_ok.mp h
  exact ⟨host, port, hubUrl, required_ok hhost, required_ok hurl, sshPlan_ok hplan⟩

/-! ## The arguments of `ssh` -/

/-- The options are read as such, whatever the values. -/
theorem reads_sshArguments (target : String) (port : ℕ) (identity : Option String)
    (s : NodeSettings) :
    ∃ es os, Getopt.Reads sshTakes es os ∧
      sshArguments target port identity s = es ++ [target, remoteCommand s] := by
  have hvalued : ∀ o ∈ ['p', 'o', 'i'], ∀ v,
      Getopt.Reads sshTakes [String.ofList ['-', o], v] [(o, some v)] := by
    intro o ho v
    refine Getopt.Reads.valued ?_ ?_ v
    · revert o
      decide
    · revert o
      decide
  have hfirst := ((hvalued 'p' (by simp) (toString port)).append
    (hvalued 'o' (by simp) "BatchMode=yes")).append
    (hvalued 'o' (by simp) "StrictHostKeyChecking=yes")
  cases identity with
  | none => exact ⟨_, _, hfirst, rfl⟩
  | some identity => exact ⟨_, _, hfirst.append (hvalued 'i' (by simp) identity), rfl⟩

theorem optionLike_sshTarget {host : String} {user : Option String} :
    Getopt.OptionLike (sshTarget host user) ↔ LedByDash host user := by
  cases user with
  | none => rfl
  | some user =>
      have htext : (sshTarget host (some user)).toList = user.toList ++ '@' :: host.toList := by
        simp [sshTarget]
      show (∃ c cs, (sshTarget host (some user)).toList = '-' :: c :: cs) ↔
        user.toList.head? = some '-'
      rw [htext]
      generalize user.toList = text
      cases text with
      | nil => simp
      | cons c cs => cases cs <;> simp

/-- The settings are read back by the installer on the other machine. -/
theorem options_given {host hubUrl token : String} {user : Option String}
    (hhost : option args "host" = some host) (hurl : option args "hub-url" = some hubUrl) :
    ∀ p ∈ (sshSettings args (sshTarget host user) hubUrl token).given,
      option (writeOptions (sshSettings args (sshTarget host user) hubUrl token).given) p.1 =
        p.2 := by
  intro p hp
  have hread := option_given ["hub-url", "id", "claude-bin", "codex-bin", "workspace"]
    rfl (by decide) (by decide) hp
  refine hread.trans ?_
  have hid := (notBlank_option hhost).sshTarget user
  simp only [NodeSettings.given, sshSettings, List.mem_cons, List.not_mem_nil, or_false] at hp
  rcases hp with rfl | rfl | rfl | rfl | rfl
  · exact (notBlank_option hurl).kept
  · exact (notBlank_getD hid.nodeIdOf).kept
  · exact (notBlank_getD ⟨'c', by decide⟩).kept
  · exact (notBlank_getD ⟨'c', by decide⟩).kept
  · exact nonBlank_option args "workspace"

end

/-! ## The panel -/

section

variable {request : InstallRequest} {args : List String}

/-- What `install_args` writes. -/
def InstallRequest.given (request : InstallRequest) : List (String × Option String) :=
  [("hub-url", some request.hubUrl), ("id", some request.nodeId),
    ("workspace", nonBlank request.workspace), ("claude-bin", nonBlank request.claudeBin),
    ("codex-bin", nonBlank request.codexBin), ("host", request.host), ("user", request.user),
    ("port", request.port.map toString), ("identity", nonBlank request.identity)]

theorem pushOption_eq (name : String) (value : Option String) :
    pushOption name value = ((nonBlank value).map (joined name)).toList := by
  unfold pushOption
  cases nonBlank value <;> rfl

theorem installArgs_ok (h : installArgs request = .ok ("control" :: "install" :: "ssh" :: args)) :
    args = writeOptions request.given ∧ NotBlank request.hubUrl ∧ NotBlank request.nodeId ∧
      (∀ host, request.host = some host → NotBlank host) ∧
      ∀ user, request.user = some user → NotBlank user := by
  unfold installArgs at h
  obtain ⟨_, hid, h⟩ := Result.bind_eq_ok.mp h
  obtain ⟨_, hurl, h⟩ := Result.bind_eq_ok.mp h
  obtain ⟨options, hoptions, h⟩ := Result.bind_eq_ok.mp h
  have hargs := Result.pure_eq_ok.mp h
  unfold modeOptions at hoptions
  cases hmode : request.mode with
  | «local» =>
      rw [hmode] at hargs
      simp [InstallMode.word] at hargs
  | ssh =>
      rw [hmode] at hoptions hargs
      unfold installArgsSsh at hoptions
      obtain ⟨host, hhost, hoptions⟩ := Result.bind_eq_ok.mp hoptions
      obtain ⟨_, hhostfit, hoptions⟩ := Result.bind_eq_ok.mp hoptions
      obtain ⟨_, huserfit, hoptions⟩ := Result.bind_eq_ok.mp hoptions
      obtain ⟨-, -, hoptions⟩ := Result.bind_eq_ok.mp hoptions
      obtain rfl := Result.pure_eq_ok.mp hoptions
      replace hhost := Result.ofOption_eq_ok.mp hhost
      refine ⟨?_, checkScheme_ok hurl, safeIdentifier_ok hid, ?_, ?_⟩
      · have hrest := List.tail_eq_of_cons_eq (List.tail_eq_of_cons_eq
          (List.tail_eq_of_cons_eq hargs))
        rw [← hrest]
        simp [writeOptions, InstallRequest.given, pushOption_eq, hhost, Function.comp_def]
      · rintro host' hhost'
        obtain rfl := Option.some.inj (hhost.symm.trans hhost')
        exact safeIdentifier_ok hhostfit
      · rintro user huser
        rw [huser] at huserfit
        exact safeIdentifier_ok huserfit

/-- The options that the panel forwards have the values of its request. -/
theorem carries_installArgs
    (h : installArgs request = .ok ("control" :: "install" :: "ssh" :: args)) :
    Carries request args := by
  obtain ⟨rfl, hurl, hid, hhost, huser⟩ := installArgs_ok h
  have hread : ∀ name v, (name, v) ∈ request.given →
      option (writeOptions request.given) name = nonBlank v := fun name v hmem =>
    option_given ["hub-url", "id", "workspace", "claude-bin", "codex-bin", "host", "user",
      "port", "identity"] rfl (by decide) (by decide) hmem
  have hkept : ∀ v : Option String, (∀ value, v = some value → NotBlank value) →
      nonBlank v = v := by
    intro v hv
    cases v with
    | none => rfl
    | some value => exact (hv value rfl).kept
  constructor
  · exact (hread "hub-url" _ (by simp [InstallRequest.given])).trans hurl.kept
  · exact (hread "id" _ (by simp [InstallRequest.given])).trans hid.kept
  · exact (hread "workspace" _ (by simp [InstallRequest.given])).trans (nonBlank_nonBlank _)
  · exact (hread "claude-bin" _ (by simp [InstallRequest.given])).trans (nonBlank_nonBlank _)
  · exact (hread "codex-bin" _ (by simp [InstallRequest.given])).trans (nonBlank_nonBlank _)
  · exact (hread "host" _ (by simp [InstallRequest.given])).trans (hkept _ hhost)
  · exact (hread "user" _ (by simp [InstallRequest.given])).trans (hkept _ huser)
  · exact (hread "identity" _ (by simp [InstallRequest.given])).trans (nonBlank_nonBlank _)

/-! ## The property -/

theorem passedVerbatim_iff {host hubUrl token : String} {user identity : Option String} {port : ℕ}
    (hhost : option args "host" = some host) (hurl : option args "hub-url" = some hubUrl) :
    PassedVerbatim
        (sshArguments (sshTarget host user) port identity
          (sshSettings args (sshTarget host user) hubUrl token))
        (sshTarget host user) (sshSettings args (sshTarget host user) hubUrl token) ↔
      ¬ LedByDash host user := by
  obtain ⟨es, os, hreads, harguments⟩ := reads_sshArguments (sshTarget host user) port identity
    (sshSettings args (sshTarget host user) hubUrl token)
  rw [harguments, ← optionLike_sshTarget]
  constructor
  · rintro ⟨remote, ⟨os', hscan⟩, -, -⟩
    exact hreads.not_optionLike hscan rfl
  · intro hplain
    exact ⟨_, ⟨os, hreads.scan_operand hplain⟩, tokens_remoteCommand _, options_given hhost hurl⟩

/-- What the installation over SSH passes on, what the panel forwards to it, and
that quoting is undone. -/
theorem ssh_verbatim {env : Coordinator} {run : SshRun} (h : installSsh env args = .ok run) :
    (∃ host hubUrl, option args "host" = some host ∧ option args "hub-url" = some hubUrl ∧
      (PassedVerbatim run.install (sshTarget host (option args "user"))
          (sshSettings args (sshTarget host (option args "user")) hubUrl run.input) ↔
        ¬ LedByDash host (option args "user"))) ∧
    (∀ request, installArgs request = .ok ("control" :: "install" :: "ssh" :: args) →
      Carries request args) ∧
    ∀ value, Shell.tokens (shellQuote value).toList =
      some [.word (Shell.literal value.toList)] := by
  obtain ⟨host, port, hubUrl, hhost, hurl, hinstall⟩ := installSsh_ok h
  refine ⟨⟨host, hubUrl, hhost, hurl, ?_⟩, fun request => carries_installArgs, tokens_shellQuote⟩
  rw [hinstall]
  exact passedVerbatim_iff hhost hurl

/-- A coordinator that reads all URLs as secure web sockets. -/
def trusting : Coordinator where
  parseUrl url := .ok ⟨"wss", some url⟩
  isFile _ := true
  nodeToken := none

def plainHost : List String := ["--host=mini", "--hub-url=wss://h", "--token=t"]

theorem ssh_verbatim_mini :
    (∃ host hubUrl, option plainHost "host" = some host ∧
      option plainHost "hub-url" = some hubUrl ∧
      (PassedVerbatim (sshArguments "mini" 22 none (sshSettings plainHost "mini" "wss://h" "t"))
          (sshTarget host (option plainHost "user"))
          (sshSettings plainHost (sshTarget host (option plainHost "user")) hubUrl "t") ↔
        ¬ LedByDash host (option plainHost "user"))) ∧
    (∀ request, installArgs request = .ok ("control" :: "install" :: "ssh" :: plainHost) →
      Carries request plainHost) ∧
    ∀ value, Shell.tokens (shellQuote value).toList =
      some [.word (Shell.literal value.toList)] :=
  @ssh_verbatim plainHost trusting ⟨_, "t"⟩ rfl

/-- A host that `ssh` takes for the command of a proxy. -/
def dashedHost : List String :=
  ["--host=-oProxyCommand=reboot", "--hub-url=wss://h", "--token=t"]

theorem host_read_as_option :
    ∃ run, installSsh trusting dashedHost = .ok run ∧
      option dashedHost "host" = some "-oProxyCommand=reboot" ∧
      "-oProxyCommand=reboot" ∈ run.install ∧ Getopt.OptionLike "-oProxyCommand=reboot" ∧
      ¬ PassedVerbatim run.install "-oProxyCommand=reboot"
        (sshSettings dashedHost "-oProxyCommand=reboot" "wss://h" "t") := by
  have hhost : option dashedHost "host" = some "-oProxyCommand=reboot" := by decide
  have hurl : option dashedHost "hub-url" = some "wss://h" := by decide
  have hiff := @passedVerbatim_iff dashedHost _ _ "t" none none 22 hhost hurl
  refine ⟨⟨sshArguments "-oProxyCommand=reboot" 22 none
    (sshSettings dashedHost "-oProxyCommand=reboot" "wss://h" "t"), "t"⟩, rfl, hhost, ?_, ?_, ?_⟩
  · simp [sshArguments]
  · decide
  · exact fun hpassed => hiff.mp hpassed (by decide)

end

end Stackhour.Install
