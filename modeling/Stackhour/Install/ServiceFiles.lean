import Stackhour.Lib.Result
import Stackhour.Lib.Template
import Stackhour.Lib.UnitFile
import Stackhour.Lib.Xml
import Mathlib.Tactic.Common

/-!
# Service files

The installers of the tracker and of the control plane write a unit for systemd, or
a property list for launchd.
-/

namespace Stackhour.Install

-- a statement about the characters of a text is decided along the text
attribute [local instance (high)] List.decidableBAll Option.decidableForallMem

/-! ## Units -/

/-- `systemd_quote`, with the message of its module. -/
def quoteWith (message value : String) : Except String String :=
  if value.toList.contains '\r' || value.toList.contains '\n' then .error message
  else
    .ok ("\"" ++ String.ofList (Template.replace ['"'] ['\\', '"']
      (Template.replace ['\\'] ['\\', '\\'] value.toList)) ++ "\"")

def systemdQuote : String → Except String String :=
  quoteWith "service executable path contains a newline"

def controlQuote : String → Except String String := quoteWith "service value contains a newline"

/-- What a role of the tracker puts in its unit. -/
structure UnitRole where
  description : String
  command : String
  restartSec : String

def unitRole (role : String) : Except String UnitRole :=
  if role = "server" then .ok ⟨"Stackhour coding time-tracking server", "serve", "5"⟩
  else if role = "agent" then .ok ⟨"Stackhour coding time-tracking agent", "agent", "10"⟩
  else .error "service role must be server or agent"

/-- The value of PATH. -/
def unitPath (pathDir : String) : String := pathDir ++ ":/usr/local/bin:/usr/bin:/bin"

/-- `systemd_unit`. -/
def systemdUnit (role exe pathDir : String) : Except String String := do
  let r ← unitRole role
  let pathEnv ← systemdQuote ("PATH=" ++ unitPath pathDir)
  let exec ← systemdQuote exe
  pure ("[Unit]\nDescription=" ++ r.description ++
    "\nAfter=network-online.target\nWants=network-online.target\n\n[Service]\nEnvironment=" ++
    pathEnv ++ "\nExecStart=" ++ exec ++ " " ++ r.command ++ "\nRestart=always\nRestartSec=" ++
    r.restartSec ++ "\n\n[Install]\nWantedBy=default.target\n")

def controlRole (role : String) : Except String String :=
  if role = "hub" then .ok "hub"
  else if role = "node" then .ok "node"
  else .error "control service role must be hub or node"

/-- `unit`. -/
def controlUnit (role executable config pathEnv : String) : Except String String := do
  let command ← controlRole role
  let executable ← controlQuote executable
  let config ← controlQuote ("STACKHOUR_CONFIG=" ++ config)
  let pathEnv ← controlQuote ("PATH=" ++ pathEnv)
  pure ("[Unit]\nDescription=Stackhour control " ++ role ++
    "\nAfter=network-online.target\nWants=network-online.target\n\n[Service]\nEnvironment=" ++
    config ++ "\nEnvironment=" ++ pathEnv ++ "\nExecStart=" ++ executable ++ " control " ++ command ++
    "\nRestart=always\nRestartSec=5\n\n[Install]\nWantedBy=default.target\n")

/-! ## Property lists -/

/-- `xml` of the tracker. -/
def xml (value : String) : String :=
  String.ofList (value.toList.foldl (fun out ch => out ++
    match ch with
    | '&' => "&amp;".toList
    | '<' => "&lt;".toList
    | '>' => "&gt;".toList
    | '"' => "&quot;".toList
    | '\'' => "&apos;".toList
    | c => [c]) [])

/-- `xml` of the control plane. -/
def controlXml (value : String) : String :=
  String.ofList (Template.replace ['\''] "&apos;".toList
    (Template.replace ['"'] "&quot;".toList
      (Template.replace ['>'] "&gt;".toList
        (Template.replace ['<'] "&lt;".toList
          (Template.replace ['&'] "&amp;".toList value.toList)))))

/-- How both documents begin. -/
def plistHead : String :=
  "<?xml version=\"1.0\" encoding=\"UTF-8\"?>\n" ++
  "<!DOCTYPE plist PUBLIC \"-//Apple//DTD PLIST 1.0//EN\" " ++
  "\"https://www.apple.com/DTDs/" ++ "PropertyList-1.0.dtd\">\n" ++
  "<plist version=\"1.0\">"

/-- The value of PATH. -/
def plistPath (pathDir : String) : String :=
  pathDir ++ ":/opt/homebrew/bin:/usr/local/bin:/usr/bin:/bin"

/-- The document of the tracker up to the executable. -/
def plistOpening : String :=
  plistHead ++ "\n<dict>\n" ++
  "  <key>Label</key><string>" ++ "com.stackhour.agent</string>\n" ++
  "  <key>ProgramArguments</key><array>\n" ++
  "    <string>"

def plistMiddle : String :=
  "<string>agent</string>\n" ++
  "  </array>\n" ++
  "  <key>EnvironmentVariables</key><dict>\n" ++
  "    <key>PATH</key><string>"

def plistClosing : String :=
  "\n  </dict>\n" ++
  "  <key>RunAtLoad</key><true/>\n" ++ "  <key>KeepAlive</key><true/>\n" ++
  "  <key>StandardOutPath</key>" ++ "<string>/tmp/stackhour-agent.log</string>\n" ++
  "  <key>StandardErrorPath</key>" ++ "<string>/tmp/stackhour-agent.log</string>\n" ++
  "</dict>\n</plist>"

/-- `launchd_plist` of the tracker. -/
def launchdPlist (exe pathDir : String) : String :=
  plistOpening ++ xml exe ++ "</string>" ++ plistMiddle ++ xml (plistPath pathDir) ++ "</string>" ++
    plistClosing ++ "\n"

/-- The document of the control plane up to the executable. -/
def controlOpening (role : String) : String :=
  plistHead ++ "<dict>\n" ++
  "<key>Label</key><string>" ++ controlXml ("com.stackhour.control-" ++ role) ++ "</string>\n" ++
  "<key>ProgramArguments</key><array><string>"

def controlMiddle (command : String) : String :=
  "<string>control</string><string>" ++ command ++ "</string></array>\n" ++
  "<key>EnvironmentVariables</key><dict>" ++ "<key>STACKHOUR_CONFIG</key><string>"

def controlClosing (role : String) : String :=
  "</dict>\n" ++
  "<key>RunAtLoad</key><true/>" ++ "<key>KeepAlive</key><true/>\n" ++
  "<key>StandardOutPath</key>" ++ "<string>/tmp/stackhour-control-" ++ role ++ ".log</string>\n" ++
  "<key>StandardErrorPath</key>" ++ "<string>/tmp/stackhour-control-" ++ role ++ ".log</string>\n" ++
  "</dict></plist>"

/-- `launchd_plist` of the control plane. -/
def controlPlist (role executable config pathEnv : String) : Except String String := do
  let command ← controlRole role
  pure (controlOpening role ++ controlXml executable ++ "</string>" ++ controlMiddle command ++
    controlXml config ++ "</string>" ++ "<key>PATH</key><string>" ++ controlXml pathEnv ++
    "</string>" ++ controlClosing role ++ "\n")

/-! ## Decoding -/

/-- Whatever specifiers and variables stand for, the unit sets this environment and
starts this command. -/
def UnitDecodes (text : String) (environment command : List String) : Prop :=
  ∀ m, UnitFile.setEnvironment m text.toList = some (environment.map String.toList) ∧
    UnitFile.startCommand m text.toList = some (command.map String.toList)

/-- The document has these elements with a text, in this order. -/
def PlistDecodes (text : String) (elements : List (String × String)) : Prop :=
  ∃ pieces, Xml.parse text.toList = some pieces ∧
    Xml.leaves pieces = elements.map (fun e => (e.1.toList, e.2.toList))

/-- What the document of the tracker says. -/
def plistElements (exe path : String) : List (String × String) :=
  [("key", "Label"), ("string", "com.stackhour.agent"), ("key", "ProgramArguments"),
    ("string", exe), ("string", "agent"), ("key", "EnvironmentVariables"), ("key", "PATH"),
    ("string", path), ("key", "RunAtLoad"), ("key", "KeepAlive"), ("key", "StandardOutPath"),
    ("string", "/tmp/stackhour-agent.log"), ("key", "StandardErrorPath"),
    ("string", "/tmp/stackhour-agent.log")]

/-- What the document of the control plane says. -/
def controlElements (role executable config path : String) : List (String × String) :=
  [("key", "Label"), ("string", "com.stackhour.control-" ++ role), ("key", "ProgramArguments"),
    ("string", executable), ("string", "control"), ("string", role),
    ("key", "EnvironmentVariables"), ("key", "STACKHOUR_CONFIG"), ("string", config),
    ("key", "PATH"), ("string", path), ("key", "RunAtLoad"), ("key", "KeepAlive"),
    ("key", "StandardOutPath"), ("string", "/tmp/stackhour-control-" ++ role ++ ".log"),
    ("key", "StandardErrorPath"), ("string", "/tmp/stackhour-control-" ++ role ++ ".log")]

/-- A text of XML characters without carriage returns. -/
def XmlText (value : String) : Prop := ∀ c ∈ value.toList, Xml.Stays c

/-! ### Quoting and escaping -/

theorem quoteWith_ok {message value text : String} (h : quoteWith message value = .ok text) :
    text.toList = UnitFile.quote value.toList ∧ '\n' ∉ value.toList := by
  unfold quoteWith at h
  split at h
  · cases h
  · next hline =>
      rw [Bool.or_eq_true, not_or] at hline
      obtain rfl := Except.ok.inj h
      refine ⟨?_, by simpa using hline.2⟩
      have hchar : ∀ c : Char, (if c = '\\' then ['\\', '\\'] else [c]).flatMap
          (fun c => if c = '"' then ['\\', '"'] else [c]) =
          if c = '\\' ∨ c = '"' then ['\\', c] else [c] := by
        intro c
        by_cases hslash : c = '\\'
        · subst hslash
          decide
        · by_cases hquote : c = '"'
          · subst hquote
            decide
          · simp [hslash, hquote]
      rw [String.toList_append, String.toList_append, String.toList_ofList, String.toList_ofList,
        Template.replace_singleton, Template.replace_singleton, List.flatMap_assoc]
      simp only [hchar]
      rfl

theorem escapeChar_other {c : Char} (h : c ∉ ['&', '<', '>', '"', '\'']) :
    Xml.escapeChar c = [c] := by
  refine Xml.escapeChar_eq_self ?_
  rintro e he rfl
  refine h ?_
  revert e
  decide

theorem xml_toList (value : String) : (xml value).toList = Xml.escape value.toList := by
  have hfoldl : ∀ (f : Char → List Char) (v out : List Char),
      v.foldl (fun out c => out ++ f c) out = out ++ v.flatMap f := by
    intro f v
    induction v with
    | nil => simp
    | cons c v ih =>
        intro out
        rw [List.foldl_cons, ih, List.flatMap_cons, List.append_assoc]
  unfold xml Xml.escape
  rw [String.toList_ofList]
  refine (hfoldl _ _ _).trans (congrArg (List.flatMap · value.toList) (funext fun c => ?_))
  split
  · decide
  · decide
  · decide
  · decide
  · decide
  · next hamp hlt hgt hquot hapos =>
      rw [escapeChar_other]
      simp only [List.mem_cons, List.not_mem_nil, or_false, not_or]
      exact ⟨hamp, hlt, hgt, hquot, hapos⟩

theorem controlXml_toList (value : String) :
    (controlXml value).toList = Xml.escape value.toList := by
  unfold controlXml Xml.escape
  rw [String.toList_ofList]
  simp only [Template.replace_singleton, List.flatMap_assoc]
  refine congrArg (List.flatMap · value.toList) (funext fun c => ?_)
  by_cases hmem : c ∈ ['&', '<', '>', '"', '\'']
  · revert c
    decide
  · rw [escapeChar_other hmem]
    simp only [List.mem_cons, List.not_mem_nil, or_false, not_or] at hmem
    obtain ⟨hamp, hlt, hgt, hquot, hapos⟩ := hmem
    simp only [if_neg hamp, if_neg hlt, if_neg hgt, if_neg hquot, if_neg hapos,
      List.flatMap_singleton]

/-! ### The plists -/

/-- An element with a text. -/
def element (indent name text : String) : List Xml.Piece :=
  [⟨indent.toList, name.toList⟩, ⟨text.toList, '/' :: name.toList⟩]

def headPieces : List Xml.Piece :=
  [⟨[], "?xml version=\"1.0\" encoding=\"UTF-8\"?".toList⟩,
    ⟨['\n'], "!DOCTYPE plist PUBLIC \"-//Apple//DTD PLIST 1.0//EN\" ".toList ++
      "\"https://www.apple.com/DTDs/".toList ++ "PropertyList-1.0.dtd\"".toList⟩,
    ⟨['\n'], "plist version=\"1.0\"".toList⟩]

def openingPieces : List Xml.Piece :=
  ⟨['\n'], "dict".toList⟩ :: (element "\n  " "key" "Label" ++
    element "" "string" "com.stackhour.agent" ++ element "\n  " "key" "ProgramArguments" ++
    [⟨[], "array".toList⟩, ⟨"\n    ".toList, "string".toList⟩])

def middlePieces : List Xml.Piece :=
  element "" "string" "agent" ++ ⟨"\n  ".toList, "/array".toList⟩ ::
    (element "\n  " "key" "EnvironmentVariables" ++ ⟨[], "dict".toList⟩ ::
      (element "\n    " "key" "PATH" ++ [⟨[], "string".toList⟩]))

def closingPieces : List Xml.Piece :=
  ⟨"\n  ".toList, "/dict".toList⟩ :: (element "\n  " "key" "RunAtLoad" ++
    ⟨[], "true/".toList⟩ :: (element "\n  " "key" "KeepAlive" ++ ⟨[], "true/".toList⟩ ::
      (element "\n  " "key" "StandardOutPath" ++ element "" "string" "/tmp/stackhour-agent.log" ++
        element "\n  " "key" "StandardErrorPath" ++
        element "" "string" "/tmp/stackhour-agent.log" ++
        [⟨['\n'], "/dict".toList⟩, ⟨['\n'], "/plist".toList⟩])))

/-- The pieces of the document of the tracker. -/
def plistPieces (exe path : List Char) : List Xml.Piece :=
  headPieces ++ openingPieces ++ ⟨exe, "/string".toList⟩ :: (middlePieces ++
    ⟨path, "/string".toList⟩ :: closingPieces)

def controlOpeningPieces (role : String) : List Xml.Piece :=
  ⟨[], "dict".toList⟩ :: (element "\n" "key" "Label" ++
    element "" "string" ("com.stackhour.control-" ++ role) ++
    element "\n" "key" "ProgramArguments" ++ [⟨[], "array".toList⟩, ⟨[], "string".toList⟩])

def controlMiddlePieces (command : String) : List Xml.Piece :=
  element "" "string" "control" ++ element "" "string" command ++ ⟨[], "/array".toList⟩ ::
    (element "\n" "key" "EnvironmentVariables" ++ ⟨[], "dict".toList⟩ ::
      (element "" "key" "STACKHOUR_CONFIG" ++ [⟨[], "string".toList⟩]))

def controlClosingPieces (role : String) : List Xml.Piece :=
  ⟨[], "/dict".toList⟩ :: (element "\n" "key" "RunAtLoad" ++ ⟨[], "true/".toList⟩ ::
    (element "" "key" "KeepAlive" ++ ⟨[], "true/".toList⟩ ::
      (element "\n" "key" "StandardOutPath" ++
        element "" "string" ("/tmp/stackhour-control-" ++ role ++ ".log") ++
        element "\n" "key" "StandardErrorPath" ++
        element "" "string" ("/tmp/stackhour-control-" ++ role ++ ".log") ++
        [⟨['\n'], "/dict".toList⟩, ⟨[], "/plist".toList⟩])))

def pathPieces : List Xml.Piece := element "" "key" "PATH" ++ [⟨[], "string".toList⟩]

/-- The pieces of the document of the control plane. -/
def controlPieces (role : String) (executable config path : List Char) : List Xml.Piece :=
  headPieces ++ controlOpeningPieces role ++ ⟨executable, "/string".toList⟩ ::
    (controlMiddlePieces role ++ ⟨config, "/string".toList⟩ ::
      (pathPieces ++ ⟨path, "/string".toList⟩ :: controlClosingPieces role))

-- the literals are rewritten to their characters before what they hold is decided
theorem plistHead_toList : plistHead.toList = headPieces.flatMap Xml.Piece.render := by
  unfold plistHead headPieces
  simp only [String.toList_append]
  repeat rw [String.toList_ofList]
  rfl

/-- The end of a string. -/
theorem render_string (text : List Char) :
    Xml.Piece.render ⟨text, "/string".toList⟩ = Xml.escape text ++ "</string>".toList := by
  have hend : "</string>".toList = '<' :: ("/string".toList ++ ['>']) := by decide
  rw [hend]
  rfl

set_option maxRecDepth 1024 in
theorem plistClosing_toList : plistClosing.toList = closingPieces.flatMap Xml.Piece.render := by
  unfold plistClosing closingPieces element
  simp only [String.toList_append]
  repeat rw [String.toList_ofList]
  rfl

theorem launchdPlist_toList (exe pathDir : String) :
    (launchdPlist exe pathDir).toList =
      (plistPieces exe.toList (plistPath pathDir).toList).flatMap Xml.Piece.render ++ ['\n'] := by
  have hopening : plistOpening.toList =
      plistHead.toList ++ openingPieces.flatMap Xml.Piece.render := by
    have hrest : ("\n<dict>\n".toList ++ "  <key>Label</key><string>".toList ++
        "com.stackhour.agent</string>\n".toList ++ "  <key>ProgramArguments</key><array>\n".toList ++
        "    <string>".toList) = openingPieces.flatMap Xml.Piece.render := by
      unfold openingPieces element
      repeat rw [String.toList_ofList]
      rfl
    rw [← hrest]
    simp only [plistOpening, String.toList_append, List.append_assoc]
  have hmiddle : plistMiddle.toList = middlePieces.flatMap Xml.Piece.render := by
    unfold plistMiddle middlePieces element
    simp only [String.toList_append]
    repeat rw [String.toList_ofList]
    rfl
  have hnewline : "\n".toList = ['\n'] := by decide
  unfold launchdPlist plistPieces
  simp only [String.toList_append, List.flatMap_append, List.flatMap_cons, render_string,
    List.append_assoc]
  rw [hopening, plistHead_toList, hmiddle, plistClosing_toList, xml_toList, xml_toList, hnewline,
    List.append_assoc]

theorem controlRole_ok {role command : String} (h : controlRole role = .ok command) :
    command = role ∧ role ∈ ["hub", "node"] := by
  unfold controlRole at h
  split at h
  · next hrole =>
      cases h
      exact ⟨hrole.symm, by simp [hrole]⟩
  · split at h
    · next hrole =>
        cases h
        exact ⟨hrole.symm, by simp [hrole]⟩
    · cases h

theorem controlOpening_toList : ∀ role ∈ ["hub", "node"], (controlOpening role).toList =
    plistHead.toList ++ (controlOpeningPieces role).flatMap Xml.Piece.render := by
  have hrest : ∀ role ∈ ["hub", "node"], "<dict>\n".toList ++ "<key>Label</key><string>".toList ++
      Xml.escape ("com.stackhour.control-" ++ role).toList ++ "</string>\n".toList ++
      "<key>ProgramArguments</key><array><string>".toList =
      (controlOpeningPieces role).flatMap Xml.Piece.render := by
    unfold controlOpeningPieces element
    simp only [List.forall_mem_cons, String.toList_append]
    repeat rw [String.toList_ofList]
    exact ⟨rfl, rfl, by simp⟩
  intro role hrole
  rw [← hrest role hrole]
  unfold controlOpening
  simp only [String.toList_append, controlXml_toList, List.append_assoc]

theorem controlMiddle_toList : ∀ role ∈ ["hub", "node"],
    (controlMiddle role).toList = (controlMiddlePieces role).flatMap Xml.Piece.render := by
  unfold controlMiddle controlMiddlePieces element
  simp only [List.forall_mem_cons, String.toList_append]
  repeat rw [String.toList_ofList]
  exact ⟨rfl, rfl, by simp⟩

set_option maxRecDepth 1024 in
theorem controlClosing_toList : ∀ role ∈ ["hub", "node"],
    (controlClosing role).toList = (controlClosingPieces role).flatMap Xml.Piece.render := by
  unfold controlClosing controlClosingPieces element
  simp only [List.forall_mem_cons, String.toList_append]
  repeat rw [String.toList_ofList]
  exact ⟨rfl, rfl, by simp⟩

theorem controlPlist_toList {role executable config pathEnv text : String}
    (h : controlPlist role executable config pathEnv = .ok text) :
    role ∈ ["hub", "node"] ∧ text.toList =
      (controlPieces role executable.toList config.toList pathEnv.toList).flatMap
        Xml.Piece.render ++ ['\n'] := by
  unfold controlPlist at h
  obtain ⟨command, hcommand, h⟩ := Result.bind_eq_ok.mp h
  obtain ⟨rfl, hrole⟩ := controlRole_ok hcommand
  obtain rfl := Result.pure_eq_ok.mp h
  have hpath : "<key>PATH</key><string>".toList = pathPieces.flatMap Xml.Piece.render := by
    unfold pathPieces element
    repeat rw [String.toList_ofList]
    rfl
  have hnewline : "\n".toList = ['\n'] := by decide
  refine ⟨hrole, ?_⟩
  unfold controlPieces
  simp only [String.toList_append, List.flatMap_append, List.flatMap_cons, render_string,
    List.append_assoc]
  rw [controlOpening_toList _ hrole, plistHead_toList, controlMiddle_toList _ hrole,
    controlClosing_toList _ hrole, controlXml_toList, controlXml_toList, controlXml_toList, hpath,
    hnewline, List.append_assoc]

/-! ### Decoding of the plists -/

theorem plain_string {value : String} (h : XmlText value) :
    (⟨value.toList, "/string".toList⟩ : Xml.Piece).Plain := by
  refine ⟨h, ?_, ?_⟩
  · show ∀ c ∈ "/string".toList, Xml.Stays c
    decide
  · show "/string".toList.foldlM Xml.markupStep none = some none
    decide

theorem XmlText.append {a b : String} (ha : XmlText a) (hb : XmlText b) : XmlText (a ++ b) := by
  intro c hc
  rw [String.toList_append, List.mem_append] at hc
  exact hc.elim (ha c) (hb c)

theorem headPieces_plain : ∀ p ∈ headPieces, p.Plain := by
  unfold headPieces
  repeat rw [String.toList_ofList]
  decide

theorem launchdPlist_decodes {exe pathDir : String} (hexe : XmlText exe) (hpath : XmlText pathDir) :
    PlistDecodes (launchdPlist exe pathDir) (plistElements exe (plistPath pathDir)) := by
  have hconstant : ∀ p ∈ openingPieces ++ middlePieces ++ closingPieces, p.Plain := by
    unfold openingPieces middlePieces closingPieces element
    repeat rw [String.toList_ofList]
    decide
  have hvalue : XmlText (plistPath pathDir) := hpath.append (by unfold XmlText; decide)
  have hnest : ((plistPieces exe.toList (plistPath pathDir).toList).map Xml.Piece.markup).foldlM
      Xml.nestStep [] = some [] := by
    unfold plistPieces headPieces openingPieces middlePieces closingPieces element
    repeat rw [String.toList_ofList]
    rfl
  have hleaves : Xml.leaves (plistPieces exe.toList (plistPath pathDir).toList) =
      (plistElements exe (plistPath pathDir)).map (fun e => (e.1.toList, e.2.toList)) := by
    unfold plistPieces plistElements headPieces openingPieces middlePieces closingPieces element
    simp only [List.map_cons, List.map_nil]
    repeat rw [String.toList_ofList]
    rfl
  refine ⟨plistPieces exe.toList (plistPath pathDir).toList, ?_, hleaves⟩
  rw [launchdPlist_toList]
  refine Xml.parse_render ?_ hnest
  unfold plistPieces
  simp only [List.forall_mem_append, List.forall_mem_cons] at hconstant ⊢
  obtain ⟨⟨hopening, hmiddle⟩, hclosing⟩ := hconstant
  exact ⟨⟨headPieces_plain, hopening⟩, plain_string hexe, hmiddle, plain_string hvalue, hclosing⟩

theorem controlPlist_decodes {role executable config pathEnv text : String}
    (h : controlPlist role executable config pathEnv = .ok text) (hexecutable : XmlText executable)
    (hconfig : XmlText config) (hpath : XmlText pathEnv) :
    PlistDecodes text (controlElements role executable config pathEnv) := by
  obtain ⟨hrole, htext⟩ := controlPlist_toList h
  have hconstant : ∀ role ∈ ["hub", "node"], ∀ p ∈ controlOpeningPieces role ++
      controlMiddlePieces role ++ pathPieces ++ controlClosingPieces role, p.Plain := by
    unfold controlOpeningPieces controlMiddlePieces pathPieces controlClosingPieces element
    simp only [String.toList_append]
    repeat rw [String.toList_ofList]
    decide
  have hnest : ((controlPieces role executable.toList config.toList pathEnv.toList).map
      Xml.Piece.markup).foldlM Xml.nestStep [] = some [] := by
    unfold controlPieces headPieces controlOpeningPieces controlMiddlePieces pathPieces
      controlClosingPieces element
    simp only [String.toList_append]
    repeat rw [String.toList_ofList]
    rfl
  have hleaves : Xml.leaves (controlPieces role executable.toList config.toList pathEnv.toList) =
      (controlElements role executable config pathEnv).map (fun e => (e.1.toList, e.2.toList)) := by
    unfold controlPieces controlElements headPieces controlOpeningPieces controlMiddlePieces
      pathPieces controlClosingPieces element
    simp only [List.map_cons, List.map_nil, String.toList_append]
    repeat rw [String.toList_ofList]
    rfl
  refine ⟨controlPieces role executable.toList config.toList pathEnv.toList, ?_, hleaves⟩
  rw [htext]
  refine Xml.parse_render ?_ hnest
  replace hconstant := hconstant role hrole
  unfold controlPieces
  simp only [List.forall_mem_append, List.forall_mem_cons] at hconstant ⊢
  obtain ⟨⟨⟨hopening, hmiddle⟩, hkey⟩, hclosing⟩ := hconstant
  exact ⟨⟨headPieces_plain, hopening⟩, plain_string hexecutable, hmiddle,
    plain_string hconfig, hkey, plain_string hpath, hclosing⟩

/-! ### Decoding of the units -/

open UnitFile (Line)

/-- The lines of a unit, with the quoted assignments and command. -/
def unitLines (description restartSec : List Char) (environment : List (List Char))
    (exe : List Char) (arguments : List (List Char)) : List Line :=
  [.header "Unit".toList, .assign "Description".toList description,
    .assign "After".toList "network-online.target".toList,
    .assign "Wants".toList "network-online.target".toList, .blank, .header "Service".toList] ++
  ((environment.map UnitFile.quote).map (.assign "Environment".toList) ++
    [.assign "ExecStart".toList ([' '].intercalate (UnitFile.quote exe :: arguments)),
      .assign "Restart".toList "always".toList, .assign "RestartSec".toList restartSec, .blank,
      .header "Install".toList, .assign "WantedBy".toList "default.target".toList])

/-- A word that is written without quotes and means itself. -/
structure Bare (w : List Char) : Prop where
  ne_nil : w ≠ []
  ordinary : ∀ c ∈ w, UnitFile.Ordinary c
  specifier : UnitFile.NoSpecifier w
  reference : UnitFile.NoReference w

theorem bare_of_letters {w : List Char} (hne : w ≠ []) (h : ∀ c ∈ w, c.isLower = true) :
    Bare w where
  ne_nil := hne
  ordinary c hc := by
    have hlower : ∀ d ∈ [' ', '\t', '\n', '\r'] ++ ['"', '\'', '\\'], d.isLower = false := by
      decide
    have hother : c ∉ [' ', '\t', '\n', '\r'] ++ ['"', '\'', '\\'] := by
      intro hmem
      have hfalse := hlower c hmem
      rw [h c hc] at hfalse
      cases hfalse
    rw [List.mem_append, not_or] at hother
    exact ⟨by simpa [UnitFile.isBlank] using hother.1, hother.2⟩
  specifier hmem := absurd (h _ hmem) (by decide)
  reference := UnitFile.NoReference.of_not_mem fun hmem => absurd (h _ hmem) (by decide)

section

variable {description restartSec exe : List Char} {environment arguments : List (List Char)}

theorem unitLines_plain (hdescription : Line.PlainValue description)
    (hrestart : Line.PlainValue restartSec) (henvironment : ∀ v ∈ environment, '\n' ∉ v)
    (hexe : '\n' ∉ exe) (harguments : ∀ a ∈ arguments, Bare a) :
    ∀ l ∈ unitLines description restartSec environment exe arguments, l.Plain := by
  have hkey : ∀ key ∈ ["Description", "After", "Wants", "Environment", "ExecStart", "Restart",
      "RestartSec", "WantedBy"],
      key.toList ≠ [] ∧ ∀ c ∈ key.toList, Line.keyChar c = true := by decide
  have hassign : ∀ key ∈ ["Description", "After", "Wants", "Environment", "ExecStart", "Restart",
      "RestartSec", "WantedBy"], ∀ v, Line.PlainValue v → (Line.assign key.toList v).Plain :=
    fun key hmem v hv => ⟨(hkey key hmem).1, (hkey key hmem).2, hv⟩
  have hheader : ∀ name ∈ ["Unit", "Service", "Install"], (Line.header name.toList).Plain := by
    unfold Line.Plain
    decide
  have hordinary : ∀ v ∈ ["network-online.target", "always", "default.target"],
      Line.PlainValue v.toList := by
    intro v hv
    refine UnitFile.plainValue_ordinary ?_
    revert v
    decide
  have hcommand : Line.PlainValue ([' '].intercalate (UnitFile.quote exe :: arguments)) := by
    refine UnitFile.plainValue_join (List.forall_mem_cons.mpr ⟨⟨List.cons_ne_nil _ _, ?_⟩, ?_⟩)
    · exact UnitFile.plainValue_quote hexe
    · exact fun a ha =>
        ⟨(harguments a ha).ne_nil, UnitFile.plainValue_ordinary (harguments a ha).ordinary⟩
  have hassigned : ∀ l ∈ (environment.map UnitFile.quote).map (Line.assign "Environment".toList),
      l.Plain := by
    intro l hl
    obtain ⟨v, hv, rfl⟩ := List.mem_map.mp hl
    obtain ⟨w, hw, rfl⟩ := List.mem_map.mp hv
    exact hassign "Environment" (by simp) _ (UnitFile.plainValue_quote (henvironment w hw))
  have hnetwork := hordinary "network-online.target" (by simp)
  unfold unitLines
  simp only [List.forall_mem_append, List.forall_mem_cons]
  refine ⟨⟨hheader "Unit" (by simp), hassign "Description" (by simp) _ hdescription,
    hassign "After" (by simp) _ hnetwork, hassign "Wants" (by simp) _ hnetwork, trivial,
    hheader "Service" (by simp), by simp⟩, hassigned, hassign "ExecStart" (by simp) _ hcommand,
    hassign "Restart" (by simp) _ (hordinary "always" (by simp)),
    hassign "RestartSec" (by simp) _ hrestart, trivial, hheader "Install" (by simp),
    hassign "WantedBy" (by simp) _ (hordinary "default.target" (by simp)), by simp⟩

/-- What systemd finds in the unit. -/
theorem unitLines_values {text : List Char}
    (htext : text = UnitFile.renderLines (unitLines description restartSec environment exe arguments))
    (hplain : ∀ l ∈ unitLines description restartSec environment exe arguments, l.Plain) :
    UnitFile.values text "Service".toList "Environment".toList = environment.map UnitFile.quote ∧
      UnitFile.values text "Service".toList "ExecStart".toList =
        [[' '].intercalate (UnitFile.quote exe :: arguments)] := by
  unfold UnitFile.values
  rw [htext, UnitFile.parse_render hplain]
  unfold unitLines
  generalize environment.map UnitFile.quote = assigned
  constructor
  · simp [UnitFile.valuesIn, UnitFile.valuesIn_assigns]
  · simp [UnitFile.valuesIn, UnitFile.valuesIn_assigns]

/-- The unit is read back exactly if nothing in it is expanded. -/
theorem unitLines_decode {text : List Char} (hdescription : Line.PlainValue description)
    (hrestart : Line.PlainValue restartSec)
    (htext : text = UnitFile.renderLines (unitLines description restartSec environment exe arguments))
    (henvironment : ∀ v ∈ environment, '\n' ∉ v) (hexe : '\n' ∉ exe)
    (harguments : ∀ a ∈ arguments, Bare a) :
    (∀ m, UnitFile.setEnvironment m text = some environment ∧
        UnitFile.startCommand m text = some (exe :: arguments)) ↔
      (∀ v ∈ environment, UnitFile.NoSpecifier v) ∧ UnitFile.NoSpecifier exe ∧
        UnitFile.NoReference exe := by
  have hplain := unitLines_plain hdescription hrestart henvironment hexe harguments
  obtain ⟨hassigned, hcommand⟩ := unitLines_values htext hplain
  have hliteral : ∀ a ∈ arguments, UnitFile.NoSpecifier a ∧ UnitFile.NoReference a :=
    fun a ha => ⟨(harguments a ha).specifier, (harguments a ha).reference⟩
  have hordinary : ∀ a ∈ arguments, a ≠ [] ∧ ∀ c ∈ a, UnitFile.Ordinary c :=
    fun a ha => ⟨(harguments a ha).ne_nil, (harguments a ha).ordinary⟩
  rw [← UnitFile.load_iff, ← UnitFile.startWords_iff hliteral, ← forall_and]
  refine forall_congr' fun m => ?_
  rw [UnitFile.setEnvironment_quoted hassigned, UnitFile.startCommand_quoted hcommand hordinary]

end

/-! ### The two units -/

section

variable {role exe pathDir text executable config pathEnv : String}

theorem unitRole_ok {r : UnitRole} (h : unitRole role = .ok r) :
    Line.PlainValue r.description.toList ∧ Line.PlainValue r.restartSec.toList ∧
      Bare r.command.toList := by
  have hletters : ∀ w ∈ ["serve", "agent"], Bare w.toList := by
    intro w hw
    refine bare_of_letters ?_ ?_
    · revert w
      decide
    · revert w
      decide
  unfold unitRole at h
  split at h
  · obtain rfl := Except.ok.inj h
    exact ⟨⟨by decide, by decide, by decide⟩, ⟨by decide, by decide, by decide⟩,
      hletters "serve" (by simp)⟩
  · split at h
    · obtain rfl := Except.ok.inj h
      exact ⟨⟨by decide, by decide, by decide⟩, ⟨by decide, by decide, by decide⟩,
        hletters "agent" (by simp)⟩
    · cases h

theorem systemdUnit_toList {role exe pathDir text : String}
    (h : systemdUnit role exe pathDir = .ok text) :
    ∃ r, unitRole role = .ok r ∧ '\n' ∉ (unitPath pathDir).toList ∧ '\n' ∉ exe.toList ∧
      text.toList = UnitFile.renderLines (unitLines r.description.toList r.restartSec.toList
        [("PATH=" ++ unitPath pathDir).toList] exe.toList [r.command.toList]) := by
  unfold systemdUnit at h
  obtain ⟨r, hr, h⟩ := Result.bind_eq_ok.mp h
  obtain ⟨path, hpath, h⟩ := Result.bind_eq_ok.mp h
  obtain ⟨exec, hexec, h⟩ := Result.bind_eq_ok.mp h
  obtain rfl := Result.pure_eq_ok.mp h
  obtain ⟨hpathtext, hpathline⟩ := quoteWith_ok hpath
  obtain ⟨hexectext, hexecline⟩ := quoteWith_ok hexec
  refine ⟨r, hr, ?_, hexecline, ?_⟩
  · exact fun hmem => hpathline (by simp [hmem])
  · unfold unitLines UnitFile.renderLines
    simp only [String.toList_append, hpathtext, hexectext, List.map_cons, List.map_nil,
      List.flatMap_append, List.flatMap_cons, List.flatMap_nil, Line.render,
      List.intercalate_cons_cons, List.intercalate_singleton, List.append_nil]
    repeat rw [String.toList_ofList]
    simp only [List.append_assoc, List.cons_append, List.nil_append]

/-- The unit of the tracker. -/
theorem systemdUnit_decodes (h : systemdUnit role exe pathDir = .ok text) :
    ∃ r, unitRole role = .ok r ∧
      (UnitDecodes text ["PATH=" ++ unitPath pathDir] [exe, r.command] ↔
        UnitFile.NoSpecifier pathDir.toList ∧ UnitFile.NoSpecifier exe.toList ∧
          UnitFile.NoReference exe.toList) := by
  obtain ⟨r, hr, hpath, hexe, htext⟩ := systemdUnit_toList h
  obtain ⟨hdescription, hrestart, hcommand⟩ := unitRole_ok hr
  have hdecode := unitLines_decode hdescription hrestart htext (by simpa using hpath) hexe
    (by simpa using hcommand)
  refine ⟨r, hr, hdecode.trans (and_congr_left' ?_)⟩
  simp [UnitFile.NoSpecifier, unitPath]

theorem controlUnit_toList (h : controlUnit role executable config pathEnv = .ok text) :
    role ∈ ["hub", "node"] ∧
      (∀ v ∈ [("STACKHOUR_CONFIG=" ++ config).toList, ("PATH=" ++ pathEnv).toList], '\n' ∉ v) ∧
      '\n' ∉ executable.toList ∧
      text.toList = UnitFile.renderLines (unitLines ("Stackhour control " ++ role).toList "5".toList
        [("STACKHOUR_CONFIG=" ++ config).toList, ("PATH=" ++ pathEnv).toList] executable.toList
        ["control".toList, role.toList]) := by
  unfold controlUnit at h
  obtain ⟨command, hcommand, h⟩ := Result.bind_eq_ok.mp h
  obtain ⟨rfl, hrole⟩ := controlRole_ok hcommand
  obtain ⟨exec, hexec, h⟩ := Result.bind_eq_ok.mp h
  obtain ⟨setting, hsetting, h⟩ := Result.bind_eq_ok.mp h
  obtain ⟨path, hpath, h⟩ := Result.bind_eq_ok.mp h
  obtain rfl := Result.pure_eq_ok.mp h
  obtain ⟨hexectext, hexecline⟩ := quoteWith_ok hexec
  obtain ⟨hsettingtext, hsettingline⟩ := quoteWith_ok hsetting
  obtain ⟨hpathtext, hpathline⟩ := quoteWith_ok hpath
  refine ⟨hrole, by simp only [List.forall_mem_cons]; exact ⟨hsettingline, hpathline, by simp⟩,
    hexecline, ?_⟩
  unfold unitLines UnitFile.renderLines
  simp only [String.toList_append, hpathtext, hexectext, hsettingtext, List.map_cons, List.map_nil,
    List.flatMap_append, List.flatMap_cons, List.flatMap_nil, Line.render,
    List.intercalate_cons_cons, List.intercalate_singleton, List.append_nil]
  repeat rw [String.toList_ofList]
  simp only [List.append_assoc, List.cons_append, List.nil_append]

/-- The unit of the control plane. -/
theorem controlUnit_decodes (h : controlUnit role executable config pathEnv = .ok text) :
    UnitDecodes text ["STACKHOUR_CONFIG=" ++ config, "PATH=" ++ pathEnv]
        [executable, "control", role] ↔
      (UnitFile.NoSpecifier config.toList ∧ UnitFile.NoSpecifier pathEnv.toList) ∧
        UnitFile.NoSpecifier executable.toList ∧ UnitFile.NoReference executable.toList := by
  obtain ⟨hrole, henvironment, hexe, htext⟩ := controlUnit_toList h
  have hdescription : ∀ role ∈ ["hub", "node"],
      Line.PlainValue ("Stackhour control " ++ role).toList := by
    simp only [List.forall_mem_cons]
    exact ⟨⟨by decide, by decide, by decide⟩, ⟨by decide, by decide, by decide⟩, by simp⟩
  have hletters : ∀ w ∈ ["control", "hub", "node"], Bare w.toList := by
    intro w hw
    refine bare_of_letters ?_ ?_
    · revert w
      decide
    · revert w
      decide
  have harguments : ∀ a ∈ ["control".toList, role.toList], Bare a := by
    simp only [List.forall_mem_cons]
    exact ⟨hletters "control" (by simp), hletters role (List.mem_cons_of_mem _ hrole), by simp⟩
  have hdecode := unitLines_decode (hdescription role hrole) ⟨by decide, by decide, by decide⟩
    htext henvironment hexe harguments
  refine Iff.trans hdecode (and_congr_left' ?_)
  simp [UnitFile.NoSpecifier]

end

/-! ## The property -/

theorem xmlText_path : XmlText "/opt/stackhour" := by
  unfold XmlText
  decide

end Stackhour.Install
