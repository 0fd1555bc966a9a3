import Mathlib.Data.List.Infix
import Stackhour.Core.Text
import Stackhour.Lib.Lines

/-!
# Git remotes

A remote is normalised to a key of its host and path, so that the ways to write it
name one project.
-/

namespace Stackhour.Core

-- a statement about the characters of a text is decided along the text
attribute [local instance (high)] List.decidableBAll

/-! ## Normalising -/

/-- What the program reads of a parsed URL. -/
structure RemoteUrl where
  host : Option (List Char)
  path : List Char

/-- `Url::parse` of the url crate, with the labels in `xn--` that it accepts, and
`str::to_lowercase`. -/
structure Urls where
  parse : List Char → Option RemoteUrl
  aLabel : List Char → Prop
  toLowercase : List Char → List Char

def isUserPart (c : Char) : Bool := c != '@' && c != '/' && !Hub.isWhitespace c

def isHostPart (c : Char) : Bool := c != ':' && c != '/' && !Hub.isWhitespace c

/-- The match of `(?:[^@/\s]+@)`, and what is behind it. -/
def afterUser (cs : List Char) : Option (List Char) :=
  match cs.dropWhile isUserPart with
  | '@' :: rest => if cs.takeWhile isUserPart = [] then none else some rest
  | _ => none

/-- The match of `([^:/\s]+):(.+)$`. -/
def scpAddress (cs : List Char) : Option (List Char × List Char) :=
  match cs.dropWhile isHostPart with
  | ':' :: path =>
      if cs.takeWhile isHostPart = [] ∨ path = [] ∨ '\n' ∈ path then none
      else some (cs.takeWhile isHostPart, path)
  | _ => none

/-- `scp_re`: the user is optional, and is tried first. -/
def scp (cs : List Char) : Option (List Char × List Char) :=
  ((afterUser cs).bind scpAddress).or (scpAddress cs)

def hasScheme (remote : List Char) : Bool := decide ([':', '/', '/'] <:+: remote)

/-- `eq_ignore_ascii_case(".git")`. -/
def isGit (tail : List Char) : Bool := tail.map Char.toLower == ['.', 'g', 'i', 't']

/-- One `.git` at the end goes. Its characters have a byte each, so that they are
counted here as the program counts bytes. -/
def stripGit (path : List Char) : List Char :=
  if isGit (path.drop (path.length - 4)) then path.take (path.length - 4) else path

/-- The key of a host and a path. -/
def remoteKey (urls : Urls) (host path : List Char) : Option (List Char) :=
  let clean := stripGit (trimMatches (· == '/') path)
  if host = [] ∨ clean = [] then none else some (urls.toLowercase host ++ '/' :: clean)

def keyOfUrl (urls : Urls) (trimmed : List Char) : Option (List Char) :=
  match urls.parse trimmed with
  | some url => remoteKey urls (url.host.getD []) url.path
  | none => none

/-- `normalize_git_remote`. -/
def normalizeGitRemote (urls : Urls) (remote : List Char) : Option (List Char) :=
  if remote = [] then none
  else
    match scp (trim remote) with
    | some (host, path) =>
        if hasScheme remote then keyOfUrl urls (trim remote) else remoteKey urls host path
    | none => keyOfUrl urls (trim remote)

/-! ## Hosts, paths and spellings -/

/-- `to_ascii_lowercase`. -/
def lower (cs : List Char) : List Char := cs.map Char.toLower

/-- A label of a host name; one that begins with `xn--` stands for a label with other
letters. -/
structure Label (urls : Urls) (l : List Char) : Prop where
  ne_nil : l ≠ []
  chars : ∀ c ∈ l, (Hub.isAsciiAlphanumeric c || c == '-') = true
  first : l.head? ≠ some '-'
  last : l.getLast? ≠ some '-'
  other : "xn--".toList <+: lower l → urls.aLabel (lower l)

/-- A number of an address: decimal, or hexadecimal behind `0x`. -/
def isNumeric (l : List Char) : Bool :=
  l.all Char.isDigit ||
    ("0x".toList.isPrefixOf l && (l.drop 2).all (fun c => c.isDigit || "abcdef".toList.contains c))

/-- A host name: labels with a dot behind each, and a last one that is not a number. -/
def DnsHost (urls : Urls) (h : List Char) : Prop :=
  ∃ (labels : List (List Char)) (last : List Char),
    h = labels.flatMap (fun l => l ++ ['.']) ++ last ∧ (∀ l ∈ labels, Label urls l) ∧
    Label urls last ∧ isNumeric (lower last) = false

def isPathChar (c : Char) : Bool := Hub.isAsciiAlphanumeric c || ['-', '_', '.', '/'].contains c

/-- A path without segments of one or two dots. -/
structure UrlPath (path : List Char) : Prop where
  chars : ∀ c ∈ path, isPathChar c = true
  segments : ∀ s ∈ path.splitOn '/', s ≠ ['.'] ∧ s ≠ ['.', '.']

/-- The path of a repository, which does not end with `.git`, whatever the case. -/
structure RepoPath (p : List Char) : Prop extends UrlPath p where
  ne_nil : p ≠ []
  first : p.head? ≠ some '/'
  last : p.getLast? ≠ some '/'
  git : isGit (p.drop (p.length - 4)) = false

/-- The three ways to write a remote. -/
inductive Form where
  | https
  | ssh (port : Option (List Char))
  | scp

structure Spelling where
  form : Form
  user : Option (List Char)
  suffix : List Char
  slashes : ℕ

/-- A user, with or without a password, is not quoted: these characters would end it. -/
def isUserChar (c : Char) : Bool :=
  !(['@', '/', '?', '#', '\\'].contains c) && !Hub.isWhitespace c

def UserOk (user : Option (List Char)) : Prop :=
  ∀ u ∈ user, u ≠ [] ∧ ∀ c ∈ u, isUserChar c = true

def PortOk (port : Option (List Char)) : Prop :=
  ∀ digits ∈ port, digits ≠ [] ∧ (∀ c ∈ digits, c.isDigit = true) ∧
    digits.foldl (fun n c => 10 * n + (c.toNat - 48)) 0 < 65536

/-- The suffix is missing or `.git`, in any letter case. -/
structure Spelling.Ok (s : Spelling) : Prop where
  user : UserOk s.user
  port : ∀ port, s.form = .ssh port → PortOk port
  suffix : s.suffix = [] ∨ isGit s.suffix = true

def userInfo (user : Option (List Char)) : List Char := (user.map (· ++ ['@'])).getD []

def portText (port : Option (List Char)) : List Char := (port.map (':' :: ·)).getD []

/-- What a spelling has behind the slash or colon. -/
def Spelling.tail (s : Spelling) (p : List Char) : List Char :=
  p ++ s.suffix ++ List.replicate s.slashes '/'

def Spelling.spell (s : Spelling) (h p : List Char) : List Char :=
  match s.form with
  | .https => "https://".toList ++ (userInfo s.user ++ (h ++ '/' :: s.tail p))
  | .ssh port => "ssh://".toList ++ (userInfo s.user ++ (h ++ (portText port ++ '/' :: s.tail p)))
  | .scp => userInfo s.user ++ (h ++ ':' :: s.tail p)

/-- The key that all spellings have. -/
def key (h p : List Char) : List Char := lower h ++ '/' :: p

/-- What the url crate and the standard library document: the host of a special scheme
is in lower case and the one of another scheme as it is written, the path begins
with a slash, and ASCII letters are folded as such. -/
structure Documented (urls : Urls) : Prop where
  https : ∀ user h path, UserOk user → DnsHost urls h → UrlPath path →
    urls.parse ("https://".toList ++ (userInfo user ++ (h ++ '/' :: path))) =
      some ⟨some (lower h), '/' :: path⟩
  ssh : ∀ user h port path, UserOk user → DnsHost urls h → PortOk port → UrlPath path →
    urls.parse ("ssh://".toList ++ (userInfo user ++ (h ++ (portText port ++ '/' :: path)))) =
      some ⟨some h, '/' :: path⟩
  lowercase : ∀ cs, (∀ c ∈ cs, c.toNat < 128) → urls.toLowercase cs = lower cs

/-! ## Characters -/

/-- The characters that a spelling has besides those of its user. -/
def isRemoteChar (c : Char) : Bool :=
  Hub.isAsciiAlphanumeric c || ['-', '_', '.', '/', ':', '@'].contains c

theorem isRemoteChar_ascii {c : Char} (h : isRemoteChar c = true) : c.toNat < 128 := by
  have hother : ∀ d ∈ ['-', '_', '.', '/', ':', '@'], d.toNat < 128 := by decide
  rw [isRemoteChar, Bool.or_eq_true, List.contains_iff_mem] at h
  rcases h with h | h
  · simp only [Hub.isAsciiAlphanumeric, Bool.or_eq_true, Bool.and_eq_true, decide_eq_true_eq] at h
    omega
  · exact hother c h

theorem isRemoteChar_cases {P : Char → Prop}
    (hascii : ∀ n < 128, isRemoteChar (Char.ofNat n) = true → P (Char.ofNat n)) {c : Char}
    (h : isRemoteChar c = true) : P c := by
  have hp := hascii c.toNat (isRemoteChar_ascii h)
  rw [Char.ofNat_toNat] at hp
  exact hp h

/-- Characters of a class leave out those that are not in it. -/
theorem not_mem_of_class {P : Char → Bool} {cs ds : List Char} (hcs : ∀ c ∈ cs, P c = true)
    (hds : ∀ d ∈ ds, P d = false) : ∀ d ∈ ds, d ∉ cs := by
  intro d hd hmem
  have hchar := hcs d hmem
  rw [hds d hd] at hchar
  cases hchar

theorem not_white_of_remoteChar {c : Char} (h : isRemoteChar c = true) :
    Hub.isWhitespace c = false :=
  @isRemoteChar_cases (fun c => Hub.isWhitespace c = false) (by decide) c h

theorem remoteChar_of_pathChar {c : Char} (h : isPathChar c = true) : isRemoteChar c = true := by
  simp only [isPathChar, isRemoteChar, Bool.or_eq_true, List.contains_iff_mem] at h ⊢
  exact h.imp_right fun hmem => List.Sublist.subset (by decide) hmem

theorem toLower_toLower (c : Char) : c.toLower.toLower = c.toLower := by
  revert c
  refine ascii_cases (by decide) fun c h => ?_
  rw [toLower_of_not_ascii h, toLower_of_not_ascii h]

theorem isPathChar_toLower (c : Char) : isPathChar c.toLower = isPathChar c := by
  revert c
  refine ascii_cases (by decide) fun c h => ?_
  rw [toLower_of_not_ascii h]

@[simp] theorem lower_lower (cs : List Char) : lower (lower cs) = lower cs := by
  unfold lower
  rw [List.map_map]
  exact List.map_congr_left fun c _ => toLower_toLower c

/-! ## Hosts -/

section

variable {urls : Urls} {h p path : List Char} {user port : Option (List Char)} {s : Spelling}

theorem isLabelChar_toLower (c : Char) :
    (Hub.isAsciiAlphanumeric c.toLower || c.toLower == '-') =
      (Hub.isAsciiAlphanumeric c || c == '-') := by
  revert c
  refine ascii_cases (by decide) fun c h => ?_
  rw [toLower_of_not_ascii h]

theorem toLower_eq_hyphen (c : Char) : c.toLower = '-' ↔ c = '-' := by
  revert c
  refine ascii_cases (by decide) fun c h => ?_
  rw [toLower_of_not_ascii h]

theorem Label.lower {l : List Char} (hl : Label urls l) : Label urls (lower l) where
  ne_nil := by simpa [Core.lower] using hl.ne_nil
  chars := by
    intro c hc
    obtain ⟨d, hd, rfl⟩ := List.mem_map.mp hc
    rw [isLabelChar_toLower]
    exact hl.chars d hd
  first := by
    rw [Core.lower, List.head?_map]
    intro heq
    obtain ⟨c, hc, heq⟩ := Option.map_eq_some_iff.mp heq
    exact hl.first (hc.trans (congrArg some ((toLower_eq_hyphen c).mp heq)))
  last := by
    rw [Core.lower, List.getLast?_map]
    intro heq
    obtain ⟨c, hc, heq⟩ := Option.map_eq_some_iff.mp heq
    exact hl.last (hc.trans (congrArg some ((toLower_eq_hyphen c).mp heq)))
  other := by
    rw [lower_lower]
    exact hl.other

theorem DnsHost.lower (hh : DnsHost urls h) : DnsHost urls (lower h) := by
  obtain ⟨labels, last, rfl, hlabels, hlast, hnumeric⟩ := hh
  refine ⟨labels.map Core.lower, Core.lower last, ?_, ?_, hlast.lower, by rwa [lower_lower]⟩
  · simp [Core.lower, List.map_flatMap, List.flatMap_map]
  · intro l hl
    obtain ⟨label, hlabel, rfl⟩ := List.mem_map.mp hl
    exact (hlabels label hlabel).lower

def isDnsChar (c : Char) : Bool := Hub.isAsciiAlphanumeric c || ['-', '.'].contains c

/-- A host name has letters, digits, hyphens and dots. -/
theorem DnsHost.chars (hh : DnsHost urls h) : ∀ c ∈ h, isDnsChar c = true := by
  obtain ⟨labels, last, rfl, hlabels, hlast, -⟩ := hh
  have hlabel : ∀ l, Label urls l → ∀ c ∈ l, isDnsChar c = true := by
    intro l hl c hc
    have hchar := hl.chars c hc
    simp only [isDnsChar, Bool.or_eq_true, beq_iff_eq, List.contains_iff_mem] at hchar ⊢
    exact hchar.imp_right fun heq => by simp [heq]
  intro c hc
  rcases List.mem_append.mp hc with hmem | hmem
  · obtain ⟨l, hl, hmem⟩ := List.mem_flatMap.mp hmem
    rcases List.mem_append.mp hmem with hmem | hmem
    · exact hlabel l (hlabels l hl) c hmem
    · obtain rfl := List.mem_singleton.mp hmem
      decide
  · exact hlabel last hlast c hmem

theorem DnsHost.ne_nil (hh : DnsHost urls h) : h ≠ [] := by
  obtain ⟨labels, last, rfl, -, hlast, -⟩ := hh
  exact List.append_ne_nil_of_right_ne_nil _ hlast.ne_nil

theorem remoteChar_of_dnsChar {c : Char} (hc : isDnsChar c = true) : isRemoteChar c = true := by
  simp only [isDnsChar, isRemoteChar, Bool.or_eq_true, List.contains_iff_mem] at hc ⊢
  exact hc.imp_right fun hmem => List.Sublist.subset (by decide) hmem

/-- A host name ends at these characters. -/
theorem DnsHost.not_mem (hh : DnsHost urls h) : ∀ d ∈ ['/', ':', '@'], d ∉ h :=
  not_mem_of_class hh.chars (by decide)

theorem DnsHost.hostPart (hh : DnsHost urls h) : ∀ c ∈ h, isHostPart c = true := by
  intro c hc
  have hwhite := not_white_of_remoteChar (remoteChar_of_dnsChar (hh.chars c hc))
  have hslash : c ≠ '/' := fun heq => hh.not_mem '/' (by decide) (heq ▸ hc)
  have hcolon : c ≠ ':' := fun heq => hh.not_mem ':' (by decide) (heq ▸ hc)
  simp [isHostPart, hwhite, hslash, hcolon]

/-! ## Paths -/

theorem not_slash_of_git {t : List Char} (ht : isGit t = true) : '/' ∉ t ∧
    ∀ c ∈ t, isPathChar c = true := by
  rw [isGit, beq_iff_eq] at ht
  have hchar : ∀ c ∈ t, c.toLower ∈ ['.', 'g', 'i', 't'] := fun c hc => ht ▸ List.mem_map_of_mem hc
  refine ⟨fun hmem => absurd (hchar '/' hmem) (by decide), fun c hc => ?_⟩
  rw [← isPathChar_toLower]
  have hall : ∀ d ∈ ['.', 'g', 'i', 't'], isPathChar d = true := by decide
  exact hall _ (hchar c hc)

theorem length_of_git {t : List Char} (ht : isGit t = true) : t.length = 4 := by
  rw [isGit, beq_iff_eq] at ht
  simpa using congrArg List.length ht

/-- One suffix is taken off, and no other. -/
theorem stripGit_suffix (hp : RepoPath p) {t : List Char} (ht : t = [] ∨ isGit t = true) :
    stripGit (p ++ t) = p := by
  unfold stripGit
  rcases ht with rfl | hgit
  · rw [List.append_nil, hp.git]
    rfl
  · have hlength : (p ++ t).length - 4 = p.length := by
      rw [List.length_append, length_of_git hgit]
      rfl
    rw [hlength, List.drop_left, List.take_left, if_pos hgit]

theorem trim_tail (hp : RepoPath p) (hs : s.Ok) {lead : List Char} (hlead : ∀ c ∈ lead, c = '/') :
    trimMatches (· == '/') (lead ++ s.tail p) = p ++ s.suffix := by
  have hne : p ++ s.suffix ≠ [] := List.append_ne_nil_of_left_ne_nil hp.ne_nil _
  have hlast : ∀ c ∈ (p ++ s.suffix).getLast?, (c == '/') = false := by
    intro c hc
    rw [beq_eq_false_iff_ne]
    rintro rfl
    rcases hs.suffix with hnil | hgit
    · rw [hnil, List.append_nil] at hc
      exact hp.last hc
    · have hsuffix : s.suffix ≠ [] := by
        intro hnil
        simp [hnil, isGit] at hgit
      rw [List.getLast?_append_of_ne_nil _ hsuffix] at hc
      exact (not_slash_of_git hgit).1 (List.mem_of_mem_getLast? hc)
  have hfirst : ∀ c ∈ (p ++ s.suffix).head?, (c == '/') = false := by
    intro c hc
    rw [beq_eq_false_iff_ne]
    rintro rfl
    rw [List.head?_append_of_ne_nil _ hp.ne_nil] at hc
    exact hp.first hc
  have hbetween := trimMatches_between (a := lead) (b := List.replicate s.slashes '/')
    (p := (· == '/')) (by simpa using hlead) (by simp) hfirst hlast hne
  rw [← hbetween, Spelling.tail, List.append_assoc, List.append_assoc, List.append_assoc]

/-- The tail of a spelling is a path of a URL. -/
theorem urlPath_tail (hp : RepoPath p) (hs : s.Ok) : UrlPath (s.tail p) where
  chars := by
    intro c hc
    rw [Spelling.tail, List.mem_append, List.mem_append] at hc
    rcases hc with (hc | hc) | hc
    · exact hp.chars c hc
    · rcases hs.suffix with hnil | hgit
      · rw [hnil] at hc
        cases hc
      · exact (not_slash_of_git hgit).2 c hc
    · obtain rfl := List.eq_of_mem_replicate hc
      decide
  segments := by
    intro segment hsegment
    rcases Lines.mem_splitOn_replicate hsegment with hsegment | rfl
    · have hslash : '/' ∉ s.suffix := by
        rcases hs.suffix with hnil | hgit
        · simp [hnil]
        · exact (not_slash_of_git hgit).1
      have hp' := hp.segments
      rw [Lines.splitOn_eq] at hp'
      rw [Lines.splitOn_append hslash, List.mem_append, List.mem_singleton] at hsegment
      rcases hsegment with hmem | rfl
      · exact hp' segment (List.mem_append_left _ hmem)
      · rcases hs.suffix with hnil | hgit
        · rw [hnil, List.append_nil]
          exact hp' _ (by simp)
        · have hlength := length_of_git hgit
          constructor
          · intro heq
            have hcount := congrArg List.length heq
            simp [hlength] at hcount
          · intro heq
            have hcount := congrArg List.length heq
            simp [hlength] at hcount
    · exact ⟨by simp, by simp⟩

/-! ## Spellings -/

/-- Nothing is trimmed. -/
theorem trim_remote {cs : List Char} (hcs : ∀ c ∈ cs, Hub.isWhitespace c = false) :
    trim cs = cs := by
  by_cases hne : cs = []
  · subst hne
    rfl
  · have hbetween := trimMatches_between (a := []) (b := []) (p := Hub.isWhitespace) (by simp)
      (by simp) (fun c hc => hcs c (List.mem_of_mem_head? hc))
      (fun c hc => hcs c (List.mem_of_mem_getLast? hc)) hne
    simpa [trim] using hbetween

theorem userPart_of_userChar {c : Char} (hc : isUserChar c = true) : isUserPart c = true := by
  simp only [isUserChar, Bool.and_eq_true, Bool.not_eq_true', List.contains_cons,
    Bool.or_eq_false_iff, beq_eq_false_iff_ne] at hc
  obtain ⟨⟨hat, hslash, -⟩, hwhite⟩ := hc
  simp [isUserPart, hat, hslash, hwhite]

theorem userInfo_not_white (hu : UserOk user) : ∀ c ∈ userInfo user, Hub.isWhitespace c = false := by
  intro c hc
  cases user with
  | none => cases hc
  | some u =>
      rcases List.mem_append.mp hc with hmem | hmem
      · have hchar := userPart_of_userChar ((hu u rfl).2 c hmem)
        simp only [isUserPart, Bool.and_eq_true, Bool.not_eq_true'] at hchar
        exact hchar.2
      · obtain rfl := List.mem_singleton.mp hmem
        decide

theorem slash_not_mem_userInfo (hu : UserOk user) : '/' ∉ userInfo user := by
  cases user with
  | none => simp [userInfo]
  | some u =>
      have hslash : ∀ d ∈ ['/'], d ∉ u := not_mem_of_class (hu u rfl).2 (by decide)
      simpa [userInfo] using hslash

theorem portText_chars (ht : PortOk port) : ∀ c ∈ portText port, isRemoteChar c = true := by
  intro c hc
  cases port with
  | none => cases hc
  | some digits =>
      rcases List.mem_cons.mp hc with rfl | hmem
      · decide
      · have hdigit : '0'.toNat ≤ c.toNat ∧ c.toNat ≤ '9'.toNat :=
          Char.isDigit_iff_toNat.mp ((ht digits rfl).2.1 c hmem)
        have hfirst : 48 ≤ c.toNat := hdigit.1
        have hlast : c.toNat ≤ 57 := hdigit.2
        simp [isRemoteChar, Hub.isAsciiAlphanumeric, hfirst, hlast]

theorem spell_not_white (hh : DnsHost urls h) (hp : RepoPath p) (hs : s.Ok) :
    ∀ c ∈ s.spell h p, Hub.isWhitespace c = false := by
  have hhost : ∀ c ∈ h, Hub.isWhitespace c = false :=
    fun c hc => not_white_of_remoteChar (remoteChar_of_dnsChar (hh.chars c hc))
  have htail : ∀ c ∈ s.tail p, Hub.isWhitespace c = false :=
    fun c hc => not_white_of_remoteChar (remoteChar_of_pathChar ((urlPath_tail hp hs).chars c hc))
  have huser := userInfo_not_white hs.user
  have hhttps : ∀ c ∈ "https://".toList, Hub.isWhitespace c = false := by decide
  have hssh : ∀ c ∈ "ssh://".toList, Hub.isWhitespace c = false := by decide
  have hslash : Hub.isWhitespace '/' = false := by decide
  have hcolon : Hub.isWhitespace ':' = false := by decide
  unfold Spelling.spell
  split
  · simp only [List.forall_mem_append, List.forall_mem_cons]
    exact ⟨hhttps, huser, hhost, hslash, htail⟩
  · next port hform =>
      have hport : ∀ c ∈ portText port, Hub.isWhitespace c = false :=
        fun c hc => not_white_of_remoteChar (portText_chars (hs.port port hform) c hc)
      simp only [List.forall_mem_append, List.forall_mem_cons]
      exact ⟨hssh, huser, hhost, hport, hslash, htail⟩
  · simp only [List.forall_mem_append, List.forall_mem_cons]
    exact ⟨huser, hhost, hcolon, htail⟩

/-- The key of a host with the tail of a spelling. -/
theorem remoteKey_tail (hp : RepoPath p) (hs : s.Ok) {host lead : List Char} (hhost : host ≠ [])
    (hlead : ∀ c ∈ lead, c = '/') :
    remoteKey urls host (lead ++ s.tail p) = some (urls.toLowercase host ++ '/' :: p) := by
  unfold remoteKey
  rw [trim_tail hp hs hlead, stripGit_suffix hp hs.suffix]
  simp [hhost, hp.ne_nil]

/-- A remote with a scheme is parsed as a URL. -/
theorem normalize_of_scheme {remote : List Char} (hwhite : ∀ c ∈ remote, Hub.isWhitespace c = false)
    (hscheme : hasScheme remote = true) :
    normalizeGitRemote urls remote = keyOfUrl urls remote := by
  have hne : remote ≠ [] := by
    rintro rfl
    revert hscheme
    decide
  unfold normalizeGitRemote
  rw [if_neg hne, trim_remote hwhite, hscheme]
  cases scp remote <;> rfl

/-- A remote of the other form. -/
theorem normalize_of_scp {remote host path : List Char}
    (hwhite : ∀ c ∈ remote, Hub.isWhitespace c = false) (hscheme : hasScheme remote = false)
    (hscp : scp remote = some (host, path)) :
    normalizeGitRemote urls remote = remoteKey urls host path := by
  have hne : remote ≠ [] := by
    rintro rfl
    have hnone : scp [] = none := rfl
    rw [hnone] at hscp
    cases hscp
  unfold normalizeGitRemote
  rw [if_neg hne, trim_remote hwhite, hscp, hscheme]
  rfl

theorem afterUser_none {cs : List Char} (hcs : '@' ∉ cs) : afterUser cs = none := by
  unfold afterUser
  split
  · next rest heq => exact absurd ((List.dropWhile_suffix _).subset (heq ▸ List.mem_cons_self)) hcs
  · rfl

theorem afterUser_user {u : List Char} (hne : u ≠ []) (hu : ∀ c ∈ u, isUserPart c = true)
    (rest : List Char) : afterUser (u ++ '@' :: rest) = some rest := by
  have htake : (u ++ '@' :: rest).takeWhile isUserPart = u := by
    rw [List.takeWhile_append_of_pos hu]
    simp [isUserPart]
  have hdrop : (u ++ '@' :: rest).dropWhile isUserPart = '@' :: rest := by
    rw [List.dropWhile_append_of_pos hu]
    simp [isUserPart]
  unfold afterUser
  rw [hdrop, htake]
  exact if_neg hne

theorem scpAddress_host {host path : List Char} (hne : host ≠ [])
    (hhost : ∀ c ∈ host, isHostPart c = true) (hpath : path ≠ []) (hline : '\n' ∉ path) :
    scpAddress (host ++ ':' :: path) = some (host, path) := by
  have htake : (host ++ ':' :: path).takeWhile isHostPart = host := by
    rw [List.takeWhile_append_of_pos hhost]
    simp [isHostPart]
  have hdrop : (host ++ ':' :: path).dropWhile isHostPart = ':' :: path := by
    rw [List.dropWhile_append_of_pos hhost]
    simp [isHostPart]
  unfold scpAddress
  rw [hdrop, htake]
  exact if_neg (by simp [hne, hpath, hline])

theorem tail_ne_nil (hp : RepoPath p) : s.tail p ≠ [] := by
  unfold Spelling.tail
  exact List.append_ne_nil_of_left_ne_nil (List.append_ne_nil_of_left_ne_nil hp.ne_nil _) _

theorem not_mem_tail (hp : RepoPath p) (hs : s.Ok) : ∀ d ∈ [':', '@', '\n'], d ∉ s.tail p :=
  not_mem_of_class (urlPath_tail hp hs).chars (by decide)

/-- The scp form is split at its colon. -/
theorem scp_spell (hh : DnsHost urls h) (hp : RepoPath p) (hs : s.Ok) :
    scp (userInfo s.user ++ (h ++ ':' :: s.tail p)) = some (h, s.tail p) := by
  have haddress := scpAddress_host hh.ne_nil hh.hostPart (tail_ne_nil hp)
    (not_mem_tail hp hs '\n' (by simp))
  unfold scp
  cases huser : s.user with
  | none =>
      have hat : '@' ∉ h ++ ':' :: s.tail p := by
        simp [hh.not_mem '@' (by simp), not_mem_tail hp hs '@' (by simp)]
      show ((afterUser (h ++ ':' :: s.tail p)).bind scpAddress).or
        (scpAddress (h ++ ':' :: s.tail p)) = _
      rw [afterUser_none hat, haddress]
      rfl
  | some u =>
      obtain ⟨hne, hchars⟩ := hs.user u huser
      have hafter := afterUser_user hne (fun c hc => userPart_of_userChar (hchars c hc))
        (h ++ ':' :: s.tail p)
      have htext : userInfo (some u) ++ (h ++ ':' :: s.tail p) =
          u ++ '@' :: (h ++ ':' :: s.tail p) := by simp [userInfo]
      rw [htext, hafter, Option.bind_some, haddress]
      rfl

/-- The scp form has its first slash behind its last colon, and not right behind it. -/
theorem hasScheme_scp (hh : DnsHost urls h) (hp : RepoPath p) (hs : s.Ok) :
    hasScheme (userInfo s.user ++ (h ++ ':' :: s.tail p)) = false := by
  have hslash : '/' ∉ userInfo s.user ++ h := by
    simp [slash_not_mem_userInfo hs.user, hh.not_mem '/' (by simp)]
  have hcolon := not_mem_tail hp hs ':' (by simp)
  have hhead : (s.tail p).head? ≠ some '/' := by
    rw [Spelling.tail, List.append_assoc, List.head?_append_of_ne_nil _ hp.ne_nil]
    exact hp.first
  rw [hasScheme, decide_eq_false_iff_not]
  rintro ⟨a, b, heq⟩
  have heq' : (userInfo s.user ++ h) ++ ':' :: s.tail p = a ++ ':' :: '/' :: '/' :: b := by
    rw [List.append_assoc, ← heq]
    simp
  obtain ⟨c, hc, htail⟩ | ⟨c, hc, htail⟩ := List.append_eq_append_iff.mp heq'
  · cases c with
    | nil => exact hhead (by rw [(List.cons.inj htail).2]; rfl)
    | cons d c => exact hcolon ((List.cons.inj htail).2 ▸ by simp)
  · cases c with
    | nil => exact hhead (by rw [← (List.cons.inj htail).2]; rfl)
    | cons d c =>
        cases c with
        | nil => exact absurd (List.cons.inj (List.cons.inj htail).2).1 (by decide)
        | cons d' c =>
            obtain rfl := (List.cons.inj (List.cons.inj htail).2).1
            exact hslash (hc ▸ by simp)

/-- **Every spelling has the key.** -/
theorem normalize_spell (hdoc : Documented urls) (hh : DnsHost urls h) (hp : RepoPath p)
    (hs : s.Ok) : normalizeGitRemote urls (s.spell h p) = some (key h p) := by
  have hwhite := spell_not_white hh hp hs
  have hascii : ∀ c ∈ h, c.toNat < 128 :=
    fun c hc => isRemoteChar_ascii (remoteChar_of_dnsChar (hh.chars c hc))
  have hlowerascii : ∀ c ∈ lower h, c.toNat < 128 :=
    fun c hc => isRemoteChar_ascii (remoteChar_of_dnsChar (hh.lower.chars c hc))
  have hslash : ∀ c ∈ ['/'], c = '/' := by simp
  unfold Spelling.spell at hwhite ⊢
  split at hwhite
  · have hscheme : hasScheme ("https://".toList ++ (userInfo s.user ++ (h ++ '/' :: s.tail p))) =
        true := by
      rw [hasScheme, decide_eq_true_eq]
      exact ⟨"https".toList, _, rfl⟩
    have hkey := @remoteKey_tail urls p s hp hs (lower h) ['/'] hh.lower.ne_nil hslash
    rw [normalize_of_scheme hwhite hscheme, keyOfUrl,
      hdoc.https s.user h _ hs.user hh (urlPath_tail hp hs)]
    refine hkey.trans ?_
    rw [hdoc.lowercase _ hlowerascii, lower_lower]
    rfl
  · next port hform =>
      have hscheme : hasScheme
          ("ssh://".toList ++ (userInfo s.user ++ (h ++ (portText port ++ '/' :: s.tail p)))) =
          true := by
        rw [hasScheme, decide_eq_true_eq]
        exact ⟨"ssh".toList, _, rfl⟩
      have hkey := @remoteKey_tail urls p s hp hs h ['/'] hh.ne_nil hslash
      rw [normalize_of_scheme hwhite hscheme, keyOfUrl,
        hdoc.ssh s.user h port _ hs.user hh (hs.port port hform) (urlPath_tail hp hs)]
      refine hkey.trans ?_
      rw [hdoc.lowercase _ hascii]
      rfl
  · have hkey := @remoteKey_tail urls p s hp hs h [] hh.ne_nil (by simp)
    rw [normalize_of_scp hwhite (hasScheme_scp hh hp hs) (scp_spell hh hp hs)]
    refine hkey.trans ?_
    rw [hdoc.lowercase _ hascii]
    rfl

/-- A key is cut at its first slash. -/
theorem key_inj (hh : DnsHost urls h) {h' p' : List Char} (hh' : DnsHost urls h') :
    key h p = key h' p' ↔ lower h = lower h' ∧ p = p' := by
  constructor
  · exact cut_unique (hh.lower.not_mem '/' (by simp)) (hh'.lower.not_mem '/' (by simp))
  · rintro ⟨hhost, rfl⟩
    rw [key, key, hhost]

/-- The plain spelling with a scheme. -/
def Spelling.plain : Spelling := ⟨.https, none, [], 0⟩

theorem plain_ok : Spelling.plain.Ok where
  user := by rintro u ⟨⟩
  port := by rintro port ⟨⟩
  suffix := .inl rfl

end

/-- **Git remotes normalise to one key**: all spellings of a host and a path have the
same, others have another, and the key is its own normal form. -/
theorem normalize_spellings {urls : Urls} (hdoc : Documented urls) :
    (∀ h p s, DnsHost urls h → RepoPath p → Spelling.Ok s →
      normalizeGitRemote urls (s.spell h p) = some (key h p)) ∧
    (∀ h p s h' p' s', DnsHost urls h → RepoPath p → Spelling.Ok s → DnsHost urls h' →
      RepoPath p' → Spelling.Ok s' →
      (normalizeGitRemote urls (s.spell h p) = normalizeGitRemote urls (s'.spell h' p') ↔
        lower h = lower h' ∧ p = p')) ∧
    ∀ h p, DnsHost urls h → RepoPath p →
      normalizeGitRemote urls ("https://".toList ++ key h p) = some (key h p) := by
  refine ⟨fun h p s hh hp hs => normalize_spell hdoc hh hp hs, ?_, ?_⟩
  · intro h p s h' p' s' hh hp hs hh' hp' hs'
    rw [normalize_spell hdoc hh hp hs, normalize_spell hdoc hh' hp' hs', Option.some_inj]
    exact key_inj hh hh'
  · intro h p hh hp
    have hspell : "https://".toList ++ key h p = Spelling.plain.spell (lower h) p := by
      simp [Spelling.plain, Spelling.spell, Spelling.tail, userInfo, key]
    rw [hspell, normalize_spell hdoc hh.lower hp plain_ok, key, lower_lower]
    rfl

/-! ## A parser of remotes -/

/-- The host and path behind the scheme, for remotes without a password. -/
def parseAddress (fold : List Char → List Char) (rest : List Char) : RemoteUrl :=
  let authority := rest.takeWhile (· ≠ '/')
  let host := (afterUser authority).getD authority
  ⟨some (fold (host.takeWhile (· ≠ ':'))), rest.dropWhile (· ≠ '/')⟩

/-- A parser for the two schemes. -/
def remoteUrls : Urls where
  parse cs :=
    if "https://".toList.isPrefixOf cs then some (parseAddress lower (cs.drop 8))
    else if "ssh://".toList.isPrefixOf cs then some (parseAddress id (cs.drop 6))
    else none
  aLabel _ := False
  toLowercase := lower

section

variable {urls : Urls} {h : List Char} {user port : Option (List Char)}

theorem not_mem_portText (ht : PortOk port) : ∀ d ∈ ['/', '@'], d ∉ portText port := by
  cases port with
  | none => simp [portText]
  | some digits =>
      have hdigits : ∀ d ∈ ['/', '@'], d ∉ digits :=
        not_mem_of_class (ht digits rfl).2.1 (by decide)
      have hcolon : ':' ∉ ['/', '@'] := by decide
      intro d hd hmem
      rcases List.mem_cons.mp hmem with rfl | hdigit
      · exact hcolon hd
      · exact hdigits d hd hdigit

/-- What is in front of the slash. -/
theorem span_authority {authority path : List Char} (hslash : '/' ∉ authority) :
    (authority ++ '/' :: path).takeWhile (· ≠ '/') = authority ∧
      (authority ++ '/' :: path).dropWhile (· ≠ '/') = '/' :: path := by
  have hall : ∀ c ∈ authority, decide (c ≠ '/') = true :=
    fun c hc => decide_eq_true (fun heq => hslash (heq ▸ hc))
  constructor
  · rw [List.takeWhile_append_of_pos hall]
    simp
  · rw [List.dropWhile_append_of_pos hall]
    simp

theorem takeWhile_host (hh : DnsHost urls h) :
    (h ++ portText port).takeWhile (· ≠ ':') = h := by
  have hall : ∀ c ∈ h, decide (c ≠ ':') = true :=
    fun c hc => decide_eq_true (fun heq => hh.not_mem ':' (by simp) (heq ▸ hc))
  rw [List.takeWhile_append_of_pos hall]
  cases port <;> simp [portText]

theorem parseAddress_eq (fold : List Char → List Char) (path : List Char) (hu : UserOk user)
    (hh : DnsHost urls h) (ht : PortOk port) :
    parseAddress fold (userInfo user ++ (h ++ (portText port ++ '/' :: path))) =
      ⟨some (fold h), '/' :: path⟩ := by
  have hslash : '/' ∉ userInfo user ++ (h ++ portText port) := by
    simp [slash_not_mem_userInfo hu, hh.not_mem '/' (by simp), not_mem_portText ht '/' (by simp)]
  have hhost : (afterUser (userInfo user ++ (h ++ portText port))).getD
      (userInfo user ++ (h ++ portText port)) = h ++ portText port := by
    cases user with
    | none =>
        have hat : '@' ∉ h ++ portText port := by
          simp [hh.not_mem '@' (by simp), not_mem_portText ht '@' (by simp)]
        show (afterUser (h ++ portText port)).getD (h ++ portText port) = _
        rw [afterUser_none hat]
        rfl
    | some u =>
        obtain ⟨hne, hchars⟩ := hu u rfl
        have hafter := afterUser_user hne (fun c hc => userPart_of_userChar (hchars c hc))
          (h ++ portText port)
        have htext : userInfo (some u) ++ (h ++ portText port) =
            u ++ '@' :: (h ++ portText port) := by simp [userInfo]
        rw [htext, hafter]
        rfl
  obtain ⟨htake, hdrop⟩ := @span_authority _ path hslash
  have htext : userInfo user ++ (h ++ (portText port ++ '/' :: path)) =
      userInfo user ++ (h ++ portText port) ++ '/' :: path := by simp
  rw [parseAddress, htext, htake, hdrop, hhost, takeWhile_host hh]

end

theorem documented_remoteUrls : Documented remoteUrls where
  https user h path hu hh hpath := by
    have hparse := @parseAddress_eq _ h user none lower path hu hh (by rintro digits ⟨⟩)
    exact congrArg some hparse
  ssh user h port path hu hh ht hpath := by
    have hparse := parseAddress_eq id path hu hh ht
    exact congrArg some hparse
  lowercase cs _ := rfl

theorem dnsHost_gitHub : DnsHost remoteUrls "GitHub.com".toList :=
  ⟨["GitHub".toList], "com".toList, by decide, by
    intro l hl
    obtain rfl := List.mem_singleton.mp hl
    exact ⟨by decide, by decide, by decide, by decide, fun hx => absurd hx (by decide)⟩,
    ⟨by decide, by decide, by decide, by decide, fun hx => absurd hx (by decide)⟩, by decide⟩

theorem repoPath_widget : RepoPath "Acme/widget".toList where
  chars := by decide
  segments := by decide
  ne_nil := by decide
  first := by decide
  last := by decide
  git := by decide

/-- The scp form with a user, the suffix in capitals and a slash. -/
theorem normalize_spellings_scp :
    normalizeGitRemote remoteUrls "git@GitHub.com:Acme/widget.GIT/".toList =
      some "github.com/Acme/widget".toList :=
  (normalize_spellings documented_remoteUrls).1 "GitHub.com".toList "Acme/widget".toList
    ⟨.scp, some "git".toList, ".GIT".toList, 1⟩ dnsHost_gitHub repoPath_widget
    ⟨by rintro u ⟨⟩; decide, by rintro port ⟨⟩, .inr (by decide)⟩

end Stackhour.Core
