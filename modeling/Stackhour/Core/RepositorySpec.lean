import Stackhour.Core.Repository

/-!
# Places of one repository

A clone and every linked worktree of a repository lead to one configuration, and the
remote in it names one project, however the remote, the pointers and the place are
spelled.
-/

namespace Stackhour.Core

/-! ## Configurations as git writes them -/

/-- A section: `[kind]` or `[kind "name"]`, and the assignments in it. -/
structure Section where
  kind : List Char
  name : Option (List Char)
  lines : List (List Char × List Char)

def isKeyChar (c : Char) : Bool := Hub.isAsciiAlphanumeric c || ['-', '.'].contains c

/-- A text on one line without blanks at its ends. -/
structure OneLine (v : List Char) : Prop where
  ne_nil : v ≠ []
  newline : '\n' ∉ v
  first : ∀ c ∈ v.head?, Hub.isWhitespace c = false
  last : ∀ c ∈ v.getLast?, Hub.isWhitespace c = false

structure Section.Ok (s : Section) : Prop where
  kind : s.kind ≠ [] ∧ ∀ c ∈ s.kind, isKeyChar c = true
  name : ∀ n ∈ s.name, n ≠ [] ∧ '"' ∉ n ∧ '\n' ∉ n
  lines : ∀ l ∈ s.lines, (l.1 ≠ [] ∧ ∀ c ∈ l.1, isKeyChar c = true) ∧ OneLine l.2

namespace Section

def title (s : Section) : List Char :=
  '[' :: (s.kind ++ ((s.name.map (fun n => ' ' :: '"' :: (n ++ ['"']))).getD [] ++ [']']))

def assignment (l : List Char × List Char) : List Char := '\t' :: (l.1 ++ " = ".toList ++ l.2)

def texts (s : Section) : List (List Char) := s.title :: s.lines.map assignment

/-- The name of the remote that a section is about. -/
def remote (s : Section) : Option (List Char) :=
  if lower s.kind = "remote".toList then s.name else none

/-- What is assigned to `url`. -/
def addresses (lines : List (List Char × List Char)) : List (List Char) :=
  (lines.filter (fun l => lower l.1 = "url".toList)).map (·.2)

/-- The addresses of its remote, under the name of the remote. -/
def remotes (s : Section) : List (List Char × List Char) :=
  match s.remote with
  | some n => (addresses s.lines).map (fun v => (n, v))
  | none => []

end Section

/-- Lines with a newline behind each. -/
def printConfig (sections : List Section) : List Char :=
  (sections.flatMap Section.texts).flatMap (· ++ ['\n'])

section

variable {cs key rest v : List Char} {s : Section}

theorem keyChar_not_white {c : Char} (h : isKeyChar c = true) : Hub.isWhitespace c = false := by
  refine not_white_of_remoteChar ?_
  simp only [isKeyChar, isRemoteChar, Bool.or_eq_true, List.contains_iff_mem] at h ⊢
  rcases h with h | h
  · exact .inl h
  · refine .inr ?_
    simp only [List.mem_cons, List.not_mem_nil, or_false] at h ⊢
    tauto

/-- A key is found exactly where it stands, in some letter case. -/
theorem behind_eq_some : behind key cs = some rest ↔ ∃ a, cs = a ++ rest ∧ lower a = key := by
  unfold behind
  constructor
  · intro h
    split at h
    · next hkey =>
        refine ⟨cs.take key.length, ?_, hkey⟩
        rw [← Option.some.inj h, List.take_append_drop]
    · cases h
  · rintro ⟨a, rfl, rfl⟩
    have hlen : (lower a).length = a.length := List.length_map ..
    rw [hlen, List.take_left, List.drop_left, if_pos rfl]

theorem dropWhile_first {p : Char → Bool} (h : ∀ c ∈ cs.head?, p c = false) :
    cs.dropWhile p = cs := by
  cases cs with
  | nil => rfl
  | cons c cs => exact List.dropWhile_cons_of_neg (by simp [h c rfl])

theorem OneLine.trim (h : OneLine v) : Core.trim v = v := by
  have hv := trimMatches_between (p := Hub.isWhitespace) (a := []) (b := []) (m := v)
    (fun c hc => nomatch hc) (fun c hc => nomatch hc) h.first h.last h.ne_nil
  simpa [Core.trim] using hv

theorem OneLine.lineValue (h : OneLine v) {blanks : List Char}
    (hb : ∀ c ∈ blanks, Hub.isWhitespace c = true) : lineValue (blanks ++ v) = some v := by
  unfold Core.lineValue
  rw [List.dropWhile_append_of_pos hb, dropWhile_first h.first]
  exact if_neg fun hbad => hbad.elim h.ne_nil h.newline

/-- What stands behind the kind in a title. -/
theorem title_rest (s : Section) : ∃ c tail, (c = ' ' ∨ c = ']') ∧
    s.title = '[' :: (s.kind ++ c :: tail) ∧
    c :: tail = (s.name.map (fun n => ' ' :: '"' :: (n ++ ['"']))).getD [] ++ [']'] := by
  cases hname : s.name with
  | none => exact ⟨']', [], .inr rfl, by simp [Section.title, hname], by simp⟩
  | some n =>
      exact ⟨' ', '"' :: (n ++ ['"', ']']), .inl rfl, by simp [Section.title, hname], by simp⟩

theorem quotedName_name {n : List Char} (hne : n ≠ []) (hquote : '"' ∉ n) :
    quotedName ('"' :: (n ++ ['"', ']'])) = some n := by
  have hn : ∀ c ∈ n, decide (c ≠ '"') = true := fun c hc =>
    decide_eq_true fun heq => hquote (heq ▸ hc)
  have htake : (n ++ ['"', ']']).takeWhile (· ≠ '"') = n := by
    rw [List.takeWhile_append_of_pos hn]
    simp
  have hdrop : (n ++ ['"', ']']).dropWhile (· ≠ '"') = ['"', ']'] := by
    rw [List.dropWhile_append_of_pos hn]
    rfl
  unfold quotedName
  simp only [htake, hdrop]
  exact if_neg fun hbad => hbad.elim hne fun h => h rfl

/-- The title of a section is the one of a remote, or it is not taken for one. -/
theorem remoteHeader_title (h : s.Ok) : remoteHeader s.title = s.remote := by
  obtain ⟨c, tail, hc, htitle, hrest⟩ := title_rest s
  unfold remoteHeader Section.remote
  by_cases hkind : lower s.kind = "remote".toList
  · have hbehind : behind "[remote".toList s.title = some (c :: tail) := by
      rw [htitle]
      refine behind_eq_some.mpr ⟨'[' :: s.kind, rfl, ?_⟩
      rw [lower, List.map_cons, ← lower, hkind]
      rfl
    rw [hbehind, Option.bind_some, if_pos hkind, hrest]
    cases hname : s.name with
    | none => rfl
    | some n =>
        obtain ⟨hne, hquote, -⟩ := h.name n hname
        have hblank : Hub.isWhitespace ' ' = true := by decide
        have hmark : Hub.isWhitespace '"' = false := by decide
        simpa [hblank, hmark] using quotedName_name hne hquote
  · rw [if_neg hkind]
    cases hbehind : behind "[remote".toList s.title with
    | none => rfl
    | some rest =>
        obtain ⟨a, ha, hlower⟩ := behind_eq_some.mp hbehind
        rw [htitle] at ha
        cases a with
        | nil => cases hlower
        | cons d a =>
            obtain ⟨-, ha⟩ := List.cons_eq_cons.mp ha
            have hletters : lower a = "remote".toList := (List.cons_eq_cons.mp hlower).2
            rw [Option.bind_some]
            refine if_pos ?_
            rcases List.append_eq_append_iff.mp ha with ⟨t, rfl, ht⟩ | ⟨t, ht, rfl⟩
            · -- the key is longer than the kind: it would have the blank or bracket in it
              cases t with
              | nil => exact absurd (by simpa using hletters) hkind
              | cons e t =>
                  obtain rfl : c = e := (List.cons_eq_cons.mp ht).1
                  have hmem : c.toLower ∈ lower (s.kind ++ c :: t) := by
                    exact List.mem_map_of_mem (by simp)
                  rw [hletters] at hmem
                  rcases hc with rfl | rfl <;> exact absurd hmem (by decide)
            · cases t with
              | nil =>
                  rw [List.append_nil] at ht
                  exact absurd (ht ▸ hletters) hkind
              | cons e t =>
                  have he := keyChar_not_white (h.kind.2 e (by simp [ht]))
                  simp [he]

theorem keyChar_ne {c : Char} (h : isKeyChar c = true) : c ≠ '\n' ∧ c ≠ '[' ∧ c ≠ '=' := by
  refine ⟨?_, ?_, ?_⟩ <;> (rintro rfl; exact absurd h (by decide))

theorem title_oneLine (h : s.Ok) : OneLine s.title := by
  have hname : '\n' ∉ (s.name.map (fun n => ' ' :: '"' :: (n ++ ['"']))).getD [] := by
    cases hn : s.name with
    | none => simp
    | some n => simpa using (h.name n hn).2.2
  have hkind : '\n' ∉ s.kind := fun hmem => (keyChar_ne (h.kind.2 _ hmem)).1 rfl
  refine ⟨by simp [Section.title], ?_, ?_, ?_⟩
  · simp [Section.title, hname, hkind]
  · intro c hc
    obtain rfl : '[' = c := by simpa [Section.title] using hc
    decide
  · intro c hc
    have hlast : s.title.getLast? = some ']' := by
      rw [Section.title, ← List.append_assoc, ← List.cons_append, List.getLast?_concat]
    obtain rfl : ']' = c := Option.some.inj (hlast.symm.trans hc)
    decide

/-- A title opens its section, with a remote or without. -/
theorem scanLine_title (h : s.Ok) (st : Scan) :
    scanLine st s.title = { st with opened := s.remote.getD [] } := by
  unfold scanLine
  simp only [(title_oneLine h).trim, remoteHeader_title h]
  cases hremote : s.remote with
  | some n => rfl
  | none => simp [Section.title]

/-! ### Assignments -/

variable {l : List Char × List Char}

theorem assignment_oneLine (hkey : l.1 ≠ [] ∧ ∀ c ∈ l.1, isKeyChar c = true)
    (hvalue : OneLine l.2) : OneLine (l.1 ++ " = ".toList ++ l.2) := by
  obtain ⟨hne, hchars⟩ := hkey
  refine ⟨by simp [hne], ?_, ?_, ?_⟩
  · intro hmem
    rcases List.mem_append.mp hmem with hmem | hmem
    · rcases List.mem_append.mp hmem with hmem | hmem
      · exact (keyChar_ne (hchars _ hmem)).1 rfl
      · exact absurd hmem (by decide)
    · exact hvalue.newline hmem
  · intro c hc
    rw [List.append_assoc, List.head?_append_of_ne_nil _ hne] at hc
    exact keyChar_not_white (hchars c (List.mem_of_mem_head? hc))
  · intro c hc
    rw [List.getLast?_append_of_ne_nil _ hvalue.ne_nil] at hc
    exact hvalue.last c hc

theorem trim_assignment (hkey : l.1 ≠ [] ∧ ∀ c ∈ l.1, isKeyChar c = true) (hvalue : OneLine l.2) :
    Core.trim (Section.assignment l) = l.1 ++ " = ".toList ++ l.2 := by
  have hline := assignment_oneLine hkey hvalue
  have htab : ∀ c ∈ ['\t'], Hub.isWhitespace c = true := List.all_eq_true.mp rfl
  have htrim := trimMatches_between (b := []) htab (fun c hc => nomatch hc) hline.first hline.last
    hline.ne_nil
  rwa [List.append_nil] at htrim

/-- An address is what is assigned to `url`. -/
theorem urlLine_assignment (hkey : l.1 ≠ [] ∧ ∀ c ∈ l.1, isKeyChar c = true)
    (hvalue : OneLine l.2) : urlLine (l.1 ++ " = ".toList ++ l.2) =
      if lower l.1 = "url".toList then some l.2 else none := by
  obtain ⟨hne, hchars⟩ := hkey
  unfold urlLine
  split
  · next hurl =>
      have hbehind : behind "url".toList (l.1 ++ " = ".toList ++ l.2) =
          some (" = ".toList ++ l.2) := behind_eq_some.mpr ⟨l.1, List.append_assoc .., hurl⟩
      rw [hbehind]
      have hblank : ∀ c ∈ [' '], Hub.isWhitespace c = true := List.all_eq_true.mp rfl
      exact hvalue.lineValue hblank
  · next hurl =>
      cases hbehind : behind "url".toList (l.1 ++ " = ".toList ++ l.2) with
      | none => rfl
      | some rest =>
          obtain ⟨a, ha, hlower⟩ := behind_eq_some.mp hbehind
          rw [List.append_assoc] at ha
          rcases List.append_eq_append_iff.mp ha with ⟨t, rfl, ht⟩ | ⟨t, ht, rfl⟩
          · -- the blank behind the assigned key is no letter of `url`
            cases t with
            | nil => exact absurd (by simpa using hlower) hurl
            | cons e t =>
                obtain rfl : ' ' = e := (List.cons_eq_cons.mp ht).1
                have hmem : ' '.toLower ∈ lower (l.1 ++ ' ' :: t) :=
                  List.mem_map_of_mem (by simp)
                rw [hlower] at hmem
                exact absurd hmem (by decide)
          · cases t with
            | nil =>
                rw [List.append_nil] at ht
                exact absurd (ht ▸ hlower) hurl
            | cons e t =>
                have he : isKeyChar e = true := hchars e (by simp [ht])
                have hfirst : ∀ rest, (e :: rest).dropWhile Hub.isWhitespace = e :: rest :=
                  fun rest => List.dropWhile_cons_of_neg (by simp [keyChar_not_white he])
                rw [Option.bind_some, List.cons_append, hfirst]
                split
                · next hmark => exact absurd (List.cons_eq_cons.mp hmark).1 (keyChar_ne he).2.2
                · rfl

theorem toLower_eq_bracket (c : Char) : c.toLower = '[' ↔ c = '[' := by
  revert c
  refine ascii_cases (by decide) ?_
  intro c hc
  rw [toLower_of_not_ascii hc]

/-- An assignment counts where the section of a remote is open. -/
theorem scanLine_assignment (hkey : l.1 ≠ [] ∧ ∀ c ∈ l.1, isKeyChar c = true)
    (hvalue : OneLine l.2) (st : Scan) : scanLine st (Section.assignment l) =
      if st.opened ≠ [] ∧ lower l.1 = "url".toList then
        { st with remotes := st.remotes ++ [(st.opened, l.2)] }
      else st := by
  obtain ⟨c, key, hc⟩ := List.exists_cons_of_ne_nil hkey.1
  have hbracket : c ≠ '[' := (keyChar_ne (hkey.2 c (by simp [hc]))).2.1
  have hhead : (l.1 ++ " = ".toList ++ l.2).head? = some c := by simp [hc]
  have hheader : remoteHeader (l.1 ++ " = ".toList ++ l.2) = none := by
    unfold remoteHeader
    cases hbehind : behind "[remote".toList (l.1 ++ " = ".toList ++ l.2) with
    | none => rfl
    | some rest =>
        obtain ⟨a, ha, hlower⟩ := behind_eq_some.mp hbehind
        cases a with
        | nil => cases hlower
        | cons d a =>
            rw [ha] at hhead
            obtain rfl := Option.some.inj hhead
            exact absurd ((toLower_eq_bracket d).mp (List.cons_eq_cons.mp hlower).1) hbracket
  unfold scanLine
  simp only [trim_assignment hkey hvalue, hheader, hhead, urlLine_assignment hkey hvalue]
  rw [if_neg (by simpa using hbracket)]
  by_cases hopen : st.opened = []
  · simp [hopen]
  · by_cases hurl : lower l.1 = "url".toList
    · simp only [if_pos hurl, if_neg hopen, hvalue.trim]
      exact (if_pos ⟨hopen, hurl⟩).symm
    · simp only [if_neg hurl, if_neg hopen]
      exact (if_neg fun h => hurl h.2).symm

/-! ### Whole configurations -/

theorem addresses_cons (l : List Char × List Char) (lines : List (List Char × List Char)) :
    Section.addresses (l :: lines) =
      if lower l.1 = "url".toList then l.2 :: Section.addresses lines
      else Section.addresses lines := by
  unfold Section.addresses
  rw [List.filter_cons]
  by_cases hurl : lower l.1 = "url".toList
  · rw [if_pos (decide_eq_true hurl), if_pos hurl, List.map_cons]
  · rw [if_neg (by simpa using hurl), if_neg hurl]

theorem scan_assignments {lines : List (List Char × List Char)} {n : List Char} (hn : n ≠ [])
    (h : ∀ l ∈ lines, (l.1 ≠ [] ∧ ∀ c ∈ l.1, isKeyChar c = true) ∧ OneLine l.2) :
    ∀ found, (lines.map Section.assignment).foldl scanLine ⟨n, found⟩ =
      ⟨n, found ++ (Section.addresses lines).map (fun v => (n, v))⟩ := by
  induction lines with
  | nil =>
      intro found
      simp [Section.addresses]
  | cons l lines ih =>
      intro found
      obtain ⟨hkey, hvalue⟩ := h l (List.mem_cons_self ..)
      have ih := ih fun m hm => h m (List.mem_cons_of_mem _ hm)
      rw [List.map_cons, List.foldl_cons, scanLine_assignment hkey hvalue]
      by_cases hurl : lower l.1 = "url".toList
      · rw [if_pos ⟨hn, hurl⟩, ih, List.append_assoc, addresses_cons, if_pos hurl]
        rfl
      · rw [if_neg fun hboth => hurl hboth.2, ih, addresses_cons, if_neg hurl]

/-- Outside of a remote nothing counts. -/
theorem scan_closed {lines : List (List Char × List Char)}
    (h : ∀ l ∈ lines, (l.1 ≠ [] ∧ ∀ c ∈ l.1, isKeyChar c = true) ∧ OneLine l.2)
    (found : List (List Char × List Char)) :
    (lines.map Section.assignment).foldl scanLine ⟨[], found⟩ = ⟨[], found⟩ := by
  induction lines with
  | nil => rfl
  | cons l lines ih =>
      obtain ⟨hkey, hvalue⟩ := h l (List.mem_cons_self ..)
      rw [List.map_cons, List.foldl_cons, scanLine_assignment hkey hvalue,
        if_neg fun hboth => hboth.1 rfl, ih fun m hm => h m (List.mem_cons_of_mem _ hm)]

/-- A section leaves its remotes, whatever was open before it. -/
theorem scan_section (h : s.Ok) (st : Scan) : s.texts.foldl scanLine st =
    ⟨s.remote.getD [], st.remotes ++ s.remotes⟩ := by
  unfold Section.texts Section.remotes
  rw [List.foldl_cons, scanLine_title h]
  cases hremote : s.remote with
  | none => simpa using scan_closed h.lines st.remotes
  | some n =>
      have hn : n ≠ [] := by
        unfold Section.remote at hremote
        split at hremote
        · exact (h.name n hremote).1
        · cases hremote
      exact scan_assignments hn h.lines st.remotes

theorem scan_sections {sections : List Section} (h : ∀ s ∈ sections, s.Ok) : ∀ st : Scan,
    ((sections.flatMap Section.texts).foldl scanLine st).remotes =
      st.remotes ++ sections.flatMap Section.remotes := by
  induction sections with
  | nil =>
      intro st
      exact (List.append_nil _).symm
  | cons s sections ih =>
      intro st
      rw [List.flatMap_cons, List.foldl_append, scan_section (h s (List.mem_cons_self ..)),
        ih (fun t ht => h t (List.mem_cons_of_mem _ ht)), List.flatMap_cons, List.append_assoc]

theorem splitOn_printed {texts : List (List Char)} (h : ∀ t ∈ texts, '\n' ∉ t) :
    (texts.flatMap (· ++ ['\n'])).splitOn '\n' = texts ++ [[]] := by
  induction texts with
  | nil => rfl
  | cons t texts ih =>
      rw [List.flatMap_cons, List.append_assoc, List.singleton_append,
        List.splitOn_append_cons_self_of_not_mem (h t (List.mem_cons_self ..)),
        ih fun u hu => h u (List.mem_cons_of_mem _ hu)]
      rfl

theorem newline_not_mem_texts (h : s.Ok) : ∀ t ∈ s.texts, '\n' ∉ t := by
  intro t ht
  rcases List.mem_cons.mp ht with rfl | ht
  · exact (title_oneLine h).newline
  · obtain ⟨l, hl, rfl⟩ := List.mem_map.mp ht
    obtain ⟨hkey, hvalue⟩ := h.lines l hl
    intro hmem
    rcases List.mem_cons.mp hmem with hmem | hmem
    · exact absurd hmem (by decide)
    · exact (assignment_oneLine hkey hvalue).newline hmem

/-- **A configuration is read as it was written.** -/
theorem remoteFromConfig_printConfig {sections : List Section} (h : ∀ s ∈ sections, s.Ok) :
    remoteFromConfig (printConfig sections) = preferred (sections.flatMap Section.remotes) := by
  have hlines : ∀ t ∈ sections.flatMap Section.texts, '\n' ∉ t := by
    intro t ht
    obtain ⟨s, hs, ht⟩ := List.mem_flatMap.mp ht
    exact newline_not_mem_texts (h s hs) t ht
  have hempty : ∀ st : Scan, (scanLine st []).remotes = st.remotes := by
    intro st
    unfold scanLine
    by_cases hopen : st.opened = []
    · simp [hopen, trim, trimMatches, remoteHeader, behind, lower]
    · simp [hopen, trim, trimMatches, remoteHeader, behind, lower, urlLine]
  unfold remoteFromConfig printConfig
  rw [splitOn_printed hlines, List.foldl_append, List.foldl_cons, List.foldl_nil, hempty,
    scan_sections h, List.nil_append]

end

end Stackhour.Core
