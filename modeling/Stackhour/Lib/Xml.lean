import Mathlib.Data.List.Basic

/-!
# Documents in XML

A document is read character by character into its tags, each with the text that
stands before it; references in the text stand for characters. The tags have to be
nested. Comments, character data sections and references by number are left out.
-/

namespace Xml

-- a statement about the characters of a text is decided along the text
attribute [local instance (high)] List.decidableBAll

/-! ## Reading -/

/-- The characters that a document can have. -/
def isXmlChar (c : Char) : Bool :=
  ['\t', '\n', '\r'].contains c || (32 ≤ c.toNat && c.toNat ≠ 0xfffe && c.toNat ≠ 0xffff)

/-- Line breaks become newlines. -/
def normalize : List Char → List Char
  | [] => []
  | '\r' :: '\n' :: cs => '\n' :: normalize cs
  | c :: cs => (if c = '\r' then '\n' else c) :: normalize cs

/-- A tag or declaration, and the text before it. -/
structure Piece where
  text : List Char
  markup : List Char
deriving DecidableEq

/-- In a text, in a reference, or in a tag, and there in quotes. -/
inductive Mode where
  | text
  | reference (name : List Char)
  | markup (quote : Option Char)
deriving DecidableEq

structure Scanner where
  mode : Mode
  current : Piece
  done : List Piece
deriving DecidableEq

def entities : List (List Char × Char) :=
  [(['a', 'm', 'p'], '&'), (['l', 't'], '<'), (['g', 't'], '>'), (['q', 'u', 'o', 't'], '"'),
    (['a', 'p', 'o', 's'], '\'')]

/-- The quotes after a character of a tag. -/
def markupStep (quote : Option Char) (c : Char) : Option (Option Char) :=
  if c = '<' then none
  else
    match quote with
    | none => if c = '>' then none else some (if c = '"' ∨ c = '\'' then some c else none)
    | some q => some (if c = q then none else some q)

namespace Scanner

def start : Scanner := ⟨.text, ⟨[], []⟩, []⟩

def pushText (s : Scanner) (c : Char) : Scanner :=
  { s with mode := .text, current := { s.current with text := s.current.text ++ [c] } }

def pushMarkup (s : Scanner) (quote : Option Char) (c : Char) : Scanner :=
  { s with mode := .markup quote, current := { s.current with markup := s.current.markup ++ [c] } }

def close (s : Scanner) : Scanner := ⟨.text, ⟨[], []⟩, s.done ++ [s.current]⟩

def step (s : Scanner) (c : Char) : Option Scanner :=
  if !isXmlChar c then none
  else
    match s.mode with
    | .text =>
        if c = '<' then some { s with mode := .markup none }
        else if c = '&' then some { s with mode := .reference [] }
        else some (s.pushText c)
    | .reference name =>
        if c = ';' then (entities.lookup name).map s.pushText
        else some { s with mode := .reference (name ++ [c]) }
    | .markup quote =>
        if quote = none ∧ c = '>' then some s.close
        else (markupStep quote c).map (fun quote => s.pushMarkup quote c)

def run (s : Scanner) (cs : List Char) : Option Scanner := cs.foldlM step s

/-- Nothing but white space stands behind the last tag. -/
def finish (s : Scanner) : Option (List Piece) :=
  if s.mode = .text ∧ s.current.text.all (fun c => [' ', '\t', '\n'].contains c) then some s.done
  else none

end Scanner

open Scanner

def scan (cs : List Char) : Option (List Piece) := (start.run cs).bind finish

def isBlank (c : Char) : Bool := [' ', '\t', '\n'].contains c

/-- The tags that are open after a tag. -/
def nestStep (stack : List (List Char)) (markup : List Char) : Option (List (List Char)) :=
  match markup with
  | '?' :: _ => some stack
  | '!' :: _ => some stack
  | '/' :: name =>
      match stack with
      | [] => none
      | top :: stack => if top = name then some stack else none
  | markup =>
      if markup.getLast? = some '/' then some stack
      else some (markup.takeWhile (fun c => !isBlank c) :: stack)

/-- The document, if its tags are nested. -/
def parse (cs : List Char) : Option (List Piece) :=
  match scan (normalize cs) with
  | none => none
  | some pieces => if (pieces.map Piece.markup).foldlM nestStep [] = some [] then some pieces else none

/-- The elements that have a text only, with their names. -/
def leaves : List Piece → List (List Char × List Char)
  | [] => []
  | p :: rest =>
      match rest.head? with
      | some q => if q.markup = '/' :: p.markup then (p.markup, q.text) :: leaves rest else leaves rest
      | none => []

/-! ## Writing -/

/-- The five characters with a name are written by it. -/
def escapeChar (c : Char) : List Char :=
  match entities.find? (fun e => e.2 = c) with
  | some e => '&' :: (e.1 ++ [';'])
  | none => [c]

def escape (v : List Char) : List Char := v.flatMap escapeChar

def Piece.render (p : Piece) : List Char := escape p.text ++ '<' :: (p.markup ++ ['>'])

/-- An XML character that reading leaves as it is. -/
def Stays (c : Char) : Prop := isXmlChar c = true ∧ c ≠ '\r'

instance (c : Char) : Decidable (Stays c) := by
  unfold Stays
  infer_instance

/-- There are XML characters only, and the quotes in the tag are closed. -/
structure Piece.Plain (p : Piece) : Prop where
  text : ∀ c ∈ p.text, Stays c
  markup : ∀ c ∈ p.markup, Stays c
  quotes : p.markup.foldlM markupStep none = some none

instance (p : Piece) : Decidable p.Plain :=
  decidable_of_iff ((∀ c ∈ p.text, Stays c) ∧ (∀ c ∈ p.markup, Stays c) ∧
    p.markup.foldlM markupStep none = some none)
    ⟨fun h => ⟨h.1, h.2.1, h.2.2⟩, fun h => ⟨h.text, h.markup, h.quotes⟩⟩

section

variable {s : Scanner} {v : List Char} {p : Piece} {ps : List Piece}

theorem run_append (s : Scanner) (a b : List Char) : s.run (a ++ b) = (s.run a).bind (run · b) :=
  List.foldlM_append

theorem run_cons (s : Scanner) (c : Char) (cs : List Char) :
    s.run (c :: cs) = (s.step c).bind (run · cs) := rfl

theorem escapeChar_eq_self {c : Char} (h : ∀ e ∈ entities, e.2 ≠ c) : escapeChar c = [c] := by
  unfold escapeChar
  rw [List.find?_eq_none.mpr (by simpa using h)]

/-- Inside a reference. -/
theorem run_reference {name rest : List Char} (hm : s.mode = .reference name)
    (h : ∀ c ∈ rest, isXmlChar c = true ∧ c ≠ ';') :
    s.run rest = some { s with mode := .reference (name ++ rest) } := by
  induction rest generalizing s name with
  | nil => simp [run, ← hm]
  | cons c rest ih =>
      obtain ⟨hchar, hsemicolon⟩ := h c List.mem_cons_self
      have hstep : s.step c = some { s with mode := .reference (name ++ [c]) } := by
        simp [step, hchar, hm, hsemicolon]
      have hrest := @ih { s with mode := .reference (name ++ [c]) } _ rfl
        fun d hd => h d (List.mem_cons_of_mem _ hd)
      rw [run_cons, hstep, Option.bind_some, hrest, List.append_assoc]
      rfl

/-- A character of a text is read back. -/
theorem run_escapeChar (hm : s.mode = .text) {c : Char} (hc : isXmlChar c = true) :
    s.run (escapeChar c) = some (s.pushText c) := by
  unfold escapeChar
  split
  · next e he =>
      have hmem := List.mem_of_find?_eq_some he
      have hchar : e.2 = c := by simpa using List.find?_some he
      have hname : ∀ e ∈ entities, (∀ d ∈ e.1, isXmlChar d = true ∧ d ≠ ';') ∧
          entities.lookup e.1 = some e.2 := by decide
      obtain ⟨hordinary, hlookup⟩ := hname e hmem
      have hamp : s.step '&' = some { s with mode := .reference [] } := by
        simp [step, hm, show isXmlChar '&' = true by decide]
      have hend : step { s with mode := .reference e.1 } ';' = some (s.pushText c) := by
        simp [step, hlookup, hchar, show isXmlChar ';' = true by decide, pushText]
      have hrun := @run_reference { s with mode := .reference [] } [] e.1 rfl hordinary
      rw [run_cons, hamp, Option.bind_some, run_append, hrun, Option.bind_some, List.nil_append,
        run_cons, hend]
      rfl
  · next hnone =>
      have hne : ∀ e ∈ entities, e.2 ≠ c := by
        intro e he
        simpa using List.find?_eq_none.mp hnone e he
      have hlt : c ≠ '<' := Ne.symm (hne (['l', 't'], '<') (by decide))
      have hamp : c ≠ '&' := Ne.symm (hne (['a', 'm', 'p'], '&') (by decide))
      simp [run, step, hc, hm, hlt, hamp]

/-- **Escaping is undone.** -/
theorem run_escape (hm : s.mode = .text) (h : ∀ c ∈ v, isXmlChar c = true) :
    s.run (escape v) =
      some { s with current := { s.current with text := s.current.text ++ v } } := by
  unfold escape
  induction v generalizing s with
  | nil => simp [run]
  | cons c v ih =>
      have hrest := @ih (s.pushText c) rfl fun d hd => h d (List.mem_cons_of_mem _ hd)
      rw [List.flatMap_cons, run_append, run_escapeChar hm (h c List.mem_cons_self),
        Option.bind_some, hrest]
      simp [pushText, hm]

theorem run_markup {quote quote' : Option Char} {m : List Char} (hm : s.mode = .markup quote)
    (hchars : ∀ c ∈ m, isXmlChar c = true) (h : m.foldlM markupStep quote = some quote') :
    s.run m = some ⟨.markup quote', ⟨s.current.text, s.current.markup ++ m⟩, s.done⟩ := by
  induction m generalizing s quote with
  | nil =>
      obtain rfl : quote = quote' := by simpa using h
      simp [run, ← hm]
  | cons c m ih =>
      rw [List.foldlM_cons] at h
      obtain ⟨next, hnext, hrest⟩ := Option.bind_eq_some_iff.mp h
      have hopen : ¬ (quote = none ∧ c = '>') := by
        rintro ⟨rfl, rfl⟩
        simp [markupStep] at hnext
      have hstep : s.step c = some (s.pushMarkup next c) := by
        simp [step, hchars c List.mem_cons_self, hm, hopen, hnext]
      have hrun := @ih (s.pushMarkup next c) next rfl
        (fun d hd => hchars d (List.mem_cons_of_mem _ hd)) hrest
      rw [run_cons, hstep, Option.bind_some, hrun]
      simp [pushMarkup]

theorem run_piece (h : p.Plain) :
    run ⟨.text, ⟨[], []⟩, ps⟩ p.render = some ⟨.text, ⟨[], []⟩, ps ++ [p]⟩ := by
  have htext := @run_escape ⟨.text, ⟨[], []⟩, ps⟩ p.text rfl fun c hc => (h.text c hc).1
  have hopen : step ⟨.text, ⟨p.text, []⟩, ps⟩ '<' = some ⟨.markup none, ⟨p.text, []⟩, ps⟩ := by
    simp [step, show isXmlChar '<' = true by decide]
  have hmarkup := @run_markup ⟨.markup none, ⟨p.text, []⟩, ps⟩ none none p.markup rfl
    (fun c hc => (h.markup c hc).1) h.quotes
  have hclose : step ⟨.markup none, ⟨p.text, p.markup⟩, ps⟩ '>' =
      some ⟨.text, ⟨[], []⟩, ps ++ [p]⟩ := by
    simp [step, close, show isXmlChar '>' = true by decide]
  rw [Piece.render, run_append, htext, Option.bind_some, List.nil_append, run_cons, hopen,
    Option.bind_some, run_append, hmarkup, Option.bind_some, List.nil_append, run_cons, hclose]
  rfl

theorem run_pieces {qs : List Piece} (h : ∀ p ∈ ps, p.Plain) :
    run ⟨.text, ⟨[], []⟩, qs⟩ (ps.flatMap Piece.render) = some ⟨.text, ⟨[], []⟩, qs ++ ps⟩ := by
  induction ps generalizing qs with
  | nil => simp [run]
  | cons p ps ih =>
      rw [List.flatMap_cons, run_append, run_piece (h p List.mem_cons_self), Option.bind_some,
        ih fun q hq => h q (List.mem_cons_of_mem _ hq)]
      simp

theorem normalize_eq (h : '\r' ∉ v) : normalize v = v := by
  fun_induction normalize v with
  | case1 => rfl
  | case2 => simp at h
  | case3 c cs hother ih =>
      rw [List.mem_cons, not_or] at h
      rw [if_neg (Ne.symm h.1), ih h.2]

/-- Escaping brings in no line breaks. -/
theorem return_not_mem_escape (h : '\r' ∉ v) : '\r' ∉ escape v := by
  unfold escape
  rw [List.mem_flatMap]
  rintro ⟨c, hc, hmem⟩
  unfold escapeChar at hmem
  split at hmem
  · next e he =>
      have hnames : ∀ e ∈ entities, '\r' ∉ '&' :: (e.1 ++ [';']) := by decide
      exact hnames e (List.mem_of_find?_eq_some he) hmem
  · exact h (List.mem_singleton.mp hmem ▸ hc)

theorem Piece.Plain.return_not_mem (h : p.Plain) : '\r' ∉ p.render := by
  have htext : '\r' ∉ p.text := fun hmem => (h.text _ hmem).2 rfl
  have hmarkup : '\r' ∉ p.markup := fun hmem => (h.markup _ hmem).2 rfl
  simp [render, return_not_mem_escape htext, hmarkup]

/-- **A document of plain pieces is read as it is written**, with a newline at its end. -/
theorem parse_render (h : ∀ p ∈ ps, p.Plain)
    (hnest : (ps.map Piece.markup).foldlM nestStep [] = some []) :
    parse (ps.flatMap Piece.render ++ ['\n']) = some ps := by
  have hreturn : '\r' ∉ ps.flatMap Piece.render := by
    rw [List.mem_flatMap]
    rintro ⟨p, hp, hmem⟩
    exact (h p hp).return_not_mem hmem
  have hscan : scan (ps.flatMap Piece.render ++ ['\n']) = some ps := by
    unfold scan
    rw [run_append, start, run_pieces h]
    rfl
  unfold parse
  rw [normalize_eq (by simp [hreturn]), hscan]
  exact if_pos hnest

end

end Xml
