import Mathlib.Data.List.DropRight
import Mathlib.Data.List.Forall2
import Stackhour.Lib.Expansion

/-!
# Unit files of systemd

A unit file consists of lines with headers and assignments. A value may be a list
of items, which may be quoted; specifiers in the items are expanded when the file is
loaded, and references to variables in the items of a command when it is started.

The prefixes that a command may begin with and escapes by number are left out.
-/

namespace UnitFile

-- a statement about the characters of a text is decided along the text
attribute [local instance (high)] List.decidableBAll

/-! ## Lines -/

def isBlank (c : Char) : Bool := [' ', '\t', '\n', '\r'].contains c

def strip (s : List Char) : List Char := (s.dropWhile isBlank).rdropWhile isBlank

inductive Line where
  | blank
  | header (name : List Char)
  | assign (key value : List Char)
  | other
deriving DecidableEq

def isComment (line : List Char) : Bool :=
  (line.dropWhile isBlank).head? = some '#' || (line.dropWhile isBlank).head? = some ';'

/-- A line that ends with a backslash is continued by the next one. -/
def joinLines : List (List Char) → List (List Char)
  | [] => []
  | line :: rest =>
      if line.getLast? = some '\\' then
        match joinLines rest with
        | [] => [line.dropLast ++ [' ']]
        | next :: rest => (line.dropLast ++ ' ' :: next) :: rest
      else line :: joinLines rest

def parseLine (line : List Char) : Line :=
  match strip line with
  | [] => .blank
  | '[' :: rest => if rest.getLast? = some ']' then .header rest.dropLast else .other
  | s =>
      if '=' ∈ s then
        .assign (strip (s.takeWhile (· ≠ '='))) (strip (s.dropWhile (· ≠ '=')).tail)
      else .other

def parse (text : List Char) : List Line :=
  (joinLines ((text.splitOn '\n').filter (fun line => !isComment line))).map parseLine

/-- The values that are assigned to a key in the sections of a name. -/
def valuesIn (name key : List Char) : (current : Option (List Char)) → List Line → List (List Char)
  | _, [] => []
  | _, .header n :: rest => valuesIn name key (some n) rest
  | current, .assign k v :: rest =>
      if current = some name ∧ k = key then v :: valuesIn name key current rest
      else valuesIn name key current rest
  | current, _ :: rest => valuesIn name key current rest

def values (text name key : List Char) : List (List Char) := valuesIn name key none (parse text)

/-- Assignments of one key in the section. -/
theorem valuesIn_assigns {name key k : List Char} (vs : List (List Char)) (rest : List Line) :
    valuesIn name key (some name) (vs.map (Line.assign k) ++ rest) =
      (if k = key then vs else []) ++ valuesIn name key (some name) rest := by
  induction vs with
  | nil => simp
  | cons v vs ih =>
      rw [List.map_cons, List.cons_append, valuesIn, ih]
      by_cases hkey : k = key <;> simp [hkey]

/-! ### Written lines -/

namespace Line

def render : Line → List Char
  | blank => []
  | header name => '[' :: (name ++ [']'])
  | assign key value => key ++ '=' :: value
  | other => []

/-- A character that a key may have. -/
def keyChar (c : Char) : Bool := !(['\\', '=', '[', '#', ';'].contains c) && !isBlank c

/-- A value without line breaks that neither blanks nor a backslash end. -/
structure PlainValue (value : List Char) : Prop where
  newline : '\n' ∉ value
  first : ∀ c ∈ value.head?, isBlank c = false
  last : ∀ c ∈ value.getLast?, isBlank c = false ∧ c ≠ '\\'

/-- A line that is read as it is written. -/
def Plain : Line → Prop
  | blank => True
  | header name => '\n' ∉ name
  | assign key value => key ≠ [] ∧ (∀ c ∈ key, keyChar c = true) ∧ PlainValue value
  | other => False

end Line

section

variable {l : Line} {ls : List Line} {s : List Char}

theorem dropWhile_of_head (hfirst : ∀ c ∈ s.head?, isBlank c = false) :
    s.dropWhile isBlank = s := by
  cases s with
  | nil => rfl
  | cons c s => exact List.dropWhile_cons_of_neg (by simp [hfirst c rfl])

theorem strip_of_ends (hfirst : ∀ c ∈ s.head?, isBlank c = false)
    (hlast : ∀ c ∈ s.getLast?, isBlank c = false) : strip s = s := by
  unfold strip
  rw [dropWhile_of_head hfirst, List.rdropWhile_eq_self_iff]
  intro hne
  rw [hlast _ (List.getLast?_eq_some_getLast hne)]
  exact Bool.false_ne_true

theorem keyChar_iff {c : Char} : Line.keyChar c = true ↔
    (c ≠ '\\' ∧ c ≠ '=' ∧ c ≠ '[' ∧ c ≠ '#' ∧ c ≠ ';') ∧ isBlank c = false := by
  simp [Line.keyChar]

/-- What is written at the ends of a line. -/
theorem Line.Plain.ends (h : l.Plain) :
    (∀ c ∈ l.render.head?, isBlank c = false ∧ c ≠ '#' ∧ c ≠ ';') ∧
      ∀ c ∈ l.render.getLast?, isBlank c = false ∧ c ≠ '\\' := by
  cases l with
  | blank => simp [render]
  | header name =>
      refine ⟨?_, ?_⟩
      · rintro c hc
        obtain rfl : '[' = c := by simpa [render] using hc
        decide
      · rintro c hc
        obtain rfl : ']' = c := by simpa [render, List.getLast?_cons] using hc
        decide
  | assign key value =>
      obtain ⟨hne, hkey, hvalue⟩ := h
      refine ⟨?_, ?_⟩
      · rintro c hc
        cases key with
        | nil => exact absurd rfl hne
        | cons d key =>
            obtain rfl : d = c := by simpa [render] using hc
            obtain ⟨⟨-, -, -, hhash, hsemicolon⟩, hblank⟩ :=
              keyChar_iff.mp (hkey d List.mem_cons_self)
            exact ⟨hblank, hhash, hsemicolon⟩
      · rintro c hc
        cases value with
        | nil =>
            obtain rfl : '=' = c := by simpa [render] using hc
            decide
        | cons d value =>
            refine hvalue.last c ?_
            simpa [render, List.getLast?_append, List.getLast?_cons_cons] using hc
  | other => exact h.elim

theorem Line.Plain.newline_not_mem (h : l.Plain) : '\n' ∉ l.render := by
  cases l with
  | blank => simp [render]
  | header name =>
      have hname : '\n' ∉ name := h
      simp [render, hname]
  | assign key value =>
      obtain ⟨-, hkey, hvalue⟩ := h
      have hnotkey : '\n' ∉ key := by
        intro hmem
        have hchar := hkey _ hmem
        revert hchar
        decide
      simp [render, hvalue.newline, hnotkey]
  | other => exact h.elim

theorem parseLine_render (h : l.Plain) : parseLine l.render = l := by
  have hstrip : strip l.render = l.render :=
    strip_of_ends (fun c hc => (h.ends.1 c hc).1) fun c hc => (h.ends.2 c hc).1
  unfold parseLine
  rw [hstrip]
  cases l with
  | blank => rfl
  | header name =>
      show (if (name ++ [']']).getLast? = some ']' then Line.header (name ++ [']']).dropLast
        else .other) = _
      rw [List.getLast?_concat, if_pos rfl, List.dropLast_concat]
  | assign key value =>
      obtain ⟨hne, hkey, hvalue⟩ := h
      have hkeystrip : strip key = key := by
        refine strip_of_ends ?_ ?_
        · exact fun c hc => (keyChar_iff.mp (hkey c (List.mem_of_mem_head? hc))).2
        · exact fun c hc => (keyChar_iff.mp (hkey c (List.mem_of_mem_getLast? hc))).2
      have hvaluestrip : strip value = value :=
        strip_of_ends hvalue.first fun c hc => (hvalue.last c hc).1
      have hequals : ∀ c ∈ key, (decide (c ≠ '=')) = true := by
        intro c hc
        simpa using (keyChar_iff.mp (hkey c hc)).1.2.1
      have htake : (key ++ '=' :: value).takeWhile (· ≠ '=') = key := by
        rw [List.takeWhile_append_of_pos hequals]
        simp
      have hdrop : (key ++ '=' :: value).dropWhile (· ≠ '=') = '=' :: value := by
        rw [List.dropWhile_append_of_pos hequals]
        simp
      cases key with
      | nil => exact absurd rfl hne
      | cons d key =>
          obtain ⟨⟨-, -, hbracket, -, -⟩, -⟩ := keyChar_iff.mp (hkey d List.mem_cons_self)
          split
          · next hnil => cases hnil
          · next rest heq => exact absurd (List.cons.inj heq).1 hbracket
          · rw [if_pos (by simp [Line.render])]
            show Line.assign (strip ((d :: key ++ '=' :: value).takeWhile (· ≠ '=')))
              (strip ((d :: key ++ '=' :: value).dropWhile (· ≠ '=')).tail) = _
            rw [htake, hdrop, hkeystrip, List.tail_cons, hvaluestrip]
  | other => exact h.elim

/-- Lines with a newline behind each. -/
def renderLines (ls : List Line) : List Char := ls.flatMap (fun l => l.render ++ ['\n'])

/-- **A file of plain lines is read as it is written.** -/
theorem parse_render (h : ∀ l ∈ ls, l.Plain) : parse (renderLines ls) = ls ++ [.blank] := by
  have hsplit : (renderLines ls).splitOn '\n' = ls.map Line.render ++ [[]] := by
    unfold renderLines
    induction ls with
    | nil => rfl
    | cons l ls ih =>
        have hrest := ih fun m hm => h m (List.mem_cons_of_mem _ hm)
        have hline := (h l List.mem_cons_self).newline_not_mem
        rw [List.flatMap_cons, List.append_assoc, List.singleton_append,
          List.splitOn_append_cons_self, List.splitOn_eq_singleton hline, hrest]
        rfl
  have hread : joinLines ((ls.map Line.render ++ [[]]).filter (fun line => !isComment line)) =
      ls.map Line.render ++ [[]] := by
    clear hsplit
    induction ls with
    | nil => rfl
    | cons l ls ih =>
        have hplain := h l List.mem_cons_self
        have hcomment : isComment l.render = false := by
          have hdrop := dropWhile_of_head fun c hc => (hplain.ends.1 c hc).1
          unfold isComment
          rw [hdrop]
          cases hfirst : l.render.head? with
          | none => rfl
          | some c => simp [hplain.ends.1 c hfirst]
        have hlast : l.render.getLast? ≠ some '\\' := by
          intro heq
          exact (hplain.ends.2 _ heq).2 rfl
        have hrest := ih fun m hm => h m (List.mem_cons_of_mem _ hm)
        rw [List.map_cons, List.cons_append, List.filter_cons_of_pos (by simp [hcomment]),
          joinLines, if_neg hlast, hrest]
  unfold parse
  rw [hsplit, hread, List.map_append, List.map_map]
  refine congrArg (· ++ [Line.blank]) ?_
  exact (List.map_congr_left fun l hl => parseLine_render (h l hl)).trans (List.map_id ls)

end

/-! ## Items -/

/-- Where a character of a value stands: between two items, in one without quotes
or with them, or behind a closing quote. -/
inductive Mode where
  | between
  | bare
  | quoted (q : Char)
  | closed
deriving DecidableEq

structure Items where
  mode : Mode
  escape : Bool
  word : List Char
  done : List (List Char)
deriving DecidableEq

/-- The escapes by a letter. -/
def unescape (c : Char) : Option Char :=
  [('a', '\x07'), ('b', '\x08'), ('f', '\x0c'), ('n', '\n'), ('r', '\r'), ('t', '\t'), ('v', '\x0b'),
    ('\\', '\\'), ('"', '"'), ('\'', '\''), ('s', ' ')].lookup c

namespace Items

def start : Items := ⟨.between, false, [], []⟩

def push (s : Items) (c : Char) : Items := { s with escape := false, word := s.word ++ [c] }

/-- A character of the current item. -/
def take (s : Items) (c : Char) : Items := if c = '\\' then { s with escape := true } else s.push c

def next (s : Items) : Items := { s with mode := .between, word := [], done := s.done ++ [s.word] }

def step (s : Items) (c : Char) : Option Items :=
  if s.escape then (unescape c).map s.push
  else
    match s.mode with
    | .between =>
        if isBlank c then some s
        else if c = '"' ∨ c = '\'' then some { s with mode := .quoted c }
        else some (take { s with mode := .bare } c)
    | .bare => if isBlank c then some s.next else some (s.take c)
    | .quoted q => if c = q then some { s with mode := .closed } else some (s.take c)
    | .closed => if isBlank c then some s.next else none

def run (s : Items) (cs : List Char) : Option Items := cs.foldlM step s

def finish (s : Items) : Option (List (List Char)) :=
  if s.escape then none
  else
    match s.mode with
    | .between => some s.done
    | .bare | .closed => some (s.done ++ [s.word])
    | .quoted _ => none

end Items

open Items

/-- The items of a value. -/
def items (value : List Char) : Option (List (List Char)) := (start.run value).bind finish

/-- Between two items. -/
def Items.Between (s : Items) : Prop := s.mode = .between ∧ s.escape = false ∧ s.word = []

/-- Read between two items, the text is an item that a blank ends. -/
def Writes (text word : List Char) : Prop :=
  ∀ s : Items, s.Between → ∃ mode, (mode = .bare ∨ mode = .closed) ∧
    s.run text = some { s with mode := mode, word := word }

section

variable {s : Items} {text word v : List Char}

theorem run_append (s : Items) (a b : List Char) : s.run (a ++ b) = (s.run a).bind (run · b) :=
  List.foldlM_append

theorem run_cons (s : Items) (c : Char) (cs : List Char) :
    s.run (c :: cs) = (s.step c).bind (run · cs) := rfl

/-- A character that is itself everywhere in an item. -/
def Ordinary (c : Char) : Prop := isBlank c = false ∧ c ∉ ['"', '\'', '\\']

instance (c : Char) : Decidable (Ordinary c) := by
  unfold Ordinary
  infer_instance

theorem run_bare (hm : s.mode = .bare) (he : s.escape = false) (h : ∀ c ∈ text, Ordinary c) :
    s.run text = some { s with word := s.word ++ text } := by
  induction text generalizing s with
  | nil => simp [run]
  | cons c text ih =>
      obtain ⟨hblank, hc⟩ := h c List.mem_cons_self
      simp only [List.mem_cons, List.not_mem_nil, or_false, not_or] at hc
      have hstep : s.step c = some (s.push c) := by simp [step, he, hm, hblank, take, hc]
      have hrest := @ih (s.push c) hm rfl fun d hd => h d (List.mem_cons_of_mem _ hd)
      rw [run_cons, hstep, Option.bind_some, hrest]
      simp [push, he]

/-- A text of ordinary characters is written as it is. -/
theorem Writes.ordinary (hne : text ≠ []) (h : ∀ c ∈ text, Ordinary c) : Writes text text := by
  rintro ⟨mode, escape, word, done⟩ ⟨rfl, rfl, rfl⟩
  refine ⟨.bare, .inl rfl, ?_⟩
  cases text with
  | nil => exact absurd rfl hne
  | cons c text =>
      obtain ⟨hblank, hc⟩ := h c List.mem_cons_self
      simp only [List.mem_cons, List.not_mem_nil, or_false, not_or] at hc
      have hstep : step ⟨.between, false, [], done⟩ c = some ⟨.bare, false, [c], done⟩ := by
        simp [step, hblank, hc, take, push]
      have hrest := @run_bare ⟨.bare, false, [c], done⟩ text rfl rfl
        fun d hd => h d (List.mem_cons_of_mem _ hd)
      rw [run_cons, hstep, Option.bind_some, hrest]
      rfl

/-- A text between double quotes, with a backslash before quotes and backslashes. -/
def quote (v : List Char) : List Char :=
  '"' :: (v.flatMap (fun c => if c = '\\' ∨ c = '"' then ['\\', c] else [c]) ++ ['"'])

theorem run_quoted (hm : s.mode = .quoted '"') (he : s.escape = false) :
    s.run (v.flatMap (fun c => if c = '\\' ∨ c = '"' then ['\\', c] else [c])) =
      some { s with word := s.word ++ v } := by
  induction v generalizing s with
  | nil => simp [run]
  | cons c v ih =>
      have hone : s.run (if c = '\\' ∨ c = '"' then ['\\', c] else [c]) = some (s.push c) := by
        split
        · next heq =>
            rcases heq with rfl | rfl <;>
              simp [run, step, he, hm, take, unescape, push, List.lookup_cons]
        · next hne =>
            rw [not_or] at hne
            simp [run, step, he, hm, take, hne]
      have hrest := @ih (s.push c) hm rfl
      rw [List.flatMap_cons, run_append, hone, Option.bind_some, hrest]
      simp [push, he]

/-- **Quoting is undone.** -/
theorem writes_quote (v : List Char) : Writes (quote v) v := by
  rintro ⟨mode, escape, word, done⟩ ⟨rfl, rfl, rfl⟩
  refine ⟨.closed, .inr rfl, ?_⟩
  have hopen : step ⟨.between, false, [], done⟩ '"' = some ⟨.quoted '"', false, [], done⟩ := by
    simp [step, isBlank]
  have hclose : ∀ w, run ⟨.quoted '"', false, w, done⟩ ['"'] = some ⟨.closed, false, w, done⟩ := by
    intro w
    simp [run, step]
  have hquoted := @run_quoted ⟨.quoted '"', false, [], done⟩ v rfl rfl
  rw [quote, run_cons, hopen, Option.bind_some, run_append, hquoted, Option.bind_some]
  exact hclose v

/-! ### Plain values -/

open Line (PlainValue)

theorem plainValue_quote (h : '\n' ∉ v) : PlainValue (quote v) where
  newline := by
    unfold quote
    simp only [List.mem_cons, List.mem_append, List.mem_flatMap, List.not_mem_nil, or_false, not_or]
    refine ⟨by decide, ?_, by decide⟩
    rintro ⟨c, hc, hmem⟩
    split at hmem
    · next hspecial => rcases hspecial with rfl | rfl <;> simp at hmem
    · exact h (List.mem_singleton.mp hmem ▸ hc)
  first c hc := by
    obtain rfl : '"' = c := by simpa [quote] using hc
    decide
  last c hc := by
    obtain rfl : '"' = c := by simpa [quote, List.getLast?_cons] using hc
    decide

theorem plainValue_ordinary (h : ∀ c ∈ v, Ordinary c) : PlainValue v where
  newline hmem := absurd (h _ hmem) (by decide)
  first c hc := (h c (List.mem_of_mem_head? hc)).1
  last c hc := by
    obtain ⟨hblank, hother⟩ := h c (List.mem_of_mem_getLast? hc)
    refine ⟨hblank, ?_⟩
    rintro rfl
    exact hother (by decide)

theorem plainValue_join {texts : List (List Char)} (h : ∀ t ∈ texts, t ≠ [] ∧ PlainValue t) :
    PlainValue ([' '].intercalate texts) := by
  induction texts with
  | nil => exact ⟨by simp, by simp, by simp⟩
  | cons t texts ih =>
      obtain ⟨hne, hplain⟩ := h t List.mem_cons_self
      cases texts with
      | nil => simpa using hplain
      | cons t' texts =>
          have hrest := ih fun u hu => h u (List.mem_cons_of_mem _ hu)
          have hrestne : [' '].intercalate (t' :: texts) ≠ [] := by
            have hne' := (h t' (by simp)).1
            cases texts <;> simp [hne']
          rw [List.intercalate_cons_cons]
          refine ⟨?_, ?_, ?_⟩
          · simp [hplain.newline, hrest.newline]
          · rw [List.append_assoc, List.head?_append_of_ne_nil _ hne]
            exact hplain.first
          · rw [List.getLast?_append_of_ne_nil _ hrestne]
            exact hrest.last

/-! ### Joined items -/

/-- Texts that are joined with blanks are the items they write. -/
theorem items_join {texts words : List (List Char)} (h : List.Forall₂ Writes texts words)
    (hs : s.Between) :
    (s.run ([' '].intercalate texts)).bind finish = some (s.done ++ words) := by
  induction h generalizing s with
  | nil =>
      obtain ⟨hm, he, -⟩ := hs
      simp [run, finish, hm, he]
  | @cons text word texts words hword hrest ih =>
      obtain ⟨mode, hmode, hrun⟩ := hword s hs
      obtain ⟨hm, he, -⟩ := hs
      cases hrest with
      | nil =>
          rw [List.intercalate_singleton, hrun]
          rcases hmode with rfl | rfl <;> simp [finish, he]
      | @cons text' word' texts words hword' hrest =>
          have hnext := @ih ⟨.between, false, [], s.done ++ [word]⟩ ⟨rfl, rfl, rfl⟩
          have hblank : step { s with mode := mode, word := word } ' ' =
              some ⟨.between, false, [], s.done ++ [word]⟩ := by
            rcases hmode with rfl | rfl <;> simp [step, he, isBlank, next]
          rw [List.intercalate_cons_cons, run_append, run_append, hrun, Option.bind_some, run_cons,
            hblank]
          refine hnext.trans ?_
          simp

theorem items_texts {texts words : List (List Char)} (h : List.Forall₂ Writes texts words) :
    items ([' '].intercalate texts) = some words := @items_join start _ _ h ⟨rfl, rfl, rfl⟩

end

/-! ## Specifiers and variables -/

/-- What specifiers and variables stand for, those that are known. -/
structure Manager where
  specifiers : Char → Option (List Char)
  environment : List Char → Option (List Char)

open Expansion

/-- A percent sign begins a specifier, which has to be known. -/
def specifierRule (m : Manager) : List Char → Verdict Char
  | '%' :: '%' :: _ => .replace ['%'] 1
  | '%' :: c :: _ =>
      match m.specifiers c with
      | some value => .replace value 1
      | none => .invalid
  | ['%'] => .invalid
  | _ => .keep

/-- What the environment and the command have after loading. -/
def load (m : Manager) (words : List (List Char)) : Option (List (List Char)) :=
  words.mapM (expand (specifierRule m))

/-- The name of a variable. -/
def isName (name : List Char) : Bool :=
  name.all (fun c => c.isAlphanum || c = '_') && name.head?.any (fun c => !c.isDigit)

/-- What begins with a dollar sign. -/
inductive Reference where
  | dollar
  | braced (name : List Char)

def reference : List Char → Option Reference
  | '$' :: '$' :: _ => some .dollar
  | '$' :: '\x7b' :: rest =>
      if isName (rest.takeWhile (· ≠ '\x7d')) ∧ '\x7d' ∈ rest then
        some (.braced (rest.takeWhile (· ≠ '\x7d')))
      else none
  | _ => none

/-- A variable that is not known is empty. -/
def referenceRule (m : Manager) (s : List Char) : Verdict Char :=
  match reference s with
  | none => .keep
  | some .dollar => .replace ['$'] 1
  | some (.braced name) => .replace ((m.environment name).getD []) (name.length + 2)

/-- The variable that is the whole word. -/
def wholeName : List Char → Option (List Char)
  | '$' :: name => if isName name then some name else none
  | _ => none

/-- The words that a word of a command becomes. -/
def substitute (m : Manager) (w : List Char) : List (List Char) :=
  match wholeName w with
  | some name => (items ((m.environment name).getD [])).getD []
  | none => (expand (referenceRule m) w).toList

/-- The words of a command when it is started. -/
def startWords (m : Manager) (words : List (List Char)) : Option (List (List Char)) :=
  (load m words).map (fun ws => ws.flatMap (substitute m))

/-- The environment that the file sets. -/
def setEnvironment (m : Manager) (text : List Char) : Option (List (List Char)) :=
  match (values text "Service".toList "Environment".toList).mapM items with
  | some words => load m words.flatten
  | none => none

/-- The words of the command that the file starts. -/
def startCommand (m : Manager) (text : List Char) : Option (List (List Char)) :=
  match values text "Service".toList "ExecStart".toList with
  | [value] => (items value).bind (startWords m)
  | _ => none

/-- A word without specifiers. -/
def NoSpecifier (w : List Char) : Prop := '%' ∉ w

/-- A word that is not a variable and refers to none. -/
def NoReference (w : List Char) : Prop := wholeName w = none ∧ ∀ t, t <:+ w → reference t = none

section

variable {m : Manager} {w : List Char} {ws : List (List Char)}

theorem specifierRule_keep {c : Char} {s : List Char} :
    specifierRule m (c :: s) = .keep ↔ c ≠ '%' := by
  constructor
  · rintro h rfl
    cases s with
    | nil => cases h
    | cons d s =>
        by_cases hd : d = '%'
        · subst hd
          cases h
        · rw [specifierRule.eq_2 m d s hd] at h
          split at h <;> cases h
  · intro h
    cases s <;> simp [specifierRule, h]

theorem keeps_specifierRule : Keeps (specifierRule m) w ↔ NoSpecifier w := by
  unfold NoSpecifier
  induction w with
  | nil => exact ⟨fun _ => List.not_mem_nil, fun _ t ht hne => absurd (List.suffix_nil.mp ht) hne⟩
  | cons c w ih =>
      rw [keeps_cons, specifierRule_keep, ih, List.mem_cons, not_or]
      exact and_congr_left fun _ => ne_comm

theorem keeps_referenceRule :
    Keeps (referenceRule m) w ↔ ∀ t, t <:+ w → reference t = none := by
  have hkeep : ∀ t, referenceRule m t = .keep ↔ reference t = none := by
    intro t
    unfold referenceRule
    split <;> simp_all
  constructor
  · intro h t ht
    cases t with
    | nil => rfl
    | cons c t => exact (hkeep _).mp (h _ ht (List.cons_ne_nil _ _))
  · exact fun h t ht _ => (hkeep t).mpr (h t ht)

/-- Nothing stands for anything. -/
def Manager.bare : Manager := ⟨fun _ => some [], fun _ => none⟩

theorem shrinks_specifierRule : Shrinks (specifierRule .bare) := by
  intro s out more h
  unfold specifierRule at h
  split at h
  · cases h
    simp
  · cases h
    simp
  · cases h
  · cases h

theorem NoReference.of_not_mem (h : '$' ∉ w) : NoReference w := by
  have hreference : ∀ t, '$' ∉ t → reference t = none := by
    intro t ht
    unfold reference
    split
    · simp at ht
    · simp at ht
    · rfl
  refine ⟨?_, fun t ht => hreference t fun hmem => h (ht.subset hmem)⟩
  unfold wholeName
  split
  · simp at h
  · rfl

theorem length_of_reference {s : List Char} {name : List Char}
    (h : reference s = some (.braced name)) : name.length + 2 < s.length := by
  unfold reference at h
  split at h
  · cases h
  · next rest =>
      split at h
      · next hname =>
          cases h
          have hdrop : rest.dropWhile (· ≠ '\x7d') ≠ [] := by
            intro hnil
            have hkept := List.dropWhile_eq_nil_iff.mp hnil _ hname.2
            simp at hkept
          have hlength := congrArg List.length
            (List.takeWhile_append_dropWhile (p := (· ≠ '\x7d')) (l := rest))
          have hpos := List.length_pos_iff.mpr hdrop
          rw [List.length_append] at hlength
          simp only [List.length_cons]
          omega
      · cases h
  · cases h

theorem shrinks_referenceRule : Shrinks (referenceRule .bare) := by
  intro s out more h
  unfold referenceRule at h
  split at h
  · cases h
  · next hdollar =>
      cases h
      unfold reference at hdollar
      split at hdollar
      · simp
      · split at hdollar <;> cases hdollar
      · cases hdollar
  · next name hbraced =>
      cases h
      exact ⟨Nat.zero_le _, length_of_reference hbraced⟩

/-! ### Words that are loaded and started as they are -/

theorem NoSpecifier.expand (h : NoSpecifier w) : expand (specifierRule m) w = some w :=
  (keeps_specifierRule.mpr h).expand

theorem NoReference.substitute (h : NoReference w) : substitute m w = [w] := by
  unfold UnitFile.substitute
  rw [h.1, (keeps_referenceRule.mpr h.2).expand]
  rfl

theorem load_self (h : ∀ w ∈ ws, NoSpecifier w) : load m ws = some ws := by
  unfold load
  induction ws with
  | nil => rfl
  | cons w ws ih =>
      rw [List.mapM_cons, (h w List.mem_cons_self).expand,
        ih fun v hv => h v (List.mem_cons_of_mem _ hv)]
      rfl

theorem load_cons {us : List (List Char)} : load m (w :: ws) = some us ↔
    ∃ u us', expand (specifierRule m) w = some u ∧ load m ws = some us' ∧ us = u :: us' := by
  unfold load
  rw [List.mapM_cons]
  cases hw : Expansion.expand (specifierRule m) w with
  | none => simp
  | some u =>
      cases hws : List.mapM (Expansion.expand (specifierRule m)) ws with
      | none => simp
      | some us' => simp [eq_comm]

/-- **Words are loaded as they are**, whatever the specifiers stand for, if and
only if they have none. -/
theorem load_iff : (∀ m, load m ws = some ws) ↔ ∀ w ∈ ws, NoSpecifier w := by
  refine ⟨fun h => ?_, fun h m => load_self h⟩
  replace h := h .bare
  induction ws with
  | nil => simp
  | cons w ws ih =>
      obtain ⟨u, us, hword, hrest, heq⟩ := load_cons.mp h
      obtain ⟨rfl, rfl⟩ := List.cons.inj heq
      have hw := keeps_specifierRule.mp (shrinks_specifierRule.expand_eq_self.mp hword)
      exact List.forall_mem_cons.mpr ⟨hw, ih hrest⟩

/-- Without variables, a word becomes one word only if it is not a variable. -/
theorem substitute_bare {u : List Char} (h : substitute .bare u = [w]) :
    wholeName u = none ∧ expand (referenceRule .bare) u = some w := by
  unfold substitute at h
  split at h
  · cases h
  · next hname =>
      exact ⟨hname, Option.toList_eq_singleton_iff.mp h⟩

/-- **A command is started with its words**, whatever specifiers and variables
stand for, if and only if its first word has none, the others having none. -/
theorem startWords_iff (hws : ∀ v ∈ ws, NoSpecifier v ∧ NoReference v) :
    (∀ m, startWords m (w :: ws) = some (w :: ws)) ↔ NoSpecifier w ∧ NoReference w := by
  have hrest : ∀ m, load m ws = some ws := fun m => load_self fun v hv => (hws v hv).1
  have hkept : ∀ m, ws.flatMap (substitute m) = ws := by
    intro m
    clear hrest
    induction ws with
    | nil => rfl
    | cons v ws ih =>
        rw [List.flatMap_cons, (hws v List.mem_cons_self).2.substitute,
          ih fun u hu => hws u (List.mem_cons_of_mem _ hu)]
        rfl
  constructor
  · intro h
    replace h := h .bare
    obtain ⟨us, hload, hsubstitute⟩ := Option.map_eq_some_iff.mp h
    obtain ⟨u, us', hword, hload', rfl⟩ := load_cons.mp hload
    obtain rfl : us' = ws := Option.some.inj (hload'.symm.trans (hrest _))
    rw [List.flatMap_cons, hkept] at hsubstitute
    have hfirst : substitute .bare u = [w] := List.append_cancel_right hsubstitute
    obtain ⟨hname, hexpand⟩ := substitute_bare hfirst
    have hlong := shrinks_referenceRule.length_le (Nat.zero_le _) hexpand
    have hw := shrinks_specifierRule.keeps hword hlong
    obtain rfl : u = w := Option.some.inj (hword.symm.trans hw.expand)
    exact ⟨keeps_specifierRule.mp hw, hname,
      keeps_referenceRule.mp (shrinks_referenceRule.expand_eq_self.mp hexpand)⟩
  · rintro ⟨hspecifier, hreference⟩ m
    unfold startWords
    rw [load_cons.mpr ⟨w, ws, hspecifier.expand, hrest m, rfl⟩, Option.map_some, List.flatMap_cons,
      hreference.substitute, hkept]
    rfl

/-! ### Quoted values -/

theorem items_quote (v : List Char) : items (quote v) = some [v] := by
  have hjoin := items_texts (.cons (writes_quote v) .nil)
  rwa [List.intercalate_singleton] at hjoin

/-- The environment that quoted assignments set. -/
theorem setEnvironment_quoted {text : List Char}
    (h : values text "Service".toList "Environment".toList = ws.map quote) :
    setEnvironment m text = load m ws := by
  have hitems : (ws.map quote).mapM items = some (ws.map ([·])) := by
    clear h
    induction ws with
    | nil => rfl
    | cons w ws ih =>
        rw [List.map_cons, List.mapM_cons, items_quote, ih]
        rfl
  have hflatten : (ws.map ([·])).flatten = ws := by
    clear h hitems
    induction ws with
    | nil => rfl
    | cons w ws ih =>
        rw [List.map_cons, List.flatten_cons, ih]
        rfl
  unfold setEnvironment
  rw [h, hitems]
  exact congrArg (load m) hflatten

/-- The command that a quoted word and ordinary ones start. -/
theorem startCommand_quoted {text : List Char}
    (h : values text "Service".toList "ExecStart".toList =
      [[' '].intercalate (quote w :: ws)])
    (hws : ∀ v ∈ ws, v ≠ [] ∧ ∀ c ∈ v, Ordinary c) :
    startCommand m text = startWords m (w :: ws) := by
  have hwrites : List.Forall₂ Writes (quote w :: ws) (w :: ws) := by
    refine .cons (writes_quote w) (List.forall₂_same.mpr fun v hv => ?_)
    exact Writes.ordinary (hws v hv).1 (hws v hv).2
  unfold startCommand
  rw [h]
  exact congrArg (Option.bind · (startWords m)) (items_texts hwrites)

end

end UnitFile
