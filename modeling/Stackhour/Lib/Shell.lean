import Mathlib.Data.List.Forall2

/-!
# Words of the POSIX shell

The shell cuts its input into tokens character by character: blanks and operators
end a word, quotes and backslashes take the meaning from characters, and a dollar
or a backquote begins an expansion that goes up to its matching end. A character
of a word is kept with a mark that says whether the shell acts on it afterwards
(expands it, or matches file names with it); a word without marks is itself.

A closing parenthesis that belongs to a pattern of `case` is not understood inside
a command substitution, and alias substitution is left out.
-/

namespace Shell

/-! ## Tokens -/

/-- What encloses the current character: quotes, or an expansion. -/
inductive Mode where
  | single
  | double
  | command
  | parameter
  | backquote
deriving DecidableEq

/-- Characters, marked if they are acted on. -/
abbrev Word := List (Char × Bool)

inductive Token where
  | word (w : Word)
  | operator (o : List Char)
deriving DecidableEq

/-- What the characters before leave open. -/
inductive Pending where
  | nothing
  | escape
  | dollar
  | operator (o : List Char)
  | comment
deriving DecidableEq

/-- `modes` has the innermost first; `word` is the word that has begun. -/
structure State where
  modes : List Mode
  pending : Pending
  word : Option Word
  tokens : List Token
deriving DecidableEq

/-- The text that a word without marks stands for. -/
def literal (s : List Char) : Word := s.map (fun c => (c, false))

def operators : List (List Char) :=
  [['&', '&'], ['|', '|'], [';', ';'], ['<', '<'], ['>', '>'], ['<', '&'], ['>', '&'],
    ['<', '>'], ['<', '<', '-'], ['>', '|'], ['&'], ['|'], [';'], ['<'], ['>'], ['('], [')'],
    ['\n']]

namespace State

def start : State := ⟨[], .nothing, none, []⟩

/-- Inside an expansion everything is acted on. -/
def expanding (s : State) : Bool := s.modes.any (fun m => m ≠ .single && m ≠ .double)

def push (s : State) (c : Char) (active : Bool) : State :=
  { s with
    pending := .nothing
    word := some (s.word.getD [] ++ [(c, active || s.expanding)]) }

def enter (s : State) (m : Mode) : State :=
  { s with
    modes := m :: s.modes
    pending := .nothing
    word := some (s.word.getD []) }

def leave (s : State) : State := { s with modes := s.modes.tail }

def await (s : State) (p : Pending) : State := { s with pending := p }

def endWord (s : State) : State :=
  match s.word with
  | none => s
  | some w => { s with word := none, tokens := s.tokens ++ [.word w] }

def endOperator (s : State) (o : List Char) : State :=
  { s with pending := .nothing, tokens := s.tokens ++ [.operator o] }

/-- A character that can begin a quotation or an expansion. -/
def readQuoting (s : State) (c : Char) (otherwise : State) : State :=
  if c = '\'' then s.enter .single
  else if c = '"' then s.enter .double
  else if c = '\\' then s.await .escape
  else if c = '$' then s.await .dollar
  else if c = '\x60' then (s.push c true).enter .backquote
  else otherwise

/-- The next character, nothing being open. -/
def read (s : State) (c : Char) : State :=
  match s.modes with
  | [] =>
      s.readQuoting c
        (if c = ' ' ∨ c = '\t' then s.endWord
         else if [c] ∈ operators then s.endWord.await (.operator [c])
         else if c = '#' ∧ s.word = none then s.await .comment
         else s.push c (c = '*' ∨ c = '?' ∨ c = '[' ∨ (c = '~' ∧ s.word = none)))
  | .single :: _ => if c = '\'' then s.leave else s.push c false
  | .double :: _ =>
      if c = '"' then s.leave
      else if c = '\'' then s.push c false
      else s.readQuoting c (s.push c false)
  | .command :: _ =>
      if c = ')' then (s.push c true).leave
      else if c = '(' then (s.push c true).enter .command
      else s.readQuoting c (s.push c true)
  | .parameter :: _ =>
      if c = '}' then (s.push c true).leave else s.readQuoting c (s.push c true)
  | .backquote :: _ =>
      if c = '\x60' then (s.push c true).leave
      else if c = '\\' then s.await .escape
      else s.push c true

/-- The characters that a backslash escapes inside double quotes. -/
def escapable : List Char := ['$', '\x60', '"', '\\']

/-- The next character. -/
def step (s : State) (c : Char) : State :=
  match s.pending with
  | .nothing => s.read c
  | .escape =>
      if c = '\n' then s.await .nothing
      else if s.modes.head? = some .double ∧ c ∉ escapable then (s.push '\\' false).read c
      else s.push c false
  | .dollar =>
      if c = '(' then ((s.push '$' true).push c true).enter .command
      else if c = '{' then ((s.push '$' true).push c true).enter .parameter
      else (s.push '$' true).read c
  | .operator o =>
      if o ++ [c] ∈ operators then s.await (.operator (o ++ [c])) else (s.endOperator o).read c
  | .comment => if c = '\n' then (s.await .nothing).read c else s

def run (s : State) (cs : List Char) : State := cs.foldl step s

/-- The tokens at the end of the input, unless something is left open. -/
def finish (s : State) : Option (List Token) :=
  if s.modes ≠ [] then none
  else
    match s.pending with
    | .nothing | .comment => some s.endWord.tokens
    | .dollar => some (s.push '$' true).endWord.tokens
    | .operator o => some (s.endOperator o).tokens
    | .escape => none

end State

open State

/-- The tokens of a command. -/
def tokens (cs : List Char) : Option (List Token) := (start.run cs).finish

/-- The tokens of a script that more commands follow. -/
def scriptTokens (script : List Char) : List Token := (start.run script).endWord.tokens

theorem run_append (s : State) (a b : List Char) : s.run (a ++ b) = (s.run a).run b :=
  List.foldl_append

@[simp] theorem run_nil (s : State) : s.run [] = s := rfl

@[simp] theorem run_cons (s : State) (c : Char) (cs : List Char) :
    s.run (c :: cs) = (s.step c).run cs := rfl

/-! ## Words that spell a text -/

/-- Between two words, outside of all quotes. -/
def State.Between (s : State) : Prop := s.modes = [] ∧ s.pending = .nothing ∧ s.word = none

instance (s : State) : Decidable s.Between := by
  unfold State.Between
  infer_instance

/-- Read between two words, the text begins the word and goes on in it. -/
def Spells (text : List Char) (w : Word) : Prop :=
  ∀ s : State, s.Between → s.run text = { s with word := some w }

/-- A character that neither ends a word nor is acted on. -/
def Ordinary (c : Char) : Prop :=
  c ∉ ['\'', '"', '\\', '$', '\x60', ' ', '\t', '#', '*', '?', '[', '~'] ∧ [c] ∉ operators

instance (c : Char) : Decidable (Ordinary c) := by
  unfold Ordinary
  infer_instance

section

variable {s : State} {w : Word} {text v : List Char}

theorem step_ordinary (hm : s.modes = []) (hp : s.pending = .nothing) {c : Char} (hc : Ordinary c) :
    s.step c = { s with word := some (s.word.getD [] ++ [(c, false)]) } := by
  obtain ⟨hc, hop⟩ := hc
  simp only [List.mem_cons, List.not_mem_nil, or_false, not_or] at hc
  simp [State.step, hp, State.read, hm, State.readQuoting, hc, hop, State.push, State.expanding]

theorem run_ordinary (hm : s.modes = []) (hp : s.pending = .nothing) (hw : s.word = some w)
    (h : ∀ c ∈ text, Ordinary c) : s.run text = { s with word := some (w ++ literal text) } := by
  induction text generalizing s w with
  | nil => simp [literal, ← hw]
  | cons c text ih =>
      have hrest := @ih { s with word := some (w ++ [(c, false)]) } _ hm hp rfl
        fun d hd => h d (List.mem_cons_of_mem _ hd)
      rw [run_cons, step_ordinary hm hp (h c List.mem_cons_self), hw, Option.getD_some, hrest]
      simp [literal]

/-- A text of ordinary characters spells itself. -/
theorem Spells.ordinary (hne : text ≠ []) (h : ∀ c ∈ text, Ordinary c) :
    Spells text (literal text) := by
  rintro s ⟨hm, hp, hw⟩
  cases text with
  | nil => exact absurd rfl hne
  | cons c text =>
      rw [run_cons, step_ordinary hm hp (h c List.mem_cons_self), hw]
      exact @run_ordinary { s with word := some [(c, false)] } _ _ hm hp rfl
        fun d hd => h d (List.mem_cons_of_mem _ hd)

/-! ## Single quotes -/

/-- A text between single quotes; a single quote in it stands between double
quotes, outside of the others. -/
def quote (v : List Char) : List Char :=
  '\'' :: (v.flatMap (fun c => if c = '\'' then "'\"'\"'".toList else [c]) ++ ['\''])

/-- Inside single quotes. -/
def State.quoting (s : State) (w : Word) : State := { s with modes := [.single], word := some w }

theorem run_quoted (hp : s.pending = .nothing) :
    (s.quoting w).run (v.flatMap (fun c => if c = '\'' then "'\"'\"'".toList else [c])) =
      s.quoting (w ++ literal v) := by
  induction v generalizing w with
  | nil => simp [literal]
  | cons c v ih =>
      have hone : (s.quoting w).run (if c = '\'' then "'\"'\"'".toList else [c]) =
          s.quoting (w ++ [(c, false)]) := by
        split
        · next heq =>
            subst heq
            simp [State.step, State.read, State.quoting, State.readQuoting, State.enter,
              State.leave, State.push, State.expanding, hp]
        · next hne =>
            simp [State.step, State.read, State.quoting, State.push, State.expanding, hp, hne]
      rw [List.flatMap_cons, run_append, hone, ih]
      simp [literal]

/-- **Quoting is undone by the shell**: a quoted text goes on the word with the
characters of the text, none of which is acted on. -/
theorem run_quote (hm : s.modes = []) (hp : s.pending = .nothing) :
    s.run (quote v) = { s with word := some (s.word.getD [] ++ literal v) } := by
  have henter : s.step '\'' = s.quoting (s.word.getD []) := by
    simp [State.step, hp, State.read, hm, State.readQuoting, State.enter, State.quoting]
  have hleave : ∀ w, (s.quoting w).step '\'' = { s with word := some w } := by
    intro w
    simp [State.step, hp, State.read, State.leave, State.quoting, hm]
  rw [quote, run_cons, henter, run_append, run_quoted hp, run_cons, hleave, run_nil]

theorem spells_quote : Spells (quote v) (literal v) := by
  rintro s ⟨hm, hp, hw⟩
  rw [run_quote hm hp, hw]
  rfl

theorem Spells.append_quote (h : Spells text w) : Spells (text ++ quote v) (w ++ literal v) := by
  rintro s hs
  rw [run_append, h s hs]
  exact run_quote hs.1 hs.2.1

/-- A quoted text is one word, the text itself. -/
theorem tokens_quote (v : List Char) : tokens (quote v) = some [.word (literal v)] := by
  unfold tokens
  rw [spells_quote State.start ⟨rfl, rfl, rfl⟩]
  rfl

/-! ## Several words -/

theorem step_blank (hm : s.modes = []) (hp : s.pending = .nothing) :
    s.step ' ' = s.endWord := by
  simp [State.step, hp, State.read, hm, State.readQuoting]

theorem endWord_eq : s.endWord = { s with word := none, tokens := s.endWord.tokens } := by
  obtain ⟨modes, pending, _ | w, tokens⟩ := s <;> rfl

/-- A semicolon ends the command before it. -/
theorem run_semicolon (hm : s.modes = []) (hp : s.pending = .nothing) :
    s.run [';', ' '] = { s with word := none, tokens := s.endWord.tokens ++ [.operator [';']] } := by
  have hread : s.step ';' = s.endWord.await (.operator [';']) := by
    simp [State.step, hp, State.read, hm, State.readQuoting, operators]
  rw [run_cons, hread, endWord_eq]
  simp [State.step, State.await, State.endOperator, State.read, State.readQuoting, operators,
    State.endWord, hm, hp]

/-- Texts that are joined with blanks are the words they spell. -/
theorem tokens_join {texts : List (List Char)} {ws : List Word} (h : List.Forall₂ Spells texts ws)
    (hs : s.Between) :
    (s.run ([' '].intercalate texts)).finish = some (s.tokens ++ ws.map .word) := by
  induction h generalizing s with
  | nil =>
      obtain ⟨hm, hp, hw⟩ := hs
      simp [State.finish, hm, hp, hw, State.endWord]
  | @cons text w texts ws hword hrest ih =>
      obtain ⟨hm, hp, hw⟩ := hs
      cases hrest with
      | nil =>
          rw [List.intercalate_singleton, hword s ⟨hm, hp, hw⟩]
          simp [State.finish, hm, hp, State.endWord]
      | @cons text' w' texts ws hword' hrest =>
          have hnext := @ih { s with word := none, tokens := s.tokens ++ [.word w] } ⟨hm, hp, rfl⟩
          have hblank := @step_blank { s with word := some w } hm hp
          rw [List.intercalate_cons_cons, run_append, run_append, hword s ⟨hm, hp, hw⟩, run_cons,
            hblank, run_nil]
          refine hnext.trans ?_
          simp

/-- The last command of a script, its words joined with blanks. -/
theorem tokens_last {script : List Char} {texts : List (List Char)} {ws : List Word}
    (hm : (start.run script).modes = []) (hp : (start.run script).pending = .nothing)
    (h : List.Forall₂ Spells texts ws) :
    tokens (script ++ [';', ' '] ++ [' '].intercalate texts) =
      some (scriptTokens script ++ .operator [';'] :: ws.map .word) := by
  have hjoin := tokens_join h (s := (start.run script).run [';', ' '])
    (by rw [run_semicolon hm hp]; exact ⟨hm, hp, rfl⟩)
  unfold tokens scriptTokens
  rw [run_append, run_append, hjoin, run_semicolon hm hp, List.append_assoc]
  rfl

end

end Shell
