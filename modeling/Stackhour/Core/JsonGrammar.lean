import Mathlib.Data.List.Basic
import Stackhour.Core.JsonText

/-!
# The grammar of JSON

A reader and a pretty printer that keep what `JsonText.Lawful` promises. The reader
is two machines: characters become tokens, and tokens a value. The texts of floats
are a parameter.
-/

namespace Stackhour.Core.JsonGrammar

open Domain

/-! ## Tokens -/

inductive Token where
  | null
  | bool (b : Bool)
  | number (n : Number)
  | string (s : String)
  | beginArray
  | endArray
  | beginObject
  | endObject
  | comma
  | colon
deriving DecidableEq

/-- The characters of numbers and of `null`, `true` and `false`. -/
def isWordChar (c : Char) : Bool := c.isAlphanum || c == '+' || c == '-' || c == '.'

def intText : ℤ → List Char
  | .ofNat n => Nat.toDigits 10 n
  | .negSucc n => '-' :: Nat.toDigits 10 (n + 1)

def intValue : List Char → ℤ
  | '-' :: digits => -Nat.ofDigitChars 10 digits 0
  | digits => Nat.ofDigitChars 10 digits 0

/-- How finite floats are written and read. -/
structure FloatText where
  print : F64 → List Char
  parse : List Char → Option F64

/-- A float is read back, and its text is no other word. -/
structure FloatText.Lawful (ft : FloatText) : Prop where
  finite : ∀ {cs b}, ft.parse cs = some b → b.isFinite = true
  parse_print : ∀ {b : F64}, b.isFinite = true → ft.parse (ft.print b) = some b
  word : ∀ b, ∀ c ∈ ft.print b, isWordChar c = true
  nonempty : ∀ b, ft.print b ≠ []
  notInt : ∀ b n, ft.print b ≠ intText n
  notName : ∀ b, ft.print b ∉ ["null".toList, "true".toList, "false".toList]

variable (ft : FloatText)

/-- Integers of 64 bits are kept as integers. -/
def wordToken (cs : List Char) : Option Token :=
  if cs = "null".toList then some .null
  else if cs = "true".toList then some (.bool true)
  else if cs = "false".toList then some (.bool false)
  else if intText (intValue cs) = cs ∧ (Number.int (intValue cs)).Fits then
    some (.number (.int (intValue cs)))
  else (ft.parse cs).map (fun b => .number (.float b))

/-! ## Characters to tokens -/

inductive Lexer where
  | idle
  | word (cs : List Char)
  | text (cs : List Char)
  | escape (cs : List Char)
  | hex (cs : List Char) (digits value : ℕ) (high : Option ℕ)
  | surrogate (cs : List Char) (high : ℕ)
  | surrogateEscape (cs : List Char) (high : ℕ)

namespace Lexer

def hexValue (c : Char) : Option ℕ :=
  if '0' ≤ c ∧ c ≤ '9' then some (c.toNat - '0'.toNat)
  else if 'a' ≤ c ∧ c ≤ 'f' then some (c.toNat - 'a'.toNat + 10)
  else if 'A' ≤ c ∧ c ≤ 'F' then some (c.toNat - 'A'.toNat + 10)
  else none

/-- The escapes of one letter. -/
def escapes : List (Char × Char) :=
  [('"', '"'), ('\\', '\\'), ('b', '\x08'), ('f', '\x0c'), ('n', '\n'), ('r', '\r'), ('t', '\t')]

/-- A code unit is a character, or one half of one. -/
def codeUnit (cs : List Char) (unit : ℕ) : Option ℕ → Option Lexer
  | none =>
      if 0xD800 ≤ unit ∧ unit < 0xDC00 then some (.surrogate cs unit)
      else if 0xDC00 ≤ unit ∧ unit < 0xE000 then none
      else some (.text (cs ++ [Char.ofNat unit]))
  | some high =>
      if 0xDC00 ≤ unit ∧ unit < 0xE000 then
        some (.text (cs ++ [Char.ofNat (0x10000 + (high - 0xD800) * 0x400 + (unit - 0xDC00))]))
      else none

def stepIdle (c : Char) : Option (List Token × Lexer) :=
  match c with
  | ' ' | '\n' | '\t' | '\r' => some ([], idle)
  | '"' => some ([], text [])
  | '[' => some ([.beginArray], idle)
  | ']' => some ([.endArray], idle)
  | '\x7b' => some ([.beginObject], idle)
  | '\x7d' => some ([.endObject], idle)
  | ',' => some ([.comma], idle)
  | ':' => some ([.colon], idle)
  | _ => if isWordChar c then some ([], word [c]) else none

def step (s : Lexer) (c : Char) : Option (List Token × Lexer) :=
  match s with
  | idle => stepIdle c
  | word cs =>
      if isWordChar c then some ([], word (cs ++ [c]))
      else (wordToken ft cs).bind fun t => (stepIdle c).map fun r => (t :: r.1, r.2)
  | text cs =>
      if c = '"' then some ([.string (String.ofList cs)], idle)
      else if c = '\\' then some ([], escape cs)
      else if c.toNat < 0x20 then none
      else some ([], text (cs ++ [c]))
  | escape cs =>
      if c = 'u' then some ([], hex cs 4 0 none)
      else if c = '/' then some ([], text (cs ++ ['/']))
      else (escapes.lookup c).map fun d => ([], text (cs ++ [d]))
  | hex cs digits value high =>
      (hexValue c).bind fun d =>
        if digits = 1 then (codeUnit cs (16 * value + d) high).map fun s => ([], s)
        else some ([], hex cs (digits - 1) (16 * value + d) high)
  | surrogate cs high => if c = '\\' then some ([], surrogateEscape cs high) else none
  | surrogateEscape cs high => if c = 'u' then some ([], hex cs 4 0 (some high)) else none

/-- The tokens of a text; it ends between two of them. -/
def lex (s : Lexer) : List Char → Option (List Token)
  | [] => match s with
    | idle => some []
    | _ => none
  | c :: rest => (s.step ft c).bind fun r => (lex r.2 rest).map (r.1 ++ ·)

end Lexer

/-! ## Tokens to a value -/

/-- An array or an object that is being read, the latter up to a key. -/
inductive Frame where
  | array (items : List Json)
  | object (fields : Fields) (key : String)

/-- What may come next, under the frames that are open. -/
inductive Parser where
  | value (stack : List Frame)
  | firstItem (stack : List Frame)
  | afterItem (items : List Json) (stack : List Frame)
  | firstKey (stack : List Frame)
  | key (fields : Fields) (stack : List Frame)
  | colon (fields : Fields) (key : String) (stack : List Frame)
  | afterField (fields : Fields) (stack : List Frame)
  | done (v : Json)

namespace Parser

/-- How deep a document may be. -/
def maxDepth : ℕ := 127

/-- A value is complete. -/
def push (v : Json) : List Frame → Parser
  | [] => done v
  | .array items :: stack => afterItem (items ++ [v]) stack
  | .object fields k :: stack => afterField (Fields.insert fields k v) stack

def begin (stack : List Frame) : Token → Option Parser
  | .null => some (push .null stack)
  | .bool b => some (push (.bool b) stack)
  | .number n => some (push (.number n) stack)
  | .string s => some (push (.string s) stack)
  | .beginArray => if stack.length < maxDepth then some (firstItem stack) else none
  | .beginObject => if stack.length < maxDepth then some (firstKey stack) else none
  | _ => none

def step : Parser → Token → Option Parser
  | value stack, t => begin stack t
  | firstItem stack, t =>
      if t = .endArray then some (push (.array []) stack) else begin (.array [] :: stack) t
  | afterItem items stack, .comma => some (value (.array items :: stack))
  | afterItem items stack, .endArray => some (push (.array items) stack)
  | firstKey stack, .endObject => some (push (.object []) stack)
  | firstKey stack, .string k => some (colon [] k stack)
  | key fields stack, .string k => some (colon fields k stack)
  | colon fields k stack, .colon => some (value (.object fields k :: stack))
  | afterField fields stack, .comma => some (key fields stack)
  | afterField fields stack, .endObject => some (push (.object fields) stack)
  | _, _ => none

end Parser

/-- A text is read as if a space followed it. -/
def parse (text : List Char) : Except String Json :=
  match (Lexer.idle.lex ft (text ++ [' '])).bind (List.foldlM Parser.step (.value [])) with
  | some (.done v) => .ok v
  | _ => .error "not a JSON document"

/-! ## The printer -/

def hexDigit (n : ℕ) : Char := Char.ofNat (if n < 10 then 48 + n else 87 + n)

def escapeChar (c : Char) : List Char :=
  match Lexer.escapes.find? (fun e => e.2 == c) with
  | some e => ['\\', e.1]
  | none =>
      if c.toNat < 0x20 then ['\\', 'u', '0', '0', hexDigit (c.toNat / 16), hexDigit (c.toNat % 16)]
      else [c]

def stringText (s : String) : List Char := '"' :: s.toList.flatMap escapeChar ++ ['"']

def newline (n : ℕ) : List Char := '\n' :: List.replicate (2 * n) ' '

def numberText : Number → List Char
  | .int n => intText n
  | .float b => ft.print b

mutual

/-- A value at an indentation. -/
def pretty (n : ℕ) : Json → List Char
  | .null => "null".toList
  | .bool true => "true".toList
  | .bool false => "false".toList
  | .number m => numberText ft m
  | .string s => stringText s
  | .array [] => ['[', ']']
  | .array (v :: items) =>
      '[' :: newline (n + 1) ++ pretty (n + 1) v ++ prettyItems (n + 1) items ++ newline n ++ [']']
  | .object [] => ['\x7b', '\x7d']
  | .object ((key, v) :: fields) =>
      '\x7b' :: newline (n + 1) ++ stringText key ++ [':', ' '] ++ pretty (n + 1) v ++
        prettyFields (n + 1) fields ++ newline n ++ ['\x7d']

def prettyItems (n : ℕ) : List Json → List Char
  | [] => []
  | v :: items => ',' :: newline n ++ pretty n v ++ prettyItems n items

def prettyFields (n : ℕ) : List (String × Json) → List Char
  | [] => []
  | (key, v) :: fields =>
      ',' :: newline n ++ stringText key ++ [':', ' '] ++ pretty n v ++ prettyFields n fields

end

/-- The grammar, where floats have these texts. -/
def text : JsonText := ⟨pretty ft 0, parse ft⟩

/-! ## Words are read back -/

theorem intText_chars {n : ℤ} : ∀ c ∈ intText n, c.isDigit = true ∨ c = '-' := by
  intro c hc
  cases n with
  | ofNat n => exact .inl (Nat.isDigit_of_mem_toDigits (by decide) (by decide) hc)
  | negSucc n =>
      rcases List.mem_cons.mp hc with rfl | hc
      · exact .inr rfl
      · exact .inl (Nat.isDigit_of_mem_toDigits (by decide) (by decide) hc)

theorem intText_ne_nil (n : ℤ) : intText n ≠ [] := by
  cases n with
  | ofNat n => exact Nat.toDigits_ne_nil
  | negSucc n => exact List.cons_ne_nil _ _

theorem intValue_intText (n : ℤ) : intValue (intText n) = n := by
  cases n with
  | ofNat n =>
      show intValue (Nat.toDigits 10 n) = n
      unfold intValue
      split
      · next digits h =>
          have hminus : '-' ∈ Nat.toDigits 10 n := h ▸ List.mem_cons_self
          have hdigit := Nat.isDigit_of_mem_toDigits (b := 10) (by decide) (by decide) hminus
          exact absurd hdigit (by decide)
      · rw [Nat.ofDigitChars_ten_toDigits]
  | negSucc n =>
      show -(Nat.ofDigitChars 10 (Nat.toDigits 10 (n + 1)) 0 : ℤ) = _
      rw [Nat.ofDigitChars_ten_toDigits]
      rfl

variable {ft}

theorem intText_ne_name {n : ℤ} :
    intText n ∉ ["null".toList, "true".toList, "false".toList] := by
  intro hmem
  have hletter : ∃ c ∈ intText n, c.isDigit = false ∧ c ≠ '-' := by
    simp only [List.mem_cons, List.not_mem_nil, or_false] at hmem
    rcases hmem with h | h | h
    · exact ⟨'n', by rw [h]; decide, by decide, by decide⟩
    · exact ⟨'t', by rw [h]; decide, by decide, by decide⟩
    · exact ⟨'f', by rw [h]; decide, by decide, by decide⟩
  obtain ⟨c, hc, hdigit, hminus⟩ := hletter
  rcases intText_chars c hc with h | h
  · rw [h] at hdigit
    cases hdigit
  · exact hminus h

theorem wordToken_of_not_name {cs : List Char}
    (h : cs ∉ ["null".toList, "true".toList, "false".toList]) :
    wordToken ft cs =
      if intText (intValue cs) = cs ∧ (Number.int (intValue cs)).Fits then
        some (.number (.int (intValue cs)))
      else (ft.parse cs).map (fun b => .number (.float b)) := by
  simp only [List.mem_cons, List.not_mem_nil, or_false, not_or] at h
  unfold wordToken
  rw [if_neg h.1, if_neg h.2.1, if_neg h.2.2]

/-- A number's text reads as the number. -/
theorem wordToken_number (hft : ft.Lawful) {n : Number} (h : n.Fits) :
    wordToken ft (numberText ft n) = some (.number n) := by
  cases n with
  | int n =>
      show wordToken ft (intText n) = _
      rw [wordToken_of_not_name intText_ne_name, if_pos]
      · rw [intValue_intText]
      · rw [intValue_intText]
        exact ⟨rfl, h⟩
  | float b =>
      show wordToken ft (ft.print b) = _
      rw [wordToken_of_not_name (hft.notName b), if_neg (fun hint => hft.notInt b _ hint.1.symm),
        hft.parse_print h, Option.map_some]

theorem numberText_word (hft : ft.Lawful) (n : Number) :
    numberText ft n ≠ [] ∧ ∀ c ∈ numberText ft n, isWordChar c = true := by
  cases n with
  | int n =>
      refine ⟨intText_ne_nil n, ?_⟩
      intro c hc
      rcases intText_chars c hc with h | rfl
      · simp [isWordChar, Char.isAlphanum, h]
      · decide
  | float b => exact ⟨hft.nonempty b, hft.word b⟩

/-! ## Tokens are read back -/

namespace Lexer

theorem lex_cons (s : Lexer) (c : Char) (rest : List Char) :
    s.lex ft (c :: rest) = (s.step ft c).bind fun r => (lex ft r.2 rest).map (r.1 ++ ·) := rfl

/-- A character that tells the lexer nothing yet. -/
theorem lex_silent {s t : Lexer} {c : Char} (h : s.step ft c = some ([], t)) (rest : List Char) :
    s.lex ft (c :: rest) = t.lex ft rest := by
  rw [lex_cons, h, Option.bind_some]
  cases t.lex ft rest <;> rfl

/-- A word ends before a character that is none of its own. -/
theorem lex_word {c : Char} (hc : isWordChar c = false) (rest : List Char) {cs : List Char}
    (hcs : ∀ d ∈ cs, isWordChar d = true) (before : List Char) :
    (word before).lex ft (cs ++ c :: rest) =
      (wordToken ft (before ++ cs)).bind fun t => (idle.lex ft (c :: rest)).map (t :: ·) := by
  induction cs generalizing before with
  | nil =>
      rw [List.nil_append, List.append_nil, lex_cons, lex_cons]
      have hstep : (word before).step ft c =
          (wordToken ft before).bind fun t => (stepIdle c).map fun r => (t :: r.1, r.2) :=
        if_neg (by rw [hc]; decide)
      rw [hstep]
      cases wordToken ft before with
      | none => rfl
      | some t =>
          show Option.bind (Option.map _ (stepIdle c)) _ = Option.map _ (Option.bind (stepIdle c) _)
          cases stepIdle c with
          | none => rfl
          | some r =>
              show Option.map _ _ = Option.map _ (Option.map _ _)
              rw [Option.map_map]
              rfl
  | cons d ds ih =>
      have hd := hcs d List.mem_cons_self
      have hstep : (word before).step ft d = some ([], word (before ++ [d])) := if_pos hd
      rw [List.cons_append, lex_silent hstep, ih (fun e he => hcs e (List.mem_cons_of_mem d he)),
        List.append_assoc, List.singleton_append]

theorem stepIdle_word {c : Char} (hc : isWordChar c = true) : stepIdle c = some ([], word [c]) := by
  unfold stepIdle
  split
  all_goals first
    | exact absurd hc (by decide)
    | exact if_pos hc

/-- What is read as these tokens before any character that no word holds. -/
def LexesBefore (ft : FloatText) (cs : List Char) (ts : List Token) : Prop :=
  ∀ c rest, isWordChar c = false →
    idle.lex ft (cs ++ c :: rest) = (idle.lex ft (c :: rest)).map (ts ++ ·)

/-- What is read as these tokens before anything. -/
def Lexes (ft : FloatText) (cs : List Char) (ts : List Token) : Prop :=
  ∀ rest, idle.lex ft (cs ++ rest) = (idle.lex ft rest).map (ts ++ ·)

theorem Lexes.before {cs : List Char} {ts : List Token} (h : Lexes ft cs ts) :
    LexesBefore ft cs ts := fun _ _ _ => h _

theorem map_append (ts us : List Token) (o : Option (List Token)) :
    (o.map (us ++ ·)).map (ts ++ ·) = o.map ((ts ++ us) ++ ·) := by
  cases o with
  | none => rfl
  | some vs => simp

theorem Lexes.append {cs ds : List Char} {ts us : List Token} (h : Lexes ft cs ts)
    (h' : Lexes ft ds us) : Lexes ft (cs ++ ds) (ts ++ us) := by
  intro rest
  rw [List.append_assoc, h, h', map_append]

theorem LexesBefore.append {cs ds : List Char} {ts us : List Token} {c : Char}
    (h : LexesBefore ft cs ts) (hc : isWordChar c = false) (h' : Lexes ft (c :: ds) us) :
    Lexes ft (cs ++ c :: ds) (ts ++ us) := by
  intro rest
  rw [List.append_assoc, List.cons_append, h c _ hc, ← List.cons_append, h', map_append]

theorem LexesBefore.of_word {cs : List Char} {t : Token} (hne : cs ≠ [])
    (hcs : ∀ c ∈ cs, isWordChar c = true) (ht : wordToken ft cs = some t) :
    LexesBefore ft cs [t] := by
  intro c rest hc
  obtain ⟨d, ds, rfl⟩ := List.exists_cons_of_ne_nil hne
  have hstep : idle.step ft d = some ([], word [d]) := stepIdle_word (hcs d List.mem_cons_self)
  rw [List.cons_append, lex_silent hstep,
    lex_word hc rest (fun e he => hcs e (List.mem_cons_of_mem d he)), List.singleton_append, ht,
    Option.bind_some]
  rfl

/-- A character that is a token of its own. -/
theorem Lexes.of_char {c : Char} {ts : List Token} (h : stepIdle c = some (ts, idle)) :
    Lexes ft [c] ts := by
  intro rest
  rw [List.singleton_append, lex_cons]
  show Option.bind (stepIdle c) _ = _
  rw [h, Option.bind_some]

theorem Lexes.of_newline (n : ℕ) : Lexes ft (newline n) [] := by
  have hspaces : ∀ k, Lexes ft (List.replicate k ' ') [] := by
    intro k
    induction k with
    | zero =>
        intro rest
        show idle.lex ft rest = (idle.lex ft rest).map ([] ++ ·)
        simp
    | succ k ih =>
        rw [List.replicate_succ]
        exact Lexes.append (@Lexes.of_char ft ' ' [] rfl) ih
  exact Lexes.append (@Lexes.of_char ft '\n' [] rfl) (hspaces (2 * n))

theorem hexValue_hexDigit : ∀ n < 16, hexValue (hexDigit n) = some n := by decide

/-- An escaped character is the character. -/
theorem lex_escapeChar (c : Char) (cs rest : List Char) :
    (text cs).lex ft (escapeChar c ++ rest) = (text (cs ++ [c])).lex ft rest := by
  unfold escapeChar
  cases hfind : escapes.find? (fun e => e.2 == c) with
  | some e =>
      obtain ⟨letter, meaning⟩ := e
      have hmem := List.mem_of_find?_eq_some hfind
      have hmeaning : meaning = c := by simpa using List.find?_some hfind
      subst hmeaning
      show (text cs).lex ft ('\\' :: letter :: rest) = _
      rw [@lex_silent ft (text cs) (escape cs) '\\' rfl]
      simp only [escapes, List.mem_cons, List.not_mem_nil, or_false, Prod.mk.injEq] at hmem
      rcases hmem with ⟨rfl, rfl⟩ | ⟨rfl, rfl⟩ | ⟨rfl, rfl⟩ | ⟨rfl, rfl⟩ | ⟨rfl, rfl⟩ |
        ⟨rfl, rfl⟩ | ⟨rfl, rfl⟩ <;> exact lex_silent rfl rest
  | none =>
      have hfree := List.find?_eq_none.mp hfind
      by_cases hcontrol : c.toNat < 0x20
      · rw [if_pos hcontrol]
        have hhigh := hexValue_hexDigit (c.toNat / 16) (by omega)
        have hlow := hexValue_hexDigit (c.toNat % 16) (by omega)
        have hzero : hexValue '0' = some 0 := by decide
        have hunit : codeUnit cs (16 * (c.toNat / 16) + c.toNat % 16) none =
            some (text (cs ++ [c])) := by
          rw [show 16 * (c.toNat / 16) + c.toNat % 16 = c.toNat by omega]
          unfold codeUnit
          rw [if_neg (by omega), if_neg (by omega), Char.ofNat_toNat]
        show (text cs).lex ft ('\\' :: 'u' :: '0' :: '0' :: hexDigit (c.toNat / 16) ::
          hexDigit (c.toNat % 16) :: rest) = _
        rw [@lex_silent ft (text cs) (escape cs) '\\' rfl,
          @lex_silent ft (escape cs) (hex cs 4 0 none) 'u' rfl,
          @lex_silent ft (hex cs 4 0 none) (hex cs 3 0 none) '0' (by simp [step, hzero]),
          @lex_silent ft (hex cs 3 0 none) (hex cs 2 0 none) '0' (by simp [step, hzero]),
          @lex_silent ft (hex cs 2 0 none) (hex cs 1 (c.toNat / 16) none) _ (by simp [step, hhigh]),
          @lex_silent ft (hex cs 1 (c.toNat / 16) none) (text (cs ++ [c])) _
            (by simp [step, hlow, hunit])]
      · rw [if_neg hcontrol]
        have hquote : c ≠ '"' := by
          rintro rfl
          exact hfree ('"', '"') (by decide) (by decide)
        have hslash : c ≠ '\\' := by
          rintro rfl
          exact hfree ('\\', '\\') (by decide) (by decide)
        apply lex_silent
        show (if c = '"' then _ else _) = _
        rw [if_neg hquote, if_neg hslash, if_neg hcontrol]

theorem Lexes.of_string (s : String) : Lexes ft (stringText s) [.string s] := by
  have hbody : ∀ cs before rest : List Char,
      (text before).lex ft (cs.flatMap escapeChar ++ rest) = (text (before ++ cs)).lex ft rest := by
    intro cs
    induction cs with
    | nil =>
        intro before rest
        rw [List.append_nil]
        rfl
    | cons c cs ih =>
        intro before rest
        rw [List.flatMap_cons, List.append_assoc, lex_escapeChar, ih, List.append_assoc,
          List.singleton_append]
  intro rest
  show idle.lex ft ('"' :: (s.toList.flatMap escapeChar ++ ['"']) ++ rest) = _
  rw [List.cons_append, @lex_silent ft idle (text []) '"' rfl, List.append_assoc, hbody,
    List.nil_append, List.singleton_append, lex_cons]
  show Option.map _ _ = _
  rw [String.ofList_toList]

end Lexer

end Stackhour.Core.JsonGrammar
