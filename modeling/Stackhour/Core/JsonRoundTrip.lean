import Stackhour.Core.JsonGrammar

/-!
# JSON documents are read back

The printed text of a value lexes to the value's tokens, and these are parsed to the
value. What is parsed at all could have been printed.
-/

namespace Stackhour.Core.JsonGrammar

open Domain

variable {ft : FloatText}

/-! ## The tokens of a value -/

mutual

def tokens : Json → List Token
  | .null => [.null]
  | .bool b => [.bool b]
  | .number n => [.number n]
  | .string s => [.string s]
  | .array [] => [.beginArray, .endArray]
  | .array (v :: items) => .beginArray :: tokens v ++ itemTokens items ++ [.endArray]
  | .object [] => [.beginObject, .endObject]
  | .object ((k, v) :: fields) =>
      .beginObject :: .string k :: .colon :: tokens v ++ fieldTokens fields ++ [.endObject]

def itemTokens : List Json → List Token
  | [] => []
  | v :: items => .comma :: tokens v ++ itemTokens items

def fieldTokens : List (String × Json) → List Token
  | [] => []
  | (k, v) :: fields => .comma :: .string k :: .colon :: tokens v ++ fieldTokens fields

end

/-! ## The text of a value lexes to its tokens -/

open Lexer

/-- What closes an array or an object, on a line of its own. -/
theorem lexes_close {c : Char} {t : Token} (h : stepIdle c = some ([t], idle)) (n : ℕ) :
    Lexes ft (newline n ++ [c]) [t] := Lexes.append (Lexes.of_newline n) (Lexes.of_char h)

theorem lexes_items (n m : ℕ) {items : List Json}
    (h : ∀ v ∈ items, LexesBefore ft (pretty ft n v) (tokens v)) :
    ∃ c rest, prettyItems ft n items ++ newline m ++ [']'] = c :: rest ∧ isWordChar c = false ∧
      Lexes ft (c :: rest) (itemTokens items ++ [.endArray]) := by
  induction items with
  | nil => exact ⟨'\n', _, rfl, by decide, lexes_close rfl m⟩
  | cons v items ih =>
      obtain ⟨c, rest, heq, hc, hrest⟩ := ih fun w hw => h w (List.mem_cons_of_mem v hw)
      refine ⟨',', newline n ++ pretty ft n v ++ c :: rest, ?_, by decide, ?_⟩
      · rw [← heq]
        simp [prettyItems]
      · have hcomma : Lexes ft (',' :: newline n) [.comma] :=
          Lexes.append (@Lexes.of_char ft ',' [.comma] rfl) (Lexes.of_newline n)
        have hvalue := (h v List.mem_cons_self).append hc hrest
        have hall := hcomma.append hvalue
        simpa [itemTokens] using hall

theorem lexes_key (k : String) : Lexes ft (stringText k ++ [':', ' ']) [.string k, .colon] :=
  (Lexes.of_string k).append
    ((@Lexes.of_char ft ':' [.colon] rfl).append (@Lexes.of_char ft ' ' [] rfl))

theorem lexes_fields (n m : ℕ) {fields : Fields}
    (h : ∀ f ∈ fields, LexesBefore ft (pretty ft n f.2) (tokens f.2)) :
    ∃ c rest, prettyFields ft n fields ++ newline m ++ ['\x7d'] = c :: rest ∧
      isWordChar c = false ∧ Lexes ft (c :: rest) (fieldTokens fields ++ [.endObject]) := by
  induction fields with
  | nil => exact ⟨'\n', _, rfl, by decide, lexes_close rfl m⟩
  | cons f fields ih =>
      obtain ⟨k, v⟩ := f
      obtain ⟨c, rest, heq, hc, hrest⟩ := ih fun w hw => h w (List.mem_cons_of_mem _ hw)
      refine ⟨',', newline n ++ stringText k ++ [':', ' '] ++ pretty ft n v ++ c :: rest, ?_,
        by decide, ?_⟩
      · rw [← heq]
        simp [prettyFields]
      · have hcomma : Lexes ft (',' :: newline n) [.comma] :=
          Lexes.append (@Lexes.of_char ft ',' [.comma] rfl) (Lexes.of_newline n)
        have hvalue := (h (k, v) List.mem_cons_self).append hc hrest
        have hall := hcomma.append ((lexes_key k).append hvalue)
        simpa [fieldTokens] using hall

theorem lexes_name {cs : List Char} {t : Token} (hne : cs.isEmpty = false)
    (hcs : cs.all isWordChar = true) (ht : wordToken ft cs = some t) : LexesBefore ft cs [t] :=
  LexesBefore.of_word (List.isEmpty_eq_false_iff.mp hne) (List.all_eq_true.mp hcs) ht

/-- **The text of a value lexes to its tokens**, by induction on the value. -/
theorem lexes_pretty (hft : ft.Lawful) {depth : ℕ} {v : Json} (h : v.Fits depth) (n : ℕ) :
    LexesBefore ft (pretty ft n v) (tokens v) := by
  induction h generalizing n with
  | null => exact lexes_name (t := .null) rfl rfl rfl
  | bool b =>
      cases b with
      | false => exact lexes_name (t := .bool false) rfl rfl rfl
      | true => exact lexes_name (t := .bool true) rfl rfl rfl
  | number h =>
      obtain ⟨hne, hword⟩ := numberText_word hft _
      exact LexesBefore.of_word hne hword (wordToken_number hft h)
  | string s => exact (Lexes.of_string s).before
  | @array depth items h ih =>
      cases items with
      | nil =>
          exact ((@Lexes.of_char ft '[' [.beginArray] rfl).append
            (@Lexes.of_char ft ']' [.endArray] rfl)).before
      | cons v items =>
          obtain ⟨c, rest, heq, hc, hrest⟩ := lexes_items (n + 1) n
            fun w hw => ih w (List.mem_cons_of_mem v hw) (n + 1)
          have hopen : Lexes ft ('[' :: newline (n + 1)) [.beginArray] :=
            Lexes.append (@Lexes.of_char ft '[' [.beginArray] rfl) (Lexes.of_newline (n + 1))
          have hvalue := (ih v List.mem_cons_self (n + 1)).append hc hrest
          have hall := (hopen.append hvalue).before
          rw [← heq] at hall
          simpa [pretty, tokens] using hall
  | @object depth fields hkeys h ih =>
      cases fields with
      | nil =>
          exact ((@Lexes.of_char ft '\x7b' [.beginObject] rfl).append
            (@Lexes.of_char ft '\x7d' [.endObject] rfl)).before
      | cons f fields =>
          obtain ⟨k, v⟩ := f
          obtain ⟨c, rest, heq, hc, hrest⟩ := lexes_fields (n + 1) n
            fun w hw => ih w (List.mem_cons_of_mem _ hw) (n + 1)
          have hopen : Lexes ft ('\x7b' :: newline (n + 1)) [.beginObject] :=
            Lexes.append (@Lexes.of_char ft '\x7b' [.beginObject] rfl) (Lexes.of_newline (n + 1))
          have hvalue := (ih (k, v) List.mem_cons_self (n + 1)).append hc hrest
          have hall := (hopen.append ((lexes_key k).append hvalue)).before
          rw [← heq] at hall
          simpa [pretty, tokens] using hall

/-! ## The tokens of a value are parsed to it -/

/-- The run of the parser over tokens. -/
def feed (p : Parser) (ts : List Token) : Option Parser := ts.foldlM Parser.step p

theorem feed_cons {p q : Parser} {t : Token} (h : p.step t = some q) (ts : List Token) :
    feed p (t :: ts) = feed q ts := by
  unfold feed
  rw [List.foldlM_cons, h]
  rfl

/-- Tokens that are read as a value wherever there is room for it. -/
def Reads (depth : ℕ) (ts : List Token) (v : Json) : Prop :=
  ∀ stack rest, stack.length + depth ≤ Parser.maxDepth →
    feed (.value stack) (ts ++ rest) = feed (Parser.push v stack) rest

/-- A value begins otherwise than an array ends. -/
theorem tokens_head (v : Json) : ∃ t ts, tokens v = t :: ts ∧ t ≠ .endArray := by
  cases v with
  | array items => cases items <;> exact ⟨_, _, rfl, by decide⟩
  | object fields => cases fields <;> exact ⟨_, _, rfl, by decide⟩
  | _ => exact ⟨_, _, rfl, by simp⟩

theorem feed_first {depth : ℕ} {v : Json} (h : Reads depth (tokens v) v) {stack : List Frame}
    (hroom : stack.length + (depth + 1) ≤ Parser.maxDepth) (rest : List Token) :
    feed (.firstItem stack) (tokens v ++ rest) = feed (.afterItem [v] stack) rest := by
  obtain ⟨t, ts, hts, ht⟩ := tokens_head v
  have hfirst : Parser.step (.firstItem stack) t = Parser.step (.value (.array [] :: stack)) t :=
    if_neg ht
  have hsame : feed (.firstItem stack) (tokens v ++ rest) =
      feed (.value (.array [] :: stack)) (tokens v ++ rest) := by
    rw [hts, List.cons_append]
    unfold feed
    rw [List.foldlM_cons, List.foldlM_cons, hfirst]
  rw [hsame, h _ rest (by rw [List.length_cons]; omega)]
  rfl

theorem feed_items {depth : ℕ} {stack : List Frame}
    (hroom : stack.length + (depth + 1) ≤ Parser.maxDepth) {items : List Json}
    (h : ∀ v ∈ items, Reads depth (tokens v) v) (before : List Json) (rest : List Token) :
    feed (.afterItem before stack) (itemTokens items ++ rest) =
      feed (.afterItem (before ++ items) stack) rest := by
  induction items generalizing before with
  | nil =>
      rw [List.append_nil]
      rfl
  | cons v items ih =>
      show feed _ (.comma :: tokens v ++ itemTokens items ++ rest) = _
      rw [List.append_assoc, List.cons_append, feed_cons rfl,
        h v List.mem_cons_self _ _ (by rw [List.length_cons]; omega)]
      show feed (.afterItem (before ++ [v]) stack) _ = _
      rw [ih (fun w hw => h w (List.mem_cons_of_mem v hw)), List.append_assoc,
        List.singleton_append]

theorem insert_new {fields : Fields} {k : String} (h : k ∉ fields.map Prod.fst) (v : Json) :
    Fields.insert fields k v = fields ++ [(k, v)] := if_neg h

theorem feed_fields {depth : ℕ} {stack : List Frame}
    (hroom : stack.length + (depth + 1) ≤ Parser.maxDepth) {fields : Fields}
    (h : ∀ f ∈ fields, Reads depth (tokens f.2) f.2) (before : Fields)
    (hkeys : Table.Unique Prod.fst (before ++ fields)) (rest : List Token) :
    feed (.afterField before stack) (fieldTokens fields ++ rest) =
      feed (.afterField (before ++ fields) stack) rest := by
  induction fields generalizing before with
  | nil =>
      rw [List.append_nil]
      rfl
  | cons f fields ih =>
      obtain ⟨k, v⟩ := f
      have hnew : k ∉ before.map Prod.fst := by
        unfold Table.Unique at hkeys
        rw [List.map_append, List.nodup_append] at hkeys
        exact fun hk => hkeys.2.2 k hk k List.mem_cons_self rfl
      show feed _ (.comma :: .string k :: .colon :: tokens v ++ fieldTokens fields ++ rest) = _
      rw [List.append_assoc, List.cons_append, List.cons_append, List.cons_append, feed_cons rfl,
        feed_cons rfl, feed_cons rfl,
        h (k, v) List.mem_cons_self _ _ (by rw [List.length_cons]; omega)]
      show feed (.afterField (Fields.insert before k v) stack) _ = _
      rw [insert_new hnew]
      rw [ih (fun w hw => h w (List.mem_cons_of_mem _ hw)) (before ++ [(k, v)])
        (by rwa [List.append_assoc, List.singleton_append]), List.append_assoc,
        List.singleton_append]

/-- **The tokens of a value are parsed to it**, by induction on the value. -/
theorem reads_tokens {depth : ℕ} {v : Json} (h : v.Fits depth) : Reads depth (tokens v) v := by
  induction h with
  | null => exact fun _ _ _ => feed_cons rfl _
  | bool b => exact fun _ _ _ => feed_cons rfl _
  | number h => exact fun _ _ _ => feed_cons rfl _
  | string s => exact fun _ _ _ => feed_cons rfl _
  | @array depth items h ih =>
      intro stack rest hroom
      have hopen : Parser.step (.value stack) .beginArray = some (.firstItem stack) :=
        if_pos (by omega)
      cases items with
      | nil =>
          show feed _ (.beginArray :: .endArray :: rest) = _
          rw [feed_cons hopen, feed_cons rfl]
      | cons v items =>
          show feed _ (.beginArray :: tokens v ++ itemTokens items ++ [.endArray] ++ rest) = _
          rw [List.append_assoc, List.append_assoc, List.cons_append, feed_cons hopen,
            feed_first (ih v List.mem_cons_self) hroom,
            feed_items hroom (fun w hw => ih w (List.mem_cons_of_mem v hw))]
          exact feed_cons rfl rest
  | @object depth fields hkeys h ih =>
      intro stack rest hroom
      have hopen : Parser.step (.value stack) .beginObject = some (.firstKey stack) :=
        if_pos (by omega)
      cases fields with
      | nil =>
          show feed _ (.beginObject :: .endObject :: rest) = _
          rw [feed_cons hopen, feed_cons rfl]
      | cons f fields =>
          obtain ⟨k, v⟩ := f
          show feed _ (.beginObject :: .string k :: .colon :: tokens v ++ fieldTokens fields ++
            [.endObject] ++ rest) = _
          rw [List.append_assoc, List.append_assoc, List.cons_append, List.cons_append,
            List.cons_append, feed_cons hopen, feed_cons rfl, feed_cons rfl,
            ih (k, v) List.mem_cons_self _ _ (by rw [List.length_cons]; omega)]
          show feed (.afterField (Fields.insert [] k v) stack) _ = _
          rw [insert_new (by simp), List.nil_append,
            feed_fields hroom (fun w hw => ih w (List.mem_cons_of_mem _ hw)) [(k, v)] hkeys]
          exact feed_cons rfl rest

/-- **A document is read back** from its text and a newline. -/
theorem parse_pretty (hft : ft.Lawful) {v : Json} (h : v.Fits 127) :
    parse ft (pretty ft 0 v ++ ['\n']) = .ok v := by
  have hlex : Lexer.idle.lex ft (pretty ft 0 v ++ ['\n'] ++ [' ']) = some (tokens v) := by
    rw [List.append_assoc]
    show Lexer.idle.lex ft (pretty ft 0 v ++ '\n' :: [' ']) = _
    rw [lexes_pretty hft h 0 '\n' [' '] (by decide)]
    show some (tokens v ++ []) = _
    rw [List.append_nil]
  have hread : feed (.value []) (tokens v) = some (.done v) := by
    have hall := reads_tokens h [] [] (by decide)
    rwa [List.append_nil] at hall
  have hall : (Lexer.idle.lex ft (pretty ft 0 v ++ ['\n'] ++ [' '])).bind
      (List.foldlM Parser.step (.value [])) = some (.done v) := by
    rw [hlex]
    exact hread
  unfold parse
  rw [hall]

/-! ## What is parsed could have been printed -/

theorem wordToken_fits (hft : ft.Lawful) {cs : List Char} {n : Number}
    (h : wordToken ft cs = some (.number n)) : n.Fits := by
  unfold wordToken at h
  split at h
  · cases h
  · split at h
    · cases h
    · split at h
      · cases h
      · split at h
        · next hint =>
            cases h
            exact hint.2
        · obtain ⟨b, hb, hn⟩ := Option.map_eq_some_iff.mp h
          cases hn
          exact hft.finite hb

/-- Tokens with numbers that fit. -/
def TokenFits (t : Token) : Prop := ∀ n, t = .number n → n.Fits

theorem stepIdle_fits {c : Char} {r : List Token × Lexer} (h : stepIdle c = some r) :
    ∀ t ∈ r.1, TokenFits t := by
  unfold stepIdle at h
  split at h
  all_goals first
    | (cases h; intro t ht n hn; subst hn; simp at ht)
    | (split at h
       · cases h
         intro t ht
         cases ht
       · cases h)

theorem lexer_step_fits (hft : ft.Lawful) {s : Lexer} {c : Char} {r : List Token × Lexer}
    (h : s.step ft c = some r) : ∀ t ∈ r.1, TokenFits t := by
  intro t ht n hn
  subst hn
  cases s with
  | idle => exact stepIdle_fits h _ ht n rfl
  | word cs =>
      unfold Lexer.step at h
      dsimp only at h
      split at h
      · cases h
        cases ht
      · obtain ⟨w, hw, h⟩ := Option.bind_eq_some_iff.mp h
        obtain ⟨r', hr', rfl⟩ := Option.map_eq_some_iff.mp h
        rcases List.mem_cons.mp ht with rfl | ht
        · exact wordToken_fits hft hw
        · exact stepIdle_fits hr' _ ht n rfl
  | text cs =>
      unfold Lexer.step at h
      dsimp only at h
      split at h
      · cases h
        simp at ht
      · split at h
        · cases h
          cases ht
        · split at h
          · cases h
          · cases h
            cases ht
  | escape cs =>
      unfold Lexer.step at h
      dsimp only at h
      split at h
      · cases h
        cases ht
      · split at h
        · cases h
          cases ht
        · obtain ⟨d, -, rfl⟩ := Option.map_eq_some_iff.mp h
          cases ht
  | hex cs digits value high =>
      obtain ⟨d, -, h⟩ := Option.bind_eq_some_iff.mp h
      split at h
      · obtain ⟨u, -, rfl⟩ := Option.map_eq_some_iff.mp h
        cases ht
      · cases h
        cases ht
  | surrogate cs high =>
      unfold Lexer.step at h
      dsimp only at h
      split at h
      · cases h
        cases ht
      · cases h
  | surrogateEscape cs high =>
      unfold Lexer.step at h
      dsimp only at h
      split at h
      · cases h
        cases ht
      · cases h

theorem lex_fits (hft : ft.Lawful) {cs : List Char} {s : Lexer} {ts : List Token}
    (h : s.lex ft cs = some ts) : ∀ t ∈ ts, TokenFits t := by
  induction cs generalizing s ts with
  | nil =>
      cases s with
      | idle =>
          cases h
          intro t ht
          cases ht
      | _ => cases h
  | cons c cs ih =>
      obtain ⟨r, hr, h⟩ := Option.bind_eq_some_iff.mp h
      obtain ⟨us, hus, rfl⟩ := Option.map_eq_some_iff.mp h
      intro t ht
      rcases List.mem_append.mp ht with ht | ht
      · exact lexer_step_fits hft hr t ht
      · exact ih hus t ht

/-- What an open array or object holds so far, with room for so many levels in it. -/
def Frame.Fits (room : ℕ) : Frame → Prop
  | .array items => ∀ v ∈ items, v.Fits room
  | .object fields _ => Table.Unique Prod.fst fields ∧ ∀ f ∈ fields, f.2.Fits room

/-- Every open frame leaves room for those above it. -/
def StackFits : List Frame → Prop
  | [] => True
  | frame :: stack =>
      stack.length < Parser.maxDepth ∧ frame.Fits (Parser.maxDepth - (stack.length + 1)) ∧
        StackFits stack

/-- What has been read so far could have been printed. -/
def Parser.Fits : Parser → Prop
  | value stack => StackFits stack
  | firstItem stack => StackFits (.array [] :: stack)
  | afterItem items stack => StackFits (.array items :: stack)
  | firstKey stack => StackFits (.object [] "" :: stack)
  | key fields stack => StackFits (.object fields "" :: stack)
  | colon fields k stack => StackFits (.object fields k :: stack)
  | afterField fields stack => StackFits (.object fields "" :: stack)
  | done v => v.Fits maxDepth

theorem push_fits {stack : List Frame} (h : StackFits stack) {v : Json}
    (hv : v.Fits (Parser.maxDepth - stack.length)) : (Parser.push v stack).Fits := by
  cases stack with
  | nil => exact hv
  | cons frame stack =>
      obtain ⟨hroom, hframe, hstack⟩ := h
      cases frame with
      | array items =>
          refine ⟨hroom, ?_, hstack⟩
          intro w hw
          rcases List.mem_append.mp hw with hw | hw
          · exact hframe w hw
          · rw [List.mem_singleton.mp hw]
            exact hv
      | object fields k =>
          refine ⟨hroom, ⟨Fields.insert_nodup hframe.1 k v, ?_⟩, hstack⟩
          intro f hf
          rcases Fields.mem_insert hf with rfl | ⟨hf, -⟩
          · exact hv
          · exact hframe.2 f hf

/-- A frame that is closed is a value one level up. -/
theorem close_array_fits {items : List Json} {stack : List Frame}
    (h : StackFits (.array items :: stack)) : (Parser.push (.array items) stack).Fits := by
  obtain ⟨hroom, hframe, hstack⟩ := h
  apply push_fits hstack
  have hlevels : Parser.maxDepth - stack.length = Parser.maxDepth - (stack.length + 1) + 1 := by
    omega
  rw [hlevels]
  exact .array hframe

theorem close_object_fits {fields : Fields} {k : String} {stack : List Frame}
    (h : StackFits (.object fields k :: stack)) : (Parser.push (.object fields) stack).Fits := by
  obtain ⟨hroom, hframe, hstack⟩ := h
  apply push_fits hstack
  have hlevels : Parser.maxDepth - stack.length = Parser.maxDepth - (stack.length + 1) + 1 := by
    omega
  rw [hlevels]
  exact .object hframe.1 hframe.2

theorem begin_fits {stack : List Frame} (h : StackFits stack) {t : Token} (ht : TokenFits t)
    {p : Parser} (hp : Parser.begin stack t = some p) : p.Fits := by
  cases t with
  | null =>
      cases hp
      exact push_fits h .null
  | bool b =>
      cases hp
      exact push_fits h (.bool b)
  | number n =>
      cases hp
      exact push_fits h (.number (ht n rfl))
  | string s =>
      cases hp
      exact push_fits h (.string s)
  | beginArray =>
      have hp : (if stack.length < Parser.maxDepth then some (Parser.firstItem stack) else none) =
        some p := hp
      split at hp
      · next hroom =>
          cases hp
          have hempty : ∀ v ∈ ([] : List Json), v.Fits (Parser.maxDepth - (stack.length + 1)) :=
            fun v hv => by cases hv
          exact ⟨hroom, hempty, h⟩
      · cases hp
  | beginObject =>
      have hp : (if stack.length < Parser.maxDepth then some (Parser.firstKey stack) else none) =
        some p := hp
      split at hp
      · next hroom =>
          cases hp
          exact ⟨hroom, ⟨Table.unique_nil, fun f hf => by cases hf⟩, h⟩
      · cases hp
  | _ => cases hp

/-- A token leaves what was read printable. -/
theorem parser_step_fits {p q : Parser} (h : p.Fits) {t : Token} (ht : TokenFits t)
    (hq : p.step t = some q) : q.Fits := by
  unfold Parser.step at hq
  split at hq
  · exact begin_fits h ht hq
  · split at hq
    · cases hq
      exact close_array_fits h
    · exact begin_fits h ht hq
  · cases hq
    exact h
  · cases hq
    exact close_array_fits h
  · cases hq
    exact close_object_fits h
  · cases hq
    exact h
  · cases hq
    exact h
  · cases hq
    exact h
  · cases hq
    exact h
  · cases hq
    exact close_object_fits h
  · cases hq

theorem feed_fits {ts : List Token} (hts : ∀ t ∈ ts, TokenFits t) {p q : Parser} (h : p.Fits)
    (hq : feed p ts = some q) : q.Fits := by
  induction ts generalizing p with
  | nil =>
      cases hq
      exact h
  | cons t ts ih =>
      have hq : (p.step t).bind (feed · ts) = some q := hq
      obtain ⟨r, hr, hq⟩ := Option.bind_eq_some_iff.mp hq
      exact ih (fun u hu => hts u (List.mem_cons_of_mem t hu))
        (parser_step_fits h (hts t List.mem_cons_self) hr) hq

theorem parse_fits (hft : ft.Lawful) {cs : List Char} {v : Json} (h : parse ft cs = .ok v) :
    v.Fits 127 := by
  unfold parse at h
  split at h
  · next w hw =>
      cases h
      obtain ⟨ts, hts, hfeed⟩ := Option.bind_eq_some_iff.mp hw
      exact feed_fits (lex_fits hft hts) (p := .value []) trivial hfeed
  · cases h

/-- **The grammar is lawful.** -/
theorem text_lawful (hft : ft.Lawful) : (text ft).Lawful := ⟨parse_fits hft, parse_pretty hft⟩

/-! ## Floats by their bits -/

def bitsText (b : F64) : List Char := Nat.toDigits 10 b.toNat ++ ['e', '0']

def bitsOf (cs : List Char) : F64 :=
  BitVec.ofNat 64 (Nat.ofDigitChars 10 (cs.take (cs.length - 2)) 0)

/-- Texts for floats that no integer has. -/
def floatBits : FloatText where
  print := bitsText
  parse cs := (some (bitsOf cs)).filter fun b => decide (bitsText b = cs) && b.isFinite

theorem bitsOf_bitsText (b : F64) : bitsOf (bitsText b) = b := by
  have hdigits : (bitsText b).take ((bitsText b).length - 2) = Nat.toDigits 10 b.toNat := by
    unfold bitsText
    rw [List.length_append]
    exact List.take_left
  unfold bitsOf
  rw [hdigits, Nat.ofDigitChars_ten_toDigits]
  simp

theorem floatBits_lawful : floatBits.Lawful where
  finite := by
    intro cs b h
    unfold floatBits at h
    dsimp only at h
    have hb := (Option.filter_eq_some_iff.mp h).2
    rw [Bool.and_eq_true] at hb
    exact hb.2
  parse_print := by
    intro b hb
    unfold floatBits
    dsimp only
    rw [bitsOf_bitsText, Option.filter_eq_some_iff]
    refine ⟨rfl, ?_⟩
    rw [Bool.and_eq_true]
    exact ⟨decide_eq_true rfl, hb⟩
  word := by
    intro b c hc
    rcases List.mem_append.mp hc with hc | hc
    · have hdigit : c.isDigit = true := Nat.isDigit_of_mem_toDigits (by decide) (by decide) hc
      simp [isWordChar, Char.isAlphanum, hdigit]
    · simp only [List.mem_cons, List.not_mem_nil, or_false] at hc
      rcases hc with rfl | rfl <;> decide
  nonempty := by
    intro b h
    exact absurd (congrArg List.length h) (by simp [floatBits, bitsText])
  notInt := by
    intro b n h
    have he : 'e' ∈ intText n := h ▸ List.mem_append_right _ (by decide)
    rcases intText_chars 'e' he with hdigit | hminus
    · exact absurd hdigit (by decide)
    · exact absurd hminus (by decide)
  notName := by
    intro b h
    have hzero : '0' ∈ floatBits.print b := List.mem_append_right _ (by decide)
    simp only [List.mem_cons, List.not_mem_nil, or_false] at h
    rcases h with h | h | h <;> exact absurd (h ▸ hzero) (by decide)

end Stackhour.Core.JsonGrammar
