import Stackhour.Core.JsonRoundTrip

/-!
# Compact JSON

The text of `serde_json::to_string`, which has no white space. It lexes to the same tokens as
the pretty text.
-/

namespace Stackhour.Core.JsonGrammar

open Domain Lexer

variable (ft : FloatText)

mutual

/-- `to_string`. -/
def compact : Json → List Char
  | .null => "null".toList
  | .bool true => "true".toList
  | .bool false => "false".toList
  | .number m => numberText ft m
  | .string s => stringText s
  | .array [] => ['[', ']']
  | .array (v :: items) => '[' :: compact v ++ compactItems items ++ [']']
  | .object [] => ['\x7b', '\x7d']
  | .object ((key, v) :: fields) =>
      '\x7b' :: stringText key ++ ':' :: compact v ++ compactFields fields ++ ['\x7d']

def compactItems : List Json → List Char
  | [] => []
  | v :: items => ',' :: compact v ++ compactItems items

def compactFields : List (String × Json) → List Char
  | [] => []
  | (key, v) :: fields => ',' :: stringText key ++ ':' :: compact v ++ compactFields fields

end

variable {ft}

theorem lexes_compactItems {items : List Json}
    (h : ∀ v ∈ items, LexesBefore ft (compact ft v) (tokens v)) :
    ∃ c rest, compactItems ft items ++ [']'] = c :: rest ∧ isWordChar c = false ∧
      Lexes ft (c :: rest) (itemTokens items ++ [.endArray]) := by
  induction items with
  | nil => exact ⟨']', [], rfl, by decide, Lexes.of_char rfl⟩
  | cons v items ih =>
      obtain ⟨c, rest, heq, hc, hrest⟩ := ih fun w hw => h w (List.mem_cons_of_mem v hw)
      refine ⟨',', compact ft v ++ c :: rest, ?_, by decide, ?_⟩
      · rw [← heq]
        simp [compactItems]
      · have hvalue := (h v List.mem_cons_self).append hc hrest
        have hall := (@Lexes.of_char ft ',' [.comma] rfl).append hvalue
        simpa [itemTokens] using hall

theorem lexes_compactKey (k : String) : Lexes ft (stringText k ++ [':']) [.string k, .colon] :=
  (Lexes.of_string k).append (@Lexes.of_char ft ':' [.colon] rfl)

theorem lexes_compactFields {fields : Fields}
    (h : ∀ f ∈ fields, LexesBefore ft (compact ft f.2) (tokens f.2)) :
    ∃ c rest, compactFields ft fields ++ ['\x7d'] = c :: rest ∧ isWordChar c = false ∧
      Lexes ft (c :: rest) (fieldTokens fields ++ [.endObject]) := by
  induction fields with
  | nil => exact ⟨'\x7d', [], rfl, by decide, Lexes.of_char rfl⟩
  | cons f fields ih =>
      obtain ⟨k, v⟩ := f
      obtain ⟨c, rest, heq, hc, hrest⟩ := ih fun w hw => h w (List.mem_cons_of_mem _ hw)
      refine ⟨',', stringText k ++ ':' :: compact ft v ++ c :: rest, ?_, by decide, ?_⟩
      · rw [← heq]
        simp [compactFields]
      · have hvalue := (h (k, v) List.mem_cons_self).append hc hrest
        have hall := (@Lexes.of_char ft ',' [.comma] rfl).append
          ((lexes_compactKey k).append hvalue)
        simpa [fieldTokens] using hall

/-- **The compact text of a value lexes to its tokens**, by induction on the value. -/
theorem lexes_compact (hft : ft.Lawful) {depth : ℕ} {v : Json} (h : v.Fits depth) :
    LexesBefore ft (compact ft v) (tokens v) := by
  induction h with
  | null => exact lexes_name (t := .null) rfl rfl rfl
  | bool b =>
      cases b with
      | false => exact lexes_name (t := .bool false) rfl rfl rfl
      | true => exact lexes_name (t := .bool true) rfl rfl rfl
  | number h =>
      obtain ⟨hne, hword⟩ := numberText_word hft _
      exact LexesBefore.of_word hne hword (wordToken_number hft h)
  | string s => exact (Lexes.of_string s).before
  | @array depth items h ih =>
      cases items with
      | nil =>
          exact ((@Lexes.of_char ft '[' [.beginArray] rfl).append
            (@Lexes.of_char ft ']' [.endArray] rfl)).before
      | cons v items =>
          obtain ⟨c, rest, heq, hc, hrest⟩ :=
            lexes_compactItems fun w hw => ih w (List.mem_cons_of_mem v hw)
          have hvalue := (ih v List.mem_cons_self).append hc hrest
          have hall := ((@Lexes.of_char ft '[' [.beginArray] rfl).append hvalue).before
          rw [← heq] at hall
          simpa [compact, tokens] using hall
  | @object depth fields hkeys h ih =>
      cases fields with
      | nil =>
          exact ((@Lexes.of_char ft '\x7b' [.beginObject] rfl).append
            (@Lexes.of_char ft '\x7d' [.endObject] rfl)).before
      | cons f fields =>
          obtain ⟨k, v⟩ := f
          obtain ⟨c, rest, heq, hc, hrest⟩ :=
            lexes_compactFields fun w hw => ih w (List.mem_cons_of_mem _ hw)
          have hvalue := (ih (k, v) List.mem_cons_self).append hc hrest
          have hall := ((@Lexes.of_char ft '\x7b' [.beginObject] rfl).append
            ((lexes_compactKey k).append hvalue)).before
          rw [← heq] at hall
          simpa [compact, tokens] using hall

/-! ## No control characters -/

/-- A text without control characters, which is one line. -/
def Plain (cs : List Char) : Prop := ∀ c ∈ cs, 0x20 ≤ c.toNat

theorem plain_of_all {cs : List Char} (h : cs.all (fun c => decide (0x20 ≤ c.toNat)) = true) :
    Plain cs :=
  fun c hc => of_decide_eq_true (List.all_eq_true.mp h c hc)

theorem Plain.append {cs ds : List Char} (h : Plain cs) (h' : Plain ds) : Plain (cs ++ ds) :=
  fun c hc => (List.mem_append.mp hc).elim (h c) (h' c)

theorem Plain.cons {c : Char} (hc : 0x20 ≤ c.toNat) {cs : List Char} (h : Plain cs) :
    Plain (c :: cs) :=
  fun d hd => (List.mem_cons.mp hd).elim (fun heq => heq ▸ hc) (h d)

theorem stringText_plain (s : String) : Plain (stringText s) := by
  have hescape : ∀ d, Plain (escapeChar d) := by
    intro d c hc
    unfold escapeChar at hc
    split at hc
    · next e he =>
        have hletter : ∀ e ∈ Lexer.escapes, 0x20 ≤ e.1.toNat := by decide
        rcases List.mem_pair.mp hc with rfl | rfl
        · decide
        · exact hletter e (List.mem_of_find?_eq_some he)
    · split at hc
      · next hlow =>
          have hdigit : ∀ n < 16, 0x20 ≤ (hexDigit n).toNat := by decide
          simp only [List.mem_cons, List.not_mem_nil, or_false] at hc
          rcases hc with rfl | rfl | rfl | rfl | rfl | rfl
          · decide
          · decide
          · decide
          · decide
          · exact hdigit _ (by omega)
          · exact hdigit _ (by omega)
      · next hlow =>
          obtain rfl := List.mem_singleton.mp hc
          exact Nat.le_of_not_lt hlow
  have hbody : Plain (s.toList.flatMap escapeChar) := by
    intro c hc
    obtain ⟨d, -, hmem⟩ := List.mem_flatMap.mp hc
    exact hescape d c hmem
  exact (hbody.cons (by decide)).append (plain_of_all rfl)

theorem numberText_plain (hft : ft.Lawful) (n : Number) : Plain (numberText ft n) := by
  intro c hc
  have hword := (numberText_word hft n).2 c hc
  by_contra hlow
  have hsmall : ∀ n < 0x20, isWordChar (Char.ofNat n) = false := by decide
  have hnot := hsmall c.toNat (Nat.lt_of_not_le hlow)
  rw [Char.ofNat_toNat, hword] at hnot
  cases hnot

theorem compactItems_plain {items : List Json} (h : ∀ v ∈ items, Plain (compact ft v)) :
    Plain (compactItems ft items) := by
  induction items with
  | nil => exact nofun
  | cons v items ih =>
      exact ((h v List.mem_cons_self).cons (by decide)).append
        (ih fun w hw => h w (List.mem_cons_of_mem v hw))

theorem compactFields_plain {fields : Fields} (h : ∀ f ∈ fields, Plain (compact ft f.2)) :
    Plain (compactFields ft fields) := by
  induction fields with
  | nil => exact nofun
  | cons f fields ih =>
      obtain ⟨k, v⟩ := f
      have hvalue := (h (k, v) List.mem_cons_self).cons (c := ':') (by decide)
      exact (((stringText_plain k).cons (by decide)).append hvalue).append
        (ih fun w hw => h w (List.mem_cons_of_mem _ hw))

/-- The text of a document is one line. -/
theorem compact_plain (hft : ft.Lawful) {depth : ℕ} {v : Json} (h : v.Fits depth) :
    Plain (compact ft v) := by
  induction h with
  | null => exact plain_of_all rfl
  | bool b =>
      cases b with
      | false => exact plain_of_all rfl
      | true => exact plain_of_all rfl
  | number h => exact numberText_plain hft _
  | string s => exact stringText_plain s
  | @array depth items h ih =>
      cases items with
      | nil => exact plain_of_all rfl
      | cons v items =>
          have hitems := compactItems_plain fun w hw => ih w (List.mem_cons_of_mem v hw)
          exact (((ih v List.mem_cons_self).cons (by decide)).append hitems).append
            (plain_of_all rfl)
  | @object depth fields hkeys h ih =>
      cases fields with
      | nil => exact plain_of_all rfl
      | cons f fields =>
          obtain ⟨k, v⟩ := f
          have hfields := compactFields_plain fun w hw => ih w (List.mem_cons_of_mem _ hw)
          have hvalue := (ih (k, v) List.mem_cons_self).cons (c := ':') (by decide)
          exact ((((stringText_plain k).cons (by decide)).append hvalue).append hfields).append
            (plain_of_all rfl)

/-- **A compact document is read back.** -/
theorem parse_compact (hft : ft.Lawful) {v : Json} (h : v.Fits 127) :
    parse ft (compact ft v) = .ok v := by
  have hlex : Lexer.idle.lex ft (compact ft v ++ [' ']) = some (tokens v) := by
    rw [lexes_compact hft h ' ' [] (by decide)]
    show some (tokens v ++ []) = _
    rw [List.append_nil]
  have hread : feed (.value []) (tokens v) = some (.done v) := by
    have hall := reads_tokens h [] [] (by decide)
    rwa [List.append_nil] at hall
  have hall : (Lexer.idle.lex ft (compact ft v ++ [' '])).bind
      (List.foldlM Parser.step (.value [])) = some (.done v) := by
    rw [hlex]
    exact hread
  unfold parse
  rw [hall]

end Stackhour.Core.JsonGrammar
