import Stackhour.Core.Text
import Stackhour.Lib.Glob
import Stackhour.Tracker.Ingest
import Stackhour.Tracker.Migrations

/-!
# The two actor classifiers

The backfill of the actor column classifies the rows that are there by GLOB patterns on their
category, and the WakaTime route classifies new rows by a regular expression. Both look for
`ai` with no ASCII letter, digit or underscore beside it.
-/

namespace Stackhour.Tracker

open Core (ascii_cases toLower_of_not_ascii)
open Glob (Item CharSet glob accepts)

/-- The tests of the backfill on a category; `lower` folds ASCII letters. -/
def categoryIsAi (category : List Char) : Bool :=
  let lowered := category.map Char.toLower
  lowered == "ai".toList || glob "ai[^a-z0-9_]*".toList lowered ||
    glob "*[^a-z0-9_]ai".toList lowered || glob "*[^a-z0-9_]ai[^a-z0-9_]*".toList lowered

/-! ## A word that stands alone -/

/-- What is next to a word is no part of it. -/
def Apart (isWord : Char → Bool) (next : Option Char) : Prop := ∀ c ∈ next, isWord c = false

/-- `ai` stands alone in a text, whose letters are compared by `fold`. -/
def AiStands (fold : Char → Char) (isWord : Char → Bool) (s : List Char) : Prop :=
  ∃ before a i after, s = before ++ a :: i :: after ∧ fold a = 'a' ∧ fold i = 'i' ∧
    Apart isWord before.getLast? ∧ Apart isWord after.head?

/-- The class of the patterns, after `lower`, is the one of `\b`. -/
theorem isAiWord_toLower (c : Char) : isAiWord c.toLower = isWordChar c := by
  revert c
  refine ascii_cases (by decide) fun c h => ?_
  rw [toLower_of_not_ascii h]
  have hlarge : ∀ d : Char, d.toNat < 128 → ¬ c ≤ d := fun d hd hle => by
    have hle : c.toNat ≤ d.toNat := hle
    omega
  have hletter : decide (c ≤ 'z') = false := decide_eq_false (hlarge 'z' (by decide))
  have hdigit : decide (c ≤ '9') = false := decide_eq_false (hlarge '9' (by decide))
  have hword : Hub.isAsciiAlphanumeric c = false := by
    simp only [Hub.isAsciiAlphanumeric, Bool.or_eq_false_iff, Bool.and_eq_false_iff,
      decide_eq_false_iff_not]
    omega
  simp [isAiWord, isWordChar, hletter, hdigit, hword]

theorem toLower_eq {small capital : Char}
    (hascii : ∀ n < 128, (Char.ofNat n).toLower = small ↔
      Char.ofNat n = small ∨ Char.ofNat n = capital)
    (hsmall : small.toLower = small) (hcapital : capital.toNat < 128) {c : Char} :
    c.toLower = small ↔ c = small ∨ c = capital := by
  revert c
  refine @ascii_cases (fun c => c.toLower = small ↔ c = small ∨ c = capital) hascii fun c h => ?_
  rw [toLower_of_not_ascii h]
  constructor
  · exact .inl
  · rintro (rfl | rfl)
    · rfl
    · exact absurd hcapital (not_lt.mpr h)

theorem toLower_eq_a {c : Char} : c.toLower = 'a' ↔ c = 'a' ∨ c = 'A' :=
  toLower_eq (by decide) (by decide) (by decide)

theorem toLower_eq_i {c : Char} : c.toLower = 'i' ↔ c = 'i' ∨ c = 'I' :=
  toLower_eq (by decide) (by decide) (by decide)

theorem apart_none {isWord : Char → Bool} : Apart isWord none := by
  rintro c ⟨⟩

theorem apart_some {isWord : Char → Bool} {c : Char} :
    Apart isWord (some c) ↔ isWord c = false := by
  constructor
  · exact fun h => h c rfl
  · rintro h _ ⟨⟩
    exact h

theorem apart_iff {isWord : Char → Bool} {next : Option Char} :
    Apart isWord next ↔ next.any isWord = false := by
  cases next with
  | none => exact iff_of_true apart_none rfl
  | some c => exact apart_some

/-! ## The regular expression -/

/-- What `matchesAi` finds, behind a character that is or is not of a word. -/
theorem matchesAi_iff (word : Bool) (s : List Char) :
    matchesAi word s = true ↔ ∃ before a i after, s = before ++ a :: i :: after ∧
      a.toLower = 'a' ∧ i.toLower = 'i' ∧ (before = [] → word = false) ∧
      Apart isWordChar before.getLast? ∧ Apart isWordChar after.head? := by
  induction s generalizing word with
  | nil =>
      refine iff_of_false Bool.false_ne_true ?_
      rintro ⟨before, a, i, after, hs, -⟩
      cases before <;> cases hs
  | cons c rest ih =>
      cases rest with
      | nil =>
          refine iff_of_false (by simp [matchesAi]) ?_
          rintro ⟨before, a, i, after, hs, -⟩
          have hlength := congrArg List.length hs
          simp only [List.length_cons, List.length_nil, List.length_append] at hlength
          omega
      | cons d tail =>
          have hhere : (!word && (c == 'a' || c == 'A') &&
              ((d == 'i' || d == 'I') && !(tail.head?.any isWordChar))) = true ↔
              word = false ∧ c.toLower = 'a' ∧ d.toLower = 'i' ∧ Apart isWordChar tail.head? := by
            simp only [Bool.and_eq_true, Bool.or_eq_true, Bool.not_eq_true', beq_iff_eq,
              toLower_eq_a, toLower_eq_i, apart_iff, and_assoc]
          rw [matchesAi, Bool.or_eq_true, hhere, ih]
          constructor
          · rintro (⟨hword, ha, hi, hnext⟩ | ⟨before, a, i, after, hs, ha, hi, hword, hlast, hnext⟩)
            · exact ⟨[], c, d, tail, rfl, ha, hi, fun _ => hword, apart_none, hnext⟩
            · refine ⟨c :: before, a, i, after, congrArg (c :: ·) hs, ha, hi, ?_, ?_, hnext⟩
              · rintro ⟨⟩
              · cases before with
                | nil => exact apart_some.mpr (hword rfl)
                | cons b before => rwa [List.getLast?_cons_cons]
          · rintro ⟨before, a, i, after, hs, ha, hi, hword, hlast, hnext⟩
            cases before with
            | nil =>
                cases hs
                exact .inl ⟨hword rfl, ha, hi, hnext⟩
            | cons b before =>
                obtain ⟨rfl, hrest⟩ := List.cons.inj hs
                refine .inr ⟨before, a, i, after, hrest, ha, hi, ?_, ?_, hnext⟩
                · rintro rfl
                  exact apart_some.mp hlast
                · cases before with
                  | nil => exact apart_none
                  | cons b before => rwa [List.getLast?_cons_cons] at hlast

theorem matchesAi_stands (s : List Char) :
    matchesAi false s = true ↔ AiStands Char.toLower isWordChar s := by
  rw [matchesAi_iff]
  simp only [AiStands, implies_true, true_and]

/-! ## The patterns -/

/-- `[^a-z0-9_]`. -/
def edge : CharSet := ⟨true, [('a', 'a'), ('a', 'z'), ('0', '0'), ('0', '9'), ('_', '_')]⟩

theorem edge_has (c : Char) : edge.has c = true ↔ isAiWord c = false := by
  have hle : ∀ d e : Char, d ≤ e ↔ d.toNat ≤ e.toNat := fun _ _ => Iff.rfl
  simp only [edge, CharSet.has, isAiWord, List.any_cons, List.any_nil, Bool.or_false,
    Bool.bne_true, Bool.not_eq_true', Bool.or_eq_false_iff, Bool.and_eq_false_iff,
    decide_eq_false_iff_not, beq_eq_false_iff_ne, hle, ← Char.toNat_inj, ne_eq]
  simp only [Char.reduceToNat]
  omega

theorem read_patterns :
    Glob.read (Glob.cString "ai[^a-z0-9_]*".toList) =
        some [.char (.only 'a'), .char (.only 'i'), .char edge, .star] ∧
      Glob.read (Glob.cString "*[^a-z0-9_]ai".toList) =
        some [.star, .char edge, .char (.only 'a'), .char (.only 'i')] ∧
      Glob.read (Glob.cString "*[^a-z0-9_]ai[^a-z0-9_]*".toList) =
        some [.star, .char edge, .char (.only 'a'), .char (.only 'i'), .char edge, .star] := by
  decide

theorem accepts_ai {p : List Item} {t : List Char} :
    accepts (.char (.only 'a') :: .char (.only 'i') :: p) t = true ↔
      ∃ after, t = 'a' :: 'i' :: after ∧ accepts p after = true := by
  rw [Glob.accepts_only]
  constructor
  · rintro ⟨_, rfl, h⟩
    obtain ⟨after, rfl, h⟩ := Glob.accepts_only.mp h
    exact ⟨after, rfl, h⟩
  · rintro ⟨after, rfl, h⟩
    exact ⟨_, rfl, Glob.accepts_only.mpr ⟨after, rfl, h⟩⟩

/-- A pattern that goes on behind an edge. -/
theorem accepts_edge_last {t : List Char} : accepts [.char edge, .star] t = true ↔
    ∃ c ∈ t.head?, isAiWord c = false := by
  rw [Glob.accepts_char]
  constructor
  · rintro ⟨c, after, rfl, hc, -⟩
    exact ⟨c, rfl, (edge_has c).mp hc⟩
  · rintro ⟨c, hhead, hc⟩
    obtain ⟨after, rfl⟩ := List.head?_eq_some_iff.mp hhead
    exact ⟨c, after, rfl, (edge_has c).mpr hc, Glob.accepts_star_last⟩

/-- A pattern that begins with any text and an edge. -/
theorem accepts_edge_first {p : List Item} {t : List Char} :
    accepts (.star :: .char edge :: p) t = true ↔ ∃ before after, t = before ++ after ∧
      (∃ c ∈ before.getLast?, isAiWord c = false) ∧ accepts p after = true := by
  rw [Glob.accepts_star]
  constructor
  · rintro ⟨before, _, rfl, h⟩
    obtain ⟨c, after, rfl, hc, h⟩ := Glob.accepts_char.mp h
    refine ⟨before ++ [c], after, by simp, ⟨c, ?_, (edge_has c).mp hc⟩, h⟩
    exact List.getLast?_concat
  · rintro ⟨before, after, rfl, ⟨c, hlast, hc⟩, h⟩
    obtain ⟨front, rfl⟩ := List.getLast?_eq_some_iff.mp hlast
    refine ⟨front, c :: after, by simp, ?_⟩
    exact Glob.accepts_char.mpr ⟨c, after, rfl, (edge_has c).mpr hc, h⟩

/-- What is next to a word is the end of the text, or a character that is no part of it. -/
theorem apart_cases {next : Option Char} :
    Apart isAiWord next ↔ next = none ∨ ∃ c ∈ next, isAiWord c = false := by
  cases next with
  | none => exact iff_of_true apart_none (.inl rfl)
  | some c => simp [apart_some]

/-- The four tests of a text are for a word that is all of it, begins it, ends it or is inside. -/
theorem tests_iff {t : List Char} (hnul : '\x00' ∉ t) :
    (t == "ai".toList || glob "ai[^a-z0-9_]*".toList t || glob "*[^a-z0-9_]ai".toList t ||
      glob "*[^a-z0-9_]ai[^a-z0-9_]*".toList t) = true ↔ AiStands id isAiWord t := by
  obtain ⟨hfirst, hlast, hinside⟩ := read_patterns
  rw [Glob.glob_eq hfirst hnul, Glob.glob_eq hlast hnul, Glob.glob_eq hinside hnul]
  simp only [Bool.or_eq_true, beq_iff_eq, accepts_edge_first, accepts_ai, accepts_edge_last,
    Glob.accepts_nil]
  constructor
  · rintro (((rfl | ⟨after, rfl, hnext⟩) | ⟨before, _, rfl, hprev, _, rfl, rfl⟩) |
      ⟨before, _, rfl, hprev, after, rfl, hnext⟩)
    · exact ⟨[], 'a', 'i', [], rfl, rfl, rfl, apart_none, apart_none⟩
    · exact ⟨[], 'a', 'i', after, rfl, rfl, rfl, apart_none, apart_cases.mpr (.inr hnext)⟩
    · exact ⟨before, 'a', 'i', [], rfl, rfl, rfl, apart_cases.mpr (.inr hprev), apart_none⟩
    · exact ⟨before, 'a', 'i', after, rfl, rfl, rfl, apart_cases.mpr (.inr hprev),
        apart_cases.mpr (.inr hnext)⟩
  · rintro ⟨before, _, _, after, rfl, rfl, rfl, hprev, hnext⟩
    rcases apart_cases.mp hprev with hprev | hprev <;> rcases apart_cases.mp hnext with hnext | hnext
    · rw [List.getLast?_eq_none_iff.mp hprev, List.head?_eq_none_iff.mp hnext]
      exact .inl (.inl (.inl rfl))
    · rw [List.getLast?_eq_none_iff.mp hprev]
      exact .inl (.inl (.inr ⟨after, rfl, hnext⟩))
    · rw [List.head?_eq_none_iff.mp hnext]
      exact .inl (.inr ⟨before, _, rfl, hprev, [], rfl, rfl⟩)
    · exact .inr ⟨before, _, rfl, hprev, after, rfl, hnext⟩

/-! ## The two agree -/

/-- A word stands in what `lower` makes of a text where it stands in the text. -/
theorem aiStands_map (s : List Char) :
    AiStands id isAiWord (s.map Char.toLower) ↔ AiStands Char.toLower isWordChar s := by
  have happart : ∀ next : Option Char,
      Apart isAiWord (next.map Char.toLower) ↔ Apart isWordChar next := by
    intro next
    cases next with
    | none => exact iff_of_true apart_none apart_none
    | some c => rw [Option.map_some, apart_some, apart_some, isAiWord_toLower]
  constructor
  · rintro ⟨_, _, _, _, hs, ha, hi, hprev, hnext⟩
    obtain ⟨before, _, rfl, rfl, hword⟩ := List.map_eq_append_iff.mp hs
    obtain ⟨a, _, rfl, rfl, htail⟩ := List.map_eq_cons_iff.mp hword
    obtain ⟨i, after, rfl, rfl, rfl⟩ := List.map_eq_cons_iff.mp htail
    rw [List.getLast?_map, happart] at hprev
    rw [List.head?_map, happart] at hnext
    exact ⟨before, a, i, after, rfl, ha, hi, hprev, hnext⟩
  · rintro ⟨before, a, i, after, rfl, ha, hi, hprev, hnext⟩
    refine ⟨before.map Char.toLower, a.toLower, i.toLower, after.map Char.toLower, by simp, ha, hi,
      ?_, ?_⟩
    · rwa [List.getLast?_map, happart]
    · rwa [List.head?_map, happart]

theorem nul_notMem_lower {s : List Char} (h : '\x00' ∉ s) : '\x00' ∉ s.map Char.toLower := by
  intro hmem
  obtain ⟨c, hc, hlower⟩ := List.mem_map.mp hmem
  have hnul : c = '\x00' := by
    revert hlower
    refine @ascii_cases (fun c => c.toLower = '\x00' → c = '\x00') (by decide) (fun c h => ?_) c
    rw [toLower_of_not_ascii h]
    exact id
  exact h (hnul ▸ hc)

/-! ## The backfill of a row -/

theorem globAiFirst_iff (t : List Char) : globAiFirst t = true ↔
    ∃ after, t = 'a' :: 'i' :: after ∧ ∃ c ∈ after.head?, isAiWord c = false := by
  unfold globAiFirst
  split
  · next d after =>
      rw [Bool.not_eq_true']
      constructor
      · exact fun h => ⟨d :: after, rfl, d, rfl, h⟩
      · rintro ⟨_, ⟨⟩, _, ⟨⟩, h⟩
        exact h
  · next hno =>
      refine iff_of_false Bool.false_ne_true ?_
      rintro ⟨after, rfl, c, hhead, -⟩
      obtain ⟨tail, rfl⟩ := List.head?_eq_some_iff.mp hhead
      exact hno c tail rfl

theorem globAiInside_cons (c : Char) (rest : List Char) : globAiInside (c :: rest) = true ↔
    (isAiWord c = false ∧ ∃ after, rest = 'a' :: 'i' :: after ∧ Apart isAiWord after.head?) ∨
      globAiInside rest = true := by
  conv_lhs => unfold globAiInside
  rw [Bool.or_eq_true, Bool.and_eq_true, Bool.not_eq_true']
  refine or_congr_left (and_congr_right fun _ => ?_)
  split
  · exact iff_of_true rfl ⟨[], rfl, apart_none⟩
  · next d after =>
      rw [Bool.not_eq_true']
      constructor
      · exact fun h => ⟨d :: after, rfl, apart_some.mpr h⟩
      · rintro ⟨_, ⟨⟩, h⟩
        exact apart_some.mp h
  · next hend hno =>
      refine iff_of_false Bool.false_ne_true ?_
      rintro ⟨after, rfl, -⟩
      cases after with
      | nil => exact hend rfl
      | cons d after => exact hno d after rfl

theorem globAiInside_iff (t : List Char) : globAiInside t = true ↔
    ∃ before after, t = before ++ 'a' :: 'i' :: after ∧
      (∃ c ∈ before.getLast?, isAiWord c = false) ∧ Apart isAiWord after.head? := by
  induction t with
  | nil =>
      refine iff_of_false Bool.false_ne_true ?_
      rintro ⟨before, after, hs, -⟩
      cases before <;> cases hs
  | cons c rest ih =>
      rw [globAiInside_cons, ih]
      constructor
      · rintro (⟨hc, after, rfl, hnext⟩ | ⟨before, after, rfl, hprev, hnext⟩)
        · exact ⟨[c], after, rfl, ⟨c, rfl, hc⟩, hnext⟩
        · obtain ⟨d, hlast, hd⟩ := hprev
          refine ⟨c :: before, after, rfl, ⟨d, ?_, hd⟩, hnext⟩
          cases before with
          | nil => cases hlast
          | cons b before => rwa [List.getLast?_cons_cons]
      · rintro ⟨before, after, hs, ⟨d, hlast, hd⟩, hnext⟩
        cases before with
        | nil => cases hlast
        | cons b before =>
            obtain ⟨rfl, hrest⟩ := List.cons.inj hs
            cases before with
            | nil =>
                cases hlast
                exact .inl ⟨hd, after, hrest, hnext⟩
            | cons b before =>
                rw [List.getLast?_cons_cons] at hlast
                exact .inr ⟨b :: before, after, hrest, ⟨d, hlast, hd⟩, hnext⟩

/-- The tests of the migration on a category are those of the patterns. -/
theorem globs_iff (t : List Char) :
    (t == "ai".toList || globAiFirst t || globAiInside t) = true ↔ AiStands id isAiWord t := by
  rw [Bool.or_eq_true, Bool.or_eq_true, beq_iff_eq, globAiFirst_iff, globAiInside_iff]
  constructor
  · rintro ((rfl | ⟨after, rfl, hnext⟩) | ⟨before, after, rfl, hprev, hnext⟩)
    · exact ⟨[], 'a', 'i', [], rfl, rfl, rfl, apart_none, apart_none⟩
    · exact ⟨[], 'a', 'i', after, rfl, rfl, rfl, apart_none, apart_cases.mpr (.inr hnext)⟩
    · exact ⟨before, 'a', 'i', after, rfl, rfl, rfl, apart_cases.mpr (.inr hprev), hnext⟩
  · rintro ⟨before, _, _, after, rfl, rfl, rfl, hprev, hnext⟩
    rcases apart_cases.mp hprev with hnone | hprev
    · rw [List.getLast?_eq_none_iff.mp hnone]
      rcases apart_cases.mp hnext with hend | hnext
      · rw [List.head?_eq_none_iff.mp hend]
        exact .inl (.inl rfl)
      · exact .inl (.inr ⟨after, rfl, hnext⟩)
    · exact .inr ⟨before, after, rfl, hprev, hnext⟩

/-- A row is taken for an agent's by its source, or where a new row of its category would be. -/
theorem isAgentRow_eq (row : Sql.Row) : isAgentRow row =
    (("claude-".toList.isPrefixOf ((columnText row "source").map Char.toLower) ||
      "codex-".toList.isPrefixOf ((columnText row "source").map Char.toLower) ||
      columnText row "source" == "zed-agent".toList) ||
      matchesAi false (columnText row "category")) := by
  have hcategory : ∀ category : List Char,
      (category.map Char.toLower == "ai".toList || globAiFirst (category.map Char.toLower) ||
        globAiInside (category.map Char.toLower)) = matchesAi false category := by
    intro category
    rw [Bool.eq_iff_iff, globs_iff, aiStands_map, matchesAi_stands]
  rw [← hcategory]
  simp only [isAgentRow, Bool.or_assoc]

/-- **The two classifiers agree** on every category without a NUL. -/
theorem classifiers_agree (category : String) (hnul : '\x00' ∉ category.toList) :
    categoryIsAi category.toList = matchesAi false category.toList := by
  rw [Bool.eq_iff_iff, matchesAi_stands, ← aiStands_map]
  exact tests_iff (nul_notMem_lower hnul)

/-- A letter that is not of ASCII is no word character to either. -/
theorem classifiers_agree_accented : '\x00' ∉ "éAI-assisted".toList ∧
    categoryIsAi "éAI-assisted".toList = matchesAi false "éAI-assisted".toList :=
  ⟨by decide, classifiers_agree "éAI-assisted" (by decide)⟩

end Stackhour.Tracker
