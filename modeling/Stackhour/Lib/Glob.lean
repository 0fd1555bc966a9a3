import Mathlib.Data.List.Infix
import Mathlib.Data.List.TakeWhile

/-!
# GLOB patterns

The pattern language of SQLite's GLOB: `*` for any text, `?` for any character, `[..]` and
`[^..]` for sets with ranges, and every other character for itself. Both sides are C strings
and end at their first NUL.
-/

namespace Glob

/-- The characters of the ranges, or those of none of them. -/
structure CharSet where
  negated : Bool
  ranges : List (Char × Char)
deriving DecidableEq

namespace CharSet

def has (cs : CharSet) (c : Char) : Bool :=
  cs.ranges.any (fun r => decide (r.1 ≤ c) && decide (c ≤ r.2)) != cs.negated

/-- `?`. -/
def all : CharSet := ⟨true, []⟩

/-- A character that stands for itself. -/
def only (c : Char) : CharSet := ⟨false, [(c, c)]⟩

theorem has_only {a c : Char} : (only a).has c = true ↔ c = a := by
  simp only [has, only, List.any_cons, List.any_nil, Bool.or_false, Bool.bne_false,
    Bool.and_eq_true, decide_eq_true_eq]
  exact ⟨fun h => Char.le_antisymm h.2 h.1, fun h => h ▸ ⟨Char.le_refl _, Char.le_refl _⟩⟩

end CharSet

inductive Item where
  | star
  | char (set : CharSet)
deriving DecidableEq

/-! ## Reading a pattern -/

/-- The ranges of a set and what comes after its `]`. A character of its own is a range, and
`prior` may begin a longer one. -/
def readRanges (prior : Option Char) : List Char → Option (List (Char × Char) × List Char)
  | [] => none
  | ']' :: rest => some ([], rest)
  | '-' :: high :: rest =>
      match prior, decide (high = ']') with
      | some low, false => (readRanges none rest).map (fun r => ((low, high) :: r.1, r.2))
      | _, _ => (readRanges (some '-') (high :: rest)).map (fun r => (('-', '-') :: r.1, r.2))
  | c :: rest => (readRanges (some c) rest).map (fun r => ((c, c) :: r.1, r.2))

/-- A `]` that comes first is a member. -/
def readMembers : List Char → Option (List (Char × Char) × List Char)
  | ']' :: rest => (readRanges none rest).map (fun r => ((']', ']') :: r.1, r.2))
  | rest => readRanges none rest

/-- What comes after a `[`. -/
def readSet : List Char → Option (CharSet × List Char)
  | '^' :: rest => (readMembers rest).map (fun r => (⟨true, r.1⟩, r.2))
  | rest => (readMembers rest).map (fun r => (⟨false, r.1⟩, r.2))

/-- The items of a pattern, each of which takes a character or more of it. -/
def items : ℕ → List Char → Option (List Item)
  | _, [] => some []
  | 0, _ => none
  | n + 1, '*' :: rest => (items n rest).map (.star :: ·)
  | n + 1, '?' :: rest => (items n rest).map (.char .all :: ·)
  | n + 1, '[' :: rest => (readSet rest).bind (fun r => (items n r.2).map (.char r.1 :: ·))
  | n + 1, c :: rest => (items n rest).map (.char (.only c) :: ·)

/-- The items of a pattern; `none` where a set is not closed. -/
def read (pattern : List Char) : Option (List Item) := items pattern.length pattern

/-! ## Matching -/

def accepts : List Item → List Char → Bool
  | [], s => s.isEmpty
  | .star :: p, s => s.tails.any (accepts p)
  | .char _ :: _, [] => false
  | .char set :: p, c :: s => set.has c && accepts p s

/-- A C string. -/
def cString (s : List Char) : List Char := s.takeWhile (fun c => c != '\x00')

/-- `s GLOB pattern`. -/
def glob (pattern s : List Char) : Bool :=
  ((read (cString pattern)).map (fun p => accepts p (cString s))).getD false

variable {p : List Item} {s : List Char}

theorem cString_eq (h : '\x00' ∉ s) : cString s = s := by
  refine List.takeWhile_eq_self_iff.mpr fun c hc => ?_
  exact bne_iff_ne.mpr fun hnul => h (hnul ▸ hc)

theorem glob_eq {pattern : List Char} (hread : read (cString pattern) = some p)
    (h : '\x00' ∉ s) : glob pattern s = accepts p s := by
  unfold glob
  rw [hread, cString_eq h]
  rfl

theorem accepts_nil : accepts [] s = true ↔ s = [] := List.isEmpty_iff

theorem accepts_star :
    accepts (.star :: p) s = true ↔ ∃ before after, s = before ++ after ∧ accepts p after = true := by
  rw [accepts, List.any_eq_true]
  constructor
  · rintro ⟨after, hmem, haccepts⟩
    obtain ⟨before, rfl⟩ := (List.mem_tails _ _).mp hmem
    exact ⟨before, after, rfl, haccepts⟩
  · rintro ⟨before, after, rfl, haccepts⟩
    exact ⟨after, (List.mem_tails _ _).mpr (List.suffix_append before after), haccepts⟩

theorem accepts_star_last : accepts [.star] s = true :=
  accepts_star.mpr ⟨s, [], (List.append_nil s).symm, rfl⟩

theorem accepts_char {set : CharSet} : accepts (.char set :: p) s = true ↔
    ∃ c after, s = c :: after ∧ set.has c = true ∧ accepts p after = true := by
  cases s with
  | nil => exact iff_of_false Bool.false_ne_true (by rintro ⟨c, after, ⟨⟩, -⟩)
  | cons c after =>
      rw [accepts, Bool.and_eq_true]
      constructor
      · exact fun h => ⟨c, after, rfl, h⟩
      · rintro ⟨_, _, ⟨⟩, h⟩
        exact h

theorem accepts_only {a : Char} : accepts (.char (.only a) :: p) s = true ↔
    ∃ after, s = a :: after ∧ accepts p after = true := by
  rw [accepts_char]
  constructor
  · rintro ⟨c, after, rfl, hc, h⟩
    exact ⟨after, by rw [CharSet.has_only.mp hc], h⟩
  · rintro ⟨after, rfl, h⟩
    exact ⟨a, after, rfl, CharSet.has_only.mpr rfl, h⟩

end Glob
