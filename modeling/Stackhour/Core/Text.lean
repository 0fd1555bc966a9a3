import Mathlib.Data.List.DropRight
import Stackhour.Hub.Validation

/-!
# Texts

The two ways in which the program trims: by Unicode's white space, and by what
JavaScript takes for it.
-/

namespace Stackhour.Core

/-- `str::trim_matches`. -/
def trimMatches (p : Char → Bool) (cs : List Char) : List Char :=
  ((cs.dropWhile p).reverse.dropWhile p).reverse

/-- `str::trim`. -/
def trim (cs : List Char) : List Char := trimMatches Hub.isWhitespace cs

/-- JavaScript trims a byte order mark and keeps NEL. -/
def isJsSpace (c : Char) : Bool := c == '\uFEFF' || (Hub.isWhitespace c && c != '\u0085')

/-- `js_trim`. -/
def jsTrim (cs : List Char) : List Char := trimMatches isJsSpace cs

/-- `trim_start_matches`: a prefix is taken off as often as it stands there,
at most `n` times. -/
def trimStartMatches (p : List Char) : ℕ → List Char → List Char
  | 0, cs => cs
  | n + 1, cs => if p.isPrefixOf cs then trimStartMatches p n (cs.drop p.length) else cs

/-- `str::strip_prefix`. -/
def stripPrefix (p s : String) : Option String :=
  if p.toList.isPrefixOf s.toList then some (String.ofList (s.toList.drop p.toList.length)) else none

theorem stripPrefix_eq_some {p s v : String} : stripPrefix p s = some v ↔ s = p ++ v := by
  unfold stripPrefix
  constructor
  · intro h
    split at h
    · next hp =>
        obtain ⟨rest, hrest⟩ := List.isPrefixOf_iff_prefix.mp hp
        rw [← hrest, List.drop_left] at h
        obtain rfl := Option.some.inj h
        rw [← String.toList_inj, String.toList_append, String.toList_ofList]
        exact hrest.symm
    · cases h
  · rintro rfl
    have hp : p.toList.isPrefixOf (p ++ v).toList = true := by
      rw [List.isPrefixOf_iff_prefix, String.toList_append]
      exact List.prefix_append _ _
    rw [if_pos hp, String.toList_append, List.drop_left, String.ofList_toList]

/-- What stands before the first of some character, and behind it. -/
theorem cut_unique {c : Char} {a b v w : List Char} (ha : c ∉ a) (hb : c ∉ b)
    (h : a ++ c :: v = b ++ c :: w) : a = b ∧ v = w := by
  have hbefore : ∀ {a v : List Char}, c ∉ a → (a ++ c :: v).takeWhile (· ≠ c) = a := by
    intro a v ha
    rw [List.takeWhile_append_of_pos]
    · simp
    · intro d hd
      have hne : d ≠ c := fun heq => ha (heq ▸ hd)
      simpa using hne
  obtain rfl : a = b := by rw [← @hbefore a v ha, h, hbefore hb]
  exact ⟨rfl, List.tail_eq_of_cons_eq (List.append_cancel_left h)⟩

/-- An ASCII property of characters, by their codes. -/
theorem ascii_cases {P : Char → Prop} (hascii : ∀ n < 128, P (Char.ofNat n))
    (hrest : ∀ c : Char, 128 ≤ c.toNat → P c) (c : Char) : P c := by
  rcases lt_or_ge c.toNat 128 with h | h
  · have hp := hascii c.toNat h
    rwa [Char.ofNat_toNat] at hp
  · exact hrest c h

theorem toLower_of_not_ascii {c : Char} (h : 128 ≤ c.toNat) : c.toLower = c := by
  refine dif_neg fun hupper => ?_
  have hle : c.toNat ≤ 90 := UInt32.le_iff_toNat_le.mp hupper.2
  omega

/-- What is between the characters that go stays, if it neither begins nor ends
with one. -/
theorem trimMatches_between {p : Char → Bool} {a m b : List Char} (ha : ∀ c ∈ a, p c = true)
    (hb : ∀ c ∈ b, p c = true) (hfirst : ∀ c ∈ m.head?, p c = false)
    (hlast : ∀ c ∈ m.getLast?, p c = false) (hne : m ≠ []) :
    trimMatches p (a ++ m ++ b) = m := by
  have hleft : (a ++ m ++ b).dropWhile p = m ++ b := by
    rw [List.append_assoc, List.dropWhile_append_of_pos ha]
    cases m with
    | nil => exact absurd rfl hne
    | cons c m => exact List.dropWhile_cons_of_neg (by simp [hfirst c rfl])
  have hright : m.reverse.dropWhile p = m.reverse := by
    cases hrev : m.reverse with
    | nil => rfl
    | cons c r =>
        have hc : m.getLast? = some c := by
          rw [← List.head?_reverse, hrev]
          rfl
        exact List.dropWhile_cons_of_neg (by simp [hlast c hc])
  have hb' : ∀ c ∈ b.reverse, p c = true := fun c hc => hb c (List.mem_reverse.mp hc)
  unfold trimMatches
  rw [hleft, List.reverse_append, List.dropWhile_append_of_pos hb', hright, List.reverse_reverse]

/-- What goes is at the two ends. -/
theorem exists_trimMatches (p : Char → Bool) (cs : List Char) :
    ∃ a b, cs = a ++ trimMatches p cs ++ b ∧ (∀ c ∈ a, p c = true) ∧ ∀ c ∈ b, p c = true := by
  refine ⟨cs.takeWhile p, ((cs.dropWhile p).reverse.takeWhile p).reverse, ?_,
    fun c hc => List.mem_takeWhile_imp hc,
    fun c hc => List.mem_takeWhile_imp (List.mem_reverse.mp hc)⟩
  have hright : trimMatches p cs ++ ((cs.dropWhile p).reverse.takeWhile p).reverse =
      cs.dropWhile p := by
    unfold trimMatches
    rw [← List.reverse_append, List.takeWhile_append_dropWhile, List.reverse_reverse]
  rw [List.append_assoc, hright, List.takeWhile_append_dropWhile]

/-- What is trimmed neither begins nor ends with a character that goes. -/
theorem trimMatches_trimMatches (p : Char → Bool) (cs : List Char) :
    trimMatches p (trimMatches p cs) = trimMatches p cs := by
  have hleft : (trimMatches p cs).dropWhile p = trimMatches p cs := by
    obtain ⟨tail, htail⟩ : trimMatches p cs <+: cs.dropWhile p := List.rdropWhile_prefix p _
    cases hkept : trimMatches p cs with
    | nil => rfl
    | cons c rest =>
        have hfirst := List.head?_dropWhile_not p cs
        rw [← htail, hkept] at hfirst
        exact List.dropWhile_cons_of_neg (Bool.not_eq_true _ ▸ hfirst)
  show ((trimMatches p cs).dropWhile p).rdropWhile p = _
  rw [hleft]
  exact List.rdropWhile_idempotent p (cs.dropWhile p)

end Stackhour.Core
