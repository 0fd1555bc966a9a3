import Mathlib.Data.List.Basic
import Mathlib.Tactic.Common

/-!
# Base64

The encoding: every three bytes are four sextets, and one or two bytes at the end are two or
three. `encode` has the alphabet that is safe in URLs and no padding; `encodeAs` has either
alphabet, and padding or none.
-/

namespace Base64

/-- The sextets of bytes. -/
def sextets : List UInt8 → List ℕ
  | [] => []
  | [a] => [a.toNat / 4, a.toNat % 4 * 16]
  | [a, b] => [a.toNat / 4, a.toNat % 4 * 16 + b.toNat / 16, b.toNat % 16 * 4]
  | a :: b :: c :: rest =>
      a.toNat / 4 :: (a.toNat % 4 * 16 + b.toNat / 16) :: (b.toNat % 16 * 4 + c.toNat / 64) ::
        c.toNat % 64 :: sextets rest

/-- The letter of a sextet. -/
def letter (v : ℕ) : Char :=
  Char.ofNat (if v < 26 then 65 + v else if v < 52 then 71 + v else if v < 62 then v - 4
    else if v = 62 then 45 else 95)

def encode (bs : List UInt8) : List Char := (sextets bs).map letter

inductive Alphabet where
  | standard
  | urlSafe

/-- The letter of a sextet in the standard alphabet. -/
def standardLetter (v : ℕ) : Char :=
  Char.ofNat (if v < 26 then 65 + v else if v < 52 then 71 + v else if v < 62 then v - 4
    else if v = 62 then 43 else 47)

def Alphabet.letter : Alphabet → ℕ → Char
  | .standard => standardLetter
  | .urlSafe => Base64.letter

/-- What fills the last group of four letters up. -/
def padding (n : ℕ) : List Char := List.replicate ((3 - n % 3) % 3) '='

def encodeAs (alphabet : Alphabet) (padded : Bool) (bs : List UInt8) : List Char :=
  (sextets bs).map alphabet.letter ++ if padded then padding bs.length else []

theorem encodeAs_urlSafe (bs : List UInt8) : encodeAs .urlSafe false bs = encode bs :=
  List.append_nil _

/-- A character of neither alphabet, which is no padding. -/
def Foreign (c : Char) : Prop := c ≠ '=' ∧ ∀ v < 64, ∀ a : Alphabet, a.letter v ≠ c

/-- A text with foreign characters put in anywhere before its padding. -/
inductive Inserted : List Char → List Char → Prop
  | same (cs : List Char) : Inserted cs cs
  | insert {c : Char} {cs ds : List Char} (hc : Foreign c) (h : Inserted cs ds) :
      Inserted cs (c :: ds)
  | keep {c : Char} {cs ds : List Char} (hc : c ≠ '=') (h : Inserted cs ds) :
      Inserted (c :: cs) (c :: ds)

theorem sextets_lt (bs : List UInt8) : ∀ v ∈ sextets bs, v < 64 := by
  fun_induction sextets bs with
  | case1 => exact fun v hv => absurd hv List.not_mem_nil
  | case2 a =>
      have ha := a.toNat_lt
      simp only [List.forall_mem_cons, List.not_mem_nil, false_implies, implies_true, and_true]
      omega
  | case3 a b =>
      have ha := a.toNat_lt
      have hb := b.toNat_lt
      simp only [List.forall_mem_cons, List.not_mem_nil, false_implies, implies_true, and_true]
      omega
  | case4 a b c rest ih =>
      have ha := a.toNat_lt
      have hb := b.toNat_lt
      have hc := c.toNat_lt
      simp only [List.forall_mem_cons]
      refine ⟨by omega, by omega, by omega, by omega, ih⟩

theorem length_sextets (bs : List UInt8) : (sextets bs).length = (4 * bs.length + 2) / 3 := by
  fun_induction sextets bs with
  | case1 => rfl
  | case2 a => simp
  | case3 a b => simp
  | case4 a b c rest ih =>
      simp only [List.length_cons, ih]
      omega

end Base64
