import Mathlib.Data.List.Forall2
import Mathlib.Data.Nat.Digits.Defs

/-!
# Numeric strings of ECMAScript

The grammar of the strings that `Number` takes for numbers, and what they stand for
before it is rounded to a double.
-/

namespace NumericLiteral

/-! ## Decimal literals -/

def DecimalDigits (cs : List Char) : Prop := cs ≠ [] ∧ ∀ c ∈ cs, c.isDigit = true

/-- A part that may be missing. -/
def Opt (P : List Char → Prop) (cs : List Char) : Prop := cs = [] ∨ P cs

def Sign (cs : List Char) : Prop := Opt (fun cs => cs = ['+'] ∨ cs = ['-']) cs

inductive ExponentPart : List Char → Prop
  | mk {e : Char} {sign digits : List Char} (he : e = 'e' ∨ e = 'E') (hsign : Sign sign)
      (hdigits : DecimalDigits digits) : ExponentPart (e :: (sign ++ digits))

/-- `StrUnsignedDecimalLiteral`, except for `Infinity`. -/
inductive UnsignedDecimal : List Char → Prop
  | wholePoint {whole fraction exponent : List Char} (hwhole : DecimalDigits whole)
      (hfraction : Opt DecimalDigits fraction) (hexponent : Opt ExponentPart exponent) :
      UnsignedDecimal (whole ++ '.' :: (fraction ++ exponent))
  | point {fraction exponent : List Char} (hfraction : DecimalDigits fraction)
      (hexponent : Opt ExponentPart exponent) : UnsignedDecimal ('.' :: (fraction ++ exponent))
  | whole {whole exponent : List Char} (hwhole : DecimalDigits whole)
      (hexponent : Opt ExponentPart exponent) : UnsignedDecimal (whole ++ exponent)

/-- `StrDecimalLiteral`, except for `Infinity`. -/
inductive StrDecimal : List Char → Prop
  | mk {sign unsigned : List Char} (hsign : Sign sign) (hunsigned : UnsignedDecimal unsigned) :
      StrDecimal (sign ++ unsigned)

/-! ## Other integers -/

def hexDigits : List Char :=
  ['0', '1', '2', '3', '4', '5', '6', '7', '8', '9', 'a', 'b', 'c', 'd', 'e', 'f']

/-- A digit of a radix, in either case, and its value. -/
def DigitValue (radix : ℕ) (c : Char) (d : ℕ) : Prop :=
  hexDigits.idxOf? c.toLower = some d ∧ d < radix

def radixLetters : List (Char × ℕ) :=
  [('b', 2), ('B', 2), ('o', 8), ('O', 8), ('x', 16), ('X', 16)]

/-- `NonDecimalIntegerLiteral` and its value. -/
inductive NonDecimalInteger : List Char → ℕ → Prop
  | mk {letter : Char} {radix : ℕ} {digits : List Char} {values : List ℕ}
      (hletter : (letter, radix) ∈ radixLetters) (hdigits : List.Forall₂ (DigitValue radix) digits values)
      (hne : digits ≠ []) :
      NonDecimalInteger ('0' :: letter :: digits) (Nat.ofDigits radix values.reverse)

/-! ## Strings -/

/-- `StrWhiteSpaceChar`: white space, the space separators of Unicode, and line
terminators. -/
def whiteSpace : List ℕ :=
  [0x09, 0x0B, 0x0C, 0xFEFF, 0x20, 0xA0, 0x1680] ++ List.range' 0x2000 11 ++
    [0x202F, 0x205F, 0x3000] ++ [0x0A, 0x0D, 0x2028, 0x2029]

def StrWhiteSpace (cs : List Char) : Prop := ∀ c ∈ cs, c.toNat ∈ whiteSpace

/-- What a string stands for, before it is rounded. -/
inductive Numeric where
  | zero
  | infinity (negative : Bool)
  | integer (n : ℕ)
  | decimal (literal : List Char)
  | nan

inductive StrNumeric : List Char → Numeric → Prop
  | infinity {sign : List Char} (hsign : Sign sign) :
      StrNumeric (sign ++ "Infinity".toList) (.infinity (sign == ['-']))
  | integer {cs : List Char} {n : ℕ} (h : NonDecimalInteger cs n) : StrNumeric cs (.integer n)
  | decimal {cs : List Char} (h : StrDecimal cs) : StrNumeric cs (.decimal cs)

inductive StringNumeric : List Char → Numeric → Prop
  | blank {cs : List Char} (h : StrWhiteSpace cs) : StringNumeric cs .zero
  | literal {before cs after : List Char} {x : Numeric} (hbefore : StrWhiteSpace before)
      (h : StrNumeric cs x) (hafter : StrWhiteSpace after) :
      StringNumeric (before ++ cs ++ after) x

/-- `StringToNumber`: a string that is no numeric literal is not a number. -/
inductive StringToNumber : List Char → Numeric → Prop
  | literal {cs : List Char} {x : Numeric} (h : StringNumeric cs x) : StringToNumber cs x
  | nan {cs : List Char} (h : ∀ x, ¬StringNumeric cs x) : StringToNumber cs .nan

/-- Every string has its number. -/
theorem stringToNumber_total (cs : List Char) : ∃ x, StringToNumber cs x := by
  by_cases h : ∃ x, StringNumeric cs x
  · obtain ⟨x, hx⟩ := h
    exact ⟨x, .literal hx⟩
  · exact ⟨.nan, .nan fun x hx => h ⟨x, hx⟩⟩

end NumericLiteral
