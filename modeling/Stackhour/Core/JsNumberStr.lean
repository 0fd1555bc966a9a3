import Mathlib.Data.Nat.Digits.Lemmas
import Stackhour.Core.JsNum
import Stackhour.Core.Text
import Stackhour.Lib.NumericLiteral
import Stackhour.Lib.Utf8

/-!
# Numbers in strings

`parse_js_number_str` sorts a string into the classes of `StringToNumber`. Its scanner of
decimal literals goes over bytes; it accepts a text exactly when its characters are
such a literal.
-/

namespace Stackhour.Core

open NumericLiteral

-- a statement about the characters of a text is decided along the text
attribute [local instance (high)] List.decidableBAll

/-! ## Reading -/

/-- A double as it is computed: a constant, a number that is cast, one step of a fold, or
what `f64::from_str` reads. -/
inductive Double where
  | zero
  | nan
  | infinity (negative : Bool)
  | cast (n : ℕ)
  | mulAdd (f : Double) (radix d : ℕ)
  | parsed (f : F64)

/-- `is_js_whitespace`. -/
def isJsWhitespace (c : Char) : Bool := isJsSpace c

/-- `char::to_digit`. -/
def toDigit (radix : ℕ) (c : Char) : Option ℕ :=
  let n := c.toNat
  let digit :=
    if 48 ≤ n ∧ n ≤ 57 then some (n - 48)
    else if 97 ≤ n ∧ n ≤ 122 then some (n - 97 + 10)
    else if 65 ≤ n ∧ n ≤ 90 then some (n - 65 + 10)
    else none
  digit.filter (· < radix)

/-- The accumulators of `parse_radix_digits`. -/
structure RadixState where
  acc : ℕ
  fAcc : Double
  overflowed : Bool

/-- One digit: exactly in a `u128` while it fits, then in doubles. -/
def radixStep (radix : ℕ) (s : RadixState) (d : ℕ) : RadixState :=
  if s.overflowed then { s with fAcc := .mulAdd s.fAcc radix d }
  else if s.acc * radix < 2 ^ 128 ∧ s.acc * radix + d < 2 ^ 128 then
    { s with acc := s.acc * radix + d }
  else { s with overflowed := true, fAcc := .mulAdd (.cast s.acc) radix d }

def radixLoop (radix : ℕ) : RadixState → List Char → Option RadixState
  | s, [] => some s
  | s, c :: cs =>
      match toDigit radix c with
      | some d => radixLoop radix (radixStep radix s d) cs
      | none => none

/-- `parse_radix_digits`. -/
def parseRadixDigits (digits : List Char) (radix : ℕ) : Double :=
  if digits = [] then .nan
  else
    match radixLoop radix ⟨0, .zero, false⟩ digits with
    | none => .nan
    | some s => if s.overflowed then s.fAcc else .cast s.acc

section

-- the scanner is run on bytes, and compared with itself on characters
variable {α : Type*} (code : α → ℕ)

def isSign (b : α) : Bool := code b == '+'.toNat || code b == '-'.toNat

/-- A loop over digits, with the counter and what is left. -/
def scanDigits : ℕ → List α → ℕ × List α
  | count, [] => (count, [])
  | count, b :: bs =>
      if 48 ≤ code b ∧ code b ≤ 57 then scanDigits (count + 1) bs else (count, b :: bs)

def skipSign : List α → List α
  | [] => []
  | b :: bs => if isSign code b then bs else b :: bs

/-- The digits around at most one point. -/
def scanMantissa (bs : List α) : ℕ × List α :=
  match scanDigits code 0 bs with
  | (count, []) => (count, [])
  | (count, b :: rest) =>
      if code b == '.'.toNat then scanDigits code count rest else (count, b :: rest)

/-- An exponent, or the end. -/
def scanExponent : List α → Bool
  | [] => true
  | b :: bs =>
      if code b == 'e'.toNat || code b == 'E'.toNat then
        let (expDigits, rest) := scanDigits code 0 (skipSign code bs)
        if expDigits = 0 then false else rest.isEmpty
      else false

def scanDecimal (bs : List α) : Bool :=
  let (mantissaDigits, rest) := scanMantissa code (skipSign code bs)
  if mantissaDigits = 0 then false else scanExponent code rest

end

/-- `is_valid_js_decimal`. -/
def isValidJsDecimal (s : List Char) : Bool := scanDecimal UInt8.toNat (Utf8.encode s)

/-- The radix of a prefix. -/
def radixOf : List Char → Option ℕ
  | ['0', 'x'] | ['0', 'X'] => some 16
  | ['0', 'o'] | ['0', 'O'] => some 8
  | ['0', 'b'] | ['0', 'B'] => some 2
  | _ => none

/-- The sign and what is behind it. -/
def splitSign : List Char → Bool × List Char
  | '+' :: rest => (false, rest)
  | '-' :: rest => (true, rest)
  | t => (false, t)

/-- `parse_js_number_str`, of a trimmed text. -/
def parseTrimmed (fromStr : List Char → Option F64) (t : List Char) : Double :=
  if t = [] then .zero
  else if (splitSign t).2 = "Infinity".toList then .infinity (splitSign t).1
  else
    match radixOf (t.take 2) with
    | some radix => parseRadixDigits (t.drop 2) radix
    | none =>
        if isValidJsDecimal t then
          match fromStr t with
          | some f => .parsed f
          | none => .nan
        else .nan

/-- `parse_js_number_str`. -/
def parseJsNumberStr (fromStr : List Char → Option F64) (s : List Char) : Double :=
  parseTrimmed fromStr (trimMatches isJsWhitespace s)

/-! ## Bytes and characters -/

/-- The first byte of a text is its first character, or neither is ASCII. -/
theorem encode_cons (c : Char) (cs : List Char) : ∃ b bs, Utf8.encode (c :: cs) = b :: bs ∧
    (b.toNat = c.toNat ∧ bs = Utf8.encode cs ∨ 128 ≤ b.toNat ∧ 128 ≤ c.toNat) := by
  have hcons : Utf8.encode (c :: cs) = String.utf8EncodeChar c ++ Utf8.encode cs := rfl
  by_cases hc : c.toNat ≤ 0x7F
  · refine ⟨UInt8.ofNat c.toNat, Utf8.encode cs, ?_, .inl ⟨Utf8.toNat_byte (by omega), rfl⟩⟩
    rw [hcons, Utf8.encode_one hc]
    rfl
  · cases hbytes : String.utf8EncodeChar c with
    | nil => exact absurd hbytes (String.utf8EncodeChar_ne_nil)
    | cons b bs =>
        have hhigh : 0x80 ≤ b.toNat := Utf8.high_of_wide hc (hbytes ▸ List.mem_cons_self)
        refine ⟨b, bs ++ Utf8.encode cs, ?_, .inr ⟨hhigh, by omega⟩⟩
        rw [hcons, hbytes]
        rfl

theorem scanDigits_encode (count : ℕ) (cs : List Char) :
    scanDigits UInt8.toNat count (Utf8.encode cs) =
      ((scanDigits Char.toNat count cs).1, Utf8.encode (scanDigits Char.toNat count cs).2) := by
  induction cs generalizing count with
  | nil => rfl
  | cons c cs ih =>
      obtain ⟨b, bs, hbytes, ⟨hb, rfl⟩ | ⟨hb, hc⟩⟩ := encode_cons c cs
      · rw [hbytes, scanDigits, scanDigits, hb]
        split
        · exact ih _
        · rw [← hbytes]
      · rw [hbytes, scanDigits, scanDigits, if_neg (by omega), if_neg (by omega), ← hbytes]

theorem skipSign_encode (cs : List Char) :
    skipSign UInt8.toNat (Utf8.encode cs) = Utf8.encode (skipSign Char.toNat cs) := by
  cases cs with
  | nil => rfl
  | cons c cs =>
      obtain ⟨b, bs, hbytes, ⟨hb, rfl⟩ | ⟨hb, hc⟩⟩ := encode_cons c cs
      · rw [hbytes, skipSign, skipSign, isSign, isSign, hb]
        split
        · rfl
        · rw [← hbytes]
      · have hbyte : isSign UInt8.toNat b = false := by
          simp [isSign]
          omega
        have hchar : isSign Char.toNat c = false := by
          simp [isSign]
          omega
        rw [hbytes, skipSign, skipSign, hbyte, hchar, ← hbytes]
        rfl

theorem scanMantissa_encode (cs : List Char) :
    scanMantissa UInt8.toNat (Utf8.encode cs) =
      ((scanMantissa Char.toNat cs).1, Utf8.encode (scanMantissa Char.toNat cs).2) := by
  unfold scanMantissa
  rw [scanDigits_encode]
  rcases scanDigits Char.toNat 0 cs with ⟨count, _ | ⟨c, rest⟩⟩
  · rfl
  · obtain ⟨b, bs, hbytes, ⟨hb, rfl⟩ | ⟨hb, hc⟩⟩ := encode_cons c rest
    · dsimp only
      rw [hbytes]
      dsimp only
      rw [hb]
      split
      · exact scanDigits_encode count rest
      · rw [← hbytes]
    · have hbyte : (b.toNat == '.'.toNat) = false := by
        simp
        omega
      have hchar : (c.toNat == '.'.toNat) = false := by
        simp
        omega
      dsimp only
      rw [hbytes]
      dsimp only
      rw [hbyte, hchar, ← hbytes]
      rfl

theorem encode_isEmpty (cs : List Char) : (Utf8.encode cs).isEmpty = cs.isEmpty := by
  cases cs with
  | nil => rfl
  | cons c cs =>
      obtain ⟨b, bs, hbytes, -⟩ := encode_cons c cs
      rw [hbytes]
      rfl

theorem scanExponent_encode (cs : List Char) :
    scanExponent UInt8.toNat (Utf8.encode cs) = scanExponent Char.toNat cs := by
  cases cs with
  | nil => rfl
  | cons c cs =>
      obtain ⟨b, bs, hbytes, ⟨hb, rfl⟩ | ⟨hb, hc⟩⟩ := encode_cons c cs
      · rw [hbytes, scanExponent, scanExponent, hb, skipSign_encode, scanDigits_encode]
        simp only [encode_isEmpty]
      · have hbyte : (b.toNat == 'e'.toNat || b.toNat == 'E'.toNat) = false := by
          simp
          omega
        have hchar : (c.toNat == 'e'.toNat || c.toNat == 'E'.toNat) = false := by
          simp
          omega
        rw [hbytes, scanExponent, scanExponent, hbyte, hchar]
        rfl

/-- **Scanning the bytes is scanning the characters.** -/
theorem isValidJsDecimal_eq (s : List Char) : isValidJsDecimal s = scanDecimal Char.toNat s := by
  unfold isValidJsDecimal scanDecimal
  rw [skipSign_encode, scanMantissa_encode]
  simp only [scanExponent_encode]

/-! ## The scanner and the grammar -/

theorem isDigit_iff (c : Char) : c.isDigit = true ↔ 48 ≤ c.toNat ∧ c.toNat ≤ 57 :=
  Char.isDigit_iff_toNat

/-- The loop takes the digits, up to what is none. -/
theorem scanDigits_append {ds rest : List Char} (count : ℕ) (hds : ∀ c ∈ ds, c.isDigit = true)
    (hrest : ∀ c ∈ rest.head?, c.isDigit = false) :
    scanDigits Char.toNat count (ds ++ rest) = (count + ds.length, rest) := by
  induction ds generalizing count with
  | nil =>
      cases rest with
      | nil => rfl
      | cons c rest =>
          have hdigit : ¬(48 ≤ c.toNat ∧ c.toNat ≤ 57) := by
            rw [← isDigit_iff, hrest c rfl]
            exact Bool.false_ne_true
          exact if_neg hdigit
  | cons d ds ih =>
      have hdigit := (isDigit_iff d).mp (hds d List.mem_cons_self)
      rw [List.cons_append, scanDigits, if_pos hdigit,
        ih _ (fun c hc => hds c (List.mem_cons_of_mem _ hc)), List.length_cons]
      congr 1
      omega

/-- A text begins with some digits. -/
theorem exists_digits (cs : List Char) : ∃ ds rest, cs = ds ++ rest ∧
    (∀ c ∈ ds, c.isDigit = true) ∧ ∀ c ∈ rest.head?, c.isDigit = false := by
  refine ⟨cs.takeWhile Char.isDigit, cs.dropWhile Char.isDigit,
    List.takeWhile_append_dropWhile.symm, fun c hc => List.mem_takeWhile_imp hc, fun c hc => ?_⟩
  have hhead := List.head?_dropWhile_not Char.isDigit cs
  rw [hc] at hhead
  exact hhead

theorem isSign_iff (c : Char) : isSign Char.toNat c = true ↔ c = '+' ∨ c = '-' := by
  simp only [isSign, Bool.or_eq_true, beq_iff_eq, Char.toNat_inj]

/-- A text begins with a sign, or none. -/
theorem exists_sign (cs : List Char) : ∃ sign, Sign sign ∧ cs = sign ++ skipSign Char.toNat cs := by
  cases cs with
  | nil => exact ⟨[], .inl rfl, rfl⟩
  | cons c cs =>
      by_cases hc : isSign Char.toNat c = true
      · refine ⟨[c], .inr ?_, ?_⟩
        · exact ((isSign_iff c).mp hc).imp (congrArg (fun c => [c])) (congrArg (fun c => [c]))
        · rw [skipSign, if_pos hc]
          rfl
      · exact ⟨[], .inl rfl, by rw [skipSign, if_neg hc]; rfl⟩

theorem skipSign_append {sign rest : List Char} (hsign : Sign sign)
    (hrest : ∀ c ∈ rest.head?, c ≠ '+' ∧ c ≠ '-') :
    skipSign Char.toNat (sign ++ rest) = rest := by
  rcases hsign with rfl | rfl | rfl
  · cases rest with
    | nil => rfl
    | cons c rest =>
        obtain ⟨hplus, hminus⟩ := hrest c rfl
        refine if_neg fun hc => ?_
        exact ((isSign_iff c).mp hc).elim hplus hminus
  · rfl
  · rfl

/-- Digits begin with no sign and no point. -/
theorem head_of_digits {ds rest : List Char} (hds : DecimalDigits ds) :
    ∀ c ∈ (ds ++ rest).head?, c.isDigit = true := by
  intro c hc
  rw [List.head?_append_of_ne_nil _ hds.1] at hc
  exact hds.2 c (List.mem_of_mem_head? hc)

theorem ne_of_isDigit {c : Char} (hc : c.isDigit = true) : c ≠ '+' ∧ c ≠ '-' ∧ c ≠ '.' := by
  refine ⟨?_, ?_, ?_⟩
  · rintro rfl
    exact absurd hc (by decide)
  · rintro rfl
    exact absurd hc (by decide)
  · rintro rfl
    exact absurd hc (by decide)

theorem head_of_exponent {exponent : List Char} (h : Opt ExponentPart exponent) :
    ∀ c ∈ exponent.head?, c = 'e' ∨ c = 'E' := by
  intro c hc
  rcases h with rfl | ⟨he, -, -⟩
  · cases hc
  · obtain rfl := Option.some.inj hc
    exact he

theorem not_digit_of_exponent {exponent : List Char} (h : Opt ExponentPart exponent) :
    ∀ c ∈ exponent.head?, c.isDigit = false := by
  intro c hc
  rcases head_of_exponent h c hc with rfl | rfl
  · decide
  · decide

theorem scanExponent_iff (cs : List Char) :
    scanExponent Char.toNat cs = true ↔ Opt ExponentPart cs := by
  have hletter : ∀ c : Char, (c.toNat == 'e'.toNat || c.toNat == 'E'.toNat) = true ↔
      c = 'e' ∨ c = 'E' := by
    intro c
    simp only [Bool.or_eq_true, beq_iff_eq, Char.toNat_inj]
  constructor
  · intro h
    cases cs with
    | nil => exact .inl rfl
    | cons c cs =>
        rw [scanExponent] at h
        split at h
        · next hc =>
            obtain ⟨sign, hsign, hcs⟩ := exists_sign cs
            obtain ⟨ds, rest, hrest, hds, hnext⟩ := exists_digits (skipSign Char.toNat cs)
            rw [hrest, scanDigits_append 0 hds hnext] at h
            dsimp only at h
            split at h
            · cases h
            · next hcount =>
                obtain rfl := List.isEmpty_iff.mp h
                rw [List.append_nil] at hrest
                rw [hcs, hrest]
                refine .inr (.mk ((hletter c).mp hc) hsign ⟨?_, hds⟩)
                rintro rfl
                exact hcount rfl
        · cases h
  · rintro (rfl | ⟨he, hsign, hdigits⟩)
    · rfl
    · next e sign digits =>
        have hskip : skipSign Char.toNat (sign ++ digits) = digits := by
          refine skipSign_append hsign fun c hc => ?_
          obtain ⟨hplus, hminus, -⟩ := ne_of_isDigit (hdigits.2 c (List.mem_of_mem_head? hc))
          exact ⟨hplus, hminus⟩
        have hscan := @scanDigits_append digits [] 0 hdigits.2 (by simp)
        rw [List.append_nil] at hscan
        have hcount : ¬0 + digits.length = 0 := by
          rw [Nat.zero_add, List.length_eq_zero_iff]
          exact hdigits.1
        rw [scanExponent, if_pos ((hletter e).mpr he), hskip, hscan]
        exact if_neg hcount

theorem scanMantissa_point {whole fraction rest : List Char}
    (hwhole : ∀ c ∈ whole, c.isDigit = true) (hfraction : ∀ c ∈ fraction, c.isDigit = true)
    (hrest : ∀ c ∈ rest.head?, c.isDigit = false) :
    scanMantissa Char.toNat (whole ++ '.' :: (fraction ++ rest)) =
      (whole.length + fraction.length, rest) := by
  have hpoint : ∀ c ∈ ('.' :: (fraction ++ rest)).head?, c.isDigit = false := by
    rintro c ⟨⟩
    decide
  unfold scanMantissa
  rw [scanDigits_append 0 hwhole hpoint, Nat.zero_add]
  exact scanDigits_append whole.length hfraction hrest

theorem scanMantissa_whole {whole rest : List Char} (hwhole : ∀ c ∈ whole, c.isDigit = true)
    (hrest : ∀ c ∈ rest.head?, c.isDigit = false ∧ c ≠ '.') :
    scanMantissa Char.toNat (whole ++ rest) = (whole.length, rest) := by
  unfold scanMantissa
  rw [scanDigits_append 0 hwhole fun c hc => (hrest c hc).1, Nat.zero_add]
  cases rest with
  | nil => rfl
  | cons c rest =>
      have hne : ¬(c.toNat == '.'.toNat) = true := by
        rw [beq_iff_eq, Char.toNat_inj]
        exact (hrest c rfl).2
      exact if_neg hne

/-- A number has digits in front of its point or behind it. -/
theorem scanDecimal_unsigned {cs : List Char} (h : UnsignedDecimal cs) :
    (∀ c ∈ cs.head?, c ≠ '+' ∧ c ≠ '-') ∧ ∃ n exponent,
      scanMantissa Char.toNat cs = (n, exponent) ∧ n ≠ 0 ∧ Opt ExponentPart exponent := by
  have hdigit : ∀ {ds rest : List Char}, DecimalDigits ds →
      ∀ c ∈ (ds ++ rest).head?, c ≠ '+' ∧ c ≠ '-' := by
    intro ds rest hds c hc
    obtain ⟨hplus, hminus, -⟩ := ne_of_isDigit (head_of_digits hds c hc)
    exact ⟨hplus, hminus⟩
  have hpoint : ∀ {rest : List Char}, ∀ c ∈ ('.' :: rest).head?, c ≠ '+' ∧ c ≠ '-' := by
    rintro rest c ⟨⟩
    decide
  have hlength : ∀ {ds : List Char}, DecimalDigits ds → ds.length ≠ 0 := by
    intro ds hds
    rw [Ne, List.length_eq_zero_iff]
    exact hds.1
  cases h with
  | @wholePoint whole fraction exponent hwhole hfraction hexponent =>
      have hall : ∀ c ∈ fraction, c.isDigit = true := by
        rcases hfraction with rfl | hfraction
        · simp
        · exact hfraction.2
      have hcount := hlength hwhole
      exact ⟨hdigit hwhole, _, exponent,
        scanMantissa_point hwhole.2 hall (not_digit_of_exponent hexponent), by omega, hexponent⟩
  | @point fraction exponent hfraction hexponent =>
      have hscan := @scanMantissa_point [] fraction exponent (by simp) hfraction.2
        (not_digit_of_exponent hexponent)
      have hcount := hlength hfraction
      exact ⟨hpoint, _, exponent, hscan, by simpa using hcount, hexponent⟩
  | @whole whole exponent hwhole hexponent =>
      have hnext : ∀ c ∈ exponent.head?, c.isDigit = false ∧ c ≠ '.' := by
        intro c hc
        refine ⟨not_digit_of_exponent hexponent c hc, ?_⟩
        rcases head_of_exponent hexponent c hc with rfl | rfl
        · decide
        · decide
      exact ⟨hdigit hwhole, _, exponent, scanMantissa_whole hwhole.2 hnext, hlength hwhole,
        hexponent⟩

/-- What the scanner takes for a mantissa with an exponent behind it. -/
theorem unsigned_of_scan {cs : List Char} (hcount : (scanMantissa Char.toNat cs).1 ≠ 0)
    (hexponent : Opt ExponentPart (scanMantissa Char.toNat cs).2) : UnsignedDecimal cs := by
  obtain ⟨whole, rest, rfl, hwhole, hnext⟩ := exists_digits cs
  by_cases hpoint : rest.head? = some '.'
  · obtain ⟨behind, rfl⟩ : ∃ behind, rest = '.' :: behind := List.head?_eq_some_iff.mp hpoint
    obtain ⟨fraction, exponent, rfl, hfraction, hlast⟩ := exists_digits behind
    rw [scanMantissa_point hwhole hfraction hlast] at hcount hexponent
    by_cases hempty : whole = []
    · subst hempty
      refine .point ⟨?_, hfraction⟩ hexponent
      rintro rfl
      exact hcount rfl
    · by_cases hnone : fraction = []
      · exact .wholePoint ⟨hempty, hwhole⟩ (.inl hnone) hexponent
      · exact .wholePoint ⟨hempty, hwhole⟩ (.inr ⟨hnone, hfraction⟩) hexponent
  · have hother : ∀ c ∈ rest.head?, c.isDigit = false ∧ c ≠ '.' :=
      fun c hc => ⟨hnext c hc, fun heq => hpoint (heq ▸ hc)⟩
    rw [scanMantissa_whole hwhole hother] at hcount hexponent
    refine .whole ⟨?_, hwhole⟩ hexponent
    rintro rfl
    exact hcount rfl

/-- **The scanner accepts the decimal literals.** -/
theorem isValidJsDecimal_iff (s : List Char) : isValidJsDecimal s = true ↔ StrDecimal s := by
  rw [isValidJsDecimal_eq]
  unfold scanDecimal
  constructor
  · intro h
    obtain ⟨sign, hsign, hs⟩ := exists_sign s
    dsimp only at h
    split at h
    · cases h
    · next hcount =>
        have hunsigned := unsigned_of_scan hcount ((scanExponent_iff _).mp h)
        rw [hs]
        exact .mk hsign hunsigned
  · rintro ⟨hsign, hunsigned⟩
    obtain ⟨hhead, n, exponent, hscan, hcount, hexponent⟩ := scanDecimal_unsigned hunsigned
    rw [skipSign_append hsign hhead, hscan]
    exact (if_neg hcount).trans ((scanExponent_iff exponent).mpr hexponent)

/-! ## Integers with a radix -/

/-- The value of digits, from the first one on. -/
def digitsValue (radix : ℕ) : ℕ → List ℕ → ℕ := List.foldl fun n d => n * radix + d

theorem digitsValue_eq (radix : ℕ) (values : List ℕ) :
    digitsValue radix 0 values = Nat.ofDigits radix values.reverse := by
  induction values using List.reverseRecOn with
  | nil => rfl
  | append_singleton values d ih =>
      rw [List.reverse_append, List.reverse_singleton, List.singleton_append, Nat.ofDigits_cons,
        ← ih]
      unfold digitsValue
      rw [List.foldl_append]
      show List.foldl _ 0 values * radix + d = _
      rw [Nat.mul_comm, Nat.add_comm]

theorem le_digitsValue {radix : ℕ} (hradix : 1 ≤ radix) (n : ℕ) (values : List ℕ) :
    n ≤ digitsValue radix n values := by
  induction values generalizing n with
  | nil => exact le_rfl
  | cons d values ih =>
      have hstep : n * 1 ≤ n * radix := Nat.mul_le_mul_left n hradix
      have hrest : n * radix + d ≤ digitsValue radix n (d :: values) := ih (n * radix + d)
      omega

/-- A literal of more than 128 bits is folded in doubles. -/
def Double.Folded : Double → Prop
  | .mulAdd _ _ _ => True
  | _ => False

/-- Once it has overflowed, the loop goes on in doubles. -/
theorem foldl_overflowed {radix : ℕ} (values : List ℕ) {s : RadixState} (h : s.overflowed = true)
    (hfolded : s.fAcc.Folded) : (values.foldl (radixStep radix) s).overflowed = true ∧
      (values.foldl (radixStep radix) s).fAcc.Folded := by
  induction values generalizing s with
  | nil => exact ⟨h, hfolded⟩
  | cons d values ih =>
      have hstep : radixStep radix s d = { s with fAcc := .mulAdd s.fAcc radix d } := if_pos h
      rw [List.foldl_cons, hstep]
      exact ih h trivial

/-- **The accumulator is exact below `2 ^ 128`**, and at that bound it overflows. -/
theorem foldl_exact {radix : ℕ} (hradix : 1 ≤ radix) (values : List ℕ) {s : RadixState}
    (h : s.overflowed = false) :
    (digitsValue radix s.acc values < 2 ^ 128 → values.foldl (radixStep radix) s =
      { s with acc := digitsValue radix s.acc values }) ∧
    (s.acc < 2 ^ 128 → ¬digitsValue radix s.acc values < 2 ^ 128 →
      (values.foldl (radixStep radix) s).overflowed = true ∧
        (values.foldl (radixStep radix) s).fAcc.Folded) := by
  induction values generalizing s with
  | nil => exact ⟨fun _ => rfl, fun hacc hvalue => absurd hacc hvalue⟩
  | cons d values ih =>
      have hvalue : digitsValue radix s.acc (d :: values) =
          digitsValue radix (s.acc * radix + d) values := rfl
      have hle := le_digitsValue hradix (s.acc * radix + d) values
      have hexact : s.acc * radix + d < 2 ^ 128 →
          radixStep radix s d = { s with acc := s.acc * radix + d } := by
        intro hfits
        unfold radixStep
        rw [h, if_neg Bool.false_ne_true, if_pos ⟨by omega, hfits⟩]
      have hover : ¬s.acc * radix + d < 2 ^ 128 → radixStep radix s d =
          { s with overflowed := true, fAcc := .mulAdd (.cast s.acc) radix d } := by
        intro hlarge
        unfold radixStep
        rw [h, if_neg Bool.false_ne_true, if_neg fun hfits => hlarge hfits.2]
      have hnext := @ih { s with acc := s.acc * radix + d } h
      rw [hvalue, List.foldl_cons]
      constructor
      · intro hsmall
        rw [hexact (by omega)]
        exact hnext.1 hsmall
      · intro _ hlarge
        by_cases hfits : s.acc * radix + d < 2 ^ 128
        · rw [hexact hfits]
          exact hnext.2 hfits hlarge
        · rw [hover hfits]
          exact foldl_overflowed values rfl trivial

/-- The loop ends early at a character that is no digit. -/
theorem radixLoop_iff {radix : ℕ} (cs : List Char) (s s' : RadixState) :
    radixLoop radix s cs = some s' ↔
      ∃ values, List.Forall₂ (fun c d => toDigit radix c = some d) cs values ∧
        s' = values.foldl (radixStep radix) s := by
  induction cs generalizing s with
  | nil =>
      constructor
      · intro h
        exact ⟨[], .nil, (Option.some.inj h).symm⟩
      · rintro ⟨values, hvalues, rfl⟩
        cases hvalues
        rfl
  | cons c cs ih =>
      rw [radixLoop]
      constructor
      · intro h
        split at h
        · next d hd =>
            obtain ⟨values, hvalues, rfl⟩ := (ih _).mp h
            exact ⟨d :: values, .cons hd hvalues, rfl⟩
        · cases h
      · rintro ⟨values, hvalues, rfl⟩
        cases hvalues with
        | @cons _ d _ values hd hvalues =>
            rw [hd]
            exact (ih _).mpr ⟨values, hvalues, rfl⟩

/-! ## Digits and white space -/

/-- `to_digit` without the bound by the radix. -/
theorem toDigit_eq_some {radix : ℕ} (hradix : radix ≤ 16) (c : Char) (d : ℕ) :
    toDigit radix c = some d ↔ DigitValue radix c d := by
  have hplace : ∀ c : Char, toDigit 16 c = hexDigits.idxOf? c.toLower := by
    refine ascii_cases (by decide) fun c hc => ?_
    have hnone : toDigit 16 c = none := by
      simp only [toDigit]
      rw [if_neg (by omega), if_neg (by omega), if_neg (by omega)]
      rfl
    have hother : c ∉ hexDigits := by
      have hascii : ∀ d ∈ hexDigits, d.toNat < 128 := by decide
      exact fun hmem => absurd (hascii c hmem) (by omega)
    rw [hnone, toLower_of_not_ascii hc, eq_comm, List.idxOf?_eq_none_iff]
    exact hother
  have hfilter : toDigit radix c = (toDigit 16 c).filter (· < radix) := by
    simp only [toDigit, Option.filter_filter]
    congr 1
    funext n
    rw [← Bool.decide_and, decide_eq_decide]
    omega
  rw [hfilter, hplace, Option.filter_eq_some_iff]
  simp [DigitValue]

theorem isJsWhitespace_iff (c : Char) : isJsWhitespace c = true ↔ c.toNat ∈ whiteSpace := by
  have hmark : c = '\uFEFF' ↔ c.toNat = 0xFEFF := by
    rw [← Char.toNat_inj]
    rfl
  have hnel : c = '\u0085' ↔ c.toNat = 0x85 := by
    rw [← Char.toNat_inj]
    rfl
  simp only [isJsWhitespace, isJsSpace, Hub.isWhitespace, Bool.or_eq_true, Bool.and_eq_true,
    beq_iff_eq, bne_iff_ne, decide_eq_true_eq, hmark, hnel, Ne, whiteSpace, List.mem_append,
    List.mem_cons, List.not_mem_nil, or_false, List.mem_range'_1]
  omega

/-! ## The classes -/

/-- The double that a class is computed as: an integer below `2 ^ 128` is cast as it is. -/
def Gives (fromStr : List Char → Option F64) : Numeric → Double → Prop
  | .zero, x => x = .zero
  | .infinity negative, x => x = .infinity negative
  | .integer n, x => if n < 2 ^ 128 then x = .cast n else x.Folded
  | .decimal literal, x => ∃ f, fromStr literal = some f ∧ x = .parsed f
  | .nan, x => x = .nan

/-- The numbers in the documentation of `f64::from_str`. -/
inductive FloatMantissa : List Char → Prop
  | whole {digits : List Char} (h : DecimalDigits digits) : FloatMantissa digits
  | wholePoint {whole fraction : List Char} (hwhole : DecimalDigits whole)
      (hfraction : Opt DecimalDigits fraction) : FloatMantissa (whole ++ '.' :: fraction)
  | pointFraction {whole fraction : List Char} (hwhole : Opt DecimalDigits whole)
      (hfraction : DecimalDigits fraction) : FloatMantissa (whole ++ '.' :: fraction)

inductive FloatNumber : List Char → Prop
  | mk {sign mantissa exponent : List Char} (hsign : Sign sign) (hmantissa : FloatMantissa mantissa)
      (hexponent : Opt ExponentPart exponent) : FloatNumber (sign ++ (mantissa ++ exponent))

variable {fromStr : List Char → Option F64}

theorem floatNumber_of_decimal {cs : List Char} (h : StrDecimal cs) : FloatNumber cs := by
  obtain ⟨hsign, hunsigned⟩ := h
  cases hunsigned with
  | wholePoint hwhole hfraction hexponent =>
      have hnumber := FloatNumber.mk hsign (.wholePoint hwhole hfraction) hexponent
      simpa using hnumber
  | point hfraction hexponent =>
      exact .mk hsign (.pointFraction (.inl rfl) hfraction) hexponent
  | whole hwhole hexponent => exact .mk hsign (.whole hwhole) hexponent

/-- Digits of a radix give their value, and nothing else gives a number. -/
theorem parseRadixDigits_gives {radix : ℕ} (hradix : 1 ≤ radix ∧ radix ≤ 16) {digits : List Char}
    {values : List ℕ} (hne : digits ≠ []) (h : List.Forall₂ (DigitValue radix) digits values) :
    Gives fromStr (.integer (Nat.ofDigits radix values.reverse)) (parseRadixDigits digits radix) := by
  have hdigits : List.Forall₂ (fun c d => toDigit radix c = some d) digits values :=
    h.imp fun c d hd => (toDigit_eq_some hradix.2 c d).mpr hd
  have hloop := (radixLoop_iff digits ⟨0, .zero, false⟩ _).mpr ⟨values, hdigits, rfl⟩
  obtain ⟨hexact, hover⟩ := @foldl_exact radix hradix.1 values ⟨0, .zero, false⟩ rfl
  have hparse : parseRadixDigits digits radix =
      if (values.foldl (radixStep radix) ⟨0, .zero, false⟩).overflowed then
        (values.foldl (radixStep radix) ⟨0, .zero, false⟩).fAcc
      else .cast (values.foldl (radixStep radix) ⟨0, .zero, false⟩).acc := by
    unfold parseRadixDigits
    rw [if_neg hne, hloop]
  rw [← digitsValue_eq, hparse]
  show if digitsValue radix 0 values < 2 ^ 128 then _ = Double.cast (digitsValue radix 0 values)
    else Double.Folded _
  split
  · next hsmall =>
      rw [hexact hsmall]
      rfl
  · next hlarge =>
      obtain ⟨hoverflowed, hfolded⟩ := hover (by norm_num) hlarge
      rwa [if_pos hoverflowed]

theorem parseRadixDigits_nan {radix : ℕ} (hradix : radix ≤ 16) {digits : List Char}
    (h : parseRadixDigits digits radix ≠ .nan) :
    digits ≠ [] ∧ ∃ values, List.Forall₂ (DigitValue radix) digits values := by
  unfold parseRadixDigits at h
  split at h
  · exact absurd rfl h
  · next hne =>
      refine ⟨hne, ?_⟩
      split at h
      · exact absurd rfl h
      · next s hloop =>
          obtain ⟨values, hvalues, -⟩ := (radixLoop_iff digits _ s).mp hloop
          exact ⟨values, hvalues.imp fun c d hd => (toDigit_eq_some hradix c d).mp hd⟩

theorem radixOf_iff (t : List Char) (radix : ℕ) : radixOf (t.take 2) = some radix ↔
    ∃ letter, (letter, radix) ∈ radixLetters ∧ t = '0' :: letter :: t.drop 2 := by
  constructor
  · intro h
    unfold radixOf at h
    have hletter : ∀ letter, t.take 2 = ['0', letter] → t = '0' :: letter :: t.drop 2 := by
      intro letter htake
      conv_lhs => rw [← List.take_append_drop 2 t, htake]
      rfl
    split at h
    · next htake => exact ⟨'x', by cases h; decide, hletter 'x' htake⟩
    · next htake => exact ⟨'X', by cases h; decide, hletter 'X' htake⟩
    · next htake => exact ⟨'o', by cases h; decide, hletter 'o' htake⟩
    · next htake => exact ⟨'O', by cases h; decide, hletter 'O' htake⟩
    · next htake => exact ⟨'b', by cases h; decide, hletter 'b' htake⟩
    · next htake => exact ⟨'B', by cases h; decide, hletter 'B' htake⟩
    · cases h
  · rintro ⟨letter, hletter, ht⟩
    rw [ht]
    simp only [radixLetters, List.mem_cons, Prod.mk.injEq, List.not_mem_nil, or_false] at hletter
    rcases hletter with ⟨rfl, rfl⟩ | ⟨rfl, rfl⟩ | ⟨rfl, rfl⟩ | ⟨rfl, rfl⟩ | ⟨rfl, rfl⟩ | ⟨rfl, rfl⟩
    all_goals rfl

/-! ## Trimmed texts -/

/-- Literals have visible characters only. -/
theorem not_white_of_visible {c : Char} (h : 33 ≤ c.toNat ∧ c.toNat ≤ 126) :
    isJsWhitespace c = false := by
  rw [Bool.eq_false_iff, Ne, isJsWhitespace_iff]
  simp only [whiteSpace, List.mem_append, List.mem_cons, List.not_mem_nil, or_false,
    List.mem_range'_1]
  omega

/-- The characters of decimal literals. -/
def decimalChars : List Char :=
  ['0', '1', '2', '3', '4', '5', '6', '7', '8', '9', '+', '-', '.', 'e', 'E']

theorem mem_decimalChars : ∀ c : Char, c.isDigit = true → c ∈ decimalChars := by
  refine ascii_cases (by decide) fun c hc => ?_
  intro h
  have hdigit := (isDigit_iff c).mp h
  omega

theorem digits_chars {cs : List Char} (h : Opt DecimalDigits cs) : ∀ c ∈ cs, c ∈ decimalChars := by
  rcases h with rfl | h
  · simp
  · exact fun c hc => mem_decimalChars c (h.2 c hc)

theorem sign_chars {sign : List Char} (h : Sign sign) : ∀ c ∈ sign, c ∈ decimalChars := by
  rcases h with rfl | rfl | rfl
  · simp
  · decide
  · decide

theorem exponent_chars {exponent : List Char} (h : Opt ExponentPart exponent) :
    ∀ c ∈ exponent, c ∈ decimalChars := by
  rcases h with rfl | ⟨he, hsign, hdigits⟩
  · simp
  · have hletter : ∀ e, e = 'e' ∨ e = 'E' → e ∈ decimalChars := by
      rintro e (rfl | rfl)
      · decide
      · decide
    simp only [List.forall_mem_cons, List.forall_mem_append]
    exact ⟨hletter _ he, sign_chars hsign, digits_chars (.inr hdigits)⟩

theorem decimal_chars {cs : List Char} (h : StrDecimal cs) : ∀ c ∈ cs, c ∈ decimalChars := by
  obtain ⟨hsign, hunsigned⟩ := h
  have hpoint : '.' ∈ decimalChars := by decide
  rw [List.forall_mem_append]
  refine ⟨sign_chars hsign, ?_⟩
  cases hunsigned with
  | wholePoint hwhole hfraction hexponent =>
      simp only [List.forall_mem_cons, List.forall_mem_append]
      exact ⟨digits_chars (.inr hwhole), hpoint, digits_chars hfraction, exponent_chars hexponent⟩
  | point hfraction hexponent =>
      simp only [List.forall_mem_cons, List.forall_mem_append]
      exact ⟨hpoint, digits_chars (.inr hfraction), exponent_chars hexponent⟩
  | whole hwhole hexponent =>
      simp only [List.forall_mem_append]
      exact ⟨digits_chars (.inr hwhole), exponent_chars hexponent⟩

theorem decimal_ne_nil {cs : List Char} (h : StrDecimal cs) : cs ≠ [] := by
  obtain ⟨hsign, hunsigned⟩ := h
  refine List.append_ne_nil_of_right_ne_nil _ ?_
  cases hunsigned with
  | wholePoint hwhole _ _ => exact List.append_ne_nil_of_left_ne_nil hwhole.1 _
  | point _ _ => exact List.cons_ne_nil _ _
  | whole hwhole _ => exact List.append_ne_nil_of_left_ne_nil hwhole.1 _

theorem visible_of_digitValue {radix d : ℕ} {c : Char} (h : DigitValue radix c d) :
    33 ≤ c.toNat ∧ c.toNat ≤ 126 := by
  have hdigit : toDigit 16 c ≠ none := by
    have hplace := (toDigit_eq_some le_rfl c d).mpr ⟨h.1, ?_⟩
    · rw [hplace]
      exact Option.some_ne_none d
    · exact (List.idxOf?_eq_some_iff.mp h.1).1
  simp only [toDigit] at hdigit
  split at hdigit
  · omega
  · split at hdigit
    · omega
    · split at hdigit
      · omega
      · exact absurd rfl hdigit

theorem digits_visible {radix : ℕ} {cs : List Char} {values : List ℕ}
    (h : List.Forall₂ (DigitValue radix) cs values) : ∀ c ∈ cs, isJsWhitespace c = false := by
  induction h with
  | nil => simp
  | cons hd _ ih =>
      rw [List.forall_mem_cons]
      exact ⟨not_white_of_visible (visible_of_digitValue hd), ih⟩

/-- A literal is not empty, and nothing of it is trimmed. -/
theorem literal_visible {t : List Char} {x : Numeric} (h : StrNumeric t x) :
    t ≠ [] ∧ ∀ c ∈ t, isJsWhitespace c = false := by
  have hdecimal : ∀ c ∈ decimalChars, isJsWhitespace c = false := by decide
  cases h with
  | infinity hsign =>
      have hname : ∀ c ∈ "Infinity".toList, isJsWhitespace c = false := by decide
      refine ⟨List.append_ne_nil_of_right_ne_nil _ (by decide), ?_⟩
      rw [List.forall_mem_append]
      exact ⟨fun c hc => hdecimal c (sign_chars hsign c hc), hname⟩
  | integer h =>
      obtain ⟨hletter, hdigits, hne⟩ := h
      have hletters : ∀ p ∈ radixLetters, isJsWhitespace p.1 = false := by decide
      refine ⟨List.cons_ne_nil _ _, ?_⟩
      simp only [List.forall_mem_cons]
      exact ⟨by decide, hletters _ hletter, digits_visible hdigits⟩
  | decimal h => exact ⟨decimal_ne_nil h, fun c hc => hdecimal c (decimal_chars h c hc)⟩

theorem exists_splitSign (t : List Char) : ∃ sign, Sign sign ∧ t = sign ++ (splitSign t).2 ∧
    (splitSign t).1 = (sign == ['-']) := by
  unfold splitSign
  split
  · exact ⟨['+'], .inr (.inl rfl), rfl, rfl⟩
  · exact ⟨['-'], .inr (.inr rfl), rfl, rfl⟩
  · exact ⟨[], .inl rfl, rfl, rfl⟩

/-- A trimmed literal is computed as its class says. -/
theorem parseTrimmed_gives (hfrom : ∀ cs, FloatNumber cs → (fromStr cs).isSome) {t : List Char}
    {x : Numeric} (h : StrNumeric t x) : Gives fromStr x (parseTrimmed fromStr t) := by
  cases h with
  | infinity hsign =>
      rcases hsign with rfl | rfl | rfl
      · rfl
      · rfl
      · rfl
  | integer h =>
      obtain ⟨hletter, hdigits, hne⟩ := h
      next letter radix digits values =>
        have hradix := (radixOf_iff ('0' :: letter :: digits) radix).mpr ⟨letter, hletter, rfl⟩
        have hbound : ∀ p ∈ radixLetters, 1 ≤ p.2 ∧ p.2 ≤ 16 := by decide
        have hname : (splitSign ('0' :: letter :: digits)).2 ≠ "Infinity".toList := by
          intro heq
          have hhead : some '0' = some 'I' := congrArg List.head? heq
          exact absurd hhead (by decide)
        unfold parseTrimmed
        rw [if_neg (List.cons_ne_nil _ _), if_neg hname, hradix]
        exact parseRadixDigits_gives (hbound _ hletter) hne hdigits
  | decimal h =>
      have hchars := decimal_chars h
      have hname : (splitSign t).2 ≠ "Infinity".toList := by
        intro heq
        obtain ⟨sign, -, ht, -⟩ := exists_splitSign t
        have hmem : 'I' ∈ t := by
          rw [ht, heq]
          exact List.mem_append_right _ (by decide)
        exact absurd (hchars 'I' hmem) (by decide)
      have hradix : radixOf (t.take 2) = none := by
        rw [Option.eq_none_iff_forall_not_mem]
        intro radix hradix
        obtain ⟨letter, hletter, ht⟩ := (radixOf_iff t radix).mp hradix
        have hother : ∀ p ∈ radixLetters, p.1 ∉ decimalChars := by decide
        refine hother _ hletter (hchars letter ?_)
        rw [ht]
        simp
      obtain ⟨f, hf⟩ := Option.isSome_iff_exists.mp (hfrom t (floatNumber_of_decimal h))
      refine ⟨f, hf, ?_⟩
      unfold parseTrimmed
      rw [if_neg (decimal_ne_nil h), if_neg hname, hradix, if_pos ((isValidJsDecimal_iff t).mpr h),
        hf]

/-- What is no literal is not a number. -/
theorem parseTrimmed_nan {t : List Char} (h : parseTrimmed fromStr t ≠ .nan) :
    t = [] ∨ ∃ x, StrNumeric t x := by
  by_cases ht : t = []
  · exact .inl ht
  refine .inr ?_
  unfold parseTrimmed at h
  rw [if_neg ht] at h
  split at h
  · next hname =>
      obtain ⟨sign, hsign, hsplit, -⟩ := exists_splitSign t
      rw [hsplit, hname]
      exact ⟨_, .infinity hsign⟩
  · split at h
    · next radix hradix =>
        obtain ⟨letter, hletter, hsplit⟩ := (radixOf_iff t radix).mp hradix
        have hbound : ∀ p ∈ radixLetters, p.2 ≤ 16 := by decide
        obtain ⟨hne, values, hvalues⟩ := parseRadixDigits_nan (hbound _ hletter) h
        rw [hsplit]
        exact ⟨_, .integer (.mk hletter hvalues hne)⟩
    · split at h
      · next hvalid => exact ⟨_, .decimal ((isValidJsDecimal_iff t).mp hvalid)⟩
      · exact absurd rfl h

/-- White space alone is trimmed to nothing. -/
theorem trim_blank {cs : List Char} (h : StrWhiteSpace cs) : trimMatches isJsWhitespace cs = [] := by
  have hall : cs.dropWhile isJsWhitespace = [] :=
    List.dropWhile_eq_nil_iff.mpr fun c hc => (isJsWhitespace_iff c).mpr (h c hc)
  unfold trimMatches
  rw [hall]
  rfl

/-- A text is a numeric string as its trimmed part is. -/
theorem stringNumeric_of_trimmed {cs : List Char}
    (h : trimMatches isJsWhitespace cs = [] ∨
      ∃ x, StrNumeric (trimMatches isJsWhitespace cs) x) : ∃ x, StringNumeric cs x := by
  obtain ⟨a, b, hcs, ha, hb⟩ := exists_trimMatches isJsWhitespace cs
  have hbefore : StrWhiteSpace a := fun c hc => (isJsWhitespace_iff c).mp (ha c hc)
  have hafter : StrWhiteSpace b := fun c hc => (isJsWhitespace_iff c).mp (hb c hc)
  rcases h with hnil | ⟨x, hx⟩
  · refine ⟨.zero, .blank ?_⟩
    rw [hcs, hnil, List.append_nil]
    exact List.forall_mem_append.mpr ⟨hbefore, hafter⟩
  · rw [hcs]
    exact ⟨x, .literal hbefore hx hafter⟩

/-- **A string is sorted into the class of its number.** -/
theorem parseJsNumberStr_gives (hfrom : ∀ cs, FloatNumber cs → (fromStr cs).isSome) {s : List Char}
    {x : Numeric} (h : StringToNumber s x) : Gives fromStr x (parseJsNumberStr fromStr s) := by
  unfold parseJsNumberStr
  cases h with
  | literal h =>
      cases h with
      | blank h =>
          rw [trim_blank h]
          rfl
      | literal hbefore h hafter =>
          obtain ⟨hne, hvisible⟩ := literal_visible h
          rw [trimMatches_between (fun c hc => (isJsWhitespace_iff c).mpr (hbefore c hc))
            (fun c hc => (isJsWhitespace_iff c).mpr (hafter c hc))
            (fun c hc => hvisible c (List.mem_of_mem_head? hc))
            (fun c hc => hvisible c (List.mem_of_mem_getLast? hc)) hne]
          exact parseTrimmed_gives hfrom h
  | nan h =>
      by_contra hnumber
      obtain ⟨x, hx⟩ := stringNumeric_of_trimmed (parseTrimmed_nan hnumber)
      exact h x hx

/-- **The number grammar of JavaScript**: the scanner accepts the decimal literals, and
every string has its number, which is what it is parsed as. -/
theorem js_number_grammar (hfrom : ∀ cs, FloatNumber cs → (fromStr cs).isSome) (s : List Char) :
    (isValidJsDecimal s = true ↔ StrDecimal s) ∧
    (∃ x, StringToNumber s x) ∧
    ∀ x, StringToNumber s x → Gives fromStr x (parseJsNumberStr fromStr s) :=
  ⟨isValidJsDecimal_iff s, stringToNumber_total s, fun _ h => parseJsNumberStr_gives hfrom h⟩

/-- The number one. -/
theorem js_number_grammar_one :
    (isValidJsDecimal ['1'] = true ↔ StrDecimal ['1']) ∧
    (∃ x, StringToNumber ['1'] x) ∧
    ∀ x, StringToNumber ['1'] x →
      Gives (fun _ => some F64.one) x (parseJsNumberStr (fun _ => some F64.one) ['1']) :=
  js_number_grammar (fun _ _ => rfl) ['1']

/-! ## The coercion of strings -/

/-- The bits of a double that is computed so; a step of a fold is a parameter. -/
def Double.toF64 (fl : Floats) (mulAdd : F64 → ℕ → ℕ → F64) : Double → F64
  | .zero => F64.zero
  | .nan => F64.nan
  | .infinity negative => if negative then 0xFFF0000000000000 else 0x7FF0000000000000
  | .cast n => fl.ofInt n
  | .mulAdd f radix d => mulAdd (f.toF64 fl mulAdd) radix d
  | .parsed f => f

/-- The coercions with this reading of strings. -/
def Floats.reading (fl : Floats) (mulAdd : F64 → ℕ → ℕ → F64)
    (fromStr : List Char → Option F64) : Floats :=
  { fl with parse := fun s => (parseJsNumberStr fromStr s.toList).toF64 fl mulAdd }

/-- A string in JSON becomes the double of its class. -/
theorem jsNumber_string (fl : Floats) (mulAdd : F64 → ℕ → ℕ → F64)
    (hfrom : ∀ cs, FloatNumber cs → (fromStr cs).isSome) {s : String} {x : Numeric}
    (h : StringToNumber s.toList x) : ∃ f, Gives fromStr x f ∧
      jsNumber (fl.reading mulAdd fromStr) (.string s) = f.toF64 fl mulAdd :=
  ⟨_, parseJsNumberStr_gives hfrom h, rfl⟩

end Stackhour.Core
