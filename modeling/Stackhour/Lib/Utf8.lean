import Mathlib.Data.List.Basic

/-!
# UTF-8

A machine that reads bytes one at a time. The strict reading refuses what is not
UTF-8; the lossy one puts U+FFFD for every maximal ill-formed part. The newline
byte belongs to no longer character, so the lossy reading of a text is that of
its lines.
-/

namespace Utf8

/-- Between characters, or inside one: the bytes still owed, the range of the
next one, and the value read so far. -/
inductive State where
  | start
  | inside (owed lo hi value : ℕ)
deriving DecidableEq

/-- A first byte: the character it is, or what it begins. -/
def first (n : ℕ) : Option (Option Char × State) :=
  if n ≤ 0x7F then some (some (Char.ofNat n), .start)
  else if 0xC2 ≤ n ∧ n ≤ 0xDF then some (none, .inside 1 0x80 0xBF (n - 0xC0))
  -- no overlong forms, no surrogates, nothing above U+10FFFF
  else if n = 0xE0 then some (none, .inside 2 0xA0 0xBF 0)
  else if n = 0xED then some (none, .inside 2 0x80 0x9F 0xD)
  else if 0xE1 ≤ n ∧ n ≤ 0xEF then some (none, .inside 2 0x80 0xBF (n - 0xE0))
  else if n = 0xF0 then some (none, .inside 3 0x90 0xBF 0)
  else if 0xF1 ≤ n ∧ n ≤ 0xF3 then some (none, .inside 3 0x80 0xBF (n - 0xF0))
  else if n = 0xF4 then some (none, .inside 3 0x80 0x8F 4)
  else none

/-- A later byte. -/
def later (owed lo hi value n : ℕ) : Option (Option Char × State) :=
  if lo ≤ n ∧ n ≤ hi then
    if owed ≤ 1 then some (some (Char.ofNat (value * 64 + (n - 0x80))), .start)
    else some (none, .inside (owed - 1) 0x80 0xBF (value * 64 + (n - 0x80)))
  else none

def step : State → ℕ → Option (Option Char × State)
  | .start, n => first n
  | .inside owed lo hi value, n => later owed lo hi value n

/-! ## The strict reading -/

def decodeFrom : State → List UInt8 → Option (List Char)
  | st, [] => if st = .start then some [] else none
  | st, b :: bs =>
      (step st b.toNat).bind (fun p => (decodeFrom p.2 bs).map (p.1.toList ++ ·))

/-- `str::from_utf8`. -/
def decode (bs : List UInt8) : Option (List Char) := decodeFrom .start bs

/-- The bytes of a text. -/
def encode (cs : List Char) : List UInt8 := cs.flatMap String.utf8EncodeChar

theorem encode_append (cs ds : List Char) : encode (cs ++ ds) = encode cs ++ encode ds :=
  List.flatMap_append

theorem decodeFrom_cons {st : State} {b : UInt8} {bs : List UInt8} {o : Option Char} {st' : State}
    (h : step st b.toNat = some (o, st')) :
    decodeFrom st (b :: bs) = (decodeFrom st' bs).map (o.toList ++ ·) := by
  rw [decodeFrom, h]
  rfl

/-- A byte inside a character. -/
theorem step_inside {owed lo hi value n v : ℕ} (howed : 1 < owed) (hlo : lo ≤ n) (hhi : n ≤ hi)
    (hv : value * 64 + (n - 0x80) = v) :
    step (.inside owed lo hi value) n = some (none, .inside (owed - 1) 0x80 0xBF v) := by
  show later owed lo hi value n = _
  unfold later
  rw [if_pos ⟨hlo, hhi⟩, if_neg (by omega), hv]

/-- The last byte of a character. -/
theorem step_last {lo hi value n : ℕ} {c : Char} (hlo : lo ≤ n) (hhi : n ≤ hi)
    (hc : value * 64 + (n - 0x80) = c.toNat) :
    step (.inside 1 lo hi value) n = some (some c, .start) := by
  show later 1 lo hi value n = _
  unfold later
  rw [if_pos ⟨hlo, hhi⟩, if_pos (Nat.le_refl 1), hc, Char.ofNat_toNat]

theorem step_first_two {n v : ℕ} (hv : 0xC0 + v = n) (h : 2 ≤ v) (h' : v < 32) :
    step .start n = some (none, .inside 1 0x80 0xBF v) := by
  show first n = _
  unfold first
  rw [if_neg (by omega), if_pos (by omega), show n - 0xC0 = v by omega]

/-- The range of the second byte depends on the first. -/
theorem step_first_three {n v m : ℕ} (hv : 0xE0 + v = n) (h : v < 16) (hm : 0x80 ≤ m)
    (hm' : m ≤ 0xBF) (hlow : v = 0 → 0xA0 ≤ m) (hsurrogate : v = 0xD → m ≤ 0x9F) :
    ∃ lo hi, step .start n = some (none, .inside 2 lo hi v) ∧ lo ≤ m ∧ m ≤ hi := by
  show ∃ lo hi, first n = _ ∧ _
  unfold first
  rw [if_neg (by omega), if_neg (by omega)]
  by_cases h0 : n = 0xE0
  · obtain rfl : v = 0 := by omega
    rw [if_pos h0]
    exact ⟨_, _, rfl, hlow rfl, hm'⟩
  · rw [if_neg h0]
    by_cases hD : n = 0xED
    · obtain rfl : v = 0xD := by omega
      rw [if_pos hD]
      exact ⟨_, _, rfl, hm, hsurrogate rfl⟩
    · rw [if_neg hD, if_pos (by omega), show n - 0xE0 = v by omega]
      exact ⟨_, _, rfl, hm, hm'⟩

theorem step_first_four {n v m : ℕ} (hv : 0xF0 + v = n) (h : v ≤ 4) (hm : 0x80 ≤ m)
    (hm' : m ≤ 0xBF) (hlow : v = 0 → 0x90 ≤ m) (hhigh : v = 4 → m ≤ 0x8F) :
    ∃ lo hi, step .start n = some (none, .inside 3 lo hi v) ∧ lo ≤ m ∧ m ≤ hi := by
  show ∃ lo hi, first n = _ ∧ _
  unfold first
  rw [if_neg (by omega), if_neg (by omega), if_neg (by omega), if_neg (by omega),
    if_neg (by omega)]
  by_cases h0 : n = 0xF0
  · obtain rfl : v = 0 := by omega
    rw [if_pos h0]
    exact ⟨_, _, rfl, hlow rfl, hm'⟩
  · rw [if_neg h0]
    by_cases h4 : n = 0xF4
    · obtain rfl : v = 4 := by omega
      rw [if_neg (by omega), if_pos h4]
      exact ⟨_, _, rfl, hm, hhigh rfl⟩
    · rw [if_pos (by omega), show n - 0xF0 = v by omega]
      exact ⟨_, _, rfl, hm, hm'⟩

/-- A scalar value is no surrogate and at most U+10FFFF. -/
theorem scalar (c : Char) :
    c.toNat < 0xD800 ∨ (0xDFFF < c.toNat ∧ c.toNat < 0x110000) := c.valid

theorem encode_one {c : Char} (h : c.toNat ≤ 0x7F) :
    String.utf8EncodeChar c = [UInt8.ofNat c.toNat] := if_pos h

theorem encode_two {c : Char} (h : ¬ c.toNat ≤ 0x7F) (h2 : c.toNat ≤ 0x7FF) :
    String.utf8EncodeChar c =
      [UInt8.ofNat (c.toNat / 64 % 0x20 + 0xC0), UInt8.ofNat (c.toNat % 0x40 + 0x80)] :=
  (if_neg h).trans (if_pos h2)

theorem encode_three {c : Char} (h : ¬ c.toNat ≤ 0x7F) (h2 : ¬ c.toNat ≤ 0x7FF)
    (h3 : c.toNat ≤ 0xFFFF) :
    String.utf8EncodeChar c =
      [UInt8.ofNat (c.toNat / 4096 % 0x10 + 0xE0), UInt8.ofNat (c.toNat / 64 % 0x40 + 0x80),
        UInt8.ofNat (c.toNat % 0x40 + 0x80)] :=
  (if_neg h).trans ((if_neg h2).trans (if_pos h3))

theorem encode_four {c : Char} (h : ¬ c.toNat ≤ 0x7F) (h2 : ¬ c.toNat ≤ 0x7FF)
    (h3 : ¬ c.toNat ≤ 0xFFFF) :
    String.utf8EncodeChar c =
      [UInt8.ofNat (c.toNat / 262144 % 0x08 + 0xF0), UInt8.ofNat (c.toNat / 4096 % 0x40 + 0x80),
        UInt8.ofNat (c.toNat / 64 % 0x40 + 0x80), UInt8.ofNat (c.toNat % 0x40 + 0x80)] :=
  (if_neg h).trans ((if_neg h2).trans (if_neg h3))

theorem toNat_byte {n : ℕ} (h : n < 256) : (UInt8.ofNat n).toNat = n := by
  simp [h]

/-- A character of more than one byte has no byte of ASCII. -/
theorem high_of_wide {c : Char} (h : ¬ c.toNat ≤ 0x7F) {b : UInt8}
    (hb : b ∈ String.utf8EncodeChar c) : 0x80 ≤ b.toNat := by
  by_cases h2 : c.toNat ≤ 0x7FF
  · rw [encode_two h h2] at hb
    simp only [List.mem_cons, List.not_mem_nil, or_false] at hb
    rcases hb with rfl | rfl <;> rw [toNat_byte] <;> omega
  · by_cases h3 : c.toNat ≤ 0xFFFF
    · rw [encode_three h h2 h3] at hb
      simp only [List.mem_cons, List.not_mem_nil, or_false] at hb
      rcases hb with rfl | rfl | rfl <;> rw [toNat_byte] <;> omega
    · rw [encode_four h h2 h3] at hb
      simp only [List.mem_cons, List.not_mem_nil, or_false] at hb
      rcases hb with rfl | rfl | rfl | rfl <;> rw [toNat_byte] <;> omega

/-- **A character is read back.** -/
theorem decodeFrom_char (c : Char) (bs : List UInt8) :
    decodeFrom .start (String.utf8EncodeChar c ++ bs) = (decodeFrom .start bs).map (c :: ·) := by
  have hscalar := scalar c
  -- a byte that ends nothing adds nothing
  have hmore : ∀ {st st' : State} {n : ℕ} {ds : List UInt8}, n < 256 →
      step st n = some (none, st') →
      decodeFrom st (UInt8.ofNat n :: ds) = decodeFrom st' ds := by
    intro st st' n ds hn h
    rw [decodeFrom_cons (by rw [toNat_byte hn]; exact h)]
    exact Option.map_id_apply
  have hend : ∀ {st : State} {n : ℕ}, n < 256 → step st n = some (some c, .start) →
      decodeFrom st (UInt8.ofNat n :: bs) = (decodeFrom .start bs).map (c :: ·) := by
    intro st n hn h
    exact decodeFrom_cons (by rw [toNat_byte hn]; exact h)
  by_cases h1 : c.toNat ≤ 0x7F
  · rw [encode_one h1]
    refine hend (by omega) ?_
    show first c.toNat = _
    unfold first
    rw [if_pos h1, Char.ofNat_toNat]
  by_cases h2 : c.toNat ≤ 0x7FF
  · rw [encode_two h1 h2]
    refine (hmore (by omega) (step_first_two (v := c.toNat / 64) (by omega) (by omega)
      (by omega))).trans ?_
    exact hend (by omega) (step_last (by omega) (by omega) (by omega))
  by_cases h3 : c.toNat ≤ 0xFFFF
  · rw [encode_three h1 h2 h3]
    obtain ⟨lo, hi, hfirst, hlo, hhi⟩ := step_first_three (v := c.toNat / 4096)
      (m := c.toNat / 64 % 0x40 + 0x80) rfl (by omega) (by omega) (by omega) (by omega) (by omega)
    rw [show c.toNat / 4096 % 0x10 + 0xE0 = 0xE0 + c.toNat / 4096 by omega]
    refine (hmore (by omega) hfirst).trans ?_
    refine (hmore (by omega) (step_inside (v := c.toNat / 64) (by omega) hlo hhi
      (by omega))).trans ?_
    exact hend (by omega) (step_last (by omega) (by omega) (by omega))
  · rw [encode_four h1 h2 h3]
    obtain ⟨lo, hi, hfirst, hlo, hhi⟩ := step_first_four (v := c.toNat / 262144)
      (m := c.toNat / 4096 % 0x40 + 0x80) rfl (by omega) (by omega) (by omega) (by omega) (by omega)
    rw [show c.toNat / 262144 % 0x08 + 0xF0 = 0xF0 + c.toNat / 262144 by omega]
    refine (hmore (by omega) hfirst).trans ?_
    refine (hmore (by omega) (step_inside (v := c.toNat / 4096) (by omega) hlo hhi
      (by omega))).trans ?_
    refine (hmore (by omega) (step_inside (v := c.toNat / 64) (by omega) (by omega) (by omega)
      (by omega))).trans ?_
    exact hend (by omega) (step_last (by omega) (by omega) (by omega))

/-- **A text is read back from its bytes.** -/
theorem decode_encode (cs : List Char) : decode (encode cs) = some cs := by
  induction cs with
  | nil => rfl
  | cons c cs ih =>
      show decodeFrom .start (String.utf8EncodeChar c ++ encode cs) = _
      rw [decodeFrom_char]
      change (decode (encode cs)).map (c :: ·) = _
      rw [ih]
      rfl

/-! ## The lossy reading -/

def replacement : Char := Char.ofNat 0xFFFD

/-- A byte between characters, replaced if it begins none. -/
def fresh (n : ℕ) : List Char × State :=
  match first n with
  | some (c, st) => (c.toList, st)
  | none => ([replacement], .start)

/-- A byte that does not continue a character ends its ill-formed part and is
read again. -/
def lossyStep : State → ℕ → List Char × State
  | .start, n => fresh n
  | .inside owed lo hi value, n =>
      match later owed lo hi value n with
      | some (c, st) => (c.toList, st)
      | none => (replacement :: (fresh n).1, (fresh n).2)

def lossyFrom : State → List UInt8 → List Char
  | st, [] => if st = .start then [] else [replacement]
  | st, b :: bs => (lossyStep st b.toNat).1 ++ lossyFrom (lossyStep st b.toNat).2 bs

/-- `String::from_utf8_lossy`. -/
def lossy (bs : List UInt8) : List Char := lossyFrom .start bs

/-- Where the strict reading succeeds nothing is replaced. -/
theorem lossyFrom_of_decodeFrom {bs : List UInt8} {st : State} {cs : List Char}
    (h : decodeFrom st bs = some cs) : lossyFrom st bs = cs := by
  induction bs generalizing st cs with
  | nil =>
      obtain ⟨hstart, hcs⟩ := Option.ite_none_right_eq_some.mp h
      unfold lossyFrom
      rw [if_pos hstart]
      exact Option.some.inj hcs
  | cons b bs ih =>
      obtain ⟨⟨o, st'⟩, hstep, hrest⟩ := Option.bind_eq_some_iff.mp h
      obtain ⟨rest, hdecode, rfl⟩ := Option.map_eq_some_iff.mp hrest
      have hlossy : lossyStep st b.toNat = (o.toList, st') := by
        cases st with
        | start =>
            have hfirst : first b.toNat = some (o, st') := hstep
            show fresh b.toNat = _
            unfold fresh
            rw [hfirst]
        | inside owed lo hi value =>
            have hlater : later owed lo hi value b.toNat = some (o, st') := hstep
            rw [lossyStep, hlater]
      unfold lossyFrom
      rw [hlossy, ih hdecode]

theorem lossy_encode (cs : List Char) : lossy (encode cs) = cs :=
  lossyFrom_of_decodeFrom (decode_encode cs)

/-- The newline byte. -/
def newline : UInt8 := 0x0A

/-! ## Lines -/

/-- A state that was reached by reading: what it can still make of its bytes is
above ASCII. -/
def State.Wide : State → Prop
  | .start => True
  | .inside owed lo _ value => 0x80 ≤ lo ∧
      ((owed = 1 ∧ 2 ≤ value) ∨ (owed = 2 ∧ (1 ≤ value ∨ 0xA0 ≤ lo)) ∨
        (owed = 3 ∧ (1 ≤ value ∨ 0x90 ≤ lo)))

theorem ofNat_newline {n : ℕ} (h : Char.ofNat n = '\n') : n = 10 := by
  by_cases hv : n.isValidChar
  · unfold Char.ofNat at h
    rw [dif_pos hv] at h
    exact congrArg Char.toNat h
  · unfold Char.ofNat at h
    rw [dif_neg hv] at h
    cases h

theorem first_wide {n : ℕ} {o : Option Char} {st : State} (h : first n = some (o, st)) :
    st.Wide ∧ (o = some '\n' → n = 10) := by
  unfold first at h
  by_cases h1 : n ≤ 0x7F
  · rw [if_pos h1] at h
    obtain ⟨rfl, rfl⟩ := Prod.mk.inj (Option.some.inj h)
    exact ⟨trivial, fun hc => ofNat_newline (Option.some.inj hc)⟩
  · rw [if_neg h1] at h
    -- the other first bytes end no character
    have hbegins : ∀ {p : Prop} [Decidable p] {owed lo hi value : ℕ}
        {e : Option (Option Char × State)},
        (p → (State.inside owed lo hi value).Wide) →
        (if p then some (none, .inside owed lo hi value) else e) = some (o, st) →
        (e = some (o, st) → st.Wide ∧ (o = some '\n' → n = 10)) →
        st.Wide ∧ (o = some '\n' → n = 10) := by
      intro p _ owed lo hi value e hwide hif helse
      by_cases hp : p
      · rw [if_pos hp] at hif
        obtain ⟨rfl, rfl⟩ := Prod.mk.inj (Option.some.inj hif)
        refine ⟨hwide hp, ?_⟩
        rintro ⟨⟩
      · rw [if_neg hp] at hif
        exact helse hif
    refine hbegins (fun hp => ⟨by omega, by omega⟩) h fun h => ?_
    refine hbegins (fun hp => ⟨by omega, by omega⟩) h fun h => ?_
    refine hbegins (fun hp => ⟨by omega, by omega⟩) h fun h => ?_
    refine hbegins (fun hp => ⟨by omega, by omega⟩) h fun h => ?_
    refine hbegins (fun hp => ⟨by omega, by omega⟩) h fun h => ?_
    refine hbegins (fun hp => ⟨by omega, by omega⟩) h fun h => ?_
    refine hbegins (fun hp => ⟨by omega, by omega⟩) h fun h => ?_
    cases h

theorem later_wide {owed lo hi value n : ℕ} (hwide : (State.inside owed lo hi value).Wide)
    {o : Option Char} {st : State} (h : later owed lo hi value n = some (o, st)) :
    st.Wide ∧ o ≠ some '\n' := by
  obtain ⟨hlo, hvalue⟩ := hwide
  unfold later at h
  by_cases hn : lo ≤ n ∧ n ≤ hi
  · rw [if_pos hn] at h
    by_cases howed : owed ≤ 1
    · rw [if_pos howed] at h
      obtain ⟨rfl, rfl⟩ := Prod.mk.inj (Option.some.inj h)
      refine ⟨trivial, ?_⟩
      intro hc
      have := ofNat_newline (Option.some.inj hc)
      omega
    · rw [if_neg howed] at h
      obtain ⟨rfl, rfl⟩ := Prod.mk.inj (Option.some.inj h)
      refine ⟨⟨by omega, by omega⟩, ?_⟩
      rintro ⟨⟩
  · rw [if_neg hn] at h
    cases h

theorem replacement_ne_newline : '\n' ≠ replacement := by decide

theorem fresh_wide (n : ℕ) : (fresh n).2.Wide ∧ ('\n' ∈ (fresh n).1 → n = 10) := by
  unfold fresh
  split
  · next c st h =>
      obtain ⟨hwide, hnewline⟩ := first_wide h
      exact ⟨hwide, fun hc => hnewline (Option.mem_toList.mp hc)⟩
  · refine ⟨trivial, ?_⟩
    intro hc
    exact absurd (List.mem_singleton.mp hc) replacement_ne_newline

/-- A newline comes from its own byte only. -/
theorem lossyStep_wide {st : State} (hst : st.Wide) (n : ℕ) :
    (lossyStep st n).2.Wide ∧ ('\n' ∈ (lossyStep st n).1 → n = 10) := by
  cases st with
  | start => exact fresh_wide n
  | inside owed lo hi value =>
      simp only [lossyStep]
      split
      · next c st h =>
          obtain ⟨hwide, hnewline⟩ := later_wide hst h
          exact ⟨hwide, fun hc => absurd (Option.mem_toList.mp hc) hnewline⟩
      · refine ⟨(fresh_wide n).1, ?_⟩
        intro hc
        rcases List.mem_cons.mp hc with hc | hc
        · exact absurd hc replacement_ne_newline
        · exact (fresh_wide n).2 hc

theorem newline_not_mem_lossyFrom {bs : List UInt8} (hbs : newline ∉ bs) :
    ∀ {st : State}, st.Wide → '\n' ∉ lossyFrom st bs := by
  induction bs with
  | nil =>
      intro st _ hc
      unfold lossyFrom at hc
      split at hc
      · cases hc
      · exact replacement_ne_newline (List.mem_singleton.mp hc)
  | cons b bs ih =>
      intro st hst hc
      obtain ⟨hwide, hnewline⟩ := lossyStep_wide hst b.toNat
      unfold lossyFrom at hc
      rcases List.mem_append.mp hc with hc | hc
      · refine hbs (List.mem_cons.mpr (.inl ?_))
        exact (UInt8.toNat_inj.mp (hnewline hc)).symm
      · exact ih (fun h => hbs (List.mem_cons_of_mem b h)) hwide hc

/-- A newline continues no character. -/
theorem later_newline {owed lo hi value : ℕ} (hwide : (State.inside owed lo hi value).Wide) :
    later owed lo hi value newline.toNat = none := by
  unfold later
  refine if_neg fun h => ?_
  exact absurd (Nat.le_trans hwide.1 h.1) (by decide)

/-- A newline ends whatever was begun. -/
theorem lossyFrom_newline {as : List UInt8} (bs : List UInt8) :
    ∀ {st : State}, st.Wide →
      lossyFrom st (as ++ newline :: bs) = lossyFrom st as ++ '\n' :: lossy bs := by
  induction as with
  | nil =>
      intro st hst
      cases st with
      | start => rfl
      | inside owed lo hi value =>
          have hrefused := later_newline hst
          have hstep : lossyStep (.inside owed lo hi value) newline.toNat =
              ([replacement, '\n'], .start) := by
            simp only [lossyStep, hrefused]
            rfl
          show (lossyStep _ newline.toNat).1 ++ lossyFrom (lossyStep _ newline.toNat).2 bs = _
          rw [hstep]
          rfl
  | cons a as ih =>
      intro st hst
      show (lossyStep st a.toNat).1 ++ lossyFrom (lossyStep st a.toNat).2 (as ++ newline :: bs) = _
      rw [ih (lossyStep_wide hst a.toNat).1, ← List.append_assoc]
      rfl

/-- **The lines of the lossy reading are the lossy readings of the lines.** -/
theorem lossy_splitOn (bs : List UInt8) :
    (lossy bs).splitOn '\n' = (bs.splitOn newline).map lossy := by
  have hstart : State.start.Wide := trivial
  induction hn : bs.length using Nat.strongRecOn generalizing bs with
  | ind n ih =>
      by_cases hmem : newline ∈ bs
      · obtain ⟨as, rest, rfl, has⟩ := List.eq_append_cons_of_mem hmem
        have hlt : rest.length < n := by
          rw [← hn, List.length_append, List.length_cons]
          omega
        rw [List.splitOn_append_cons_self_of_not_mem has, List.map_cons, ← ih _ hlt rest rfl]
        show (lossyFrom .start _).splitOn '\n' = _
        rw [lossyFrom_newline rest hstart,
          List.splitOn_append_cons_self_of_not_mem (newline_not_mem_lossyFrom has hstart)]
        rfl
      · rw [List.splitOn_eq_singleton hmem]
        exact List.splitOn_eq_singleton (newline_not_mem_lossyFrom hmem hstart)

/-- A byte of ASCII stands for its own character only. -/
theorem ascii_mem_encodeChar {b : UInt8} (hb : b.toNat < 0x80) {c : Char}
    (h : b ∈ String.utf8EncodeChar c) : c.toNat = b.toNat := by
  have hnarrow : c.toNat ≤ 0x7F := by
    by_contra hwide
    exact absurd (high_of_wide hwide h) (Nat.not_le_of_lt hb)
  rw [encode_one hnarrow, List.mem_singleton] at h
  rw [h, toNat_byte (by omega)]

theorem ascii_mem_encode {b : UInt8} (hb : b.toNat < 0x80) {cs : List Char} (h : b ∈ encode cs) :
    Char.ofNat b.toNat ∈ cs := by
  obtain ⟨c, hc, hmem⟩ := List.mem_flatMap.mp h
  rwa [← ascii_mem_encodeChar hb hmem, Char.ofNat_toNat]

/-- Only a newline is encoded with the newline byte. -/
theorem newline_mem_encodeChar {c : Char} (h : newline ∈ String.utf8EncodeChar c) : c = '\n' := by
  rw [← Char.ofNat_toNat c, ascii_mem_encodeChar (by decide) h]
  rfl

theorem newline_mem_encode {cs : List Char} (h : newline ∈ encode cs) : '\n' ∈ cs := by
  obtain ⟨c, hc, hmem⟩ := List.mem_flatMap.mp h
  rwa [← newline_mem_encodeChar hmem]

/-- The strict reading splits at a newline. -/
theorem decodeFrom_newline {as bs : List UInt8} :
    ∀ {st : State}, st.Wide → ∀ {text : List Char},
      decodeFrom st (as ++ newline :: bs) = some text →
      ∃ t u, decodeFrom st as = some t ∧ decode bs = some u ∧ text = t ++ '\n' :: u := by
  induction as with
  | nil =>
      intro st hst text h
      cases st with
      | start =>
          change (decode bs).map ('\n' :: ·) = some text at h
          obtain ⟨u, hu, rfl⟩ := Option.map_eq_some_iff.mp h
          exact ⟨[], u, rfl, hu, rfl⟩
      | inside owed lo hi value =>
          have hrefused := later_newline hst
          change (later owed lo hi value newline.toNat).bind _ = some text at h
          rw [hrefused] at h
          cases h
  | cons a as ih =>
      intro st hst text h
      change (step st a.toNat).bind _ = some text at h
      obtain ⟨⟨o, st'⟩, hstep, h⟩ := Option.bind_eq_some_iff.mp h
      obtain ⟨rest, hrest, rfl⟩ := Option.map_eq_some_iff.mp h
      have hwide : st'.Wide := by
        cases st with
        | start => exact (first_wide hstep).1
        | inside owed lo hi value => exact (later_wide hst hstep).1
      obtain ⟨t, u, ht, hu, rfl⟩ := ih hwide hrest
      refine ⟨o.toList ++ t, u, ?_, hu, (List.append_assoc ..).symm⟩
      rw [decodeFrom_cons hstep, ht]
      rfl

theorem newline_not_mem_decodeFrom {bs : List UInt8} (hbs : newline ∉ bs) :
    ∀ {st : State}, st.Wide → ∀ {text : List Char}, decodeFrom st bs = some text →
      '\n' ∉ text := by
  induction bs with
  | nil =>
      intro st _ text h hc
      unfold decodeFrom at h
      split at h
      · obtain rfl := Option.some.inj h
        cases hc
      · cases h
  | cons b bs ih =>
      intro st hst text h hc
      change (step st b.toNat).bind _ = some text at h
      obtain ⟨⟨o, st'⟩, hstep, h⟩ := Option.bind_eq_some_iff.mp h
      obtain ⟨rest, hrest, rfl⟩ := Option.map_eq_some_iff.mp h
      have hwide : st'.Wide ∧ (o = some '\n' → b.toNat = 10) := by
        cases st with
        | start => exact first_wide hstep
        | inside owed lo hi value =>
            obtain ⟨hwide, hne⟩ := later_wide hst hstep
            exact ⟨hwide, fun ho => absurd ho hne⟩
      rcases List.mem_append.mp hc with hc | hc
      · refine hbs (List.mem_cons.mpr (.inl ?_))
        exact (UInt8.toNat_inj.mp (hwide.2 (Option.mem_toList.mp hc))).symm
      · exact ih (fun h => hbs (List.mem_cons_of_mem b h)) hwide.1 hrest hc

/-- **The lines of a text are the texts of its lines.** -/
theorem decode_splitOn (bs : List UInt8) {text : List Char} (h : decode bs = some text) :
    (bs.splitOn newline).map decode = (text.splitOn '\n').map some := by
  have hstart : State.start.Wide := trivial
  induction hn : bs.length using Nat.strongRecOn generalizing bs text with
  | ind n ih =>
      by_cases hmem : newline ∈ bs
      · obtain ⟨as, rest, rfl, has⟩ := List.eq_append_cons_of_mem hmem
        have hlt : rest.length < n := by
          rw [← hn, List.length_append, List.length_cons]
          omega
        obtain ⟨t, u, ht, hu, rfl⟩ := decodeFrom_newline hstart h
        rw [List.splitOn_append_cons_self_of_not_mem has,
          List.splitOn_append_cons_self_of_not_mem (newline_not_mem_decodeFrom has hstart ht),
          List.map_cons, List.map_cons, ih _ hlt rest hu rfl]
        exact congrArg (· :: _) ht
      · rw [List.splitOn_eq_singleton hmem,
          List.splitOn_eq_singleton (newline_not_mem_decodeFrom hmem hstart h)]
        exact congrArg (fun o => [o]) h

end Utf8
