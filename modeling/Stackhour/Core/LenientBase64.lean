import Stackhour.Core.Enrollment

/-!
# The lenient base64 decoder

The decoder undoes the encoding, in either alphabet and whether it is padded or not. On a text
it looks at one character at a time: a character of more than one byte is skipped whole.
-/

namespace Stackhour.Core

open Base64

/-! ## The decoder undoes the encoding -/

/-- A byte that stands for a sextet. -/
def Stands (b : UInt8) (v : ℕ) : Prop := b.toNat ≠ 61 ∧ sextet b = some v

instance (b : UInt8) (v : ℕ) : Decidable (Stands b v) := inferInstanceAs (Decidable (_ ∧ _))

/-- Where the decoder stops. -/
def Stops (bs : List UInt8) : Prop :=
  ∀ acc count, decodeSextets acc count bs = leftover acc count

theorem stops_nil : Stops [] := fun _ _ => rfl

theorem stops_padding {b : UInt8} (h : b.toNat = 61) (bs : List UInt8) : Stops (b :: bs) :=
  fun _ _ => if_pos h

theorem decode_sextet {acc count v : ℕ} {b : UInt8} (hb : Stands b v) (hcount : count ≠ 3)
    (bs : List UInt8) :
    decodeSextets acc count (b :: bs) = decodeSextets (acc * 64 + v) (count + 1) bs := by
  obtain ⟨hend, hsextet⟩ := hb
  rw [decodeSextets, if_neg hend, hsextet]
  exact if_neg hcount

theorem decode_last {acc v : ℕ} {b : UInt8} (hb : Stands b v) (bs : List UInt8) :
    decodeSextets acc 3 (b :: bs) =
      [UInt8.ofNat ((acc * 64 + v) / 65536), UInt8.ofNat ((acc * 64 + v) / 256),
        UInt8.ofNat (acc * 64 + v)] ++ decodeSextets 0 0 bs := by
  obtain ⟨hend, hsextet⟩ := hb
  rw [decodeSextets, if_neg hend, hsextet]
  exact if_pos rfl

theorem ofNat_eq {n : ℕ} {b : UInt8} (h : n % 256 = b.toNat) : UInt8.ofNat n = b := by
  apply UInt8.toNat_inj.mp
  rw [UInt8.toNat_ofNat']
  exact h

/-- **The decoder undoes the encoding**, group by group, whatever letters stand for the sextets. -/
theorem decodeSextets_map {f : ℕ → UInt8} (hf : ∀ v < 64, Stands (f v) v) {tail : List UInt8}
    (htail : Stops tail) (bs : List UInt8) :
    decodeSextets 0 0 ((sextets bs).map f ++ tail) = bs := by
  fun_induction sextets bs with
  | case1 => exact htail 0 0
  | case2 a =>
      have ha := a.toNat_lt
      simp only [List.map_cons, List.map_nil, List.cons_append, List.nil_append]
      rw [decode_sextet (hf _ (by omega)) (by decide), decode_sextet (hf _ (by omega)) (by decide),
        htail]
      show [UInt8.ofNat _] = [a]
      rw [ofNat_eq (b := a) (by omega)]
  | case3 a b =>
      have ha := a.toNat_lt
      have hb := b.toNat_lt
      simp only [List.map_cons, List.map_nil, List.cons_append, List.nil_append]
      rw [decode_sextet (hf _ (by omega)) (by decide), decode_sextet (hf _ (by omega)) (by decide),
        decode_sextet (hf _ (by omega)) (by decide), htail]
      show [UInt8.ofNat _, UInt8.ofNat _] = [a, b]
      rw [ofNat_eq (b := a) (by omega), ofNat_eq (b := b) (by omega)]
  | case4 a b c rest ih =>
      have ha := a.toNat_lt
      have hb := b.toNat_lt
      have hc := c.toNat_lt
      simp only [List.map_cons, List.cons_append]
      rw [decode_sextet (hf _ (by omega)) (by decide), decode_sextet (hf _ (by omega)) (by decide),
        decode_sextet (hf _ (by omega)) (by decide), decode_last (hf _ (by omega)), ih]
      rw [ofNat_eq (b := a) (by omega), ofNat_eq (b := b) (by omega), ofNat_eq (b := c) (by omega)]
      rfl

/-! ## Letters and their bytes -/

/-- The byte of a letter. -/
def letterByte (a : Alphabet) (v : ℕ) : UInt8 := UInt8.ofNat (a.letter v).toNat

theorem letter_spec (a : Alphabet) : ∀ v < 64,
    String.utf8EncodeChar (a.letter v) = [letterByte a v] ∧ Stands (letterByte a v) v := by
  cases a <;> decide

theorem encode_letters (a : Alphabet) {vs : List ℕ} (h : ∀ v ∈ vs, v < 64) :
    Utf8.encode (vs.map a.letter) = vs.map (letterByte a) := by
  induction vs with
  | nil => rfl
  | cons v vs ih =>
      have ih := ih fun w hw => h w (List.mem_cons_of_mem v hw)
      show String.utf8EncodeChar (a.letter v) ++ Utf8.encode (vs.map a.letter) = _
      rw [ih, (letter_spec a v (h v List.mem_cons_self)).1]
      rfl

theorem stops_encode_padding (padded : Bool) (n : ℕ) :
    Stops (Utf8.encode (if padded then padding n else [])) := by
  cases padded with
  | false => exact stops_nil
  | true =>
      show Stops (Utf8.encode (List.replicate ((3 - n % 3) % 3) '='))
      cases (3 - n % 3) % 3 with
      | zero => exact stops_nil
      | succ m => exact stops_padding rfl _

/-- **Bytes are read back from their encoding.** -/
theorem lenientBase64Decode_encodeAs (a : Alphabet) (padded : Bool) (bs : List UInt8) :
    lenientBase64Decode (Utf8.encode (encodeAs a padded bs)) = bs := by
  unfold encodeAs
  rw [Utf8.encode_append, encode_letters a (sextets_lt bs)]
  exact decodeSextets_map (fun v hv => (letter_spec a v hv).2) (stops_encode_padding padded _) bs

/-! ## Texts -/

theorem sextet_high {b : UInt8} (h : 0x80 ≤ b.toNat) : sextet b = none := by
  unfold sextet
  dsimp only
  rw [if_neg (by omega), if_neg (by omega), if_neg (by omega), if_neg (by omega), if_neg (by omega)]

theorem decodeSextets_skip {skipped : List UInt8}
    (h : ∀ b ∈ skipped, b.toNat ≠ 61 ∧ sextet b = none) (acc count : ℕ) (bs : List UInt8) :
    decodeSextets acc count (skipped ++ bs) = decodeSextets acc count bs := by
  induction skipped with
  | nil => rfl
  | cons b skipped ih =>
      obtain ⟨hend, hnone⟩ := h b List.mem_cons_self
      rw [List.cons_append, decodeSextets, if_neg hend, hnone]
      exact ih fun b' hb' => h b' (List.mem_cons_of_mem b hb')

/-- A character of more than one byte is skipped. -/
theorem decodeSextets_wide {c : Char} (h : ¬ c.toNat ≤ 0x7F) (acc count : ℕ) (bs : List UInt8) :
    decodeSextets acc count (String.utf8EncodeChar c ++ bs) = decodeSextets acc count bs := by
  refine decodeSextets_skip (fun b hb => ?_) acc count bs
  have hhigh := Utf8.high_of_wide h hb
  exact ⟨by omega, sextet_high hhigh⟩

/-- What stands for a sextet is a letter. -/
theorem letter_of_sextet : ∀ n < 128, n ≠ 61 → ∀ v, sextet (UInt8.ofNat n) = some v →
    v < 64 ∧ (standardLetter v = Char.ofNat n ∨ Base64.letter v = Char.ofNat n) := by
  have hall : ∀ n < 128, n ≠ 61 → ∀ v ∈ sextet (UInt8.ofNat n),
      v < 64 ∧ (standardLetter v = Char.ofNat n ∨ Base64.letter v = Char.ofNat n) := by decide
  exact hall

/-- A foreign character is skipped. -/
theorem decodeSextets_foreign {c : Char} (hc : Foreign c) (acc count : ℕ) (bs : List UInt8) :
    decodeSextets acc count (String.utf8EncodeChar c ++ bs) = decodeSextets acc count bs := by
  by_cases h : c.toNat ≤ 0x7F
  · rw [Utf8.encode_one h]
    refine decodeSextets_skip (fun b hb => ?_) acc count bs
    rw [List.mem_singleton.mp hb, Utf8.toNat_byte (by omega)]
    have hend : c.toNat ≠ 61 := fun hend => hc.1 (Char.toNat_inj.mp hend)
    refine ⟨hend, Option.eq_none_iff_forall_not_mem.mpr fun v hv => ?_⟩
    obtain ⟨hlt, hletter⟩ := letter_of_sextet c.toNat (by omega) hend v hv
    rw [Char.ofNat_toNat] at hletter
    exact hletter.elim (hc.2 v hlt .standard) (hc.2 v hlt .urlSafe)
  · exact decodeSextets_wide h acc count bs

/-- **Foreign characters before the padding change nothing**, by induction on where they are put
in. -/
theorem decodeSextets_inserted {cs ds : List Char} (h : Inserted cs ds) (acc count : ℕ) :
    decodeSextets acc count (Utf8.encode ds) = decodeSextets acc count (Utf8.encode cs) := by
  have hcons : ∀ (c : Char) (cs : List Char),
      Utf8.encode (c :: cs) = String.utf8EncodeChar c ++ Utf8.encode cs := fun _ _ => rfl
  induction h generalizing acc count with
  | same cs => rfl
  | insert hc _ ih => rw [hcons, decodeSextets_foreign hc, ih]
  | @keep c cs ds hc _ ih =>
      rw [hcons, hcons]
      by_cases hone : c.toNat ≤ 0x7F
      · rw [Utf8.encode_one hone, List.singleton_append, List.singleton_append]
        simp only [decodeSextets, ih]
      · rw [decodeSextets_wide hone, decodeSextets_wide hone, ih]

end Stackhour.Core
