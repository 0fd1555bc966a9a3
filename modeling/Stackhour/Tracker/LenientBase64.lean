import Stackhour.Core.LenientBase64
import Stackhour.Tracker.ReadGuard

/-!
# The server's base64 decoder

`decode_base64_lenient` was written apart from `lenient_base64_decode`: it writes a byte as soon
as it has one, and never clears its accumulator. The bytes that the other decoder still owes
are those that it has written.
-/

namespace Stackhour.Tracker

open Core Base64

/-! ## The sextet of a character -/

theorem sextet_byte : ∀ n < 128,
    Core.sextet (UInt8.ofNat n) = Tracker.sextet (Char.ofNat n) := by
  decide

theorem sextet_one {c : Char} (h : c.toNat ≤ 0x7F) :
    Core.sextet (UInt8.ofNat c.toNat) = Tracker.sextet c := by
  have hbyte := sextet_byte c.toNat (by omega)
  rwa [Char.ofNat_toNat] at hbyte

theorem sextet_wide {c : Char} (h : ¬ c.toNat ≤ 0x7F) : Tracker.sextet c = none ∧ c ≠ '=' := by
  have hlt : ∀ d : Char, d.toNat ≤ 0x7F → ¬ c ≤ d ∧ c ≠ d := by
    intro d hd
    refine ⟨fun hle => h ((Nat.le_trans (Char.le_def.mp hle) hd)), ?_⟩
    rintro rfl
    exact h hd
  refine ⟨?_, (hlt '=' (by decide)).2⟩
  unfold Tracker.sextet
  rw [if_neg fun hc => (hlt 'Z' (by decide)).1 hc.2, if_neg fun hc => (hlt 'z' (by decide)).1 hc.2,
    if_neg fun hc => (hlt '9' (by decide)).1 hc.2, if_neg, if_neg]
  · rintro (hc | hc)
    · exact (hlt '/' (by decide)).2 hc
    · exact (hlt '_' (by decide)).2 hc
  · rintro (hc | hc)
    · exact (hlt '+' (by decide)).2 hc
    · exact (hlt '-' (by decide)).2 hc

theorem sextet_lt {c : Char} {v : ℕ} (h : Tracker.sextet c = some v) : v < 64 := by
  by_cases hone : c.toNat ≤ 0x7F
  · have hbyte : ∀ n < 128, ∀ v ∈ Core.sextet (UInt8.ofNat n), v < 64 := by decide
    exact hbyte c.toNat (by omega) v ((sextet_one hone).trans h)
  · rw [(sextet_wide hone).1] at h
    cases h

theorem toNat_padding {c : Char} : c.toNat = 61 ↔ c = '=' := Char.toNat_inj (d := '=')

/-! ## The accumulators -/

/-- A sextet is shifted in; what is shifted out is lost. -/
theorem shiftIn_toNat (acc : BitVec 32) {v : ℕ} (hv : v < 64) :
    ((acc <<< 6) ||| BitVec.ofNat 32 v).toNat = acc.toNat % 2 ^ 26 * 64 + v := by
  have hshift : acc.toNat * 64 % 2 ^ 32 = (acc.toNat % 2 ^ 26) <<< 6 := by
    rw [Nat.shiftLeft_eq]
    omega
  rw [BitVec.toNat_or, BitVec.toNat_shiftLeft, BitVec.toNat_ofNat,
    Nat.mod_eq_of_lt (by omega : v < 2 ^ 32), Nat.shiftLeft_eq, hshift,
    ← Nat.shiftLeft_add_eq_or_of_lt (by omega), Nat.shiftLeft_eq]

/-- A byte is taken above the lowest bits. -/
theorem shiftRight_byte {acc : BitVec 32} (n : ℕ) {k : ℕ}
    (h : acc.toNat % 2 ^ (k + 8) = n % 2 ^ (k + 8)) :
    UInt8.ofNat (acc >>> k).toNat = UInt8.ofNat (n / 2 ^ k) := by
  apply UInt8.toNat_inj.mp
  rw [UInt8.toNat_ofNat', UInt8.toNat_ofNat', BitVec.toNat_ushiftRight, Nat.shiftRight_eq_div_pow]
  have hmod : ∀ m : ℕ, m / 2 ^ k % 2 ^ 8 = m % 2 ^ (k + 8) / 2 ^ k := by
    intro m
    rw [pow_add, Nat.mod_mul_right_div_self]
  rw [hmod, hmod, h]

/-- Both accumulators hold the bits of which no byte was made. -/
structure Agrees (acc count : ℕ) (acc' : BitVec 32) (bits : ℕ) : Prop where
  group : (count, bits) ∈ [(0, 0), (1, 6), (2, 4), (3, 2)]
  low : acc'.toNat % 2 ^ bits = acc % 2 ^ bits

/-- The decoders agree from any point on, by induction on the text. -/
theorem decodeBase64From_eq (cs : List Char) {acc count bits : ℕ} {acc' : BitVec 32}
    (h : Agrees acc count acc' bits) : decodeSextets acc count (Utf8.encode cs) =
      leftover acc count ++ decodeBase64From acc' bits cs := by
  induction cs generalizing acc count acc' bits with
  | nil => exact (List.append_nil _).symm
  | cons c cs ih =>
      show decodeSextets acc count (String.utf8EncodeChar c ++ Utf8.encode cs) = _
      by_cases hone : c.toNat ≤ 0x7F
      · rw [Utf8.encode_one hone, List.singleton_append, decodeSextets, decodeBase64From,
          Utf8.toNat_byte (by omega), sextet_one hone]
        by_cases hend : c = '='
        · rw [if_pos (toNat_padding.mpr hend), if_pos hend, List.append_nil]
        · rw [if_neg fun hc => hend (toNat_padding.mp hc), if_neg hend]
          cases hsextet : Tracker.sextet c with
          | none => exact ih h
          | some v =>
              have hv := sextet_lt hsextet
              have hin := shiftIn_toNat acc' hv
              dsimp only
              generalize (acc' <<< 6) ||| BitVec.ofNat 32 v = acc'' at hin ⊢
              obtain ⟨hopen, hlow⟩ := h
              simp only [List.mem_cons, Prod.mk.injEq, List.not_mem_nil, or_false] at hopen
              rcases hopen with ⟨rfl, rfl⟩ | ⟨rfl, rfl⟩ | ⟨rfl, rfl⟩ | ⟨rfl, rfl⟩
              · exact ih ⟨by simp, by omega⟩
              · -- the byte that the group now owes is written
                rw [if_neg (by decide), if_pos (by decide),
                  ih ⟨by simp, (by omega : acc''.toNat % 2 ^ 4 = (acc * 64 + v) % 2 ^ 4)⟩]
                show [UInt8.ofNat _] ++ _ = [] ++ UInt8.ofNat _ :: _
                rw [shiftRight_byte (acc * 64 + v) (by omega)]
                rfl
              · rw [if_neg (by decide), if_pos (by decide),
                  ih ⟨by simp, (by omega : acc''.toNat % 2 ^ 2 = (acc * 64 + v) % 2 ^ 2)⟩]
                show [UInt8.ofNat _, UInt8.ofNat _] ++ _ = [UInt8.ofNat _] ++ UInt8.ofNat _ :: _
                have hfirst : (acc * 64 + v) / 1024 = acc / 16 := by omega
                rw [shiftRight_byte (acc * 64 + v) (by omega), hfirst]
                rfl
              · rw [if_pos rfl, if_pos (by decide),
                  ih ⟨by simp, (by omega : acc''.toNat % 2 ^ 0 = 0 % 2 ^ 0)⟩]
                show [UInt8.ofNat _, UInt8.ofNat _, UInt8.ofNat _] ++ _ =
                  [UInt8.ofNat _, UInt8.ofNat _] ++ UInt8.ofNat _ :: _
                have hfirst : (acc * 64 + v) / 65536 = acc / 1024 := by omega
                have hsecond : (acc * 64 + v) / 256 = acc / 4 := by omega
                have hlast : (acc * 64 + v) / 2 ^ (2 + 6 - 8) = acc * 64 + v := Nat.div_one _
                rw [shiftRight_byte (acc * 64 + v) (by omega), hfirst, hsecond, hlast]
                rfl
      · obtain ⟨hnone, hend⟩ := sextet_wide hone
        rw [decodeSextets_wide hone, decodeBase64From, if_neg hend, hnone]
        exact ih h

/-- **The lenient decoders**: bytes are read back from their encoding in either alphabet, padded
or not; foreign characters before the padding change nothing; and the server's decoder reads
every text as the other does. -/
theorem lenient_base64 :
    (∀ alphabet padded bs, lenientBase64Decode (Utf8.encode (encodeAs alphabet padded bs)) = bs) ∧
      (∀ cs ds, Inserted cs ds →
        lenientBase64Decode (Utf8.encode ds) = lenientBase64Decode (Utf8.encode cs)) ∧
      ∀ input : List Char, decodeBase64Lenient input = lenientBase64Decode (Utf8.encode input) := by
  refine ⟨lenientBase64Decode_encodeAs, fun cs ds h => decodeSextets_inserted h 0 0, fun input => ?_⟩
  have hagree := decodeBase64From_eq input (⟨by simp, rfl⟩ : Agrees 0 0 0 0)
  exact hagree.symm

end Stackhour.Tracker
