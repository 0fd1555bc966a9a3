import Mathlib.Data.List.Sort
import Mathlib.Data.List.Range
import Mathlib.Tactic.Ring

/-!
# Gapless numbering

A list of rows numbered `1, 2, …, n` in order. The next number is the largest
one plus one, the rows above a cursor are a suffix, and a feed that hands out
consecutive numbers after a cursor neither skips nor repeats a row.
-/

namespace Numbering

/-- The numbers `a + 1, …, a + n`. -/
def after (a : ℤ) (n : ℕ) : List ℤ := (List.range n).map (fun i : ℕ => a + 1 + (i : ℤ))

/-- The list is `1, …, n` for its own length `n`. -/
def Gapless (xs : List ℤ) : Prop := xs = after 0 xs.length

@[simp] theorem after_length (a : ℤ) (n : ℕ) : (after a n).length = n := by
  simp [after]

@[simp] theorem after_zero (a : ℤ) : after a 0 = [] := rfl

theorem after_succ (a : ℤ) (n : ℕ) : after a (n + 1) = after a n ++ [a + 1 + n] := by
  simp [after, List.range_succ]

theorem mem_after {a x : ℤ} {n : ℕ} : x ∈ after a n ↔ a < x ∧ x ≤ a + n := by
  unfold after
  rw [List.mem_map]
  constructor
  · rintro ⟨i, hi, rfl⟩
    have := List.mem_range.mp hi
    omega
  · rintro ⟨h1, h2⟩
    refine ⟨(x - a - 1).toNat, List.mem_range.mpr ?_, ?_⟩ <;> omega

theorem after_append (a : ℤ) (m n : ℕ) :
    after a m ++ after (a + m) n = after a (m + n) := by
  induction n with
  | zero => simp
  | succ n ih =>
      rw [after_succ, ← List.append_assoc, ih, ← Nat.add_assoc, after_succ]
      congr 2
      push_cast
      ring

theorem after_pairwise (a : ℤ) (n : ℕ) : (after a n).Pairwise (· < ·) := by
  induction n with
  | zero => exact List.Pairwise.nil
  | succ n ih =>
      rw [after_succ, List.pairwise_append]
      refine ⟨ih, List.pairwise_singleton _ _, ?_⟩
      intro x hx y hy
      have := (mem_after.mp hx).2
      rw [List.mem_singleton] at hy
      omega

/-! ## Gapless lists -/

theorem gapless_nil : Gapless [] := rfl

theorem Gapless.snoc {xs : List ℤ} (h : Gapless xs) :
    Gapless (xs ++ [(xs.length : ℤ) + 1]) := by
  unfold Gapless at h ⊢
  rw [List.length_append, List.length_singleton, after_succ, ← h]
  congr 2
  ring

theorem Gapless.mem_iff {xs : List ℤ} (h : Gapless xs) {x : ℤ} :
    x ∈ xs ↔ 0 < x ∧ x ≤ xs.length := by
  rw [h, mem_after, after_length, zero_add]

theorem Gapless.pairwise {xs : List ℤ} (h : Gapless xs) : xs.Pairwise (· < ·) := by
  rw [h]
  exact after_pairwise _ _

theorem Gapless.nodup {xs : List ℤ} (h : Gapless xs) : xs.Nodup :=
  h.pairwise.imp fun hab => ne_of_lt hab

/-- `COALESCE(MAX(sequence), 0)` over a gapless list is its length. -/
theorem Gapless.max {xs : List ℤ} (h : Gapless xs) :
    xs.max?.getD 0 = xs.length := by
  cases hx : xs.max? with
  | none =>
      rw [List.max?_eq_none_iff] at hx
      subst hx
      rfl
  | some m =>
      obtain ⟨hm, hle⟩ := List.max?_eq_some_iff.mp hx
      have hmb := h.mem_iff.mp hm
      have hlast : (xs.length : ℤ) ∈ xs := h.mem_iff.mpr ⟨by omega, le_refl _⟩
      have := hle _ hlast
      simp only [Option.getD_some]
      omega

/-! ## Rows with gapless numbers -/

variable {ρ : Type*} {num : ρ → ℤ}

/-- The rows numbered above a cursor are the rows after the cursor's position. -/
theorem filter_gt_eq_drop {t : List ρ} {a : ℤ} {k : ℕ}
    (h : t.map num = after a t.length) :
    t.filter (fun r => decide (a + k < num r)) = t.drop k := by
  induction t using List.reverseRecOn with
  | nil => simp
  | append_singleton t r ih =>
      rw [List.map_append, List.length_append, List.length_singleton, after_succ] at h
      obtain ⟨ht, hr⟩ := List.append_inj' h rfl
      rw [List.map_singleton, List.singleton_inj] at hr
      rw [List.filter_append, ih ht]
      by_cases hk : k ≤ t.length
      · rw [List.drop_append_of_le_length hk]
        congr 1
        have : a + (k : ℤ) < num r := by omega
        simp [this]
      · have hlt : ¬ a + (k : ℤ) < num r := by omega
        rw [List.drop_eq_nil_of_le (by omega), List.drop_eq_nil_of_le (by simp; omega)]
        simp [hlt]

/-- The numbers of a suffix of gapless rows continue after the cursor. -/
theorem map_drop_eq_after {t : List ρ} (h : Gapless (t.map num)) (k : ℕ)
    (hk : k ≤ t.length) :
    (t.drop k).map num = after k (t.length - k) := by
  have hsplit : after 0 k ++ after k (t.length - k) = t.map num := by
    have := after_append 0 k (t.length - k)
    rw [zero_add, Nat.add_sub_cancel' hk] at this
    rw [this]
    unfold Gapless at h
    rw [List.length_map] at h
    exact h.symm
  rw [List.map_drop, ← hsplit, List.drop_append_of_le_length (by simp), List.drop_eq_nil_of_le (by simp)]
  rfl

end Numbering
