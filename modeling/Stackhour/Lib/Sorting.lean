import Mathlib.Order.Lattice

/-!
# Sorting by a value

The stable sort of core by a value in a linear order.
-/

namespace Sorting

universe u v

variable {α : Type u} {τ : Type v} [LinearOrder τ] (value : α → τ)

/-- Not behind the other one. -/
def upTo (a b : α) : Bool := decide (value a ≤ value b)

theorem upTo_trans (a b c : α) (hab : upTo value a b = true) (hbc : upTo value b c = true) :
    upTo value a c = true :=
  decide_eq_true (le_trans (of_decide_eq_true hab) (of_decide_eq_true hbc))

theorem upTo_total (a b : α) : (upTo value a b || upTo value b a) = true := by
  rw [Bool.or_eq_true]
  exact (le_total (value a) (value b)).imp decide_eq_true decide_eq_true

theorem mergeSort_sorted (xs : List α) :
    (xs.mergeSort (upTo value)).Pairwise (fun a b => value a ≤ value b) :=
  (List.pairwise_mergeSort (upTo_trans value) (upTo_total value) xs).imp of_decide_eq_true

/-- Sorting leaves a part alone that is in order. -/
theorem filter_mergeSort {p : α → Bool} {xs : List α}
    (h : (xs.filter p).Pairwise (fun a b => value a ≤ value b)) :
    (xs.mergeSort (upTo value)).filter p = xs.filter p := by
  have hsub := (List.sublist_mergeSort (upTo_trans value) (upTo_total value)
    (h.imp decide_eq_true) List.filter_sublist).filter p
  have hself : (xs.filter p).filter p = xs.filter p :=
    List.filter_eq_self.mpr fun a ha => (List.mem_filter.mp ha).2
  rw [hself] at hsub
  exact (hsub.eq_of_length
    ((List.mergeSort_perm xs (upTo value)).filter p).length_eq.symm).symm

/-- Items of one value stay in the order they had. -/
theorem mergeSort_stable {R : α → α → Prop} {xs : List α} (h : xs.Pairwise R) :
    (xs.mergeSort (upTo value)).Pairwise
      (fun a b => value a < value b ∨ (value a = value b ∧ R a b)) := by
  have hpart : ∀ v, ((xs.mergeSort (upTo value)).filter fun a => decide (value a = v)).Pairwise
      R := by
    intro v
    rw [filter_mergeSort value]
    · exact h.filter _
    · refine List.Pairwise.imp_of_mem (R := fun _ _ => True) (fun ha hb _ => ?_)
        (List.pairwise_of_forall fun _ _ => trivial)
      have ha := of_decide_eq_true (List.mem_filter.mp ha).2
      have hb := of_decide_eq_true (List.mem_filter.mp hb).2
      exact le_of_eq (ha.trans hb.symm)
  have hsorted := mergeSort_sorted value xs
  generalize xs.mergeSort (upTo value) = ys at hpart hsorted
  induction ys with
  | nil => exact List.Pairwise.nil
  | cons a ys ih =>
      obtain ⟨hhead, hrest⟩ := List.pairwise_cons.mp hsorted
      refine List.pairwise_cons.mpr ⟨fun b hb => ?_, ih (fun v => ?_) hrest⟩
      · rcases lt_or_eq_of_le (hhead b hb) with hlt | heq
        · exact .inl hlt
        · have hown := hpart (value a)
          rw [List.filter_cons_of_pos (p := fun b => decide (value b = value a))
            (decide_eq_true rfl)] at hown
          exact .inr ⟨heq, (List.pairwise_cons.mp hown).1 b
            (List.mem_filter.mpr ⟨hb, decide_eq_true heq.symm⟩)⟩
      · exact (hpart v).sublist ((List.sublist_cons_self a ys).filter _)

end Sorting
