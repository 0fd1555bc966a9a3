import Mathlib.Data.List.Basic

/-!
# Precedence in a list

Some things must come before others. `Preceded R base l` says that every entry
of `l` comes after all its predecessors, except for those that are already
settled elsewhere. A queue that is read in order hands the property on to the
list of what was read: that is how an order kept by each link between two
parties becomes an order of what one of them receives over all links.
-/

namespace Precedence

universe u

variable {α : Type u}

/-- Before each entry of `l` stand its `R`-predecessors, unless `base` holds of
them. -/
def Preceded (R : α → α → Prop) (base : α → Prop) (l : List α) : Prop :=
  ∀ u y v, l = u ++ y :: v → ∀ x, R x y → x ∈ u ∨ base x

namespace Preceded

variable {R R' : α → α → Prop} {base base' : α → Prop} {l : List α}

theorem nil : Preceded R base [] := by
  intro u y v h
  simp at h

/-- An entry may follow once its predecessors are there. -/
theorem snoc (h : Preceded R base l) {y : α} (hy : ∀ x, R x y → x ∈ l ∨ base x) :
    Preceded R base (l ++ [y]) := by
  intro u z v heq x hx
  rcases List.eq_nil_or_concat v with rfl | ⟨w, e, rfl⟩
  · obtain ⟨rfl, hz⟩ := List.append_inj' heq rfl
    obtain rfl : y = z := List.singleton_inj.mp hz
    exact hy x hx
  · rw [List.concat_eq_append, ← List.cons_append, ← List.append_assoc] at heq
    obtain ⟨rfl, -⟩ := List.append_inj' heq rfl
    exact h u z w rfl x hx

/-- More may be settled, and no entry may gain predecessors. -/
theorem mono (h : Preceded R base l) (hR : ∀ y ∈ l, ∀ x, R' x y → R x y)
    (hbase : ∀ x, base x → base' x) : Preceded R' base' l := by
  intro u y v heq x hx
  have hy : y ∈ l := by
    rw [heq]
    simp
  exact (h u y v heq x (hR y hy x hx)).imp_right (hbase x)

/-- The predecessors of the entry at a position are before it. -/
theorem at_position (h : Preceded R base l) {p : ℕ} {y : α} (hy : l[p]? = some y) {x : α}
    (hx : R x y) : x ∈ l.take p ∨ base x := by
  obtain ⟨hlt, rfl⟩ := List.getElem?_eq_some_iff.mp hy
  exact h (l.take p) l[p] (l.drop (p + 1)) (by simp) x hx

/-- First occurrences are in order. -/
theorem idxOf_lt [DecidableEq α] (h : Preceded R (fun _ => False) l) {x y : α} (hxy : R x y)
    (hy : y ∈ l) : x ∈ l ∧ l.idxOf x < l.idxOf y := by
  have hlt := List.idxOf_lt_length_iff.mpr hy
  have hget : l[l.idxOf y]? = some y := by
    rw [List.getElem?_eq_getElem hlt, List.getElem_idxOf hlt]
  obtain hx | hx := h.at_position hget hxy
  · have hmem := List.mem_of_mem_take hx
    exact ⟨hmem, (List.mem_take_iff_idxOf_lt hmem).mp hx⟩
  · exact hx.elim

end Preceded

end Precedence
