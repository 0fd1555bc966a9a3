import Mathlib.Data.List.Basic

/-!
# Lines

A text is split at its newlines; all parts but the last are complete lines. What
is appended leaves the complete lines as they are.
-/

namespace Lines

universe u

variable {α : Type u} {sep : α}

/-- The text ends at a line. -/
def Whole (sep : α) (xs : List α) : Prop := xs = [] ∨ ∃ ys, xs = ys ++ [sep]

theorem Whole.append {xs ys : List α} (h : Whole sep xs) (h' : Whole sep ys) :
    Whole sep (xs ++ ys) := by
  rcases h' with rfl | ⟨zs, rfl⟩
  · rwa [List.append_nil]
  · exact .inr ⟨xs ++ zs, (List.append_assoc ..).symm⟩

variable [BEq α]

/-- The lines that a separator ends. -/
def complete (sep : α) (xs : List α) : List (List α) := (xs.splitOn sep).dropLast

/-- What no separator ends. -/
def rest (sep : α) (xs : List α) : List α := (xs.splitOn sep).getLastD []

theorem complete_nil : complete sep ([] : List α) = [] := rfl

theorem splitOn_eq (xs : List α) : xs.splitOn sep = complete sep xs ++ [rest sep xs] := by
  have hne : xs.splitOn sep ≠ [] := List.splitOn_ne_nil sep xs
  have hlast : rest sep xs = (xs.splitOn sep).getLast hne := by
    unfold rest
    rw [List.getLastD_eq_getLast?, List.getLast?_eq_some_getLast hne]
    rfl
  rw [hlast]
  exact (List.dropLast_append_getLast hne).symm

variable [LawfulBEq α]

/-- A line is complete once the separator comes. -/
theorem complete_append_cons (xs ys : List α) :
    complete sep (xs ++ sep :: ys) = xs.splitOn sep ++ complete sep ys := by
  unfold complete
  rw [List.splitOn_append_cons_self, List.dropLast_append_of_ne_nil (List.splitOn_ne_nil sep ys)]

theorem rest_append_cons (xs ys : List α) : rest sep (xs ++ sep :: ys) = rest sep ys := by
  have h : (xs ++ sep :: ys).splitOn sep = _ := splitOn_eq _
  rw [List.splitOn_append_cons_self, complete_append_cons, List.append_assoc,
    splitOn_eq ys] at h
  have h := List.append_cancel_left (List.append_cancel_left h)
  exact (List.singleton_inj.mp h).symm

/-- Without a separator there is no complete line. -/
theorem complete_of_not_mem {xs : List α} (h : sep ∉ xs) : complete sep xs = [] := by
  unfold complete
  rw [List.splitOn_eq_singleton h]
  rfl

/-- A text is its complete lines and a rest without separators. -/
theorem split_rest (xs : List α) : ∃ ys, Whole sep ys ∧ sep ∉ rest sep xs ∧
    xs = ys ++ rest sep xs ∧ complete sep ys = complete sep xs := by
  induction hn : xs.length using Nat.strongRecOn generalizing xs with
  | ind n ih =>
      by_cases hmem : sep ∈ xs
      · obtain ⟨as, bs, rfl, -⟩ := List.eq_append_cons_of_mem hmem
        have hlt : bs.length < n := by
          rw [← hn, List.length_append, List.length_cons]
          omega
        obtain ⟨ys, hwhole, hrest, heq, hcomplete⟩ := ih _ hlt bs rfl
        refine ⟨as ++ sep :: ys, .inr ?_, ?_, ?_, ?_⟩
        · rcases hwhole with rfl | ⟨zs, rfl⟩
          · exact ⟨as, rfl⟩
          · exact ⟨as ++ sep :: zs, by simp⟩
        · rwa [rest_append_cons]
        · rw [rest_append_cons, List.append_assoc, List.cons_append, ← heq]
        · rw [complete_append_cons, complete_append_cons, hcomplete]
      · refine ⟨[], .inl rfl, ?_, ?_, ?_⟩
        · unfold rest
          rwa [List.splitOn_eq_singleton hmem]
        · unfold rest
          rw [List.splitOn_eq_singleton hmem]
          rfl
        · rw [complete_of_not_mem hmem]
          rfl

/-- Lines appended to whole lines. -/
theorem complete_append {xs : List α} (h : Whole sep xs) (ys : List α) :
    complete sep (xs ++ ys) = complete sep xs ++ complete sep ys := by
  rcases h with rfl | ⟨zs, rfl⟩
  · rfl
  · rw [List.append_assoc, List.singleton_append, complete_append_cons, complete_append_cons,
      complete_nil, List.append_nil]

theorem rest_append {xs : List α} (h : Whole sep xs) (ys : List α) :
    rest sep (xs ++ ys) = rest sep ys := by
  rcases h with rfl | ⟨zs, rfl⟩
  · rfl
  · rw [List.append_assoc, List.singleton_append, rest_append_cons]

/-- What has no separator goes on the last part. -/
theorem splitOn_append {ys : List α} (h : sep ∉ ys) (xs : List α) :
    (xs ++ ys).splitOn sep = complete sep xs ++ [rest sep xs ++ ys] := by
  obtain ⟨zs, hwhole, hrest, heq, hcomplete⟩ :
      ∃ zs, Whole sep zs ∧ sep ∉ rest sep xs ∧ xs = zs ++ rest sep xs ∧ _ := split_rest xs
  have hlast : sep ∉ rest sep xs ++ ys := by
    rw [List.mem_append, not_or]
    exact ⟨hrest, h⟩
  have hlastrest : rest sep (rest sep xs ++ ys) = rest sep xs ++ ys := by
    have hsplit : (rest sep xs ++ ys).splitOn sep = _ := splitOn_eq _
    rw [List.splitOn_eq_singleton hlast, complete_of_not_mem hlast] at hsplit
    exact (List.singleton_inj.mp hsplit).symm
  calc (xs ++ ys).splitOn sep = (zs ++ (rest sep xs ++ ys)).splitOn sep := by
        rw [← List.append_assoc, ← heq]
    _ = complete sep (zs ++ (rest sep xs ++ ys)) ++ [rest sep (zs ++ (rest sep xs ++ ys))] :=
        splitOn_eq _
    _ = complete sep xs ++ [rest sep xs ++ ys] := by
        rw [complete_append hwhole, rest_append hwhole, complete_of_not_mem hlast, hlastrest,
          List.append_nil, hcomplete]

/-- Separators at the end add empty parts. -/
theorem mem_splitOn_replicate {xs part : List α} {n : ℕ}
    (h : part ∈ (xs ++ List.replicate n sep).splitOn sep) : part ∈ xs.splitOn sep ∨ part = [] := by
  induction n generalizing xs with
  | zero =>
      rw [List.replicate_zero, List.append_nil] at h
      exact .inl h
  | succ n ih =>
      rw [List.replicate_succ, List.splitOn_append_cons_self, List.mem_append] at h
      rcases h with h | h
      · exact .inl h
      · rw [← List.nil_append (List.replicate n sep)] at h
        exact .inr ((ih h).elim List.mem_singleton.mp id)

/-- Complete lines stay whatever is appended. -/
theorem complete_prefix (xs ys : List α) : complete sep xs <+: complete sep (xs ++ ys) := by
  obtain ⟨zs, hwhole, -, heq, hcomplete⟩ :
      ∃ zs, Whole sep zs ∧ sep ∉ rest sep xs ∧ xs = zs ++ rest sep xs ∧ _ := split_rest xs
  have happend : complete sep (xs ++ ys) = complete sep xs ++ complete sep (rest sep xs ++ ys) := by
    conv_lhs => rw [heq, List.append_assoc, complete_append hwhole, hcomplete]
  rw [happend]
  exact List.prefix_append _ _

end Lines
