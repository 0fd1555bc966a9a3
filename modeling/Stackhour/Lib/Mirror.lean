import Mathlib.Logic.Function.Basic

/-!
# A copy kept by delayed writers

A value, a copy of it elsewhere, and writers that bring the copy up to date some
time after they changed the value. The copy may lag, and writes may overtake
each other. If every write that lands is right, or comes before a right one that
another writer still owes, a copy that no writer owes a write agrees with the
value.
-/

namespace Mirroring

universe u v

/-- `owed i` is what the writer `i` is still to write. -/
structure Mirror (ι : Type u) (α : Type v) where
  truth : α
  copy : α
  owed : ι → Option α

variable {ι : Type u} {α : Type v}

/-- The copy is right, or a right write is on its way. -/
def Converging (m : Mirror ι α) : Prop :=
  m.copy = m.truth ∨ ∃ i, m.owed i = some m.truth

/-- What can happen: whatever changes, some writer owes the copy a right write; a
write lands while it is right; or nothing that matters changes. -/
inductive Move (m m' : Mirror ι α) : Prop where
  | owe (i : ι) (owed : m'.owed i = some m'.truth)
  | write (copy : m'.copy = m'.truth)
  | keep (truth : m'.truth = m.truth) (copy : m'.copy = m.copy)
      (owed : ∀ i, m.owed i = some m.truth → m'.owed i = some m.truth)

theorem Move.refl (m : Mirror ι α) : Move m m := .keep rfl rfl fun _ h => h

/-- **One move.** -/
theorem Move.converging {m m' : Mirror ι α} (h : Move m m') (hc : Converging m) :
    Converging m' := by
  cases h with
  | owe i owed => exact .inr ⟨i, owed⟩
  | write copy => exact .inl copy
  | keep truth copy owed =>
      rcases hc with heq | ⟨i, hi⟩
      · exact .inl ((copy.trans heq).trans truth.symm)
      · exact .inr ⟨i, (owed i hi).trans (congrArg some truth.symm)⟩

/-- **Agreement at rest.** -/
theorem Converging.agree {m : Mirror ι α} (hc : Converging m) (hrest : ∀ i, m.owed i = none) :
    m.copy = m.truth := by
  rcases hc with heq | ⟨i, hi⟩
  · exact heq
  · rw [hrest i] at hi
    cases hi

end Mirroring
