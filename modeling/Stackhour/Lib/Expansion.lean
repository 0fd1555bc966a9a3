import Mathlib.Data.List.Infix

/-!
# Expansion from the left

A text is read from the left; at every place a rule keeps the character there, or
replaces what begins there, or finds it invalid. What is put in is not read again.
-/

namespace Expansion

universe u

variable {α : Type u}

/-- What a rule does with a text that begins at some place; a replacement takes
the first character and `more` that follow. -/
inductive Verdict (α : Type u) where
  | keep
  | replace (out : List α) (more : ℕ)
  | invalid

/-- The expansion, where `skip` characters of the last replacement are still to be
passed over. -/
def expandFrom (rule : List α → Verdict α) : ℕ → List α → Option (List α)
  | _, [] => some []
  | skip + 1, _ :: cs => expandFrom rule skip cs
  | 0, c :: cs =>
      match rule (c :: cs) with
      | .keep => (expandFrom rule 0 cs).map (c :: ·)
      | .replace out more => (expandFrom rule more cs).map (out ++ ·)
      | .invalid => none

def expand (rule : List α → Verdict α) (s : List α) : Option (List α) := expandFrom rule 0 s

variable {rule : List α → Verdict α} {s t : List α}

/-- The rule keeps every character. -/
def Keeps (rule : List α → Verdict α) (s : List α) : Prop :=
  ∀ t, t <:+ s → t ≠ [] → rule t = .keep

theorem keeps_cons {c : α} : Keeps rule (c :: s) ↔ rule (c :: s) = .keep ∧ Keeps rule s := by
  constructor
  · exact fun h => ⟨h _ List.suffix_rfl (List.cons_ne_nil _ _),
      fun t ht => h t (ht.trans (List.suffix_cons _ _))⟩
  · rintro ⟨hfirst, hrest⟩ t ht hne
    rcases List.suffix_cons_iff.mp ht with rfl | hsuffix
    · exact hfirst
    · exact hrest t hsuffix hne

theorem Keeps.expand (h : Keeps rule s) : expand rule s = some s := by
  unfold Expansion.expand
  induction s with
  | nil => rfl
  | cons c s ih =>
      obtain ⟨hfirst, hrest⟩ := keeps_cons.mp h
      rw [expandFrom, hfirst, ih hrest]
      rfl

/-- What is put in is shorter than what it replaces. -/
def Shrinks (rule : List α → Verdict α) : Prop :=
  ∀ s out more, rule s = .replace out more → out.length ≤ more ∧ more < s.length

theorem Shrinks.length_le (hrule : Shrinks rule) {skip : ℕ} (hskip : skip ≤ s.length)
    (h : expandFrom rule skip s = some t) : t.length + skip ≤ s.length := by
  induction s generalizing skip t with
  | nil =>
      cases h
      simpa using hskip
  | cons c s ih =>
      rw [List.length_cons] at hskip ⊢
      cases skip with
      | succ skip =>
          have hlength := ih (Nat.le_of_succ_le_succ hskip) h
          omega
      | zero =>
          rw [expandFrom] at h
          split at h
          · obtain ⟨u, hu, rfl⟩ := Option.map_eq_some_iff.mp h
            have hlength := ih (Nat.zero_le _) hu
            rw [List.length_cons]
            omega
          · next out more hreplace =>
              obtain ⟨u, hu, rfl⟩ := Option.map_eq_some_iff.mp h
              obtain ⟨hout, hmore⟩ := hrule _ _ _ hreplace
              have hlength := ih (Nat.le_of_lt_succ hmore) hu
              rw [List.length_append]
              omega
          · cases h

/-- A text is kept if its expansion is not shorter. -/
theorem Shrinks.keeps (hrule : Shrinks rule) (h : expand rule s = some t)
    (hlong : s.length ≤ t.length) : Keeps rule s := by
  unfold Expansion.expand at h
  induction s generalizing t with
  | nil => exact fun t ht hne => absurd (List.suffix_nil.mp ht) hne
  | cons c s ih =>
      rw [expandFrom] at h
      split at h
      · next hkeep =>
          obtain ⟨u, hu, rfl⟩ := Option.map_eq_some_iff.mp h
          exact keeps_cons.mpr ⟨hkeep, ih hu (Nat.le_of_succ_le_succ hlong)⟩
      · next out more hreplace =>
          obtain ⟨u, hu, rfl⟩ := Option.map_eq_some_iff.mp h
          obtain ⟨hout, hmore⟩ := hrule _ _ _ hreplace
          have hlength := hrule.length_le (Nat.le_of_lt_succ hmore) hu
          rw [List.length_append, List.length_cons] at hlong
          omega
      · cases h

/-- **A text is its own expansion if and only if the rule keeps all of it.** -/
theorem Shrinks.expand_eq_self (hrule : Shrinks rule) : expand rule s = some s ↔ Keeps rule s :=
  ⟨fun h => hrule.keeps h (Nat.le_refl _), Keeps.expand⟩

end Expansion
