import Mathlib.Algebra.BigOperators.Group.List.Basic
import Mathlib.Algebra.GroupWithZero.Nat

/-!
# Greedy chunks

A list is cut where the next element would carry the chunk in hand over a limit.
No other cut within the limit has fewer pieces.
-/

namespace Chunks

universe u

variable {α : Type u} (width : α → ℕ) (max : ℕ)

def weight (xs : List α) : ℕ := (xs.map width).sum

theorem weight_append (xs ys : List α) :
    weight width (xs ++ ys) = weight width xs + weight width ys := by
  simp [weight]

/-- The loop, with the chunk in hand and its weight. -/
def cutFrom [DecidableEq α] (chunk : List α) (units : ℕ) : List α → List (List α)
  | [] => [chunk]
  | x :: xs =>
      if chunk ≠ [] ∧ max < units + width x then chunk :: cutFrom [x] (width x) xs
      else cutFrom (chunk ++ [x]) (units + width x) xs

/-- Chunks that are not empty, none of which could have taken the next element. -/
def Greedy : List (List α) → Prop
  | [] => True
  | c :: rest =>
      c ≠ [] ∧ (∀ x ∈ rest.flatten.head?, max < weight width c + width x) ∧ Greedy rest

variable {width max}

theorem weight_le_of_prefix {xs ys : List α} (h : xs <+: ys) :
    weight width xs ≤ weight width ys := by
  obtain ⟨zs, rfl⟩ := h
  rw [weight_append]
  exact Nat.le_add_right ..

section Cut

variable [DecidableEq α]

/-- Nothing is lost, added or moved. -/
theorem flatten_cutFrom (xs : List α) : ∀ (chunk : List α) (units : ℕ),
    (cutFrom width max chunk units xs).flatten = chunk ++ xs := by
  induction xs with
  | nil =>
      intro chunk units
      simp [cutFrom]
  | cons x xs ih =>
      intro chunk units
      unfold cutFrom
      split
      · rw [List.flatten_cons, ih]
        rfl
      · rw [ih, List.append_assoc]
        rfl

theorem weight_cutFrom (hmax : ∀ x : α, width x ≤ max) (xs : List α) :
    ∀ (chunk : List α), weight width chunk ≤ max →
      ∀ c ∈ cutFrom width max chunk (weight width chunk) xs, weight width c ≤ max := by
  induction xs with
  | nil =>
      intro chunk hchunk c hc
      rw [cutFrom, List.mem_singleton] at hc
      exact hc ▸ hchunk
  | cons x xs ih =>
      intro chunk hchunk c hc
      have hone : weight width [x] = width x := by simp [weight]
      unfold cutFrom at hc
      split at hc
      · rcases List.mem_cons.mp hc with rfl | hc
        · exact hchunk
        · rw [← hone] at hc
          exact ih [x] (hone ▸ hmax x) c hc
      · next hfits =>
        rw [← hone, ← weight_append] at hc
        apply ih (chunk ++ [x]) _ c hc
        rw [weight_append, hone]
        by_cases hempty : chunk = []
        · rw [hempty]
          simpa [weight] using hmax x
        · have hle : ¬ max < weight width chunk + width x := fun h => hfits ⟨hempty, h⟩
          omega

theorem greedy_cutFrom (xs : List α) : ∀ (chunk : List α), chunk ++ xs ≠ [] →
    Greedy width max (cutFrom width max chunk (weight width chunk) xs) := by
  induction xs with
  | nil =>
      intro chunk hne
      rw [List.append_nil] at hne
      exact ⟨hne, by simp, trivial⟩
  | cons x xs ih =>
      intro chunk hne
      have hone : weight width [x] = width x := by simp [weight]
      unfold cutFrom
      split
      · next hfull =>
        refine ⟨hfull.1, ?_, ?_⟩
        · intro y hy
          rw [flatten_cutFrom] at hy
          cases hy
          exact hfull.2
        · rw [← hone]
          exact ih [x] (by simp)
      · rw [← hone, ← weight_append]
        apply ih
        simp

end Cut

/-- A prefix within the limit of greedy chunks lies in the first of them. -/
theorem Greedy.prefix_le {c : List α} {rest : List (List α)} (h : Greedy width max (c :: rest))
    {q : List α} (hq : q <+: (c :: rest).flatten) (hle : weight width q ≤ max) : q <+: c := by
  rw [List.flatten_cons] at hq
  rcases List.prefix_or_prefix_of_prefix hq (List.prefix_append c rest.flatten) with hqc | hcq
  · exact hqc
  · obtain ⟨tail, rfl⟩ := hcq
    cases tail with
    | nil => simp
    | cons x tail =>
        exfalso
        have htail : x :: tail <+: rest.flatten := (List.prefix_append_right_inj c).mp hq
        obtain ⟨more, hmore⟩ := htail
        have hover := h.2.1 x (by rw [← hmore]; rfl)
        have hpart : weight width (c ++ [x]) ≤ weight width (c ++ x :: tail) :=
          weight_le_of_prefix ⟨tail, by simp⟩
        rw [weight_append] at hpart
        simp only [weight, List.map_cons, List.map_nil, List.sum_cons,
          List.sum_nil] at hpart hover hle
        omega

/-- **Greedy is fewest.** A list of pieces within the limit that ends like the
chunks has as many pieces: each piece uses up at most one chunk. -/
theorem Greedy.length_le (pieces : List (List α)) :
    ∀ (chunks : List (List α)) (before : List α), Greedy width max chunks →
      (∀ p ∈ pieces, weight width p ≤ max) → pieces.flatten = before ++ chunks.flatten →
      chunks.length ≤ pieces.length := by
  induction pieces with
  | nil =>
      intro chunks before hgreedy _ heq
      cases chunks with
      | nil => exact Nat.le_refl _
      | cons c rest =>
          have hempty : c = [] := by
            have := (List.append_eq_nil_iff.mp heq.symm).2
            rw [List.flatten_cons] at this
            exact (List.append_eq_nil_iff.mp this).1
          exact absurd hempty hgreedy.1
  | cons p ps ih =>
      intro chunks before hgreedy hle heq
      have hps : ∀ q ∈ ps, weight width q ≤ max := fun q hq => hle q (List.mem_cons_of_mem p hq)
      rw [List.flatten_cons] at heq
      rcases List.append_eq_append_iff.mp heq with ⟨left, hbefore, hrest⟩ | ⟨q, hp, hrest⟩
      -- the piece lies before the chunks
      · have hfewer := ih chunks left hgreedy hps hrest
        rw [List.length_cons]
        omega
      -- the piece takes `q` of them, all of it from the first chunk
      · cases chunks with
        | nil => exact Nat.zero_le _
        | cons c rest =>
            have hq : q <+: c := by
              apply hgreedy.prefix_le ⟨ps.flatten, hrest.symm⟩
              have hpiece := hle p List.mem_cons_self
              rw [hp, weight_append] at hpiece
              omega
            obtain ⟨tail, rfl⟩ := hq
            rw [List.flatten_cons, List.append_assoc] at hrest
            have hnext := List.append_cancel_left hrest
            exact Nat.succ_le_succ (ih rest tail hgreedy.2.2 hps hnext.symm)

end Chunks
