import Mathlib.Algebra.Order.Group.Defs
import Mathlib.Data.List.SplitBy

/-!
# Runs

A list is split into runs where two neighbours are not near each other. A loop that keeps a
summary of the open run makes the summaries of these runs; in a list in order of time the runs
are apart from each other by more than the gap that splits them.
-/

namespace Runs

universe u v w

variable {α : Type u} {σ : Type v}

/-! ## A loop over runs -/

/-- The summaries that are closed, and the open one. -/
def closed (st : List σ × Option σ) : List σ := st.1 ++ st.2.toList

/-- **The loop rule.** A step opens a run with its first item, extends the open run by an item
that is near its last one, and closes it before any other. -/
theorem fold_eq {near : α → α → Bool} {summary : List α → σ}
    {step : List σ × Option σ → α → List σ × Option σ}
    (hfirst : ∀ done a, step (done, none) a = (done, some (summary [a])))
    (hnext : ∀ done run a b, step (done, some (summary (run ++ [a]))) b =
      if near a b = true then (done, some (summary (run ++ [a] ++ [b])))
      else (done ++ [summary (run ++ [a])], some (summary [b])))
    (xs : List α) : closed (xs.foldl step ([], none)) = (xs.splitBy near).map summary := by
  -- the loop of `splitBy` keeps the open run and the closed ones in reverse
  have hloop : ∀ (rest : List α) (a : α) (run : List α) (done : List (List α)),
      closed (rest.foldl step (done.reverse.map summary, some (summary (run.reverse ++ [a])))) =
        (List.splitBy.loop near rest a run done).map summary := by
    intro rest
    induction rest with
    | nil =>
        intro a run done
        simp [closed, List.splitBy.loop]
    | cons b rest ih =>
        intro a run done
        rw [List.foldl_cons, hnext, List.splitBy.loop]
        cases near a b with
        | true => simpa using ih b (a :: run) done
        | false => simpa using ih b [] ((a :: run).reverse :: done)
  cases xs with
  | nil => rfl
  | cons a rest =>
      rw [List.foldl_cons, hfirst]
      exact hloop rest a [] []

/-! ## Runs in order of time -/

variable {τ : Type w} [LinearOrder τ] {time : α → τ}

theorem first_le {r : List α} (h : r.Pairwise (fun a b => time a ≤ time b)) (hr : r ≠ []) {a : α}
    (ha : a ∈ r) : time (r.head hr) ≤ time a :=
  h.rel_head_of_rel_head_head ha (le_refl _)

theorem le_last {r : List α} (h : r.Pairwise (fun a b => time a ≤ time b)) (hr : r ≠ []) {a : α}
    (ha : a ∈ r) : time a ≤ time (r.getLast hr) :=
  h.rel_getLast_of_rel_getLast_getLast ha (le_refl _)

/-- Each run is in order of time. -/
theorem splitBy_ordered {xs : List α} (h : xs.Pairwise (fun a b => time a ≤ time b))
    (near : α → α → Bool) : ∀ r ∈ xs.splitBy near, r.Pairwise (fun a b => time a ≤ time b) := by
  rw [← List.flatten_splitBy near xs, List.pairwise_flatten] at h
  exact h.1

variable [AddCommGroup τ] [IsOrderedAddMonoid τ]

/-- Not more than the gap apart. -/
def near (time : α → τ) (gap : τ) (a b : α) : Bool := decide (time b - time a ≤ gap)

/-- Every item of the one is more than the gap before every item of the other. -/
def Apart (time : α → τ) (gap : τ) (r s : List α) : Prop :=
  ∀ a ∈ r, ∀ b ∈ s, time a + gap < time b

variable {gap : τ}

/-- Runs that are in order are apart if each is apart from the next. -/
theorem pairwise_apart {rs : List (List α)}
    (hrun : ∀ r ∈ rs, r.Pairwise (fun a b => time a ≤ time b))
    (horder : rs.Pairwise (fun r s => ∀ a ∈ r, ∀ b ∈ s, time a ≤ time b))
    (hchain : rs.IsChain (fun r s => ∃ hr hs, near time gap (r.getLast hr) (s.head hs) = false)) :
    rs.Pairwise (Apart time gap) := by
  induction rs with
  | nil => exact List.Pairwise.nil
  | cons r rest ih =>
      obtain ⟨hlater, hrest⟩ := List.pairwise_cons.mp horder
      have ih := ih (fun s hs => hrun s (List.mem_cons_of_mem r hs)) hrest hchain.tail
      refine List.pairwise_cons.mpr ⟨fun s hs a ha b hb => ?_, ih⟩
      cases rest with
      | nil => cases hs
      | cons t rest =>
          obtain ⟨⟨hr, ht, hfar⟩, -⟩ := List.isChain_cons_cons.mp hchain
          have hlast := le_last (hrun r List.mem_cons_self) hr ha
          have hhead : time (t.head ht) ≤ time b := by
            rcases List.mem_cons.mp hs with rfl | hs
            · exact first_le (hrun s (List.mem_cons_of_mem r List.mem_cons_self)) ht hb
            · exact (List.pairwise_cons.mp hrest).1 s hs _ (List.head_mem ht) b hb
          have hfar := not_le.mp (of_decide_eq_false hfar)
          calc time a + gap ≤ time (r.getLast hr) + gap := by gcongr
            _ < time (t.head ht) := lt_sub_iff_add_lt'.mp hfar
            _ ≤ time b := hhead

/-- **The runs of a list in order of time are apart**, whichever two of them are taken. -/
theorem splitBy_apart {xs : List α} (h : xs.Pairwise (fun a b => time a ≤ time b)) :
    (xs.splitBy (near time gap)).Pairwise (Apart time gap) := by
  have hflatten := List.flatten_splitBy (near time gap) xs
  rw [← hflatten, List.pairwise_flatten] at h
  exact pairwise_apart h.1 h.2 (List.isChain_getLast_head_splitBy (near time gap) xs)

end Runs
