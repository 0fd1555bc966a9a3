import Stackhour.Agent.Queue
import Stackhour.Core.JsonCompact
import Mathlib.Data.List.Induction
import Mathlib.Order.Bounds.Basic

/-!
# Batches of the queue

The running size of `take_send_batch` is the length of the array that the batch is sent
as, so the batch is the longest prefix of the queue that fits.
-/

namespace Stackhour.Agent

open Core

variable {Row : Type*} (S : Serde Row)

/-- The JSON array of a batch. -/
def batchText (rows : List Row) : List Char :=
  '[' :: [','].intercalate (rows.map S.print) ++ [']']

def batchLength (rows : List Row) : ℕ := (Utf8.encode (batchText S rows)).length

/-- The array is that of the rows as values. -/
theorem batchText_compact (ft : JsonGrammar.FloatText) {S : Serde Domain.Json}
    (hS : S.print = JsonGrammar.compact ft) (rows : List Domain.Json) :
    batchText S rows = JsonGrammar.compact ft (.array rows) := by
  unfold batchText
  rw [hS]
  cases rows with
  | nil => rfl
  | cons row rows =>
      have hitems : [','].intercalate ((row :: rows).map (JsonGrammar.compact ft)) =
          JsonGrammar.compact ft row ++ JsonGrammar.compactItems ft rows := by
        induction rows generalizing row with
        | nil => simp [JsonGrammar.compactItems]
        | cons next rows ih =>
            rw [List.map_cons, List.map_cons, List.intercalate_cons_cons, ← List.map_cons, ih next,
              JsonGrammar.compactItems, List.append_assoc]
            rfl
      rw [hitems, JsonGrammar.compact, List.cons_append]
      rfl

variable {S}

theorem batchLength_nil : batchLength S [] = 2 := rfl

/-- A row adds its bytes, and a comma if there are rows before it. -/
theorem batchLength_append (rows : List Row) (row : Row) : batchLength S (rows ++ [row]) =
    batchLength S rows + (rowBytes S row + if rows.length > 0 then 1 else 0) := by
  have hlength : ∀ cs : List Char, (Utf8.encode ('[' :: cs ++ [']'])).length =
      (Utf8.encode cs).length + 2 := by
    intro cs
    rw [Utf8.encode_append, List.length_append]
    show ((Utf8.encode ['[']) ++ Utf8.encode cs).length + 1 = _
    rw [List.length_append]
    show 1 + _ + 1 = _
    omega
  have hinner : (Utf8.encode ([','].intercalate ((rows ++ [row]).map S.print))).length =
      (Utf8.encode ([','].intercalate (rows.map S.print))).length +
        (rowBytes S row + if rows.length > 0 then 1 else 0) := by
    induction rows with
    | nil => simp [rowBytes, Utf8.encode]
    | cons first rows ih =>
        cases rows with
        | nil =>
            simp only [List.map_cons, List.map_nil, List.cons_append, List.nil_append,
              List.intercalate_cons_cons, List.intercalate_singleton, Utf8.encode_append,
              List.length_append]
            show _ + 1 + _ = _ + (rowBytes S row + 1)
            unfold rowBytes
            omega
        | cons second rows =>
            rw [List.cons_append, List.cons_append, List.map_cons, List.map_cons,
              List.intercalate_cons_cons, List.map_cons, List.map_cons, List.intercalate_cons_cons]
            simp only [Utf8.encode_append, List.length_append]
            rw [← List.map_cons, ← List.cons_append, ih, ← List.map_cons]
            simp only [List.length_cons, gt_iff_lt, Nat.zero_lt_succ, if_true]
            omega
  unfold batchLength batchText
  rw [hlength, hlength, hinner]
  omega

theorem batchLength_mono (rows more : List Row) :
    batchLength S rows ≤ batchLength S (rows ++ more) := by
  induction more using List.reverseRecOn with
  | nil => rw [List.append_nil]
  | append_singleton more row ih =>
      rw [← List.append_assoc, batchLength_append]
      omega

theorem batchLength_take_mono (rows : List Row) {m n : ℕ} (h : m ≤ n) :
    batchLength S (rows.take m) ≤ batchLength S (rows.take n) := by
  obtain ⟨more, hmore⟩ := List.take_prefix_take_left h (l := rows)
  rw [← hmore]
  exact batchLength_mono _ _

/-- The loop goes on from a batch that fits, or from one row: by induction on the rest, it stops
where the next row does not fit. -/
theorem takeSendBatchFrom_fits (budget : ℕ) (taken rest : List Row)
    (htaken : batchLength S taken ≤ budget ∨ taken.length ≤ 1) :
    ∃ more left, rest = more ++ left ∧
      takeSendBatchFrom S budget taken.length (batchLength S taken) rest =
        (taken ++ more).length ∧
      (batchLength S (taken ++ more) ≤ budget ∨ (taken ++ more).length ≤ 1) ∧
      ∀ row ∈ left.head?, taken ++ more ≠ [] ∧ budget < batchLength S (taken ++ more ++ [row]) := by
  induction rest generalizing taken with
  | nil => exact ⟨[], [], rfl, by simp [takeSendBatchFrom], by simpa using htaken, nofun⟩
  | cons row rest ih =>
      unfold takeSendBatchFrom
      dsimp only
      rw [← Nat.add_assoc, Nat.add_assoc, ← batchLength_append]
      split
      · next hstop =>
          refine ⟨[], row :: rest, rfl, by simp, by simpa using htaken, fun row' hrow => ?_⟩
          obtain rfl := Option.some.inj hrow
          rw [List.append_nil]
          exact ⟨List.ne_nil_of_length_pos hstop.1, hstop.2⟩
      · next hgo =>
          have hnext : batchLength S (taken ++ [row]) ≤ budget ∨ (taken ++ [row]).length ≤ 1 := by
            rw [List.length_append, List.length_singleton]
            omega
          obtain ⟨more, left, hrest, hcount, hfits, hstop⟩ := ih (taken ++ [row]) hnext
          rw [List.length_append, List.length_singleton] at hcount
          rw [List.append_assoc] at hcount hfits hstop
          exact ⟨row :: more, left, by rw [hrest, List.cons_append], hcount, hfits, hstop⟩

/-- The prefixes of the queue that fit. -/
def Fitting (S : Serde Row) (pending : List Row) (budget : ℕ) : Set ℕ :=
  {n | n ≤ pending.length ∧ batchLength S (pending.take n) ≤ budget}

/-- What is sent after some batches were confirmed. -/
def drained (S : Serde Row) (budget : ℕ) (pending : List Row) : ℕ → List Row
  | 0 => pending
  | n + 1 => drained S budget (pending.drop (takeSendBatch S pending budget)) n

/-- Every batch takes a row away, so the queue is drained, by induction on a bound of its length. -/
theorem drained_nil (S : Serde Row) (budget : ℕ) {pending : List Row} {n : ℕ}
    (h : pending.length ≤ n) : drained S budget pending n = [] := by
  induction n generalizing pending with
  | zero => exact List.length_eq_zero_iff.mp (Nat.le_zero.mp h)
  | succ n ih =>
      refine ih ?_
      rw [List.length_drop]
      cases pending with
      | nil => exact Nat.zero_le n
      | cons row rest =>
          have hpos := takeSendBatch_pos (S := S) (List.cons_ne_nil row rest) budget
          omega

/-- **The batch is the longest prefix that fits**, unless the first row alone does not, or there
are no rows and no room for the brackets. -/
theorem takeSendBatch_longest (S : Serde Row) (pending : List Row) (budget : ℕ) :
    (if pending = [] ∧ budget < 2 then takeSendBatch S pending budget = 0
      else if pending ≠ [] ∧ budget < batchLength S (pending.take 1) then
        takeSendBatch S pending budget = 1
      else IsGreatest (Fitting S pending budget) (takeSendBatch S pending budget)) ∧
      (2 ≤ takeSendBatch S pending budget →
        batchLength S (pending.take (takeSendBatch S pending budget)) ≤ budget) ∧
      drained S budget pending pending.length = [] := by
  obtain ⟨batch, left, hpending, hcount, hfits, hstop⟩ :=
    takeSendBatchFrom_fits (S := S) budget [] pending (.inr (Nat.zero_le 1))
  rw [List.nil_append] at hcount hfits hstop
  have hsize : takeSendBatch S pending budget = batch.length := hcount
  have htake : pending.take batch.length = batch := by
    rw [hpending]
    exact List.take_left
  have hbound : batch.length ≤ pending.length := by
    rw [hpending, List.length_append]
    exact Nat.le_add_right _ _
  rw [hsize, htake]
  refine ⟨?_, fun htwo => hfits.resolve_right (by omega), drained_nil S budget (le_refl _)⟩
  split
  · next hempty =>
      rw [hempty.1] at hbound
      exact Nat.le_zero.mp hbound
  · next hroom =>
      split
      · next hlarge =>
          have hpos := takeSendBatch_pos (S := S) hlarge.1 budget
          have hone := batchLength_take_mono (S := S) pending (hsize ▸ hpos)
          rw [htake] at hone
          have hmost := hfits.resolve_left (by omega)
          omega
      · next hsmall =>
          have hone : batchLength S (pending.take 1) ≤ budget := by
            by_cases hpending : pending = []
            · rw [hpending, List.take_nil, batchLength_nil]
              exact not_lt.mp fun hlt => hroom ⟨hpending, hlt⟩
            · exact not_lt.mp fun hlt => hsmall ⟨hpending, hlt⟩
          constructor
          · refine ⟨hbound, ?_⟩
            rcases hfits with hfits | hmost
            · rwa [htake]
            · exact (batchLength_take_mono pending hmost).trans hone
          · rintro m ⟨hm, hmfits⟩
            by_contra hlonger
            -- the next row would fit too
            cases left with
            | nil =>
                rw [hpending, List.append_nil] at hm
                exact hlonger hm
            | cons row left =>
                have hnext : pending.take (batch.length + 1) = batch ++ [row] := by
                  rw [hpending, List.take_length_add_append]
                  rfl
                have hmono := batchLength_take_mono (S := S) pending (not_le.mp hlonger)
                rw [Nat.succ_eq_add_one, hnext] at hmono
                have hlarge := (hstop row rfl).2
                omega

/-- Rows that are nothing but themselves. -/
def nullSerde : Serde Unit := ⟨fun _ => "null".toList, fun _ => some ()⟩

/-- Without rows nothing is taken, also where not even the brackets fit. -/
theorem takeSendBatch_empty : takeSendBatch nullSerde [] 0 = 0 ∧
    ¬ (IsGreatest (Fitting nullSerde [] 0) (takeSendBatch nullSerde [] 0) ∨
      (([] : List Unit) ≠ [] ∧ takeSendBatch nullSerde [] 0 = 1)) := by
  refine ⟨rfl, ?_⟩
  rintro (hlongest | ⟨hrows, -⟩)
  · exact absurd hlongest.1.2 (by decide)
  · exact hrows rfl

end Stackhour.Agent
