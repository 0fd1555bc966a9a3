import Stackhour.Lib.Transaction
import Stackhour.Tracker.Heartbeats

/-!
# Batches of heartbeats

`insert_heartbeats` operation by operation, each of which may fail, and what any sequence
of batches leaves in the table: the keys of the accepted rows, in whatever order and
however often they come.
-/

namespace Stackhour.Tracker

open Core Domain Transaction

/-- A call of `insert_heartbeats`, with the operations that fail in it; those of the inserts
are by the place of the row. -/
structure Batch where
  now : F64
  rows : List Json
  begins : Option Fault
  prepares : Option Fault
  inserts : ℕ → Option Fault
  commits : Option Fault

variable (fl : Floats)

/-- The loop over the rows from place `i` on. -/
def insertLoop (now : F64) (inserts : ℕ → Option Fault) :
    ℕ → Connection Heartbeats → List Json → Outcome Heartbeats ℕ
  | _, c, [] => (c, .ok 0)
  | i, c, row :: rest =>
      match finiteTime fl row with
      | none => insertLoop now inserts (i + 1) c rest
      | some time =>
          (c.execute (fun t => t.insertOrIgnore (heartbeat fl now row time)) (inserts i)).andThen
            fun c changes =>
              (insertLoop now inserts (i + 1) c rest).andThen fun c inserted =>
                (c, .ok (changes + inserted))

/-- `insert_heartbeats` on a connection. -/
def insertBatch (b : Batch) (c : Connection Heartbeats) : Outcome Heartbeats ℕ :=
  transact c b.begins b.commits fun c =>
    (c.execute (fun t => (t, ())) b.prepares).andThen fun c _ =>
      insertLoop fl b.now b.inserts 0 c b.rows

/-- Batches, one after the other, and their results. -/
def insertBatches : List Batch → Connection Heartbeats →
    Connection Heartbeats × List (Except String ℕ)
  | [], c => (c, [])
  | b :: bs, c =>
      let (c, result) := insertBatch fl b c
      let (c, results) := insertBatches bs c
      (c, result :: results)

/-! ## One batch -/

variable {fl}

theorem insertLoop_computes (now : F64) (inserts : ℕ → Option Fault) (i : ℕ) (rows : List Json) :
    Computes (fun c => insertLoop fl now inserts i c rows) (fun t => insertRows fl now t rows) := by
  induction rows generalizing i with
  | nil => exact .pure 0
  | cons row rest ih =>
      unfold insertLoop insertRows
      cases finiteTime fl row with
      | none => exact ih (i + 1)
      | some time =>
          have hinsert := Computes.execute
            (fun t : Heartbeats => t.insertOrIgnore (heartbeat fl now row time)) (inserts i)
          exact hinsert.andThen fun changes =>
            (ih (i + 1)).andThen fun inserted => .pure (changes + inserted)

/-- A batch is inserted as a whole, or its error leaves the table. -/
theorem insertBatch_cases (b : Batch) (t : Heartbeats) :
    insertBatch fl b ⟨t, none⟩ =
        (⟨(insertRows fl b.now t b.rows).1, none⟩, .ok (insertRows fl b.now t b.rows).2) ∨
      ∃ e, insertBatch fl b ⟨t, none⟩ = (⟨t, none⟩, .error e) := by
  have hbody := Computes.andThen (.execute (fun t : Heartbeats => (t, ())) b.prepares)
    fun _ => @insertLoop_computes fl b.now b.inserts 0 b.rows
  exact hbody.transact t b.begins b.commits

/-- A batch is `insert_heartbeats` with one error for all that can fail. -/
theorem insertBatch_eq (b : Batch) (t : Heartbeats) : ∃ sqlError,
    insertBatch fl b ⟨t, none⟩ =
      (⟨(insertHeartbeats fl b.now t b.rows sqlError).1, none⟩,
        (insertHeartbeats fl b.now t b.rows sqlError).2) := by
  rcases insertBatch_cases b t with hok | ⟨e, herr⟩
  · exact ⟨none, hok⟩
  · exact ⟨some e, herr⟩

/-- The keys of a batch go behind those that are there, one for each insertion. -/
theorem keys_insertRows (now : F64) (t : Heartbeats) (rows : List Json) :
    ∃ added, (insertRows fl now t rows).1.keys = t.keys ++ added ∧
      added.length = (insertRows fl now t rows).2 := by
  induction rows generalizing t with
  | nil => exact ⟨[], (List.append_nil _).symm, rfl⟩
  | cons row rest ih =>
      unfold insertRows
      cases finiteTime fl row with
      | none => exact ih t
      | some time =>
          obtain ⟨added, hkeys, hlength⟩ := ih (t.insertOrIgnore (heartbeat fl now row time)).1
          dsimp only
          rw [hkeys]
          unfold Heartbeats.insertOrIgnore at hlength ⊢
          split
          · next hmem =>
              rw [dif_pos hmem] at hlength
              exact ⟨added, rfl, by rw [hlength, Nat.zero_add]⟩
          · next hnot =>
              rw [dif_neg hnot] at hlength
              refine ⟨(heartbeat fl now row time).key :: added, ?_, ?_⟩
              · show (t.rows ++ [_]).map Heartbeat.key ++ added = _
                rw [List.map_append, List.append_assoc]
                rfl
              · rw [List.length_cons, hlength, Nat.add_comm]

/-! ## Sequences of batches -/

/-- The rows of the batches that were accepted. -/
def accepted : List Batch → List (Except String ℕ) → List Json
  | b :: bs, .ok _ :: results => b.rows ++ accepted bs results
  | _ :: bs, .error _ :: results => accepted bs results
  | _, _ => []

/-- The sum of the reported counts. -/
def reported : List (Except String ℕ) → ℕ
  | [] => 0
  | .ok inserted :: results => inserted + reported results
  | .error _ :: results => reported results

/-- What a sequence of batches leaves in the table. -/
theorem insertBatches_spec (bs : List Batch) (t : Heartbeats) :
    (insertBatches fl bs ⟨t, none⟩).1.work = none ∧
      (∀ k, k ∈ (insertBatches fl bs ⟨t, none⟩).1.stored.keys ↔
        k ∈ t.keys ∨ k ∈ (accepted bs (insertBatches fl bs ⟨t, none⟩).2).filterMap (rowKey fl)) ∧
      ∃ added, (insertBatches fl bs ⟨t, none⟩).1.stored.keys = t.keys ++ added ∧
        added.length = reported (insertBatches fl bs ⟨t, none⟩).2 := by
  induction bs generalizing t with
  | nil => exact ⟨rfl, fun k => by simp [insertBatches, accepted], [], (List.append_nil _).symm, rfl⟩
  | cons b bs ih =>
      unfold insertBatches
      rcases @insertBatch_cases fl b t with hok | ⟨e, herr⟩
      · obtain ⟨first, hfirst, hcount⟩ := @keys_insertRows fl b.now t b.rows
        obtain ⟨hwork, hmem, added, hkeys, hlength⟩ := ih (insertRows fl b.now t b.rows).1
        rw [hok]
        refine ⟨hwork, fun k => ?_, first ++ added, ?_, ?_⟩
        · dsimp only [accepted]
          rw [hmem k, mem_keys_insertRows, List.filterMap_append, List.mem_append, or_assoc]
        · dsimp only
          rw [hkeys, hfirst, List.append_assoc]
        · dsimp only [reported]
          rw [List.length_append, hcount, hlength]
      · rw [herr]
        exact ih t

/-- Insertion from a table: the keys depend on which rows were accepted, not on their order,
repetition or batches; the counts add up to the keys that are new; an error leaves the table. -/
structure OrderFree (fl : Floats) (t : Heartbeats) : Prop where
  keys : ∀ bs bs' : List Batch,
    (∀ row, row ∈ accepted bs (insertBatches fl bs ⟨t, none⟩).2 ↔
      row ∈ accepted bs' (insertBatches fl bs' ⟨t, none⟩).2) →
    ∀ k, k ∈ (insertBatches fl bs ⟨t, none⟩).1.stored.keys ↔
      k ∈ (insertBatches fl bs' ⟨t, none⟩).1.stored.keys
  counts : ∀ bs : List Batch, ∃ added,
    (insertBatches fl bs ⟨t, none⟩).1.stored.keys = t.keys ++ added ∧
      (t.keys ++ added).Nodup ∧ added.length = reported (insertBatches fl bs ⟨t, none⟩).2
  atomic : ∀ (b : Batch) (e : String), (insertBatch fl b ⟨t, none⟩).2 = .error e →
    (insertBatch fl b ⟨t, none⟩).1 = ⟨t, none⟩

/-- **Insertion is idempotent, order-free and atomic.** -/
theorem insert_heartbeats_order_free (fl : Floats) (t : Heartbeats) : OrderFree fl t := by
  constructor
  · intro bs bs' hrows k
    rw [(insertBatches_spec bs t).2.1 k, (insertBatches_spec bs' t).2.1 k, List.mem_filterMap,
      List.mem_filterMap]
    simp only [hrows]
  · intro bs
    obtain ⟨-, -, added, hkeys, hlength⟩ := @insertBatches_spec fl bs t
    exact ⟨added, hkeys, hkeys ▸ (insertBatches fl bs ⟨t, none⟩).1.stored.unique, hlength⟩
  · intro b e herror
    rcases @insertBatch_cases fl b t with hok | ⟨e', herr⟩
    · rw [hok] at herror
      cases herror
    · rw [herr]

end Stackhour.Tracker
