import Stackhour.Core.FsUtil

/-!
# The offline queue

`queue.jsonl`, one row a line. Reading drops what does not parse, and takes a
file that cannot be read for an empty one; appending never looks at how the file
ends.
-/

namespace Stackhour.Agent

open Core

variable {Row : Type*} (S : Serde Row)

/-- `read_queue`. -/
def readQueue (queue : File) (readable : Bool) : List Row :=
  match readToString queue readable with
  | none => []
  | some text => S.values text

/-- `encode`. -/
def encode (rows : List Row) : List Char :=
  ['\n'].intercalate (rows.map S.print) ++ ['\n']

/-- The bytes of `encode`. -/
def encodeBytes (rows : List Row) : List UInt8 := Utf8.encode (encode S rows)

/-- `append_queue`. -/
def appendQueue (queue : File) (rows : List Row) (how : Append) : File × Bool :=
  if rows.isEmpty then (queue, true) else appendFsync queue (encodeBytes S rows) how

/-- `save_queue`; without rows the file is removed. -/
def saveQueue (queue : File) (rows : List Row) (how : AtomicWrite) : File × Bool :=
  if rows.isEmpty then
    match how with
    | .done => (none, true)
    | .notRenamed | .notChmodded => (queue, false)
  else atomicWrite queue (encodeBytes S rows) how

def MAX_SEND_BYTES : ℕ := 4 * 1024 * 1024

/-- The bytes of a row in a batch. -/
def rowBytes (row : Row) : ℕ := (Utf8.encode (S.print row)).length

/-- The loop of `take_send_batch`. -/
def takeSendBatchFrom (budget count bytes : ℕ) : List Row → ℕ
  | [] => count
  | row :: rest =>
      let size := rowBytes S row + if count > 0 then 1 else 0
      if count > 0 ∧ bytes + size > budget then count
      else takeSendBatchFrom budget (count + 1) (bytes + size) rest

/-- `take_send_batch`. -/
def takeSendBatch (pending : List Row) (budget : ℕ) : ℕ := takeSendBatchFrom S budget 0 2 pending

/-! ## What is read of what was written -/

variable {S}

theorem encode_eq {rows : List Row} (h : rows ≠ []) : encode S rows = rows.flatMap S.line := by
  unfold encode
  induction rows with
  | nil => exact absurd rfl h
  | cons row rows ih =>
      cases rows with
      | nil => simp [List.intercalate, Serde.line]
      | cons next rows =>
          rw [List.map_cons, List.map_cons, List.intercalate_cons_cons, List.append_assoc,
            List.append_assoc, ← List.map_cons, ih (List.cons_ne_nil next rows)]
          simp [Serde.line]

theorem encode_whole (rows : List Row) : Lines.Whole '\n' (encode S rows) :=
  .inr ⟨_, rfl⟩

theorem readQueue_text (text : List Char) :
    readQueue S (some (Utf8.encode text)) true = S.values text := by
  unfold readQueue
  rw [readToString_encode]

/-- **A rewritten queue is read back.** -/
theorem readQueue_saveQueue (hS : S.Lawful) (queue : File) (rows : List Row) :
    readQueue S (saveQueue S queue rows .done).1 true = rows := by
  unfold saveQueue
  cases rows with
  | nil => rfl
  | cons row rows =>
      show readQueue S (some (Utf8.encode (encode S (row :: rows)))) true = _
      rw [readQueue_text, encode_eq (List.cons_ne_nil row rows), hS.values_lines]

theorem takeSendBatchFrom_spec (budget count bytes : ℕ) (rows : List Row) :
    count ≤ takeSendBatchFrom S budget count bytes rows ∧
      takeSendBatchFrom S budget count bytes rows ≤ count + rows.length := by
  induction rows generalizing count bytes with
  | nil => exact ⟨Nat.le_refl _, Nat.le_add_right _ _⟩
  | cons row rows ih =>
      unfold takeSendBatchFrom
      dsimp only
      generalize rowBytes S row + (if count > 0 then 1 else 0) = size
      split
      · exact ⟨Nat.le_refl _, Nat.le_add_right _ _⟩
      · obtain ⟨hle, hge⟩ := ih (count + 1) (bytes + size)
        rw [List.length_cons]
        exact ⟨by omega, by omega⟩

/-- The first row is always taken. -/
theorem takeSendBatch_pos {pending : List Row} (h : pending ≠ []) (budget : ℕ) :
    1 ≤ takeSendBatch S pending budget := by
  cases pending with
  | nil => exact absurd rfl h
  | cons row rows =>
      unfold takeSendBatch takeSendBatchFrom
      dsimp only
      rw [if_neg (by omega)]
      exact (takeSendBatchFrom_spec _ 1 _ rows).1

end Stackhour.Agent
