import Mathlib.Data.List.Nodup
import Stackhour.Core.JsNum

/-!
# The heartbeats table

`insert_heartbeats` coerces the rows of a batch, skips those without a finite
time, and inserts the rest in one transaction. The unique index `hb_dedupe2`
ignores a row whose key is there.
-/

namespace Stackhour.Tracker

open Core Domain

/-- The columns of `hb_dedupe2`. -/
structure DedupeKey where
  time : F64
  machine : String
  source : String
  project : String
  entity : String
  actor : String
deriving DecidableEq

structure Heartbeat where
  time : F64
  machine : String
  source : String
  project : String
  entity : String
  entityType : String
  category : String
  language : Option String
  branch : Option String
  isWrite : ℤ
  actor : String
  tokensIn : ℤ
  tokensOut : ℤ
  cost : F64
  createdAt : F64

/-- How the index compares a REAL: the two zeros are one. -/
def sqlReal (f : F64) : F64 := if f.isZero then F64.zero else f

def Heartbeat.key (h : Heartbeat) : DedupeKey :=
  { time := sqlReal h.time
    machine := h.machine
    source := h.source
    project := h.project
    entity := h.entity
    actor := h.actor }

/-- The table with what its unique index keeps. -/
structure Heartbeats where
  rows : List Heartbeat
  unique : (rows.map Heartbeat.key).Nodup

namespace Heartbeats

def empty : Heartbeats := ⟨[], List.nodup_nil⟩

def keys (t : Heartbeats) : List DedupeKey := t.rows.map Heartbeat.key

/-- `INSERT OR IGNORE`, with the number of changes. -/
def insertOrIgnore (t : Heartbeats) (row : Heartbeat) : Heartbeats × ℕ :=
  if h : row.key ∈ t.keys then (t, 0)
  else
    (⟨t.rows ++ [row], by
      rw [List.map_append]
      exact List.nodup_append.mpr ⟨t.unique, List.nodup_singleton _, by
        intro k hk l hl heq
        rw [List.mem_singleton.mp hl] at heq
        exact h (heq ▸ hk)⟩⟩, 1)

end Heartbeats

variable (fl : Floats)

/-- `finite_time`. -/
def finiteTime (row : Json) : Option F64 :=
  match row.get "time" with
  | some (.number n) => if (asF64 fl n).isFinite then some (asF64 fl n) else none
  | _ => none

/-- `nonneg_int`. -/
def nonnegInt (v : Option Json) : ℤ := (v.map (fun val => fl.toInt (nonneg fl val true))).getD 0

/-- `nonneg_float`. -/
def nonnegFloat (v : Option Json) : F64 := (v.map (fun val => nonneg fl val false)).getD F64.zero

/-- A string column that is null unless it is truthy. -/
def truthyColumn (v : Option Json) : Option String :=
  (v.filter (fun val => jsTruthy fl val)).map (jsDisplay fl)

/-- The parameters of the INSERT. -/
def heartbeat (now : F64) (row : Json) (time : F64) : Heartbeat :=
  { time := time
    machine := jsStringOr fl (row.get "machine") "unknown"
    source := jsStringOr fl (row.get "source") "unknown"
    project := jsStringOr fl (row.get "project") "unknown"
    entity := jsStringOr fl (row.get "entity") "unknown"
    entityType := if (row.get "entity_type").bind Json.asStr = some "app" then "app" else "file"
    category := jsStringOr fl (row.get "category") "coding"
    language := truthyColumn fl (row.get "language")
    branch := truthyColumn fl (row.get "branch")
    isWrite := if ((row.get "is_write").map (jsTruthy fl)).getD false then 1 else 0
    actor := if (row.get "actor").bind Json.asStr = some "agent" then "agent" else "human"
    tokensIn := nonnegInt fl (row.get "tokens_in")
    tokensOut := nonnegInt fl (row.get "tokens_out")
    cost := nonnegFloat fl (row.get "cost")
    createdAt := now }

/-- The loop of `insert_heartbeats`. -/
def insertRows (now : F64) (t : Heartbeats) : List Json → Heartbeats × ℕ
  | [] => (t, 0)
  | row :: rest =>
      match finiteTime fl row with
      | none => insertRows now t rest
      | some time =>
          let (t, changes) := t.insertOrIgnore (heartbeat fl now row time)
          let (t, inserted) := insertRows now t rest
          (t, changes + inserted)

/-- `insert_heartbeats`; a SQL error rolls the batch back. -/
def insertHeartbeats (now : F64) (t : Heartbeats) (rows : List Json) :
    Option String → Heartbeats × Except String ℕ
  | some sqlError => (t, .error sqlError)
  | none =>
      let (t, inserted) := insertRows fl now t rows
      (t, .ok inserted)

/-! ## What a batch leaves in the table -/

/-- The key under which a row is stored, if it is. -/
def rowKey (row : Json) : Option DedupeKey :=
  (finiteTime fl row).map (fun time => (heartbeat fl F64.zero row time).key)

variable {fl}

theorem rowKey_eq {row : Json} {time : F64} (h : finiteTime fl row = some time) (now : F64) :
    rowKey fl row = some (heartbeat fl now row time).key := by
  unfold rowKey
  rw [h]
  rfl

theorem insertOrIgnore_rows (t : Heartbeats) (row : Heartbeat) :
    (t.insertOrIgnore row).1.rows = t.rows ∨
      (t.insertOrIgnore row).1.rows = t.rows ++ [row] := by
  unfold Heartbeats.insertOrIgnore
  split
  · exact .inl rfl
  · exact .inr rfl

theorem mem_keys_insertOrIgnore (t : Heartbeats) (row : Heartbeat) (k : DedupeKey) :
    k ∈ (t.insertOrIgnore row).1.keys ↔ k ∈ t.keys ∨ k = row.key := by
  unfold Heartbeats.insertOrIgnore
  split
  · next h =>
      constructor
      · exact .inl
      · rintro (hk | rfl)
        · exact hk
        · exact h
  · show k ∈ (t.rows ++ [row]).map Heartbeat.key ↔ _
    rw [List.map_append, List.mem_append]
    exact or_congr Iff.rfl List.mem_singleton

/-- **A batch adds its keys.** -/
theorem mem_keys_insertRows (now : F64) (t : Heartbeats) (rows : List Json) (k : DedupeKey) :
    k ∈ (insertRows fl now t rows).1.keys ↔ k ∈ t.keys ∨ k ∈ rows.filterMap (rowKey fl) := by
  induction rows generalizing t with
  | nil => simp [insertRows]
  | cons row rest ih =>
      unfold insertRows
      cases htime : finiteTime fl row with
      | none =>
          have hkey : rowKey fl row = none := by
            unfold rowKey
            rw [htime]
            rfl
          rw [List.filterMap_cons_none hkey]
          exact ih t
      | some time =>
          rw [List.filterMap_cons_some (rowKey_eq htime now), List.mem_cons, ← or_assoc,
            ← mem_keys_insertOrIgnore]
          exact ih _

/-- What a batch adds are coerced rows of it. -/
theorem insertRows_rows (now : F64) (t : Heartbeats) (rows : List Json) :
    ∃ added, (insertRows fl now t rows).1.rows = t.rows ++ added ∧
      ∀ h ∈ added, ∃ row ∈ rows, ∃ time, finiteTime fl row = some time ∧
        h = heartbeat fl now row time := by
  induction rows generalizing t with
  | nil => exact ⟨[], (List.append_nil _).symm, by rintro h ⟨⟩⟩
  | cons row rest ih =>
      unfold insertRows
      cases htime : finiteTime fl row with
      | none =>
          obtain ⟨added, hrows, hadded⟩ := ih t
          refine ⟨added, hrows, ?_⟩
          intro h hmem
          obtain ⟨row', hrow, hfrom⟩ := hadded h hmem
          exact ⟨row', List.mem_cons_of_mem _ hrow, hfrom⟩
      | some time =>
          obtain ⟨added, hrows, hadded⟩ := ih (t.insertOrIgnore (heartbeat fl now row time)).1
          have hrest : ∀ h ∈ added, ∃ row' ∈ row :: rest, ∃ time, finiteTime fl row' = some time ∧
              h = heartbeat fl now row' time := by
            intro h hmem
            obtain ⟨row', hrow, hfrom⟩ := hadded h hmem
            exact ⟨row', List.mem_cons_of_mem _ hrow, hfrom⟩
          rcases insertOrIgnore_rows t (heartbeat fl now row time) with hsame | hsnoc
          · exact ⟨added, hsame ▸ hrows, hrest⟩
          · refine ⟨heartbeat fl now row time :: added, ?_, ?_⟩
            · show (insertRows fl now _ rest).1.rows = _
              rw [hrows, hsnoc, List.append_assoc]
              rfl
            · intro h hmem
              rcases List.mem_cons.mp hmem with rfl | hmem
              · exact ⟨row, List.mem_cons_self, time, htime, rfl⟩
              · exact hrest h hmem

end Stackhour.Tracker
