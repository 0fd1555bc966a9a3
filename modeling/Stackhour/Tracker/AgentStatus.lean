import Stackhour.Core.Text
import Stackhour.Lib.Table
import Stackhour.Tracker.Heartbeats

/-!
# Agent status reports

`upsert_agent_status` keeps the last report of each machine. The machine is
coerced, trimmed and cut at 200 UTF-16 units.
-/

namespace Stackhour.Tracker

open Core Domain

/-! ## Texts -/

/-- `len_utf16`. -/
def lenUtf16 (c : Char) : ℕ := if c.toNat < 0x10000 then 1 else 2

/-- The loop of `slice_utf16`. -/
def sliceUtf16From (max units : ℕ) : List Char → List Char
  | [] => []
  | c :: rest =>
      if max < units + lenUtf16 c then []
      else c :: sliceUtf16From max (units + lenUtf16 c) rest

/-- `slice_utf16`. -/
def sliceUtf16 (s : String) (max : ℕ) : String := String.ofList (sliceUtf16From max 0 s.toList)

/-! ## The table -/

structure AgentStatus where
  machine : String
  reportedAt : F64
  receivedAt : F64
  version : String
  nodeVersion : String
  intervalSeconds : F64
  queueDepth : ℤ
  queueBytes : ℤ
  clockSkewSeconds : F64
  watchers : Json

/-- The table `agent_status` with its primary key. -/
structure AgentStatuses where
  rows : List AgentStatus
  unique : Table.Unique AgentStatus.machine rows

namespace AgentStatuses

def empty : AgentStatuses := ⟨[], Table.unique_nil⟩

/-- `INSERT … ON CONFLICT(machine) DO UPDATE`. -/
def upsert (t : AgentStatuses) (row : AgentStatus) : AgentStatuses :=
  if h : row.machine ∈ t.rows.map AgentStatus.machine then
    ⟨Table.update AgentStatus.machine row.machine (fun _ => row) t.rows, by
      unfold Table.Unique
      rw [Table.update_keys_of (fun _ _ => rfl)]
      exact t.unique⟩
  else ⟨t.rows ++ [row], t.unique.snoc h⟩

theorem upsert_others (t : AgentStatuses) (row : AgentStatus) :
    (t.upsert row).rows.filter (fun r => decide (r.machine ≠ row.machine)) =
      t.rows.filter (fun r => decide (r.machine ≠ row.machine)) := by
  unfold upsert
  split
  · exact Table.update_filter_ne (fun _ _ => rfl) t.rows
  · show (t.rows ++ [row]).filter _ = _
    rw [List.filter_append, List.filter_cons_of_neg (by simp), List.filter_nil, List.append_nil]

end AgentStatuses

/-! ## The upsert -/

structure StatusAck where
  machine : String
  serverTime : F64
  clockSkewSeconds : F64

variable (fl : Floats)

/-- The machine under which a report is kept. -/
def statusMachine (status : Json) : String :=
  sliceUtf16 (String.ofList (jsTrim (jsStringOr fl (status.get "machine") "").toList)) 200

/-- `Number(status.time)`; a missing key is a NaN. -/
def reportedAt (status : Json) : F64 := ((status.get "time").map (jsNumber fl)).getD F64.nan

/-- The parameters of the upsert. -/
def agentStatus (status : Json) (receivedAt : F64) : AgentStatus :=
  { machine := statusMachine fl status
    reportedAt := reportedAt fl status
    receivedAt := receivedAt
    version := sliceUtf16 (jsStringOr fl (status.get "version") "unknown") 100
    nodeVersion := sliceUtf16 (jsStringOr fl (status.get "nodeVersion") "unknown") 100
    intervalSeconds := nonnegFloat fl (status.get "intervalSeconds")
    queueDepth := nonnegInt fl (status.get "queueDepth")
    queueBytes := nonnegInt fl (status.get "queueBytes")
    clockSkewSeconds := fl.sub receivedAt (reportedAt fl status)
    watchers :=
      match status.get "watchers" with
      | some (.object fields) => .object fields
      | _ => .object [] }

/-- `upsert_agent_status`. -/
def upsertAgentStatus (t : AgentStatuses) (status : Json) (receivedAt : F64)
    (sqlError : Option String) : AgentStatuses × Except String StatusAck :=
  if statusMachine fl status = "" ∨ (reportedAt fl status).isFinite = false then
    (t, .error "invalid agent status")
  else
    match sqlError with
    | some e => (t, .error e)
    | none =>
        (t.upsert (agentStatus fl status receivedAt),
          .ok ⟨statusMachine fl status, receivedAt, fl.sub receivedAt (reportedAt fl status)⟩)

end Stackhour.Tracker
