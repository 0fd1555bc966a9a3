import Mathlib.Data.List.Lex
import Mathlib.Data.Prod.Lex
import Stackhour.Core.JsonCompact
import Stackhour.Lib.Rounding
import Stackhour.Lib.Sorting
import Stackhour.Lib.Utf8
import Stackhour.Tracker.Backup
import Stackhour.Tracker.Ranges

/-!
# The export of the tables

`data export` writes the rows of two tables as lines of JSON into a temporary file beside the
output and renames it. Any step may fail, and the process may stop before any of them. The two
queries read the database one after the other.
-/

namespace Stackhour.Tracker

open Core Domain Files Result

/-! ## Values of SQLite -/

/-- The number that the bits of a finite float stand for; an infinite one is beyond all these. -/
def floatValue (f : F64) : ℚ :=
  let mantissa := (f &&& 0xFFFFFFFFFFFFF).toNat
  let exponent := ((f >>> 52) &&& 0x7FF).toNat
  let magnitude : ℚ :=
    if exponent = 0 then mantissa * 2 ^ (-1074 : ℤ)
    else (2 ^ 52 + mantissa : ℕ) * 2 ^ ((exponent : ℤ) - 1075)
  if f.msb then -magnitude else magnitude

/-- `ValueRef`. -/
inductive SqlValue where
  | null
  | integer (n : Int64)
  | real (f : F64)
  | text (bytes : List UInt8)
  | blob (bytes : List UInt8)
deriving DecidableEq

/-- The place of a value in the order of SQLite: nothing, numbers, texts, blobs. -/
def SqlValue.place : SqlValue → ℕ ×ₗ ℚ ×ₗ List ℕ
  | .null => toLex (0, toLex (0, []))
  | .integer n => toLex (1, toLex (n.toInt, []))
  | .real f => toLex (1, toLex (floatValue f, []))
  | .text bytes => toLex (2, toLex (0, bytes.map UInt8.toNat))
  | .blob bytes => toLex (3, toLex (0, bytes.map UInt8.toNat))

/-- A table: its columns, and the rows with a value for each of them. -/
structure SqlTable where
  columns : List String
  rows : List (List SqlValue)
  distinct : columns.Nodup
  wide : ∀ row ∈ rows, row.length = columns.length

namespace Exporting

/-- The value of a row in a column. -/
def cell (columns : List String) (row : List SqlValue) (column : String) : SqlValue :=
  ((columns.zip row).lookup column).getD .null

/-- A float as a parameter of a statement. -/
def bound (f : F64) : SqlValue := if f.isNan then .null else .real f

/-- A text as a parameter of a statement. -/
def boundText (s : String) : SqlValue := .text (Utf8.encode s.toList)

/-- `v >= ? AND v <= ?`; nothing compares with null. -/
def within (low high v : SqlValue) : Bool :=
  decide (low ≠ .null ∧ high ≠ .null ∧ v ≠ .null ∧ low.place ≤ v.place ∧ v.place ≤ high.place)

/-- `ORDER BY` two columns. -/
def rowPlace (columns : List String) (by₁ by₂ : String) (row : List SqlValue) :
    (ℕ ×ₗ ℚ ×ₗ List ℕ) ×ₗ (ℕ ×ₗ ℚ ×ₗ List ℕ) :=
  toLex ((cell columns row by₁).place, (cell columns row by₂).place)

/-- `SELECT * FROM t WHERE by₁ >= ? AND by₁ <= ? ORDER BY by₁, by₂`. -/
def selectRows (t : SqlTable) (by₁ by₂ : String) (low high : SqlValue) : List (List SqlValue) :=
  (t.rows.filter fun row => within low high (cell t.columns row by₁)).mergeSort
    (Sorting.upTo (rowPlace t.columns by₁ by₂))

/-! ## Lines -/

variable (fl : Floats) (ft : JsonGrammar.FloatText)

/-- The object of a blob, keyed by the indexes of its bytes. -/
def blobFields (bytes : List UInt8) : Fields :=
  bytes.zipIdx.foldl (fun m b => m.insert (toString b.2) (.number (.int b.1.toNat))) []

/-- The value of a column, as JSON. -/
def columnValue : SqlValue → Json
  | .null => .null
  | .integer n => .number (.int n.toInt)
  | .real f => .number (jsonNum fl f)
  | .text bytes => .string (String.ofList (Utf8.lossy bytes))
  | .blob bytes => .object (blobFields bytes)

/-- `row_to_value`. -/
def rowToValue (row : List SqlValue) (names : List String) : Json :=
  .object ((names.zip row).foldl (fun obj c => Fields.insert obj c.1 (columnValue fl c.2)) [])

/-- A document and the newline after it. -/
def lineOf (v : Json) : List Char := JsonGrammar.compact ft v ++ ['\n']

/-- `write_record`. -/
def writeRecord (kind : String) (data : Json) : List Char :=
  lineOf ft (.object [("type", .string kind), ("data", data)])

/-- The first line. -/
def header (now fromTime toTime : F64) : Json :=
  .object [("type", .string "stackhour-export"), ("version", .number (.int 1)),
    ("createdAt", .number (jsonNum fl now)), ("from", .number (jsonNum fl fromTime)),
    ("to", .number (jsonNum fl toTime))]

/-- What is written: the header, the heartbeats and the days. -/
def document (now fromTime toTime : F64) (heartbeats days : SqlTable)
    (heartbeatRows dayRows : List (List SqlValue)) : List Char :=
  lineOf ft (header fl now fromTime toTime) ++
    heartbeatRows.flatMap (fun row =>
      writeRecord ft "heartbeat" (rowToValue fl row heartbeats.columns)) ++
    dayRows.flatMap (fun row => writeRecord ft "wakatime-day" (rowToValue fl row days.columns))

/-! ## Steps -/

/-- How a step ends that does not succeed. -/
inductive Halt where
  | failed (e : String)
  | stopped
deriving DecidableEq

/-- Which steps do not succeed, and what they leave. -/
structure Faults where
  opening : Option Halt
  prepareHeartbeats : Option Halt
  prepareDays : Option Halt
  mkdir : Option Halt
  /-- The temporary file of an earlier run cannot be removed. -/
  keepsStale : Bool
  create : Option Halt
  /-- After so many bytes, with a row that is not read or a write that fails. -/
  write : Option (Halt × ℕ)
  sync : Option Halt
  rename : Option Halt
  /-- The guard cannot remove the temporary file. -/
  keepsTmp : Bool
  chmod : Option Halt
  /-- The message for a table or a column that is not there. -/
  unprepared : String

variable {δ : Type*} [DecidableEq δ]

/-- The disk. -/
abbrev Storage (δ : Type*) := Disk δ (Loc δ) (List UInt8)

/-- `Path::exists`. -/
def pathExists (d : Storage δ) (l : Loc δ) : Bool :=
  (d.follow Backup.Storage.maxLinks l).isSome

def attempt (d : Storage δ) (fault : Option Halt) : Storage δ × Except Halt Unit :=
  match fault with
  | some h => (d, .error h)
  | none => (d, .ok ())

/-- `existing_db`. -/
def existingDb (d : Storage δ) (dbPath : Path) (dirOf : List (List Char) → δ)
    (fault : Option Halt) : Except Halt Unit :=
  if pathExists d (dbPath.locate dirOf) then (attempt d fault).2
  else .error (.failed ("database does not exist: " ++ dbPath.display))

/-- The table of a statement that names two of its columns. -/
def prepare (t : Option SqlTable) (by₁ by₂ : String) (fault : Option Halt) (unprepared : String) :
    Except Halt SqlTable :=
  match fault, t with
  | some h, _ => .error h
  | none, none => .error (.failed unprepared)
  | none, some t =>
      if by₁ ∈ t.columns ∧ by₂ ∈ t.columns then .ok t else .error (.failed unprepared)

/-- `create_excl`. -/
def createExcl (d : Storage δ) (l : Loc δ) (fault : Option Halt) : Storage δ × Except Halt Unit :=
  match fault, d.create l [] with
  | some h, _ => (d, .error h)
  | none, none => (d, .error (.failed "File exists (os error 17)"))
  | none, some d' => (d', .ok ())

/-- The lines reach the file as far as no write fails. -/
def writeAll (d : Storage δ) (l : Loc δ) (bytes : List UInt8) :
    Option (Halt × ℕ) → Storage δ × Except Halt Unit
  | some (h, n) => (d.put l (some (.file (bytes.take n))), .error h)
  | none => (d.put l (some (.file bytes)), .ok ())

/-- `fs::rename`. -/
def renameTo (d : Storage δ) (a b : Loc δ) (fault : Option Halt) : Storage δ × Except Halt Unit :=
  match fault, d.rename a b with
  | some h, _ => (d, .error h)
  | none, none => (d, .error (.failed "Is a directory (os error 21)"))
  | none, some d' => (d', .ok ())

/-- The drop of `TmpGuard`, unless the process stopped. -/
def dropGuard (d : Storage δ) (tmp : Loc δ) (result : Except Halt Unit) (keeps : Bool) :
    Storage δ :=
  if result = .error .stopped ∨ keeps = true then d else d.unlink tmp

/-- The steps of the atomic write under the guard. -/
def writeTmp (d : Storage δ) (tmp output : Loc δ) (bytes : List UInt8) (f : Faults) :
    Storage δ × Except Halt Unit :=
  andThen (createExcl d tmp f.create) fun d _ =>
  andThen (writeAll d tmp bytes f.write) fun d _ =>
  andThen (attempt d f.sync) fun d _ =>
  renameTo d tmp output f.rename

/-- The atomic write. -/
def replaceOutput (d : Storage δ) (tmp output : Loc δ) (bytes : List UInt8) (f : Faults) :
    Storage δ × Except Halt Unit :=
  andThen (attempt d f.mkdir) fun d _ =>
    let d := if f.keepsStale then d else d.unlink tmp
    let placed := writeTmp d tmp output bytes f
    let d := dropGuard placed.1 tmp placed.2 f.keepsTmp
    andThen (d, placed.2) fun d _ => attempt d f.chmod

/-- The database as the two queries find it. -/
structure Tables where
  heartbeats : Option SqlTable
  days : Option SqlTable

/-- `MAX_SAFE_INTEGER`. -/
def MAX_SAFE_INTEGER : F64 := 0x433FFFFFFFFFFFFF

/-- `iso_date_utc`. -/
def isoDate (f : F64) : String := Timeparse.isoDateUtc (Binary64.round (floatValue f))

/-- `from_time > to_time`, for bounds that are no NaN. -/
def exceeds (a b : F64) : Bool := decide (floatValue b < floatValue a)

/-- The rows of the two queries. -/
def heartbeatRows (t : SqlTable) (fromTime toTime : F64) : List (List SqlValue) :=
  selectRows t "time" "id" (bound fromTime) (bound toTime)

def dayRows (t : SqlTable) (fromTime toTime : F64) : List (List SqlValue) :=
  selectRows t "date" "project" (boundText (isoDate fromTime))
    (boundText (if toTime = MAX_SAFE_INTEGER then "9999-12-31" else isoDate toTime))

/-- `tmp_path_for`. -/
def tmpPathFor (output : Path) (pid : ℕ) : Path := output.suffix (Backup.tmpSuffix pid)

/-- `export`, with bounds that `parse_time` gives. -/
def exportTo (dirOf : List (List Char) → δ) (pid : ℕ) (now : F64) (cwd : List (List Char))
    (d : Storage δ) (dbPath : Path) (db : Tables) (output : RawPath)
    (fromBound toBound : Option F64) (force : Bool) (f : Faults) :
    Storage δ × Except Halt (ℕ × ℕ × Path) :=
  let fromTime := fromBound.getD F64.zero
  let toTime := toBound.getD MAX_SAFE_INTEGER
  if exceeds fromTime toTime then (d, .error (.failed "from must not be after to"))
  else
    andThen (d, existingDb d dbPath dirOf f.opening) fun d _ =>
    let resolved := Backup.resolvePath cwd output
    andThen (d, prepare db.heartbeats "time" "id" f.prepareHeartbeats f.unprepared)
      fun d heartbeats =>
    andThen (d, prepare db.days "date" "project" f.prepareDays f.unprepared) fun d days =>
    if pathExists d (resolved.locate dirOf) && !force then
      (d, .error (.failed ("output exists: " ++ resolved.display ++
        "; pass --force to replace it")))
    else
      let rows := heartbeatRows heartbeats fromTime toTime
      let rows' := dayRows days fromTime toTime
      let bytes := Utf8.encode (document fl ft now fromTime toTime heartbeats days rows rows')
      andThen (replaceOutput d ((tmpPathFor resolved pid).locate dirOf) (resolved.locate dirOf)
        bytes f) fun d _ => (d, .ok (rows.length, rows'.length, resolved))

end Exporting

end Stackhour.Tracker
