import Stackhour.Lib.Utf8
import Stackhour.Lib.Lines

/-!
# Files

What `fsutil` and `serde_json` do to the files of this program. A write may stop
at any of its steps; where it stopped is an argument of its own.
-/

namespace Stackhour.Core

/-- A file's bytes, or none when it is missing. -/
abbrev File := Option (List UInt8)

/-! ## Writing -/

/-- How far `atomic_write` came. The file is replaced by the rename; the
permissions are set after it. -/
inductive AtomicWrite where
  | notRenamed
  | notChmodded
  | done
deriving DecidableEq

def atomicWrite (file : File) (bytes : List UInt8) : AtomicWrite → File × Bool
  | .notRenamed => (file, false)
  | .notChmodded => (some bytes, false)
  | .done => (some bytes, true)

/-- How far `append_fsync_0600` came: to opening the file, or to the first
`kept` bytes. -/
inductive Append where
  | notOpened
  | torn (kept : ℕ)
  | done
deriving DecidableEq

def appendFsync (file : File) (bytes : List UInt8) : Append → File × Bool
  | .notOpened => (file, false)
  | .torn kept => (some (file.getD [] ++ bytes.take kept), false)
  | .done => (some (file.getD [] ++ bytes), true)

/-- `read_to_string`; it may fail though the file is there. -/
def readToString (file : File) (readable : Bool) : Option (List Char) :=
  if readable then file.bind Utf8.decode else none

theorem readToString_encode (text : List Char) :
    readToString (some (Utf8.encode text)) true = some text := Utf8.decode_encode text

/-! ## JSON texts -/

/-- `serde_json` over the values of a program: `to_string` and `from_str`. -/
structure Serde (Value : Type*) where
  print : Value → List Char
  parse : List Char → Option Value

/-- What the printer promises: one line, which is read back. -/
structure Serde.Lawful {Value : Type*} (S : Serde Value) : Prop where
  parse_print : ∀ v, S.parse (S.print v) = some v
  oneLine : ∀ v, '\n' ∉ S.print v
  nonempty : ∀ v, S.print v ≠ []

namespace Serde

variable {Value : Type*} (S : Serde Value)

/-- The values of a text's lines; what does not parse is dropped. -/
def values (text : List Char) : List Value :=
  ((text.splitOn '\n').filter (fun line => !line.isEmpty)).filterMap S.parse

/-- A value on a line of its own. -/
def line (v : Value) : List Char := S.print v ++ ['\n']

theorem values_append_cons (text more : List Char) :
    S.values (text ++ '\n' :: more) = S.values text ++ S.values more := by
  unfold values
  rw [List.splitOn_append_cons_self, List.filter_append, List.filterMap_append]

theorem values_nil : S.values [] = [] := rfl

/-- Whole lines are read apart from what follows them. -/
theorem values_append {text : List Char} (h : Lines.Whole '\n' text) (more : List Char) :
    S.values (text ++ more) = S.values text ++ S.values more := by
  rcases h with rfl | ⟨ys, rfl⟩
  · rfl
  · rw [List.append_assoc, List.singleton_append, values_append_cons, values_append_cons,
      values_nil, List.append_nil]

variable {S}

theorem Lawful.values_print (h : S.Lawful) (v : Value) : S.values (S.print v) = [v] := by
  unfold values
  rw [List.splitOn_eq_singleton (h.oneLine v), List.filter_cons_of_pos, List.filter_nil,
    List.filterMap_cons, h.parse_print]
  · rfl
  · rw [Bool.not_eq_true', List.isEmpty_eq_false_iff]
    exact h.nonempty v

/-- Values one a line are read back. -/
theorem Lawful.values_lines (h : S.Lawful) (vs : List Value) :
    S.values (vs.flatMap S.line) = vs := by
  induction vs with
  | nil => rfl
  | cons v vs ih =>
      show S.values (S.print v ++ ['\n'] ++ vs.flatMap S.line) = _
      rw [List.append_assoc, List.singleton_append, values_append_cons, h.values_print, ih]
      rfl

end Serde

end Stackhour.Core
