import Stackhour.Domain.Entities

/-!
# JavaScript coercions

What JSON values become where the tracker takes a number, a string or a truth
value. The arithmetic of `f64` and its texts are a parameter; the bits say which
numbers are zero, negative or finite.
-/

namespace Stackhour.Core

open Domain

abbrev F64 := BitVec 64

namespace F64

def zero : F64 := 0

def one : F64 := 0x3FF0000000000000

def nan : F64 := 0x7FF8000000000000

/-- `f == 0.0`. -/
def isZero (f : F64) : Bool := f <<< 1 == 0

/-- `is_finite`. -/
def isFinite (f : F64) : Bool := (f >>> 52) &&& 0x7FF != 0x7FF

/-- `is_nan`. -/
def isNan (f : F64) : Bool := decide (0xFFE0000000000000 < f <<< 1)

/-- `f < 0.0`, for what is not a NaN. -/
def isNegative (f : F64) : Bool := f.msb && !f.isZero

end F64

/-- `f64` arithmetic and texts: the casts `as f64` and `as i64`, `js_round_f64`,
whether a number is integral and of magnitude at most 2^53, subtraction,
`js_f64_to_string` and `parse_js_number_str`. -/
structure Floats where
  ofInt : ℤ → F64
  toInt : F64 → ℤ
  round : F64 → F64
  isSafeInteger : F64 → Bool
  sub : F64 → F64 → F64
  display : F64 → String
  parse : String → F64

variable (fl : Floats)

/-- `as_f64`. -/
def asF64 : Number → F64
  | .int n => fl.ofInt n
  | .float bits => bits

/-- `js_truthy`. -/
def jsTruthy : Json → Bool
  | .null => false
  | .bool b => b
  | .number n => !(asF64 fl n).isZero
  | .string s => s != ""
  | .array _ | .object _ => true

mutual

/-- `js_display`. -/
def jsDisplay : Json → String
  | .null => "null"
  | .bool true => "true"
  | .bool false => "false"
  | .number n => fl.display (asF64 fl n)
  | .string s => s
  | .array items => ",".intercalate (jsParts items)
  | .object _ => "[object Object]"

/-- The elements of an array; a null one is empty. -/
def jsParts : List Json → List String
  | [] => []
  | .null :: rest => "" :: jsParts rest
  | item :: rest => jsDisplay item :: jsParts rest

end

/-- `js_number`. -/
def jsNumber : Json → F64
  | .null => F64.zero
  | .bool b => if b then F64.one else F64.zero
  | .number n => asF64 fl n
  | .string s => fl.parse s
  | .array items => fl.parse (jsDisplay fl (.array items))
  | .object _ => F64.nan

/-- `js_round`. -/
def jsRound (f : F64) : ℤ := fl.toInt (fl.round f)

/-- `json_num`. -/
def jsonNum (f : F64) : Number :=
  if f.isFinite && fl.isSafeInteger f then .int (fl.toInt f)
  else if f.isFinite then .float f
  else .int 0

/-- `nonneg`. -/
def nonneg (v : Json) (integer : Bool) : F64 :=
  let n := if jsTruthy fl v then jsNumber fl v else F64.zero
  if !n.isFinite || n.isNegative then F64.zero
  else if integer then fl.ofInt (jsRound fl n)
  else n

/-- `js_string_or`. -/
def jsStringOr (v : Option Json) (default : String) : String :=
  match v with
  | some val => if jsTruthy fl val then jsDisplay fl val else default
  | none => default

end Stackhour.Core
