import Stackhour.Core.JsonCompact
import Stackhour.Core.JsNum
import Stackhour.Core.Text
import Stackhour.Lib.Base64
import Stackhour.Lib.Utf8

/-!
# Enrollment codes

A code carries the URL of the hub, the name of a machine and its token as JSON in base64. It
is printed where the machine is enrolled and read on the machine, and the URL is validated at
both ends.
-/

namespace Stackhour.Core

open Domain JsonGrammar

/-! ## URLs -/

/-- What the code takes from a parsed URL: its scheme and the text it is printed as. -/
structure Url where
  scheme : String
  href : String
deriving DecidableEq

/-- `strip_suffix('/')`, or the text itself. -/
def stripSlash (href : String) : String :=
  if href.toList.getLast? = some '/' then String.ofList href.toList.dropLast else href

variable (parseUrl : String → Option Url)

/-- `valid_url`. -/
def validUrl (u : String) : Except String String :=
  match parseUrl u with
  | none => .error "server URL must be a valid http(s) URL"
  | some parsed =>
      if parsed.scheme ≠ "http" ∧ parsed.scheme ≠ "https" then
        .error "server URL must use http or https"
      else .ok (stripSlash parsed.href)

/-! ## The lenient decoder -/

/-- What a byte of a code stands for; every other one is skipped. -/
def sextet (b : UInt8) : Option ℕ :=
  let n := b.toNat
  if 65 ≤ n ∧ n ≤ 90 then some (n - 65)
  else if 97 ≤ n ∧ n ≤ 122 then some (n - 97 + 26)
  else if 48 ≤ n ∧ n ≤ 57 then some (n - 48 + 52)
  else if n = 43 ∨ n = 45 then some 62
  else if n = 47 ∨ n = 95 then some 63
  else none

/-- The complete bytes of a group that was not filled. -/
def leftover (acc count : ℕ) : List UInt8 :=
  if count = 2 then [UInt8.ofNat (acc / 16)]
  else if count = 3 then [UInt8.ofNat (acc / 1024), UInt8.ofNat (acc / 4)]
  else []

/-- The loop of the decoder, with the sextets of the open group. -/
def decodeSextets (acc count : ℕ) : List UInt8 → List UInt8
  | [] => leftover acc count
  | b :: bs =>
      if b.toNat = 61 then leftover acc count
      else
        match sextet b with
        | none => decodeSextets acc count bs
        | some v =>
            if count = 3 then
              [UInt8.ofNat ((acc * 64 + v) / 65536), UInt8.ofNat ((acc * 64 + v) / 256),
                UInt8.ofNat (acc * 64 + v)] ++ decodeSextets 0 0 bs
            else decodeSextets (acc * 64 + v) (count + 1) bs

/-- `lenient_base64_decode`. -/
def lenientBase64Decode (bs : List UInt8) : List UInt8 := decodeSextets 0 0 bs

/-! ## Codes -/

structure Enrollment where
  serverUrl : String
  machine : String
  token : String
deriving DecidableEq

def jsTrimmed (s : String) : String := String.ofList (jsTrim s.toList)

/-- The document of a code. -/
def payload (serverUrl machine token : String) : Json :=
  .object [("v", .number (.int 1)), ("serverUrl", .string serverUrl),
    ("machine", .string machine), ("token", .string token)]

variable (ft : FloatText) (fl : Floats)

/-- The bytes of the document's text. -/
def payloadBytes (serverUrl machine token : String) : List UInt8 :=
  Utf8.encode (compact ft (payload serverUrl machine token))

/-- `create_enrollment`. -/
def createEnrollment (serverUrl machine token : String) : Except String String :=
  match validUrl parseUrl serverUrl with
  | .error e => .error e
  | .ok cleanUrl =>
      if jsTrimmed machine = "" then .error "enrollment machine cannot be empty"
      else if jsTrimmed token = "" then .error "enrollment token cannot be empty"
      else .ok (String.ofList
        (Base64.encode (payloadBytes ft cleanUrl (jsTrimmed machine) (jsTrimmed token))))

/-- `field_trim`. -/
def fieldTrim (v : Option Json) : String :=
  match v with
  | some v => if jsTruthy fl v then jsTrimmed (jsDisplay fl v) else ""
  | none => ""

/-- A byte that a code may have. -/
def isCodeByte (b : UInt8) : Bool :=
  let n := b.toNat
  (48 ≤ n && n ≤ 57) || (65 ≤ n && n ≤ 90) || (97 ≤ n && n ≤ 122) || n == 95 || n == 45

/-- `n.as_f64() == Some(1.0)`; no other integer is converted to 1. -/
def isOne : Option Json → Bool
  | some (.number (.int n)) => n == 1
  | some (.number (.float bits)) => bits == F64.one
  | _ => false

/-- `parse_enrollment`. -/
def parseEnrollment (code : String) : Except String Enrollment :=
  let bytes := Utf8.encode code.toList
  if bytes.isEmpty || decide (16384 < bytes.length) || !bytes.all isCodeByte then
    .error "invalid enrollment code"
  else
    match parse ft (Utf8.lossy (lenientBase64Decode bytes)) with
    | .error _ => .error "invalid enrollment code"
    | .ok (.object fields) =>
        if !isOne (Fields.get fields "v") then .error "unsupported enrollment code"
        else
          let rawUrl := ((Fields.get fields "serverUrl").map (jsDisplay fl)).getD "undefined"
          (validUrl parseUrl rawUrl).map fun serverUrl =>
            { serverUrl := serverUrl
              machine := fieldTrim fl (Fields.get fields "machine")
              token := fieldTrim fl (Fields.get fields "token") }
    | .ok _ => .error "unsupported enrollment code"

end Stackhour.Core
