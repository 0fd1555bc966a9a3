import Stackhour.Core.Engine
import Stackhour.Core.JsonGrammar
import Stackhour.Lib.Lines
import Stackhour.Lib.Utf8
import Stackhour.Node.Engine

/-!
# What a provider prints

The lines of a provider's output, and the answer and the session that the node takes from them.
-/

namespace Stackhour.Node

open Core Domain

/-! ## Lines -/

/-- A line without the carriage return before its newline. -/
def chomp (line : List UInt8) : List UInt8 :=
  if line.getLast? = some 13 then line.dropLast else line

/-- The lines of `BufReader::lines`; the last one may have no newline. -/
def rawLines (bytes : List UInt8) : List (List UInt8) :=
  (Lines.complete Utf8.newline bytes).map chomp ++
    [Lines.rest Utf8.newline bytes].filter (fun line => !line.isEmpty)

/-- The lines up to the first that is not UTF-8. -/
def outputLines (bytes : List UInt8) : List (List Char) :=
  (((rawLines bytes).map Utf8.decode).takeWhile Option.isSome).reduceOption

/-- `line.trim().is_empty()`. -/
def isBlank (line : List Char) : Bool := line.all isWhitespace

/-! ## Events -/

/-- A field that holds a string. -/
def strField (event : Json) (key : String) : Option String := (event.get key).bind Json.asStr

/-- The texts among the blocks of a message. -/
def blockText (content : List Json) : String :=
  String.join ((content.filter fun item => strField item "type" = some "text").filterMap
    fun item => strField item "text")

/-- `StreamState`. -/
structure StreamState where
  kind : StreamKind
  text : String
  sessionId : Option String

namespace StreamState

def new (kind : StreamKind) (sessionId : Option String) : StreamState := ⟨kind, "", sessionId⟩

def feedClaude (s : StreamState) (event : Json) : StreamState :=
  let s := if s.sessionId.isNone then { s with sessionId := strField event "session_id" } else s
  if strField event "type" = some "assistant" then
    match ((event.get "message").bind (Json.get "content")).bind Json.asArray with
    | none => s
    | some content => if blockText content = "" then s else { s with text := blockText content }
  else if strField event "type" = some "result" then
    let s := { s with sessionId := (strField event "session_id").or s.sessionId }
    match strField event "result" with
    | none => s
    -- a result that is cut short does not replace the answer
    | some result => if s.text.length ≤ result.length then { s with text := result } else s
  else s

def feedCodex (s : StreamState) (event : Json) : StreamState :=
  let eventType := (strField event "type").getD ""
  if eventType = "thread.started" then
    { s with sessionId := (strField event "thread_id").or s.sessionId }
  else if eventType ≠ "item.completed" then s
  else
    let item := event.get "item"
    if item.bind (strField · "type") ≠ some "agent_message" then s
    else
      let message := (item.bind (strField · "text")).getD ""
      if message = "" then s
      else if s.text = "" then { s with text := message }
      else { s with text := s.text ++ "\n\n" ++ message }

variable (ft : JsonGrammar.FloatText)

def feed (s : StreamState) (line : List Char) : StreamState :=
  if isBlank line then s
  else
    match s.kind with
    | .plainLines =>
        { s with text := (if s.text = "" then s.text else s.text ++ "\n") ++ String.ofList line }
    | .claudeStreamJson =>
        match JsonGrammar.parse ft line with
        | .ok event => s.feedClaude event
        | .error _ => s
    | .codexJsonl =>
        match JsonGrammar.parse ft line with
        | .ok event => s.feedCodex event
        | .error _ => s

/-- The thread that reads the standard output of a process. -/
def readOutput (kind : StreamKind) (sessionId : Option String) (bytes : List UInt8) :
    StreamState := (outputLines bytes).foldl (feed ft) (new kind sessionId)

end StreamState

end Stackhour.Node
