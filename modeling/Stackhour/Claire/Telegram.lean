import Mathlib.Data.List.Infix
import Stackhour.Core.JsonText
import Stackhour.Lib.Chunks
import Stackhour.Tracker.AgentStatus

/-!
# The Telegram client

`Telegram::call` with its attempts, the chunks of a long text, and the Bot API
simulator that the client is run against. What the network does to a request is an
input: a client sees an answer or the error of its request, nothing else.
-/

namespace Stackhour.Claire

open Domain

/-! ## Texts -/

/-- `TELEGRAM_CHUNK_UTF16_UNITS`. -/
def chunkUnits : ℕ := 4000

/-- `encode_utf16().count()`. -/
def utf16Units (s : String) : ℕ := Chunks.weight Tracker.lenUtf16 s.toList

/-- `telegram_chunks`. -/
def telegramChunks (text : String) (maxUnits : ℕ) : List String :=
  if text.toList = [] then [""]
  else (Chunks.cutFrom Tracker.lenUtf16 maxUnits [] 0 text.toList).map String.ofList

/-! ## Requests -/

structure TelegramConfig where
  token : String
  chatId : ℤ
  attempts : ℕ
  backoffBaseMs : ℕ
  retryAfterSlackSecs : ℕ
  longPollSecs : ℕ

/-- `TelegramConfig::new`. -/
def TelegramConfig.new (token : String) (chatId : ℤ) : TelegramConfig :=
  ⟨token, chatId, 5, 500, 1, 50⟩

/-- The errors that `safe_request_error` tells apart. -/
inductive RequestError where
  | timeout
  | connect
  | decode
  | other
deriving DecidableEq

/-- `safe_request_error`: no text of it has the URL, which holds the token. -/
def safeRequestError : RequestError → String
  | .timeout => "request timed out"
  | .connect => "connection failed"
  | .decode => "response decoding failed"
  | .other => "request failed"

/-- What a request comes back with. -/
inductive Reply where
  | error (e : RequestError)
  | answer (status : ℕ) (data : Json)

inductive Attempt where
  | done (result : Json)
  | swallow
  | terminal (description : String)
  | rateLimited (secs : ℕ)
  | failed (message : String)

/-- `to_lowercase().contains("not modified")`. No character outside ASCII is lowered to
the letters of these words: `İ` becomes an `i` with a dot that follows it. -/
def notModified (description : String) : Bool :=
  decide ("not modified".toList <:+: description.toList.map Char.toLower)

namespace TelegramConfig

variable (config : TelegramConfig)

/-- `attempt`, from the answer on. -/
def attempt : Reply → Attempt
  | .error e => .failed (safeRequestError e)
  | .answer status data =>
      if ((data.get "ok").bind Json.asBool).getD false then
        .done ((data.get "result").getD .null)
      else
        let description := ((data.get "description").bind Json.asStr).getD ""
        let retryAfter :=
          ((data.get "parameters").bind (Json.get "retry_after")).bind Json.asU64
        match if status = 429 then retryAfter else none with
        | some seconds => .rateLimited ((seconds + config.retryAfterSlackSecs) % 2 ^ 64)
        | none =>
            if notModified description then .swallow
            else if status = 400 ∨ status = 404 then .terminal description
            else .failed (if description = "" then "HTTP " ++ toString status else description)

end TelegramConfig

/-- The other end: the bot and the method of a path and a body, answered by the world. -/
abbrev Remote (W : Type) := String → String → Json → W → Reply × W

/-- What a call comes to: its result, the world after it, and the milliseconds it slept
between its attempts. -/
structure Called (W : Type) where
  result : Option Json
  world : W
  waits : List ℕ

def Called.after {W : Type} (wait : ℕ) (c : Called W) : Called W :=
  { c with waits := wait :: c.waits }

namespace TelegramConfig

variable {W : Type} (config : TelegramConfig)

/-- The loop of `call` with so many attempts left. A rate limit is waited out even
behind the last attempt, a failure is not. -/
def callFrom (post : W → Reply × W) : ℕ → W → Called W
  | 0, w => ⟨none, w, []⟩
  | left + 1, w =>
      match config.attempt (post w).1 with
      | .done result => ⟨some result, (post w).2, []⟩
      | .swallow => ⟨none, (post w).2, []⟩
      | .terminal _ => ⟨none, (post w).2, []⟩
      | .rateLimited secs => (callFrom post left (post w).2).after (secs * 1000)
      | .failed _ =>
          if left = 0 then ⟨none, (post w).2, []⟩
          else (callFrom post left (post w).2).after
            (config.backoffBaseMs * (config.attempts - left))

/-- `call`: the path and the body of a request, as the world answers them. -/
def call (remote : Remote W) (method : String) (body : Json) (w : W) : Called W :=
  config.callFrom (remote ("bot" ++ config.token) method body) config.attempts w

def sendBody (text : String) : Json :=
  .object [("chat_id", .number (.int config.chatId)), ("text", .string text),
    ("disable_web_page_preview", .bool true)]

def updatesBody (offset : ℤ) : Json :=
  .object [("offset", .number (.int offset)), ("timeout", .number (.int config.longPollSecs)),
    ("allowed_updates", .array [.string "message", .string "edited_message"])]

/-- `send`. -/
def send (remote : Remote W) (text : String) (w : W) : Called W :=
  config.call remote "sendMessage" (config.sendBody text) w

/-- The chunks are sent one after another until one is not. -/
def sendAll (remote : Remote W) : List String → W → Bool × W
  | [], w => (true, w)
  | chunk :: chunks, w =>
      if (config.send remote chunk w).result.isSome then
        sendAll remote chunks (config.send remote chunk w).world
      else (false, (config.send remote chunk w).world)

/-- `send_text`. -/
def sendText (remote : Remote W) (text : String) (w : W) : Bool × W :=
  config.sendAll remote (telegramChunks text chunkUnits) w

end TelegramConfig

/-! ## The simulator -/

/-- `FakeTelegram` and its `FakeState`. -/
structure FakeTelegram where
  chatId : ℤ
  botToken : String
  nextUpdateId : ℤ
  nextMessageId : ℤ
  nextTranscriptId : ℤ
  updates : List Json
  outgoing : List Json
  transcript : List Json

/-- `MAX_HISTORY`. -/
def maxHistory : ℕ := 1000

/-- `trim_history`. -/
def trimHistory (values : List Json) : List Json := values.drop (values.length - maxHistory)

namespace FakeTelegram

/-- `push_transcript`. -/
def pushTranscript (direction text : String) (s : FakeTelegram) : FakeTelegram :=
  { s with
    nextTranscriptId := s.nextTranscriptId + 1
    transcript := trimHistory (s.transcript ++ [.object [("id", .number (.int s.nextTranscriptId)),
      ("direction", .string direction), ("text", .string text)]]) }

/-- `telegram_error`. -/
def error (status : ℕ) (description : String) : ℕ × Json :=
  (status, .object [("ok", .bool false), ("description", .string description)])

/-- The message that `sendMessage` keeps. -/
def outgoingMessage (s : FakeTelegram) (now : ℤ) (text : String) : Json :=
  .object [("message_id", .number (.int s.nextMessageId)), ("date", .number (.int now)),
    ("chat", .object [("id", .number (.int s.chatId)), ("type", .string "private")]),
    ("from", .object [("id", .number (.int 0)), ("is_bot", .bool true),
      ("first_name", .string "Claire")]),
    ("text", .string text)]

/-- A message of the bot is kept and shown. -/
def keepMessage (now : ℤ) (text : String) (s : FakeTelegram) : FakeTelegram :=
  { pushTranscript "bot" text { s with nextMessageId := s.nextMessageId + 1 } with
    outgoing := trimHistory (s.outgoing ++ [s.outgoingMessage now text]) }

/-- `sendMessage`. -/
def sendMessage (now : ℤ) (body : Json) (s : FakeTelegram) : (ℕ × Json) × FakeTelegram :=
  if (body.get "chat_id").bind Json.asI64 ≠ some s.chatId then (error 400 "chat not found", s)
  else match (body.get "text").bind Json.asStr with
    | none => (error 400 "text is required", s)
    | some text =>
        if 4096 < utf16Units text then (error 400 "message is too long", s)
        else ((200, .object [("ok", .bool true), ("result", s.outgoingMessage now text)]),
          s.keepMessage now text)

/-- An update with the next number. -/
def pushUpdate (body : Fields) (s : FakeTelegram) : FakeTelegram :=
  { s with
    nextUpdateId := s.nextUpdateId + 1
    updates := trimHistory
      (s.updates ++ [.object (("update_id", .number (.int s.nextUpdateId)) :: body)]) }

/-- The update of a user's message. -/
def userMessage (s : FakeTelegram) (now : ℤ) (text : String) : Fields :=
  [("message", .object [("message_id", .number (.int s.nextMessageId)),
    ("date", .number (.int now)),
    ("chat", .object [("id", .number (.int s.chatId)), ("type", .string "private")]),
    ("from", .object [("id", .number (.int s.chatId)), ("is_bot", .bool false),
      ("first_name", .string "Local user")]),
    ("text", .string text)])]

/-- `text.trim()`. -/
def trimText (text : String) : String := String.ofList (Core.trim text.toList)

/-- `fake_send` for a local request. -/
def fakeSend (now : ℤ) (text : String) (s : FakeTelegram) : ℕ × FakeTelegram :=
  if trimText text = "" ∨ 4096 < utf16Units (trimText text) then (400, s)
  else (200, pushTranscript "user" (trimText text)
    { s.pushUpdate (s.userMessage now (trimText text)) with
      nextMessageId := s.nextMessageId + 1 })

/-- `update.get("update_id")`, with what is used where there is none. -/
def updateId (default : ℤ) (update : Json) : ℤ :=
  ((update.get "update_id").bind Json.asI64).getD default

/-- `confirmed_updates`: what is below the offset is confirmed, and forgotten. -/
def confirm (offset : ℤ) (s : FakeTelegram) : FakeTelegram :=
  if 0 < offset then
    { s with updates := s.updates.filter (fun u => decide (offset ≤ updateId 0 u)) }
  else s

/-- What `getUpdates` answers with. -/
def updatesAnswer (updates : List Json) : ℕ × Json :=
  (200, .object [("ok", .bool true), ("result", .array updates)])

/-- `bot_method` for a local request. A poll that finds no update waits: this is what it
finds at once. -/
def botMethod (now : ℤ) (bot method : String) (body : Json) (s : FakeTelegram) :
    (ℕ × Json) × FakeTelegram :=
  if bot ≠ "bot" ++ s.botToken then (error 404 "unknown Bot API path", s)
  else if method = "getUpdates" then
    let s := s.confirm (((body.get "offset").bind Json.asI64).getD 0)
    (updatesAnswer s.updates, s)
  else if method = "sendMessage" then s.sendMessage now body
  else (error 404 "unknown Bot API method", s)

end FakeTelegram

/-! ## Updates -/

/-- The text that the input loop takes from an update: of a message of its own chat that no
bot wrote. -/
def inputText (chatId : ℤ) (update : Json) : Option String :=
  match (update.get "message").orElse (fun _ => update.get "edited_message") with
  | none => none
  | some message =>
      if ((message.get "chat").bind (Json.get "id")).bind Json.asI64 ≠ some chatId then none
      else if ((message.get "from").bind (Json.get "is_bot")).bind Json.asBool = some true then none
      else (message.get "text").bind Json.asStr

end Stackhour.Claire
