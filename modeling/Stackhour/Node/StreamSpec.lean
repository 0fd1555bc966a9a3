import Mathlib.Data.List.Induction
import Stackhour.Core.JsonCompact
import Stackhour.Node.Stream

/-!
# The answer of a provider

What `StreamState` has at the end of an output, said of the events that were printed: between
them there may be lines that are no events, and the last line may be cut short.
-/

namespace Stackhour.Node

open Core Domain JsonGrammar

/-! ## What an event says -/

/-- The text of an answer of Claude. -/
def answer (event : Json) : Option String :=
  if strField event "type" = some "assistant" then
    ((((event.get "message").bind (Json.get "content")).bind Json.asArray).map blockText).filter
      (· ≠ "")
  else none

/-- The closing text of a turn of Claude. -/
def result (event : Json) : Option String :=
  if strField event "type" = some "result" then strField event "result" else none

def resultSession (event : Json) : Option String :=
  if strField event "type" = some "result" then strField event "session_id" else none

/-- A message of Codex. -/
def agentMessage (event : Json) : Option String :=
  if strField event "type" = some "item.completed" ∧
      (event.get "item").bind (strField · "type") = some "agent_message" then
    ((event.get "item").bind (strField · "text")).filter (· ≠ "")
  else none

def threadStarted (event : Json) : Option String :=
  if strField event "type" = some "thread.started" then strField event "thread_id" else none

/-! ## What an output says -/

/-- The last answer, and the results after it. -/
def standing (events : List Json) : List String :=
  (events.filterMap answer).getLast?.getD "" ::
    (events.reverse.takeWhile fun e => (answer e).isNone).reverse.filterMap result

/-- The last of the longest texts. -/
def LastLongest (text : String) (texts : List String) : Prop :=
  ∃ before after, texts = before ++ text :: after ∧ (∀ t ∈ before, t.length ≤ text.length) ∧
    ∀ t ∈ after, t.length < text.length

/-- The last session of a result; else the one resumed; else the first that was named. -/
def claudeSession (resumed : Option String) (events : List Json) : Option String :=
  ((events.filterMap resultSession).getLast?.or resumed).or
    (events.filterMap (strField · "session_id")).head?

def codexText (events : List Json) : String := "\n\n".intercalate (events.filterMap agentMessage)

def codexSession (resumed : Option String) (events : List Json) : Option String :=
  (events.filterMap threadStarted).getLast?.or resumed

/-! ## One event -/

namespace StreamState

variable (s : StreamState) (event : Json)

theorem feedClaude_kind : (s.feedClaude event).kind = s.kind := by
  unfold feedClaude
  dsimp only
  split_ifs <;> (try split) <;> (try split_ifs) <;> rfl

theorem feedClaude_session : (s.feedClaude event).sessionId =
    (resultSession event).or (s.sessionId.or (strField event "session_id")) := by
  have hstart : (if s.sessionId.isNone then { s with sessionId := strField event "session_id" }
      else s).sessionId = s.sessionId.or (strField event "session_id") := by
    cases h : s.sessionId with
    | none => simp
    | some id => simp [h]
  unfold feedClaude resultSession
  dsimp only
  generalize (if s.sessionId.isNone then { s with sessionId := strField event "session_id" }
    else s) = start at hstart
  by_cases hassistant : strField event "type" = some "assistant"
  · have hresult : strField event "type" ≠ some "result" := by
      rw [hassistant]
      decide
    rw [if_pos hassistant, if_neg hresult, Option.none_or, ← hstart]
    split
    · rfl
    · split_ifs <;> rfl
  · rw [if_neg hassistant]
    by_cases hresult : strField event "type" = some "result"
    · rw [if_pos hresult, if_pos hresult, ← hstart]
      split
      · rfl
      · split_ifs <;> rfl
    · rw [if_neg hresult, if_neg hresult, Option.none_or]
      exact hstart

theorem feedClaude_text : (s.feedClaude event).text =
    (answer event).getD
      (((result event).filter (s.text.length ≤ ·.length)).getD s.text) := by
  have hstart : (if s.sessionId.isNone then { s with sessionId := strField event "session_id" }
      else s).text = s.text := by
    split_ifs <;> rfl
  unfold feedClaude answer result
  dsimp only
  generalize (if s.sessionId.isNone then { s with sessionId := strField event "session_id" }
    else s) = start at hstart
  by_cases hassistant : strField event "type" = some "assistant"
  · have hresult : strField event "type" ≠ some "result" := by
      rw [hassistant]
      decide
    rw [if_pos hassistant, if_pos hassistant, if_neg hresult]
    cases ((event.get "message").bind (Json.get "content")).bind Json.asArray with
    | none => exact hstart
    | some content =>
        by_cases hblank : blockText content = ""
        · simp [hblank, hstart, Option.filter]
        · simp [hblank, Option.filter]
  · rw [if_neg hassistant, if_neg hassistant]
    by_cases hresult : strField event "type" = some "result"
    · rw [if_pos hresult, if_pos hresult]
      cases strField event "result" with
      | none => exact hstart
      | some text =>
          by_cases hlong : s.text.length ≤ text.length
          · simp [hstart, hlong, Option.filter]
          · simp [hstart, hlong, Option.filter]
    · rw [if_neg hresult, if_neg hresult]
      exact hstart

theorem feedCodex_kind : (s.feedCodex event).kind = s.kind := by
  unfold feedCodex
  dsimp only
  split_ifs <;> rfl

theorem feedCodex_session : (s.feedCodex event).sessionId =
    (threadStarted event).or s.sessionId := by
  unfold feedCodex threadStarted
  dsimp only
  cases htype : strField event "type" with
  | none =>
      rw [Option.getD_none, if_neg (by decide), if_pos (by decide), if_neg nofun, Option.none_or]
  | some type =>
      rw [Option.getD_some]
      by_cases hstarted : type = "thread.started"
      · rw [if_pos hstarted, if_pos (congrArg some hstarted)]
      · rw [if_neg hstarted, if_neg fun h => hstarted (Option.some.inj h), Option.none_or]
        split_ifs <;> rfl

/-- A message goes behind an empty line. -/
def joinTo (sep text message : String) : String :=
  if text = "" then message else text ++ sep ++ message

theorem feedCodex_text : (s.feedCodex event).text =
    ((agentMessage event).map (joinTo "\n\n" s.text)).getD s.text := by
  unfold feedCodex agentMessage
  dsimp only
  cases htype : strField event "type" with
  | none =>
      rw [Option.getD_none, if_neg (by decide), if_pos (by decide), if_neg fun h => nomatch h.1]
      rfl
  | some type =>
      rw [Option.getD_some]
      by_cases hstarted : type = "thread.started"
      · rw [if_pos hstarted, if_neg fun h => ?_]
        · rfl
        · rw [hstarted] at h
          exact absurd (Option.some.inj h.1) (by decide)
      · rw [if_neg hstarted]
        by_cases hcompleted : type = "item.completed"
        · rw [if_neg (not_not.mpr hcompleted)]
          by_cases hagent : (event.get "item").bind (strField · "type") = some "agent_message"
          · have hsays : some type = some "item.completed" ∧
                (event.get "item").bind (strField · "type") = some "agent_message" :=
              ⟨congrArg some hcompleted, hagent⟩
            rw [if_neg (not_not.mpr hagent), if_pos hsays]
            cases (event.get "item").bind (strField · "text") with
            | none => simp
            | some message =>
                unfold joinTo
                by_cases hempty : message = ""
                · simp [hempty, Option.filter]
                · by_cases hfirst : s.text = "" <;> simp [hempty, hfirst, Option.filter]
          · rw [if_pos hagent, if_neg fun h => hagent h.2]
            rfl
        · rw [if_pos hcompleted, if_neg fun h => hcompleted (Option.some.inj h.1)]
          rfl

end StreamState

/-! ## All events -/

section Folds

variable {α β : Type*}

/-- The last that is written stays. -/
theorem foldl_or (write : α → Option β) (xs : List α) (start : Option β) :
    xs.foldl (fun o x => (write x).or o) start = (xs.filterMap write).getLast?.or start := by
  induction xs using List.reverseRecOn with
  | nil => rfl
  | append_singleton xs x ih =>
      rw [List.foldl_append, List.filterMap_append, List.foldl_cons, List.foldl_nil, ih]
      cases h : write x with
      | none => simp [h]
      | some b => simp [h]

/-- Texts that are not empty are joined one by one. -/
theorem foldl_joinTo (sep : String) {texts : List String} (h : ∀ t ∈ texts, t ≠ "") :
    texts.foldl (StreamState.joinTo sep) "" = sep.intercalate texts ∧
      (texts ≠ [] → sep.intercalate texts ≠ "") := by
  induction texts using List.reverseRecOn with
  | nil => exact ⟨String.intercalate_nil.symm, fun hne => absurd rfl hne⟩
  | append_singleton texts t ih =>
      obtain ⟨hfold, hne⟩ := ih fun u hu => h u (List.mem_append_left _ hu)
      have ht := h t (List.mem_append_right _ (List.mem_singleton_self t))
      rw [List.foldl_append, List.foldl_cons, List.foldl_nil, hfold]
      unfold StreamState.joinTo
      by_cases hempty : texts = []
      · subst hempty
        rw [String.intercalate_nil, if_pos rfl, List.nil_append, String.intercalate_singleton]
        exact ⟨rfl, fun _ => ht⟩
      · rw [if_neg (hne hempty), String.intercalate_append_of_ne_nil hempty (by simp),
          String.intercalate_singleton]
        refine ⟨rfl, fun _ hblank => ht ?_⟩
        exact (String.append_eq_empty_iff.mp hblank).2

end Folds

section Runs

variable (events : List Json) (resumed : Option String)

theorem foldl_feedCodex : let s := events.foldl StreamState.feedCodex (.new .codexJsonl resumed)
    s.text = codexText events ∧ s.sessionId = codexSession resumed events := by
  have hfold : ∀ (events : List Json) (s : StreamState),
      (events.foldl StreamState.feedCodex s).text =
        (events.filterMap agentMessage).foldl (StreamState.joinTo "\n\n") s.text ∧
      (events.foldl StreamState.feedCodex s).sessionId =
        events.foldl (fun o e => (threadStarted e).or o) s.sessionId := by
    intro events
    induction events with
    | nil => exact fun s => ⟨rfl, rfl⟩
    | cons e events ih =>
        intro s
        obtain ⟨htext, hsession⟩ := ih (s.feedCodex e)
        rw [List.foldl_cons, List.foldl_cons, htext, hsession, s.feedCodex_text,
          s.feedCodex_session]
        refine ⟨?_, rfl⟩
        cases h : agentMessage e with
        | none => rw [List.filterMap_cons_none h]; rfl
        | some message => rw [List.filterMap_cons_some h]; rfl
  have hmessages : ∀ m ∈ events.filterMap agentMessage, m ≠ "" := by
    intro m hm
    obtain ⟨e, -, he⟩ := List.mem_filterMap.mp hm
    unfold agentMessage at he
    split at he
    · simpa using (Option.filter_eq_some_iff.mp he).2
    · cases he
  obtain ⟨htext, hsession⟩ := hfold events (.new .codexJsonl resumed)
  constructor
  · rw [htext]
    exact (foldl_joinTo "\n\n" hmessages).1
  · rw [hsession, foldl_or]
    rfl

theorem LastLongest.snoc {text : String} {texts : List String} (h : LastLongest text texts)
    (more : String) : LastLongest
      (((some more).filter (text.length ≤ ·.length)).getD text) (texts ++ [more]) := by
  obtain ⟨before, after, rfl, hbefore, hafter⟩ := h
  by_cases hlong : text.length ≤ more.length
  · have hmore : ((some more).filter (text.length ≤ ·.length)).getD text = more := by
      simp [Option.filter, hlong]
    rw [hmore]
    refine ⟨before ++ text :: after, [], rfl, ?_, nofun⟩
    intro t ht
    rcases List.mem_append.mp ht with ht | ht
    · exact (hbefore t ht).trans hlong
    · rcases List.mem_cons.mp ht with rfl | ht
      · exact hlong
      · exact (hafter t ht).le.trans hlong
  · have htext : ((some more).filter (text.length ≤ ·.length)).getD text = text := by
      simp [Option.filter, hlong]
    rw [htext]
    refine ⟨before, after ++ [more], by simp, hbefore, ?_⟩
    intro t ht
    rcases List.mem_append.mp ht with ht | ht
    · exact hafter t ht
    · obtain rfl := List.mem_singleton.mp ht
      exact Nat.lt_of_not_le hlong

theorem standing_answer {event : Json} {text : String} (h : answer event = some text) :
    standing (events ++ [event]) = [text] := by
  unfold standing
  rw [List.filterMap_append, List.filterMap_cons_some h, List.reverse_append]
  simp [h]

theorem standing_other {event : Json} (h : answer event = none) :
    standing (events ++ [event]) = standing events ++ (result event).toList := by
  unfold standing
  rw [List.filterMap_append, List.filterMap_cons_none h, List.filterMap_nil, List.append_nil,
    List.reverse_append, List.reverse_singleton, List.singleton_append,
    List.takeWhile_cons_of_pos (by rw [h]; rfl), List.reverse_cons, List.filterMap_append,
    List.cons_append]
  cases hresult : result event with
  | none => rw [List.filterMap_cons_none hresult]; rfl
  | some text => rw [List.filterMap_cons_some hresult]; rfl

/-- By induction on the events, the last one first. -/
theorem foldl_feedClaude :
    let s := events.foldl StreamState.feedClaude (.new .claudeStreamJson resumed)
    LastLongest s.text (standing events) ∧ s.sessionId = claudeSession resumed events := by
  dsimp only
  induction events using List.reverseRecOn with
  | nil =>
      refine ⟨⟨[], [], rfl, nofun, nofun⟩, ?_⟩
      unfold claudeSession
      simp [StreamState.new]
  | append_singleton events event ih =>
      obtain ⟨htext, hsession⟩ := ih
      rw [List.foldl_append, List.foldl_cons, List.foldl_nil]
      generalize events.foldl StreamState.feedClaude (.new .claudeStreamJson resumed) = s at *
      rw [s.feedClaude_text, s.feedClaude_session, hsession]
      constructor
      · cases hanswer : answer event with
        | some text =>
            rw [standing_answer events hanswer]
            exact ⟨[], [], rfl, nofun, nofun⟩
        | none =>
            rw [standing_other events hanswer, Option.getD_none]
            cases result event with
            | none =>
                rw [Option.toList_none, List.append_nil]
                exact htext
            | some more => exact htext.snoc more
      · have hlast : ([event].filterMap resultSession).getLast? = resultSession event := by
          cases h : resultSession event <;> simp [h]
        have hfirst : ([event].filterMap (strField · "session_id")).head? =
            strField event "session_id" := by
          cases h : strField event "session_id" <;> simp [h]
        unfold claudeSession
        rw [List.filterMap_append, List.filterMap_append, List.getLast?_append,
          List.head?_append, hlast, hfirst]
        simp only [Option.or_assoc]

end Runs

/-! ## Lines of an output -/

variable {ft : FloatText}

/-- A line that is no event. -/
def Unreadable (ft : FloatText) (line : List Char) : Prop :=
  isBlank line = true ∨ ∃ message, parse ft line = .error message

/-- The events among some lines. -/
def eventsIn (ft : FloatText) (lines : List (List Char)) : List Json :=
  lines.filterMap fun line => if isBlank line then none else (parse ft line).toOption

theorem eventsIn_cons_unreadable {line : List Char} (h : Unreadable ft line)
    (lines : List (List Char)) : eventsIn ft (line :: lines) = eventsIn ft lines := by
  apply List.filterMap_cons_none
  rcases h with h | ⟨message, h⟩
  · rw [if_pos h]
  · split_ifs
    · rfl
    · rw [h]
      rfl

theorem eventsIn_cons_event {line : List Char} (hblank : isBlank line = false) {event : Json}
    (h : parse ft line = .ok event) (lines : List (List Char)) :
    eventsIn ft (line :: lines) = event :: eventsIn ft lines := by
  apply List.filterMap_cons_some
  rw [hblank, if_neg Bool.false_ne_true, h]
  rfl

namespace StreamState

/-- A kind of output whose lines are events that `take` takes. -/
structure Takes (ft : FloatText) (kind : StreamKind) (take : StreamState → Json → StreamState) :
    Prop where
  keeps : ∀ s event, (take s event).kind = s.kind
  event : ∀ (s : StreamState) line event, s.kind = kind → isBlank line = false →
    parse ft line = .ok event → s.feed ft line = take s event
  other : ∀ (s : StreamState) line message, s.kind = kind → parse ft line = .error message →
    s.feed ft line = s

theorem takes_claude (ft : FloatText) : Takes ft .claudeStreamJson feedClaude where
  keeps := feedClaude_kind
  event s line event hs hblank hparse := by
    unfold feed
    rw [hblank, if_neg Bool.false_ne_true, hs]
    dsimp only
    rw [hparse]
  other s line message hs hparse := by
    unfold feed
    rw [hs]
    dsimp only
    rw [hparse, ite_self]

theorem takes_codex (ft : FloatText) : Takes ft .codexJsonl feedCodex where
  keeps := feedCodex_kind
  event s line event hs hblank hparse := by
    unfold feed
    rw [hblank, if_neg Bool.false_ne_true, hs]
    dsimp only
    rw [hparse]
  other s line message hs hparse := by
    unfold feed
    rw [hs]
    dsimp only
    rw [hparse, ite_self]

/-- Only the events count. -/
theorem Takes.foldl_feed {kind : StreamKind} {take : StreamState → Json → StreamState}
    (h : Takes ft kind take) (lines : List (List Char)) {s : StreamState} (hs : s.kind = kind) :
    lines.foldl (feed ft) s = (eventsIn ft lines).foldl take s := by
  induction lines generalizing s with
  | nil => rfl
  | cons line lines ih =>
      rw [List.foldl_cons]
      by_cases hblank : isBlank line = true
      · have hfeed : s.feed ft line = s := by
          unfold feed
          rw [if_pos hblank]
        rw [hfeed, eventsIn_cons_unreadable (.inl hblank), ih hs]
      · have hshown : isBlank line = false := Bool.eq_false_iff.mpr hblank
        cases hparse : parse ft line with
        | error message =>
            rw [h.other s line message hs hparse,
              eventsIn_cons_unreadable (.inr ⟨message, hparse⟩), ih hs]
        | ok event =>
            rw [h.event s line event hs hshown hparse, eventsIn_cons_event hshown hparse,
              ih ((h.keeps s event).trans hs), List.foldl_cons]

end StreamState

/-! ## What was printed -/

/-- A line of an output: an event, or anything else. -/
inductive Printed where
  | event (v : Json)
  | noise (line : List UInt8)

def Printed.bytes (ft : FloatText) : Printed → List UInt8
  | event v => Utf8.encode (compact ft v) ++ [Utf8.newline]
  | noise line => line ++ [Utf8.newline]

def Printed.event? : Printed → Option Json
  | event v => some v
  | noise _ => none

/-- An event that JSON can carry, or a line of text that is no JSON. -/
def Printed.Carried (ft : FloatText) : Printed → Prop
  | event v => v.Fits 127
  | noise line => Utf8.newline ∉ line ∧
      ∃ text, Utf8.decode (chomp line) = some text ∧ Unreadable ft text

theorem outputLines_cons {line : List UInt8} (h : Utf8.newline ∉ line) {text : List Char}
    (htext : Utf8.decode (chomp line) = some text) (more : List UInt8) :
    outputLines (line ++ [Utf8.newline] ++ more) = text :: outputLines more := by
  have hraw : rawLines (line ++ [Utf8.newline] ++ more) = chomp line :: rawLines more := by
    unfold rawLines
    rw [List.append_assoc, List.singleton_append, Lines.complete_append_cons,
      Lines.rest_append_cons, List.splitOn_eq_singleton h]
    rfl
  unfold outputLines
  rw [hraw, List.map_cons, htext, List.takeWhile_cons_of_pos rfl]
  rfl

/-- A last line that was cut short gives no event. -/
theorem eventsIn_tail {tail : List UInt8} (h : Utf8.newline ∉ tail)
    (htail : ∀ text, Utf8.decode tail = some text → Unreadable ft text) :
    eventsIn ft (outputLines tail) = [] := by
  have hraw : rawLines tail = [tail].filter (fun line => !line.isEmpty) := by
    unfold rawLines Lines.rest
    rw [Lines.complete_of_not_mem h, List.splitOn_eq_singleton h]
    rfl
  unfold outputLines
  rw [hraw]
  cases tail with
  | nil => rfl
  | cons b tail =>
      rw [List.filter_cons_of_pos rfl, List.filter_nil, List.map_cons, List.map_nil]
      cases hdecode : Utf8.decode (b :: tail) with
      | none => rfl
      | some text =>
          rw [List.takeWhile_cons_of_pos rfl]
          exact eventsIn_cons_unreadable (htail text hdecode) []

theorem isWhitespace_word {c : Char} (h : isWordChar c = true) : isWhitespace c = false := by
  have hnarrow : c.toNat < 0x80 := by
    have hranges : isWordChar c = (((((decide (65 ≤ c.val ∧ c.val ≤ 90) ||
        (decide (97 ≤ c.val) && decide (c.val ≤ 122))) ||
        (decide (48 ≤ c.val) && decide (c.val ≤ 57))) ||
        c == '+') || c == '-') || c == '.') := rfl
    rw [hranges] at h
    simp only [Bool.or_eq_true, Bool.and_eq_true, decide_eq_true_eq, beq_iff_eq,
      UInt32.le_iff_toNat_le] at h
    rcases h with (((((h | h) | h) | rfl) | rfl) | rfl)
    · exact Nat.lt_of_le_of_lt h.2 (by decide)
    · exact Nat.lt_of_le_of_lt h.2 (by decide)
    · exact Nat.lt_of_le_of_lt h.2 (by decide)
    · decide
    · decide
    · decide
  have hall : ∀ n < 0x80, isWordChar (Char.ofNat n) = true →
      isWhitespace (Char.ofNat n) = false := by decide
  have hc := hall c.toNat hnarrow
  rw [Char.ofNat_toNat] at hc
  exact hc h

/-- A document is no blank line. -/
theorem isBlank_compact (hft : ft.Lawful) (v : Json) : isBlank (compact ft v) = false := by
  have hhead : ∃ c rest, compact ft v = c :: rest ∧ isWhitespace c = false := by
    cases v with
    | null => exact ⟨_, _, rfl, by decide⟩
    | bool b => cases b <;> exact ⟨_, _, rfl, by decide⟩
    | number n =>
        obtain ⟨hne, hword⟩ := numberText_word hft n
        obtain ⟨c, rest, heq⟩ := List.exists_cons_of_ne_nil hne
        exact ⟨c, rest, heq, isWhitespace_word (hword c (heq ▸ List.mem_cons_self))⟩
    | string s => exact ⟨_, _, rfl, by decide⟩
    | array items => cases items <;> exact ⟨_, _, rfl, by decide⟩
    | object fields => cases fields <;> exact ⟨_, _, rfl, by decide⟩
  obtain ⟨c, rest, heq, hc⟩ := hhead
  unfold isBlank
  rw [heq, List.all_cons, hc, Bool.false_and]

theorem chomp_encode {cs : List Char} (h : '\r' ∉ cs) :
    chomp (Utf8.encode cs) = Utf8.encode cs := by
  unfold chomp
  rw [if_neg]
  intro hlast
  exact h (Utf8.ascii_mem_encode (by decide) (List.mem_of_getLast? hlast))

/-- The events of an output are those that were printed. -/
theorem eventsIn_printed (hft : ft.Lawful) {printed : List Printed}
    (h : ∀ p ∈ printed, p.Carried ft) {tail : List UInt8} (hnewline : Utf8.newline ∉ tail)
    (htail : ∀ text, Utf8.decode tail = some text → Unreadable ft text) :
    eventsIn ft (outputLines (printed.flatMap (Printed.bytes ft) ++ tail)) =
      printed.filterMap Printed.event? := by
  induction printed with
  | nil => exact eventsIn_tail hnewline htail
  | cons p printed ih =>
      have hrest := ih fun q hq => h q (List.mem_cons_of_mem p hq)
      have hp := h p List.mem_cons_self
      rw [List.flatMap_cons, List.append_assoc]
      cases p with
      | noise line =>
          obtain ⟨hline, text, htext, hunreadable⟩ := hp
          change eventsIn ft (outputLines (line ++ [Utf8.newline] ++ _)) = _
          rw [outputLines_cons hline htext, eventsIn_cons_unreadable hunreadable]
          exact hrest
      | event v =>
          have hplain := compact_plain hft hp
          have hline : Utf8.newline ∉ Utf8.encode (compact ft v) := fun hmem =>
            absurd (hplain _ (Utf8.newline_mem_encode hmem)) (by decide)
          have hreturn : '\r' ∉ compact ft v := fun hmem => absurd (hplain _ hmem) (by decide)
          have hdecode : Utf8.decode (chomp (Utf8.encode (compact ft v))) =
              some (compact ft v) := by
            rw [chomp_encode hreturn, Utf8.decode_encode]
          change eventsIn ft (outputLines (Utf8.encode (compact ft v) ++ [Utf8.newline] ++ _)) = _
          rw [outputLines_cons hline hdecode,
            eventsIn_cons_event (isBlank_compact hft v) (parse_compact hft hp)]
          exact congrArg (v :: ·) hrest

/-- An object of strings. -/
def strings (fields : List (String × String)) : Json :=
  .object (fields.map fun f => (f.1, .string f.2))

theorem strings_fits {fields : List (String × String)} (h : (fields.map Prod.fst).Nodup)
    (depth : ℕ) : (strings fields).Fits (depth + 1) := by
  refine .object ?_ ?_
  · unfold Table.Unique
    rwa [List.map_map]
  · intro f hf
    obtain ⟨g, -, rfl⟩ := List.mem_map.mp hf
    exact .string _

def codexTurn : List Printed :=
  [.event (strings [("type", "thread.started"), ("thread_id", "t1")]),
    .noise (Utf8.encode "WARN slow".toList),
    .event (.object [("type", .string "item.completed"),
      ("item", strings [("type", "agent_message"), ("text", "Done.")])])]

theorem codexTurn_carried : ∀ p ∈ codexTurn, p.Carried floatBits := by
  intro p hp
  simp only [codexTurn, List.mem_cons, List.not_mem_nil, or_false] at hp
  rcases hp with rfl | rfl | rfl
  · exact strings_fits (by decide) 126
  · exact ⟨by decide, _, Utf8.decode_encode _, .inr ⟨_, rfl⟩⟩
  · refine .object (by decide : ["type", "item"].Nodup) ?_
    intro f hf
    rcases List.mem_pair.mp hf with rfl | rfl
    · exact .string _
    · exact strings_fits (by decide) 125

end Stackhour.Node
