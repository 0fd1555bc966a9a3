import Mathlib.Data.List.Infix
import Mathlib.Tactic.Common
import Stackhour.Claire.Telegram
import Stackhour.Lib.Numbering
import Stackhour.Lib.System

/-!
# The input loop

The long poll of the input thread against the simulator. A request may be lost, its
answer too, and a request that the client has given up may still be served later, with
the offset it was made with. What each update leads to is not followed here: a handled
update is one that the loop has gone past.
-/

namespace Stackhour.Claire

open Domain TransitionSystem

/-- A request for updates at the simulator; `waiting` when it found none. -/
structure Poll where
  conn : ℕ
  offset : ℤ
  waiting : Bool

/-- Where the input thread is. A call's attempts are numbered; `conn` is the request whose
answer is awaited. -/
inductive InboxPhase where
  | polling (attempt : ℕ) (conn : Option ℕ)
  | handling (rest : List Json)

/-- A record of every update made, of those that the simulator forgot for want of room, and
of those handled. -/
structure Record where
  posted : List Json
  trimmed : List Json
  handled : List Json

/-- The simulator, the network and the input thread. -/
structure Inbox where
  server : FakeTelegram
  polls : List Poll
  answers : List (ℕ × (ℕ × Json))
  nextConn : ℕ
  offset : ℤ
  phase : InboxPhase
  record : Record

inductive InboxLabel where
  | say (now : ℤ) (text : String)
  | update (body : Fields)
  | ask
  | serve (i : ℕ)
  | finish (i : ℕ)
  | loseRequest (i : ℕ)
  | loseAnswer (i : ℕ)
  | arrive (i : ℕ)
  | giveUp
  | handle
  | restart

namespace Inbox

/-- The ids stay below what an `i64` holds. -/
def idLimit : ℤ := 2 ^ 63

/-- The next update. -/
def upcoming (s : Inbox) (body : Fields) : Json :=
  .object (("update_id", .number (.int s.server.nextUpdateId)) :: body)

/-- The simulator has taken in one more update. -/
def take (server : FakeTelegram) (body : Fields) (s : Inbox) : Inbox :=
  { s with
    server := server
    record := { s.record with
      posted := s.record.posted ++ [s.upcoming body]
      trimmed := s.record.trimmed ++ (s.server.updates ++ [s.upcoming body]).take
        (s.server.updates.length + 1 - maxHistory) } }

/-- The answer to a request, after it has confirmed what is below its offset. -/
def reply (i : ℕ) (poll : Poll) (s : Inbox) : Inbox :=
  { s with
    server := s.server.confirm poll.offset
    polls := s.polls.eraseIdx i
    answers := s.answers ++
      [(poll.conn, FakeTelegram.updatesAnswer (s.server.confirm poll.offset).updates)] }

/-- `getUpdates` until it waits: a request that finds no update stays. -/
def serve (i : ℕ) (poll : Poll) (s : Inbox) : Inbox :=
  if (s.server.confirm poll.offset).updates = [] then
    { s with
      server := s.server.confirm poll.offset
      polls := s.polls.set i { poll with waiting := true } }
  else s.reply i poll

/-- An attempt failed; behind the last one the call returns nothing and the loop calls
again. -/
def failAttempt (config : TelegramConfig) (attempt : ℕ) (s : Inbox) : Inbox :=
  { s with phase := .polling (if attempt + 1 = config.attempts then 0 else attempt + 1) none }

/-- An answer that the client still waits for. -/
def arrived (config : TelegramConfig) (attempt : ℕ) (answer : ℕ × Json) (s : Inbox) : Inbox :=
  match config.attempt (.answer answer.1 answer.2) with
  | .done result => { s with phase := .handling (result.asArray.getD []) }
  | _ => s.failAttempt config attempt

/-- The loop goes past an update. -/
def handled (update : Json) (rest : List Json) (s : Inbox) : Inbox :=
  { s with
    offset := FakeTelegram.updateId s.offset update + 1
    phase := .handling rest
    record := { s.record with handled := s.record.handled ++ [update] } }

def step (config : TelegramConfig) (s : Inbox) : InboxLabel → Option Inbox
  | .say now text =>
      if s.server.nextUpdateId + 1 < idLimit ∧ (s.server.fakeSend now text).1 = 200 then
        some (s.take (s.server.fakeSend now text).2
          (s.server.userMessage now (FakeTelegram.trimText text)))
      else none
  | .update body =>
      if s.server.nextUpdateId + 1 < idLimit then some (s.take (s.server.pushUpdate body) body)
      else none
  | .ask =>
      match s.phase with
      | .polling attempt none =>
          some { s with
            polls := s.polls ++ [⟨s.nextConn, s.offset, false⟩]
            nextConn := s.nextConn + 1
            phase := .polling attempt (some s.nextConn) }
      | _ => none
  | .serve i => (s.polls[i]?.filter (fun p => !p.waiting)).map (fun p => s.serve i p)
  | .finish i => (s.polls[i]?.filter (fun p => p.waiting)).map (fun p => s.reply i p)
  | .loseRequest i => some { s with polls := s.polls.eraseIdx i }
  | .loseAnswer i => some { s with answers := s.answers.eraseIdx i }
  | .arrive i =>
      match s.answers[i]?, s.phase with
      | some (conn, answer), .polling attempt (some awaited) =>
          if conn = awaited then
            some ({ s with answers := s.answers.eraseIdx i }.arrived config attempt answer)
          else none
      | _, _ => none
  | .giveUp =>
      match s.phase with
      | .polling attempt (some _) => some (s.failAttempt config attempt)
      | _ => none
  | .handle =>
      match s.phase with
      | .handling (update :: rest) =>
          some (s.handled update rest)
      | .handling [] => some { s with phase := .polling 0 none }
      | _ => none
  | .restart => some { s with offset := 0, phase := .polling 0 none }

/-- A simulator and an input thread that just started. -/
def initial (config : TelegramConfig) : Inbox :=
  { server := ⟨config.chatId, config.token, 1, 1, 1, [], [], []⟩
    polls := []
    answers := []
    nextConn := 0
    offset := 0
    phase := .polling 0 none
    record := ⟨[], [], []⟩ }

def system (config : TelegramConfig) : System Inbox InboxLabel where
  init s := s = initial config
  step := step config

end Inbox

/-! ## What the simulator holds -/

/-- The first `k` updates are dealt with: handled, or forgotten for want of room. -/
structure Record.Past (r : Record) (k : ℕ) : Prop where
  bound : k ≤ r.posted.length
  done : ∀ u ∈ r.posted.take k, u ∈ r.handled ∨ u ∈ r.trimmed

/-- Updates that follow each other, behind ones that are dealt with. -/
def Record.Follows (r : Record) (updates : List Json) : Prop :=
  ∃ a, updates <+: r.posted.drop a ∧ r.Past a

/-- A record is only ever added to. -/
structure Record.Grows (r r' : Record) : Prop where
  posted : r.posted <+: r'.posted
  handled : r.handled ⊆ r'.handled
  trimmed : r.trimmed ⊆ r'.trimmed

namespace Record

variable {r r' : Record}

/-- What is dealt with stays so. -/
theorem Past.mono {k : ℕ} (h : r.Past k) (hgrows : r.Grows r') : r'.Past k := by
  obtain ⟨more, hmore⟩ := hgrows.posted
  refine ⟨?_, ?_⟩
  · have hbound := h.bound
    rw [← hmore, List.length_append]
    omega
  · intro u hu
    rw [← hmore, List.take_append_of_le_length h.bound] at hu
    exact (h.done u hu).imp (fun hu => hgrows.handled hu) (fun hu => hgrows.trimmed hu)

theorem Follows.mono {updates : List Json} (h : r.Follows updates) (hgrows : r.Grows r') :
    r'.Follows updates := by
  obtain ⟨a, hpre, hpast⟩ := h
  exact ⟨a, hpre.trans (List.IsPrefix.drop hgrows.posted a), hpast.mono hgrows⟩

theorem Past.max {j k : ℕ} (hj : r.Past j) (hk : r.Past k) : r.Past (max j k) := by
  rcases Nat.le_total j k with h | h
  · rwa [Nat.max_eq_right h]
  · rwa [Nat.max_eq_left h]

theorem past_zero (r : Record) : r.Past 0 := ⟨Nat.zero_le _, nofun⟩

end Record

namespace Inbox

/-- **The invariant.** The updates are numbered from one. The simulator holds the last of
them, and what lies before them, before an offset that is in use or before updates on
their way is dealt with. -/
structure Inv (s : Inbox) : Prop where
  numbered : Numbering.Gapless (s.record.posted.map (FakeTelegram.updateId 0))
  named : ∀ u ∈ s.record.posted, ((u.get "update_id").bind Json.asI64).isSome
  next : s.server.nextUpdateId = s.record.posted.length + 1
  held : ∃ d, s.server.updates = s.record.posted.drop d ∧ s.record.Past d
  offset : s.record.Past (s.offset - 1).toNat
  polls : ∀ p ∈ s.polls, s.record.Past (p.offset - 1).toNat
  answers : ∀ r ∈ s.answers, ∃ us, r.2 = FakeTelegram.updatesAnswer us ∧ s.record.Follows us
  handling : ∀ rest, s.phase = .handling rest → s.record.Follows rest

variable {config : TelegramConfig} {s t : Inbox}

/-- What is confirmed is what lies before the offset. -/
theorem confirm_updates {posted : List Json} {server : FakeTelegram} {d : ℕ}
    (hnum : Numbering.Gapless (posted.map (FakeTelegram.updateId 0))) (hd : d ≤ posted.length)
    (hheld : server.updates = posted.drop d) (offset : ℤ) :
    (server.confirm offset).updates = posted.drop (max d (offset - 1).toNat) := by
  unfold FakeTelegram.confirm
  split
  · next hpos =>
    have hafter := Numbering.map_drop_eq_after hnum d hd
    have hlen : (posted.drop d).length = posted.length - d := List.length_drop
    rw [← hlen] at hafter
    have hfilter := Numbering.filter_gt_eq_drop (k := (offset - 1).toNat - d) hafter
    rw [List.drop_drop] at hfilter
    have hmax : d + ((offset - 1).toNat - d) = max d (offset - 1).toNat := by omega
    rw [← hmax, ← hfilter]
    show server.updates.filter _ = _
    rw [hheld]
    apply List.filter_congr
    intro u hu
    have hmem : FakeTelegram.updateId 0 u ∈ (posted.drop d).map (FakeTelegram.updateId 0) :=
      List.mem_map_of_mem hu
    rw [hafter, Numbering.mem_after] at hmem
    rw [decide_eq_decide]
    omega
  · next hpos =>
    have hzero : (offset - 1).toNat = 0 := by omega
    rw [hzero, Nat.max_zero]
    exact hheld

theorem confirm_nextUpdateId (offset : ℤ) (server : FakeTelegram) :
    (server.confirm offset).nextUpdateId = server.nextUpdateId := by
  unfold FakeTelegram.confirm
  split <;> rfl

/-- An update has the number of its place. -/
theorem Inv.updateId_eq (h : s.Inv) {a : ℕ} {u : Json} {rest : List Json}
    (hpre : u :: rest <+: s.record.posted.drop a) (default : ℤ) :
    FakeTelegram.updateId default u = a + 1 ∧ a < s.record.posted.length := by
  obtain ⟨more, hmore⟩ := hpre
  have hlt : a < s.record.posted.length := by
    by_contra hge
    rw [List.drop_eq_nil_of_le (by omega)] at hmore
    exact absurd hmore (by simp)
  have hid : FakeTelegram.updateId 0 u = a + 1 := by
    have hmap := Numbering.map_drop_eq_after h.numbered a (by omega)
    have hpos : s.record.posted.length - a = (s.record.posted.length - a - 1) + 1 := by omega
    rw [← hmore, hpos, Numbering.after, List.range_succ_eq_map] at hmap
    simp only [List.map_cons, List.cons_append] at hmap
    simpa using (List.cons.inj hmap).1
  have hmem : u ∈ s.record.posted := by
    apply List.mem_of_mem_drop (i := a)
    rw [← hmore]
    exact List.mem_cons_self
  obtain ⟨id, hsome⟩ := Option.isSome_iff_exists.mp (h.named u hmem)
  unfold FakeTelegram.updateId at hid ⊢
  rw [hsome] at hid ⊢
  exact ⟨hid, hlt⟩

/-! ## The invariant holds -/

theorem Inv.start (config : TelegramConfig) : (initial config).Inv where
  numbered := rfl
  named := nofun
  next := rfl
  held := ⟨0, rfl, Record.past_zero _⟩
  offset := Record.past_zero _
  polls := nofun
  answers := nofun
  handling := nofun

theorem Inv.upcoming_id (h : s.Inv) (hroom : s.server.nextUpdateId + 1 < idLimit)
    (body : Fields) : ((s.upcoming body).get "update_id").bind Json.asI64 =
      some ((s.record.posted.length : ℤ) + 1) := by
  have hget : (s.upcoming body).get "update_id" =
      some (.number (.int s.server.nextUpdateId)) := by
    simp [upcoming, Json.get]
  rw [h.next] at hroom hget
  unfold idLimit at hroom
  have hrange : -2 ^ 63 ≤ (s.record.posted.length : ℤ) + 1 ∧
      (s.record.posted.length : ℤ) + 1 < 2 ^ 63 := ⟨by omega, by omega⟩
  rw [hget, Option.bind_some, Json.asI64, if_pos hrange]

theorem take_grows (server : FakeTelegram) (body : Fields) (s : Inbox) :
    s.record.Grows (s.take server body).record :=
  ⟨List.prefix_append .., List.Subset.refl _, List.subset_append_left ..⟩

/-- The simulator forgets the oldest updates that it holds. -/
theorem Inv.take_held (h : s.Inv) {server : FakeTelegram} {body : Fields}
    (hupdates : server.updates = trimHistory (s.server.updates ++ [s.upcoming body])) :
    ∃ d, server.updates = (s.take server body).record.posted.drop d ∧
      (s.take server body).record.Past d := by
  obtain ⟨d, hheld, hpast⟩ := h.held
  have hd := hpast.bound
  have hlen : s.server.updates.length = s.record.posted.length - d := by
    rw [hheld, List.length_drop]
  have hall : s.server.updates ++ [s.upcoming body] =
      (s.record.posted ++ [s.upcoming body]).drop d := by
    rw [hheld, List.drop_append_of_le_length hd]
  refine ⟨d + (s.server.updates.length + 1 - maxHistory), ?_, ?_, ?_⟩
  · rw [hupdates, trimHistory, hall, List.drop_drop, ← hall, List.length_append,
      List.length_singleton]
    rfl
  · show _ ≤ (s.record.posted ++ [s.upcoming body]).length
    rw [List.length_append, List.length_singleton, maxHistory]
    omega
  · intro u hu
    change u ∈ (s.record.posted ++ [s.upcoming body]).take _ at hu
    rw [List.take_add, List.mem_append] at hu
    rcases hu with hu | hu
    · rw [List.take_append_of_le_length hd] at hu
      exact (hpast.done u hu).imp_right (fun hu => List.mem_append_left _ hu)
    · rw [← hall] at hu
      exact .inr (List.mem_append_right _ hu)

theorem Inv.take (h : s.Inv) {server : FakeTelegram} {body : Fields}
    (hroom : s.server.nextUpdateId + 1 < idLimit)
    (hnext : server.nextUpdateId = s.server.nextUpdateId + 1)
    (hupdates : server.updates = trimHistory (s.server.updates ++ [s.upcoming body])) :
    (s.take server body).Inv := by
  have hgrows := take_grows server body s
  have hname := h.upcoming_id hroom body
  refine ⟨?_, ?_, ?_, h.take_held hupdates, h.offset.mono hgrows,
    fun p hp => (h.polls p hp).mono hgrows, ?_, ?_⟩
  · show Numbering.Gapless ((s.record.posted ++ [s.upcoming body]).map _)
    rw [List.map_append, List.map_singleton, FakeTelegram.updateId, hname]
    have hsnoc := h.numbered.snoc
    rwa [List.length_map] at hsnoc
  · intro u hu
    rcases List.mem_append.mp hu with hu | hu
    · exact h.named u hu
    · rw [List.mem_singleton.mp hu]
      exact Option.isSome_iff_exists.mpr ⟨_, hname⟩
  · show server.nextUpdateId = ((s.record.posted ++ [s.upcoming body]).length : ℤ) + 1
    rw [hnext, h.next, List.length_append, List.length_singleton]
    push_cast
    rfl
  · intro r hr
    obtain ⟨us, hus, hfollows⟩ := h.answers r hr
    exact ⟨us, hus, hfollows.mono hgrows⟩
  · exact fun rest hrest => (h.handling rest hrest).mono hgrows

/-- The simulator confirms below an offset that is dealt with. -/
theorem Inv.confirm_held (h : s.Inv) {offset : ℤ}
    (hoffset : s.record.Past (offset - 1).toNat) :
    s.record.Follows (s.server.confirm offset).updates ∧
    ∃ d, (s.server.confirm offset).updates = s.record.posted.drop d ∧ s.record.Past d := by
  obtain ⟨d, hheld, hpast⟩ := h.held
  have heq := confirm_updates h.numbered hpast.bound hheld offset
  exact ⟨⟨_, heq ▸ List.prefix_rfl, hpast.max hoffset⟩, _, heq, hpast.max hoffset⟩

theorem Inv.reply (h : s.Inv) {i : ℕ} {poll : Poll} (hpoll : s.polls[i]? = some poll) :
    (s.reply i poll).Inv := by
  obtain ⟨hfollows, hheld⟩ := h.confirm_held (h.polls poll (List.mem_of_getElem? hpoll))
  refine ⟨h.numbered, h.named, ?_, hheld, h.offset, ?_, ?_, h.handling⟩
  · exact (confirm_nextUpdateId _ _).trans h.next
  · exact fun p hp => h.polls p (List.mem_of_mem_eraseIdx hp)
  · intro r hr
    rcases List.mem_append.mp hr with hr | hr
    · exact h.answers r hr
    · rw [List.mem_singleton.mp hr]
      exact ⟨_, rfl, hfollows⟩

theorem Inv.serve (h : s.Inv) {i : ℕ} {poll : Poll} (hpoll : s.polls[i]? = some poll) :
    (s.serve i poll).Inv := by
  unfold Inbox.serve
  split
  · obtain ⟨-, hheld⟩ := h.confirm_held (h.polls poll (List.mem_of_getElem? hpoll))
    refine ⟨h.numbered, h.named, ?_, hheld, h.offset, ?_, h.answers, h.handling⟩
    · exact (confirm_nextUpdateId _ _).trans h.next
    · intro p hp
      rcases List.mem_or_eq_of_mem_set hp with hp | rfl
      · exact h.polls p hp
      · exact h.polls poll (List.mem_of_getElem? hpoll)
  · exact h.reply hpoll

theorem Inv.failAttempt (h : s.Inv) (attempt : ℕ) : (s.failAttempt config attempt).Inv :=
  ⟨h.numbered, h.named, h.next, h.held, h.offset, h.polls, h.answers, nofun⟩

/-- The client makes of an answer the updates that it was made of. -/
theorem arrived_updates (attempt : ℕ) (updates : List Json) (s : Inbox) :
    s.arrived config attempt (FakeTelegram.updatesAnswer updates) =
      { s with phase := .handling updates } := rfl

theorem Inv.arrived (h : s.Inv) (attempt : ℕ) {i conn : ℕ} {answer : ℕ × Json}
    (hanswer : s.answers[i]? = some (conn, answer)) :
    ({ s with answers := s.answers.eraseIdx i }.arrived config attempt answer).Inv := by
  obtain ⟨us, hus, hfollows⟩ := h.answers _ (List.mem_of_getElem? hanswer)
  subst hus
  rw [arrived_updates]
  refine ⟨h.numbered, h.named, h.next, h.held, h.offset, h.polls, ?_, ?_⟩
  · exact fun r hr => h.answers r (List.mem_of_mem_eraseIdx hr)
  · rintro rest ⟨rfl⟩
    exact hfollows

theorem Inv.handle (h : s.Inv) {update : Json} {rest : List Json}
    (hphase : s.phase = .handling (update :: rest)) : (s.handled update rest).Inv := by
  obtain ⟨a, hpre, hpast⟩ := h.handling _ hphase
  obtain ⟨hid, hlt⟩ := h.updateId_eq hpre s.offset
  have hgrows : s.record.Grows (s.handled update rest).record :=
    ⟨List.prefix_rfl, List.subset_append_left .., List.Subset.refl _⟩
  obtain ⟨more, hmore⟩ := hpre
  have hdrop : s.record.posted.drop (a + 1) = rest ++ more := by
    rw [← List.drop_drop, ← hmore]
    rfl
  have hnext : (s.handled update rest).record.Past (a + 1) := by
    refine ⟨hlt, ?_⟩
    intro u hu
    change u ∈ s.record.posted.take (a + 1) at hu
    rw [List.take_add, List.mem_append] at hu
    rcases hu with hu | hu
    · exact (hpast.mono hgrows).done u hu
    · rw [← hmore, List.cons_append, List.take_succ_cons, List.take_zero] at hu
      exact .inl (List.mem_append_right _ hu)
  obtain ⟨d, hheld, hd⟩ := h.held
  refine ⟨h.numbered, h.named, h.next, ⟨d, hheld, hd.mono hgrows⟩, ?_, ?_, ?_, ?_⟩
  · show Record.Past _ (FakeTelegram.updateId s.offset update + 1 - 1).toNat
    have hpos : (FakeTelegram.updateId s.offset update + 1 - 1).toNat = a + 1 := by omega
    rw [hpos]
    exact hnext
  · exact fun p hp => (h.polls p hp).mono hgrows
  · intro r hr
    obtain ⟨us, hus, hfollows⟩ := h.answers r hr
    exact ⟨us, hus, hfollows.mono hgrows⟩
  · rintro _ ⟨rfl⟩
    exact ⟨a + 1, ⟨more, hdrop.symm⟩, hnext⟩

theorem pushUpdate_updates (body : Fields) (s : Inbox) :
    (s.server.pushUpdate body).updates =
      trimHistory (s.server.updates ++ [s.upcoming body]) := by
  unfold FakeTelegram.pushUpdate upcoming
  with_reducible rfl

/-- A message of the user that is taken is an update like any other. -/
theorem fakeSend_update {now : ℤ} {text : String} {s : Inbox}
    (h : (s.server.fakeSend now text).1 = 200) :
    (s.server.fakeSend now text).2.nextUpdateId = s.server.nextUpdateId + 1 ∧
    (s.server.fakeSend now text).2.updates = trimHistory (s.server.updates ++
      [s.upcoming (s.server.userMessage now (FakeTelegram.trimText text))]) := by
  rw [← pushUpdate_updates]
  unfold FakeTelegram.fakeSend at h ⊢
  split
  · next hbad =>
    rw [if_pos hbad] at h
    cases h
  · unfold FakeTelegram.pushTranscript
    exact ⟨rfl, by with_reducible rfl⟩

theorem Inv.step {a : InboxLabel} (h : s.Inv) (hs : step config s a = some t) : t.Inv := by
  cases a with
  | say now text =>
      simp only [Inbox.step] at hs
      split at hs
      · next hok =>
        cases hs
        obtain ⟨hnext, hupdates⟩ := fakeSend_update hok.2
        exact h.take hok.1 hnext hupdates
      · cases hs
  | update body =>
      simp only [Inbox.step] at hs
      split at hs
      · next hok =>
        cases hs
        exact h.take hok rfl (pushUpdate_updates body s)
      · cases hs
  | ask =>
      simp only [Inbox.step] at hs
      split at hs
      · cases hs
        refine ⟨h.numbered, h.named, h.next, h.held, h.offset, ?_, h.answers, nofun⟩
        intro p hp
        rcases List.mem_append.mp hp with hp | hp
        · exact h.polls p hp
        · rw [List.mem_singleton.mp hp]
          exact h.offset
      · cases hs
  | serve i =>
      obtain ⟨p, hp, rfl⟩ := Option.map_eq_some_iff.mp hs
      exact h.serve (Option.filter_eq_some_iff.mp hp).1
  | finish i =>
      obtain ⟨p, hp, rfl⟩ := Option.map_eq_some_iff.mp hs
      exact h.reply (Option.filter_eq_some_iff.mp hp).1
  | loseRequest i =>
      cases hs
      exact ⟨h.numbered, h.named, h.next, h.held, h.offset,
        fun p hp => h.polls p (List.mem_of_mem_eraseIdx hp), h.answers, h.handling⟩
  | loseAnswer i =>
      cases hs
      exact ⟨h.numbered, h.named, h.next, h.held, h.offset, h.polls,
        fun r hr => h.answers r (List.mem_of_mem_eraseIdx hr), h.handling⟩
  | arrive i =>
      simp only [Inbox.step] at hs
      split at hs
      · next conn answer attempt awaited hanswer hphase =>
        split at hs
        · cases hs
          exact h.arrived attempt hanswer
        · cases hs
      · cases hs
  | giveUp =>
      simp only [Inbox.step] at hs
      split at hs
      · cases hs
        exact h.failAttempt _
      · cases hs
  | handle =>
      simp only [Inbox.step] at hs
      split at hs
      · next update rest hphase =>
        cases hs
        exact h.handle hphase
      · cases hs
        exact ⟨h.numbered, h.named, h.next, h.held, h.offset, h.polls, h.answers, nofun⟩
      · cases hs
  | restart =>
      cases hs
      exact ⟨h.numbered, h.named, h.next, h.held, Record.past_zero _, h.polls, h.answers, nofun⟩

theorem Inv.reach {ok : Inbox → InboxLabel → Prop} (h : (system config).Reach ok s) : s.Inv :=
  h.invariant (fun _ hs => hs ▸ Inv.start config) (fun _ _ _ hinv _ hs => hinv.step hs)

/-- **No update is lost.** In every run, with restarts, lost requests, lost answers and
requests that are served late, an update is handled, or the simulator still holds it, or
the simulator dropped it when it held more than a thousand. -/
theorem updates_kept (h : (system config).Reach Anyway s) :
    ∀ u ∈ s.record.posted,
      u ∈ s.record.handled ∨ u ∈ s.server.updates ∨ u ∈ s.record.trimmed := by
  have hinv := Inv.reach h
  obtain ⟨d, hheld, hpast⟩ := hinv.held
  intro u hu
  rw [← List.take_append_drop d s.record.posted, List.mem_append] at hu
  rcases hu with hu | hu
  · exact (hpast.done u hu).imp_right .inr
  · exact .inr (.inl (hheld ▸ hu))

/-! ## One life of the input thread -/

/-- The number of updates before the offset. -/
def before (s : Inbox) : ℕ := (s.offset - 1).toNat

def Awaits (s : Inbox) (conn : ℕ) : Prop := ∃ attempt, s.phase = .polling attempt (some conn)

/-- Updates that the loop has not gone past; where nothing was forgotten, the next ones. -/
def Ahead (s : Inbox) (updates : List Json) : Prop :=
  ∃ a, updates <+: s.record.posted.drop a ∧ s.before ≤ a ∧ a ≤ s.record.posted.length ∧
    (s.record.trimmed = [] → a = s.before)

/-- What holds of a thread that was never started again: it handles the updates in their
order, and where none was forgotten it has handled all those before its offset. -/
structure Ordered (s : Inbox) : Prop where
  offset : 0 ≤ s.offset
  handled : s.record.handled.Sublist (s.record.posted.take s.before)
  all : s.record.trimmed = [] → s.record.handled = s.record.posted.take s.before ∧
    s.record.posted.length ≤ s.before + s.server.updates.length
  polls : ∀ p ∈ s.polls, p.conn < s.nextConn ∧ p.offset ≤ s.offset ∧
    (s.Awaits p.conn → p.offset = s.offset)
  answers : ∀ r ∈ s.answers, r.1 < s.nextConn ∧
    (s.Awaits r.1 → ∀ us, r.2 = FakeTelegram.updatesAnswer us → s.Ahead us)
  handling : ∀ rest, s.phase = .handling rest → s.Ahead rest

theorem Ahead.mono {updates : List Json} (h : s.Ahead updates) (hbefore : t.before = s.before)
    (hposted : s.record.posted <+: t.record.posted)
    (htrimmed : t.record.trimmed = [] → s.record.trimmed = []) : t.Ahead updates := by
  obtain ⟨a, hpre, hle, hlen, hexact⟩ := h
  refine ⟨a, hpre.trans (List.IsPrefix.drop hposted a), hbefore ▸ hle,
    hlen.trans hposted.length_le, ?_⟩
  intro hnone
  rw [hbefore]
  exact hexact (htrimmed hnone)

theorem Ordered.start (config : TelegramConfig) : (initial config).Ordered where
  offset := Int.le_refl _
  handled := List.Sublist.refl _
  all := fun _ => ⟨rfl, Nat.zero_le _⟩
  polls := nofun
  answers := nofun
  handling := nofun

theorem trimmed_of_take {server : FakeTelegram} {body : Fields}
    (h : (s.take server body).record.trimmed = []) :
    s.record.trimmed = [] ∧ s.server.updates.length + 1 ≤ maxHistory := by
  obtain ⟨hold, hnew⟩ := List.append_eq_nil_iff.mp h
  refine ⟨hold, ?_⟩
  have hlen := congrArg List.length hnew
  rw [List.length_take, List.length_append, List.length_singleton, List.length_nil] at hlen
  unfold maxHistory at hlen ⊢
  omega

theorem Ordered.take (h : s.Ordered) (hinv : s.Inv) {server : FakeTelegram} {body : Fields}
    (hupdates : server.updates = trimHistory (s.server.updates ++ [s.upcoming body])) :
    (s.take server body).Ordered := by
  have hposted : s.record.posted <+: (s.take server body).record.posted :=
    List.prefix_append ..
  have htake : (s.take server body).record.posted.take s.before =
      s.record.posted.take s.before := List.take_append_of_le_length hinv.offset.bound
  refine ⟨h.offset, ?_, ?_, h.polls, ?_, ?_⟩
  · show s.record.handled.Sublist ((s.take server body).record.posted.take s.before)
    rw [htake]
    exact h.handled
  · intro hnone
    obtain ⟨hold, hroom⟩ := trimmed_of_take hnone
    obtain ⟨hall, hlen⟩ := h.all hold
    refine ⟨hall.trans htake.symm, ?_⟩
    show (s.record.posted ++ [s.upcoming body]).length ≤ s.before + server.updates.length
    rw [hupdates, trimHistory, List.length_drop, List.length_append, List.length_append,
      List.length_singleton]
    unfold maxHistory at hroom ⊢
    omega
  · intro r hr
    obtain ⟨hconn, hawaits⟩ := h.answers r hr
    exact ⟨hconn, fun ha us hus =>
      (hawaits ha us hus).mono rfl hposted (fun hnone => (trimmed_of_take hnone).1)⟩
  · intro rest hrest
    exact (h.handling rest hrest).mono rfl hposted (fun hnone => (trimmed_of_take hnone).1)

/-- Confirming leaves what is ahead of the loop. -/
theorem Ordered.confirm (h : s.Ordered) (hinv : s.Inv) {poll : Poll} (hpoll : poll ∈ s.polls) :
    (s.record.trimmed = [] →
      s.record.posted.length ≤ s.before + (s.server.confirm poll.offset).updates.length) ∧
    (s.Awaits poll.conn → s.Ahead (s.server.confirm poll.offset).updates) := by
  obtain ⟨d, hheld, hpast⟩ := hinv.held
  have heq := confirm_updates hinv.numbered hpast.bound hheld poll.offset
  obtain ⟨-, hle, hawaits⟩ := h.polls poll hpoll
  have hd := hpast.bound
  have hbound := hinv.offset.bound
  have hheldlen : s.server.updates.length = s.record.posted.length - d := by
    rw [hheld, List.length_drop]
  have hmost : (poll.offset - 1).toNat ≤ s.before := by
    unfold before
    omega
  refine ⟨?_, ?_⟩
  · intro hnone
    have hlen := (h.all hnone).2
    rw [heq, List.length_drop]
    omega
  · intro ha
    have hsame : (poll.offset - 1).toNat = s.before := by
      rw [hawaits ha]
      rfl
    change s.before ≤ _ at hbound
    refine ⟨max d s.before, ?_, Nat.le_max_right .., Nat.max_le.mpr ⟨hd, hbound⟩, ?_⟩
    · rw [heq, hsame]
    · intro hnone
      have hlen := (h.all hnone).2
      omega

theorem updatesAnswer_inj {us vs : List Json}
    (h : FakeTelegram.updatesAnswer us = FakeTelegram.updatesAnswer vs) : us = vs := by
  simpa [FakeTelegram.updatesAnswer] using h

theorem Ordered.reply (h : s.Ordered) (hinv : s.Inv) {i : ℕ} {poll : Poll}
    (hpoll : s.polls[i]? = some poll) : (s.reply i poll).Ordered := by
  have hmem := List.mem_of_getElem? hpoll
  obtain ⟨hheld, hahead⟩ := h.confirm hinv hmem
  refine ⟨h.offset, h.handled, fun hnone => ⟨(h.all hnone).1, hheld hnone⟩,
    fun p hp => h.polls p (List.mem_of_mem_eraseIdx hp), ?_, h.handling⟩
  intro r hr
  rcases List.mem_append.mp hr with hr | hr
  · exact h.answers r hr
  · rw [List.mem_singleton.mp hr]
    refine ⟨(h.polls poll hmem).1, ?_⟩
    intro ha us hus
    rw [← updatesAnswer_inj hus]
    exact hahead ha

theorem Ordered.serve (h : s.Ordered) (hinv : s.Inv) {i : ℕ} {poll : Poll}
    (hpoll : s.polls[i]? = some poll) : (s.serve i poll).Ordered := by
  have hmem := List.mem_of_getElem? hpoll
  unfold Inbox.serve
  split
  · refine ⟨h.offset, h.handled,
      fun hnone => ⟨(h.all hnone).1, (h.confirm hinv hmem).1 hnone⟩, ?_, h.answers, h.handling⟩
    intro p hp
    rcases List.mem_or_eq_of_mem_set hp with hp | rfl
    · exact h.polls p hp
    · exact h.polls poll hmem
  · exact h.reply hinv hpoll

/-- A thread that awaits no answer. -/
theorem Ordered.idle (h : s.Ordered) (attempt : ℕ) :
    ({ s with phase := .polling attempt none } : Inbox).Ordered := by
  refine ⟨h.offset, h.handled, h.all, ?_, ?_, nofun⟩
  · intro p hp
    obtain ⟨hconn, hle, -⟩ := h.polls p hp
    exact ⟨hconn, hle, nofun⟩
  · intro r hr
    exact ⟨(h.answers r hr).1, nofun⟩

theorem Ordered.ask (h : s.Ordered) (attempt : ℕ) :
    ({ s with
        polls := s.polls ++ [⟨s.nextConn, s.offset, false⟩]
        nextConn := s.nextConn + 1
        phase := .polling attempt (some s.nextConn) } : Inbox).Ordered := by
  refine ⟨h.offset, h.handled, h.all, ?_, ?_, nofun⟩
  · intro p hp
    rcases List.mem_append.mp hp with hp | hp
    · obtain ⟨hconn, hle, -⟩ := h.polls p hp
      refine ⟨Nat.lt_succ_of_lt hconn, hle, ?_⟩
      rintro ⟨_, hawaits⟩
      have hsame := Option.some.inj (InboxPhase.polling.inj hawaits).2
      omega
    · rw [List.mem_singleton.mp hp]
      exact ⟨Nat.lt_succ_self _, Int.le_refl _, fun _ => rfl⟩
  · intro r hr
    obtain ⟨hconn, -⟩ := h.answers r hr
    refine ⟨Nat.lt_succ_of_lt hconn, ?_⟩
    rintro ⟨_, hawaits⟩
    have hsame := Option.some.inj (InboxPhase.polling.inj hawaits).2
    omega

theorem Ordered.arrived (h : s.Ordered) (hinv : s.Inv) {attempt i conn : ℕ}
    {answer : ℕ × Json} (hanswer : s.answers[i]? = some (conn, answer))
    (hphase : s.phase = .polling attempt (some conn)) :
    ({ s with answers := s.answers.eraseIdx i }.arrived config attempt answer).Ordered := by
  have hmem := List.mem_of_getElem? hanswer
  obtain ⟨us, hus, -⟩ := hinv.answers _ hmem
  have hahead := (h.answers _ hmem).2 ⟨attempt, hphase⟩ us hus
  subst hus
  rw [arrived_updates]
  refine ⟨h.offset, h.handled, h.all, ?_, ?_, ?_⟩
  · intro p hp
    obtain ⟨hconn, hle, -⟩ := h.polls p hp
    exact ⟨hconn, hle, nofun⟩
  · intro r hr
    exact ⟨(h.answers r (List.mem_of_mem_eraseIdx hr)).1, nofun⟩
  · rintro rest ⟨rfl⟩
    exact hahead

theorem Ordered.handle (h : s.Ordered) (hinv : s.Inv) {update : Json} {rest : List Json}
    (hphase : s.phase = .handling (update :: rest)) : (s.handled update rest).Ordered := by
  obtain ⟨a, hpre, hle, -, hexact⟩ := h.handling _ hphase
  obtain ⟨hid, hlt⟩ := hinv.updateId_eq hpre s.offset
  obtain ⟨more, hmore⟩ := hpre
  have hdrop : s.record.posted.drop (a + 1) = rest ++ more := by
    rw [← List.drop_drop, ← hmore]
    rfl
  have htake : s.record.posted.take (a + 1) = s.record.posted.take a ++ [update] := by
    rw [List.take_add, ← hmore]
    rfl
  have hbefore : (s.handled update rest).before = a + 1 := by
    show (FakeTelegram.updateId s.offset update + 1 - 1).toNat = _
    omega
  have hoffset : s.offset ≤ FakeTelegram.updateId s.offset update + 1 := by
    unfold before at hle
    omega
  refine ⟨?_, ?_, ?_, ?_, ?_, ?_⟩
  · show 0 ≤ FakeTelegram.updateId s.offset update + 1
    omega
  · rw [hbefore]
    show (s.record.handled ++ [update]).Sublist (s.record.posted.take (a + 1))
    rw [htake]
    have hshorter : s.record.posted.take s.before <+: s.record.posted.take a :=
      List.take_prefix_take_left hle
    exact (h.handled.trans hshorter.sublist).append (List.Sublist.refl _)
  · intro hnone
    obtain ⟨hall, hlen⟩ := h.all hnone
    rw [hbefore]
    refine ⟨?_, ?_⟩
    · show s.record.handled ++ [update] = s.record.posted.take (a + 1)
      rw [htake, hall, hexact hnone]
    · show s.record.posted.length ≤ a + 1 + s.server.updates.length
      omega
  · intro p hp
    obtain ⟨hconn, hple, -⟩ := h.polls p hp
    exact ⟨hconn, hple.trans hoffset, nofun⟩
  · intro r hr
    exact ⟨(h.answers r hr).1, nofun⟩
  · rintro _ ⟨rfl⟩
    refine ⟨a + 1, ⟨more, hdrop.symm⟩, ?_, hlt, fun _ => ?_⟩
    · rw [hbefore]
    · rw [hbefore]

theorem Ordered.step {a : InboxLabel} (h : s.Ordered) (hinv : s.Inv) (hok : a ≠ .restart)
    (hs : step config s a = some t) : t.Ordered := by
  cases a with
  | say now text =>
      simp only [Inbox.step] at hs
      split at hs
      · next hsaid =>
        cases hs
        exact h.take hinv (fakeSend_update hsaid.2).2
      · cases hs
  | update body =>
      simp only [Inbox.step] at hs
      split at hs
      · cases hs
        exact h.take hinv (pushUpdate_updates body s)
      · cases hs
  | ask =>
      simp only [Inbox.step] at hs
      split at hs
      · cases hs
        exact h.ask _
      · cases hs
  | serve i =>
      obtain ⟨p, hp, rfl⟩ := Option.map_eq_some_iff.mp hs
      exact h.serve hinv (Option.filter_eq_some_iff.mp hp).1
  | finish i =>
      obtain ⟨p, hp, rfl⟩ := Option.map_eq_some_iff.mp hs
      exact h.reply hinv (Option.filter_eq_some_iff.mp hp).1
  | loseRequest i =>
      cases hs
      exact ⟨h.offset, h.handled, h.all,
        fun p hp => h.polls p (List.mem_of_mem_eraseIdx hp), h.answers, h.handling⟩
  | loseAnswer i =>
      cases hs
      exact ⟨h.offset, h.handled, h.all, h.polls,
        fun r hr => h.answers r (List.mem_of_mem_eraseIdx hr), h.handling⟩
  | arrive i =>
      simp only [Inbox.step] at hs
      split at hs
      · next conn answer attempt awaited hanswer hphase =>
        split at hs
        · next hsame =>
          subst hsame
          cases hs
          exact h.arrived hinv hanswer hphase
        · cases hs
      · cases hs
  | giveUp =>
      simp only [Inbox.step] at hs
      split at hs
      · cases hs
        exact h.idle _
      · cases hs
  | handle =>
      simp only [Inbox.step] at hs
      split at hs
      · next update rest hphase =>
        cases hs
        exact h.handle hinv hphase
      · cases hs
        exact h.idle 0
      · cases hs
  | restart => exact absurd rfl hok

/-- Labels of a run in which the input thread is never started again. -/
def OneLife (_ : Inbox) (a : InboxLabel) : Prop := a ≠ .restart

/-- **Each update once and in order.** In every run of one input thread the updates are
handled in the order they were made, none of them twice; where the simulator never held
more than a thousand, those handled are the first ones made. -/
theorem updates_once (h : (system config).Reach OneLife s) :
    s.record.posted.Nodup ∧ s.record.handled.Sublist s.record.posted ∧
    (s.record.trimmed = [] →
      s.record.handled <+: s.record.posted ∧
      s.record.handled.filterMap (inputText config.chatId) <+:
        s.record.posted.filterMap (inputText config.chatId)) := by
  have hinv := Inv.reach h
  have hordered : s.Ordered := by
    apply h.invariant_reach (fun _ hs => hs ▸ Ordered.start config)
    exact fun s a t hreach hP hok hs => hP.step (Inv.reach hreach) hok hs
  refine ⟨hinv.numbered.nodup.of_map _, hordered.handled.trans (List.take_sublist _ _), ?_⟩
  intro hnone
  have hfront : s.record.handled <+: s.record.posted := by
    rw [(hordered.all hnone).1]
    exact List.take_prefix _ _
  exact ⟨hfront, hfront.filterMap _⟩

/-! ## A run -/

/-- The first request is given up and served all the same; the second is answered. -/
def latePoll : List InboxLabel :=
  [.say 0 " hello ", .ask, .giveUp, .ask, .serve 0, .serve 0, .arrive 1, .handle]

def local1 : TelegramConfig := .new "fake-token" 1

theorem latePoll_run : ((system local1).run (initial local1) latePoll).isSome = true := by
  decide +kernel

theorem updates_once_late : ∃ s, (system local1).Reach OneLife s ∧
    s.record.posted.Nodup ∧ s.record.handled.Sublist s.record.posted ∧
    (s.record.trimmed = [] →
      s.record.handled <+: s.record.posted ∧
      s.record.handled.filterMap (inputText local1.chatId) <+:
        s.record.posted.filterMap (inputText local1.chatId)) := by
  obtain ⟨s, hs⟩ := Option.isSome_iff_exists.mp latePoll_run
  have hreach : (system local1).Reach OneLife s := by
    apply System.Reach.of_labels (.start rfl) _ hs
    intro a ha _ heq
    subst heq
    simp [latePoll] at ha
  exact ⟨s, hreach, updates_once hreach⟩

theorem updates_kept_late : ∃ s, (system local1).Reach Anyway s ∧
    ∀ u ∈ s.record.posted,
      u ∈ s.record.handled ∨ u ∈ s.server.updates ∨ u ∈ s.record.trimmed := by
  obtain ⟨s, hs⟩ := Option.isSome_iff_exists.mp latePoll_run
  have hreach : (system local1).Reach Anyway s := .of_run (.start rfl) hs
  exact ⟨s, hreach, updates_kept hreach⟩

example : ((system local1).run (initial local1) latePoll).map
    (fun s => (s.record.handled.map (inputText 1), s.offset)) = some ([some "hello"], 2) := by
  decide +kernel

end Inbox

end Stackhour.Claire
