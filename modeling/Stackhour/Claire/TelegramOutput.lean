import Mathlib.Tactic.Common
import Stackhour.Claire.Telegram

/-!
# What a reader sees of a text

The client over a link that may lose a request or its answer, with the simulator at the
other end. The chunks of a text arrive in their order, each as often as it was sent
again, and none is refused for its length.
-/

namespace Stackhour.Claire

open Domain

/-! ## The chunks -/

theorem lenUtf16_le (c : Char) : Tracker.lenUtf16 c ≤ chunkUnits := by
  unfold Tracker.lenUtf16 chunkUnits
  split <;> omega

theorem telegramChunks_of_ne {text : String} (h : text.toList ≠ []) (n : ℕ) :
    telegramChunks text n =
      (Chunks.cutFrom Tracker.lenUtf16 n [] 0 text.toList).map String.ofList := by
  unfold telegramChunks
  rw [if_neg h]

theorem utf16Units_ofList (cs : List Char) :
    utf16Units (String.ofList cs) = Chunks.weight Tracker.lenUtf16 cs := by
  rw [utf16Units, String.toList_ofList]

/-- No text that is sent is longer than a chunk may be. -/
theorem utf16Units_chunk (text : String) :
    ∀ c ∈ telegramChunks text chunkUnits, utf16Units c ≤ chunkUnits := by
  intro c hc
  by_cases h : text.toList = []
  · rw [telegramChunks, if_pos h, List.mem_singleton] at hc
    rw [hc]
    exact Nat.zero_le _
  · rw [telegramChunks_of_ne h] at hc
    obtain ⟨cs, hcs, rfl⟩ := List.mem_map.mp hc
    rw [utf16Units_ofList]
    exact Chunks.weight_cutFrom lenUtf16_le text.toList [] (Nat.zero_le _) cs hcs

theorem chunks_flatten (text : String) (n : ℕ) :
    ((telegramChunks text n).map String.toList).flatten = text.toList := by
  by_cases h : text.toList = []
  · rw [telegramChunks, if_pos h, h]
    rfl
  · rw [telegramChunks_of_ne h, List.map_map]
    have hid : String.toList ∘ String.ofList = id := by
      ext cs : 1
      simp
    rw [hid, List.map_id, Chunks.flatten_cutFrom, List.nil_append]

/-- **The chunks of a text.** Joined they are the text, each is within the limit, and no
list of texts within the limit that joins to the same is shorter. -/
theorem telegramChunks_fewest (text : String) :
    ((telegramChunks text chunkUnits).map String.toList).flatten = text.toList ∧
    (∀ c ∈ telegramChunks text chunkUnits, utf16Units c ≤ chunkUnits) ∧
    ∀ pieces : List String, pieces ≠ [] → (∀ p ∈ pieces, utf16Units p ≤ chunkUnits) →
      (pieces.map String.toList).flatten = text.toList →
      (telegramChunks text chunkUnits).length ≤ pieces.length := by
  refine ⟨chunks_flatten text chunkUnits, utf16Units_chunk text, ?_⟩
  intro pieces hne hle heq
  by_cases h : text.toList = []
  · rw [telegramChunks, if_pos h]
    exact List.length_pos_iff.mpr hne
  · rw [telegramChunks_of_ne h, List.length_map, ←
      (List.length_map String.toList : (pieces.map String.toList).length = pieces.length)]
    apply (Chunks.greedy_cutFrom text.toList [] h).length_le _ _ []
    · intro p hp
      obtain ⟨q, hq, rfl⟩ := List.mem_map.mp hp
      exact hle q hq
    · rw [heq, Chunks.flatten_cutFrom]
      rfl

/-! ## A call -/

section Calls

variable {W : Type} {config : TelegramConfig}

/-- A world that keeps `I` and, of what is posted, either receives the text or does not say
that it has. -/
def Takes (config : TelegramConfig) (I : W → Prop) (received : W → List String) (text : String)
    (post : W → Reply × W) : Prop :=
  ∀ w, I w → I (post w).2 ∧
    (received (post w).2 = received w ++ [text] ∨
      received (post w).2 = received w ∧
        ∀ result, config.attempt (post w).1 ≠ .done result)

variable {I : W → Prop} {received : W → List String} {text : String} {post : W → Reply × W}

/-- Where an attempt is not the last, the call goes on from the world it left. -/
theorem callFrom_cases (config : TelegramConfig) (post : W → Reply × W) (left : ℕ) (w : W) :
    (∃ result, config.attempt (post w).1 = .done result ∧
      config.callFrom post (left + 1) w = ⟨some result, (post w).2, []⟩) ∨
    (∀ result, config.attempt (post w).1 ≠ .done result) ∧
      (config.callFrom post (left + 1) w = ⟨none, (post w).2, []⟩ ∨
        ∃ wait, config.callFrom post (left + 1) w =
          (config.callFrom post left (post w).2).after wait) := by
  rw [TelegramConfig.callFrom]
  cases h : config.attempt (post w).1 with
  | done result => exact .inl ⟨result, rfl, rfl⟩
  | swallow => exact .inr ⟨by simp, .inl rfl⟩
  | terminal description => exact .inr ⟨by simp, .inl rfl⟩
  | rateLimited secs => exact .inr ⟨by simp, .inr ⟨_, rfl⟩⟩
  | failed message =>
      refine .inr ⟨by simp, ?_⟩
      by_cases hleft : left = 0
      · exact .inl (if_pos hleft)
      · exact .inr ⟨_, if_neg hleft⟩

/-- The error of a request is waited out, but for the last. -/
theorem callFrom_error {w : W} {e : RequestError} (h : (post w).1 = .error e) (left : ℕ) :
    (config.callFrom post (left + 1) w).result = (config.callFrom post left (post w).2).result ∧
    (config.callFrom post (left + 1) w).world = (config.callFrom post left (post w).2).world := by
  rw [TelegramConfig.callFrom, h, TelegramConfig.attempt]
  cases left with
  | zero => exact ⟨rfl, rfl⟩
  | succ left => exact ⟨rfl, rfl⟩

/-- A call posts its text at most once an attempt, and at least once if it says so. -/
theorem Takes.call (h : Takes config I received text post) (left : ℕ) : ∀ w, I w →
    I (config.callFrom post left w).world ∧
    ∃ n ≤ left, received (config.callFrom post left w).world =
        received w ++ List.replicate n text ∧
      ((config.callFrom post left w).result.isSome → 1 ≤ n) := by
  induction left with
  | zero =>
      intro w hw
      exact ⟨hw, 0, Nat.le_refl _, (List.append_nil _).symm, nofun⟩
  | succ left ih =>
      intro w hw
      obtain ⟨hI, htook⟩ := h w hw
      rcases callFrom_cases config post left w with
        ⟨result, hdone, heq⟩ | ⟨hnot, heq | ⟨wait, heq⟩⟩
      · rw [heq]
        rcases htook with htook | ⟨-, hnot⟩
        · exact ⟨hI, 1, by omega, htook, fun _ => Nat.le_refl _⟩
        · exact absurd hdone (hnot result)
      · rw [heq]
        rcases htook with htook | ⟨htook, -⟩
        · exact ⟨hI, 1, by omega, htook, nofun⟩
        · exact ⟨hI, 0, by omega, by rw [htook]; simp, nofun⟩
      · obtain ⟨hI', n, hn, hreceived, hsome⟩ := ih _ hI
        rw [heq]
        refine ⟨hI', ?_⟩
        rcases htook with htook | ⟨htook, -⟩
        · refine ⟨n + 1, by omega, ?_, fun _ => by omega⟩
          rw [Called.after, hreceived, htook, List.append_assoc]
          rfl
        · exact ⟨n, by omega, by rw [Called.after, hreceived, htook], hsome⟩

/-! ## A text -/

/-- What is received of chunks sent one after another: each of those before the last at
least once, and no chunk more often than there are attempts. -/
inductive Delivered (attempts : ℕ) : List String → Bool → List String → Prop where
  | all : Delivered attempts [] true []
  | next {c : String} {cs got : List String} {sent : Bool} (n : ℕ) (hpos : 1 ≤ n)
      (hle : n ≤ attempts) (h : Delivered attempts cs sent got) :
      Delivered attempts (c :: cs) sent (List.replicate n c ++ got)
  | failed {c : String} {cs : List String} (n : ℕ) (hle : n ≤ attempts) :
      Delivered attempts (c :: cs) false (List.replicate n c)

/-- A text that is said to be sent is there as a whole and in its order. -/
theorem Delivered.sublist {attempts : ℕ} {cs got : List String} {sent : Bool}
    (h : Delivered attempts cs sent got) (hsent : sent = true) : cs.Sublist got := by
  induction h with
  | all => exact List.Sublist.refl _
  | @next c cs got sent n hpos _ _ ih =>
      obtain ⟨k, rfl⟩ : ∃ k, n = k + 1 := ⟨n - 1, by omega⟩
      have hgot : cs.Sublist (List.replicate k c ++ got) :=
        (ih hsent).trans (List.sublist_append_right ..)
      exact hgot.cons_cons c
  | failed => exact absurd hsent (by decide)

/-- Whatever becomes of it, nothing but its chunks is received. -/
theorem Delivered.mem {attempts : ℕ} {cs got : List String} {sent : Bool}
    (h : Delivered attempts cs sent got) : ∀ c ∈ got, c ∈ cs := by
  induction h with
  | all => exact fun _ hc => hc
  | next n _ _ _ ih =>
      intro c hc
      rcases List.mem_append.mp hc with hc | hc
      · rw [List.eq_of_mem_replicate hc]
        exact List.mem_cons_self
      · exact List.mem_cons_of_mem _ (ih c hc)
  | failed n =>
      intro c hc
      rw [List.eq_of_mem_replicate hc]
      exact List.mem_cons_self

theorem sendAll_delivered {remote : Remote W} (chunks : List String) : ∀ w, I w →
    (∀ c ∈ chunks, Takes config I received c
      (remote ("bot" ++ config.token) "sendMessage" (config.sendBody c))) →
    ∃ got, received (config.sendAll remote chunks w).2 = received w ++ got ∧
      Delivered config.attempts chunks (config.sendAll remote chunks w).1 got := by
  induction chunks with
  | nil =>
      intro w _ _
      exact ⟨[], (List.append_nil _).symm, .all⟩
  | cons c cs ih =>
      intro w hw htakes
      obtain ⟨hI, n, hn, hreceived, hsome⟩ :=
        (htakes c List.mem_cons_self).call config.attempts w hw
      rw [TelegramConfig.sendAll]
      split
      · next hok =>
        obtain ⟨got, hgot, hdelivered⟩ :=
          ih _ hI (fun d hd => htakes d (List.mem_cons_of_mem c hd))
        refine ⟨List.replicate n c ++ got, ?_, .next n (hsome hok) hn hdelivered⟩
        rw [← List.append_assoc, ← hreceived]
        exact hgot
      · exact ⟨List.replicate n c, hreceived, .failed n hn⟩

end Calls

/-! ## The link -/

/-- What the network does to a request. -/
inductive Passage where
  | lost (e : RequestError)
  | unheard (e : RequestError)
  | heard

/-- The simulator behind a network: how each request will fare, how many were made, and a
record of the texts that were accepted. -/
structure Link where
  server : FakeTelegram
  clock : ℕ → ℤ
  passages : ℕ → Passage
  made : ℕ
  received : List String

namespace Link

/-- The texts that an answer accepts. -/
def accepted (answer : ℕ × Json) (body : Json) : List String :=
  if answer.1 = 200 then ((body.get "text").bind Json.asStr).toList else []

def serve (bot method : String) (body : Json) (l : Link) : (ℕ × Json) × FakeTelegram :=
  l.server.botMethod (l.clock l.made) bot method body

/-- The request arrives. -/
def taken (bot method : String) (body : Json) (l : Link) : Link :=
  { l with
    server := (l.serve bot method body).2
    made := l.made + 1
    received := l.received ++ accepted (l.serve bot method body).1 body }

def missed (l : Link) : Link := { l with made := l.made + 1 }

def post (bot method : String) (body : Json) (l : Link) : Reply × Link :=
  match l.passages l.made with
  | .lost e => (.error e, l.missed)
  | .unheard e => (.error e, l.taken bot method body)
  | .heard =>
      (.answer (l.serve bot method body).1.1 (l.serve bot method body).1.2,
        l.taken bot method body)

/-- The simulator is the client's: its token and its chat. -/
structure Serves (config : TelegramConfig) (passages : ℕ → Passage) (l : Link) : Prop where
  token : l.server.botToken = config.token
  chat : l.server.chatId = config.chatId
  same : l.passages = passages

variable {config : TelegramConfig} {passages : ℕ → Passage} {l : Link}

/-- The simulator accepts a text of the client's chat that is within its limit. -/
theorem serve_send (h : l.Serves config passages)
    (hchat : -2 ^ 63 ≤ config.chatId ∧ config.chatId < 2 ^ 63) {text : String}
    (hunits : utf16Units text ≤ chunkUnits) :
    l.serve ("bot" ++ config.token) "sendMessage" (config.sendBody text) =
      ((200, .object [("ok", .bool true),
        ("result", l.server.outgoingMessage (l.clock l.made) text)]),
        l.server.keepMessage (l.clock l.made) text) := by
  have hshort : ¬ 4096 < utf16Units text := by
    unfold chunkUnits at hunits
    omega
  have hid : ((config.sendBody text).get "chat_id").bind Json.asI64 = some l.server.chatId := by
    rw [h.chat]
    exact if_pos hchat
  unfold serve FakeTelegram.botMethod
  rw [if_neg (fun hne => hne (by rw [h.token])), if_neg (by decide), if_pos rfl,
    FakeTelegram.sendMessage, if_neg (fun hne => hne hid)]
  exact if_neg hshort

theorem Serves.missed (h : l.Serves config passages) : l.missed.Serves config passages :=
  ⟨h.token, h.chat, h.same⟩

theorem taken_send (h : l.Serves config passages)
    (hchat : -2 ^ 63 ≤ config.chatId ∧ config.chatId < 2 ^ 63) {text : String}
    (hunits : utf16Units text ≤ chunkUnits) :
    (l.taken ("bot" ++ config.token) "sendMessage" (config.sendBody text)).Serves config
        passages ∧
      (l.taken ("bot" ++ config.token) "sendMessage" (config.sendBody text)).received =
        l.received ++ [text] := by
  unfold taken
  rw [serve_send h hchat hunits]
  exact ⟨⟨h.token, h.chat, h.same⟩, rfl⟩

theorem post_takes (hchat : -2 ^ 63 ≤ config.chatId ∧ config.chatId < 2 ^ 63) {text : String}
    (hunits : utf16Units text ≤ chunkUnits) :
    Takes config (Serves config passages) received text
      (post ("bot" ++ config.token) "sendMessage" (config.sendBody text)) := by
  intro l h
  obtain ⟨hserves, hreceived⟩ := taken_send h hchat hunits
  unfold post
  cases l.passages l.made with
  | lost e => exact ⟨h.missed, .inr ⟨rfl, nofun⟩⟩
  | unheard e => exact ⟨hserves, .inl hreceived⟩
  | heard => exact ⟨hserves, .inl hreceived⟩

theorem post_made (bot method : String) (body : Json) (l : Link) :
    (post bot method body l).2.made = l.made + 1 := by
  unfold post
  cases l.passages l.made <;> rfl

theorem post_unheard (h : l.Serves config passages) (hp : passages l.made ≠ .heard)
    {bot method : String} {body : Json} : ∃ e, (post bot method body l).1 = .error e := by
  rw [← h.same] at hp
  unfold post
  cases hl : l.passages l.made with
  | lost e => exact ⟨e, rfl⟩
  | unheard e => exact ⟨e, rfl⟩
  | heard => exact absurd hl hp

theorem post_heard (h : l.Serves config passages)
    (hchat : -2 ^ 63 ≤ config.chatId ∧ config.chatId < 2 ^ 63) {text : String}
    (hunits : utf16Units text ≤ chunkUnits) (hp : passages l.made = .heard) :
    ∃ result, config.attempt (post ("bot" ++ config.token) "sendMessage"
      (config.sendBody text) l).1 = .done result := by
  rw [← h.same] at hp
  unfold post
  rw [hp, serve_send h hchat hunits]
  exact ⟨_, rfl⟩

/-- A call that made no attempt but failed ones went unheard at each of them. -/
theorem call_unheard (hchat : -2 ^ 63 ≤ config.chatId ∧ config.chatId < 2 ^ 63) {text : String}
    (hunits : utf16Units text ≤ chunkUnits) (left : ℕ) :
    ∀ l : Link, l.Serves config passages →
      l.made ≤ (config.callFrom (post ("bot" ++ config.token) "sendMessage"
        (config.sendBody text)) left l).world.made ∧
      ((config.callFrom (post ("bot" ++ config.token) "sendMessage" (config.sendBody text))
        left l).result = none → ∀ j < left, passages (l.made + j) ≠ .heard) := by
  induction left with
  | zero => exact fun l _ => ⟨Nat.le_refl _, fun _ j hj => absurd hj (Nat.not_lt_zero j)⟩
  | succ left ih =>
      intro l h
      obtain ⟨hle, hrest⟩ := ih _ (post_takes hchat hunits l h).1
      rw [post_made] at hle hrest
      by_cases hp : passages l.made = .heard
      · obtain ⟨result, hdone⟩ := post_heard h hchat hunits hp
        rw [TelegramConfig.callFrom, hdone]
        exact ⟨by rw [post_made]; omega, nofun⟩
      · obtain ⟨e, he⟩ := post_unheard h hp
        obtain ⟨hresult, hworld⟩ := callFrom_error he left
        rw [hresult, hworld]
        refine ⟨by omega, ?_⟩
        intro hnone j hj
        cases j with
        | zero => exact hp
        | succ j =>
            have hlater := hrest hnone j (by omega)
            rwa [Nat.add_right_comm] at hlater

/-- A text fails at a chunk none of whose attempts was heard. -/
theorem sendAll_unheard (hchat : -2 ^ 63 ≤ config.chatId ∧ config.chatId < 2 ^ 63)
    (chunks : List String) (hunits : ∀ c ∈ chunks, utf16Units c ≤ chunkUnits) :
    ∀ l : Link, l.Serves config passages → (config.sendAll post chunks l).1 = false →
      ∃ i, l.made ≤ i ∧ ∀ j < config.attempts, passages (i + j) ≠ .heard := by
  induction chunks with
  | nil => exact fun l _ hfalse => Bool.noConfusion hfalse
  | cons c cs ih =>
      intro l h hfalse
      have hc : utf16Units c ≤ chunkUnits := hunits c List.mem_cons_self
      obtain ⟨hle, hnone⟩ := call_unheard hchat hc config.attempts l h
      rw [TelegramConfig.sendAll] at hfalse
      split at hfalse
      · have hserves := ((post_takes hchat hc).call config.attempts l h).1
        obtain ⟨i, hi, hall⟩ := ih (fun d hd => hunits d (List.mem_cons_of_mem c hd)) _ hserves
          hfalse
        exact ⟨i, hle.trans hi, hall⟩
      · next hfailed =>
        exact ⟨l.made, Nat.le_refl _, hnone (Option.not_isSome_iff_eq_none.mp hfailed)⟩

end Link

/-- **A text over a lossy link.** Whatever the network does, the simulator receives the
chunks in their order, each at most five times, and all of them if the client says so. The
client says otherwise only if five attempts in a row went unheard. -/
theorem sendText_delivered (token : String) (chatId : ℤ) (text : String) (l : Link)
    (hrange : -2 ^ 63 ≤ chatId ∧ chatId < 2 ^ 63) (htoken : l.server.botToken = token)
    (hchat : l.server.chatId = chatId) :
    (∃ got,
      ((TelegramConfig.new token chatId).sendText Link.post text l).2.received =
        l.received ++ got ∧
      Delivered 5 (telegramChunks text chunkUnits)
        ((TelegramConfig.new token chatId).sendText Link.post text l).1 got) ∧
    (((TelegramConfig.new token chatId).sendText Link.post text l).1 = false →
      ∃ i, l.made ≤ i ∧ ∀ j < 5, l.passages (i + j) ≠ .heard) := by
  have hserves : l.Serves (.new token chatId) l.passages := ⟨htoken, hchat, rfl⟩
  have htakes : ∀ c ∈ telegramChunks text chunkUnits,
      Takes (.new token chatId) (Link.Serves (.new token chatId) l.passages) Link.received c
        (Link.post ("bot" ++ token) "sendMessage" ((TelegramConfig.new token chatId).sendBody c)) :=
    fun c hc => Link.post_takes hrange (utf16Units_chunk text c hc)
  constructor
  · exact sendAll_delivered _ l hserves htakes
  · exact Link.sendAll_unheard hrange _ (utf16Units_chunk text) l hserves

/-- A link that loses the first request and the answer to the second. -/
def lossyLink : Link :=
  { server := ⟨1, "fake-token", 1, 1, 1, [], [], []⟩
    clock := fun _ => 0
    passages := fun n => if n = 0 then .lost .connect else if n = 1 then .unheard .timeout
      else .heard
    made := 0
    received := [] }

theorem sendText_delivered_lossy :
    (lossyLink.server.botToken = "fake-token" ∧ lossyLink.server.chatId = 1) ∧
    (∃ got,
      ((TelegramConfig.new "fake-token" 1).sendText Link.post "moon" lossyLink).2.received =
        lossyLink.received ++ got ∧
      Delivered 5 (telegramChunks "moon" chunkUnits)
        ((TelegramConfig.new "fake-token" 1).sendText Link.post "moon" lossyLink).1 got) ∧
    (((TelegramConfig.new "fake-token" 1).sendText Link.post "moon" lossyLink).1 = false →
      ∃ i, lossyLink.made ≤ i ∧ ∀ j < 5, lossyLink.passages (i + j) ≠ .heard) :=
  ⟨⟨rfl, rfl⟩, sendText_delivered "fake-token" 1 "moon" lossyLink (by decide) rfl rfl⟩

example : (((TelegramConfig.new "fake-token" 1).sendText Link.post "moon" lossyLink).2.received,
    ((TelegramConfig.new "fake-token" 1).sendText Link.post "moon" lossyLink).1) =
      (["moon", "moon"], true) := by decide +kernel

end Stackhour.Claire
