import Stackhour.Tracker.Charging

/-!
# Tokens are charged once

Every line of a run that charges tokens leaves a row to carry them, and that row has a key
of its own: then what is stored for a message is its maxima, and what is stored for a
session is the usage of its events.
-/

namespace Stackhour.Tracker

open Agent.Transcripts Core Domain TransitionSystem

namespace Charging

variable (ar : Arithmetic) (machine : String)

/-! ## The runs that charge what they read -/

/-- A key that is in the table or on its way there. -/
def Taken (s : Pipeline) (k : DedupeKey) : Prop :=
  k ∈ s.table.keys ∨ k ∈ s.pending.filterMap (sentKey ar)

/-- A line of Claude: its counters are whole numbers that fit, and where one of them exceeds
what is recorded for the message there is a row to carry it, under a key that is free. -/
def ClaudeFits (s : Pipeline) (w : Watching) (line : Json) : Prop :=
  ∀ ts usage id, recent ar w line = some ts → usageOf line = some usage →
    messageId ar line = some id →
    ∃ c : Counters ℕ, readUsage ar usage = c.words ar ∧ c.Fits ∧
      ((c.map fun n : ℕ => (n : ℤ)).Exceeds ((readPrevious ar s.usageById id).map ar.toInt) →
        Carried ar w line ∧
          ¬Taken ar s (agentKey machine (claudeSource line) (w.resolveProject (claudeCwd line))
            (claudeEntity w line) ts))

/-- A line of Codex: its usage is in whole numbers that fit, and where one of them is
positive the event names no files, and the key of its row is free. -/
def CodexFits (s : Pipeline) (w : Watching) (path : String) (line : Json) : Prop :=
  ∀ ts tu, codexEvent ar w line = some ts → tokenUsage (payload ar line) = some tu →
    ∃ u : EventUsage, u.Of ar tu ∧ u.Fits ∧
      (u.Positive → changes (payload ar line) = none ∧
        ¬Taken ar s (agentKey machine (codexSource (s.codexMeta path))
          (w.resolveProject (codexCwd (s.codexMeta path))) (codexCwd (s.codexMeta path)) ts))

/-- Every line of a run of a watcher, in the state in which it is read. -/
def Charges (s : Pipeline) : Label → Prop
  | .claude w lines => ∀ pre line post, lines = pre ++ line :: post →
      ClaudeFits ar machine (pre.foldl (fun s line => s.readMessage ar machine w line) s) w line
  | .codex w path firstSight head lines => ∀ pre line post, lines = pre ++ line :: post →
      CodexFits ar machine
        (pre.foldl (fun s line => s.readEvent ar machine w path line)
          (s.readHead ar w path firstSight head)) w path line
  | _ => True

variable {ar machine}

/-! ## What is charged by a list of rows -/

def chargedIn (ar : Arithmetic) (p : Payer) (rows : List Sent) : ℤ :=
  ((carriers p rows).map (tokensIn ar)).sum

def chargedOut (ar : Arithmetic) (p : Payer) (rows : List Sent) : ℤ :=
  ((carriers p rows).map (tokensOut ar)).sum

theorem chargedIn_append (p : Payer) (rows more : List Sent) :
    chargedIn ar p (rows ++ more) = chargedIn ar p rows + chargedIn ar p more := by
  unfold chargedIn carriers
  rw [List.filter_append, List.map_append, List.sum_append]

theorem chargedOut_append (p : Payer) (rows more : List Sent) :
    chargedOut ar p (rows ++ more) = chargedOut ar p rows + chargedOut ar p more := by
  unfold chargedOut carriers
  rw [List.filter_append, List.map_append, List.sum_append]

theorem carriers_silent {rows : List Sent} (h : ∀ c ∈ rows, c.payer = none) (p : Payer) :
    carriers p rows = [] := by
  unfold carriers
  rw [List.filter_eq_nil_iff]
  intro c hc
  rw [h c hc]
  simp

/-- What new rows of the queue are to charge: whom, and how much. -/
structure Adds (ar : Arithmetic) (keys : List DedupeKey) (queue more : List Sent) (p : Payer)
    (a b : ℤ) : Prop where
  fresh : FreshQueue ar keys queue → FreshQueue ar keys (queue ++ more)
  input : ∀ q, chargedIn ar q more = if q = p then a else 0
  output : ∀ q, chargedOut ar q more = if q = p then b else 0

theorem FreshQueue.silent {keys : List DedupeKey} {queue more : List Sent}
    (h : FreshQueue ar keys queue) (hmore : ∀ c ∈ more, c.payer = none) :
    FreshQueue ar keys (queue ++ more) := by
  induction more generalizing queue with
  | nil =>
      rw [List.append_nil]
      exact h
  | cons c more ih =>
      rw [List.append_cons]
      refine ih (h.snoc fun hpayer => ?_) fun d hd => hmore d (List.mem_cons_of_mem c hd)
      exact absurd (hmore c List.mem_cons_self) hpayer

/-- Rows without tokens. -/
theorem Adds.silent {keys : List DedupeKey} {queue more : List Sent}
    (h : ∀ c ∈ more, c.payer = none) (p : Payer) : Adds ar keys queue more p 0 0 := by
  refine ⟨fun hfresh => hfresh.silent h, fun q => ?_, fun q => ?_⟩
  · unfold chargedIn
    rw [carriers_silent h, ite_self]
    rfl
  · unfold chargedOut
    rw [carriers_silent h, ite_self]
    rfl

/-- A row with tokens before rows without. -/
theorem Adds.carrier {keys : List DedupeKey} {queue rest : List Sent} {c : Sent} {p : Payer}
    {k : DedupeKey} {a b : ℤ} (hpayer : c.payer = some p) (hkey : sentKey ar c = some k)
    (hnew : k ∉ keys) (hqueue : k ∉ queue.filterMap (sentKey ar)) (hin : tokensIn ar c = a)
    (hout : tokensOut ar c = b) (hrest : ∀ d ∈ rest, d.payer = none) :
    Adds ar keys queue (c :: rest) p a b := by
  have hcarriers : ∀ q, carriers q (c :: rest) = if q = p then [c] else [] := by
    intro q
    have hnil : List.filter (fun d => decide (d.payer = some q)) rest = [] :=
      carriers_silent hrest q
    unfold carriers
    rw [List.filter_cons, hnil, hpayer]
    by_cases h : q = p
    · simp [h]
    · simp [h, Ne.symm h]
  refine ⟨fun hfresh => ?_, fun q => ?_, fun q => ?_⟩
  · rw [List.append_cons]
    exact (hfresh.snoc fun _ => ⟨k, hkey, hnew, hqueue⟩).silent hrest
  · unfold chargedIn
    rw [hcarriers]
    split
    · simpa using hin
    · rfl
  · unfold chargedOut
    rw [hcarriers]
    split
    · simpa using hout
    · rfl

/-! ## What the lines add up to -/

theorem messageMax_message (id : String) (line : Json) (rest : List Seen) :
    messageMax ar id (.message line :: rest) =
      match usageOf line with
      | some usage =>
          if messageId ar line = some id then
            Counters.map₂ max ((readUsage ar usage).map ar.toInt) (messageMax ar id rest)
          else messageMax ar id rest
      | none => messageMax ar id rest := rfl

theorem messageMax_snoc (id : String) (read : List Seen) (line : Json) :
    messageMax ar id (read ++ [.message line]) =
      match usageOf line with
      | some usage =>
          if messageId ar line = some id then
            Counters.map₂ max (messageMax ar id read) ((readUsage ar usage).map ar.toInt)
          else messageMax ar id read
      | none => messageMax ar id read := by
  have hcomm : ∀ a b : Counters ℤ, Counters.map₂ max a b = Counters.map₂ max b a := by
    intro a b
    unfold Counters.map₂
    simp only [max_comm]
  have hassoc : ∀ a b c : Counters ℤ, Counters.map₂ max a (Counters.map₂ max b c) =
      Counters.map₂ max (Counters.map₂ max a b) c := by
    intro a b c
    unfold Counters.map₂
    simp only [max_assoc]
  induction read with
  | nil =>
      rw [List.nil_append, messageMax_message]
      cases usageOf line with
      | none => rfl
      | some usage =>
          dsimp only
          split
          · exact hcomm _ _
          · rfl
  | cons x read ih =>
      cases x with
      | event path l => exact ih
      | message l =>
          rw [List.cons_append, messageMax_message, messageMax_message, ih]
          cases usageOf l with
          | none => rfl
          | some usage =>
              dsimp only
              split
              · cases usageOf line with
                | none => rfl
                | some usage' =>
                    dsimp only
                    split
                    · exact hassoc _ _ _
                    · rfl
              · rfl

theorem messageMax_event (id : String) (read : List Seen) (path : String) (line : Json) :
    messageMax ar id (read ++ [.event path line]) = messageMax ar id read := by
  induction read with
  | nil => rfl
  | cons x read ih =>
      cases x with
      | event path' l => exact ih
      | message l =>
          rw [List.cons_append, messageMax_message, messageMax_message, ih]

theorem sessionIn_snoc (path : String) (read : List Seen) (x : Seen) :
    sessionIn ar path (read ++ [x]) = sessionIn ar path read + sessionIn ar path [x] := by
  unfold sessionIn
  rw [List.map_append, List.sum_append]

theorem sessionOut_snoc (path : String) (read : List Seen) (x : Seen) :
    sessionOut ar path (read ++ [x]) = sessionOut ar path read + sessionOut ar path [x] := by
  unfold sessionOut
  rw [List.map_append, List.sum_append]

/-! ## A line of a transcript -/

/-- A map of maxima that are whole numbers. -/
def WholeMaxima (ar : Arithmetic) (usageById : Fields) : Prop :=
  ∀ e ∈ usageById, ∃ c : Counters ℕ, c.Below ∧ e.2 = maxima (c.words ar)

theorem WholeMaxima.previous {usageById : Fields} (h : WholeMaxima ar usageById) (id : String) :
    ∃ p : Counters ℕ, p.Below ∧ readPrevious ar usageById id = p.words ar := by
  unfold readPrevious
  cases hget : usageById.get id with
  | none =>
      refine ⟨⟨0, 0, 0, 0⟩, ⟨by decide, by decide, by decide, by decide⟩, ?_⟩
      unfold Counters.words Counters.map
      dsimp only
      rw [Arithmetic.zero_whole]
  | some v =>
      obtain ⟨p, hp, hv⟩ := h _ (Fields.mem_of_get hget)
      obtain rfl : v = maxima (p.words ar) := hv
      exact ⟨p, hp, rfl⟩

theorem WholeMaxima.insert {usageById : Fields} (h : WholeMaxima ar usageById) (id : String)
    {c : Counters ℕ} (hc : c.Below) :
    WholeMaxima ar (usageById.insert id (maxima (c.words ar))) := by
  intro e he
  rcases Fields.mem_insert he with rfl | he
  · exact ⟨c, hc, rfl⟩
  · exact h e he.1

theorem send_silent {rows : List Row} (h : ∀ r ∈ rows, r.payer = none) :
    ∀ c ∈ rows.map (send machine), c.payer = none := by
  intro c hc
  obtain ⟨r, hr, rfl⟩ := List.mem_map.mp hc
  exact h r hr

/-- The rows of a line that charges some tokens, or none. -/
theorem claude_adds {s : Pipeline} {w : Watching} {line : Json} {ts cost : F64} {id : String}
    {charged : Prop} [Decidable charged] {a b : ℕ} (hts : recent ar w line = some ts)
    (hid : messageId ar line = some id) (ha : a < Binary64.limit) (hb : b < Binary64.limit)
    (hnone : ¬charged → a = 0 ∧ b = 0)
    (hcarried : charged → Carried ar w line ∧
      ¬Taken ar s (agentKey machine (claudeSource line) (w.resolveProject (claudeCwd line))
        (claudeEntity w line) ts)) :
    Adds ar s.table.keys s.pending
      ((claudeRows ar w ts line
        (if charged then some ⟨ar.ofInt a, ar.ofInt b, cost⟩ else none)).map (send machine))
      (.message id) a b := by
  by_cases hcharged : charged
  · obtain ⟨hcarried, hfree⟩ := hcarried hcharged
    obtain ⟨fields, rest, hrows, hfields, hrest⟩ :=
      @claudeRows_carrier ar w ts line id ⟨ar.ofInt a, ar.ofInt b, cost⟩ hid hcarried
    obtain ⟨hkey, hin, hout⟩ := @send_agent ar machine _ _ _ _ _ _ ts cost _ a b
      (some (.message id)) rfl (.inr ⟨_, rfl⟩) hfields (recent_finite hts) ha hb
    rw [if_pos hcharged, hrows, List.map_cons]
    refine Adds.carrier rfl hkey ?_ ?_ hin hout (send_silent hrest)
    · exact fun h => hfree (.inl h)
    · exact fun h => hfree (.inr h)
  · obtain ⟨rfl, rfl⟩ := hnone hcharged
    rw [if_neg hcharged]
    exact Adds.silent (send_silent fun r hr => claudeRows_silent (.inl rfl) hr) _

/-- What a line of Claude does: nothing, or rows without tokens, or rows with what its
counters exceed the maxima by. -/
theorem readMessage_cases {s : Pipeline} {w : Watching} {line : Json}
    (hwhole : WholeMaxima ar s.usageById) (hfits : ClaudeFits ar machine s w line) :
    s.readMessage ar machine w line = s ∨
      (∃ more, s.readMessage ar machine w line =
          { s with pending := s.pending ++ more, read := s.read ++ [.message line] } ∧
        (∀ c ∈ more, c.payer = none) ∧ (usageOf line = none ∨ messageId ar line = none)) ∨
      ∃ usage id, ∃ c p : Counters ℕ, ∃ more, usageOf line = some usage ∧
        messageId ar line = some id ∧ readUsage ar usage = c.words ar ∧ c.Below ∧
        readPrevious ar s.usageById id = p.words ar ∧ p.Below ∧
        s.readMessage ar machine w line =
          { s with
            usageById := s.usageById.insert id (maxima ((Counters.map₂ max c p).words ar))
            pending := s.pending ++ more
            read := s.read ++ [.message line] } ∧
        Adds ar s.table.keys s.pending more (.message id)
          (c.input - p.input + (c.cacheWrite - p.cacheWrite) + (c.cacheRead - p.cacheRead) : ℕ)
          (c.output - p.output : ℕ) := by
  unfold Pipeline.readMessage claudeLine
  cases hts : recent ar w line with
  | none =>
      left
      simp
  | some ts =>
      right
      dsimp only
      rw [Option.isSome_some, if_pos rfl]
      by_cases hnone : usageOf line = none ∨ messageId ar line = none
      · left
        have hsilent : (account ar w s.usageById line).1 = s.usageById ∧
            ((account ar w s.usageById line).2 = none ∨ messageId ar line = none) := by
          unfold account
          rcases hnone with husage | hid
          · rw [husage]
            exact ⟨rfl, .inl rfl⟩
          · rw [hid]
            cases usageOf line with
            | none => exact ⟨rfl, .inl rfl⟩
            | some usage => exact ⟨rfl, .inr rfl⟩
        refine ⟨(claudeRows ar w ts line (account ar w s.usageById line).2).map (send machine), ?_,
          send_silent fun r hr => claudeRows_silent hsilent.2 hr, hnone⟩
        rw [hsilent.1]
      · right
        obtain ⟨husage, hid⟩ := not_or.mp hnone
        obtain ⟨usage, husage⟩ := Option.ne_none_iff_exists'.mp husage
        obtain ⟨id, hid⟩ := Option.ne_none_iff_exists'.mp hid
        obtain ⟨c, hc, hcfits, hcarried⟩ := hfits ts usage id hts husage hid
        obtain ⟨p, hp, hprevious⟩ := hwhole.previous id
        rw [hprevious, words_whole hp, Counters.exceeds_cast] at hcarried
        obtain ⟨cost, haccount⟩ :=
          @account_whole ar w s.usageById line usage id c p husage hid hc hcfits hprevious hp
        refine ⟨usage, id, c, p,
          (claudeRows ar w ts line (account ar w s.usageById line).2).map (send machine),
          husage, hid, hc, hcfits.below, hprevious, hp, ?_, ?_⟩
        · rw [haccount]
        · rw [haccount]
          have hsum := hcfits.1
          have hout := hcfits.2
          refine claude_adds hts hid (by omega) (by omega) (fun hexceeds => ?_) hcarried
          unfold Counters.Exceeds at hexceeds
          omega

/-- The rows of an event. -/
theorem codex_adds {s : Pipeline} {w : Watching} {path : String} {line : Json} {ts : F64}
    (hts : codexEvent ar w line = some ts) (hfits : CodexFits ar machine s w path line) :
    Adds ar s.table.keys s.pending
      ((codexRows ar w path (s.codexMeta path) ts line).map (send machine)) (.session path)
      (sessionIn ar path [.event path line]) (sessionOut ar path [.event path line]) := by
  have hin : ∀ {tu} {u : EventUsage}, tokenUsage (payload ar line) = some tu → u.Of ar tu →
      u.Fits → sessionIn ar path [.event path line] = u.input := by
    intro tu u husage hu hu'
    unfold sessionIn
    simp only [List.map_cons, List.map_nil, if_pos, husage, Option.map_some, Option.getD_some,
      hu.1, ar.toInt_whole _ hu'.1, List.sum_cons, List.sum_nil, add_zero]
  have hout : ∀ {tu} {u : EventUsage}, tokenUsage (payload ar line) = some tu → u.Of ar tu →
      u.Fits → sessionOut ar path [.event path line] = (u.output + u.reasoning : ℕ) := by
    intro tu u husage hu hu'
    have hsum := hu'.2
    unfold sessionOut
    simp only [List.map_cons, List.map_nil, if_pos, husage, Option.map_some, Option.getD_some,
      hu.2.1, hu.2.2, ar.toInt_whole _ (show u.output < _ by omega),
      ar.toInt_whole _ (show u.reasoning < _ by omega), List.sum_cons, List.sum_nil, add_zero,
      Int.natCast_add]
  cases husage : tokenUsage (payload ar line) with
  | none =>
      have hsums : sessionIn ar path [.event path line] = 0 ∧
          sessionOut ar path [.event path line] = 0 := by
        unfold sessionIn sessionOut
        simp [husage]
      rw [hsums.1, hsums.2]
      refine Adds.silent (send_silent fun r hr => codexRows_silent (fun tu htu => ?_) hr) _
      rw [husage] at htu
      cases htu
  | some tu =>
      obtain ⟨u, hu, hufits, hfree⟩ := hfits ts tu hts husage
      rw [hin husage hu hufits, hout husage hu hufits]
      by_cases hpos : u.Positive
      · obtain ⟨hchanges, hfree⟩ := hfree hpos
        obtain ⟨cost, hrows⟩ :=
          @codexRows_carrier ar w path (s.codexMeta path) ts line tu u husage hu hufits hpos hchanges
        obtain ⟨hkey, hstoredIn, hstoredOut⟩ := @send_agent ar machine _ _ _ _ _ _ ts cost _
          u.input (u.output + u.reasoning) (some (.session path)) rfl (.inl rfl) (.inr rfl)
          (codexEvent_finite hts) hufits.1 hufits.2
        rw [hrows]
        refine Adds.carrier rfl hkey ?_ ?_ hstoredIn hstoredOut (by simp)
        · exact fun h => hfree (.inl h)
        · exact fun h => hfree (.inr h)
      · have hzero : u.input = 0 ∧ u.output + u.reasoning = 0 := by
          unfold EventUsage.Positive at hpos
          omega
        rw [hzero.1, hzero.2]
        refine Adds.silent (send_silent fun r hr => codexRows_silent (fun tu' htu => ?_) hr) _
        obtain rfl : tu = tu' := Option.some.inj (husage.symm.trans htu)
        exact ⟨u, hu, hufits, hpos⟩

/-- What a line of Codex does besides what is learned from it. -/
theorem readEvent_cases {s : Pipeline} {w : Watching} {path : String} {line : Json}
    (hfits : CodexFits ar machine s w path line) :
    ∃ info, s.readEvent ar machine w path line = { s with codexMeta := info } ∨
      ∃ more, s.readEvent ar machine w path line =
          { s with
            codexMeta := info
            pending := s.pending ++ more
            read := s.read ++ [.event path line] } ∧
        Adds ar s.table.keys s.pending more (.session path)
          (sessionIn ar path [.event path line]) (sessionOut ar path [.event path line]) := by
  unfold Pipeline.readEvent
  dsimp only
  cases hts : codexEvent ar w line with
  | none =>
      refine ⟨Function.update s.codexMeta path (codexLine ar w path (s.codexMeta path) line).1,
        .inl ?_⟩
      rw [codexLine_other hts]
      simp
  | some ts =>
      rw [codexLine_event hts]
      exact ⟨_, .inr ⟨_, rfl, codex_adds hts hfits⟩⟩

/-! ## The invariant -/

structure Inv (ar : Arithmetic) (s : Pipeline) : Prop where
  fresh : FreshQueue ar s.table.keys s.pending
  landed : Landed ar s.table s.delivered
  whole : WholeMaxima ar s.usageById
  messages : ∀ id, id ∉ s.evicted →
    (readPrevious ar s.usageById id).map ar.toInt = messageMax ar id s.read ∧
      chargedIn ar (.message id) (s.delivered ++ s.pending) =
        (messageMax ar id s.read).input + (messageMax ar id s.read).cacheWrite +
          (messageMax ar id s.read).cacheRead ∧
      chargedOut ar (.message id) (s.delivered ++ s.pending) = (messageMax ar id s.read).output
  sessions : ∀ path,
    chargedIn ar (.session path) (s.delivered ++ s.pending) = sessionIn ar path s.read ∧
      chargedOut ar (.session path) (s.delivered ++ s.pending) = sessionOut ar path s.read

theorem Adds.totalIn {keys : List DedupeKey} {queue more : List Sent} {p : Payer} {a b : ℤ}
    (h : Adds ar keys queue more p a b) (q : Payer) (rows : List Sent) :
    chargedIn ar q (rows ++ (queue ++ more)) =
      chargedIn ar q (rows ++ queue) + if q = p then a else 0 := by
  rw [← List.append_assoc, chargedIn_append, h.input]

theorem Adds.totalOut {keys : List DedupeKey} {queue more : List Sent} {p : Payer} {a b : ℤ}
    (h : Adds ar keys queue more p a b) (q : Payer) (rows : List Sent) :
    chargedOut ar q (rows ++ (queue ++ more)) =
      chargedOut ar q (rows ++ queue) + if q = p then b else 0 := by
  rw [← List.append_assoc, chargedOut_append, h.output]

theorem Inv.readMessage {s : Pipeline} (h : Inv ar s) {w : Watching} {line : Json}
    (hfits : ClaudeFits ar machine s w line) : Inv ar (s.readMessage ar machine w line) := by
  have hsession : ∀ path, sessionIn ar path [.message line] = 0 ∧
      sessionOut ar path [.message line] = 0 := fun path => ⟨rfl, rfl⟩
  rcases readMessage_cases h.whole hfits with hsame | ⟨more, hread, hsilent, hnone⟩ |
    ⟨usage, id, c, p, more, husage, hid, hc, hcb, hp, hpb, hread, hadds⟩
  · rw [hsame]
    exact h
  · have hadds : Adds ar s.table.keys s.pending more (.message "") 0 0 := Adds.silent hsilent _
    rw [hread]
    refine ⟨hadds.fresh h.fresh, h.landed, h.whole, fun id hid => ?_, fun path => ?_⟩
    · have hmax : messageMax ar id (s.read ++ [.message line]) = messageMax ar id s.read := by
        rw [messageMax_snoc]
        rcases hnone with husage | hno
        · rw [husage]
        · cases usageOf line with
          | none => rfl
          | some usage =>
              rw [hno]
              exact if_neg (by simp)
      dsimp only
      rw [hmax, hadds.totalIn, hadds.totalOut, ite_self, add_zero, add_zero]
      exact h.messages id hid
    · dsimp only
      rw [sessionIn_snoc, sessionOut_snoc, (hsession path).1, (hsession path).2, hadds.totalIn,
        hadds.totalOut, ite_self]
      simpa using h.sessions path
  · rw [hread]
    refine ⟨hadds.fresh h.fresh, h.landed, h.whole.insert id (hcb.max hpb), fun id' hid' => ?_,
      fun path => ?_⟩
    · obtain ⟨hprevious, hin, hout⟩ := h.messages id' hid'
      dsimp only
      rw [messageMax_snoc, husage, hadds.totalIn, hadds.totalOut]
      dsimp only
      by_cases hsame : id' = id
      · subst hsame
        rw [if_pos hid, if_pos rfl, if_pos rfl, readPrevious_insert, words_whole (hcb.max hpb), hc,
          words_whole hcb, hin, hout, ← hprevious, hp, words_whole hpb]
        unfold Counters.map₂ Counters.map
        dsimp only
        have hcast : ∀ a b : ℕ, ((max a b : ℕ) : ℤ) = max (b : ℤ) (a : ℤ) := by omega
        simp only [hcast]
        refine ⟨trivial, by omega, by omega⟩
      · have hother : ¬messageId ar line = some id' := by
          rw [hid]
          exact fun heq => hsame (Option.some.inj heq).symm
        have hpayer : ¬Payer.message id' = Payer.message id := by
          intro heq
          injection heq with heq
          exact hsame heq
        rw [if_neg hother, if_neg hpayer, if_neg hpayer, readPrevious_insert_of_ne hsame, add_zero,
          add_zero]
        exact ⟨hprevious, hin, hout⟩
    · have hpayer : ¬Payer.session path = Payer.message id := by
        intro heq
        cases heq
      dsimp only
      rw [sessionIn_snoc, sessionOut_snoc, (hsession path).1, (hsession path).2, hadds.totalIn,
        hadds.totalOut, if_neg hpayer]
      simpa using h.sessions path

theorem Inv.readEvent {s : Pipeline} (h : Inv ar s) {w : Watching} {path : String} {line : Json}
    (hfits : CodexFits ar machine s w path line) :
    Inv ar (s.readEvent ar machine w path line) := by
  obtain ⟨info, hread | ⟨more, hread, hadds⟩⟩ := readEvent_cases hfits
  · rw [hread]
    exact ⟨h.fresh, h.landed, h.whole, h.messages, h.sessions⟩
  · rw [hread]
    refine ⟨hadds.fresh h.fresh, h.landed, h.whole, fun id hid => ?_, fun path' => ?_⟩
    · have hpayer : ¬Payer.message id = Payer.session path := by
        intro heq
        cases heq
      dsimp only
      rw [messageMax_event, hadds.totalIn, hadds.totalOut, if_neg hpayer, if_neg hpayer, add_zero,
        add_zero]
      exact h.messages id hid
    · dsimp only
      rw [sessionIn_snoc, sessionOut_snoc, hadds.totalIn, hadds.totalOut, (h.sessions path').1,
        (h.sessions path').2]
      by_cases hsame : path' = path
      · subst hsame
        rw [if_pos rfl, if_pos rfl]
        exact ⟨rfl, rfl⟩
      · have hpayer : ¬Payer.session path' = Payer.session path := by
          intro heq
          injection heq with heq
          exact hsame heq
        rw [if_neg hpayer, if_neg hpayer]
        unfold sessionIn sessionOut
        simp [Ne.symm hsame]

/-- A run over lines, each of which is read in the state before it. -/
theorem foldl_inv {P : Pipeline → Prop} {Q : Pipeline → Json → Prop}
    {f : Pipeline → Json → Pipeline} (hstep : ∀ s line, P s → Q s line → P (f s line))
    {s : Pipeline} (h : P s) {lines : List Json}
    (hlines : ∀ pre line post, lines = pre ++ line :: post → Q (pre.foldl f s) line) :
    P (lines.foldl f s) := by
  induction lines generalizing s with
  | nil => exact h
  | cons line lines ih =>
      refine ih (hstep s line h (hlines [] line lines rfl)) fun pre line' post heq => ?_
      exact hlines (line :: pre) line' post (by rw [heq]; rfl)

theorem WholeMaxima.drop {usageById : Fields} (h : WholeMaxima ar usageById) (k : ℕ) :
    WholeMaxima ar (usageById.drop k) := by
  intro e he
  exact h e (List.mem_of_mem_drop he)

/-- The oldest entries are lost. -/
theorem Inv.lose {s : Pipeline} (h : Inv ar s) (k : ℕ) :
    Inv ar { s with
      usageById := s.usageById.drop k
      evicted := s.evicted ++ (s.usageById.take k).map Prod.fst } := by
  refine ⟨h.fresh, h.landed, h.whole.drop k, fun id hid => ?_, h.sessions⟩
  dsimp only at hid
  rw [List.mem_append, not_or] at hid
  obtain ⟨hold, hlost⟩ := hid
  have hget : Fields.get (s.usageById.drop k) id = s.usageById.get id := by
    unfold Fields.get
    conv_rhs => rw [← List.take_append_drop k s.usageById, Table.lookup_append,
      Table.lookup_eq_none.mpr hlost, Option.none_or]
  have hprevious : readPrevious ar (s.usageById.drop k) id = readPrevious ar s.usageById id := by
    unfold readPrevious
    rw [hget]
  dsimp only
  rw [hprevious]
  exact h.messages id hold

theorem Inv.deliver {s : Pipeline} (h : Inv ar s) (now : F64) (count : ℕ) :
    Inv ar { s.insert ar now (s.pending.take count) with
      pending := s.pending.drop count
      delivered := s.delivered ++ s.pending.take count } := by
  have hqueue : FreshQueue ar s.table.keys (s.pending.take count ++ s.pending.drop count) := by
    rw [List.take_append_drop]
    exact h.fresh
  have hsent : s.delivered ++ s.pending.take count ++ s.pending.drop count =
      s.delivered ++ s.pending := by
    rw [List.append_assoc, List.take_append_drop]
  obtain ⟨hlanded, hfresh⟩ := h.landed.batch now hqueue
  refine ⟨hfresh, hlanded, h.whole, fun id hid => ?_, fun path => ?_⟩
  · dsimp only
    rw [hsent]
    exact h.messages id hid
  · dsimp only
    rw [hsent]
    exact h.sessions path

theorem Inv.redeliver {s : Pipeline} (h : Inv ar s) (now : F64) (again : List ℕ) :
    Inv ar (s.insert ar now (again.filterMap (s.delivered[·]?))) := by
  have hsame : s.insert ar now (again.filterMap (s.delivered[·]?)) = s := by
    unfold Pipeline.insert
    rw [h.landed.again now]
    intro c hc
    obtain ⟨i, -, hi⟩ := List.mem_filterMap.mp hc
    exact List.mem_of_getElem? hi
  rw [hsame]
  exact h

theorem Inv.step {s t : Pipeline} {a : Label} (h : Inv ar s) (hok : Charges ar machine s a)
    (hs : s.step ar machine a = some t) : Inv ar t := by
  cases a with
  | claude w lines =>
      obtain rfl := Option.some.inj hs
      exact foldl_inv (Q := fun s line => ClaudeFits ar machine s w line)
        (fun s line hinv hfits => hinv.readMessage hfits) h hok
  | trim =>
      obtain rfl := Option.some.inj hs
      exact h.lose (s.usageById.length - USAGE_BY_ID_CAP)
  | codex w path firstSight head lines =>
      obtain rfl := Option.some.inj hs
      refine foldl_inv (Q := fun s line => CodexFits ar machine s w path line)
        (fun s line hinv hfits => hinv.readEvent hfits) ?_ hok
      exact ⟨h.fresh, h.landed, h.whole, h.messages, h.sessions⟩
  | deliver now count =>
      obtain rfl := Option.some.inj hs
      exact h.deliver now count
  | redeliver now again =>
      obtain rfl := Option.some.inj hs
      exact h.redeliver now again

theorem Inv.start {s : Pipeline} (h : s.Init) : Inv ar s := by
  obtain ⟨husage, hpending, hdelivered, hread, -⟩ := h
  refine ⟨?_, ?_, ?_, fun id _ => ?_, fun path => ?_⟩
  · rw [hpending]
    trivial
  · rw [hdelivered]
    exact ⟨by simp, by simp, List.nodup_nil⟩
  · rw [husage]
    intro e he
    cases he
  · rw [husage, hread, hdelivered, hpending]
    refine ⟨?_, rfl, rfl⟩
    have hzero : ar.toInt F64.zero = 0 := by
      rw [← Arithmetic.zero_whole, ar.toInt_whole 0 (by decide)]
      rfl
    unfold readPrevious Counters.map
    dsimp only [Fields.get, Table.lookup_nil, Option.map_none]
    rw [hzero]
    rfl
  · rw [hread, hdelivered, hpending]
    exact ⟨rfl, rfl⟩

/-- **Tokens are charged once** in every run that charges what it reads. -/
theorem charged_once {s : Pipeline} (h : (system ar machine).Reach (Charges ar machine) s) :
    ChargedOnce ar s := by
  have hinv : Inv ar s :=
    h.invariant (P := Inv ar) (fun _ hinit => Inv.start hinit) fun _ _ _ hP hok hs => hP.step hok hs
  constructor
  · intro hpending id hid
    obtain ⟨-, hin, hout⟩ := hinv.messages id hid
    rw [hpending, List.append_nil] at hin hout
    exact ⟨(hinv.landed.stored _ fun c b hb _ => hb).trans hin,
      (hinv.landed.stored _ fun c b _ hb => hb).trans hout⟩
  · intro hpending path
    obtain ⟨hin, hout⟩ := hinv.sessions path
    rw [hpending, List.append_nil] at hin hout
    exact ⟨(hinv.landed.stored _ fun c b hb _ => hb).trans hin,
      (hinv.landed.stored _ fun c b _ hb => hb).trans hout⟩

/-! ## A message that grows, and two at one instant -/

/-- The arithmetic of whole numbers. -/
def wholeNumbers : Arithmetic where
  ofInt n := Binary64.encode n.toNat
  toInt f := Binary64.decode f
  round f := f
  isSafeInteger _ := true
  sub a b := Binary64.encode (Binary64.decode a - Binary64.decode b)
  display f := toString (Binary64.decode f)
  parse _ := F64.nan
  add a b := Binary64.encode (Binary64.decode a + Binary64.decode b)
  max a b := Binary64.encode (Nat.max (Binary64.decode a) (Binary64.decode b))
  less a b := decide (Binary64.decode a < Binary64.decode b)
  add_whole a b h := by
    dsimp only [Int.toNat_natCast]
    rw [Binary64.decode_encode (by omega), Binary64.decode_encode (by omega)]
  excess_whole a b ha hb := by
    dsimp only [Int.toNat_natCast]
    rw [Binary64.decode_encode ha, Binary64.decode_encode hb, Binary64.decode_encode (by omega)]
    exact congrArg Binary64.encode (Nat.max_zero _)
  max_whole a b ha hb := by
    dsimp only [Int.toNat_natCast]
    rw [Binary64.decode_encode ha, Binary64.decode_encode hb]
  bits_whole _ h := Binary64.encode_fields h
  toInt_whole n h := by
    dsimp only [Int.toNat_natCast]
    rw [Binary64.decode_encode h]
  round_whole _ _ := rfl

/-- A minute after the lines, with prices of zero and a name for the one project. -/
def oneMinute : Watching where
  now := Binary64.encode 60
  seconds text :=
    if text = "1970-01-01T00:00:01Z" then some (Binary64.encode 1)
    else if text = "1970-01-01T00:00:02Z" then some (Binary64.encode 2)
    else none
  resolveProject cwd := if cwd = "/work/app" then "app" else cwd
  lowercase text := text
  cost _ _ := F64.zero
  seconds_finite text ts h := by
    split at h
    · obtain rfl := Option.some.inj h
      decide
    · split at h
      · obtain rfl := Option.some.inj h
        decide
      · cases h

def answer (second id : String) (output : ℤ) : Json :=
  .object [("type", .string "assistant"), ("cwd", .string "/work/app"),
    ("timestamp", .string ("1970-01-01T00:00:0" ++ second ++ "Z")),
    ("message", .object [("id", .string id),
      ("usage", .object [("input_tokens", .number (.int 10)),
        ("output_tokens", .number (.int output))])])]

def spent (second : String) (input output : ℤ) : Json :=
  .object [("type", .string "event_msg"),
    ("timestamp", .string ("1970-01-01T00:00:0" ++ second ++ "Z")),
    ("payload", .object [("type", .string "token_count"),
      ("info", .object [("last_token_usage", .object [("input_tokens", .number (.int input)),
        ("output_tokens", .number (.int output))])])])]

/-- Nothing was read. -/
def fresh : Pipeline := ⟨[], fun _ => [], [], [], Heartbeats.empty, [], []⟩

def growingRun : List Label :=
  [.claude oneMinute [answer "1" "m1" 5, answer "2" "m1" 9],
    .codex oneMinute "rollout-1.jsonl" true none [spent "1" 7 3],
    .deliver F64.zero 3, .redeliver F64.zero [0, 1, 2]]

def grown : Option Pipeline := (system wholeNumbers "laptop").run fresh growingRun

set_option maxRecDepth 4096 in
example : grown.map (fun s => (s.pending.length, s.table.rows.map Heartbeat.tokensIn,
    s.table.rows.map Heartbeat.tokensOut)) = some (0, [10, 0, 7], [5, 4, 3]) := by decide

theorem ClaudeFits.of_carried {s : Pipeline} {w : Watching} {line usage : Json} {ts : F64}
    {c : Counters ℕ} (hts : recent ar w line = some ts) (husage : usageOf line = some usage)
    (hc : readUsage ar usage = c.words ar) (hfits : c.Fits) (hcarried : Carried ar w line)
    (hfree : ¬Taken ar s (agentKey machine (claudeSource line) (w.resolveProject (claudeCwd line))
      (claudeEntity w line) ts)) : ClaudeFits ar machine s w line := by
  intro ts' usage' id' hts' husage' hid'
  obtain rfl : ts = ts' := Option.some.inj (hts.symm.trans hts')
  obtain rfl : usage = usage' := Option.some.inj (husage.symm.trans husage')
  exact ⟨c, hc, hfits, fun _ => ⟨hcarried, hfree⟩⟩

theorem CodexFits.of_free {s : Pipeline} {w : Watching} {path : String} {line tu : Json} {ts : F64}
    {u : EventUsage} (hts : codexEvent ar w line = some ts)
    (husage : tokenUsage (payload ar line) = some tu) (hu : u.Of ar tu) (hfits : u.Fits)
    (hchanges : changes (payload ar line) = none)
    (hfree : ¬Taken ar s (agentKey machine (codexSource (s.codexMeta path))
      (w.resolveProject (codexCwd (s.codexMeta path))) (codexCwd (s.codexMeta path)) ts)) :
    CodexFits ar machine s w path line := by
  intro ts' tu' hts' husage'
  obtain rfl : ts = ts' := Option.some.inj (hts.symm.trans hts')
  obtain rfl : tu = tu' := Option.some.inj (husage.symm.trans husage')
  exact ⟨u, hu, hfits, fun _ => ⟨hchanges, hfree⟩⟩

theorem splits_cons {a : Json} {lines : List Json} {P : List Json → Json → Prop} (h : P [] a)
    (hrest : ∀ pre line post, lines = pre ++ line :: post → P (a :: pre) line) :
    ∀ pre line post, a :: lines = pre ++ line :: post → P pre line := by
  intro pre line post heq
  cases pre with
  | nil =>
      obtain ⟨rfl, -⟩ := List.cons.inj heq
      exact h
  | cons b pre =>
      obtain ⟨rfl, htail⟩ := List.cons.inj heq
      exact hrest pre line post htail

theorem splits_nil {P : List Json → Json → Prop} :
    ∀ pre line post, [] = pre ++ line :: post → P pre line := by
  intro pre line post heq
  cases pre <;> cases heq

set_option maxRecDepth 4096 in
/-- A message that grows and an event, delivered and delivered again. -/
theorem charged_once_grown : ∃ s, (system wholeNumbers "laptop").run fresh growingRun = some s ∧
    s.pending = [] ∧ ChargedOnce wholeNumbers s := by
  have hfirst : ClaudeFits wholeNumbers "laptop" fresh oneMinute (answer "1" "m1" 5) :=
    @ClaudeFits.of_carried wholeNumbers "laptop" _ _ _ _ _ ⟨10, 0, 0, 5⟩ rfl rfl rfl
      (by unfold Counters.Fits; decide) ⟨rfl, .inr rfl⟩ (by unfold Taken; decide)
  have hsecond : ClaudeFits wholeNumbers "laptop"
      (fresh.readMessage wholeNumbers "laptop" oneMinute (answer "1" "m1" 5)) oneMinute
      (answer "2" "m1" 9) :=
    @ClaudeFits.of_carried wholeNumbers "laptop" _ _ _ _ _ ⟨10, 0, 0, 9⟩ rfl rfl rfl
      (by unfold Counters.Fits; decide) ⟨rfl, .inr rfl⟩ (by unfold Taken; decide)
  let s := fresh.readMessage wholeNumbers "laptop" oneMinute (answer "1" "m1" 5)
    |>.readMessage wholeNumbers "laptop" oneMinute (answer "2" "m1" 9)
  have hread : (system wholeNumbers "laptop").Reach (Charges wholeNumbers "laptop") s :=
    .next (a := .claude oneMinute [answer "1" "m1" 5, answer "2" "m1" 9])
      (.start ⟨rfl, rfl, rfl, rfl, rfl⟩) (splits_cons hfirst (splits_cons hsecond splits_nil)) rfl
  have hthird : CodexFits wholeNumbers "laptop" (s.readHead wholeNumbers oneMinute
      "rollout-1.jsonl" true none) oneMinute "rollout-1.jsonl" (spent "1" 7 3) :=
    @CodexFits.of_free wholeNumbers "laptop" _ _ _ _ _ _ ⟨7, 3, 0⟩ rfl rfl ⟨rfl, rfl, rfl⟩
      (by unfold EventUsage.Fits; decide) rfl (by unfold Taken; decide)
  have hcharges : Charges wholeNumbers "laptop" s
      (.codex oneMinute "rollout-1.jsonl" true none [spent "1" 7 3]) :=
    splits_cons hthird splits_nil
  have hevent := hread.next hcharges rfl
  have hdelivered := hevent.next
    (show Charges wholeNumbers "laptop" _ (.deliver F64.zero 3) from trivial) rfl
  have hagain := hdelivered.next
    (show Charges wholeNumbers "laptop" _ (.redeliver F64.zero [0, 1, 2]) from trivial) rfl
  exact ⟨_, rfl, rfl, charged_once hagain⟩

def twinRun : List Label :=
  [.claude oneMinute [answer "1" "m1" 5, answer "1" "m2" 9], .deliver F64.zero 2]

set_option maxRecDepth 4096 in
/-- Two messages of one instant have one key: what the second one spent is recorded and never
stored. -/
theorem twin_uncharged :
    ¬∀ s, (system wholeNumbers "laptop").Reach Anyway s → ChargedOnce wholeNumbers s := by
  intro h
  have hinit : (system wholeNumbers "laptop").init fresh := ⟨rfl, rfl, rfl, rfl, rfl⟩
  obtain ⟨s, hs⟩ := Option.isSome_iff_exists.mp
    (show ((system wholeNumbers "laptop").run fresh twinRun).isSome = true from rfl)
  have hcharged := h s ((System.Reach.start hinit).of_run hs)
  have hsums : s.pending = [] ∧ "m2" ∉ s.evicted ∧
      ((storedFor wholeNumbers s (.message "m2")).map Heartbeat.tokensOut).sum = 5 ∧
        (messageMax wholeNumbers "m2" s.read).output = 9 := by
    obtain rfl := Option.some.inj hs
    decide
  obtain ⟨hpending, hevicted, hstored, hmax⟩ := hsums
  have hout := (hcharged.messages hpending "m2" hevicted).2
  rw [hstored, hmax] at hout
  exact absurd hout (by decide)

end Charging

end Stackhour.Tracker
