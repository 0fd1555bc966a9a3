import Mathlib.Algebra.BigOperators.Group.List.Basic
import Mathlib.Algebra.Ring.Int.Defs
import Stackhour.Agent.Transcripts
import Stackhour.Lib.System
import Stackhour.Tracker.Heartbeats

/-!
# Tokens from transcript to table

The watchers read lines as they come, their rows are queued, delivered in order and, after
a lost response, again; the table ignores a row whose key it has. Tokens are charged once
where the row that carries them is stored.
-/

namespace Stackhour.Tracker

open Agent.Transcripts Core Domain TransitionSystem

namespace Charging

/-- A row on its way to the table, with whose tokens it carries. -/
structure Sent where
  payer : Option Payer
  row : Json

/-- A line of the window that was read. -/
inductive Seen where
  | message (line : Json)
  | event (path : String) (line : Json)

/-- The state of the watchers, the queue and the table; `evicted` are the messages that the
map of maxima has lost. -/
structure Pipeline where
  usageById : Fields
  codexMeta : String → Fields
  pending : List Sent
  delivered : List Sent
  table : Heartbeats
  read : List Seen
  evicted : List String

/-- A run of a watcher over the new lines of a file, the end of a run of the Claude watcher,
and a batch that arrives, for the first time or again. -/
inductive Label where
  | claude (w : Watching) (lines : List Json)
  | trim
  | codex (w : Watching) (path : String) (firstSight : Bool) (head : Option Json)
      (lines : List Json)
  | deliver (now : F64) (count : ℕ)
  | redeliver (now : F64) (again : List ℕ)

variable (ar : Arithmetic) (machine : String)

/-- `{ machine, ...row }`. -/
def send (r : Row) : Sent := ⟨r.payer, .object (("machine", .string machine) :: r.fields)⟩

namespace Pipeline

/-- A line of the loop of the Claude watcher. -/
def readMessage (s : Pipeline) (w : Watching) (line : Json) : Pipeline :=
  let out := claudeLine ar w s.usageById line
  { s with
    usageById := out.1
    pending := s.pending ++ out.2.map (send machine)
    read := if (recent ar w line).isSome then s.read ++ [.message line] else s.read }

/-- A line of the loop of the Codex watcher. -/
def readEvent (s : Pipeline) (w : Watching) (path : String) (line : Json) : Pipeline :=
  let out := codexLine ar w path (s.codexMeta path) line
  { s with
    codexMeta := Function.update s.codexMeta path out.1
    pending := s.pending ++ out.2.map (send machine)
    read := if (codexEvent ar w line).isSome then s.read ++ [.event path line] else s.read }

def insert (s : Pipeline) (now : F64) (rows : List Sent) : Pipeline :=
  { s with table := (insertRows ar.toFloats now s.table (rows.map Sent.row)).1 }

def readHead (s : Pipeline) (w : Watching) (path : String) (firstSight : Bool)
    (head : Option Json) : Pipeline :=
  { s with
    codexMeta := Function.update s.codexMeta path
      (headMeta ar w (s.codexMeta path) firstSight head) }

def step (s : Pipeline) : Label → Option Pipeline
  | .claude w lines => some (lines.foldl (fun s line => s.readMessage ar machine w line) s)
  | .trim =>
      let lost := s.usageById.take (s.usageById.length - USAGE_BY_ID_CAP)
      some { s with
        usageById := trimUsageById s.usageById
        evicted := s.evicted ++ lost.map Prod.fst }
  | .codex w path firstSight head lines =>
      some (lines.foldl (fun s line => s.readEvent ar machine w path line)
        (s.readHead ar w path firstSight head))
  | .deliver now count =>
      some { s.insert ar now (s.pending.take count) with
        pending := s.pending.drop count
        delivered := s.delivered ++ s.pending.take count }
  | .redeliver now again => some (s.insert ar now (again.filterMap (s.delivered[·]?)))

/-- Nothing was read, with any table. -/
def Init (s : Pipeline) : Prop :=
  s.usageById = [] ∧ s.pending = [] ∧ s.delivered = [] ∧ s.read = [] ∧ s.evicted = []

end Pipeline

def system : System Pipeline Label where
  init := Pipeline.Init
  step := Pipeline.step ar machine

/-! ## What is to be charged -/

/-- The maxima of a message over the lines. -/
def messageMax (id : String) : List Seen → Counters ℤ
  | [] => ⟨0, 0, 0, 0⟩
  | .message line :: rest =>
      match usageOf line with
      | some usage =>
          if messageId ar line = some id then
            Counters.map₂ max ((readUsage ar usage).map ar.toInt) (messageMax id rest)
          else messageMax id rest
      | none => messageMax id rest
  | .event _ _ :: rest => messageMax id rest

/-- The input of the events of a session. -/
def sessionIn (path : String) (read : List Seen) : ℤ :=
  (read.map fun
    | .event p line =>
        if p = path then
          ((tokenUsage (payload ar line)).map (fun tu => ar.toInt (counter ar tu "input_tokens"))).getD 0
        else 0
    | .message _ => 0).sum

/-- Their output, with what was spent on reasoning. -/
def sessionOut (path : String) (read : List Seen) : ℤ :=
  (read.map fun
    | .event p line =>
        if p = path then
          ((tokenUsage (payload ar line)).map (fun tu => ar.toInt (counter ar tu "output_tokens") +
            ar.toInt (counter ar tu "reasoning_output_tokens"))).getD 0
        else 0
    | .message _ => 0).sum

/-! ## What is stored -/

def sentKey (c : Sent) : Option DedupeKey := rowKey ar.toFloats c.row

/-- The rows that carry the tokens of a payer. -/
def carriers (p : Payer) (rows : List Sent) : List Sent :=
  rows.filter fun c => decide (c.payer = some p)

/-- The stored rows under their keys. -/
def storedFor (s : Pipeline) (p : Payer) : List Heartbeat :=
  s.table.rows.filter fun h => decide (h.key ∈ (carriers p s.delivered).filterMap (sentKey ar))

/-- Once all rows are delivered, what is stored for a message that is still in the map of
maxima is its maxima, and what is stored for a session is the usage of its events. -/
structure ChargedOnce (s : Pipeline) : Prop where
  messages : s.pending = [] → ∀ id, id ∉ s.evicted →
    ((storedFor ar s (.message id)).map Heartbeat.tokensIn).sum =
        (messageMax ar id s.read).input + (messageMax ar id s.read).cacheWrite +
          (messageMax ar id s.read).cacheRead ∧
      ((storedFor ar s (.message id)).map Heartbeat.tokensOut).sum =
        (messageMax ar id s.read).output
  sessions : s.pending = [] → ∀ path,
    ((storedFor ar s (.session path)).map Heartbeat.tokensIn).sum = sessionIn ar path s.read ∧
      ((storedFor ar s (.session path)).map Heartbeat.tokensOut).sum = sessionOut ar path s.read

/-! ## The table -/

variable {ar machine}

/-- `INSERT OR IGNORE` of one row. -/
theorem insertRows_one (now : F64) (t : Heartbeats) (row : Json) :
    (rowKey ar.toFloats row = none ∧ (insertRows ar.toFloats now t [row]).1 = t) ∨
      ∃ k, rowKey ar.toFloats row = some k ∧
        (k ∈ t.keys ∧ (insertRows ar.toFloats now t [row]).1 = t ∨
          k ∉ t.keys ∧ ∃ h : Heartbeat, h.key = k ∧
            h.tokensIn = nonnegInt ar.toFloats (row.get "tokens_in") ∧
            h.tokensOut = nonnegInt ar.toFloats (row.get "tokens_out") ∧
            (insertRows ar.toFloats now t [row]).1.rows = t.rows ++ [h]) := by
  unfold insertRows
  cases htime : finiteTime ar.toFloats row with
  | none =>
      refine .inl ⟨?_, rfl⟩
      unfold rowKey
      rw [htime]
      rfl
  | some time =>
      refine .inr ⟨_, rowKey_eq htime now, ?_⟩
      dsimp only [insertRows]
      by_cases hkey : (heartbeat ar.toFloats now row time).key ∈ t.keys
      · refine .inl ⟨hkey, ?_⟩
        unfold Heartbeats.insertOrIgnore
        rw [dif_pos hkey]
      · refine .inr ⟨hkey, heartbeat ar.toFloats now row time, rfl, rfl, rfl, ?_⟩
        unfold Heartbeats.insertOrIgnore
        rw [dif_neg hkey]

theorem insertRows_cons (now : F64) (t : Heartbeats) (row : Json) (rest : List Json) :
    (insertRows ar.toFloats now t (row :: rest)).1 =
      (insertRows ar.toFloats now (insertRows ar.toFloats now t [row]).1 rest).1 := by
  conv_lhs => unfold insertRows
  conv_rhs => rw [insertRows]
  cases finiteTime ar.toFloats row with
  | none => rfl
  | some time => rfl

/-- Rows whose keys are there change nothing. -/
theorem insertRows_known (now : F64) {t : Heartbeats} {rows : List Json}
    (h : ∀ row ∈ rows, ∀ k, rowKey ar.toFloats row = some k → k ∈ t.keys) :
    (insertRows ar.toFloats now t rows).1 = t := by
  induction rows with
  | nil => rfl
  | cons row rest ih =>
      rw [insertRows_cons]
      have hone : (insertRows ar.toFloats now t [row]).1 = t := by
        rcases @insertRows_one ar now t row with ⟨-, hsame⟩ | ⟨k, hk, ⟨-, hsame⟩ | ⟨hnew, -⟩⟩
        · exact hsame
        · exact hsame
        · exact absurd (h row List.mem_cons_self k hk) hnew
      rw [hone]
      exact ih fun row' hrow => h row' (List.mem_cons_of_mem _ hrow)

/-- The tokens that a row is stored with. -/
def tokensIn (ar : Arithmetic) (c : Sent) : ℤ := nonnegInt ar.toFloats (c.row.get "tokens_in")

def tokensOut (ar : Arithmetic) (c : Sent) : ℤ := nonnegInt ar.toFloats (c.row.get "tokens_out")

/-- What is stored of what was delivered: every key is there, and under the key of a row
that carries tokens stands that row, whose key no other such row has. -/
structure Landed (ar : Arithmetic) (t : Heartbeats) (delivered : List Sent) : Prop where
  keys : ∀ c ∈ delivered, ∀ k, sentKey ar c = some k → k ∈ t.keys
  rows : ∀ c ∈ delivered, c.payer ≠ none → ∃ h ∈ t.rows, sentKey ar c = some h.key ∧
    h.tokensIn = tokensIn ar c ∧ h.tokensOut = tokensOut ar c
  apart : ((delivered.filter fun c => c.payer.isSome).filterMap (sentKey ar)).Nodup

/-- Every row of the queue that carries tokens has a key of its own. -/
def FreshQueue (ar : Arithmetic) (keys : List DedupeKey) : List Sent → Prop
  | [] => True
  | c :: rest =>
      (c.payer ≠ none → ∃ k, sentKey ar c = some k ∧ k ∉ keys) ∧
        FreshQueue ar (keys ++ (sentKey ar c).toList) rest

theorem FreshQueue.mono {keys keys' : List DedupeKey} {queue : List Sent}
    (hle : ∀ k ∈ keys', k ∈ keys) (h : FreshQueue ar keys queue) : FreshQueue ar keys' queue := by
  induction queue generalizing keys keys' with
  | nil => trivial
  | cons c rest ih =>
      obtain ⟨hfresh, hrest⟩ := h
      refine ⟨fun hpayer => ?_, ih (fun k hk => ?_) hrest⟩
      · obtain ⟨k, hk, hnew⟩ := hfresh hpayer
        exact ⟨k, hk, fun hmem => hnew (hle k hmem)⟩
      · rcases List.mem_append.mp hk with hold | hnew
        · exact List.mem_append_left _ (hle k hold)
        · exact List.mem_append_right _ hnew

theorem FreshQueue.snoc {keys : List DedupeKey} {queue : List Sent} {c : Sent}
    (h : FreshQueue ar keys queue)
    (hc : c.payer ≠ none → ∃ k, sentKey ar c = some k ∧ k ∉ keys ∧
      k ∉ queue.filterMap (sentKey ar)) : FreshQueue ar keys (queue ++ [c]) := by
  induction queue generalizing keys with
  | nil =>
      refine ⟨fun hpayer => ?_, trivial⟩
      obtain ⟨k, hk, hnew, -⟩ := hc hpayer
      exact ⟨k, hk, hnew⟩
  | cons d rest ih =>
      obtain ⟨hfresh, hrest⟩ := h
      refine ⟨hfresh, ih hrest fun hpayer => ?_⟩
      obtain ⟨k, hk, hnew, hqueue⟩ := hc hpayer
      cases hd : sentKey ar d with
      | none =>
          rw [List.filterMap_cons_none hd] at hqueue
          refine ⟨k, hk, ?_, hqueue⟩
          simpa using hnew
      | some k' =>
          rw [List.filterMap_cons_some hd, List.mem_cons, not_or] at hqueue
          refine ⟨k, hk, ?_, hqueue.2⟩
          simpa using ⟨hnew, hqueue.1⟩

/-- A row that arrives. -/
theorem Landed.one {t : Heartbeats} {delivered : List Sent} (h : Landed ar t delivered)
    (now : F64) {c : Sent}
    (hc : c.payer ≠ none → ∃ k, sentKey ar c = some k ∧ k ∉ t.keys) :
    Landed ar (insertRows ar.toFloats now t [c.row]).1 (delivered ++ [c]) := by
  have hsnoc : (delivered ++ [c]).filter (fun c => c.payer.isSome) =
      delivered.filter (fun c => c.payer.isSome) ++ if c.payer.isSome then [c] else [] := by
    rw [List.filter_append, List.filter_singleton]
    cases c.payer.isSome <;> rfl
  -- a row that is ignored carries nothing
  have hignored : (∀ k, sentKey ar c = some k → k ∈ t.keys) →
      (insertRows ar.toFloats now t [c.row]).1 = t →
      Landed ar (insertRows ar.toFloats now t [c.row]).1 (delivered ++ [c]) := by
    intro hknown hsame
    have hpayer : c.payer = none := by
      by_contra hpayer
      obtain ⟨k, hk, hnew⟩ := hc hpayer
      exact hnew (hknown k hk)
    rw [hsame]
    refine ⟨fun d hd k hk => ?_, fun d hd hd' => ?_, ?_⟩
    · rcases List.mem_append.mp hd with hd | hd
      · exact h.keys d hd k hk
      · rw [List.mem_singleton.mp hd] at hk
        exact hknown k hk
    · rcases List.mem_append.mp hd with hd | hd
      · exact h.rows d hd hd'
      · rw [List.mem_singleton.mp hd] at hd'
        exact absurd hpayer hd'
    · rw [hsnoc, hpayer]
      simpa using h.apart
  rcases insertRows_one now t c.row with
    ⟨hnone, hsame⟩ | ⟨k, hk, ⟨hmem, hsame⟩ | ⟨hnew, hb, hkey, hin, hout, hrows⟩⟩
  · refine hignored (fun k hk => ?_) hsame
    rw [show sentKey ar c = none from hnone] at hk
    cases hk
  · refine hignored (fun k' hk' => ?_) hsame
    rw [← Option.some.inj (hk.symm.trans hk')]
    exact hmem
  · have hsent : sentKey ar c = some k := hk
    have hkeys : (insertRows ar.toFloats now t [c.row]).1.keys = t.keys ++ [k] := by
      unfold Heartbeats.keys
      rw [hrows, List.map_append, ← hkey]
      rfl
    refine ⟨fun d hd k' hk' => ?_, fun d hd hd' => ?_, ?_⟩
    · rw [hkeys]
      rcases List.mem_append.mp hd with hd | hd
      · exact List.mem_append_left _ (h.keys d hd k' hk')
      · rw [List.mem_singleton.mp hd, hsent] at hk'
        rw [← Option.some.inj hk']
        exact List.mem_append_right _ (List.mem_singleton_self k)
    · rw [hrows]
      rcases List.mem_append.mp hd with hd | hd
      · obtain ⟨hb', hmem, hrest⟩ := h.rows d hd hd'
        exact ⟨hb', List.mem_append_left _ hmem, hrest⟩
      · rw [List.mem_singleton.mp hd]
        exact ⟨hb, List.mem_append_right _ (List.mem_singleton_self hb), hkey ▸ hsent, hin, hout⟩
    · rw [hsnoc, List.filterMap_append]
      refine List.Nodup.append h.apart ?_ ?_
      · split
        · simp [hsent]
        · exact List.nodup_nil
      · intro k' hk' hlast
        obtain ⟨d, hd, hdk⟩ := List.mem_filterMap.mp hk'
        have hold : k' ∈ t.keys := h.keys d (List.mem_filter.mp hd).1 k' hdk
        split at hlast
        · obtain rfl : k' = k := by simpa [hsent] using hlast
          exact hnew hold
        · cases hlast

/-- A batch that arrives. -/
theorem Landed.batch {t : Heartbeats} {delivered batch rest : List Sent}
    (h : Landed ar t delivered) (now : F64) (hfresh : FreshQueue ar t.keys (batch ++ rest)) :
    Landed ar (insertRows ar.toFloats now t (batch.map Sent.row)).1 (delivered ++ batch) ∧
      FreshQueue ar (insertRows ar.toFloats now t (batch.map Sent.row)).1.keys rest := by
  induction batch generalizing t delivered with
  | nil =>
      rw [List.append_nil]
      exact ⟨h, hfresh⟩
  | cons c batch ih =>
      obtain ⟨hc, hqueue⟩ := hfresh
      rw [List.map_cons, insertRows_cons, List.append_cons]
      refine ih (h.one now hc) (hqueue.mono fun k hk => ?_)
      rcases (mem_keys_insertRows now t [c.row] k).mp hk with hold | hnew
      · exact List.mem_append_left _ hold
      · refine List.mem_append_right _ ?_
        cases hkey : rowKey ar.toFloats c.row with
        | none => rw [List.filterMap_cons_none hkey] at hnew; cases hnew
        | some k' =>
            rw [List.filterMap_cons_some hkey] at hnew
            obtain rfl : k = k' := by simpa using hnew
            rw [show sentKey ar c = some k from hkey]
            exact List.mem_singleton_self k

/-- Rows that arrive again. -/
theorem Landed.again {t : Heartbeats} {delivered rows : List Sent} (h : Landed ar t delivered)
    (now : F64) (hrows : ∀ c ∈ rows, c ∈ delivered) :
    (insertRows ar.toFloats now t (rows.map Sent.row)).1 = t := by
  refine insertRows_known now fun row hrow k hk => ?_
  obtain ⟨c, hc, rfl⟩ := List.mem_map.mp hrow
  exact h.keys c (hrows c hc) k hk

/-! ## The row that carries tokens -/

/-- A text column with its default. -/
def orUnknown (text : String) : String := if text = "" then "unknown" else text

/-- The key of a row of the agent. -/
def agentKey (machine source project entity : String) (ts : F64) : DedupeKey where
  time := sqlReal ts
  machine := orUnknown machine
  source := orUnknown source
  project := orUnknown project
  entity := orUnknown entity
  actor := "agent"

theorem jsStringOr_string (text : String) :
    jsStringOr ar.toFloats (some (.string text)) "unknown" = orUnknown text := by
  unfold jsStringOr orUnknown
  by_cases h : text = ""
  · rw [if_pos h, h]
    rfl
  · have htruthy : jsTruthy ar.toFloats (.string text) = true := bne_iff_ne.mpr h
    rw [if_neg h]
    exact if_pos htruthy

/-- The columns of the index in a row, read back. -/
theorem rowKey_of_columns {row : Json} {machine source project entity : String} {ts : F64}
    (hts : ts.isFinite = true) (htime : row.get "time" = some (json ts))
    (hmachine : row.get "machine" = some (.string machine))
    (hsource : row.get "source" = some (.string source))
    (hproject : row.get "project" = some (.string project))
    (hentity : row.get "entity" = some (.string entity))
    (hactor : row.get "actor" = some (.string "agent")) :
    rowKey ar.toFloats row = some (agentKey machine source project entity ts) := by
  have htime : finiteTime ar.toFloats row = some ts := by
    unfold finiteTime
    rw [htime]
    exact if_pos hts
  rw [rowKey_eq htime F64.zero]
  unfold heartbeat Heartbeat.key agentKey
  rw [hmachine, hsource, hproject, hentity, hactor]
  simp only [jsStringOr_string]
  rfl

/-- A row of the agent with whole tokens. -/
theorem send_agent {base more fields : Fields} {source project entity : String} {ts cost : F64}
    {category : Json} {a b : ℕ} (p : Option Payer)
    (hbase : base = [("time", json ts), ("source", .string source),
      ("project", .string project), ("category", category)] ++ more)
    (hmore : more = [] ∨ ∃ branch, more = [("branch", branch)])
    (hfields : AgentFields base entity fields) (hts : ts.isFinite = true)
    (ha : a < Binary64.limit) (hb : b < Binary64.limit) :
    let c := send machine ⟨p, attach fields (some ⟨ar.ofInt a, ar.ofInt b, cost⟩)⟩
    sentKey ar c = some (agentKey machine source project entity ts) ∧
      tokensIn ar c = a ∧ tokensOut ar c = b := by
  have hstored : ∀ {n : ℕ} {v : Option Json}, n < Binary64.limit →
      v = some (json (ar.ofInt n)) → nonnegInt ar.toFloats v = n := by
    rintro n v hn rfl
    exact Arithmetic.nonneg_whole hn
  subst hbase
  rcases hmore with rfl | ⟨branch, rfl⟩ <;> rcases hfields with ⟨isWrite, rfl⟩ | rfl <;>
    exact ⟨rowKey_of_columns hts rfl rfl rfl rfl rfl rfl, hstored ha rfl, hstored hb rfl⟩

/-! ## Sums over the table -/

/-- The rows under some keys add up to what was sent under them. -/
theorem sum_under_keys {rows : List Heartbeat} (hunique : (rows.map Heartbeat.key).Nodup)
    {f : Heartbeat → ℤ} {g : Sent → ℤ} {sent : List Sent}
    (hsent : ∀ c ∈ sent, ∃ h ∈ rows, sentKey ar c = some h.key ∧ f h = g c)
    (hapart : (sent.filterMap (sentKey ar)).Nodup) :
    ((rows.filter fun h => decide (h.key ∈ sent.filterMap (sentKey ar))).map f).sum =
      (sent.map g).sum := by
  induction sent with
  | nil => simp
  | cons c sent ih =>
      obtain ⟨h, hmem, hkey, hval⟩ := hsent c List.mem_cons_self
      rw [List.filterMap_cons_some hkey] at hapart ⊢
      obtain ⟨hnew, hapart⟩ := List.nodup_cons.mp hapart
      have hperm : (rows.filter fun h' =>
            decide (h'.key ∈ h.key :: sent.filterMap (sentKey ar))).Perm
          (h :: rows.filter fun h' => decide (h'.key ∈ sent.filterMap (sentKey ar))) := by
        have hrows : rows.Nodup := hunique.of_map
        refine (List.perm_ext_iff_of_nodup (hrows.filter _)
          (List.nodup_cons.mpr ⟨?_, hrows.filter _⟩)).mpr fun h' => ?_
        · intro hmem'
          exact hnew (of_decide_eq_true (List.mem_filter.mp hmem').2)
        · simp only [List.mem_filter, List.mem_cons, decide_eq_true_eq]
          constructor
          · rintro ⟨hmem', hsame | hrest⟩
            · exact .inl (List.inj_on_of_nodup_map hunique hmem' hmem hsame)
            · exact .inr ⟨hmem', hrest⟩
          · rintro (rfl | ⟨hmem', hrest⟩)
            · exact ⟨hmem, .inl rfl⟩
            · exact ⟨hmem', .inr hrest⟩
      rw [(hperm.map f).sum_eq, List.map_cons, List.sum_cons, hval,
        ih (fun d hd => hsent d (List.mem_cons_of_mem _ hd)) hapart, List.map_cons, List.sum_cons]

/-- What is stored for a payer is what was delivered for it. -/
theorem Landed.stored {s : Pipeline} (h : Landed ar s.table s.delivered) (p : Payer)
    {f : Heartbeat → ℤ} {g : Sent → ℤ}
    (hfg : ∀ c b, b.tokensIn = tokensIn ar c → b.tokensOut = tokensOut ar c → f b = g c) :
    ((storedFor ar s p).map f).sum = ((carriers p s.delivered).map g).sum := by
  refine sum_under_keys s.table.unique (fun c hc => ?_) ?_
  · obtain ⟨hmem, hpayer⟩ := List.mem_filter.mp hc
    obtain ⟨b, hb, hkey, hin, hout⟩ := h.rows c hmem (by simp [of_decide_eq_true hpayer])
    exact ⟨b, hb, hkey, hfg c b hin hout⟩
  · refine h.apart.sublist (List.Sublist.filterMap _ ?_)
    refine List.monotone_filter_right s.delivered fun c hc => ?_
    simp [of_decide_eq_true hc]

end Charging

end Stackhour.Tracker
