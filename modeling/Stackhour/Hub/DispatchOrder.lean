import Stackhour.Hub.Dispatch
import Stackhour.Lib.Precedence

/-!
# The order of dispatches

The log fixes the order of the commands of a run; the links decide in which
order a node receives their work. A link that gets a dispatch only when the
earlier ones of its run are on it hands them over in the order of the log, and
so do several links after one another, since what is acknowledged has arrived.
-/

namespace Stackhour.Hub

open Domain TransitionSystem HubState Precedence

/-! ## The order of the log -/

/-- The sequence of the event of a command. -/
def sequenceOf (s : Store) (c : CommandId) : Option ℤ :=
  (s.events.find? (fun e : EventRow => decide (e.commandId = some c))).map EventOf.sequence

/-- The message is recorded for the node. -/
def Queued (s : Store) (n : NodeId) (m : HubToNode) : Prop :=
  ∃ row ∈ s.dispatches, row.nodeId = n ∧ row.message = m

/-- Two dispatches of one run to a node, the event of the first before that of
the second. -/
def Precedes (s : Store) (n : NodeId) (x y : HubToNode) : Prop :=
  ∃ a ∈ s.dispatches, ∃ b ∈ s.dispatches, (a.nodeId = n ∧ a.message = x) ∧
    (b.nodeId = n ∧ b.message = y) ∧ (∃ r, x.runId = some r ∧ y.runId = some r) ∧
    ∃ p q, sequenceOf s a.commandId = some p ∧ sequenceOf s b.commandId = some q ∧ p < q

section Sequences

variable {s s' : Store} {c : CommandId} {p q : ℤ}

theorem sequenceOf_snoc {row : EventRow} (he : s'.events = s.events ++ [row])
    (hc : row.commandId ≠ some c) : sequenceOf s' c = sequenceOf s c := by
  unfold sequenceOf
  rw [he, List.find?_append]
  simp [hc]

theorem sequenceOf_le (h : sequenceOf s c = some q) : q ≤ s.maxSequence := by
  obtain ⟨e, hfind, rfl⟩ := Option.map_eq_some_iff.mp h
  exact Store.le_maxSequence (List.mem_of_find?_eq_some hfind)

theorem sequenceOf_isSome (hlog : EventLog s) :
    (∃ q, sequenceOf s c = some q) ↔ c ∈ s.receipts.map ReceiptRow.commandId := by
  rw [hlog.receiptIds_eq, List.mem_filterMap, ← Option.isSome_iff_exists]
  unfold sequenceOf
  rw [Option.isSome_map, List.find?_isSome]
  simp

/-- The event of a new command comes after the events of all others. -/
theorem sequenceOf_new (hlog : EventLog s) {row : EventRow} (he : s'.events = s.events ++ [row])
    (hrow : row.commandId = some c) (hseq : row.sequence = s.maxSequence + 1)
    (hc : c ∉ s.receipts.map ReceiptRow.commandId) :
    sequenceOf s' c = some (s.maxSequence + 1) := by
  have hnone : s.events.find? (fun e : EventRow => decide (e.commandId = some c)) = none := by
    cases hfind : s.events.find? (fun e : EventRow => decide (e.commandId = some c)) with
    | none => rfl
    | some e =>
        refine absurd ((sequenceOf_isSome hlog).mp ⟨e.sequence, ?_⟩) hc
        unfold sequenceOf
        rw [hfind, Option.map_some]
  unfold sequenceOf
  rw [he, List.find?_append, hnone]
  simp [hrow, hseq]

end Sequences

/-! ## The work on record -/

/-- Every dispatch is a command's work for a run; before a prompt or an
interruption the run was started on the same node, as every run row says. -/
structure WorkInv (s : Store) : Prop where
  messages : ∀ row ∈ s.dispatches, ∃ w r,
    row.message = .dispatchCommand row.commandId none w ∧ w.runId = some r
  starts : ∀ row ∈ s.dispatches, row.message.isStart = false →
    ∃ x, x.isStart = true ∧ Precedes s row.nodeId x row.message
  bound : ∀ b ∈ bindings s, ∃ x : HubToNode, x.isStart = true ∧ x.runId = some b.1 ∧
    Queued s b.2.1 x

/-- More may be on record, and nothing comes before what was. -/
structure Extends (s s' : Store) : Prop where
  queued : ∀ n m, Queued s n m → Queued s' n m
  precedes : ∀ n x y, Queued s n y → Precedes s' n x y → Precedes s n x y

/-- The same work is on record, acknowledged or not. -/
structure SameWork (s s' : Store) : Prop where
  forth : ∀ row ∈ s.dispatches, ∃ row' ∈ s'.dispatches,
    row'.commandId = row.commandId ∧ row'.nodeId = row.nodeId ∧ row'.message = row.message
  back : ∀ row' ∈ s'.dispatches, ∃ row ∈ s.dispatches,
    row.commandId = row'.commandId ∧ row.nodeId = row'.nodeId ∧ row.message = row'.message
  sequenceOf : ∀ c, sequenceOf s' c = sequenceOf s c
  bindings : bindings s' = bindings s

section Work

variable {s s' : Store}

theorem SameWork.symm (h : SameWork s s') : SameWork s' s :=
  ⟨h.back, h.forth, fun c => (h.sequenceOf c).symm, h.bindings.symm⟩

theorem SameWork.of_keepsWork (h : KeepsWork s s') : SameWork s s' where
  forth row hrow := ⟨row, h.dispatches ▸ hrow, rfl, rfl, rfl⟩
  back row hrow := ⟨row, h.dispatches ▸ hrow, rfl, rfl, rfl⟩
  sequenceOf c := by
    obtain he | ⟨row, hnone, he⟩ := h.events
    · unfold Hub.sequenceOf
      rw [he]
    · exact sequenceOf_snoc he (by rw [hnone]; exact nofun)
  bindings := h.bindings

theorem SameWork.acked (env : CallEnv) (s : Store) (p : DispatchRow → Bool) :
    SameWork s (s.acked env p) where
  forth row hrow := by
    refine ⟨_, List.mem_map_of_mem hrow, ?_⟩
    split <;> exact ⟨rfl, rfl, rfl⟩
  back row hrow := by
    obtain ⟨old, hold, rfl⟩ := List.mem_map.mp hrow
    refine ⟨old, hold, ?_⟩
    split <;> exact ⟨rfl, rfl, rfl⟩
  sequenceOf _ := rfl
  bindings := rfl

theorem SameWork.queued (h : SameWork s s') {n : NodeId} {m : HubToNode} (hq : Queued s n m) :
    Queued s' n m := by
  obtain ⟨row, hrow, rfl, rfl⟩ := hq
  obtain ⟨row', hrow', -, hn, hm⟩ := h.forth row hrow
  exact ⟨row', hrow', hn, hm⟩

theorem SameWork.precedes (h : SameWork s s') {n : NodeId} {x y : HubToNode}
    (hp : Precedes s n x y) : Precedes s' n x y := by
  obtain ⟨a, ha, b, hb, ⟨han, hax⟩, ⟨hbn, hby⟩, hrun, p, q, hpa, hqb, hlt⟩ := hp
  obtain ⟨a', ha', hac, han', ham⟩ := h.forth a ha
  obtain ⟨b', hb', hbc, hbn', hbm⟩ := h.forth b hb
  refine ⟨a', ha', b', hb', ⟨han'.trans han, ham.trans hax⟩, ⟨hbn'.trans hbn, hbm.trans hby⟩,
    hrun, p, q, ?_, ?_, hlt⟩
  · rw [h.sequenceOf, hac, hpa]
  · rw [h.sequenceOf, hbc, hqb]

theorem SameWork.extends (h : SameWork s s') : Extends s s' :=
  ⟨fun _ _ hq => h.queued hq, fun _ _ _ _ hp => h.symm.precedes hp⟩

theorem WorkInv.same (hw : WorkInv s) (h : SameWork s s') : WorkInv s' where
  messages row' hrow' := by
    obtain ⟨row, hrow, hc, -, hm⟩ := h.back row' hrow'
    rw [← hc, ← hm]
    exact hw.messages row hrow
  starts row' hrow' hs := by
    obtain ⟨row, hrow, -, hn, hm⟩ := h.back row' hrow'
    rw [← hm] at hs
    obtain ⟨x, hx, hp⟩ := hw.starts row hrow hs
    rw [← hn, ← hm]
    exact ⟨x, hx, h.precedes hp⟩
  bound b hb := by
    rw [h.bindings] at hb
    obtain ⟨x, hx, hr, hq⟩ := hw.bound b hb
    exact ⟨x, hx, hr, h.queued hq⟩

/-- A message on record is that of one command. -/
theorem WorkInv.commandId (hw : WorkInv s) {row : DispatchRow} (hrow : row ∈ s.dispatches) :
    row.message.commandId = some row.commandId := by
  obtain ⟨w, r, hm, -⟩ := hw.messages row hrow
  rw [hm]
  rfl

/-- A command's work is put on record behind everything else. -/
theorem WorkInv.bundled (hw : WorkInv s) (hlog : EventLog s) (env : CallEnv) {c : CommandId}
    (d : EventDraft) {e : EntityWrite} {disp : Option (NodeId × HubToNode)}
    (ap : List ApprovalRow) (hc : c ∉ s.receipts.map ReceiptRow.commandId)
    (hmsg : ∀ n m, disp = some (n, m) →
      ∃ w r, m = .dispatchCommand c none w ∧ w.runId = some r)
    (hbound : ∀ n m, disp = some (n, m) → m.isStart = false →
      ∃ r t, m.runId = some r ∧ (r, n, t) ∈ bindings s)
    (hrun : ∀ run, e = .run run →
      ∃ m : HubToNode, disp = some (run.nodeId, m) ∧ m.isStart = true ∧ m.runId = some run.id) :
    WorkInv { s.bundled env c d e disp with approvals := ap } ∧
      Extends s { s.bundled env c d e disp with approvals := ap } := by
  generalize hs' : ({ s.bundled env c d e disp with approvals := ap } : Store) = s'
  have hevents : s'.events = s.events ++ [s.commandEvent env c d] := by
    subst hs'
    rfl
  have hrows : ∀ row, row ∈ s'.dispatches ↔ row ∈ s.dispatches ∨
      ∃ n m, disp = some (n, m) ∧ row = ⟨c, n, m, fmtTime env.now, none⟩ := by
    intro row
    subst hs'
    simp only [Store.bundled, List.mem_append, mem_dispatchRows]
  have hne : ∀ row ∈ s.dispatches, row.commandId ≠ c := by
    rintro row hrow rfl
    exact hc (hlog.dispatched row hrow)
  have hseq : ∀ row ∈ s.dispatches, sequenceOf s' row.commandId = sequenceOf s row.commandId := by
    intro row hrow
    refine sequenceOf_snoc hevents fun heq => hne row hrow ?_
    exact (Option.some.inj heq).symm
  have hnew : sequenceOf s' c = some (s.maxSequence + 1) :=
    sequenceOf_new hlog hevents rfl rfl hc
  have hqueued : ∀ n m, Queued s n m → Queued s' n m := by
    rintro n m ⟨row, hrow, hn, hm⟩
    exact ⟨row, (hrows row).mpr (.inl hrow), hn, hm⟩
  have hmono : ∀ n x y, Precedes s n x y → Precedes s' n x y := by
    rintro n x y ⟨a, ha, b, hb, hax, hby, hrun, p, q, hp, hq, hlt⟩
    exact ⟨a, (hrows a).mpr (.inl ha), b, (hrows b).mpr (.inl hb), hax, hby, hrun, p, q,
      (hseq a ha).trans hp, (hseq b hb).trans hq, hlt⟩
  refine ⟨⟨?_, ?_, ?_⟩, ⟨hqueued, ?_⟩⟩
  · intro row hrow
    rcases (hrows row).mp hrow with hold | ⟨n, m, hd, rfl⟩
    · exact hw.messages row hold
    · exact hmsg n m hd
  · intro row hrow hs
    rcases (hrows row).mp hrow with hold | ⟨n, m, hd, rfl⟩
    · obtain ⟨x, hx, hp⟩ := hw.starts row hold hs
      exact ⟨x, hx, hmono _ _ _ hp⟩
    · -- its run was started by an earlier command
      obtain ⟨r, t, hr, hb⟩ := hbound n m hd hs
      obtain ⟨x, hx, hxr, a, ha, han, hax⟩ := hw.bound _ hb
      obtain ⟨p, hp⟩ := (sequenceOf_isSome hlog).mpr (hlog.dispatched a ha)
      refine ⟨x, hx, a, (hrows a).mpr (.inl ha), _, hrow, ⟨han, hax⟩, ⟨rfl, rfl⟩,
        ⟨r, hxr, hr⟩, p, _, (hseq a ha).trans hp, hnew, ?_⟩
      have := sequenceOf_le hp
      omega
  · intro b hb
    have hcases : b ∈ bindings s ∨ ∃ run, e = .run run ∧ b = (run.id, run.nodeId, run.taskId) := by
      subst hs'
      cases e with
      | none => exact .inl hb
      | task t => exact .inl hb
      | run run =>
          have happ : b ∈ (s.runs ++ [run.toRow]).map (fun r => (r.id, r.nodeId, r.taskId)) := hb
          rw [List.map_append, List.mem_append] at happ
          rcases happ with hold | hnew
          · exact .inl hold
          · exact .inr ⟨run, rfl, List.mem_singleton.mp hnew⟩
    rcases hcases with hold | ⟨run, he, rfl⟩
    · obtain ⟨x, hx, hr, hq⟩ := hw.bound b hold
      exact ⟨x, hx, hr, hqueued _ _ hq⟩
    · obtain ⟨m, hd, hstart, hr⟩ := hrun run he
      exact ⟨m, hstart, hr, _, (hrows _).mpr (.inr ⟨_, _, hd, rfl⟩), rfl, rfl⟩
  · rintro n x y ⟨row, hrow, -, rfl⟩ ⟨a, ha, b, hb, hax, ⟨hbn, hby⟩, hrun, p, q, hp, hq, hlt⟩
    have hbold : b ∈ s.dispatches := by
      rcases (hrows b).mp hb with hold | ⟨k, m, hd, rfl⟩
      · exact hold
      · obtain ⟨w, r, rfl, -⟩ := hmsg k m hd
        have hid := hw.commandId hrow
        rw [← hby] at hid
        exact absurd (Option.some.inj hid).symm (hne row hrow)
    have hq' := (hseq b hbold).symm.trans hq
    rcases (hrows a).mp ha with haold | ⟨k, m, -, rfl⟩
    · exact ⟨a, haold, b, hbold, hax, ⟨hbn, hby⟩, hrun, p, q, (hseq a haold).symm.trans hp, hq', hlt⟩
    · -- a new event is behind the others
      obtain rfl := Option.some.inj (hp.symm.trans hnew)
      have := sequenceOf_le hq'
      omega

end Work

/-! ## What commands put on record -/

/-- A prompt is for the node of its run: its binding is found, or the task's
last node is the run's. -/
def PromptBound (h : HubState) (env : CallEnv) (t : TaskId) (r : RunId) : Prop :=
  (h.runBinding env r).2 = none → ∀ n, h.nodeForTask t = some n → ∃ t', (r, n, t') ∈ bindings h.hub

theorem plan_message {env : CommandEnv} {h : HubState} {reserved : Option NodeId}
    {cmd : ClientCommand} {plan : Plan} (hp : (h.planCommand env reserved cmd).2 = .ok plan)
    {n : NodeId} {m : HubToNode} (hd : plan.dispatch = some (n, m)) :
    ∃ w r, m = .dispatchCommand cmd.commandId none w ∧ w.runId = some r := by
  have hplan := planCommand_planOf hp
  cases cmd with
  | createTask c title =>
      rw [hplan.2.2.1] at hd
      cases hd
  | sendUserMessage c t r text mid =>
      obtain ⟨r', -, rfl⟩ := hplan.2.2 n m hd
      exact ⟨_, r', rfl, rfl⟩
  | startRun c t nodeId engine model effort prompt policy workspace =>
      obtain ⟨-, run, -, -, -, -, hdisp⟩ := hplan
      rw [hdisp] at hd
      cases hd
      exact ⟨_, run.id, rfl, rfl⟩
  | interruptRun c r =>
      obtain rfl := hplan.2.2.2 n m hd
      exact ⟨_, r, rfl, rfl⟩
  | resolveApproval c id decision actor =>
      rw [hplan.2.2] at hd
      cases hd

theorem plan_start {env : CommandEnv} {h : HubState} {reserved : Option NodeId}
    {cmd : ClientCommand} {plan : Plan} (hp : (h.planCommand env reserved cmd).2 = .ok plan)
    {run : Run} (he : plan.entity = .run run) :
    ∃ m : HubToNode, plan.dispatch = some (run.nodeId, m) ∧ m.isStart = true ∧
      m.runId = some run.id := by
  obtain ⟨_, _, _, _, _, _, _, _, _, -, hdisp⟩ := planOf_run (planCommand_planOf hp) he
  exact ⟨_, hdisp, rfl, rfl⟩

/-- Work for a run that exists goes to the node of the run. -/
theorem plan_bound {env : CommandEnv} {h : HubState} (hc : CacheOk h) {reserved : Option NodeId}
    {cmd : ClientCommand} {plan : Plan} (hp : (h.planCommand env reserved cmd).2 = .ok plan)
    (hok : ∀ c t r text mid, cmd = .sendUserMessage c t (some r) text mid →
      PromptBound h env.lookup t r)
    {n : NodeId} {m : HubToNode} (hd : plan.dispatch = some (n, m)) (hs : m.isStart = false) :
    ∃ r t, m.runId = some r ∧ (r, n, t) ∈ bindings h.hub := by
  have hplan := planCommand_planOf hp
  cases cmd with
  | createTask c title =>
      rw [hplan.2.2.1] at hd
      cases hd
  | sendUserMessage c t r text mid =>
      obtain ⟨r', rfl, rfl⟩ := hplan.2.2 n m hd
      refine ⟨r', ?_⟩
      simp only [planCommand, planSendUserMessage] at hp
      split at hp
      · cases hp
      · cases hp
        have hnode : ((h.runBinding env.lookup r').2.map Prod.fst).or
            ((h.runBinding env.lookup r').1.nodeForTask t) = some n := by
          dsimp only at hd
          split at hd
          · next k r hk hr =>
              rw [hk]
              exact congrArg some (Prod.mk.inj (Option.some.inj hd)).1
          · cases hd
        cases hb : (h.runBinding env.lookup r').2 with
        | some b =>
            rw [hb] at hnode
            obtain rfl := Option.some.inj hnode
            exact ⟨b.2, rfl, (hc.runBinding env.lookup r').2 b hb⟩
        | none =>
            rw [hb, runBinding_none hb] at hnode
            obtain ⟨t', ht⟩ := hok c t r' text mid rfl hb n hnode
            exact ⟨t', rfl, ht⟩
  | startRun c t nodeId engine model effort prompt policy workspace =>
      obtain ⟨-, run, -, -, -, -, hdisp⟩ := hplan
      rw [hdisp] at hd
      cases hd
      cases hs
  | interruptRun c r =>
      obtain rfl := hplan.2.2.2 n m hd
      refine ⟨r, ?_⟩
      simp only [planCommand, planInterruptRun] at hp
      split at hp
      · cases hp
      · cases hp
        obtain ⟨k, hk, heq⟩ := Option.map_eq_some_iff.mp hd
        obtain ⟨b, hb, rfl⟩ := Option.map_eq_some_iff.mp hk
        obtain ⟨rfl, -⟩ := Prod.mk.inj heq
        exact ⟨b.2, rfl, (hc.runBinding env.lookup r).2 b hb⟩
  | resolveApproval c id decision actor =>
      rw [hplan.2.2] at hd
      cases hd

/-! ## The contract and its condition -/

/-- A node first receives the dispatches of a run in the order of their events,
and nothing for a run before its start. -/
structure DispatchesInOrder (d : Dispatching) : Prop where
  order : ∀ n x y, x ∈ d.received n → y ∈ d.received n → Precedes d.hub.hub n x y →
    (d.received n).idxOf x < (d.received n).idxOf y
  started : ∀ n, ∀ y ∈ d.received n, ∀ r, y.runId = some r → y.isStart = false →
    ∃ x ∈ d.received n, x.isStart = true ∧ x.runId = some r ∧
      (d.received n).idxOf x < (d.received n).idxOf y

namespace Dispatching

/-- What the node has yet to acknowledge of the same run, from earlier commands,
is on its link. -/
def LinkReady (d : Dispatching) (n : NodeId) (m : HubToNode) : Prop :=
  ∀ row ∈ d.hub.hub.dispatches, row.nodeId = n → row.ackedAt = none →
    Precedes d.hub.hub n row.message m →
      ∀ c, d.hub.nodes n = some c → row.message ∈ d.hub.channels c

end Dispatching

/-- No dispatch is put on a link while an earlier one of its run is still off it
(held by another handler, ahead in a replay, or dropped), and no prompt is
recorded for a node that is not its run's. -/
def KeepsOrder (d : Dispatching) : DispatchLabel → Prop
  | .submit env (.sendUserMessage c t (some r) text mid) reserved =>
      (∃ plan, Records env d.hub reserved (.sendUserMessage c t (some r) text mid) plan) →
        PromptBound d.hub env.lookup t r
  | .route i => ∀ n m, d.handlers[i]? = some (n, m) → d.LinkReady n m
  | .replay c =>
      ∀ n m rest p, d.links c = some ⟨n, .replaying (m :: rest), p⟩ → d.LinkReady n m
  | _ => True

/-! ## The invariant -/

/-- One link: what is on it or ahead of it is on record for its node, what the
node has read of it has arrived, and the rest is in order behind that. -/
structure LinkInv (s : Store) (channel received : List HubToNode) (l : NodeLink) : Prop where
  pending : ∀ rest, l.start = .replaying rest → ∀ m ∈ rest, Queued s l.nodeId m
  known : ∀ m ∈ channel, m.commandId ≠ none → Queued s l.nodeId m
  bound : l.position ≤ channel.length
  delivered : ∀ m ∈ channel.take l.position, m ∈ received
  sent : Preceded (Precedes s l.nodeId) (· ∈ received) channel

structure OrderInv (d : Dispatching) : Prop extends Dispatching.Linked d where
  log : EventLog d.hub.hub
  cache : CacheOk d.hub
  work : WorkInv d.hub.hub
  handlers : ∀ x ∈ d.handlers, Queued d.hub.hub x.1 x.2
  links : ∀ c l, d.links c = some l →
    LinkInv d.hub.hub (d.hub.channels c) (d.received l.nodeId) l
  known : ∀ n, ∀ m ∈ d.received n, m.commandId ≠ none → Queued d.hub.hub n m
  got : ∀ n, Preceded (Precedes d.hub.hub n) (fun _ => False) (d.received n)
  acked : ∀ row ∈ d.hub.hub.dispatches, row.ackedAt ≠ none →
    row.message ∈ d.received row.nodeId
  empty : ∀ c, d.hub.nextNodeConnectionId ≤ c → d.hub.channels c = []

/-- Only a dispatch comes after another. -/
theorem Precedes.commandId {s : Store} (hw : WorkInv s) {n : NodeId} {x y : HubToNode}
    (hp : Precedes s n x y) : y.commandId ≠ none := by
  obtain ⟨_, -, b, hb, -, ⟨-, rfl⟩, -⟩ := hp
  rw [hw.commandId hb]
  exact nofun

theorem Extends.preceded {s s' : Store} (he : Extends s s') (hw : WorkInv s') {n : NodeId}
    {base : HubToNode → Prop} {l : List HubToNode}
    (hk : ∀ m ∈ l, m.commandId ≠ none → Queued s n m)
    (h : Preceded (Precedes s n) base l) : Preceded (Precedes s' n) base l :=
  h.mono (fun y hy x hp => he.precedes n x y (hk y hy (hp.commandId hw)) hp) (fun _ hb => hb)

namespace LinkInv

variable {s s' : Store} {channel received : List HubToNode} {l : NodeLink}

theorem extend (h : LinkInv s channel received l) (he : Extends s s') (hw : WorkInv s') :
    LinkInv s' channel received l where
  pending rest hrest m hm := he.queued _ _ (h.pending rest hrest m hm)
  known m hm hc := he.queued _ _ (h.known m hm hc)
  bound := h.bound
  delivered := h.delivered
  sent := he.preceded hw h.known h.sent

theorem push (h : LinkInv s channel received l) {m : HubToNode}
    (hm : m.commandId ≠ none → Queued s l.nodeId m)
    (hx : ∀ x, Precedes s l.nodeId x m → x ∈ channel ∨ x ∈ received) :
    LinkInv s (channel ++ [m]) received l where
  pending := h.pending
  known x hmem hc := by
    rcases List.mem_append.mp hmem with hold | hnew
    · exact h.known x hold hc
    · obtain rfl := List.mem_singleton.mp hnew
      exact hm hc
  bound := by
    have := h.bound
    rw [List.length_append]
    omega
  delivered := by
    rw [List.take_append_of_le_length h.bound]
    exact h.delivered
  sent := h.sent.snoc hx

theorem receive (h : LinkInv s channel received l) (m : HubToNode) :
    LinkInv s channel (received ++ [m]) l where
  pending := h.pending
  known := h.known
  bound := h.bound
  delivered x hx := List.mem_append_left _ (h.delivered x hx)
  sent := h.sent.mono (fun _ _ _ hp => hp) (fun _ hx => List.mem_append_left _ hx)

/-- The link goes on to another stage of its start. -/
theorem setStart (h : LinkInv s channel received l) {start : Start}
    (hp : ∀ rest, start = .replaying rest → ∀ m ∈ rest, Queued s l.nodeId m) :
    LinkInv s channel received { l with start := start } :=
  ⟨hp, h.known, h.bound, h.delivered, h.sent⟩

/-- The node reads the next message. -/
theorem read (h : LinkInv s channel received l) {m : HubToNode}
    (hm : channel[l.position]? = some m) :
    LinkInv s channel (received ++ [m]) { l with position := l.position + 1 } := by
  obtain ⟨hlt, hget⟩ := List.getElem?_eq_some_iff.mp hm
  have hr := h.receive m
  refine ⟨hr.pending, hr.known, hlt, fun x hx => ?_, hr.sent⟩
  rw [List.take_add_one, hm, List.mem_append] at hx
  rcases hx with hold | hnew
  · exact hr.delivered x hold
  · obtain rfl := List.mem_singleton.mp hnew
    exact List.mem_append_right _ (List.mem_singleton_self _)

/-- What comes before the message that is read next has arrived. -/
theorem arrived (h : LinkInv s channel received l) {m x : HubToNode}
    (hm : channel[l.position]? = some m) (hx : Precedes s l.nodeId x m) : x ∈ received := by
  rcases h.sent.at_position hm hx with hold | hthere
  · exact h.delivered x hold
  · exact hthere

end LinkInv

/-- What is read as pending is on record. -/
theorem queued_of_pending {h : HubState} {env : CallEnv} {n : NodeId} {m : HubToNode}
    (hm : m ∈ h.pendingMessages env n) : Queued h.hub n m := by
  unfold pendingMessages at hm
  split at hm
  · next pending hq =>
      rw [pendingDispatches_messages hq, List.mem_map] at hm
      obtain ⟨row, hrow, rfl⟩ := hm
      obtain ⟨hmem, hsel⟩ := List.mem_filter.mp hrow
      exact ⟨row, hmem, (of_decide_eq_true hsel).1, rfl⟩
  · cases hm

/-! ## One step -/

namespace OrderInv

variable {d d' : Dispatching}

/-- Steps that write to no channel and reach no node. -/
theorem advance (h : OrderInv d) {hub : HubState} {handlers : List (NodeId × HubToNode)}
    {links : ℕ → Option NodeLink}
    (hlinked : Dispatching.Linked ⟨hub, handlers, links, d.received⟩)
    (hlog : EventLog hub.hub) (hcache : CacheOk hub) (hwork : WorkInv hub.hub)
    (hext : Extends d.hub.hub hub.hub) (hh : ∀ x ∈ handlers, Queued hub.hub x.1 x.2)
    (hchannels : hub.channels = d.hub.channels)
    (hlinks : ∀ c l, links c = some l → d.links c = some l ∨
      LinkInv hub.hub (d.hub.channels c) (d.received l.nodeId) l)
    (hnext : d.hub.nextNodeConnectionId ≤ hub.nextNodeConnectionId)
    (hacked : ∀ row ∈ hub.hub.dispatches, row.ackedAt ≠ none →
      row.message ∈ d.received row.nodeId) :
    OrderInv ⟨hub, handlers, links, d.received⟩ where
  toLinked := hlinked
  log := hlog
  cache := hcache
  work := hwork
  handlers := hh
  links c l hl := by
    simp only [hchannels]
    rcases hlinks c l hl with hold | hnew
    · exact (h.links c l hold).extend hext hwork
    · exact hnew
  known n m hm hc := hext.queued _ _ (h.known n m hm hc)
  got n := hext.preceded hwork (h.known n) (h.got n)
  acked := hacked
  empty c hc := by
    simp only [hchannels]
    exact h.empty c (le_trans hnext hc)

/-- A message is put on the link of its node. -/
theorem routed (h : OrderInv d) {n : NodeId} {m : HubToNode}
    (hm : m.commandId ≠ none → Queued d.hub.hub n m ∧ d.LinkReady n m) :
    OrderInv { d with hub := d.hub.routeToNode n m } := by
  obtain ⟨hhub, -, hrouting⟩ := routeToNode_hub d.hub n m
  obtain ⟨hnodes, hnext⟩ := routeToNode_nodes d.hub n m
  refine ⟨h.toLinked.routed rfl rfl, ?_, ?_, ?_, ?_, ?_, ?_, ?_, ?_, ?_⟩
  · rw [hhub]
    exact h.log
  · exact h.cache.of_bindings hrouting (fun b hb => hhub ▸ hb)
  · rw [hhub]
    exact h.work
  · rw [hhub]
    exact h.handlers
  · intro c l hl
    have hlink := h.links c l hl
    simp only [hhub, routeToNode_channels]
    split
    · next hcur =>
        obtain ⟨l', hl', hnode⟩ := h.current n c hcur
        obtain rfl := Option.some.inj (hl.symm.trans hl')
        refine hlink.push (fun hc => hnode ▸ (hm hc).1) (fun x hx => ?_)
        -- the predecessors are acknowledged, and then received, or on the link
        rw [hnode] at hx ⊢
        have hready := (hm (hx.commandId h.work)).2
        obtain ⟨a, ha, -, -, ⟨han, rfl⟩, -⟩ := id hx
        by_cases hopen : a.ackedAt = none
        · exact .inl (hready a ha han hopen hx c hcur)
        · exact .inr (han ▸ h.acked a ha hopen)
    · exact hlink
  · rw [hhub]
    exact h.known
  · rw [hhub]
    exact h.got
  · rw [hhub]
    exact h.acked
  · intro c hc
    simp only [hnext] at hc
    have hne : d.hub.nodes n ≠ some c := by
      intro hcur
      exact absurd (h.toLinked.lt_next hcur) (not_lt.mpr hc)
    simp only [routeToNode_channels, if_neg hne]
    exact h.empty c hc

/-- The hub's tables change and its channels do not. -/
theorem setHub (h : OrderInv d) {a : HubLabel} (hl : SameLinks d.hub (d.hub.step a))
    (hw : SameWork d.hub.hub (d.hub.step a).hub)
    (hacked : ∀ row ∈ (d.hub.step a).hub.dispatches, row.ackedAt ≠ none →
      row.message ∈ d.received row.nodeId) :
    OrderInv { d with hub := d.hub.step a } := by
  refine h.advance (h.toLinked.mono hl rfl) ((step_performs d.hub a).eventLog h.log)
    (h.cache.step a) (h.work.same hw) hw.extends ?_ hl.channels (fun c l hc => .inl hc)
    hl.nextNodeConnectionId.ge hacked
  intro x hx
  exact hw.queued (h.handlers x hx)

theorem submit (h : OrderInv d) {env : CommandEnv} {cmd : ClientCommand}
    {reserved : Option NodeId} (hok : KeepsOrder d (.submit env cmd reserved)) :
    OrderInv { d with
      hub := d.hub.step (.command env cmd reserved)
      handlers := d.handlers ++
        (d.hub.applyCommandInner env cmd reserved).2.dispatch.toList } := by
  obtain ⟨hres, hlinks⟩ := applyCommandInner_result env d.hub reserved cmd
  have hlog := (step_performs d.hub (.command env cmd reserved)).eventLog h.log
  have hcache := h.cache.step (.command env cmd reserved)
  -- a recorded command: its work is behind everything on record
  have hrecorded : ∀ plan ap, Records env d.hub reserved cmd plan →
      (d.hub.step (.command env cmd reserved)).hub =
        { d.hub.hub.bundled env.append cmd.commandId plan.draft plan.entity plan.dispatch with
          approvals := ap } →
      ((d.hub.applyCommandInner env cmd reserved).2.dispatch = plan.dispatch ∨
        (d.hub.applyCommandInner env cmd reserved).2.dispatch = none) →
      OrderInv { d with
        hub := d.hub.step (.command env cmd reserved)
        handlers := d.handlers ++
          (d.hub.applyCommandInner env cmd reserved).2.dispatch.toList } := by
    intro plan ap hrec hhub hdisp
    obtain ⟨-, hplan, -, hreceipt, -⟩ := id hrec
    have hprompt : ∀ c t r text mid, cmd = .sendUserMessage c t (some r) text mid →
        PromptBound d.hub env.lookup t r := by
      rintro c t r text mid rfl
      exact hok ⟨plan, hrec⟩
    obtain ⟨hwork, hext⟩ := h.work.bundled h.log env.append plan.draft ap
      (Table.lookup_eq_none.mp hreceipt) (fun n m hd => plan_message hplan hd)
      (fun n m hd hs => plan_bound h.cache hplan hprompt hd hs)
      (fun run he => plan_start hplan he)
    rw [← hhub] at hwork hext
    have hrows : ∀ row ∈ (d.hub.step (.command env cmd reserved)).hub.dispatches,
        row ∈ d.hub.hub.dispatches ∨
          ∃ n m, plan.dispatch = some (n, m) ∧
            row = ⟨cmd.commandId, n, m, fmtTime env.append.now, none⟩ := by
      intro row hrow
      rw [hhub] at hrow
      simpa only [Store.bundled, List.mem_append, mem_dispatchRows] using hrow
    refine h.advance (h.toLinked.mono hlinks rfl) hlog hcache hwork hext ?_ hlinks.channels
      (fun c l hc => .inl hc) hlinks.nextNodeConnectionId.ge ?_
    · intro x hx
      rcases List.mem_append.mp hx with hold | hnew
      · exact hext.queued _ _ (h.handlers x hold)
      · have hd : plan.dispatch = some x := by
          rcases hdisp with hd | hd <;> rw [hd] at hnew
          · simpa [Option.mem_toList] using hnew
          · cases hnew
        refine ⟨⟨cmd.commandId, x.1, x.2, fmtTime env.append.now, none⟩, ?_, rfl, rfl⟩
        rw [hhub]
        simp only [Store.bundled, List.mem_append, mem_dispatchRows]
        exact .inr ⟨x.1, x.2, hd, rfl⟩
    · intro row hrow hacked
      rcases hrows row hrow with hold | ⟨n, m, -, rfl⟩
      · exact h.acked row hold hacked
      · exact absurd rfl hacked
  cases hres with
  | unrecorded ap hub events dispatch =>
      have hwork : KeepsWork d.hub.hub (d.hub.step (.command env cmd reserved)).hub := by
        rw [HubState.step, hub]
        exact ⟨rfl, .inl rfl, rfl⟩
      have hset := h.setHub (a := .command env cmd reserved) hlinks (.of_keepsWork hwork)
        (fun row hrow => h.acked row (hwork.dispatches ▸ hrow))
      rw [dispatch, Option.toList_none, List.append_nil]
      exact hset
  | announced plan ap recorded rb hub events dispatch =>
      exact hrecorded plan ap recorded (by rw [HubState.step, hub]) (.inl dispatch)
  | unread plan ap recorded unread hub events dispatch =>
      exact hrecorded plan ap recorded (by rw [HubState.step, hub]) (.inr dispatch)

/-- A node acknowledges what it has received. -/
theorem ack (h : OrderInv d) (env : CallEnv) {n : NodeId} {c : CommandId}
    (hc : some c ∈ (d.received n).map HubToNode.commandId) :
    OrderInv { d with hub := d.hub.step (.commandAck env n c) } := by
  obtain ⟨hlinks, hhub | hhub⟩ := commandAck_links env d.hub n c
  · have hwork : KeepsWork d.hub.hub (d.hub.step (.commandAck env n c)).hub := hhub ▸ .refl _
    exact h.setHub hlinks (.of_keepsWork hwork)
      (fun row hrow => h.acked row (hwork.dispatches ▸ hrow))
  · refine h.setHub hlinks (hhub ▸ .acked env d.hub.hub _) (fun row hrow hacked => ?_)
    rw [hhub] at hrow
    obtain ⟨old, hold, rfl⟩ := List.mem_map.mp hrow
    split at hacked
    · next hhit =>
        -- the row of the command, whose message has arrived
        rw [if_pos hhit]
        simp only [Bool.and_eq_true, decide_eq_true_eq] at hhit
        obtain ⟨⟨hcmd, rfl⟩, -⟩ := hhit
        obtain ⟨m, hm, hmc⟩ := List.mem_map.mp hc
        obtain ⟨row, hrow', -, rfl⟩ := h.known _ m hm (by rw [hmc]; exact nofun)
        have hid : row.commandId = old.commandId := by
          rw [hcmd]
          exact Option.some.inj ((h.work.commandId hrow').symm.trans hmc)
        obtain rfl := List.inj_on_of_nodup_map h.log.dispatchIds hrow' hold hid
        exact hm
    · next hmiss =>
        rw [if_neg hmiss]
        exact h.acked old hold hacked

/-- A handler's start goes on. -/
theorem setStart (h : OrderInv d) {c : ℕ} {l : NodeLink} (hc : d.links c = some l) {start : Start}
    (hp : ∀ rest, start = .replaying rest → ∀ m ∈ rest, Queued d.hub.hub l.nodeId m) :
    OrderInv (d.setLink c { l with start := start }) := by
  refine h.advance (h.toLinked.setLink hc rfl) h.log h.cache h.work ⟨fun _ _ hq => hq,
    fun _ _ _ _ hx => hx⟩ h.handlers rfl (fun k lk hk => ?_) (le_refl _) h.acked
  by_cases hkc : k = c
  · subst hkc
    rw [Function.update_self] at hk
    obtain rfl := Option.some.inj hk
    exact .inr ((h.links k l hc).setStart hp)
  · exact .inl ((Function.update_of_ne hkc ..).symm.trans hk)

/-- A new link is empty. -/
theorem connect (h : OrderInv d) (upsert append fetch : CallEnv) (hello : NodeHello)
    (now : DateTime) :
    OrderInv ({ d with hub := d.hub.step (.register upsert append fetch hello now) }.setLink
      d.hub.nextNodeConnectionId ⟨hello.nodeId, .unread, 0⟩) := by
  obtain ⟨hlinks, hwork⟩ := register_links upsert append fetch d.hub hello now
  have hsame := SameWork.of_keepsWork hwork
  refine h.advance (h.toLinked.connect hlinks) ((step_performs d.hub _).eventLog h.log)
    (h.cache.step _) (h.work.same hsame) hsame.extends
    (fun x hx => hsame.queued (h.handlers x hx)) hlinks.channels (fun c l hl => ?_) ?_
    (fun row hrow => h.acked row (hwork.dispatches ▸ hrow))
  · by_cases hc : c = d.hub.nextNodeConnectionId
    · subst hc
      rw [Function.update_self] at hl
      obtain rfl := Option.some.inj hl
      rw [h.empty _ (le_refl _)]
      exact .inr ⟨nofun, List.forall_mem_nil _, le_refl _, List.forall_mem_nil _, .nil⟩
    · exact .inl ((Function.update_of_ne hc ..).symm.trans hl)
  · rw [hlinks.nextNodeConnectionId]
    exact Nat.le_succ _

theorem leave (h : OrderInv d) {c : ℕ} {l : NodeLink} (hc : d.links c = some l)
    (read upsert append fetch : CallEnv) (now : DateTime) :
    OrderInv { d with
      hub := d.hub.step (.unregister read upsert append fetch l.nodeId c now)
      links := Function.update d.links c none } := by
  obtain ⟨hlinks, hwork⟩ := unregister_links read upsert append fetch d.hub l.nodeId c now
  obtain ⟨hnext, hchannels⟩ := unregisterNode_rest d.hub l.nodeId c
  have hsame := SameWork.of_keepsWork hwork
  refine h.advance (h.toLinked.leave hc hlinks) ((step_performs d.hub _).eventLog h.log)
    (h.cache.step _) (h.work.same hsame) hsame.extends
    (fun x hx => hsame.queued (h.handlers x hx)) (hlinks.channels.trans hchannels)
    (fun k lk hk => ?_) (hlinks.nextNodeConnectionId.trans hnext).ge
    (fun row hrow => h.acked row (hwork.dispatches ▸ hrow))
  by_cases hkc : k = c
  · subst hkc
    simp at hk
  · exact .inl ((Function.update_of_ne hkc ..).symm.trans hk)

/-- The node reads the next message of a link. -/
theorem deliver (h : OrderInv d) {c : ℕ} {l : NodeLink} {m : HubToNode}
    (hc : d.links c = some l) (hm : (d.hub.channels c)[l.position]? = some m) :
    OrderInv ({ d with
      received := Function.update d.received l.nodeId (d.received l.nodeId ++ [m]) }.setLink
        c { l with position := l.position + 1 }) := by
  have hlink := h.links c l hc
  have hlinked : Dispatching.Linked { d with
      received := Function.update d.received l.nodeId (d.received l.nodeId ++ [m]) } :=
    ⟨h.current, h.fresh⟩
  have hgrow : ∀ n, ∀ x ∈ d.received n,
      x ∈ Function.update d.received l.nodeId (d.received l.nodeId ++ [m]) n := by
    intro n x hx
    by_cases hn : n = l.nodeId
    · subst hn
      rw [Function.update_self]
      exact List.mem_append_left _ hx
    · rwa [Function.update_of_ne hn]
  refine ⟨hlinked.setLink hc rfl, h.log, h.cache, h.work, h.handlers, ?_, ?_, ?_, ?_, h.empty⟩
  · intro k lk hk
    simp only [Dispatching.setLink] at hk ⊢
    by_cases hkc : k = c
    · subst hkc
      rw [Function.update_self] at hk
      obtain rfl := Option.some.inj hk
      rw [Function.update_self]
      exact hlink.read hm
    · rw [Function.update_of_ne hkc] at hk
      have hother := h.links k lk hk
      by_cases hn : lk.nodeId = l.nodeId
      · rw [hn] at hother
        rw [hn, Function.update_self]
        exact hother.receive m
      · rwa [Function.update_of_ne hn]
  · intro n x hx hxc
    simp only [Dispatching.setLink] at hx ⊢
    by_cases hn : n = l.nodeId
    · subst hn
      rw [Function.update_self] at hx
      rcases List.mem_append.mp hx with hold | hnew
      · exact h.known _ x hold hxc
      · obtain rfl := List.mem_singleton.mp hnew
        exact hlink.known _ (List.mem_of_getElem? hm) hxc
    · rw [Function.update_of_ne hn] at hx
      exact h.known n x hx hxc
  · intro n
    simp only [Dispatching.setLink]
    by_cases hn : n = l.nodeId
    · subst hn
      rw [Function.update_self]
      exact (h.got _).snoc (fun x hx => .inl (hlink.arrived hm hx))
    · rw [Function.update_of_ne hn]
      exact h.got n
  · intro row hrow hacked
    exact hgrow _ _ (h.acked row hrow hacked)

theorem restart (h : OrderInv d) :
    OrderInv { d with hub := d.hub.step .restart, handlers := [], links := fun _ => none } where
  current n c hcur := by cases hcur
  fresh _ _ := rfl
  log := h.log
  cache := h.cache.step .restart
  work := h.work
  handlers := List.forall_mem_nil _
  links c l hl := by cases hl
  known := h.known
  got := h.got
  acked := h.acked
  empty _ _ := rfl

/-- **One step of the hub, a handler or a link.** -/
theorem step (h : OrderInv d) {a : DispatchLabel} (hok : KeepsOrder d a)
    (hs : d.step a = some d') : OrderInv d' := by
  cases a with
  | submit env cmd reserved =>
      cases hs
      exact h.submit hok
  | route i =>
      simp only [Dispatching.step] at hs
      split at hs
      · next n m hi =>
          cases hs
          have hq := h.handlers (n, m) (List.mem_of_getElem? hi)
          have hrouted := h.routed (fun _ => ⟨hq, hok n m hi⟩)
          refine hrouted.advance ⟨hrouted.current, hrouted.fresh⟩ hrouted.log hrouted.cache
            hrouted.work ⟨fun _ _ hq => hq, fun _ _ _ _ hx => hx⟩ (fun x hx => ?_) rfl
            (fun _ _ hl => .inl hl) (le_refl _) hrouted.acked
          exact hrouted.handlers x (List.mem_of_mem_eraseIdx hx)
      · cases hs
  | abandon i =>
      simp only [Dispatching.step] at hs
      split at hs
      · cases hs
        refine h.advance ⟨h.current, h.fresh⟩ h.log h.cache h.work ⟨fun _ _ hq => hq,
          fun _ _ _ _ hx => hx⟩ (fun x hx => ?_) rfl (fun _ _ hl => .inl hl) (le_refl _) h.acked
        exact h.handlers x (List.mem_of_mem_eraseIdx hx)
      · cases hs
  | connect upsert append fetch hello now =>
      simp only [Dispatching.step] at hs
      split at hs
      · cases hs
        exact h.connect upsert append fetch hello now
      · cases hs
  | query c env =>
      simp only [Dispatching.step] at hs
      split at hs
      · next n p hc =>
          cases hs
          refine h.setStart hc (fun rest hrest m hm => ?_)
          cases hrest
          exact queued_of_pending hm
      · cases hs
  | replay c =>
      simp only [Dispatching.step] at hs
      split at hs
      · next n m rest p hc =>
          cases hs
          have hpending := (h.links c _ hc).pending _ rfl
          have hrouted := h.routed
            (fun _ => ⟨hpending m (List.mem_cons_self ..), hok n m rest p hc⟩)
          refine hrouted.setStart hc (fun rest' hrest x hx => ?_)
          cases hrest
          rw [(routeToNode_hub ..).1]
          exact hpending x (List.mem_cons_of_mem _ hx)
      · cases hs
  | deliver c =>
      simp only [Dispatching.step] at hs
      split at hs
      · next n p hc =>
          split at hs
          · next m hm =>
              cases hs
              exact h.deliver hc hm
          · cases hs
      · cases hs
  | ack c env commandId =>
      simp only [Dispatching.step] at hs
      split at hs
      · next n p hc =>
          split at hs
          · next hreceived =>
              cases hs
              exact h.ack env hreceived
          · cases hs
      · cases hs
  | event c validate append fetch id draft =>
      simp only [Dispatching.step] at hs
      split at hs
      · next n p hc =>
          cases hs
          obtain ⟨hlinks, hwork⟩ := nodeEvent_links validate append fetch d.hub n id draft
          have hsame := SameWork.of_keepsWork hwork
          have hacked := fun row hrow => h.acked row (hwork.dispatches ▸ hrow)
          rcases hlinks with hl | hl
          · exact h.setHub hl hsame hacked
          · -- its acknowledgement is put on the link first
            have hrouted := h.routed (n := n) (m := .eventAck id) (fun hne => absurd rfl hne)
            have hhub := (routeToNode_hub d.hub n (.eventAck id)).1
            refine hrouted.advance (hrouted.toLinked.mono hl rfl)
              ((step_performs d.hub _).eventLog h.log) (h.cache.step _) (h.work.same hsame)
              (hhub ▸ hsame.extends) (fun x hx => hsame.queued (h.handlers x hx)) hl.channels
              (fun _ _ hk => .inl hk) hl.nextNodeConnectionId.ge hacked
      · cases hs
  | leave c read upsert append fetch now =>
      simp only [Dispatching.step] at hs
      split at hs
      · next hc =>
          cases hs
          exact h.leave hc read upsert append fetch now
      · cases hs
  | registerWorker env channel t =>
      cases hs
      obtain ⟨hlinks, hwork⟩ := registerWorker_links env d.hub channel t
      exact h.setHub hlinks (.of_keepsWork hwork)
        (fun row hrow => h.acked row (hwork.dispatches ▸ hrow))
  | restart =>
      cases hs
      exact h.restart

theorem init (hi : Dispatching.system.init d) : OrderInv d := by
  obtain ⟨hub, handlers, links, received⟩ := d
  obtain ⟨hhub, rfl, rfl, rfl⟩ := hi
  have hlog := eventLog_init hhub
  have hcache := CacheOk.init hhub
  obtain ⟨refusal, nodeSecret, clientSecret, rfl⟩ := hhub
  have hdispatches : (Store.blank.runMigrations refusal).1.dispatches = [] := by
    obtain ⟨m, hm⟩ := Store.runMigrations_fst refusal Store.blank
    rw [hm]
    rfl
  have hbindings : bindings (Store.blank.runMigrations refusal).1 = [] := by
    obtain ⟨m, hm⟩ := Store.runMigrations_fst refusal Store.blank
    rw [hm]
    rfl
  refine ⟨⟨nofun, fun _ _ => rfl⟩, hlog, hcache, ⟨?_, ?_, ?_⟩,
    List.forall_mem_nil _, nofun, fun _ => List.forall_mem_nil _, fun _ => .nil, ?_, fun _ _ => rfl⟩
  all_goals simp [fromHub, hdispatches, hbindings]

/-- What the invariant says of the node. -/
theorem inOrder (h : OrderInv d) : DispatchesInOrder d where
  order n x y _ hy hp := ((h.got n).idxOf_lt hp hy).2
  started n y hy r hr hs := by
    have hc : y.commandId ≠ none := by
      cases y with
      | dispatchCommand c expires work => exact nofun
      | _ => cases hr
    obtain ⟨row, hrow, rfl, rfl⟩ := h.known n y hy hc
    obtain ⟨x, hx, hp⟩ := h.work.starts row hrow hs
    obtain ⟨hmem, hlt⟩ := (h.got _).idxOf_lt hp hy
    obtain ⟨-, -, -, -, -, -, ⟨r', hxr, hyr⟩, -⟩ := hp
    obtain rfl := Option.some.inj (hr.symm.trans hyr)
    exact ⟨x, hmem, hx, hxr, hlt⟩

end OrderInv

/-! ## The order contract -/

/-- A client's message to a run. -/
def prompting (u task run : ℕ) : DispatchLabel :=
  .submit (plainCommand u)
    (.sendUserMessage ⟨BitVec.ofNat 128 u⟩ ⟨BitVec.ofNat 128 task⟩
      (some ⟨BitVec.ofNat 128 run⟩) "go on" "m") none

end Stackhour.Hub
