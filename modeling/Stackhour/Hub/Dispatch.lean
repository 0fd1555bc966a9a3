import Stackhour.Hub.Links

/-!
# Dispatching work to nodes

Commands record their work with their event; the work then reaches its node on
one of two ways: the client's handler routes it after the receipt is sent, or
the node's handler replays what is pending when it starts. A recorded dispatch
that neither way covers stays off the link until the node connects again.
-/

namespace Stackhour.Hub

open Domain TransitionSystem HubState

/-! ## Handlers and links -/

/-- How far `handle_node` is before its loop: registered with its pending
dispatches unread, or replaying; with nothing left to replay it is in the loop. -/
inductive Start where
  | unread
  | replaying (rest : List HubToNode)

/-- A node handler: its node, its start, and how much of its channel has reached
the node. -/
structure NodeLink where
  nodeId : NodeId
  start : Start
  position : ℕ

/-- `handlers` are the client handlers that hold work they have yet to route,
`links` the node handlers by connection, and `received` what has reached each
node, over all its connections. -/
structure Dispatching where
  hub : HubState
  handlers : List (NodeId × HubToNode)
  links : ℕ → Option NodeLink
  received : NodeId → List HubToNode

inductive DispatchLabel where
  | submit (env : CommandEnv) (cmd : ClientCommand) (reservedNode : Option NodeId)
  | route (i : ℕ)
  | abandon (i : ℕ)
  | connect (upsert append fetch : CallEnv) (hello : NodeHello) (now : DateTime)
  | query (c : ℕ) (env : CallEnv)
  | replay (c : ℕ)
  | deliver (c : ℕ)
  | ack (c : ℕ) (env : CallEnv) (commandId : CommandId)
  | event (c : ℕ) (validate append fetch : CallEnv) (eventId : EventId) (draft : EventDraft)
  | leave (c : ℕ) (read upsert append fetch : CallEnv) (now : DateTime)
  | registerWorker (env : CallEnv) (channel : String) (taskId : TaskId)
  | restart

namespace Dispatching

def setLink (d : Dispatching) (c : ℕ) (l : NodeLink) : Dispatching :=
  { d with links := Function.update d.links c (some l) }

def step (d : Dispatching) : DispatchLabel → Option Dispatching
  -- the receipt is on its way to the client, and the work is not routed yet
  | .submit env cmd n =>
      some { d with
        hub := d.hub.step (.command env cmd n)
        handlers := d.handlers ++ (d.hub.applyCommandInner env cmd n).2.dispatch.toList }
  | .route i =>
      match d.handlers[i]? with
      | some (n, m) =>
          some { d with hub := d.hub.routeToNode n m, handlers := d.handlers.eraseIdx i }
      | none => none
  -- the receipt cannot be sent, or the event of a worker's run cannot be read:
  -- the handler ends without routing
  | .abandon i =>
      match d.handlers[i]? with
      | some _ => some { d with handlers := d.handlers.eraseIdx i }
      | none => none
  | .connect upsert append fetch hello now =>
      if (d.hub.negotiateNode hello).accepted then
        some ({ d with hub := d.hub.step (.register upsert append fetch hello now) }.setLink
          d.hub.nextNodeConnectionId ⟨hello.nodeId, .unread, 0⟩)
      else none
  | .query c env =>
      match d.links c with
      | some ⟨n, .unread, p⟩ =>
          some (d.setLink c ⟨n, .replaying (d.hub.pendingMessages env n), p⟩)
      | _ => none
  -- into the node's current connection, which may be another one by now
  | .replay c =>
      match d.links c with
      | some ⟨n, .replaying (m :: rest), p⟩ =>
          some ({ d with hub := d.hub.routeToNode n m }.setLink c ⟨n, .replaying rest, p⟩)
      | _ => none
  | .deliver c =>
      match d.links c with
      | some ⟨n, .replaying [], p⟩ =>
          match (d.hub.channels c)[p]? with
          | some m =>
              some ({ d with received := Function.update d.received n (d.received n ++ [m]) }.setLink
                c ⟨n, .replaying [], p + 1⟩)
          | none => none
      | _ => none
  -- a node acknowledges what has reached it
  | .ack c env commandId =>
      match d.links c with
      | some ⟨n, .replaying [], _⟩ =>
          if some commandId ∈ (d.received n).map HubToNode.commandId then
            some { d with hub := d.hub.step (.commandAck env n commandId) }
          else none
      | _ => none
  | .event c validate append fetch eventId draft =>
      match d.links c with
      | some ⟨n, .replaying [], _⟩ =>
          some { d with hub := d.hub.step (.nodeEvent validate append fetch n eventId draft) }
      | _ => none
  | .leave c read upsert append fetch now =>
      match d.links c with
      | some ⟨n, .replaying [], _⟩ =>
          some { d with
            hub := d.hub.step (.unregister read upsert append fetch n c now)
            links := Function.update d.links c none }
      | _ => none
  | .registerWorker env channel t =>
      some { d with hub := d.hub.step (.registerWorker env channel t) }
  | .restart =>
      some { d with hub := d.hub.step .restart, handlers := [], links := fun _ => none }

/-- A hub over a newly opened database, with no handler. -/
def system : System Dispatching DispatchLabel where
  init d := HubState.system.init d.hub ∧ d.handlers = [] ∧ d.links = (fun _ => none) ∧
    d.received = (fun _ => [])
  step := step

end Dispatching

/-! ## The contract and its condition -/

/-- The replay still to come from a start. -/
def Start.ahead (m : HubToNode) : Start → Prop
  | .unread => True
  | .replaying rest => m ∈ rest

namespace Dispatching

/-- No handler is in the middle of its work. -/
def Settled (d : Dispatching) : Prop :=
  d.handlers = [] ∧ ∀ c l, d.links c = some l → l.start = .replaying []

/-- In the channel of the node's current connection. -/
def Enqueued (d : Dispatching) (n : NodeId) (m : HubToNode) : Prop :=
  ∃ c, d.hub.nodes n = some c ∧ m ∈ d.hub.channels c

/-- Nothing is lost when a handler drops the message: the node is not connected,
or has it on its link, or is about to have it replayed. -/
def Spared (d : Dispatching) (n : NodeId) (m : HubToNode) : Prop :=
  d.hub.nodes n = none ∨ d.Enqueued n m ∨
    ∃ c l, d.hub.nodes n = some c ∧ d.links c = some l ∧ l.start.ahead m

def Acknowledged (d : Dispatching) (n : NodeId) (m : HubToNode) : Prop :=
  ∀ row ∈ d.hub.hub.dispatches, row.nodeId = n → row.message = m → row.ackedAt ≠ none

end Dispatching

/-- Every unacknowledged dispatch of a connected node is on its link. -/
def NoStranded (d : Dispatching) : Prop :=
  d.Settled → ∀ row ∈ d.hub.hub.dispatches, row.ackedAt = none →
    d.hub.nodes row.nodeId ≠ none → d.Enqueued row.nodeId row.message

/-- Nothing is dropped that its node would miss: not by an append whose event
does not read back, not by a handler that ends before routing, and not by a
replay that cannot read what is pending. -/
def KeepsDispatches (d : Dispatching) : DispatchLabel → Prop
  | .submit env cmd n =>
      ∀ plan k m, Records env d.hub n cmd plan → ¬ ReadsBack env.append env.fetch plan.draft →
        plan.dispatch = some (k, m) → d.Spared k m
  | .abandon i =>
      ∀ n m, d.handlers[i]? = some (n, m) → d.Acknowledged n m ∨ d.Spared n m
  | .query c env =>
      ∀ l, d.links c = some l → d.hub.nodes l.nodeId = some c →
        (∃ e, d.hub.hub.pendingDispatches env l.nodeId = .error e) →
          ∀ row ∈ d.hub.hub.dispatches, row.nodeId = l.nodeId → row.ackedAt = none →
            d.Enqueued l.nodeId row.message ∨ (l.nodeId, row.message) ∈ d.handlers
  | _ => True

/-! ## Dispatch rows -/

theorem mem_dispatchRows {c : CommandId} {now : DateTime} {disp : Option (NodeId × HubToNode)}
    {row : DispatchRow} : row ∈ dispatchRows c now disp ↔
      ∃ n m, disp = some (n, m) ∧ row = ⟨c, n, m, fmtTime now, none⟩ := by
  cases disp with
  | none => simp [dispatchRows]
  | some w =>
      obtain ⟨n, m⟩ := w
      simp [dispatchRows]

/-- A row that is open after an acknowledgement was open before it. -/
theorem open_of_acked {env : CallEnv} {s : Store} {p : DispatchRow → Bool} {row : DispatchRow}
    (hrow : row ∈ (s.acked env p).dispatches) (hopen : row.ackedAt = none) :
    ∃ old ∈ s.dispatches, old.ackedAt = none ∧ old.nodeId = row.nodeId ∧
      old.message = row.message := by
  obtain ⟨old, hold, rfl⟩ := List.mem_map.mp hrow
  split at hopen
  · cases hopen
  · next hp => exact ⟨old, hold, hopen, by rw [if_neg hp], by rw [if_neg hp]⟩

theorem mapM_pending {rows : List DispatchRow} {out : List PendingDispatch}
    (h : rows.mapM Store.rowToPendingDispatch = .ok out) :
    out.map PendingDispatch.message = rows.map DispatchRow.message := by
  induction rows generalizing out with
  | nil =>
      rw [List.mapM_nil, Result.pure_eq_ok] at h
      subst h
      rfl
  | cons row rows ih =>
      simp only [List.mapM_cons, Result.bind_eq_ok, Result.pure_eq_ok] at h
      obtain ⟨x, hx, xs, hxs, rfl⟩ := h
      obtain ⟨_, -, hx⟩ := Result.bind_eq_ok.mp hx
      obtain rfl := Result.pure_eq_ok.mp hx
      rw [List.map_cons, List.map_cons, ih hxs]

/-- What is pending for a node, in the order it was recorded. -/
theorem pendingDispatches_messages {env : CallEnv} {s : Store} {n : NodeId}
    {out : List PendingDispatch} (h : s.pendingDispatches env n = .ok out) :
    out.map PendingDispatch.message = (s.dispatches.filter
      (fun d => decide (d.nodeId = n ∧ d.ackedAt = none))).map DispatchRow.message := by
  obtain ⟨_, -, h⟩ := Result.bind_eq_ok.mp h
  exact mapM_pending h

theorem mem_pendingDispatches {env : CallEnv} {s : Store} {n : NodeId}
    {out : List PendingDispatch} (h : s.pendingDispatches env n = .ok out) {row : DispatchRow}
    (hrow : row ∈ s.dispatches) (hn : row.nodeId = n) (hopen : row.ackedAt = none) :
    row.message ∈ out.map PendingDispatch.message := by
  rw [pendingDispatches_messages h]
  refine List.mem_map_of_mem (List.mem_filter.mpr ⟨hrow, ?_⟩)
  simp [hn, hopen]

/-! ## The invariant -/

namespace Dispatching

/-- A handler will route the message, or nothing is lost without one. -/
def Covered (d : Dispatching) (n : NodeId) (m : HubToNode) : Prop :=
  (n, m) ∈ d.handlers ∨ d.Spared n m

/-- The registry against the node handlers. -/
structure Linked (d : Dispatching) : Prop where
  current : ∀ n c, d.hub.nodes n = some c → ∃ l, d.links c = some l ∧ l.nodeId = n
  fresh : ∀ c, d.hub.nextNodeConnectionId ≤ c → d.links c = none

structure DispatchInv (d : Dispatching) : Prop extends Linked d where
  covered : ∀ row ∈ d.hub.hub.dispatches, row.ackedAt = none → d.Covered row.nodeId row.message

variable {d d' : Dispatching} {n : NodeId} {m : HubToNode}

theorem Enqueued.mono (h : d.Enqueued n m) (hn : d'.hub.nodes = d.hub.nodes)
    (hc : ∀ c, m ∈ d.hub.channels c → m ∈ d'.hub.channels c) : d'.Enqueued n m := by
  obtain ⟨c, hcur, hm⟩ := h
  exact ⟨c, by rw [hn, hcur], hc c hm⟩

theorem Spared.mono (h : d.Spared n m) (hn : d'.hub.nodes = d.hub.nodes)
    (hc : ∀ c, m ∈ d.hub.channels c → m ∈ d'.hub.channels c) (hl : d'.links = d.links) :
    d'.Spared n m := by
  rcases h with hnone | hq | ⟨c, l, hcur, hlink, ha⟩
  · exact .inl (by rw [hn, hnone])
  · exact .inr (.inl (hq.mono hn hc))
  · exact .inr (.inr ⟨c, l, by rw [hn, hcur], by rw [hl, hlink], ha⟩)

theorem Covered.mono (h : d.Covered n m) (hn : d'.hub.nodes = d.hub.nodes)
    (hc : ∀ c, m ∈ d.hub.channels c → m ∈ d'.hub.channels c) (hl : d'.links = d.links)
    (hh : ∀ x ∈ d.handlers, x ∈ d'.handlers) : d'.Covered n m :=
  h.imp (hh _) (fun hs => hs.mono hn hc hl)

/-- A message that is routed is on the link of its node, if the node has one. -/
theorem spared_routed (hl : d'.hub = d.hub.routeToNode n m) : d'.Spared n m := by
  cases hcur : d.hub.nodes n with
  | none => exact .inl (by rw [hl, (routeToNode_nodes ..).1, hcur])
  | some c =>
      refine .inr (.inl ⟨c, by rw [hl, (routeToNode_nodes ..).1, hcur], ?_⟩)
      rw [hl, routeToNode_channels, if_pos hcur]
      exact List.mem_append_right _ (List.mem_singleton_self m)

theorem Linked.mono (h : d.Linked) (hn : SameLinks d.hub d'.hub) (hl : d'.links = d.links) :
    d'.Linked where
  current n c hcur := by
    rw [hn.nodes] at hcur
    rw [hl]
    exact h.current n c hcur
  fresh c hc := by
    rw [hn.nextNodeConnectionId] at hc
    rw [hl]
    exact h.fresh c hc

/-- Routing changes channels only. -/
theorem Linked.routed (h : d.Linked) {k : NodeId} {x : HubToNode}
    (hr : d'.hub = d.hub.routeToNode k x) (hl : d'.links = d.links) : d'.Linked where
  current n c hcur := by
    rw [hr, (routeToNode_nodes ..).1] at hcur
    rw [hl]
    exact h.current n c hcur
  fresh c hc := by
    rw [hr, (routeToNode_nodes ..).2] at hc
    rw [hl]
    exact h.fresh c hc

/-- A handler goes on to its next stage. -/
theorem Linked.setLink (h : d.Linked) {c : ℕ} {l l' : NodeLink} (hc : d.links c = some l)
    (hn : l'.nodeId = l.nodeId) : (d.setLink c l').Linked where
  current n k hcur := by
    obtain ⟨lk, hlk, hnode⟩ := h.current n k hcur
    by_cases hk : k = c
    · subst hk
      obtain rfl := Option.some.inj (hc.symm.trans hlk)
      exact ⟨l', Function.update_self .., hn.trans hnode⟩
    · exact ⟨lk, (Function.update_of_ne hk ..).trans hlk, hnode⟩
  fresh k hk := by
    have hnone := h.fresh k hk
    have hne : k ≠ c := by
      rintro rfl
      rw [hc] at hnone
      cases hnone
    exact (Function.update_of_ne hne ..).trans hnone

theorem Linked.lt_next (h : d.Linked) {c : ℕ} (hcur : d.hub.nodes n = some c) :
    c < d.hub.nextNodeConnectionId := by
  obtain ⟨l, hl, -⟩ := h.current n c hcur
  by_contra hle
  rw [h.fresh c (not_lt.mp hle)] at hl
  cases hl

theorem Linked.connect (h : d.Linked) {hub : HubState} {l : NodeLink}
    (hlinks : SameLinks (d.hub.registerNode l.nodeId).1 hub) :
    Linked ({ d with hub := hub }.setLink d.hub.nextNodeConnectionId l) where
  current n c hcur := by
    have hnodes : hub.nodes =
        Function.update d.hub.nodes l.nodeId (some d.hub.nextNodeConnectionId) := hlinks.nodes
    simp only [Dispatching.setLink, hnodes] at hcur ⊢
    by_cases hn : n = l.nodeId
    · subst hn
      rw [Function.update_self] at hcur
      obtain rfl := Option.some.inj hcur
      exact ⟨l, Function.update_self .., rfl⟩
    · rw [Function.update_of_ne hn] at hcur
      obtain ⟨lk, hl, hnode⟩ := h.current n c hcur
      exact ⟨lk, (Function.update_of_ne (h.lt_next hcur).ne ..).trans hl, hnode⟩
  fresh c hc := by
    have hnext : hub.nextNodeConnectionId = d.hub.nextNodeConnectionId + 1 :=
      hlinks.nextNodeConnectionId
    simp only [Dispatching.setLink, hnext] at hc ⊢
    exact (Function.update_of_ne (by omega) ..).trans (h.fresh c (by omega))

/-- The slots left by a connection that ends. -/
theorem Linked.slot (h : d.Linked) {c j : ℕ} {l : NodeLink} (hc : d.links c = some l)
    (hj : (d.hub.unregisterNode l.nodeId c).1.nodes n = some j) :
    d.hub.nodes n = some j ∧ j ≠ c := by
  obtain ⟨hcur, hne⟩ := unregisterNode_nodes hj
  refine ⟨hcur, ?_⟩
  rintro rfl
  obtain ⟨l', hl', hnode⟩ := h.current n j hcur
  obtain rfl := Option.some.inj (hc.symm.trans hl')
  exact hne rfl hnode.symm

theorem Linked.leave (h : d.Linked) {hub : HubState} {c : ℕ} {l : NodeLink}
    (hc : d.links c = some l) (hlinks : SameLinks (d.hub.unregisterNode l.nodeId c).1 hub) :
    Linked { d with hub := hub, links := Function.update d.links c none } where
  current k j hj := by
    simp only [hlinks.nodes] at hj
    obtain ⟨hkj, hne⟩ := h.slot hc hj
    obtain ⟨lk, hl, hnode⟩ := h.current k j hkj
    exact ⟨lk, (Function.update_of_ne hne ..).trans hl, hnode⟩
  fresh j hj := by
    simp only [hlinks.nextNodeConnectionId, (unregisterNode_rest ..).1] at hj
    by_cases hjc : j = c
    · subst hjc
      exact Function.update_self ..
    · exact (Function.update_of_ne hjc ..).trans (h.fresh j hj)

/-! ## One step -/

namespace DispatchInv

/-- A command's dispatch is held by its handler; one that is recorded and not
handed over has to be spared. -/
theorem submit (h : d.DispatchInv) {env : CommandEnv} {cmd : ClientCommand}
    {reserved : Option NodeId} (hok : KeepsDispatches d (.submit env cmd reserved)) :
    DispatchInv { d with
      hub := d.hub.step (.command env cmd reserved)
      handlers := d.handlers ++
        (d.hub.applyCommandInner env cmd reserved).2.dispatch.toList } := by
  obtain ⟨hres, hlinks⟩ := applyCommandInner_result env d.hub reserved cmd
  refine ⟨h.toLinked.mono hlinks rfl, ?_⟩
  have hold : ∀ n m, d.Covered n m → Covered { d with
      hub := d.hub.step (.command env cmd reserved)
      handlers := d.handlers ++
        (d.hub.applyCommandInner env cmd reserved).2.dispatch.toList } n m := by
    intro n m hcov
    refine hcov.mono hlinks.nodes (fun c hc => ?_) rfl (fun x hx => List.mem_append_left _ hx)
    exact hlinks.channels ▸ hc
  intro row hrow hopen
  cases hres with
  | unrecorded ap hub events dispatch =>
      simp only [HubState.step, hub] at hrow
      exact hold _ _ (h.covered row hrow hopen)
  | announced plan ap recorded rb hub events dispatch =>
      simp only [HubState.step, hub, Store.bundled, List.mem_append] at hrow
      rcases hrow with hrow | hrow
      · exact hold _ _ (h.covered row hrow hopen)
      · obtain ⟨n, m, hd, rfl⟩ := mem_dispatchRows.mp hrow
        refine .inl (List.mem_append_right _ ?_)
        rw [dispatch, hd]
        exact List.mem_singleton_self (n, m)
  | unread plan ap recorded unread hub events dispatch =>
      simp only [HubState.step, hub, Store.bundled, List.mem_append] at hrow
      rcases hrow with hrow | hrow
      · exact hold _ _ (h.covered row hrow hopen)
      · obtain ⟨n, m, hd, rfl⟩ := mem_dispatchRows.mp hrow
        exact hold _ _ (.inr (hok plan n m recorded unread hd))

theorem route (h : d.DispatchInv) {i : ℕ} {n : NodeId} {m : HubToNode}
    (hi : d.handlers[i]? = some (n, m)) :
    DispatchInv { d with hub := d.hub.routeToNode n m, handlers := d.handlers.eraseIdx i } := by
  refine ⟨h.toLinked.routed rfl rfl, fun row hrow hopen => ?_⟩
  rw [(routeToNode_hub ..).1] at hrow
  rcases h.covered row hrow hopen with hheld | hspared
  · obtain ⟨j, hj⟩ := List.mem_iff_getElem?.mp hheld
    by_cases hij : j = i
    · -- the message just routed
      subst hij
      obtain ⟨rfl, rfl⟩ := Prod.mk.inj (Option.some.inj (hj.symm.trans hi))
      exact .inr (spared_routed rfl)
    · exact .inl (List.mem_eraseIdx_iff_getElem?.mpr ⟨j, hij, hj⟩)
  · exact .inr (hspared.mono (routeToNode_nodes ..).1 (fun c hc => mem_routeToNode hc) rfl)

theorem abandon (h : d.DispatchInv) {i : ℕ} (hok : KeepsDispatches d (.abandon i)) :
    DispatchInv { d with handlers := d.handlers.eraseIdx i } := by
  refine ⟨⟨h.current, h.fresh⟩, fun row hrow hopen => ?_⟩
  rcases h.covered row hrow hopen with hheld | hspared
  · obtain ⟨j, hj⟩ := List.mem_iff_getElem?.mp hheld
    by_cases hij : j = i
    · subst hij
      rcases hok _ _ hj with hacked | hspared
      · exact absurd hopen (hacked row hrow rfl rfl)
      · exact .inr (hspared.mono rfl (fun c hc => hc) rfl)
    · exact .inl (List.mem_eraseIdx_iff_getElem?.mpr ⟨j, hij, hj⟩)
  · exact .inr (hspared.mono rfl (fun c hc => hc) rfl)

/-- A new connection has its replay before it. -/
theorem connect (h : d.DispatchInv) (upsert append fetch : CallEnv) (hello : NodeHello)
    (now : DateTime) :
    DispatchInv ({ d with hub := d.hub.step (.register upsert append fetch hello now) }.setLink
      d.hub.nextNodeConnectionId ⟨hello.nodeId, .unread, 0⟩) := by
  obtain ⟨hlinks, hwork⟩ := register_links upsert append fetch d.hub hello now
  have hnodes : (d.hub.step (.register upsert append fetch hello now)).nodes =
      Function.update d.hub.nodes hello.nodeId (some d.hub.nextNodeConnectionId) := hlinks.nodes
  refine ⟨h.toLinked.connect hlinks, fun row hrow hopen => ?_⟩
  simp only [setLink, hwork.dispatches] at hrow
  by_cases hn : row.nodeId = hello.nodeId
  · refine .inr (.inr (.inr ⟨_, _, ?_, Function.update_self .., trivial⟩))
    simp only [setLink, hnodes, hn, Function.update_self]
  · have hsame : (d.hub.step (.register upsert append fetch hello now)).nodes row.nodeId =
        d.hub.nodes row.nodeId := by rw [hnodes, Function.update_of_ne hn]
    rcases h.covered row hrow hopen with hheld | hnone | ⟨c, hcur, hm⟩ | ⟨c, l, hcur, hl, ha⟩
    · exact .inl hheld
    · exact .inr (.inl (hsame.trans hnone))
    · exact .inr (.inr (.inl ⟨c, hsame.trans hcur, hlinks.channels ▸ hm⟩))
    · have hne := (h.toLinked.lt_next hcur).ne
      exact .inr (.inr (.inr ⟨c, l, hsame.trans hcur,
        (Function.update_of_ne hne ..).trans hl, ha⟩))

/-- What is pending is read: it is replayed from now on. -/
theorem query (h : d.DispatchInv) {c : ℕ} {env : CallEnv} {n : NodeId} {p : ℕ}
    (hc : d.links c = some ⟨n, .unread, p⟩) (hok : KeepsDispatches d (.query c env)) :
    DispatchInv (d.setLink c ⟨n, .replaying (d.hub.pendingMessages env n), p⟩) := by
  refine ⟨h.toLinked.setLink hc rfl, fun row hrow hopen => ?_⟩
  by_cases hcur : d.hub.nodes row.nodeId = some c
  · -- the connection that reads is the current one
    obtain ⟨l, hl, hnode⟩ := h.current _ _ hcur
    obtain rfl := Option.some.inj (hc.symm.trans hl)
    obtain rfl : n = row.nodeId := hnode
    cases hq : d.hub.hub.pendingDispatches env row.nodeId with
    | error e =>
        rcases hok _ hc hcur ⟨e, hq⟩ row hrow rfl hopen with ⟨k, hk, hm⟩ | hheld
        · exact .inr (.inr (.inl ⟨k, hk, hm⟩))
        · exact .inl hheld
    | ok pending =>
        refine .inr (.inr (.inr ⟨c, _, hcur, Function.update_self .., ?_⟩))
        have hmem := mem_pendingDispatches hq hrow rfl hopen
        simpa only [Start.ahead, pendingMessages, hq] using hmem
  · rcases h.covered row hrow hopen with hheld | hnone | hq | ⟨k, l, hk, hl, ha⟩
    · exact .inl hheld
    · exact .inr (.inl hnone)
    · exact .inr (.inr (.inl hq))
    · have hne : k ≠ c := by
        rintro rfl
        exact hcur hk
      exact .inr (.inr (.inr ⟨k, l, hk, (Function.update_of_ne hne ..).trans hl, ha⟩))

theorem replay (h : d.DispatchInv) {c : ℕ} {n : NodeId} {m : HubToNode} {rest : List HubToNode}
    {p : ℕ} (hc : d.links c = some ⟨n, .replaying (m :: rest), p⟩) :
    DispatchInv ({ d with hub := d.hub.routeToNode n m }.setLink c ⟨n, .replaying rest, p⟩) := by
  have hrouted : Linked { d with hub := d.hub.routeToNode n m } := h.toLinked.routed rfl rfl
  refine ⟨hrouted.setLink hc rfl, fun row hrow hopen => ?_⟩
  simp only [setLink, (routeToNode_hub d.hub n m).1] at hrow
  have hnodes := (routeToNode_nodes d.hub n m).1
  rcases h.covered row hrow hopen with hheld | hnone | ⟨k, hk, hm⟩ | ⟨k, l, hk, hl, ha⟩
  · exact .inl hheld
  · exact .inr (.inl (by simp only [setLink, hnodes, hnone]))
  · exact .inr (.inr (.inl ⟨k, by simp only [setLink, hnodes, hk], mem_routeToNode hm⟩))
  · by_cases hkc : k = c
    · subst hkc
      obtain ⟨l', hl', hnode⟩ := h.current _ _ hk
      obtain rfl := Option.some.inj (hc.symm.trans hl)
      obtain rfl := Option.some.inj (hc.symm.trans hl')
      obtain rfl : n = row.nodeId := hnode
      rcases List.mem_cons.mp ha with hhead | hrest
      · rw [hhead]
        exact .inr (spared_routed rfl)
      · exact .inr (.inr (.inr ⟨k, _, by simp only [setLink, hnodes, hk],
          Function.update_self .., hrest⟩))
    · exact .inr (.inr (.inr ⟨k, l, by simp only [setLink, hnodes, hk],
        (Function.update_of_ne hkc ..).trans hl, ha⟩))

/-- Steps of a handler's loop: the hub's tables may change, the dispatches that
are still open do not grow. -/
theorem loop (h : d.DispatchInv) {hub : HubState} {n : NodeId} {m : HubToNode}
    (hlinks : SameLinks d.hub hub ∨ SameLinks (d.hub.routeToNode n m) hub)
    (hrows : ∀ row ∈ hub.hub.dispatches, row.ackedAt = none →
      ∃ old ∈ d.hub.hub.dispatches, old.ackedAt = none ∧ old.nodeId = row.nodeId ∧
        old.message = row.message) : DispatchInv { d with hub := hub } := by
  have hnodes : hub.nodes = d.hub.nodes := by
    rcases hlinks with hl | hl
    · exact hl.nodes
    · exact hl.nodes.trans (routeToNode_nodes ..).1
  have hnext : hub.nextNodeConnectionId = d.hub.nextNodeConnectionId := by
    rcases hlinks with hl | hl
    · exact hl.nextNodeConnectionId
    · exact hl.nextNodeConnectionId.trans (routeToNode_nodes ..).2
  have hmem : ∀ x k, x ∈ d.hub.channels k → x ∈ hub.channels k := by
    intro x k hx
    rcases hlinks with hl | hl
    · exact hl.channels ▸ hx
    · exact hl.channels ▸ mem_routeToNode hx
  refine ⟨⟨fun k c hcur => h.current k c (hnodes ▸ hcur), fun c hc => h.fresh c (hnext ▸ hc)⟩, ?_⟩
  intro row hrow hopen
  obtain ⟨old, hold, hopen', hnode, hmsg⟩ := hrows row hrow hopen
  rw [← hnode, ← hmsg]
  exact (h.covered old hold hopen').mono hnodes (fun k hk => hmem _ k hk) rfl (fun x hx => hx)

theorem deliver (h : d.DispatchInv) {c : ℕ} {n : NodeId} {p : ℕ}
    (hc : d.links c = some ⟨n, .replaying [], p⟩) (q : ℕ) (received : NodeId → List HubToNode) :
    DispatchInv ({ d with received := received }.setLink c ⟨n, .replaying [], q⟩) := by
  have hsame : Linked { d with received := received } := ⟨h.current, h.fresh⟩
  refine ⟨hsame.setLink hc rfl, fun row hrow hopen => ?_⟩
  rcases h.covered row hrow hopen with hheld | hnone | hq | ⟨k, l, hk, hl, ha⟩
  · exact .inl hheld
  · exact .inr (.inl hnone)
  · exact .inr (.inr (.inl hq))
  · have hne : k ≠ c := by
      rintro rfl
      obtain rfl := Option.some.inj (hc.symm.trans hl)
      cases ha
    exact .inr (.inr (.inr ⟨k, l, hk, (Function.update_of_ne hne ..).trans hl, ha⟩))

/-- A connection that ends frees the slot it holds, or another one has it. -/
theorem leave (h : d.DispatchInv) {c : ℕ} {n : NodeId} {p : ℕ}
    (hc : d.links c = some ⟨n, .replaying [], p⟩) (read upsert append fetch : CallEnv)
    (now : DateTime) :
    DispatchInv { d with
      hub := d.hub.step (.unregister read upsert append fetch n c now)
      links := Function.update d.links c none } := by
  obtain ⟨hlinks, hwork⟩ := unregister_links read upsert append fetch d.hub n c now
  have hchannels := (unregisterNode_rest d.hub n c).2
  refine ⟨h.toLinked.leave hc hlinks, fun row hrow hopen => ?_⟩
  simp only [hwork.dispatches] at hrow
  rcases h.covered row hrow hopen with hheld | hspared
  · exact .inl hheld
  refine .inr ?_
  cases hcur : (d.hub.unregisterNode n c).1.nodes row.nodeId with
  | none => exact .inl (by rw [hlinks.nodes, hcur])
  | some j =>
      obtain ⟨hj, hne⟩ := h.toLinked.slot hc hcur
      have hnow : (d.hub.step (.unregister read upsert append fetch n c now)).nodes row.nodeId =
          some j := by rw [hlinks.nodes, hcur]
      rcases hspared with hnone | ⟨i, hi, hm⟩ | ⟨i, l, hi, hl, ha⟩
      · rw [hj] at hnone
        cases hnone
      · obtain rfl := Option.some.inj (hj.symm.trans hi)
        exact .inr (.inl ⟨j, hnow, by simpa only [hlinks.channels, hchannels] using hm⟩)
      · obtain rfl := Option.some.inj (hj.symm.trans hi)
        exact .inr (.inr ⟨j, l, hnow, (Function.update_of_ne hne ..).trans hl, ha⟩)

/-- **One step of the hub, a handler or a link.** -/
theorem step (h : d.DispatchInv) {a : DispatchLabel} (hok : KeepsDispatches d a)
    (hs : d.step a = some d') : d'.DispatchInv := by
  have hself : ∀ row ∈ d.hub.hub.dispatches, row.ackedAt = none →
      ∃ old ∈ d.hub.hub.dispatches, old.ackedAt = none ∧ old.nodeId = row.nodeId ∧
        old.message = row.message := fun row hrow hopen => ⟨row, hrow, hopen, rfl, rfl⟩
  cases a with
  | submit env cmd reserved =>
      cases hs
      exact h.submit hok
  | route i =>
      simp only [Dispatching.step] at hs
      split at hs
      · next hi =>
          cases hs
          exact h.route hi
      · cases hs
  | abandon i =>
      simp only [Dispatching.step] at hs
      split at hs
      · cases hs
        exact h.abandon hok
      · cases hs
  | connect upsert append fetch hello now =>
      simp only [Dispatching.step] at hs
      split at hs
      · cases hs
        exact h.connect upsert append fetch hello now
      · cases hs
  | query c env =>
      simp only [Dispatching.step] at hs
      split at hs
      · next hc =>
          cases hs
          exact h.query hc hok
      · cases hs
  | replay c =>
      simp only [Dispatching.step] at hs
      split at hs
      · next hc =>
          cases hs
          exact h.replay hc
      · cases hs
  | deliver c =>
      simp only [Dispatching.step] at hs
      split at hs
      · next hc =>
          split at hs
          · cases hs
            exact h.deliver hc _ _
          · cases hs
      · cases hs
  | ack c env commandId =>
      simp only [Dispatching.step] at hs
      split at hs
      · next n p hc =>
          split at hs
          · cases hs
            obtain ⟨hlinks, hhub | hhub⟩ := commandAck_links env d.hub n commandId
            · exact h.loop (n := n) (m := .heartbeat) (.inl hlinks) (hhub ▸ hself)
            · refine h.loop (n := n) (m := .heartbeat) (.inl hlinks) (fun row hrow hopen => ?_)
              rw [hhub] at hrow
              exact open_of_acked hrow hopen
          · cases hs
      · cases hs
  | event c validate append fetch id draft =>
      simp only [Dispatching.step] at hs
      split at hs
      · next n p hc =>
          cases hs
          obtain ⟨hlinks, hwork⟩ := nodeEvent_links validate append fetch d.hub n id draft
          exact h.loop hlinks (hwork.dispatches ▸ hself)
      · cases hs
  | leave c read upsert append fetch now =>
      simp only [Dispatching.step] at hs
      split at hs
      · next hc =>
          cases hs
          exact h.leave hc read upsert append fetch now
      · cases hs
  | registerWorker env channel t =>
      cases hs
      obtain ⟨hlinks, hwork⟩ := registerWorker_links env d.hub channel t
      exact h.loop (n := ⟨channel⟩) (m := .heartbeat) (.inl hlinks) (hwork.dispatches ▸ hself)
  | restart =>
      cases hs
      refine ⟨⟨fun n c hcur => ?_, fun _ _ => rfl⟩, fun _ _ _ => .inr (.inl rfl)⟩
      cases hcur

theorem init (hi : system.init d) : d.DispatchInv := by
  obtain ⟨⟨refusal, nodeSecret, clientSecret, hhub⟩, -, hlinks, -⟩ := hi
  refine ⟨⟨fun n c hcur => ?_, fun c _ => by rw [hlinks]⟩, fun row _ _ => .inr (.inl ?_)⟩
  · rw [hhub] at hcur
    cases hcur
  · rw [hhub]
    rfl

/-- With every handler done, what is covered is on the link. -/
theorem noStranded (h : d.DispatchInv) : NoStranded d := by
  rintro ⟨hnone, hdone⟩ row hrow hopen hcon
  rcases h.covered row hrow hopen with hheld | hn | hq | ⟨c, l, -, hl, ha⟩
  · rw [hnone] at hheld
    cases hheld
  · exact absurd hn hcon
  · exact hq
  · rw [hdone c l hl] at ha
    cases ha

end DispatchInv

end Dispatching

/-! ## The dispatch contract -/

/-- **No dispatch is stranded** in a run that drops nothing its node would miss. -/
theorem no_dispatch_stranded {d : Dispatching}
    (hr : Dispatching.system.Reach KeepsDispatches d) : NoStranded d :=
  (System.Reach.invariant (P := Dispatching.DispatchInv) (fun _ hi => .init hi)
    (fun _ _ _ h hok hs => h.step hok hs) hr).noStranded

/-- A fresh hub without handlers. -/
def freshDispatching : Dispatching := ⟨freshHub, [], fun _ => none, fun _ => []⟩

theorem freshDispatching_init : Dispatching.system.init freshDispatching :=
  ⟨fresh_init, rfl, rfl, rfl⟩

/-- The node `name` dials in, able to run Claude. -/
def dialIn (name : String) : DispatchLabel :=
  .connect (plainCall 1) (plainCall 2) (plainCall 3)
    ⟨⟨name⟩, "", "0.1.0", wireProtocolVersion,
      .object [("engines", .array [.string "claude"])], none⟩ .epoch

/-- A client's `StartRun` for a Claude run, minting `u`. -/
def startClaude (u task : ℕ) : DispatchLabel :=
  .submit (plainCommand u)
    (.startRun ⟨BitVec.ofNat 128 u⟩ ⟨BitVec.ofNat 128 task⟩ none "claude" none none none
      .supervised none) none

set_option maxRecDepth 4096 in
/-- A run is started on a connected node and its work routed. -/
theorem no_dispatch_stranded_sample :
    ∃ d, Dispatching.system.run freshDispatching [dialIn "n", .query 1 (plainCall 4),
      startClaude 10 7, .route 0] = some d ∧ NoStranded d := by
  have hstart : Dispatching.system.Reach KeepsDispatches freshDispatching :=
    .start freshDispatching_init
  have hconnected := hstart.next (a := dialIn "n") trivial rfl
  have hread := hconnected.next (a := DispatchLabel.query 1 (plainCall 4)) (by
    rintro l - - - row hrow
    cases hrow) rfl
  have hstarted := hread.next (a := startClaude 10 7) (by
    rintro plan k m ⟨-, hplan, -⟩ hunread
    cases hplan
    exact absurd ⟨rfl, by decide, by decide⟩ hunread) rfl
  have hrouted := hstarted.next (a := DispatchLabel.route 0) trivial rfl
  exact ⟨_, rfl, no_dispatch_stranded hrouted⟩

set_option maxRecDepth 4096 in
/-- The client leaves before its `StartRun` is routed: the node stays connected
and its work stays off the link. -/
theorem dropped_before_routing :
    ¬ ∀ d, Dispatching.system.Reach Anyway d → NoStranded d := by
  intro hall
  have hrun : ∃ d, Dispatching.system.run freshDispatching [dialIn "n", .query 1 (plainCall 4),
      startClaude 10 7, .abandon 0] = some d ∧ d.handlers = [] ∧
      (∀ c l, d.links c = some l → l.start = .replaying []) ∧
      d.hub.nodes ⟨"n"⟩ = some 1 ∧ d.hub.channels 1 = [] ∧
      ∃ row, d.hub.hub.dispatches = [row] ∧ row.nodeId = ⟨"n"⟩ ∧ row.ackedAt = none := by
    refine ⟨_, rfl, rfl, ?_, rfl, rfl, _, rfl, rfl, rfl⟩
    intro c l hl
    have hlinks : (Function.update (Function.update (fun _ => none) 1
        (some ⟨⟨"n"⟩, .unread, 0⟩)) 1 (some ⟨⟨"n"⟩, .replaying [], 0⟩) : ℕ → Option NodeLink) c =
          some l := hl
    by_cases hc : c = 1
    · subst hc
      cases hlinks
      rfl
    · rw [Function.update_of_ne hc, Function.update_of_ne hc] at hlinks
      cases hlinks
  obtain ⟨d, hrun, hnone, hdone, hcur, hempty, row, hrows, hnode, hopen⟩ := hrun
  have hreach := System.Reach.of_run (.start freshDispatching_init) hrun
  obtain ⟨c, hc, hm⟩ := hall d hreach ⟨hnone, hdone⟩ row (by rw [hrows]; simp) hopen
    (by rw [hnode, hcur]; simp)
  rw [hnode, hcur] at hc
  obtain rfl := Option.some.inj hc
  rw [hempty] at hm
  cases hm

end Stackhour.Hub
