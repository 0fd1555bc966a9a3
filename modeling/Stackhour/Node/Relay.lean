import Stackhour.Hub.Links
import Stackhour.Node.Outbox

/-!
# From the node to the log

One life of a node process beside a running hub. The node keeps an event until
the hub acknowledges it and sends it again on every link and heartbeat; the hub
acknowledges what it refuses or has in its log. Whatever is lost or repeated in
between, an event is pending, logged or refused, and is logged once.
-/

namespace Stackhour.Node

open Domain Hub TransitionSystem HubState

/-! ## The parties -/

/-- One link of the node. `up` is what its writer has queued and the hub has yet
to read, `down` what the hub has sent of the channel of its handler's
connection and the node has yet to read. Nothing goes up a closed link. -/
structure Wire where
  connection : Option ℕ
  sent : ℕ
  up : List NodeToHub
  down : List HubToNode
  closed : Bool

def Wire.fresh : Wire := ⟨none, 0, [], [], false⟩

/-- The link drops, or the hub's handler ends: what is under way to the hub is
lost. -/
def Wire.close (w : Wire) : Wire := { w with up := [], closed := true }

/-- `writers` are the tasks of the node that have yet to write messages to a
link; `emitted` and `rejected` record what the engine emitted, and what the hub
refused. -/
structure Relay where
  hub : HubState
  nodeId : NodeId
  outbox : OutboxState
  writers : List (ℕ × List NodeToHub)
  wires : ℕ → Wire
  emitted : List (EventId × EventDraft)
  rejected : List EventId

/-- `hub` and `route` are everything else that happens on the hub. -/
inductive RelayLabel where
  | hub (a : HubLabel)
  | route (n : NodeId) (m : HubToNode)
  | emit (eventId : EventId) (draft : EventDraft)
  | ackCommand (commandId : CommandId)
  | attach (w : ℕ)
  | detach
  | resend
  | write (i : ℕ)
  | stop (i : ℕ)
  | accept (w : ℕ) (upsert append fetch : CallEnv) (hello : NodeHello) (now : DateTime)
  | read (w : ℕ) (validate append fetch : CallEnv)
  | send (w : ℕ)
  | hear (w : ℕ)
  | cut (w : ℕ)
  | leave (w : ℕ) (read upsert append fetch : CallEnv) (now : DateTime)

namespace Relay

def setWire (d : Relay) (w : ℕ) (wire : Wire) : Relay :=
  { d with wires := Function.update d.wires w wire }

/-- A step of the hub, and what it refuses. -/
def hubStep (d : Relay) (a : HubLabel) : Relay :=
  { d with hub := d.hub.step a, rejected := d.rejected ++ d.hub.rejection a }

/-- What the hub's handler does with a message of its node. -/
def handle (d : Relay) (validate append fetch : CallEnv) : NodeToHub → Relay
  | .nodeEvent id draft => d.hubStep (.nodeEvent validate append fetch d.nodeId id draft)
  | .commandAck c => d.hubStep (.commandAck append d.nodeId c)
  | .heartbeat => d

/-- What the node's receive loop does to the outbox. The work of a dispatch and
the events it leads to are steps of their own. -/
def receive (d : Relay) : HubToNode → Relay
  | .eventAck id => { d with outbox := d.outbox.acknowledgeEvent id }
  | _ => d

def step (d : Relay) : RelayLabel → Option Relay
  -- the handlers and their channels go with the hub's process
  | .hub .restart =>
      some { d.hubStep .restart with
        wires := fun w => { (d.wires w).close with connection := none } }
  | .hub a => some (d.hubStep a)
  -- acknowledgements come from the handlers only
  | .route _ (.eventAck _) => none
  | .route n m => some { d with hub := d.hub.routeToNode n m }
  | .emit id draft =>
      some { d with
        outbox := (d.outbox.emitDraft id draft).1
        writers := d.writers ++ (d.outbox.emitDraft id draft).2.toList
        emitted := d.emitted ++ [(id, draft)] }
  | .ackCommand c => some { d with writers := d.writers ++ (d.outbox.ack c).toList }
  | .attach w =>
      some { d with
        outbox := (d.outbox.attach w).1
        writers := d.writers ++ [(w, (d.outbox.attach w).2)] }
  | .detach => some { d with outbox := d.outbox.detach }
  | .resend => some { d with writers := d.writers ++ d.outbox.resendPending.toList }
  | .write i =>
      match d.writers[i]? with
      | some (w, m :: rest) =>
          let d := { d with writers := d.writers.set i (w, rest) }
          if (d.wires w).closed then some d
          else some (d.setWire w { d.wires w with up := (d.wires w).up ++ [m] })
      | _ => none
  | .stop i => some { d with writers := d.writers.eraseIdx i }
  | .accept w upsert append fetch hello now =>
      if (d.wires w).connection = none ∧ (d.wires w).closed = false ∧ hello.nodeId = d.nodeId ∧
          (d.hub.negotiateNode hello).accepted then
        some ((d.hubStep (.register upsert append fetch hello now)).setWire w
          { d.wires w with connection := some d.hub.nextNodeConnectionId, sent := 0 })
      else none
  | .read w validate append fetch =>
      match (d.wires w).connection, (d.wires w).up with
      | some _, m :: up =>
          some ((d.setWire w { d.wires w with up := up }).handle validate append fetch m)
      | _, _ => none
  | .send w =>
      match (d.wires w).connection with
      | none => none
      | some c =>
          match (d.hub.channels c)[(d.wires w).sent]? with
          | some m =>
              some (d.setWire w { d.wires w with
                sent := (d.wires w).sent + 1, down := (d.wires w).down ++ [m] })
          | none => none
  | .hear w =>
      match (d.wires w).down with
      | m :: down => some ((d.setWire w { d.wires w with down := down }).receive m)
      | [] => none
  | .cut w => some (d.setWire w (d.wires w).close)
  | .leave w read upsert append fetch now =>
      match (d.wires w).connection with
      | some c =>
          some ((d.hubStep (.unregister read upsert append fetch d.nodeId c now)).setWire w
            { (d.wires w).close with connection := none })
      | none => none

/-- A hub over a newly opened database, and a node that has just started. -/
def system : System Relay RelayLabel where
  init d := HubState.system.init d.hub ∧ d.outbox = .persistent ∧ d.writers = [] ∧
    d.wires = (fun _ => .fresh) ∧ d.emitted = [] ∧ d.rejected = []
  step := step

end Relay

/-! ## The contract -/

/-- In the log, or refused. -/
def Settled (d : Relay) (id : EventId) : Prop :=
  id ∈ d.hub.hub.events.map EventOf.eventId ∨ id ∈ d.rejected

/-- Every emitted event is pending, logged or refused, and no event id is logged
twice. -/
structure Conserved (d : Relay) : Prop where
  kept : ∀ e ∈ d.emitted, (e.1, .nodeEvent e.1 e.2) ∈ d.outbox.pendingEvents ∨ Settled d e.1
  once : ∀ id, (d.hub.hub.events.map EventOf.eventId).count id ≤ 1

/-- No event id is minted twice, by the node or the hub, or used by another node. -/
def MintsNew (d : Relay) : RelayLabel → Prop
  | .hub a => ∀ id ∈ a.eventIds, id ∉ d.emitted.map Prod.fst
  | .emit id _ => id ∉ d.emitted.map Prod.fst ∧ ¬ Settled d id
  | .accept _ _ append _ _ _ => (⟨append.uuid⟩ : EventId) ∉ d.emitted.map Prod.fst
  | .leave _ _ _ append _ _ => (⟨append.uuid⟩ : EventId) ∉ d.emitted.map Prod.fst
  | _ => True

/-- The log has the event the node emitted, and not another one of its id. -/
def LoggedAsEmitted (d : Relay) : Prop :=
  ∀ e ∈ d.emitted, (e.1, .nodeEvent e.1 e.2) ∈ d.outbox.pendingEvents ∨
    (∃ q now, Store.eventRow q e.1 none e.2 now ∈ d.hub.hub.events) ∨ e.1 ∈ d.rejected

/-! ## The invariant -/

/-- What the hub has acknowledged is settled; what is on its way to it was
emitted. -/
structure RelayInv (d : Relay) : Prop where
  log : EventLog d.hub.hub
  kept : ∀ e ∈ d.emitted, (e.1, .nodeEvent e.1 e.2) ∈ d.outbox.pendingEvents ∨ Settled d e.1
  channels : ∀ c id, .eventAck id ∈ d.hub.channels c → Settled d id
  down : ∀ w id, .eventAck id ∈ (d.wires w).down → Settled d id
  pending : ∀ p ∈ d.outbox.pendingEvents, ∃ e ∈ d.emitted, p = (e.1, .nodeEvent e.1 e.2)
  writers : ∀ p ∈ d.writers, ∀ id draft, .nodeEvent id draft ∈ p.2 → (id, draft) ∈ d.emitted
  up : ∀ w id draft, .nodeEvent id draft ∈ (d.wires w).up → (id, draft) ∈ d.emitted

namespace RelayInv

variable {d d' : Relay}

theorem settled_hubStep (a : HubLabel) {id : EventId} (h : Settled d id) :
    Settled (d.hubStep a) id := by
  rcases h with hlog | hrej
  · refine .inl ?_
    obtain heq | ⟨row, -, heq⟩ := step_log d.hub a
    · simpa only [Relay.hubStep, heq] using hlog
    · simp only [Relay.hubStep, heq, List.map_append]
      exact List.mem_append_left _ hlog
  · exact .inr (List.mem_append_left _ hrej)

/-- The hub acknowledges only what it has settled. -/
theorem hubStep (h : RelayInv d) (a : HubLabel) : RelayInv (d.hubStep a) where
  log := (step_performs d.hub a).eventLog h.log
  kept e he := (h.kept e he).imp_right (settled_hubStep a)
  channels c id hm := by
    rcases step_channels d.hub a hm with hold | ⟨id', heq, hrej | hlog⟩
    · exact settled_hubStep a (h.channels c id hold)
    · obtain rfl := HubToNode.eventAck.inj heq
      exact .inr (List.mem_append_right _ hrej)
    · obtain rfl := HubToNode.eventAck.inj heq
      exact .inl hlog
  down w id hm := settled_hubStep a (h.down w id hm)
  pending := h.pending
  writers := h.writers
  up := h.up

theorem setWire (h : RelayInv d) {w : ℕ} {wire : Wire}
    (hdown : ∀ id, .eventAck id ∈ wire.down → Settled d id)
    (hup : ∀ id draft, .nodeEvent id draft ∈ wire.up → (id, draft) ∈ d.emitted) :
    RelayInv (d.setWire w wire) where
  log := h.log
  kept := h.kept
  channels := h.channels
  down k id hm := by
    simp only [Relay.setWire] at hm
    by_cases hk : k = w
    · subst hk
      rw [Function.update_self] at hm
      exact hdown id hm
    · rw [Function.update_of_ne hk] at hm
      exact h.down k id hm
  pending := h.pending
  writers := h.writers
  up k id draft hm := by
    simp only [Relay.setWire] at hm
    by_cases hk : k = w
    · subst hk
      rw [Function.update_self] at hm
      exact hup id draft hm
    · rw [Function.update_of_ne hk] at hm
      exact h.up k id draft hm

theorem close (h : RelayInv d) (w : ℕ) (connection : Option ℕ) :
    RelayInv (d.setWire w { (d.wires w).close with connection := connection }) :=
  h.setWire (h.down w) (by intro id draft hm; cases hm)

/-- Other writers, of what was emitted. -/
theorem setWriters (h : RelayInv d) (writers : List (ℕ × List NodeToHub))
    (hw : ∀ p ∈ writers, ∀ id draft, .nodeEvent id draft ∈ p.2 → (id, draft) ∈ d.emitted) :
    RelayInv { d with writers := writers } :=
  ⟨h.log, h.kept, h.channels, h.down, h.pending, hw, h.up⟩

/-- Whatever is pending was emitted. -/
theorem emitted_of_pending (h : RelayInv d) {id : EventId} {draft : EventDraft}
    (hm : .nodeEvent id draft ∈ d.outbox.pendingEvents.map Prod.snd) : (id, draft) ∈ d.emitted := by
  obtain ⟨p, hp, hmsg⟩ := List.mem_map.mp hm
  obtain ⟨e, he, rfl⟩ := h.pending p hp
  obtain ⟨rfl, rfl⟩ := NodeToHub.nodeEvent.inj hmsg
  exact he

/-- An acknowledged event is settled, and may be forgotten. -/
theorem acknowledge (h : RelayInv d) {id : EventId} (hs : Settled d id) :
    RelayInv { d with outbox := d.outbox.acknowledgeEvent id } where
  log := h.log
  kept e he := by
    rcases h.kept e he with hp | hse
    · by_cases heq : e.1 = id
      · exact .inr (heq ▸ hs)
      · exact .inl (OutboxState.mem_acknowledgeEvent hp heq)
    · exact .inr hse
  channels := h.channels
  down := h.down
  pending p hp := h.pending p (OutboxState.mem_of_acknowledgeEvent hp)
  writers := h.writers
  up := h.up

theorem emit (h : RelayInv d) (id : EventId) (draft : EventDraft) :
    RelayInv { d with
      outbox := (d.outbox.emitDraft id draft).1
      writers := d.writers ++ (d.outbox.emitDraft id draft).2.toList
      emitted := d.emitted ++ [(id, draft)] } where
  log := h.log
  kept e he := by
    rcases List.mem_append.mp he with hold | hnew
    · exact (h.kept e hold).imp_left (fun hp => List.mem_append_left _ hp)
    · obtain rfl := List.mem_singleton.mp hnew
      exact .inl (List.mem_append_right _ (List.mem_singleton_self _))
  channels := h.channels
  down := h.down
  pending p hp := by
    rcases List.mem_append.mp hp with hold | hnew
    · obtain ⟨e, he, heq⟩ := h.pending p hold
      exact ⟨e, List.mem_append_left _ he, heq⟩
    · exact ⟨(id, draft), List.mem_append_right _ (List.mem_singleton_self _),
        List.mem_singleton.mp hnew⟩
  writers p hp i dr hm := by
    rcases List.mem_append.mp hp with hold | hnew
    · exact List.mem_append_left _ (h.writers p hold i dr hm)
    · obtain ⟨tx, -, rfl⟩ := Option.map_eq_some_iff.mp (Option.mem_toList.mp hnew)
      obtain ⟨rfl, rfl⟩ := NodeToHub.nodeEvent.inj (List.mem_singleton.mp hm)
      exact List.mem_append_right _ (List.mem_singleton_self _)
  up w i dr hm := List.mem_append_left _ (h.up w i dr hm)

theorem handle (h : RelayInv d) (validate append fetch : CallEnv) (m : NodeToHub) :
    RelayInv (d.handle validate append fetch m) := by
  cases m with
  | nodeEvent id draft => exact h.hubStep _
  | commandAck c => exact h.hubStep _
  | heartbeat => exact h

theorem receive (h : RelayInv d) {m : HubToNode} (hm : ∀ id, m = .eventAck id → Settled d id) :
    RelayInv (d.receive m) := by
  cases m with
  | eventAck id => exact h.acknowledge (hm id rfl)
  | _ => exact h

/-- **One step of the node, the hub or a link.** -/
theorem step (h : RelayInv d) {a : RelayLabel} (hs : d.step a = some d') : RelayInv d' := by
  cases a with
  | hub a =>
      by_cases hr : a = .restart
      · subst hr
        cases hs
        have hstep := h.hubStep .restart
        exact ⟨hstep.log, hstep.kept, hstep.channels, hstep.down, hstep.pending, hstep.writers,
          by intro w id draft hm; cases hm⟩
      · have heq : d.step (.hub a) = some (d.hubStep a) := by
          cases a <;> first | rfl | exact absurd rfl hr
        rw [heq] at hs
        cases hs
        exact h.hubStep a
  | route n m =>
      have hne : ∀ id, m ≠ .eventAck id := by
        rintro id rfl
        cases hs
      have heq : d.step (.route n m) = some { d with hub := d.hub.routeToNode n m } := by
        cases m <;> first | rfl | exact absurd rfl (hne _)
      rw [heq] at hs
      cases hs
      have hhub := (routeToNode_hub d.hub n m).1
      have hsettled : ∀ id, Settled d id →
          Settled { d with hub := d.hub.routeToNode n m } id := by
        intro id hs
        unfold Settled at hs ⊢
        rwa [hhub]
      refine ⟨by rw [hhub]; exact h.log, fun e he => (h.kept e he).imp_right (hsettled _),
        fun c id hm => hsettled id ?_, fun w id hm => hsettled id (h.down w id hm), h.pending,
        h.writers, h.up⟩
      rw [routeToNode_channels] at hm
      split at hm
      · rcases List.mem_append.mp hm with hold | hnew
        · exact h.channels c id hold
        · exact absurd (List.mem_singleton.mp hnew).symm (hne id)
      · exact h.channels c id hm
  | emit id draft =>
      cases hs
      exact h.emit id draft
  | ackCommand c =>
      cases hs
      refine h.setWriters _ fun p hp id draft hm => ?_
      rcases List.mem_append.mp hp with hold | hnew
      · exact h.writers p hold id draft hm
      · obtain ⟨tx, -, rfl⟩ := Option.map_eq_some_iff.mp (Option.mem_toList.mp hnew)
        cases List.mem_singleton.mp hm
  | attach w =>
      cases hs
      have hset := h.setWriters (d.writers ++ [(w, (d.outbox.attach w).2)])
        fun p hp id draft hm => by
          rcases List.mem_append.mp hp with hold | hnew
          · exact h.writers p hold id draft hm
          · obtain rfl := List.mem_singleton.mp hnew
            exact h.emitted_of_pending hm
      exact ⟨hset.log, hset.kept, hset.channels, hset.down, hset.pending, hset.writers, hset.up⟩
  | detach =>
      cases hs
      exact ⟨h.log, h.kept, h.channels, h.down, h.pending, h.writers, h.up⟩
  | resend =>
      cases hs
      refine h.setWriters _ fun p hp id draft hm => ?_
      rcases List.mem_append.mp hp with hold | hnew
      · exact h.writers p hold id draft hm
      · obtain ⟨tx, -, rfl⟩ := Option.map_eq_some_iff.mp (Option.mem_toList.mp hnew)
        exact h.emitted_of_pending hm
  | write i =>
      simp only [Relay.step] at hs
      split at hs
      · next w m rest hi =>
          have hsource := h.writers _ (List.mem_of_getElem? hi)
          have hset := h.setWriters (d.writers.set i (w, rest))
            fun p hp id draft hm => by
              rcases List.mem_or_eq_of_mem_set hp with hold | rfl
              · exact h.writers p hold id draft hm
              · exact hsource id draft (List.mem_cons_of_mem _ hm)
          split at hs <;> cases hs
          · exact hset
          · refine hset.setWire (h.down w) fun id draft hm => ?_
            rcases List.mem_append.mp hm with hold | hnew
            · exact h.up w id draft hold
            · exact hsource id draft (List.mem_singleton.mp hnew ▸ List.mem_cons_self ..)
      · cases hs
  | stop i =>
      cases hs
      exact h.setWriters _ fun p hp => h.writers p (List.mem_of_mem_eraseIdx hp)
  | accept w upsert append fetch hello now =>
      simp only [Relay.step] at hs
      split at hs
      · cases hs
        have hstep := h.hubStep (.register upsert append fetch hello now)
        exact hstep.setWire (hstep.down w) (h.up w)
      · cases hs
  | read w validate append fetch =>
      simp only [Relay.step] at hs
      split at hs
      · next m up hc hup =>
          cases hs
          have hset : RelayInv (d.setWire w { d.wires w with up := up }) :=
            h.setWire (h.down w) fun id draft hm =>
              h.up w id draft (hup ▸ List.mem_cons_of_mem _ hm)
          exact hset.handle validate append fetch m
      · cases hs
  | send w =>
      simp only [Relay.step] at hs
      split at hs
      · cases hs
      · next c hc =>
          split at hs
          · next m hm =>
              cases hs
              refine h.setWire (fun id hmem => ?_) (h.up w)
              rcases List.mem_append.mp hmem with hold | hnew
              · exact h.down w id hold
              · exact h.channels c id (List.mem_singleton.mp hnew ▸ List.mem_of_getElem? hm)
          · cases hs
  | hear w =>
      simp only [Relay.step] at hs
      split at hs
      · next m down hdown =>
          cases hs
          have hset : RelayInv (d.setWire w { d.wires w with down := down }) :=
            h.setWire (fun id hm => h.down w id (hdown ▸ List.mem_cons_of_mem _ hm)) (h.up w)
          exact hset.receive fun id hm => h.down w id (hdown ▸ hm ▸ List.mem_cons_self ..)
      · cases hs
  | cut w =>
      cases hs
      exact h.close w (d.wires w).connection
  | leave w read upsert append fetch now =>
      simp only [Relay.step] at hs
      split at hs
      · cases hs
        exact (h.hubStep _).close w none
      · cases hs

theorem init (hi : Relay.system.init d) : RelayInv d := by
  obtain ⟨hub, nodeId, outbox, writers, wires, emitted, rejected⟩ := d
  obtain ⟨hhub, rfl, rfl, rfl, rfl, rfl⟩ := hi
  have hchannels : hub.channels = fun _ => [] := by
    obtain ⟨refusal, nodeSecret, clientSecret, rfl⟩ := hhub
    rfl
  refine ⟨eventLog_init hhub, ?_, ?_, ?_, ?_, ?_, ?_⟩
  · intro e he
    cases he
  · intro c id hm
    rw [hchannels] at hm
    cases hm
  · intro w id hm
    cases hm
  · intro p hp
    cases hp
  · intro p hp
    cases hp
  · intro w id draft hm
    cases hm

theorem conserved (h : RelayInv d) : Conserved d where
  kept := h.kept
  once _ := List.nodup_iff_count_le_one.mp h.log.eventIds _

end RelayInv

/-! ## Ids that are new when minted -/

/-- The ids of the emitted events are apart, and the log's events of these ids
are the emitted ones. -/
structure MintedInv (d : Relay) : Prop extends RelayInv d where
  minted : (d.emitted.map Prod.fst).Nodup
  logged : ∀ e ∈ d.emitted, ∀ row ∈ d.hub.hub.events, row.eventId = e.1 →
    ∃ q now, row = Store.eventRow q e.1 none e.2 now

/-- A node's event is appended when it is accepted and its append commits. -/
theorem nodeEvent_commits (validate append fetch : CallEnv) (h : HubState) (n : NodeId)
    (id : EventId) (draft : EventDraft) :
    (((h.acceptsNodeEvent validate n draft).2 = .ok true → ¬ CommitsEvent append h.hub id draft) ∧
      (h.step (.nodeEvent validate append fetch n id draft)).hub.events = h.hub.events) ∨
    (((h.acceptsNodeEvent validate n draft).2 = .ok true ∧ CommitsEvent append h.hub id draft) ∧
      (h.step (.nodeEvent validate append fetch n id draft)).hub.events =
        h.hub.events ++ [h.hub.nodeEvent append id draft]) := by
  by_cases hboth : (h.acceptsNodeEvent validate n draft).2 = .ok true ∧
      CommitsEvent append h.hub id draft
  · exact .inr ⟨hboth, by rw [HubState.step, accepted_hub fetch hboth.1 hboth.2]; rfl⟩
  · refine .inl ⟨not_and.mp hboth, ?_⟩
    obtain heq | ⟨hacc, hc, -⟩ :=
      (handleNodeEvent_result validate append fetch h n id draft).1.hub_cases
    · rw [HubState.step, heq]
    · exact absurd ⟨hacc, hc⟩ hboth

namespace MintedInv

variable {d d' : Relay}

/-- Steps that emit nothing and append no event of the node, or the one it
emitted. -/
theorem extend (h : MintedInv d) (hr : RelayInv d') (he : d'.emitted = d.emitted)
    (hl : ∀ row ∈ d'.hub.hub.events, row ∈ d.hub.hub.events ∨
      row.eventId ∉ d.emitted.map Prod.fst ∨
        ∃ e ∈ d.emitted, ∃ q now, row = Store.eventRow q e.1 none e.2 now) : MintedInv d' where
  toRelayInv := hr
  minted := he ▸ h.minted
  logged e hmem row hrow hid := by
    rw [he] at hmem
    rcases hl row hrow with hold | hnew | ⟨e', hmem', q, now, rfl⟩
    · exact h.logged e hmem row hold hid
    · exact absurd (List.mem_map_of_mem hmem) (hid ▸ hnew)
    · obtain rfl := List.inj_on_of_nodup_map h.minted hmem' hmem hid
      exact ⟨q, now, rfl⟩

theorem same (h : MintedInv d) (hr : RelayInv d') (he : d'.emitted = d.emitted)
    (hl : d'.hub.hub.events = d.hub.hub.events) : MintedInv d' :=
  h.extend hr he (fun _ hrow => .inl (hl ▸ hrow))

theorem hubStep (h : MintedInv d) {a : HubLabel} (hr : RelayInv d') (he : d'.emitted = d.emitted)
    (hl : d'.hub.hub = (d.hub.step a).hub)
    (hnew : ∀ id ∈ a.eventIds, id ∉ d.emitted.map Prod.fst) : MintedInv d' := by
  refine h.extend hr he fun row hrow => ?_
  rw [hl] at hrow
  obtain heq | ⟨new, hid, heq⟩ := step_log d.hub a
  · exact .inl (heq ▸ hrow)
  · rw [heq, List.mem_append] at hrow
    rcases hrow with hold | hrow
    · exact .inl hold
    · obtain rfl := List.mem_singleton.mp hrow
      exact .inr (.inl (hnew _ hid))

theorem step (h : MintedInv d) {a : RelayLabel} (hok : MintsNew d a) (hs : d.step a = some d') :
    MintedInv d' := by
  have hr := h.toRelayInv.step hs
  cases a with
  | hub a =>
      by_cases hrestart : a = .restart
      · subst hrestart
        cases hs
        exact h.same hr rfl rfl
      · have heq : d.step (.hub a) = some (d.hubStep a) := by
          cases a <;> first | rfl | exact absurd rfl hrestart
        rw [heq] at hs
        cases hs
        exact h.hubStep hr rfl rfl hok
  | route n m =>
      have heq : d'.hub = d.hub.routeToNode n m ∧ d'.emitted = d.emitted := by
        cases m <;> cases hs <;> exact ⟨rfl, rfl⟩
      exact h.same hr heq.2 (by rw [heq.1, (routeToNode_hub ..).1])
  | emit id draft =>
      cases hs
      obtain ⟨hid, hsettled⟩ := hok
      refine ⟨hr, ?_, fun e he row hrow heq => ?_⟩
      · simp only [List.map_append, List.map_cons, List.map_nil]
        exact List.nodup_append.mpr ⟨h.minted, List.nodup_singleton _, by
          rintro x hx y hy rfl
          exact hid (List.mem_singleton.mp hy ▸ hx)⟩
      · rcases List.mem_append.mp he with hold | hnew
        · exact h.logged e hold row hrow heq
        · obtain rfl := List.mem_singleton.mp hnew
          obtain rfl : row.eventId = id := heq
          exact absurd (.inl (List.mem_map_of_mem hrow)) hsettled
  | write i =>
      simp only [Relay.step] at hs
      split at hs
      · split at hs <;> cases hs <;> exact h.same hr rfl rfl
      · cases hs
  | accept w upsert append fetch hello now =>
      simp only [Relay.step] at hs
      split at hs
      · cases hs
        refine h.hubStep (a := .register upsert append fetch hello now) hr rfl rfl fun id hid => ?_
        exact List.mem_singleton.mp hid ▸ hok
      · cases hs
  | read w validate append fetch =>
      simp only [Relay.step] at hs
      split at hs
      · next m up hc hup =>
          cases hs
          cases m with
          | nodeEvent id draft =>
              have hemitted : (id, draft) ∈ d.emitted :=
                h.up w id draft (hup ▸ List.mem_cons_self ..)
              refine h.extend hr rfl fun row hrow => ?_
              obtain ⟨-, heq⟩ | ⟨-, heq⟩ :=
                nodeEvent_commits validate append fetch d.hub d.nodeId id draft
              · exact .inl (heq ▸ hrow)
              · rcases List.mem_append.mp (heq ▸ hrow) with hold | hnew
                · exact .inl hold
                · exact .inr (.inr ⟨(id, draft), hemitted, _, _, List.mem_singleton.mp hnew⟩)
          | commandAck c =>
              refine h.hubStep (a := .commandAck append d.nodeId c) hr rfl rfl fun id hid => ?_
              cases hid
          | heartbeat => exact h.same hr rfl rfl
      · cases hs
  | send w =>
      simp only [Relay.step] at hs
      split at hs
      · cases hs
      · split at hs
        · cases hs
          exact h.same hr rfl rfl
        · cases hs
  | hear w =>
      simp only [Relay.step] at hs
      split at hs
      · next m down hdown =>
          cases hs
          cases m <;> exact h.same hr rfl rfl
      · cases hs
  | leave w read upsert append fetch now =>
      simp only [Relay.step] at hs
      split at hs
      · next c hc =>
          cases hs
          refine h.hubStep (a := .unregister read upsert append fetch d.nodeId c now) hr rfl rfl
            fun id hid => ?_
          exact List.mem_singleton.mp hid ▸ hok
      · cases hs
  | _ =>
      cases hs
      exact h.same hr rfl rfl

theorem init (hi : Relay.system.init d) : MintedInv d := by
  have hr := RelayInv.init hi
  obtain ⟨-, -, -, -, hemitted, -⟩ := hi
  refine ⟨hr, by simp [hemitted], fun e he => ?_⟩
  rw [hemitted] at he
  cases he

theorem loggedAsEmitted (h : MintedInv d) : LoggedAsEmitted d := by
  intro e he
  rcases h.kept e he with hp | hlog | hrej
  · exact .inl hp
  · obtain ⟨row, hrow, hid⟩ := List.mem_map.mp hlog
    obtain ⟨q, now, rfl⟩ := h.logged e he row hrow hid
    exact .inr (.inl ⟨q, now, hrow⟩)
  · exact .inr (.inr hrej)

end MintedInv

/-! ## The contract holds -/

/-- **Node events are neither lost nor duplicated**; and what is logged is what
was emitted, as far as ids are new when minted. -/
theorem node_events_conserved {d : Relay} (hr : Relay.system.Reach Anyway d) :
    Conserved d ∧ (Relay.system.Reach MintsNew d → LoggedAsEmitted d) := by
  refine ⟨?_, fun hnew => ?_⟩
  · exact (System.Reach.invariant (P := RelayInv) (fun _ hi => .init hi)
      (fun _ _ _ h _ hs => h.step hs) hr).conserved
  · exact (System.Reach.invariant (P := MintedInv) (fun _ hi => .init hi)
      (fun _ _ _ h hok hs => h.step hok hs) hnew).loggedAsEmitted

/-- A node `n` that has just started, beside a fresh hub. -/
def freshRelay : Relay :=
  ⟨freshHub, ⟨"n"⟩, .persistent, [], fun _ => .fresh, [], []⟩

theorem freshRelay_init : Relay.system.init freshRelay := ⟨fresh_init, rfl, rfl, rfl, rfl, rfl⟩

/-- The hub's handler takes the link, for a node able to run Claude, minting
`u`. -/
def accepting (w u : ℕ) : RelayLabel :=
  .accept w (plainCall u) (plainCall u) (plainCall u)
    ⟨⟨"n"⟩, "", "0.1.0", wireProtocolVersion,
      .object [("engines", .array [.string "claude"])], none⟩ .epoch

/-- The node emits `kind` for a run, as the event `u`. -/
def emitting (u : ℕ) (kind : EventKind) (task run : ℕ) : RelayLabel :=
  .emit ⟨BitVec.ofNat 128 u⟩
    ((EventDraft.new kind ⟨BitVec.ofNat 128 task⟩ ⟨"n"⟩ .epoch).withRun ⟨BitVec.ofNat 128 run⟩)

/-- The hub's handler reads a message and nothing fails. -/
def reading (w : ℕ) : RelayLabel := .read w (plainCall 5) (plainCall 6) (plainCall 7)

set_option maxRecDepth 4096 in
/-- A run's completion is emitted, logged and acknowledged. -/
theorem node_events_conserved_sample :
    ∃ d, Relay.system.run freshRelay [accepting 0 1, .attach 0, .hub (starting 10 7),
      emitting 20 .runCompleted 7 10, .write 1, reading 0] = some d ∧
      Conserved d ∧ LoggedAsEmitted d := by
  have hstart : Relay.system.Reach MintsNew freshRelay := .start freshRelay_init
  have haccepted := hstart.next (a := accepting 0 1) (by intro hid; cases hid) rfl
  have hattached := haccepted.next (a := RelayLabel.attach 0) trivial rfl
  have hstarted := hattached.next (a := RelayLabel.hub (starting 10 7)) (by
    intro id _ hid
    cases hid) rfl
  have hemitted := hstarted.next (a := emitting 20 .runCompleted 7 10) (by
    refine ⟨by decide, ?_⟩
    rintro (hlog | hrej)
    · exact absurd hlog (by decide)
    · cases hrej) rfl
  have hwritten := hemitted.next (a := RelayLabel.write 1) trivial rfl
  have hread := hwritten.next (a := reading 0) trivial rfl
  have hholds := node_events_conserved (hread.mono fun _ _ _ => trivial)
  exact ⟨_, rfl, hholds.1, hholds.2 hread⟩

end Stackhour.Node
