import Stackhour.Hub.System

/-!
# The hub's steps, seen from outside the store

What a step does to the log and the bus together, to the work on record, and to
the registry and the channels of the node connections.
-/

namespace Stackhour.Hub

open Domain TransitionSystem HubState

/-! ## The bus against the log -/

/-- Every append of the step that commits reads its event back, and so sends
it. -/
def Announces (h : HubState) : HubLabel → Prop
  | .command env cmd n =>
      ∀ plan, Records env h n cmd plan → ReadsBack env.append env.fetch plan.draft
  | .nodeEvent validate append fetch n id d =>
      (h.acceptsNodeEvent validate n d).2 = .ok true → CommitsEvent append h.hub id d →
        ReadsBack append fetch d
  | .register _ append fetch hello now => ReadsBack append fetch (connectedDraft hello now)
  | .unregister _ _ append fetch n _ now => ReadsBack append fetch (disconnectedDraft n now)
  | _ => True

/-- The event a step may append: minted by the hub, or sent by a node. -/
def HubLabel.eventIds : HubLabel → List EventId
  | .command env _ _ => [⟨env.append.uuid⟩]
  | .nodeEvent _ _ _ _ id _ => [id]
  | .register _ append _ _ _ => [⟨append.uuid⟩]
  | .unregister _ _ append _ _ _ _ => [⟨append.uuid⟩]
  | _ => []

/-- How a step moves the log and the bus. -/
inductive BusChange (h : HubState) (a : HubLabel) (h' : HubState) : Prop where
  | silent (events : h'.events = h.events) (log : h'.hub.events = h.hub.events)
  | sent (e : Event) (row : EventRow) (minted : row.eventId ∈ a.eventIds)
      (sequence : e.sequence = h.hub.maxSequence + 1)
      (events : h'.events = h.events ++ [e]) (log : h'.hub.events = h.hub.events ++ [row])
  | unsent (row : EventRow) (minted : row.eventId ∈ a.eventIds) (events : h'.events = h.events)
      (log : h'.hub.events = h.hub.events ++ [row]) (broken : ¬ Announces h a)

/-- The note that a node came or went. -/
theorem BusChange.of_note {h g : HubState} {a : HubLabel} (append fetch : CallEnv)
    (id : EventId) (d : EventDraft) (hg : g.hub.events = h.hub.events) (he : g.events = h.events)
    (hid : id ∈ a.eventIds) (ha : Announces h a → ReadsBack append fetch d) :
    BusChange h a (g.appendAndBroadcastNodeEvent append fetch id d).1 := by
  have hmax : g.hub.maxSequence = h.hub.maxSequence := by
    unfold Store.maxSequence
    rw [hg]
  obtain ⟨heq, -⟩ | ⟨-, -, heq⟩ | ⟨-, hb, heq⟩ := event_cases append fetch g id d
  · rw [heq]
    exact .silent he hg
  · rw [heq]
    exact .sent _ (g.hub.nodeEvent append id d) hid (congrArg (· + 1) hmax)
      (by rw [announcedEvent, he]) (by rw [announcedEvent, Store.nodeAppended, hg])
  · rw [heq]
    exact .unsent (g.hub.nodeEvent append id d) hid he (by rw [Store.nodeAppended, hg])
      (fun hall => hb (ha hall))

theorem step_bus (h : HubState) {a : HubLabel} (hne : a ≠ .restart) :
    BusChange h a (h.step a) := by
  cases a with
  | command env cmd n =>
      cases (applyCommandInner_result env h n cmd).1 with
      | unrecorded ap hub events dispatch => exact .silent events (by rw [HubState.step, hub])
      | announced plan ap recorded rb hub events dispatch =>
          exact .sent _ (h.hub.commandEvent env.append cmd.commandId plan.draft)
            (List.mem_singleton_self _) rfl events (by rw [HubState.step, hub]; rfl)
      | unread plan ap recorded unread hub events dispatch =>
          exact .unsent (h.hub.commandEvent env.append cmd.commandId plan.draft)
            (List.mem_singleton_self _) events (by rw [HubState.step, hub]; rfl)
            (fun hall => unread (hall plan recorded))
  | nodeEvent validate append fetch n id d =>
      cases (handleNodeEvent_result validate append fetch h n id d).1 with
      | unrecorded hub events => exact .silent events (by rw [HubState.step, hub])
      | announced accepted commits rb hub events =>
          exact .sent _ (h.hub.nodeEvent append id d) (List.mem_singleton_self _) rfl events
            (by rw [HubState.step, hub]; rfl)
      | unread accepted commits unread hub events =>
          exact .unsent (h.hub.nodeEvent append id d) (List.mem_singleton_self _) events
            (by rw [HubState.step, hub]; rfl)
            (fun hall => unread (hall accepted commits))
  | commandAck env n c =>
      simp only [HubState.step, HubState.acknowledgeDispatchFrom]
      split
      · next s b hop =>
          obtain ⟨-, rfl, -⟩ := Store.ackWhere_eq_ok.mp hop
          exact .silent rfl rfl
      · exact .silent rfl rfl
  | register upsert append fetch hello now =>
      simp only [HubState.step, onNodeConnected]
      refine BusChange.of_note append fetch _ _ ?_ ?_ (List.mem_singleton_self _) (fun hall => hall)
      · split
        · next hop =>
            obtain ⟨_, -, hs⟩ := Result.bind_eq_ok.mp hop
            obtain rfl := Result.pure_eq_ok.mp hs
            rfl
        · rfl
      · split <;> rfl
  | unregister read upsert append fetch n c now =>
      have hsame : (h.unregisterNode n c).1.hub = h.hub ∧
          (h.unregisterNode n c).1.events = h.events := by
        unfold unregisterNode
        split <;> exact ⟨rfl, rfl⟩
      simp only [HubState.step]
      split
      · next g heq =>
          obtain rfl : (h.unregisterNode n c).1 = g := by rw [heq]
          simp only [onNodeDisconnected]
          refine BusChange.of_note append fetch _ _ ?_ ?_ (List.mem_singleton_self _) (fun hall => hall)
          · rw [← hsame.1]
            split
            · split
              · next hop =>
                  obtain ⟨_, -, hs⟩ := Result.bind_eq_ok.mp hop
                  obtain rfl := Result.pure_eq_ok.mp hs
                  rfl
              · rfl
            · rfl
          · rw [← hsame.2]
            split
            · split <;> rfl
            · rfl
      · next g heq =>
          obtain rfl : (h.unregisterNode n c).1 = g := by rw [heq]
          exact .silent hsame.2 (by rw [hsame.1])
  | registerWorker env channel t =>
      simp only [HubState.step]
      split
      · next hop =>
          obtain ⟨_, -, hs⟩ := Result.bind_eq_ok.mp hop
          obtain rfl := Result.pure_eq_ok.mp hs
          exact .silent rfl rfl
      · exact .silent rfl rfl
  | restart => exact absurd rfl hne

/-- A step appends at most the event it is about. -/
theorem step_log (h : HubState) (a : HubLabel) :
    (h.step a).hub.events = h.hub.events ∨
      ∃ row, row.eventId ∈ a.eventIds ∧ (h.step a).hub.events = h.hub.events ++ [row] := by
  by_cases hne : a = .restart
  · subst hne
    exact .inl rfl
  · cases step_bus h hne with
    | silent events log => exact .inl log
    | sent e row minted sequence events log => exact .inr ⟨row, minted, log⟩
    | unsent row minted events log broken => exact .inr ⟨row, minted, log⟩

/-! ## The work on record -/

/-- No work is recorded: the log grows by a node's event at most. -/
structure KeepsWork (s s' : Store) : Prop where
  dispatches : s'.dispatches = s.dispatches
  events : s'.events = s.events ∨
    ∃ row : EventRow, row.commandId = none ∧ s'.events = s.events ++ [row]
  bindings : bindings s' = bindings s

theorem KeepsWork.refl (s : Store) : KeepsWork s s := ⟨rfl, .inl rfl, rfl⟩

theorem KeepsWork.nodeAppended (append : CallEnv) (s : Store) (id : EventId) (d : EventDraft) :
    KeepsWork s (s.nodeAppended append id d) := by
  refine ⟨?_, .inr ⟨s.nodeEvent append id d, rfl, rfl⟩, bindings_nodeAppended append s id d⟩
  unfold Store.nodeAppended Store.terminalStatuses
  split <;> rfl

/-- A node's row may be written first. -/
theorem KeepsWork.after_upsert {env : CallEnv} {s t u : Store} {node : Node}
    (hop : s.upsertNode env node = .ok t) (h : KeepsWork t u) : KeepsWork s u := by
  obtain ⟨_, -, hs⟩ := Result.bind_eq_ok.mp hop
  obtain rfl := Result.pure_eq_ok.mp hs
  exact ⟨h.dispatches, h.events, h.bindings⟩

/-! ## Registry and channels -/

namespace HubState

theorem routeToNode_nodes (h : HubState) (n : NodeId) (m : HubToNode) :
    (h.routeToNode n m).nodes = h.nodes ∧
      (h.routeToNode n m).nextNodeConnectionId = h.nextNodeConnectionId := by
  unfold routeToNode
  split <;> exact ⟨rfl, rfl⟩

theorem routeToNode_channels (h : HubState) (n : NodeId) (m : HubToNode) (c : ℕ) :
    (h.routeToNode n m).channels c =
      if h.nodes n = some c then h.channels c ++ [m] else h.channels c := by
  unfold routeToNode
  split
  · next hn => rw [hn, if_neg (by simp)]
  · next c' hn =>
      rw [hn]
      by_cases hc : c' = c
      · subst hc
        simp
      · rw [if_neg (by simpa using hc)]
        exact Function.update_of_ne (Ne.symm hc) _ _

theorem mem_routeToNode {h : HubState} {n : NodeId} {m x : HubToNode} {c : ℕ}
    (hx : x ∈ h.channels c) : x ∈ (h.routeToNode n m).channels c := by
  rw [routeToNode_channels]
  split
  · exact List.mem_append_left _ hx
  · exact hx

/-- The note of a node's arrival or departure, or an event it reported. -/
theorem event_links (append fetch : CallEnv) (h : HubState) (id : EventId) (d : EventDraft) :
    SameLinks h (h.appendAndBroadcastNodeEvent append fetch id d).1 ∧
      KeepsWork h.hub (h.appendAndBroadcastNodeEvent append fetch id d).1.hub := by
  obtain ⟨heq, -⟩ | ⟨-, -, heq⟩ | ⟨-, -, heq⟩ := event_cases append fetch h id d
  · rw [heq]
    exact ⟨⟨rfl, rfl, rfl⟩, .refl h.hub⟩
  · rw [heq]
    exact ⟨⟨rfl, rfl, rfl⟩, .nodeAppended append h.hub id d⟩
  · rw [heq]
    exact ⟨⟨rfl, rfl, rfl⟩, .nodeAppended append h.hub id d⟩

theorem nodeEvent_links (validate append fetch : CallEnv) (h : HubState) (n : NodeId)
    (id : EventId) (d : EventDraft) :
    (SameLinks h (h.step (.nodeEvent validate append fetch n id d)) ∨
      SameLinks (h.routeToNode n (.eventAck id))
        (h.step (.nodeEvent validate append fetch n id d))) ∧
    KeepsWork h.hub (h.step (.nodeEvent validate append fetch n id d)).hub := by
  obtain ⟨rt, hrt⟩ := acceptsNodeEvent_fst validate h n d
  have hroute : ∀ g : HubState, SameLinks h g →
      SameLinks (h.routeToNode n (.eventAck id)) (g.routeToNode n (.eventAck id)) := by
    intro g hg
    refine ⟨?_, ?_, ?_⟩
    · rw [(routeToNode_nodes ..).1, (routeToNode_nodes ..).1, hg.nodes]
    · rw [(routeToNode_nodes ..).2, (routeToNode_nodes ..).2, hg.nextNodeConnectionId]
    · funext c
      rw [routeToNode_channels, routeToNode_channels, hg.nodes, hg.channels]
  simp only [HubState.step, handleNodeEvent]
  rw [← Prod.mk.eta (p := h.acceptsNodeEvent validate n d), hrt]
  have hcall := event_links append fetch { h with routing := rt } id d
  split
  · next heq =>
      obtain ⟨rfl, -⟩ := Prod.mk.inj heq
      refine ⟨.inr (hroute _ ⟨rfl, rfl, rfl⟩), ?_⟩
      rw [(routeToNode_hub _ _ _).1]
      exact .refl h.hub
  · next heq =>
      obtain ⟨rfl, -⟩ := Prod.mk.inj heq
      split
      · next hop =>
          rw [hop] at hcall
          refine ⟨.inr (hroute _ ⟨hcall.1.nodes, hcall.1.nextNodeConnectionId,
            hcall.1.channels⟩), ?_⟩
          rw [(routeToNode_hub _ _ _).1]
          exact hcall.2
      · next hop =>
          rw [hop] at hcall
          exact ⟨.inl ⟨hcall.1.nodes, hcall.1.nextNodeConnectionId, hcall.1.channels⟩, hcall.2⟩
  · next heq =>
      obtain ⟨rfl, -⟩ := Prod.mk.inj heq
      exact ⟨.inl ⟨rfl, rfl, rfl⟩, .refl h.hub⟩

theorem commandAck_links (env : CallEnv) (h : HubState) (n : NodeId) (c : CommandId) :
    SameLinks h (h.step (.commandAck env n c)) ∧
      ((h.step (.commandAck env n c)).hub = h.hub ∨
        (h.step (.commandAck env n c)).hub =
          h.hub.acked env (fun d => decide (d.commandId = c ∧ d.nodeId = n))) := by
  simp only [HubState.step, HubState.acknowledgeDispatchFrom]
  split
  · next s b hop =>
      obtain ⟨-, rfl, -⟩ := Store.ackWhere_eq_ok.mp hop
      exact ⟨⟨rfl, rfl, rfl⟩, .inr rfl⟩
  · exact ⟨⟨rfl, rfl, rfl⟩, .inl rfl⟩

/-- A new connection takes the node's slot. -/
theorem register_links (upsert append fetch : CallEnv) (h : HubState) (hello : NodeHello)
    (now : DateTime) :
    SameLinks (h.registerNode hello.nodeId).1
        (h.step (.register upsert append fetch hello now)) ∧
      KeepsWork h.hub (h.step (.register upsert append fetch hello now)).hub := by
  simp only [HubState.step, onNodeConnected]
  split
  · next hop =>
      obtain ⟨hlinks, hwork⟩ := event_links append fetch _ _ _
      exact ⟨⟨hlinks.nodes, hlinks.nextNodeConnectionId, hlinks.channels⟩, hwork.after_upsert hop⟩
  · exact event_links append fetch _ _ _

/-- A departure frees the slot of the connection that holds it. -/
theorem unregister_links (read upsert append fetch : CallEnv) (h : HubState) (n : NodeId)
    (c : ℕ) (now : DateTime) :
    SameLinks (h.unregisterNode n c).1
        (h.step (.unregister read upsert append fetch n c now)) ∧
      KeepsWork h.hub (h.step (.unregister read upsert append fetch n c now)).hub := by
  have hsame : (h.unregisterNode n c).1.hub = h.hub := by
    unfold unregisterNode
    split <;> rfl
  simp only [HubState.step]
  split
  · next g heq =>
      obtain rfl : (h.unregisterNode n c).1 = g := by rw [heq]
      rw [← hsame]
      simp only [onNodeDisconnected]
      split
      · split
        · next hop =>
            obtain ⟨hlinks, hwork⟩ := event_links append fetch _ _ _
            exact ⟨⟨hlinks.nodes, hlinks.nextNodeConnectionId, hlinks.channels⟩,
              hwork.after_upsert hop⟩
        · exact event_links append fetch _ _ _
      · exact event_links append fetch _ _ _
  · next g heq =>
      obtain rfl : (h.unregisterNode n c).1 = g := by rw [heq]
      rw [hsame]
      exact ⟨⟨rfl, rfl, rfl⟩, .refl h.hub⟩

theorem registerWorker_links (env : CallEnv) (h : HubState) (channel : String) (t : TaskId) :
    SameLinks h (h.step (.registerWorker env channel t)) ∧
      KeepsWork h.hub (h.step (.registerWorker env channel t)).hub := by
  simp only [HubState.step]
  split
  · next hop =>
      obtain ⟨_, -, hs⟩ := Result.bind_eq_ok.mp hop
      obtain rfl := Result.pure_eq_ok.mp hs
      exact ⟨⟨rfl, rfl, rfl⟩, ⟨rfl, .inl rfl, rfl⟩⟩
  · exact ⟨⟨rfl, rfl, rfl⟩, .refl h.hub⟩

/-- Only the slots of other connections are left. -/
theorem unregisterNode_nodes {h : HubState} {n k : NodeId} {c j : ℕ}
    (hj : (h.unregisterNode n c).1.nodes k = some j) :
    h.nodes k = some j ∧ (j = c → k ≠ n) := by
  unfold unregisterNode at hj
  split at hj
  · by_cases hk : k = n
    · subst hk
      simp at hj
    · simp only [Function.update_of_ne hk] at hj
      exact ⟨hj, fun _ => hk⟩
  · next hn =>
      refine ⟨hj, ?_⟩
      rintro rfl rfl
      exact hn hj

theorem unregisterNode_rest (h : HubState) (n : NodeId) (c : ℕ) :
    (h.unregisterNode n c).1.nextNodeConnectionId = h.nextNodeConnectionId ∧
      (h.unregisterNode n c).1.channels = h.channels := by
  unfold unregisterNode
  split <;> exact ⟨rfl, rfl⟩

/-! ## Acknowledgements of events -/

/-- The event that a step refuses. -/
def rejection (h : HubState) : HubLabel → List EventId
  | .nodeEvent validate _ _ n id d =>
      match (h.acceptsNodeEvent validate n d).2 with
      | .ok false => [id]
      | _ => []
  | _ => []

/-- An append that succeeds leaves its event in the log. -/
theorem event_settled {append fetch : CallEnv} {h : HubState} {id : EventId} {d : EventDraft}
    {o : AppendOutcome} (hok : (h.appendAndBroadcastNodeEvent append fetch id d).2 = .ok o) :
    id ∈ (h.appendAndBroadcastNodeEvent append fetch id d).1.hub.events.map EventOf.eventId := by
  have hbroadcast : ∀ (g : HubState) (o : AppendOutcome),
      (broadcast fetch g o).1.hub = g.hub := by
    intro g o
    unfold broadcast
    split
    · split <;> rfl
    · rfl
  unfold appendAndBroadcastNodeEvent at hok ⊢
  cases hop : h.hub.appendNodeEvent append id d with
  | error e =>
      rw [hop] at hok
      cases hok
  | ok r =>
      obtain ⟨s, o'⟩ := r
      simp only [hbroadcast]
      obtain ⟨-, ⟨row, hl, rfl, -⟩ | ⟨-, -, -, rfl, -⟩⟩ := Store.appendNodeEvent_eq_ok.mp hop
      · obtain ⟨hmem, rfl⟩ := Table.mem_of_lookup hl
        exact List.mem_map_of_mem hmem
      · rw [Store.nodeAppended, List.map_append]
        exact List.mem_append_right _ (List.mem_singleton_self _)

/-- A node's event is acknowledged when it is refused or in the log. -/
theorem nodeEvent_channels (validate append fetch : CallEnv) (h : HubState) (n : NodeId)
    (id : EventId) (d : EventDraft) {c : ℕ} {m : HubToNode}
    (hm : m ∈ (h.step (.nodeEvent validate append fetch n id d)).channels c) :
    m ∈ h.channels c ∨ (m = .eventAck id ∧
      (id ∈ h.rejection (.nodeEvent validate append fetch n id d) ∨
        id ∈ (h.step (.nodeEvent validate append fetch n id d)).hub.events.map
          EventOf.eventId)) := by
  obtain ⟨rt, hrt⟩ := acceptsNodeEvent_fst validate h n d
  have hroute : ∀ g : HubState, g.channels = h.channels →
      m ∈ (g.routeToNode n (.eventAck id)).channels c → m ∈ h.channels c ∨ m = .eventAck id := by
    intro g hg hm
    rw [routeToNode_channels, hg] at hm
    split at hm
    · exact (List.mem_append.mp hm).imp_right List.mem_singleton.mp
    · exact .inl hm
  simp only [HubState.step, handleNodeEvent] at hm ⊢
  rw [← Prod.mk.eta (p := h.acceptsNodeEvent validate n d), hrt] at hm ⊢
  have hcall := event_links append fetch { h with routing := rt } id d
  have hsettled := @event_settled append fetch { h with routing := rt } id d
  cases hverdict : (h.acceptsNodeEvent validate n d).2 with
  | error e =>
      rw [hverdict] at hm
      exact .inl hm
  | ok b =>
      rw [hverdict] at hm
      cases b with
      | false =>
          refine (hroute { h with routing := rt } rfl hm).imp_right fun heq => ⟨heq, .inl ?_⟩
          simp only [rejection, hverdict]
          exact List.mem_singleton_self id
      | true =>
          dsimp only at hm ⊢
          cases hop : ({ h with routing := rt } : HubState).appendAndBroadcastNodeEvent
              append fetch id d with
          | mk g r =>
              rw [hop] at hm hcall hsettled
              cases r with
              | error e =>
                  rw [hcall.1.channels] at hm
                  exact .inl hm
              | ok o =>
                  refine (hroute g hcall.1.channels hm).imp_right fun heq => ⟨heq, .inr ?_⟩
                  rw [(routeToNode_hub ..).1]
                  exact hsettled rfl

/-- A step adds to a channel nothing but the acknowledgement of an event that it
refuses or that is in the log. -/
theorem step_channels (h : HubState) (a : HubLabel) {c : ℕ} {m : HubToNode}
    (hm : m ∈ (h.step a).channels c) :
    m ∈ h.channels c ∨ ∃ id, m = .eventAck id ∧
      (id ∈ h.rejection a ∨ id ∈ (h.step a).hub.events.map EventOf.eventId) := by
  cases a with
  | command env cmd n =>
      rw [HubState.step, (applyCommandInner_result env h n cmd).2.channels] at hm
      exact .inl hm
  | nodeEvent validate append fetch n id d =>
      exact (nodeEvent_channels validate append fetch h n id d hm).imp_right
        fun hack => ⟨id, hack⟩
  | commandAck env n c =>
      rw [(commandAck_links env h n c).1.channels] at hm
      exact .inl hm
  | register upsert append fetch hello now =>
      rw [(register_links upsert append fetch h hello now).1.channels] at hm
      exact .inl hm
  | unregister read upsert append fetch n k now =>
      rw [(unregister_links read upsert append fetch h n k now).1.channels,
        (unregisterNode_rest h n k).2] at hm
      exact .inl hm
  | registerWorker env channel t =>
      rw [(registerWorker_links env h channel t).1.channels] at hm
      exact .inl hm
  | restart => cases hm

end HubState

end Stackhour.Hub
