import Stackhour.Node.Relay
import Stackhour.Lib.Precedence

/-!
# The order of node events

A node emits the events of a run one after another; several tasks write them to
the link, and the hub may fail to append one that is read. The log keeps the
order when no task writes an event ahead of an earlier one of its run, and no
event fails with a later one behind it on the link.
-/

namespace Stackhour.Node

open Domain Hub TransitionSystem HubState Precedence

/-! ## The contract and its condition -/

/-- Two events of one run, the first emitted before the second. -/
def EmittedBefore (d : Relay) (x y : EventId) : Prop :=
  ∃ (i j : ℕ) (a b : EventDraft), i < j ∧ d.emitted[i]? = some (x, a) ∧
    d.emitted[j]? = some (y, b) ∧ ∃ r, a.runId = some r ∧ b.runId = some r

/-- The log has the events of a run in the order in which they were emitted. -/
def EventsInOrder (d : Relay) : Prop :=
  ∀ x ∈ d.hub.hub.events, ∀ y ∈ d.hub.hub.events,
    EmittedBefore d x.eventId y.eventId → x.sequence < y.sequence

/-- The events queued on a link. -/
def Wire.eventIds (w : Wire) : List EventId := w.up.filterMap NodeToHub.eventId

/-- The hub neither logs nor refuses the event: its check or its append fails. -/
def Fails (d : Relay) (validate append : CallEnv) (id : EventId) (draft : EventDraft) : Prop :=
  ¬ Settled d id ∧ ((∃ e, (d.hub.acceptsNodeEvent validate d.nodeId draft).2 = .error e) ∨
    ((d.hub.acceptsNodeEvent validate d.nodeId draft).2 = .ok true ∧
      ¬ CommitsEvent append d.hub.hub id draft))

/-- Ids are new when minted; no task writes an event to an open link while an
earlier one of its run is neither settled nor ahead of it there; no event fails
with a later one of its run behind it; and none is accepted after it was refused
and a later one logged. -/
def KeepsEventOrder (d : Relay) (a : RelayLabel) : Prop :=
  MintsNew d a ∧
    match a with
    | .write i =>
        ∀ w id draft rest, d.writers[i]? = some (w, .nodeEvent id draft :: rest) →
          (d.wires w).closed = false → ∀ x, EmittedBefore d x id →
            x ∈ (d.wires w).eventIds ∨ Settled d x
    | .read w validate append _ =>
        ∀ id draft up, (d.wires w).up = .nodeEvent id draft :: up →
          (Fails d validate append id draft →
            ∀ y ∈ up.filterMap NodeToHub.eventId, ¬ EmittedBefore d id y) ∧
          (id ∈ d.rejected → (d.hub.acceptsNodeEvent validate d.nodeId draft).2 = .ok true →
            ∀ y ∈ d.hub.hub.events, ¬ EmittedBefore d id y.eventId)
    | _ => True

/-! ## The invariant -/

/-- Links queue the events of a run in order, and the log has them in order,
behind everything that was emitted before. -/
structure EventOrderInv (d : Relay) : Prop extends MintedInv d where
  queued : ∀ w, Preceded (EmittedBefore d) (Settled d) (d.wires w).eventIds
  behind : ∀ y ∈ d.hub.hub.events, ∀ x, EmittedBefore d x y.eventId → Settled d x
  ordered : d.hub.hub.events.Pairwise (fun y x => ¬ EmittedBefore d x.eventId y.eventId)

theorem EmittedBefore.emitted {d : Relay} {x y : EventId} (h : EmittedBefore d x y) :
    x ∈ d.emitted.map Prod.fst ∧ y ∈ d.emitted.map Prod.fst := by
  obtain ⟨i, j, a, b, -, hx, hy, -⟩ := h
  exact ⟨List.mem_map_of_mem (List.mem_of_getElem? hx),
    List.mem_map_of_mem (List.mem_of_getElem? hy)⟩

/-- An event is not emitted before itself. -/
theorem EmittedBefore.irrefl {d : Relay} (hd : (d.emitted.map Prod.fst).Nodup) {x : EventId} :
    ¬ EmittedBefore d x x := by
  rintro ⟨i, j, a, b, hlt, hx, hy, -⟩
  have hxi : (d.emitted.map Prod.fst)[i]? = some x := by rw [List.getElem?_map, hx, Option.map_some]
  have hyj : (d.emitted.map Prod.fst)[j]? = some x := by rw [List.getElem?_map, hy, Option.map_some]
  obtain ⟨hi, -⟩ := List.getElem?_eq_some_iff.mp hxi
  exact hlt.ne ((List.getElem?_inj hi hd).mp (hxi.trans hyj.symm))

/-- What is emitted next comes after everything else. -/
theorem EmittedBefore.of_emit {d d' : Relay} {id : EventId} {draft : EventDraft}
    (he : d'.emitted = d.emitted ++ [(id, draft)]) {x y : EventId} (h : EmittedBefore d' x y) :
    EmittedBefore d x y ∨ y = id := by
  obtain ⟨i, j, a, b, hlt, hx, hy, hrun⟩ := h
  rw [he] at hx hy
  by_cases hj : j < d.emitted.length
  · rw [List.getElem?_append_left hj] at hy
    rw [List.getElem?_append_left (by omega)] at hx
    exact .inl ⟨i, j, a, b, hlt, hx, hy, hrun⟩
  · rw [List.getElem?_append_right (by omega)] at hy
    obtain ⟨hlen, hget⟩ := List.getElem?_eq_some_iff.mp hy
    rw [List.getElem_singleton] at hget
    exact .inr (Prod.mk.inj hget).1.symm

theorem EmittedBefore.congr {d d' : Relay} (he : d'.emitted = d.emitted) {x y : EventId}
    (h : EmittedBefore d' x y) : EmittedBefore d x y := by
  unfold EmittedBefore at h ⊢
  rwa [he] at h

/-! ## One step -/

namespace EventOrderInv

variable {d d' : Relay}

/-- Steps that log no event of the node. -/
theorem advance (h : EventOrderInv d) (hm : MintedInv d') (he : d'.emitted = d.emitted)
    (hs : ∀ x, Settled d x → Settled d' x)
    (hw : ∀ w, (d'.wires w).eventIds = (d.wires w).eventIds ∨ (d'.wires w).eventIds = [])
    (hl : d'.hub.hub.events = d.hub.hub.events ∨
      ∃ row, row.eventId ∉ d.emitted.map Prod.fst ∧
        d'.hub.hub.events = d.hub.hub.events ++ [row]) : EventOrderInv d' := by
  have hold : ∀ w, Preceded (EmittedBefore d') (Settled d') (d'.wires w).eventIds := by
    intro w
    obtain heq | heq := hw w
    · rw [heq]
      exact (h.queued w).mono (fun _ _ _ hx => hx.congr he) hs
    · rw [heq]
      exact .nil
  obtain heq | ⟨row, hrow, heq⟩ := hl
  · refine ⟨hm, hold, fun y hy x hx => ?_, ?_⟩
    · exact hs x (h.behind y (heq ▸ hy) x (hx.congr he))
    · rw [heq]
      exact h.ordered.imp fun hno hx => hno (hx.congr he)
  · refine ⟨hm, hold, fun y hy x hx => ?_, ?_⟩
    · rw [heq, List.mem_append] at hy
      rcases hy with hy | hy
      · exact hs x (h.behind y hy x (hx.congr he))
      · obtain rfl := List.mem_singleton.mp hy
        exact absurd (hx.congr he).emitted.2 hrow
    · rw [heq, List.pairwise_append]
      refine ⟨h.ordered.imp fun hno hx => hno (hx.congr he), List.pairwise_singleton .., ?_⟩
      intro y _ x hx hbefore
      obtain rfl := List.mem_singleton.mp hx
      exact hrow (hbefore.congr he).emitted.1

theorem hubStep (h : EventOrderInv d) {a : HubLabel} (hm : MintedInv d')
    (he : d'.emitted = d.emitted) (hl : d'.hub.hub = (d.hub.step a).hub)
    (hr : d'.rejected = d.rejected ++ d.hub.rejection a)
    (hw : ∀ w, (d'.wires w).eventIds = (d.wires w).eventIds ∨ (d'.wires w).eventIds = [])
    (hnew : ∀ id ∈ a.eventIds, id ∉ d.emitted.map Prod.fst) : EventOrderInv d' := by
  refine h.advance hm he (fun x hx => ?_) hw ?_
  · have := RelayInv.settled_hubStep a hx
    unfold Settled at this ⊢
    rwa [hl, hr]
  · rw [hl]
    obtain heq | ⟨row, hid, heq⟩ := step_log d.hub a
    · exact .inl heq
    · exact .inr ⟨row, hnew _ hid, heq⟩

/-- Changing one link's queue. -/
theorem setWire_cases (d : Relay) (w : ℕ) (wire : Wire) (k : ℕ) :
    ((d.setWire w wire).wires k = wire ∧ k = w) ∨ (d.setWire w wire).wires k = d.wires k := by
  by_cases hk : k = w
  · subst hk
    exact .inl ⟨Function.update_self .., rfl⟩
  · exact .inr (Function.update_of_ne hk ..)

theorem emit (h : EventOrderInv d) {id : EventId} {draft : EventDraft}
    (hok : MintsNew d (.emit id draft)) (hm : MintedInv d')
    (hs : d.step (.emit id draft) = some d') : EventOrderInv d' := by
  cases hs
  obtain ⟨hid, hsettled⟩ := hok
  have hold : ∀ {x y}, y ≠ id → EmittedBefore { d with
      outbox := (d.outbox.emitDraft id draft).1
      writers := d.writers ++ (d.outbox.emitDraft id draft).2.toList
      emitted := d.emitted ++ [(id, draft)] } x y → EmittedBefore d x y := by
    intro x y hne hx
    exact (EmittedBefore.of_emit (rfl : _ = d.emitted ++ [(id, draft)]) hx).resolve_right hne
  have hlogged : ∀ y ∈ d.hub.hub.events, y.eventId ≠ id := by
    rintro y hy rfl
    exact hsettled (.inl (List.mem_map_of_mem hy))
  refine ⟨hm, fun w => ?_, fun y hy x hx => ?_, ?_⟩
  · refine (h.queued w).mono (fun y hy x hx => hold ?_ hx) (fun _ hx => hx)
    rintro rfl
    obtain ⟨m, hmem, hmid⟩ := List.mem_filterMap.mp hy
    cases m with
    | nodeEvent i dr =>
        obtain rfl := Option.some.inj hmid
        exact hid (List.mem_map_of_mem (h.up w i dr hmem))
    | commandAck c => cases hmid
    | heartbeat => cases hmid
  · exact h.behind y hy x (hold (hlogged y hy) hx)
  · refine h.ordered.imp_of_mem fun {y x} hy hx hno hbefore => ?_
    exact hno (hold (hlogged y hy) hbefore)

/-- A task writes an event behind the earlier ones of its run. -/
theorem write (h : EventOrderInv d) {i : ℕ} (hok : KeepsEventOrder d (.write i))
    (hm : MintedInv d') (hs : d.step (.write i) = some d') : EventOrderInv d' := by
  simp only [Relay.step] at hs
  split at hs
  · next w m rest hi =>
      split at hs
      · cases hs
        exact h.advance hm rfl (fun _ hx => hx) (fun _ => .inl rfl) (.inl rfl)
      · next hopen =>
          cases hs
          refine ⟨hm, fun k => ?_, h.behind, h.ordered⟩
          obtain ⟨hk, rfl⟩ | hk := setWire_cases
            { d with writers := d.writers.set i (w, rest) } w
            { d.wires w with up := (d.wires w).up ++ [m] } k
          · rw [hk]
            unfold Wire.eventIds
            rw [List.filterMap_append]
            cases m with
            | nodeEvent id draft =>
                exact (h.queued k).snoc (hok.2 k id draft rest hi (Bool.not_eq_true _ ▸ hopen))
            | commandAck c =>
                rw [show List.filterMap NodeToHub.eventId [.commandAck c] = [] from rfl,
                  List.append_nil]
                exact h.queued k
            | heartbeat =>
                rw [show List.filterMap NodeToHub.eventId [.heartbeat] = [] from rfl,
                  List.append_nil]
                exact h.queued k
          · rw [hk]
            exact h.queued k
  · cases hs

/-- What the hub reads is settled afterwards, or fails. -/
theorem read_settles (d : Relay) (validate append fetch : CallEnv) (id : EventId)
    (draft : EventDraft) :
    Settled (d.hubStep (.nodeEvent validate append fetch d.nodeId id draft)) id ∨
      Fails d validate append id draft := by
  by_cases hs : Settled d id
  · exact .inl (RelayInv.settled_hubStep _ hs)
  cases hverdict : (d.hub.acceptsNodeEvent validate d.nodeId draft).2 with
  | error e => exact .inr ⟨hs, .inl ⟨e, hverdict⟩⟩
  | ok b =>
      cases b with
      | false =>
          refine .inl (.inr (List.mem_append_right _ ?_))
          simp only [rejection, hverdict]
          exact List.mem_singleton_self id
      | true =>
          by_cases hc : CommitsEvent append d.hub.hub id draft
          · refine .inl (.inl ?_)
            obtain ⟨hno, -⟩ | ⟨hc', heq⟩ := nodeEvent_commits validate append fetch d.hub
              d.nodeId id draft
            · exact absurd hc (hno hverdict)
            · simp only [Relay.hubStep, heq, List.map_append]
              exact List.mem_append_right _ (List.mem_singleton_self id)
          · exact .inr ⟨hs, .inr ⟨hverdict, hc⟩⟩

/-- The hub reads an event. -/
theorem readEvent (h : EventOrderInv d) {w : ℕ} {validate append fetch : CallEnv} {id : EventId}
    {draft : EventDraft} {up : List NodeToHub} (hup : (d.wires w).up = .nodeEvent id draft :: up)
    (hok : KeepsEventOrder d (.read w validate append fetch))
    (hm : MintedInv ((d.setWire w { d.wires w with up := up }).hubStep
      (.nodeEvent validate append fetch d.nodeId id draft))) :
    EventOrderInv ((d.setWire w { d.wires w with up := up }).hubStep
      (.nodeEvent validate append fetch d.nodeId id draft)) := by
  obtain ⟨hfails, hrevived⟩ := hok.2 id draft up hup
  have hids : (d.wires w).eventIds = id :: up.filterMap NodeToHub.eventId := by
    unfold Wire.eventIds
    rw [hup]
    rfl
  have hqueue := h.queued w
  rw [hids] at hqueue
  -- what was emitted before it is settled
  have hearlier : ∀ x, EmittedBefore d x id → Settled d x := by
    intro x hx
    rcases hqueue [] id _ rfl x hx with hnone | hs
    · cases hnone
    · exact hs
  have hmono : ∀ x, Settled d x → Settled ((d.setWire w { d.wires w with up := up }).hubStep
      (.nodeEvent validate append fetch d.nodeId id draft)) x :=
    fun x hx => RelayInv.settled_hubStep (d := d) _ hx
  refine ⟨hm, fun k => ?_, ?_, ?_⟩
  · obtain ⟨hk, rfl⟩ | hk := setWire_cases d w { d.wires w with up := up } k
    · simp only [Relay.hubStep, hk]
      intro u y v heq x hx
      have hy : y ∈ up.filterMap NodeToHub.eventId := by
        rw [show up.filterMap NodeToHub.eventId = u ++ y :: v from heq]
        simp
      have hcons : id :: up.filterMap NodeToHub.eventId = (id :: u) ++ y :: v := by
        rw [List.cons_append]
        exact congrArg (id :: ·) heq
      rcases hqueue (id :: u) y v hcons x hx with hu | hs
      · rcases List.mem_cons.mp hu with rfl | hu
        · rcases read_settles d validate append fetch x draft with hs | hf
          · exact .inr hs
          · exact absurd hx (hfails hf y hy)
        · exact .inl hu
      · exact .inr (hmono x hs)
    · simp only [Relay.hubStep, hk]
      exact (h.queued k).mono (fun _ _ _ hx => hx) hmono
  all_goals
    obtain ⟨-, heq⟩ | ⟨⟨hverdict, hc⟩, heq⟩ :=
      nodeEvent_commits validate append fetch d.hub d.nodeId id draft
  · intro y hy x hx
    exact hmono x (h.behind y (heq ▸ hy) x hx)
  · intro y hy x hx
    rcases List.mem_append.mp (heq ▸ hy) with hold | hnew
    · exact hmono x (h.behind y hold x hx)
    · obtain rfl := List.mem_singleton.mp hnew
      exact hmono x (hearlier x hx)
  · exact heq ▸ h.ordered
  · have hpair : (d.hub.hub.events ++ [d.hub.hub.nodeEvent append id draft]).Pairwise
        (fun y x => ¬ EmittedBefore d x.eventId y.eventId) := by
      rw [List.pairwise_append]
      refine ⟨h.ordered, List.pairwise_singleton .., fun y hy x hx hbefore => ?_⟩
      obtain rfl := List.mem_singleton.mp hx
      rcases h.behind y hy _ hbefore with hlog | hrej
      · exact Table.lookup_eq_none.mp hc.2.1 hlog
      · exact hrevived hrej hverdict y hy hbefore
    exact heq ▸ hpair

theorem step (h : EventOrderInv d) {a : RelayLabel} (hok : KeepsEventOrder d a)
    (hs : d.step a = some d') : EventOrderInv d' := by
  have hm := h.toMintedInv.step hok.1 hs
  cases a with
  | hub a =>
      by_cases hr : a = .restart
      · subst hr
        cases hs
        exact h.hubStep hm rfl rfl rfl (fun _ => .inr rfl) hok.1
      · have heq : d.step (.hub a) = some (d.hubStep a) := by
          cases a <;> first | rfl | exact absurd rfl hr
        rw [heq] at hs
        cases hs
        exact h.hubStep hm rfl rfl rfl (fun _ => .inl rfl) hok.1
  | route n m =>
      have heq : d' = { d with hub := d.hub.routeToNode n m } := by
        cases m <;> cases hs <;> rfl
      subst heq
      have hhub := (routeToNode_hub d.hub n m).1
      refine h.advance hm rfl (fun x hx => ?_) (fun _ => .inl rfl) (.inl (by rw [hhub]))
      unfold Settled at hx ⊢
      rwa [hhub]
  | emit id draft => exact h.emit hok.1 hm hs
  | write i => exact h.write hok hm hs
  | accept w upsert append fetch hello now =>
      simp only [Relay.step] at hs
      split at hs
      · cases hs
        refine h.hubStep (a := .register upsert append fetch hello now) hm rfl rfl rfl
          (fun k => ?_) (fun id hid => List.mem_singleton.mp hid ▸ hok.1)
        obtain ⟨hk, rfl⟩ | hk := setWire_cases (d.hubStep (.register upsert append fetch hello now))
          w { d.wires w with connection := some d.hub.nextNodeConnectionId, sent := 0 } k
        · rw [hk]
          exact .inl rfl
        · rw [hk]
          exact .inl rfl
      · cases hs
  | read w validate append fetch =>
      simp only [Relay.step] at hs
      split at hs
      · next m up hc hup =>
          cases hs
          have hquiet : m.eventId = none → ∀ k,
              ((d.setWire w { d.wires w with up := up }).wires k).eventIds =
                (d.wires k).eventIds := by
            intro hnone k
            obtain ⟨hk, rfl⟩ | hk := setWire_cases d w { d.wires w with up := up } k
            · rw [hk]
              unfold Wire.eventIds
              rw [hup, List.filterMap_cons_none hnone]
            · rw [hk]
          cases m with
          | nodeEvent id draft => exact h.readEvent hup hok hm
          | commandAck c =>
              refine h.hubStep (a := .commandAck append d.nodeId c) hm rfl rfl rfl
                (fun k => .inl (hquiet rfl k)) fun id hid => ?_
              cases hid
          | heartbeat =>
              exact h.advance hm rfl (fun _ hx => hx) (fun k => .inl (hquiet rfl k)) (.inl rfl)
      · cases hs
  | send w =>
      simp only [Relay.step] at hs
      split at hs
      · cases hs
      · split at hs
        · next c _ m _ =>
            cases hs
            refine h.advance hm rfl (fun _ hx => hx) (fun k => .inl ?_) (.inl rfl)
            obtain ⟨hk, rfl⟩ | hk := setWire_cases d w { d.wires w with
              sent := (d.wires w).sent + 1, down := (d.wires w).down ++ [m] } k <;> rw [hk]
            rfl
        · cases hs
  | hear w =>
      simp only [Relay.step] at hs
      split at hs
      · next m down hdown =>
          cases hs
          have hw : ∀ k, ((d.setWire w { d.wires w with down := down }).wires k).eventIds =
              (d.wires k).eventIds := by
            intro k
            obtain ⟨hk, rfl⟩ | hk := setWire_cases d w { d.wires w with down := down } k <;> rw [hk]
            rfl
          cases m <;> exact h.advance hm rfl (fun _ hx => hx) (fun k => .inl (hw k)) (.inl rfl)
      · cases hs
  | cut w =>
      cases hs
      refine h.advance hm rfl (fun _ hx => hx) (fun k => ?_) (.inl rfl)
      obtain ⟨hk, rfl⟩ | hk := setWire_cases d w (d.wires w).close k <;> rw [hk]
      · exact .inr rfl
      · exact .inl rfl
  | leave w read upsert append fetch now =>
      simp only [Relay.step] at hs
      split at hs
      · next c hc =>
          cases hs
          refine h.hubStep (a := .unregister read upsert append fetch d.nodeId c now) hm rfl rfl rfl
            (fun k => ?_) (fun id hid => List.mem_singleton.mp hid ▸ hok.1)
          obtain ⟨hk, rfl⟩ | hk := setWire_cases
            (d.hubStep (.unregister read upsert append fetch d.nodeId c now)) w
            { (d.wires w).close with connection := none } k <;> rw [hk]
          · exact .inr rfl
          · exact .inl rfl
      · cases hs
  | _ =>
      cases hs
      exact h.advance hm rfl (fun _ hx => hx) (fun _ => .inl rfl) (.inl rfl)

theorem init (hi : Relay.system.init d) : EventOrderInv d := by
  have hm := MintedInv.init hi
  have hnone : ∀ {x y}, ¬ EmittedBefore d x y := by
    rintro x y hx
    have := hx.emitted.1
    rw [hi.2.2.2.2.1] at this
    cases this
  refine ⟨hm, fun w => ?_, fun _ _ _ hx => absurd hx hnone, ?_⟩
  · rw [hi.2.2.2.1]
    exact .nil
  · rw [List.pairwise_iff_getElem]
    exact fun _ _ _ _ _ => hnone

/-- What the invariant says of the log. -/
theorem inOrder (h : EventOrderInv d) : EventsInOrder d := by
  intro x hx y hy hbefore
  have hseq : d.hub.hub.events.Pairwise (fun a b => a.sequence < b.sequence) :=
    List.pairwise_map.mp h.log.sequences.pairwise
  obtain ⟨i, hi, rfl⟩ := List.getElem_of_mem hx
  obtain ⟨j, hj, rfl⟩ := List.getElem_of_mem hy
  rcases lt_trichotomy i j with hlt | rfl | hgt
  · exact List.pairwise_iff_getElem.mp hseq i j hi hj hlt
  · exact absurd hbefore (EmittedBefore.irrefl h.minted)
  · exact absurd hbefore (List.pairwise_iff_getElem.mp h.ordered j i hj hi hgt)

end EventOrderInv

/-! ## The order contract -/

/-- Of two events, only the first was emitted before the second. -/
theorem EmittedBefore.of_pair {d : Relay} {a b : EventId × EventDraft} (he : d.emitted = [a, b])
    {x y : EventId} (h : EmittedBefore d x y) : x = a.1 ∧ y = b.1 := by
  obtain ⟨i, j, da, db, hlt, hx, hy, -⟩ := h
  rw [he] at hx hy
  obtain ⟨hj, -⟩ := List.getElem?_eq_some_iff.mp hy
  rw [List.length_cons, List.length_singleton] at hj
  obtain ⟨rfl, rfl⟩ : i = 0 ∧ j = 1 := by omega
  exact ⟨congrArg Prod.fst (Option.some.inj hx).symm, congrArg Prod.fst (Option.some.inj hy).symm⟩

theorem not_fails {d : Relay} {validate append : CallEnv} {id : EventId} {draft : EventDraft}
    (hverdict : (d.hub.acceptsNodeEvent validate d.nodeId draft).2 = .ok true)
    (hc : CommitsEvent append d.hub.hub id draft) : ¬ Fails d validate append id draft := by
  rintro ⟨-, ⟨e, he⟩ | ⟨-, hno⟩⟩
  · cases hverdict.symm.trans he
  · exact hno hc

end Stackhour.Node
