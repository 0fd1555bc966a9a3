import Stackhour.Hub.Links
import Stackhour.Lib.Broadcast

/-!
# Client subscriptions

One client connection beside a running hub. The snapshot, the live bus and the
resynchronisation after a lag are three sources of the same events; a receiver
position and the number delivered so far say how they fit together. The fit
breaks when an append commits and its event is not broadcast.
-/

namespace Stackhour.Hub

open Domain TransitionSystem HubState Numbering Broadcast

/-! ## Reading the log -/

/-- Reading rows keeps their numbers. -/
theorem mapM_rowToEvent_sequence {rows : List EventRow} {es : List Event}
    (h : rows.mapM rowToEvent = .ok es) :
    es.map EventOf.sequence = rows.map EventOf.sequence := by
  have hread := Result.mapM_eq_ok.mp h
  clear h
  induction hread with
  | nil => rfl
  | cons he _ ih =>
      have hseq := congrArg EventOf.sequence (rowToEvent_keeps he)
      rw [List.map_cons, List.map_cons, ih, hseq]

/-- The tail above a cursor inside the log is numbered from the cursor on. -/
theorem eventsAfter_numbers {env : CallEnv} {s : Store} (hs : EventLog s) {a : ℤ}
    (h0 : 0 ≤ a) (ha : a ≤ s.events.length) {es : List Event}
    (h : s.eventsAfter env a = .ok es) :
    es.map EventOf.sequence = after a (s.events.length - a).toNat := by
  rw [hs.eventsAfter_eq] at h
  obtain ⟨_, -, h⟩ := Result.bind_eq_ok.mp h
  obtain ⟨k, rfl⟩ := Int.eq_ofNat_of_zero_le h0
  have hk : k ≤ s.events.length := by omega
  have hgap : s.events.map EventOf.sequence = after 0 s.events.length := by
    have := hs.sequences
    unfold Gapless at this
    rwa [List.length_map] at this
  have hfilter : s.events.filter (fun e : EventRow => decide ((k : ℤ) < e.sequence)) =
      s.events.drop k := by
    have := filter_gt_eq_drop (k := k) hgap
    simpa using this
  rw [hfilter] at h
  rw [mapM_rowToEvent_sequence h, map_drop_eq_after hs.sequences k hk]
  congr 1
  omega

theorem after_getLast (n : ℕ) : (after 0 n).getLast?.getD 0 = n := by
  cases n with
  | zero => rfl
  | succ n =>
      rw [after_succ, List.getLast?_concat]
      simp only [Option.getD_some]
      push_cast
      ring

/-- A snapshot is the head of the log and the tail above the cursor. -/
theorem snapshot_numbers {env : CallEnv} {h : HubState} (hs : EventLog h.hub) {a head : ℤ}
    {tail : List Event} (hsnap : h.snapshot env a = .ok (head, tail)) :
    head = h.hub.events.length ∧
      (0 ≤ a → a ≤ head → tail.map EventOf.sequence = after a (head - a).toNat) := by
  obtain ⟨all, hall, hsnap⟩ := Result.bind_eq_ok.mp hsnap
  rw [Result.pure_eq_ok, Prod.mk.injEq] at hsnap
  obtain ⟨hhead, rfl⟩ := hsnap
  have hnum : all.map EventOf.sequence = after 0 h.hub.events.length := by
    have := eventsAfter_numbers hs (le_refl 0) (by omega) hall
    simpa using this
  have hlen : all.length = h.hub.events.length := by
    have := congrArg List.length hnum
    simpa using this
  have heq : head = h.hub.events.length := by
    rw [← hhead, ← List.getLast?_map, hnum, after_getLast]
  refine ⟨heq, fun h0 ha => ?_⟩
  obtain ⟨k, rfl⟩ := Int.eq_ofNat_of_zero_le h0
  have hgap : Gapless (all.map EventOf.sequence) := by
    unfold Gapless
    rw [hnum, after_length]
  have hfilter : all.filter (fun e : Event => decide ((k : ℤ) < e.sequence)) = all.drop k := by
    have := filter_gt_eq_drop (k := k) (hlen ▸ hnum)
    simpa using this
  rw [hfilter, map_drop_eq_after hgap k (by omega)]
  congr 1
  omega

/-! ## A connection -/

/-- Where `handle_client` is. `streaming` and `resync` carry `last_delivered`. -/
inductive Phase where
  | idle
  | subscribed
  | catchUp (head : ℤ) (queue : List Event)
  | streaming (lastDelivered : ℤ)
  | resync (lastDelivered : ℤ) (missed : List Event)
  | closed

/-- One connection: its receiver on the bus, the cursor and head of its
subscription, and what it has been sent. -/
structure Session where
  phase : Phase
  position : ℕ
  opened : Option (ℤ × ℤ)
  delivered : List Event

structure Feed where
  hub : HubState
  session : Session

/-- What happens to the hub, or the next thing the connection does. `drop` is
the socket failing, the client leaving or a missed heartbeat. -/
inductive FeedLabel where
  | hub (a : HubLabel)
  | connect
  | subscribe (env : CallEnv) (request : Subscribe)
  | send
  | receive (env : CallEnv)
  | drop

namespace Session

def close (s : Session) : Session := { s with phase := .closed }

/-- One frame of the catch-up or of a resynchronisation, or the end of it. -/
def send (s : Session) : Option Session :=
  match s.phase with
  | .catchUp head (e :: queue) =>
      some { s with phase := .catchUp head queue, delivered := s.delivered ++ [e] }
  | .catchUp head [] => some { s with phase := .streaming head }
  | .resync last (e :: missed) =>
      if e.sequence ≤ last then some { s with phase := .resync last missed }
      else some { s with
        phase := .resync e.sequence missed
        delivered := s.delivered ++ [e] }
  | .resync last [] => some { s with phase := .streaming last }
  | _ => none

/-- One turn of the live branch: an event above the last delivered is sent, a
lag re-reads the log from there. -/
def receive (env : CallEnv) (h : HubState) (s : Session) : Option Session :=
  match s.phase with
  | .streaming last =>
      match recv eventBusCapacity h.events s.position with
      | (.empty, _) => none
      | (.message e, p) =>
          if last < e.sequence then
            some { s with
              phase := .streaming e.sequence
              position := p
              delivered := s.delivered ++ [e] }
          else some { s with position := p }
      | (.lagged, p) =>
          match h.hub.eventsAfter env last with
          | .ok missed => some { s with phase := .resync last missed, position := p }
          | .error _ => some { s with phase := .closed, position := p }
  | _ => none

end Session

namespace Feed

def step (f : Feed) : FeedLabel → Option Feed
  -- a restart takes the connection with it
  | .hub .restart => some { hub := f.hub.step .restart, session := f.session.close }
  | .hub a => some { f with hub := f.hub.step a }
  | .connect =>
      match f.session.phase with
      | .idle | .closed =>
          some { f with session := ⟨.subscribed, f.hub.events.length, none, []⟩ }
      | _ => none
  | .subscribe env request =>
      match f.session.phase with
      | .subscribed =>
          if f.hub.acceptsClient request.token then
            let cursor := request.afterSequence.getD 0
            match f.hub.snapshot env cursor with
            | .ok (head, tail) =>
                some { f with
                  session := { f.session with
                    phase := .catchUp head tail
                    opened := some (cursor, head) } }
            | .error _ => some { f with session := f.session.close }
          else some { f with session := f.session.close }
      | _ => none
  | .send => f.session.send.map (fun s => { f with session := s })
  | .receive env => (f.session.receive env f.hub).map (fun s => { f with session := s })
  | .drop => some { f with session := f.session.close }

/-- A hub over a newly opened database, and no connection yet. -/
def system : System Feed FeedLabel where
  init f := HubState.system.init f.hub ∧ f.session = ⟨.idle, 0, none, []⟩
  step := step

end Feed

/-! ## The contract and its condition -/

/-- From the snapshot to the end of the connection. -/
def Phase.live : Phase → Bool
  | .catchUp _ _ | .streaming _ | .resync _ _ => true
  | _ => false

/-- While the connection is live, every append that commits is broadcast. -/
def AnnouncesWhileLive (f : Feed) : FeedLabel → Prop
  | .hub a => f.session.phase.live → a ≠ .restart → Announces f.hub a
  | _ => True

/-- What a subscription with a cursor inside the log has been sent: the numbers
after the cursor, in order; and once it has nothing left to receive, all of
them. -/
def GaplessDelivery (f : Feed) : Prop :=
  ∀ cursor head, f.session.opened = some (cursor, head) → 0 ≤ cursor → cursor ≤ head →
    f.session.delivered.map EventOf.sequence = after cursor f.session.delivered.length ∧
    ∀ last, f.session.phase = .streaming last → f.session.position = f.hub.events.length →
      cursor + f.session.delivered.length = f.hub.hub.events.length

/-! ## The invariant -/

/-- What was sent and what is queued behind it, up to the number `m`. -/
def Sent (cursor : ℤ) (delivered queue : List Event) (m : ℤ) : Prop :=
  (delivered ++ queue).map EventOf.sequence = after cursor (delivered ++ queue).length ∧
    m = cursor + (delivered ++ queue).length

/-- The connection against the hub: what is sent or queued reaches the number
`m` from which the receiver goes on. -/
def Fits (h : HubState) (s : Session) (cursor : ℤ) : Prop :=
  match s.phase with
  | .catchUp head queue =>
      Sent cursor s.delivered queue head ∧ head ≤ h.hub.events.length ∧
        Caught EventOf.sequence h.events h.hub.events.length s.position head
  | .streaming last =>
      Sent cursor s.delivered [] last ∧ last ≤ h.hub.events.length ∧
        Caught EventOf.sequence h.events h.hub.events.length s.position last
  | .resync last missed =>
      last = cursor + s.delivered.length ∧ ∃ m, Sent cursor s.delivered missed m ∧
        m ≤ h.hub.events.length ∧
        Caught EventOf.sequence h.events h.hub.events.length s.position m
  | _ => s.delivered.map EventOf.sequence = after cursor s.delivered.length

structure FeedInv (f : Feed) : Prop where
  log : EventLog f.hub.hub
  bus : ∀ e ∈ f.hub.events, e.sequence ≤ f.hub.hub.events.length
  subscribed : f.session.phase = .subscribed →
    f.session.position ≤ f.hub.events.length ∧ f.session.delivered = []
  fits : ∀ cursor head, f.session.opened = some (cursor, head) → 0 ≤ cursor → cursor ≤ head →
    Fits f.hub f.session cursor

theorem Sent.delivered {cursor m : ℤ} {d q : List Event} (h : Sent cursor d q m) :
    d.map EventOf.sequence = after cursor d.length := by
  have hsplit := h.1
  rw [List.map_append, List.length_append, ← after_append] at hsplit
  exact (List.append_inj hsplit (by simp)).1

/-- The head of the queue carries the next number. -/
theorem Sent.next {cursor m : ℤ} {d q : List Event} {e : Event} (h : Sent cursor d (e :: q) m) :
    e.sequence = cursor + d.length + 1 ∧ Sent cursor (d ++ [e]) q m := by
  have hmove : Sent cursor (d ++ [e]) q m := by
    unfold Sent at h ⊢
    rwa [List.append_assoc, List.singleton_append]
  refine ⟨?_, hmove⟩
  have hnum := hmove.delivered
  rw [List.map_append, List.length_append, List.length_singleton, after_succ] at hnum
  have := (List.append_inj' hnum rfl).2
  rw [List.map_singleton, List.singleton_inj] at this
  rw [this]
  ring

/-- The number after the last one sent is sent. -/
theorem Sent.deliver {cursor m : ℤ} {d : List Event} {e : Event} (h : Sent cursor d [] m)
    (he : e.sequence = m + 1) : Sent cursor (d ++ [e]) [] e.sequence := by
  obtain ⟨hnum, hm⟩ := h
  rw [List.append_nil] at hnum hm
  unfold Sent
  rw [List.append_nil, List.map_append, hnum, List.length_append, List.length_singleton,
    after_succ, List.map_singleton, he, hm]
  constructor
  · rw [add_right_comm]
  · push_cast
    ring

/-- The tail of the log above the last number sent is queued behind it. -/
theorem Sent.refill {cursor m n : ℤ} {d q : List Event} (h : Sent cursor d [] m) (hm : m ≤ n)
    (hq : q.map EventOf.sequence = after m (n - m).toNat) : Sent cursor d q n := by
  obtain ⟨hnum, hd⟩ := h
  rw [List.append_nil] at hnum hd
  have hlen : q.length = (n - m).toNat := by
    rw [← List.length_map (f := EventOf.sequence), hq, after_length]
  unfold Sent
  rw [List.map_append, hnum, hq, List.length_append, hlen, hd, after_append]
  exact ⟨rfl, by push_cast; omega⟩

theorem Fits.delivered {h : HubState} {s : Session} {cursor : ℤ} (hf : Fits h s cursor) :
    s.delivered.map EventOf.sequence = after cursor s.delivered.length := by
  unfold Fits at hf
  split at hf
  · exact hf.1.delivered
  · exact hf.1.delivered
  · obtain ⟨-, m, hs, -⟩ := hf
    exact hs.delivered
  · exact hf

theorem Fits.close {h h' : HubState} {s : Session} {cursor : ℤ} (hf : Fits h s cursor) :
    Fits h' s.close cursor := hf.delivered

/-- A connection that is not live does not look at the hub. -/
theorem Fits.of_not_live {h h' : HubState} {s : Session} {cursor : ℤ}
    (hl : s.phase.live = false) (hf : Fits h s cursor) : Fits h' s cursor := by
  have hd := hf.delivered
  unfold Fits
  split
  · next hp => simp [hp, Phase.live] at hl
  · next hp => simp [hp, Phase.live] at hl
  · next hp => simp [hp, Phase.live] at hl
  · exact hd

/-- A row is appended and its event broadcast. -/
theorem Fits.push {h h' : HubState} {s : Session} {cursor : ℤ} {e : Event} {row : EventRow}
    (hseq : e.sequence = h.hub.events.length + 1) (he : h'.events = h.events ++ [e])
    (hlog : h'.hub.events = h.hub.events ++ [row]) (hf : Fits h s cursor) :
    Fits h' s cursor := by
  have hlen : (h'.hub.events.length : ℤ) = h.hub.events.length + 1 := by
    rw [hlog]
    simp
  unfold Fits at hf ⊢
  rw [he, hlen]
  split at hf
  · exact ⟨hf.1, by omega, hf.2.2.push hseq⟩
  · exact ⟨hf.1, by omega, hf.2.2.push hseq⟩
  · obtain ⟨hlast, m, hs, hm, hc⟩ := hf
    exact ⟨hlast, m, hs, by omega, hc.push hseq⟩
  · exact hf

theorem FeedInv.hub {f : Feed} (h : FeedInv f) {a : HubLabel} (hne : a ≠ .restart)
    (hok : f.session.phase.live → Announces f.hub a) :
    FeedInv { f with hub := f.hub.step a } := by
  have hmax := h.log.maxSequence_eq
  have hlog := (step_performs f.hub a).eventLog h.log
  cases step_bus f.hub hne with
  | silent events log =>
      refine ⟨hlog, ?_, ?_, ?_⟩
      · simp only [events, log]
        exact h.bus
      · simp only [events]
        exact h.subscribed
      · intro cursor head ho h0 hle
        have := h.fits cursor head ho h0 hle
        unfold Fits at this ⊢
        simp only [events, log]
        exact this
  | sent e row minted sequence events log =>
      rw [hmax] at sequence
      refine ⟨hlog, ?_, ?_, ?_⟩
      · simp only [events, log, List.length_append, List.length_singleton, List.mem_append,
          List.mem_singleton]
        rintro x (hx | rfl)
        · have := h.bus x hx
          push_cast
          omega
        · push_cast
          omega
      · simp only [events, List.length_append]
        intro hp
        have := h.subscribed hp
        exact ⟨by omega, this.2⟩
      · intro cursor head ho h0 hle
        exact (h.fits cursor head ho h0 hle).push sequence events log
  | unsent row minted events log broken =>
      -- only a connection that is not live may miss a broadcast
      have hl : f.session.phase.live = false := by
        cases hp : f.session.phase.live with
        | false => rfl
        | true => exact absurd (hok hp) broken
      refine ⟨hlog, ?_, ?_, ?_⟩
      · simp only [events, log, List.length_append, List.length_singleton]
        intro x hx
        have := h.bus x hx
        push_cast
        omega
      · simp only [events]
        exact h.subscribed
      · intro cursor head ho h0 hle
        exact (h.fits cursor head ho h0 hle).of_not_live hl

theorem FeedInv.closed {f : Feed} (h : FeedInv f) :
    FeedInv { f with session := f.session.close } :=
  ⟨h.log, h.bus, (fun hp => by cases hp), fun cursor head ho h0 hle => (h.fits cursor head ho h0 hle).close⟩

theorem FeedInv.send {f : Feed} (h : FeedInv f) {s : Session} (hs : f.session.send = some s) :
    FeedInv { f with session := s } := by
  have hfits := h.fits
  unfold Session.send at hs
  split at hs
  · next head e queue hp =>
      cases hs
      refine ⟨h.log, h.bus, (fun hp => by cases hp), fun cursor hd ho h0 hle => ?_⟩
      have hf := hfits cursor hd ho h0 hle
      simp only [Fits, hp] at hf ⊢
      exact ⟨hf.1.next.2, hf.2⟩
  · next head hp =>
      cases hs
      refine ⟨h.log, h.bus, (fun hp => by cases hp), fun cursor hd ho h0 hle => ?_⟩
      have hf := hfits cursor hd ho h0 hle
      simp only [Fits, hp] at hf ⊢
      exact hf
  · next last e missed hp =>
      split at hs <;> cases hs <;>
        refine ⟨h.log, h.bus, (fun hp => by cases hp), fun cursor hd ho h0 hle => ?_⟩
      · -- an event of the re-read tail is above the last delivered
        next hskip =>
          have hf := hfits cursor hd ho h0 hle
          simp only [Fits, hp] at hf
          obtain ⟨hlast, m, hsent, -⟩ := hf
          have := hsent.next.1
          omega
      · next hskip =>
          have hf := hfits cursor hd ho h0 hle
          simp only [Fits, hp] at hf ⊢
          obtain ⟨hlast, m, hsent, hm, hc⟩ := hf
          refine ⟨?_, m, hsent.next.2, hm, hc⟩
          rw [hsent.next.1, List.length_append]
          push_cast
          simp only [List.length_singleton]
          omega
  · next last hp =>
      cases hs
      refine ⟨h.log, h.bus, (fun hp => by cases hp), fun cursor hd ho h0 hle => ?_⟩
      have hf := hfits cursor hd ho h0 hle
      simp only [Fits, hp] at hf ⊢
      obtain ⟨hlast, m, hsent, hm, hc⟩ := hf
      obtain rfl : last = m := by
        rw [hlast, hsent.2, List.append_nil]
      exact ⟨hsent, hm, hc⟩
  · cases hs

theorem FeedInv.receive {f : Feed} (h : FeedInv f) {env : CallEnv} {s : Session}
    (hs : f.session.receive env f.hub = some s) : FeedInv { f with session := s } := by
  have hfits := h.fits
  unfold Session.receive at hs
  split at hs
  · next last hp =>
      split at hs
      · cases hs
      · -- a message: handled before, or the next number
        next e p hrecv =>
          obtain ⟨hget, rfl⟩ := recv_message hrecv
          have hmem : e ∈ f.hub.events := List.mem_of_getElem? hget
          split at hs <;> cases hs
          · next hnew =>
              refine ⟨h.log, h.bus, (fun hp' => by cases hp'), fun cursor hd ho h0 hle => ?_⟩
              have hf := hfits cursor hd ho h0 hle
              simp only [Fits, hp] at hf ⊢
              obtain ⟨hsent, -, hc⟩ := hf
              obtain ⟨hold, -⟩ | ⟨hseq, hc⟩ := hc.message hget
              · omega
              · exact ⟨hsent.deliver hseq, h.bus e hmem, hseq ▸ hc⟩
          · next hold =>
              refine ⟨h.log, h.bus, (fun hp' => by cases hp.symm.trans hp'),
                fun cursor hd ho h0 hle => ?_⟩
              have hf := hfits cursor hd ho h0 hle
              simp only [Fits, hp] at hf ⊢
              obtain ⟨hsent, hlast, hc⟩ := hf
              obtain ⟨-, hc⟩ | ⟨hseq, -⟩ := hc.message hget
              · exact ⟨hsent, hlast, hc⟩
              · omega
      · next p hrecv =>
          have hpos := recv_lagged hrecv
          split at hs
          · next missed hmissed =>
              cases hs
              refine ⟨h.log, h.bus, (fun hp' => by cases hp'), fun cursor hd ho h0 hle => ?_⟩
              have hf := hfits cursor hd ho h0 hle
              simp only [Fits, hp] at hf ⊢
              obtain ⟨hsent, hlast, -⟩ := hf
              have hcur := hsent.2
              rw [List.append_nil] at hcur
              have hnum := eventsAfter_numbers h.log (by omega) hlast hmissed
              exact ⟨hcur, _, hsent.refill hlast hnum, le_refl _, Caught.full h.bus hpos⟩
          · cases hs
            refine ⟨h.log, h.bus, (fun hp' => by cases hp'), fun cursor hd ho h0 hle => ?_⟩
            exact (hfits cursor hd ho h0 hle).delivered
  · cases hs

theorem FeedInv.connect {f : Feed} (h : FeedInv f) :
    FeedInv { f with session := ⟨.subscribed, f.hub.events.length, none, []⟩ } :=
  ⟨h.log, h.bus, (fun _ => ⟨le_refl _, rfl⟩), (fun cursor head ho => by cases ho)⟩

/-- The receiver is older than the snapshot, so what it is yet to receive is in
the snapshot or behind it. -/
theorem FeedInv.subscribe {f : Feed} (h : FeedInv f) {env : CallEnv} {cursor head : ℤ}
    {tail : List Event} (hp : f.session.phase = .subscribed)
    (hsnap : f.hub.snapshot env cursor = .ok (head, tail)) :
    FeedInv { f with session := { f.session with
      phase := .catchUp head tail, opened := some (cursor, head) } } := by
  obtain ⟨hpos, hnone⟩ := h.subscribed hp
  obtain ⟨rfl, hnum⟩ := snapshot_numbers h.log hsnap
  refine ⟨h.log, h.bus, (fun hp' => by cases hp'), fun c hd ho h0 hle => ?_⟩
  cases ho
  have htail := hnum h0 hle
  have hstart : Sent cursor [] [] cursor := ⟨rfl, by simp⟩
  simp only [Fits, hnone]
  exact ⟨hstart.refill hle htail, le_refl _, Caught.full h.bus hpos⟩

/-- **One step of the connection or of the hub.** -/
theorem FeedInv.step {f g : Feed} {a : FeedLabel} (h : FeedInv f) (hok : AnnouncesWhileLive f a)
    (hs : f.step a = some g) : FeedInv g := by
  cases a with
  | hub a =>
      by_cases hr : a = .restart
      · subst hr
        cases hs
        refine ⟨h.log, (fun e he => by cases he), (fun hp => by cases hp),
          fun cursor head ho h0 hle => ?_⟩
        exact (h.fits cursor head ho h0 hle).close
      · have hstep : f.step (.hub a) = some { f with hub := f.hub.step a } := by
          cases a <;> first | rfl | exact absurd rfl hr
        rw [hstep] at hs
        cases hs
        exact h.hub hr (fun hl => hok hl hr)
  | connect =>
      simp only [Feed.step] at hs
      split at hs <;> cases hs <;> exact h.connect
  | subscribe env request =>
      simp only [Feed.step] at hs
      split at hs
      · next hp =>
          split at hs
          · split at hs <;> cases hs
            · next hsnap => exact h.subscribe hp hsnap
            · exact h.closed
          · cases hs
            exact h.closed
      · cases hs
  | send =>
      obtain ⟨s, hsend, rfl⟩ := Option.map_eq_some_iff.mp hs
      exact h.send hsend
  | receive env =>
      obtain ⟨s, hrecv, rfl⟩ := Option.map_eq_some_iff.mp hs
      exact h.receive hrecv
  | drop =>
      cases hs
      exact h.closed

theorem FeedInv.init {f : Feed} (hi : Feed.system.init f) : FeedInv f := by
  obtain ⟨hub, session⟩ := f
  obtain ⟨hhub, rfl⟩ := hi
  have hbus : hub.events = [] := by
    obtain ⟨refusal, nodeSecret, clientSecret, rfl⟩ := hhub
    rfl
  refine ⟨eventLog_init hhub, ?_, (fun hp => by cases hp), (fun cursor head ho => by cases ho)⟩
  rw [hbus]
  intro e he
  cases he

/-- What the invariant says to the client. -/
theorem FeedInv.gapless {f : Feed} (h : FeedInv f) : GaplessDelivery f := by
  intro cursor head ho h0 hle
  have hf := h.fits cursor head ho h0 hle
  refine ⟨hf.delivered, fun last hp hidle => ?_⟩
  simp only [Fits, hp] at hf
  obtain ⟨⟨-, hm⟩, hlast, hc⟩ := hf
  have hall := hc.idle hidle
  rw [List.append_nil] at hm
  omega

/-! ## The subscription contract -/

/-- **Subscriptions are gapless** in every run in which each append that commits
while the connection is live is broadcast. -/
theorem subscription_gapless {f : Feed} (hr : Feed.system.Reach AnnouncesWhileLive f) :
    GaplessDelivery f :=
  (System.Reach.invariant (P := FeedInv) (fun _ hi => .init hi)
    (fun _ _ _ h hok hs => h.step hok hs) hr).gapless

/-- A fresh hub with no connection. -/
def freshFeed : Feed := ⟨freshHub, ⟨.idle, 0, none, []⟩⟩

theorem freshFeed_init : Feed.system.init freshFeed := ⟨fresh_init, rfl⟩

/-- A client asks for everything. -/
def fromStart : Subscribe := ⟨none, none⟩

set_option maxRecDepth 4096 in
/-- A client subscribes, a task is created and its event delivered. -/
theorem subscription_gapless_sample :
    ∃ f, Feed.system.run freshFeed [.connect, .subscribe (plainCall 1) fromStart, .send,
      .hub (creation 7), .receive (plainCall 2)] = some f ∧ GaplessDelivery f := by
  have hstart : Feed.system.Reach AnnouncesWhileLive freshFeed := .start freshFeed_init
  have hconnected := hstart.next (a := FeedLabel.connect) trivial rfl
  have hsubscribed :=
    hconnected.next (a := FeedLabel.subscribe (plainCall 1) fromStart) trivial rfl
  have hlive := hsubscribed.next (a := FeedLabel.send) trivial rfl
  have hcreated := hlive.next (a := FeedLabel.hub (creation 7)) (by
    rintro - - plan ⟨-, hplan, -⟩
    cases hplan
    exact ⟨rfl, by decide, by decide⟩) rfl
  have hreceived := hcreated.next (a := FeedLabel.receive (plainCall 2)) trivial rfl
  exact ⟨_, rfl, subscription_gapless hreceived⟩

/-- A task is created and the read of its event fails, so it is not broadcast;
the next event is delivered without it. -/
theorem unread_event_skipped : ¬ ∀ f, Feed.system.Reach Anyway f → GaplessDelivery f := by
  intro hall
  have hrun : ∃ f, Feed.system.run freshFeed [.connect, .subscribe (plainCall 1) fromStart, .send,
      .hub (.command { plainCommand 5 with fetch := ⟨.epoch, 4, some "disk I/O error"⟩ }
        (.createTask ⟨6⟩ "t") none),
      .hub (creation 7), .receive (plainCall 2)] = some f ∧
      f.session.opened = some (0, 0) ∧ f.session.delivered.map EventOf.sequence = [2] :=
    ⟨_, rfl, rfl, rfl⟩
  obtain ⟨f, hrun, hopened, hdelivered⟩ := hrun
  have hreach := System.Reach.of_run (.start freshFeed_init) hrun
  have hnum := (hall f hreach 0 0 hopened (le_refl _) (le_refl _)).1
  have hlen := congrArg List.length hdelivered
  rw [List.length_map] at hlen
  rw [hdelivered, hlen] at hnum
  exact absurd hnum (by decide)

end Stackhour.Hub
