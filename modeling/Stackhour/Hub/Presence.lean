import Stackhour.Hub.FleetSteps
import Stackhour.Lib.Mirror

/-!
# Node presence

Whether a node is there is recorded three times: by its entry in the registry, by
the status of its row, and by the last presence event of the log. The registry is
changed by one step of a session and the other two are brought up to date by
later steps of the same session, so each is a copy kept by delayed writers.
-/

namespace Stackhour.Hub

open Domain TransitionSystem HubState Mirroring

/-! ## The property -/

/-- The last presence event of a node. -/
def lastPresence (s : Store) (n : NodeId) : Option EventKind :=
  (s.events.reverse.find? (fun e => isPresence e.kind && decide (e.nodeId = n))).map EventOf.kind

def nodeStatus (s : Store) (n : NodeId) : Option ConnectionStatus :=
  (Table.lookup Node.id s.nodes n).map Node.status

/-- No session of the node is between two steps of its start or its end. -/
def Settled (f : Fleet) (n : NodeId) : Prop :=
  ∀ c s, f.sessions c = some s → s.hello.nodeId = n → ∃ x, s.phase = .live x

/-- The log and the row say that the node is there exactly when the registry
does. -/
def PresenceAgrees (f : Fleet) (n : NodeId) : Prop :=
  (lastPresence f.hub.hub n = some .nodeConnected ↔ (f.hub.nodes n).isSome = true) ∧
  (nodeStatus f.hub.hub n = some .connected ↔ (f.hub.nodes n).isSome = true)

/-- A connection leaves the registry by its own end or by a newer one. -/
def NewerStays (f : Fleet) : Prop :=
  ∀ a f' n c, f.step a = some f' → f.hub.nodes n = some c → f'.hub.nodes n ≠ some c →
    a = .hangUp c ∨ ∃ hello, a = .dial hello ∧ hello.nodeId = n

/-- **Presence converges.** -/
def PresenceConverges (f : Fleet) : Prop :=
  NewerStays f ∧ ∀ n, Settled f n → PresenceAgrees f n

/-! ## The registry -/

/-- **A replaced session removes nothing.** -/
theorem newer_stays (f : Fleet) : NewerStays f := by
  intro a f' n c hs hn hne
  by_cases hdial : ∃ hello, a = .dial hello
  · obtain ⟨hello, rfl⟩ := hdial
    obtain ⟨-, -, rfl⟩ := Fleet.step_dial hs
    refine .inr ⟨hello, rfl, ?_⟩
    by_contra hother
    refine hne ?_
    show Function.update f.hub.nodes hello.nodeId _ n = some c
    rw [Function.update_of_ne (Ne.symm hother)]
    exact hn
  by_cases hhang : ∃ k, a = .hangUp k
  · obtain ⟨k, rfl⟩ := hhang
    left
    obtain ⟨hello, -, -, ⟨hk, rfl⟩ | ⟨-, rfl⟩⟩ := Fleet.step_hangUp hs
    · by_cases hown : n = hello.nodeId
      · subst hown
        exact congrArg FleetLabel.hangUp (Option.some.inj (hk.symm.trans hn))
      · refine absurd ?_ hne
        show Function.update f.hub.nodes hello.nodeId none n = some c
        rw [Function.update_of_ne hown]
        exact hn
    · exact absurd hn hne
  · obtain ⟨hnodes, -⟩ := Fleet.step_registry hs (fun hello h => hdial ⟨hello, h⟩)
      (fun k h => hhang ⟨k, h⟩)
    exact absurd ((congrFun hnodes n).trans hn) hne

/-! ## What a session owes -/

/-- The status a session is still to write into the row of its node. -/
def owesRow : SessionPhase → Option Bool
  | .registered => some true
  | .left => some false
  | _ => none

/-- The presence event a session is still to append. -/
def owesEvent : SessionPhase → Option Bool
  | .registered | .stored => some true
  | .left | .demoted => some false
  | .live _ => none

/-- What the connection `c` owes the copy of the node `n`. -/
def owing (owes : SessionPhase → Option Bool) (sessions : ℕ → Option NodeSession) (n : NodeId)
    (c : ℕ) : Option Bool :=
  match sessions c with
  | some s => if s.hello.nodeId = n then owes s.phase else none
  | none => none

/-- What the session writes about its node is true, or another session of the
node is still to write what is. -/
def TrueOrOwed (owes : SessionPhase → Option Bool) (f : Fleet) (c : ℕ) (b : Bool) : Prop :=
  ∀ s, f.sessions c = some s → (f.hub.nodes s.hello.nodeId).isSome = b ∨
    ∃ i, i ≠ c ∧ owing owes f.sessions s.hello.nodeId i =
      some (f.hub.nodes s.hello.nodeId).isSome

/-- The records of sessions go through, and none that is false is the last one
owed. No node reports a presence event of its own. -/
def Truthful (f : Fleet) : FleetLabel → Prop
  | .upsert c env => env.refusal = none ∧ TrueOrOwed owesRow f c true
  | .announce c append _ now => TrueOrOwed owesEvent f c true ∧ ∀ s, f.sessions c = some s →
      CommitsEvent append f.hub.hub ⟨append.uuid⟩ (connectedDraft s.hello now)
  | .demote c read upsert =>
      read.refusal = none ∧ upsert.refusal = none ∧ TrueOrOwed owesRow f c false
  | .depart c append _ now => TrueOrOwed owesEvent f c false ∧ ∀ s, f.sessions c = some s →
      CommitsEvent append f.hub.hub ⟨append.uuid⟩ (disconnectedDraft s.hello.nodeId now)
  | .append c _ _ => ∀ hello id d, f.sessions c = some ⟨hello, .live (some (id, d))⟩ →
      isPresence d.kind = false
  | _ => True

/-- The registry's word on a node, a copy of it in the store, and the sessions
that are to write the copy. -/
def presenceMirror (owes : SessionPhase → Option Bool) (copied : Store → NodeId → Bool)
    (f : Fleet) (n : NodeId) : Mirror ℕ Bool where
  truth := (f.hub.nodes n).isSome
  copy := copied f.hub.hub n
  owed := owing owes f.sessions n

def rowSays (s : Store) (n : NodeId) : Bool := decide (nodeStatus s n = some .connected)

def logSays (s : Store) (n : NodeId) : Bool := decide (lastPresence s n = some .nodeConnected)

section Owing

variable {owes : SessionPhase → Option Bool} {copied : Store → NodeId → Bool} {f f' : Fleet}
  {n : NodeId} {c : ℕ} {s : Option NodeSession}

/-- A session that owed nothing, or owes the same as before, changes nothing for
the others. -/
theorem owing_update {sessions : ℕ → Option NodeSession}
    (hc : owing owes sessions n c = none ∨
      owing owes (Function.update sessions c s) n c = owing owes sessions n c)
    {i : ℕ} {b : Bool} (hi : owing owes sessions n i = some b) :
    owing owes (Function.update sessions c s) n i = some b := by
  by_cases hic : i = c
  · subst hic
    rcases hc with hnone | hsame
    · rw [hnone] at hi
      cases hi
    · exact hsame.trans hi
  · unfold owing
    rw [Function.update_of_ne hic]
    exact hi

/-- Nothing is owed to a node at rest. -/
theorem owing_rest (hlive : ∀ x, owes (.live x) = none) (hs : Settled f n) (i : ℕ) :
    owing owes f.sessions n i = none := by
  unfold owing
  split
  · next s hi =>
      split
      · next hn =>
          obtain ⟨x, hx⟩ := hs i s hi hn
          exact hx ▸ hlive x
      · rfl
  · rfl

/-- A step that leaves the sessions, the registry and the copy of the node. -/
theorem move_aside (hsessions : f'.sessions = f.sessions) (hn : f'.hub.nodes n = f.hub.nodes n)
    (hcopy : copied f'.hub.hub n = copied f.hub.hub n) :
    Move (presenceMirror owes copied f n) (presenceMirror owes copied f' n) :=
  .keep (congrArg Option.isSome hn) hcopy fun i hi => by
    show owing owes f'.sessions n i = _
    rw [hsessions]
    exact hi

/-- A session goes on and neither the registry nor the copy of the node changes.
If the session is the node's, it owed nothing or owes the same. -/
theorem move_session {hello : NodeHello} {p : SessionPhase}
    (hc : f.sessions c = some ⟨hello, p⟩) (hsessions : f'.sessions = Function.update f.sessions c s)
    (hn : f'.hub.nodes n = f.hub.nodes n) (hcopy : copied f'.hub.hub n = copied f.hub.hub n)
    (howes : hello.nodeId = n → owes p = none ∨ ∃ p', s = some ⟨hello, p'⟩ ∧ owes p' = owes p) :
    Move (presenceMirror owes copied f n) (presenceMirror owes copied f' n) := by
  refine .keep (congrArg Option.isSome hn) hcopy fun i hi => ?_
  show owing owes f'.sessions n i = _
  rw [hsessions]
  refine owing_update ?_ hi
  have hbefore : owing owes f.sessions n c = if hello.nodeId = n then owes p else none := by
    unfold owing
    rw [hc]
  by_cases hown : hello.nodeId = n
  · rw [hbefore, if_pos hown]
    rcases howes hown with hnone | ⟨p', rfl, hsame⟩
    · exact .inl hnone
    · right
      unfold owing
      rw [Function.update_self]
      exact (if_pos hown).trans hsame
  · rw [hbefore, if_neg hown]
    exact .inl rfl

/-- A session writes the copy of its node. -/
theorem move_record {hello : NodeHello} {p : SessionPhase} {b : Bool}
    (hc : f.sessions c = some ⟨hello, p⟩) (hsessions : f'.sessions = Function.update f.sessions c s)
    (hnodes : f'.hub.nodes = f.hub.nodes)
    (hwrite : copied f'.hub.hub n = if hello.nodeId = n then b else copied f.hub.hub n)
    (htrue : TrueOrOwed owes f c b) :
    Move (presenceMirror owes copied f n) (presenceMirror owes copied f' n) := by
  by_cases hn : hello.nodeId = n
  · subst hn
    rcases htrue _ hc with htrue | ⟨i, hi, howed⟩
    · refine .write ?_
      show copied f'.hub.hub _ = (f'.hub.nodes _).isSome
      rw [hwrite, if_pos rfl, hnodes, htrue]
    · refine .owe i ?_
      show owing owes f'.sessions _ i = some (f'.hub.nodes _).isSome
      rw [hsessions, hnodes, ← howed]
      unfold owing
      rw [Function.update_of_ne hi]
  · rw [if_neg hn] at hwrite
    exact move_session hc hsessions (congrFun hnodes n) hwrite fun hown => absurd hown hn

end Owing

/-! ## What a write leaves -/

theorem lastPresence_append_other {s s' : Store} {es : List EventRow} (n : NodeId)
    (he : s'.events = s.events ++ es) (ho : ∀ e ∈ es, Other e) :
    lastPresence s' n = lastPresence s n := by
  have hnone : es.reverse.find? (fun e => isPresence e.kind && decide (e.nodeId = n)) = none := by
    rw [List.find?_eq_none]
    intro e hmem
    have hother : isPresence e.kind = false := ho e (List.mem_reverse.mp hmem)
    simp [hother]
  unfold lastPresence
  rw [he, List.reverse_append, List.find?_append, hnone, Option.none_or]

theorem lastPresence_snoc {s s' : Store} {e : EventRow} (n : NodeId)
    (he : s'.events = s.events ++ [e]) (hp : isPresence e.kind = true) :
    lastPresence s' n = if e.nodeId = n then some e.kind else lastPresence s n := by
  unfold lastPresence
  rw [he, List.reverse_append, List.reverse_singleton, List.singleton_append, List.find?_cons]
  by_cases hn : e.nodeId = n
  · simp [hp, hn]
  · simp [hp, hn]

theorem logSays_same {s s' : Store} (n : NodeId) (he : s'.events = s.events) :
    logSays s' n = logSays s n := by
  have happend : s'.events = s.events ++ [] := he.trans (List.append_nil _).symm
  unfold logSays
  rw [lastPresence_append_other n happend fun _ hm => absurd hm List.not_mem_nil]

/-- The presence event of a session whose append goes through. -/
theorem logSays_appended {append fetch : CallEnv} {h : HubState} {d : EventDraft}
    (hc : CommitsEvent append h.hub ⟨append.uuid⟩ d) (hp : isPresence d.kind = true) (n : NodeId) :
    logSays (h.appendAndBroadcastNodeEvent append fetch ⟨append.uuid⟩ d).1.hub n =
      if d.nodeId = n then decide (d.kind = .nodeConnected) else logSays h.hub n := by
  have hsnoc : lastPresence (h.hub.nodeAppended append ⟨append.uuid⟩ d) n =
      if d.nodeId = n then some d.kind else lastPresence h.hub n :=
    lastPresence_snoc (s := h.hub) (e := h.hub.nodeEvent append ⟨append.uuid⟩ d) n rfl hp
  have hwrite : logSays (h.hub.nodeAppended append ⟨append.uuid⟩ d) n =
      if d.nodeId = n then decide (d.kind = .nodeConnected) else logSays h.hub n := by
    unfold logSays
    rw [hsnoc]
    split <;> simp
  obtain ⟨-, hno⟩ | ⟨-, -, heq⟩ | ⟨-, -, heq⟩ := event_cases append fetch h ⟨append.uuid⟩ d
  · exact absurd hc hno
  · rw [heq]
    exact hwrite
  · rw [heq]
    exact hwrite

theorem rowSays_putRow (h : HubState) (node : Node) (n : NodeId) :
    rowSays (putRow h node).hub n =
      if node.id = n then decide (node.status = .connected) else rowSays h.hub n := by
  unfold rowSays nodeStatus
  rw [putRow_lookup]
  split <;> simp

theorem rowSays_upsertConnected {env : CallEnv} {h : HubState} {hello : NodeHello}
    (hr : env.refusal = none) (n : NodeId) :
    rowSays (h.upsertConnected env hello).hub n =
      if hello.nodeId = n then true else rowSays h.hub n := by
  rcases upsertConnected_cases env h hello with ⟨hno, -⟩ | heq
  · exact absurd hr hno
  · rw [heq, rowSays_putRow]
    rfl

/-- A departure leaves the node without a row that says it is there. -/
theorem rowSays_upsertDisconnected {read upsert : CallEnv} {h : HubState} {m : NodeId}
    (hread : read.refusal = none) (hr : upsert.refusal = none) (n : NodeId) :
    rowSays (h.upsertDisconnected read upsert m).hub n =
      if m = n then false else rowSays h.hub n := by
  rcases upsertDisconnected_cases read upsert h m with ⟨heq, hnone⟩ | ⟨node, hl, heq⟩
  · rw [heq]
    split
    · next hn =>
        subst hn
        unfold rowSays nodeStatus
        rw [hnone hread hr]
        rfl
    · rfl
  · obtain rfl := (Table.mem_of_lookup hl).2
    rw [heq, rowSays_putRow]
    rfl

/-! ## One step -/

theorem Aside.rowSays {P : EventRow → Prop} {h h' : HubState} (ha : Aside P h h') (n : NodeId) :
    rowSays h'.hub n = rowSays h.hub n := by
  unfold Hub.rowSays nodeStatus
  rw [ha.rows]

theorem Aside.logSays {h h' : HubState} (ha : Aside Other h h') (n : NodeId) :
    logSays h'.hub n = logSays h.hub n := by
  obtain ⟨es, hes, hother⟩ := ha.events
  unfold Hub.logSays
  rw [lastPresence_append_other n hes hother]

/-- What the two copies have in common: an arrival and a departure are owed from
the change of the registry on, and neither is owed in the loop. -/
structure IsCopy (owes : SessionPhase → Option Bool) (copied : Store → NodeId → Bool) : Prop where
  registered : owes .registered = some true
  left : owes .left = some false
  live : ∀ x, owes (.live x) = none
  aside : ∀ h h' n, Aside Other h h' → copied h'.hub n = copied h.hub n

theorem isCopy_row : IsCopy owesRow rowSays := ⟨rfl, rfl, fun _ => rfl, fun _ _ n ha => ha.rowSays n⟩

theorem isCopy_log : IsCopy owesEvent logSays :=
  ⟨rfl, rfl, fun _ => rfl, fun _ _ n ha => ha.logSays n⟩

/-- The labels of the steps that bring the copies up to date. -/
def IsRecord : FleetLabel → Prop
  | .upsert .. | .announce .. | .demote .. | .depart .. => True
  | _ => False

section Step

variable {owes : SessionPhase → Option Bool} {copied : Store → NodeId → Bool} {f f' : Fleet}

/-- Every other step. -/
theorem IsCopy.move (hk : IsCopy owes copied) (hfresh : f.FreshIds) {a : FleetLabel}
    (hok : Truthful f a) (hrec : ¬ IsRecord a) (hs : f.step a = some f') (n : NodeId) :
    Move (presenceMirror owes copied f n) (presenceMirror owes copied f' n) := by
  by_cases ha : Fleet.Elsewhere a
  · obtain ⟨hsessions, haside⟩ := Fleet.step_elsewhere ha hs
    exact move_aside hsessions (congrFun haside.nodes n) (hk.aside _ _ n haside)
  cases a with
  | dial hello =>
      obtain ⟨-, -, rfl⟩ := Fleet.step_dial hs
      by_cases hn : hello.nodeId = n
      · -- the new connection owes an arrival
        subst hn
        refine .owe f.hub.nextNodeConnectionId ?_
        simp [presenceMirror, Fleet.setSession, registerNode, owing, hk.registered]
      · refine .keep (congrArg Option.isSome (Function.update_of_ne (Ne.symm hn) _ _)) rfl ?_
        intro i hi
        refine owing_update (.inl ?_) hi
        unfold owing
        rw [hfresh _ le_rfl]
  | check c validate id d =>
      obtain ⟨hello, hc, hcases⟩ := Fleet.step_check hs
      have haside := Aside.acceptsNodeEvent (P := Other) validate f.hub hello.nodeId d
      have hroute := haside.trans (.routeToNode _ hello.nodeId (.eventAck id))
      obtain ⟨-, rfl⟩ | rfl | rfl := hcases
      · exact move_session hc rfl (congrFun haside.nodes n) (hk.aside _ _ n haside)
          fun _ => .inl (hk.live _)
      · exact move_aside rfl (congrFun haside.nodes n) (hk.aside _ _ n haside)
      · exact move_aside rfl (congrFun hroute.nodes n) (hk.aside _ _ n hroute)
  | append c append fetch =>
      obtain ⟨hello, id, d, hc, rfl⟩ := Fleet.step_append hs
      have haside := Aside.appendAccepted (P := Other) append fetch f.hub hello.nodeId id d
        (hok hello id d hc)
      exact move_session hc rfl (congrFun haside.nodes n) (hk.aside _ _ n haside)
        fun _ => .inl (hk.live _)
  | hangUp c =>
      obtain ⟨hello, hc, -, ⟨-, rfl⟩ | ⟨-, rfl⟩⟩ := Fleet.step_hangUp hs
      · by_cases hn : hello.nodeId = n
        · -- the session that held the slot owes a departure
          subst hn
          refine .owe c ?_
          simp [presenceMirror, Fleet.setSession, owing, hk.left]
        · exact move_session hc rfl (Function.update_of_ne (Ne.symm hn) _ _) rfl
            fun hown => absurd hown hn
      · exact move_session hc rfl rfl rfl fun _ => .inl (hk.live _)
  | upsert c env => exact absurd trivial hrec
  | announce c append fetch now => exact absurd trivial hrec
  | demote c read upsert => exact absurd trivial hrec
  | depart c append fetch now => exact absurd trivial hrec
  | _ => exact absurd trivial ha

/-- A write to the row lands while it is true. -/
theorem row_move (hfresh : f.FreshIds) {a : FleetLabel} (hok : Truthful f a)
    (hs : f.step a = some f') (n : NodeId) :
    Move (presenceMirror owesRow rowSays f n) (presenceMirror owesRow rowSays f' n) := by
  by_cases hrec : IsRecord a
  · cases a with
    | upsert c env =>
        obtain ⟨hello, hc, rfl⟩ := Fleet.step_upsert hs
        exact move_record hc rfl (upsertConnected_frame env f.hub hello).1
          (rowSays_upsertConnected hok.1 n) hok.2
    | announce c append fetch now =>
        obtain ⟨hello, hc, rfl⟩ := Fleet.step_announce hs
        have haside := Aside.appendAndBroadcastNodeEvent (P := fun _ => True) append fetch f.hub
          ⟨append.uuid⟩ (connectedDraft hello now) trivial
        exact move_session hc rfl (congrFun haside.nodes n) (haside.rowSays n) fun _ => .inl rfl
    | demote c read upsert =>
        obtain ⟨hello, hc, rfl⟩ := Fleet.step_demote hs
        obtain ⟨hread, hr, htrue⟩ := hok
        exact move_record hc rfl (upsertDisconnected_frame read upsert f.hub hello.nodeId).1
          (rowSays_upsertDisconnected hread hr n) htrue
    | depart c append fetch now =>
        obtain ⟨hello, hc, rfl⟩ := Fleet.step_depart hs
        have haside := Aside.appendAndBroadcastNodeEvent (P := fun _ => True) append fetch f.hub
          ⟨append.uuid⟩ (disconnectedDraft hello.nodeId now) trivial
        exact move_session hc rfl (congrFun haside.nodes n) (haside.rowSays n) fun _ => .inl rfl
    | _ => exact hrec.elim
  · exact isCopy_row.move hfresh hok hrec hs n

/-- A presence event lands while it is true. -/
theorem event_move (hfresh : f.FreshIds) {a : FleetLabel} (hok : Truthful f a)
    (hs : f.step a = some f') (n : NodeId) :
    Move (presenceMirror owesEvent logSays f n) (presenceMirror owesEvent logSays f' n) := by
  by_cases hrec : IsRecord a
  · cases a with
    | upsert c env =>
        obtain ⟨hello, hc, rfl⟩ := Fleet.step_upsert hs
        obtain ⟨hnodes, hevents⟩ := upsertConnected_frame env f.hub hello
        exact move_session hc rfl (congrFun hnodes n) (logSays_same n hevents)
          fun _ => .inr ⟨.stored, rfl, rfl⟩
    | announce c append fetch now =>
        obtain ⟨hello, hc, rfl⟩ := Fleet.step_announce hs
        obtain ⟨htrue, hcommits⟩ := hok
        have haside := Aside.appendAndBroadcastNodeEvent (P := fun _ => True) append fetch f.hub
          ⟨append.uuid⟩ (connectedDraft hello now) trivial
        exact move_record hc rfl haside.nodes (logSays_appended (hcommits _ hc) rfl n) htrue
    | demote c read upsert =>
        obtain ⟨hello, hc, rfl⟩ := Fleet.step_demote hs
        obtain ⟨hnodes, hevents⟩ := upsertDisconnected_frame read upsert f.hub hello.nodeId
        exact move_session hc rfl (congrFun hnodes n) (logSays_same n hevents)
          fun _ => .inr ⟨.demoted, rfl, rfl⟩
    | depart c append fetch now =>
        obtain ⟨hello, hc, rfl⟩ := Fleet.step_depart hs
        obtain ⟨htrue, hcommits⟩ := hok
        have haside := Aside.appendAndBroadcastNodeEvent (P := fun _ => True) append fetch f.hub
          ⟨append.uuid⟩ (disconnectedDraft hello.nodeId now) trivial
        exact move_record hc rfl haside.nodes (logSays_appended (hcommits _ hc) rfl n)
          htrue
    | _ => exact hrec.elim
  · exact isCopy_log.move hfresh hok hrec hs n

end Step

/-! ## Runs -/

/-- Each copy is right or about to be put right. -/
theorem recorded {f : Fleet} (h : Fleet.system.Reach Truthful f) :
    ∀ n, Converging (presenceMirror owesRow rowSays f n) ∧
      Converging (presenceMirror owesEvent logSays f n) := by
  refine h.invariant_reach (P := fun f => ∀ n,
    Converging (presenceMirror owesRow rowSays f n) ∧
      Converging (presenceMirror owesEvent logSays f n)) ?_ ?_
  · rintro f ⟨h, ⟨refusal, nodeSecret, clientSecret, rfl⟩, rfl⟩ n
    obtain ⟨m, hm⟩ := Store.runMigrations_fst refusal Store.blank
    refine ⟨.inl ?_, .inl ?_⟩
    · simp only [Fleet.idle, fromHub, hm, presenceMirror]
      rfl
    · simp only [Fleet.idle, fromHub, hm, presenceMirror]
      rfl
  · intro f a f' hreach hi hok hs n
    have hfresh := Fleet.FreshIds.of_reach hreach
    obtain ⟨hrow, hevent⟩ := hi n
    exact ⟨(row_move hfresh hok hs n).converging hrow,
      (event_move hfresh hok hs n).converging hevent⟩

/-- **Presence converges** in the runs in which no false record is the last one
owed. -/
theorem presence_converges {f : Fleet} (h : Fleet.system.Reach Truthful f) :
    PresenceConverges f := by
  refine ⟨newer_stays f, fun n hn => ?_⟩
  obtain ⟨hrow, hevent⟩ := recorded h n
  have hevent := hevent.agree (owing_rest (fun _ => rfl) hn)
  have hrow := hrow.agree (owing_rest (fun _ => rfl) hn)
  have hiff : ∀ {b c : Bool}, b = c → (b = true ↔ c = true) := fun heq => heq ▸ Iff.rfl
  exact ⟨decide_eq_true_iff.symm.trans (hiff hevent), decide_eq_true_iff.symm.trans (hiff hrow)⟩

/-- The connection `c` ends and records it, minting the event `u`. -/
def leaving (c u : ℕ) : List FleetLabel :=
  [.hangUp c, .demote c (plainCall 1) (plainCall 1),
    .depart c (plainCall u) (plainCall 1) .epoch]

/-- A node connects, leaves and connects again, each session done before the
next. -/
theorem presence_converges_sample :
    ∃ f, Fleet.system.run freshFleet
        (connecting "laptop" 1 2 ++ leaving 1 3 ++ connecting "laptop" 2 4) = some f ∧
      PresenceConverges f := by
  refine ⟨_, rfl, ?_⟩
  have hfresh : Fleet.system.Reach Truthful freshFleet := .start Fleet.fresh_init
  have hdial := hfresh.next (a := FleetLabel.dial (helloOf "laptop" "claude")) trivial rfl
  have hupsert := hdial.next (a := FleetLabel.upsert 1 (plainCall 1))
    ⟨rfl, by rintro s ⟨⟩; exact .inl rfl⟩ rfl
  have hannounce := hupsert.next (a := FleetLabel.announce 1 (plainCall 2) (plainCall 1) .epoch)
    ⟨by rintro s ⟨⟩; exact .inl rfl, by rintro s ⟨⟩; decide⟩ rfl
  have hhang := hannounce.next (a := FleetLabel.hangUp 1) trivial rfl
  have hdemote := hhang.next (a := FleetLabel.demote 1 (plainCall 1) (plainCall 1))
    ⟨rfl, rfl, by rintro s ⟨⟩; exact .inl rfl⟩ rfl
  have hdepart := hdemote.next (a := FleetLabel.depart 1 (plainCall 3) (plainCall 1) .epoch)
    ⟨by rintro s ⟨⟩; exact .inl rfl, by rintro s ⟨⟩; decide⟩ rfl
  have hagain := hdepart.next (a := FleetLabel.dial (helloOf "laptop" "claude")) trivial rfl
  have hrow := hagain.next (a := FleetLabel.upsert 2 (plainCall 1)) ⟨rfl, by rintro s ⟨⟩; exact .inl rfl⟩ rfl
  exact presence_converges (hrow.next (a := FleetLabel.announce 2 (plainCall 4) (plainCall 1) .epoch)
    ⟨by rintro s ⟨⟩; exact .inl rfl, by rintro s ⟨⟩; decide⟩ rfl)

/-- The first session frees the slot, the second connects and records it, and
only then the first records that it left. -/
def overlap : List FleetLabel :=
  connecting "laptop" 1 2 ++ [.hangUp 1] ++ connecting "laptop" 2 3 ++
    [.demote 1 (plainCall 1) (plainCall 1), .depart 1 (plainCall 4) (plainCall 1) .epoch]

set_option maxRecDepth 4096 in
theorem reconnect_shown_offline :
    ∃ f, Fleet.system.Reach Anyway f ∧ ¬ PresenceConverges f := by
  have hrun : ∃ f, Fleet.system.run freshFleet overlap = some f ∧
      f.hub.nextNodeConnectionId = 3 ∧ f.sessions 0 = none ∧ f.sessions 1 = none ∧
      f.sessions 2 = some ⟨helloOf "laptop" "claude", .live none⟩ ∧
      (f.hub.nodes ⟨"laptop"⟩).isSome = true ∧
      lastPresence f.hub.hub ⟨"laptop"⟩ = some .nodeDisconnected :=
    ⟨_, rfl, rfl, rfl, rfl, rfl, rfl, rfl⟩
  obtain ⟨f, hf, hid, h0, h1, h2, hnode, hlast⟩ := hrun
  have hreach : Fleet.system.Reach Anyway f := .of_run (.start Fleet.fresh_init) hf
  refine ⟨f, hreach, fun h => ?_⟩
  have hsettled : Settled f ⟨"laptop"⟩ := by
    intro c s hs _
    have hlt : c < 3 := by
      by_contra hge
      rw [Fleet.FreshIds.of_reach hreach c (hid ▸ Nat.le_of_not_lt hge)] at hs
      cases hs
    obtain rfl | rfl | rfl : c = 0 ∨ c = 1 ∨ c = 2 := by omega
    · cases h0.symm.trans hs
    · cases h1.symm.trans hs
    · cases h2.symm.trans hs
      exact ⟨none, rfl⟩
  have hsaid := (h.2 ⟨"laptop"⟩ hsettled).1.mpr hnode
  cases hlast.symm.trans hsaid

end Stackhour.Hub
