import Stackhour.Hub.FleetSteps

/-!
# What a run is scheduled on

Whether a node is there is read from the registry, and what it can run from its
row. The registry is changed by a session when it starts and the row by the same
session later, so at a selection the row may still be that of an earlier
connection of the node.
-/

namespace Stackhour.Hub

open Domain TransitionSystem HubState

/-! ## The property -/

/-- At the moment `m` the node `n` is connected, its connection advertises the
engine, and it is the preferred node if one is asked for. -/
def Suits (m : Moment) (n : NodeId) : Prop :=
  (∃ hello, m.connected n = some hello ∧ nodeAcceptsEngine hello.capabilities m.engine = true) ∧
    ∀ wanted, m.preferred = some wanted → n = wanted

/-- **Scheduling safety.** -/
def SchedulingSafe (f : Fleet) : Prop :=
  ∀ run m, (run, m) ∈ f.scheduled → Suits m run.nodeId

/-- The connection `c` has its node's slot and has not written the row yet. -/
def AwaitsRow (f : Fleet) (c : ℕ) : Prop :=
  ∃ hello, f.sessions c = some ⟨hello, .registered⟩ ∧ f.hub.nodes hello.nodeId = some c

/-- No node that still awaits its row is matched with the request by the row it
has, unless it would be by its own capabilities. -/
def MatchesCurrent (f : Fleet) (engine : String) (preferred : Option NodeId) : Prop :=
  ∀ c hello, f.sessions c = some ⟨hello, .registered⟩ → f.hub.nodes hello.nodeId = some c →
    (∀ wanted, preferred = some wanted → hello.nodeId = wanted) →
    ∀ row ∈ f.hub.hub.nodes, row.id = hello.nodeId →
      nodeAcceptsEngine row.capabilities engine = true →
      nodeAcceptsEngine hello.capabilities engine = true

/-- An arrival is written into the row, and not after a newer one of the node;
and no request is matched with the row of an earlier connection. -/
def RowsInTime (f : Fleet) : FleetLabel → Prop
  | .upsert c env => env.refusal = none ∧ ∀ s k, f.sessions c = some s →
      f.hub.nodes s.hello.nodeId = some k → k = c ∨ AwaitsRow f k
  | .command _ (.startRun _ _ preferred engine ..) => MatchesCurrent f engine preferred
  | .createWorkerTask _ request => MatchesCurrent f request.engine request.preferredNode
  | _ => True

/-! ## The row of the current connection -/

/-- A session that has not left. -/
def SessionPhase.here : SessionPhase → Bool
  | .left | .demoted => false
  | _ => true

/-- Whoever has a slot is a session of that node that has not left, and once it
has written the row, every row of the node has its capabilities. -/
structure RowsCurrent (f : Fleet) : Prop where
  holder : ∀ n c, f.hub.nodes n = some c →
    ∃ s, f.sessions c = some s ∧ s.hello.nodeId = n ∧ s.phase.here = true
  row : ∀ n c s, f.hub.nodes n = some c → f.sessions c = some s → s.phase ≠ .registered →
    ∀ row ∈ f.hub.hub.nodes, row.id = n → row.capabilities = s.hello.capabilities

theorem mem_putRow {h : HubState} {node row : Node} (hr : row ∈ (putRow h node).hub.nodes) :
    row = node ∨ (row ∈ h.hub.nodes ∧ row.id ≠ node.id) := by
  simp only [putRow, Store.upsert] at hr
  split at hr
  · rcases Table.mem_update.mp hr with ⟨_, -, -, heq⟩ | hold
    · exact .inl heq.symm
    · exact .inr hold
  · next hfresh =>
      rcases List.mem_append.mp hr with hold | hnew
      · refine .inr ⟨hold, fun hid => hfresh ?_⟩
        exact hid ▸ List.mem_map_of_mem hold
      · exact .inl (List.mem_singleton.mp hnew)

/-- No row of a node has capabilities that no row of it had. -/
def NoNewCapabilities (h h' : HubState) : Prop :=
  ∀ row' ∈ h'.hub.nodes, ∃ row ∈ h.hub.nodes, row.id = row'.id ∧
    row.capabilities = row'.capabilities

theorem Aside.noNewCapabilities {P : EventRow → Prop} {h h' : HubState} (ha : Aside P h h') :
    NoNewCapabilities h h' := by
  intro row hr
  rw [ha.rows] at hr
  exact ⟨row, hr, rfl, rfl⟩

theorem noNewCapabilities_upsertDisconnected (read upsert : CallEnv) (h : HubState) (n : NodeId) :
    NoNewCapabilities h (h.upsertDisconnected read upsert n) := by
  intro row hr
  rcases upsertDisconnected_cases read upsert h n with ⟨heq, -⟩ | ⟨node, hl, heq⟩
  · rw [heq] at hr
    exact ⟨row, hr, rfl, rfl⟩
  · rw [heq] at hr
    rcases mem_putRow hr with rfl | ⟨hold, -⟩
    · exact ⟨node, (Table.mem_of_lookup hl).1, rfl, rfl⟩
    · exact ⟨row, hold, rfl, rfl⟩

namespace RowsCurrent

variable {f f' : Fleet}

/-- Sessions and registry stand. -/
theorem of_aside (hi : RowsCurrent f) (hsessions : f'.sessions = f.sessions)
    (hnodes : f'.hub.nodes = f.hub.nodes) (hrows : NoNewCapabilities f.hub f'.hub) :
    RowsCurrent f' where
  holder n c hn := by
    rw [hsessions]
    exact hi.holder n c (hnodes ▸ hn)
  row n c s hn hc hp row' hr hid := by
    obtain ⟨row, hrow, hsame, hcap⟩ := hrows row' hr
    exact hcap ▸ hi.row n c s (hnodes ▸ hn) (hsessions ▸ hc) hp row hrow (hsame.trans hid)

/-- A session goes on, past the write of its row, or it had left and ends. -/
theorem of_session (hi : RowsCurrent f) {c : ℕ} {hello : NodeHello} {p : SessionPhase}
    {s' : Option NodeSession} (hc : f.sessions c = some ⟨hello, p⟩)
    (hsessions : f'.sessions = Function.update f.sessions c s')
    (hnodes : f'.hub.nodes = f.hub.nodes) (hrows : NoNewCapabilities f.hub f'.hub)
    (hs : p.here = true →
      ∃ p', s' = some ⟨hello, p'⟩ ∧ p'.here = true ∧ p ≠ .registered) :
    RowsCurrent f' := by
  refine ⟨?_, ?_⟩
  · intro n k hn
    obtain ⟨s, hk, hid, hhere⟩ := hi.holder n k (hnodes ▸ hn)
    rw [hsessions, Function.update_apply]
    split
    · next heq =>
        subst heq
        obtain rfl : s = ⟨hello, p⟩ := Option.some.inj (hk.symm.trans hc)
        obtain ⟨p', rfl, hhere', -⟩ := hs hhere
        exact ⟨⟨hello, p'⟩, rfl, hid, hhere'⟩
    · exact ⟨s, hk, hid, hhere⟩
  · intro n k s hn hk hp row' hr hid
    obtain ⟨row, hrow, hsame, hcap⟩ := hrows row' hr
    rw [hsessions, Function.update_apply] at hk
    rw [← hcap]
    split at hk
    · next heq =>
        subst heq
        obtain ⟨s₀, hk₀, hid₀, hhere⟩ := hi.holder n k (hnodes ▸ hn)
        obtain rfl : s₀ = ⟨hello, p⟩ := Option.some.inj (hk₀.symm.trans hc)
        obtain ⟨p', rfl, -, hreg⟩ := hs hhere
        obtain rfl := Option.some.inj hk
        exact hi.row n k ⟨hello, p⟩ (hnodes ▸ hn) hc hreg row hrow (hsame.trans hid)
    · exact hi.row n k s (hnodes ▸ hn) hk hp row hrow (hsame.trans hid)

/-- **The write of the row**, by the session that has the slot or before it. -/
theorem upsert (hi : RowsCurrent f) {c : ℕ} {env : CallEnv} {hello : NodeHello}
    (hok : RowsInTime f (.upsert c env)) (hc : f.sessions c = some ⟨hello, .registered⟩) :
    RowsCurrent ({ f with hub := f.hub.upsertConnected env hello }.setSession c
      ⟨hello, .stored⟩) := by
  obtain ⟨hr, hlast⟩ := hok
  rcases upsertConnected_cases env f.hub hello with ⟨hno, -⟩ | heq
  · exact absurd hr hno
  rw [heq]
  refine ⟨?_, ?_⟩
  · intro n k hn
    obtain ⟨s, hk, hid, hhere⟩ := hi.holder n k hn
    simp only [Fleet.setSession, Function.update_apply]
    split
    · next hkc =>
        subst hkc
        obtain rfl : s = ⟨hello, .registered⟩ := Option.some.inj (hk.symm.trans hc)
        exact ⟨_, rfl, hid, rfl⟩
    · exact ⟨s, hk, hid, hhere⟩
  · intro n k s hn hk hp row hrow hid
    simp only [Fleet.setSession, Function.update_apply] at hk
    obtain ⟨s₀, hk₀, hid₀, -⟩ := hi.holder n k hn
    split at hk
    · -- the session's own row
      next hkc =>
        subst hkc
        obtain rfl := Option.some.inj hk
        obtain rfl : s₀ = ⟨hello, .registered⟩ := Option.some.inj (hk₀.symm.trans hc)
        rcases mem_putRow hrow with rfl | ⟨-, hne⟩
        · rfl
        · exact absurd (hid.trans hid₀.symm) hne
    · next hkc =>
        obtain rfl : s₀ = s := Option.some.inj (hk₀.symm.trans hk)
        rcases mem_putRow hrow with rfl | ⟨hold, -⟩
        · -- the row of a session that has been replaced: the newer one is to write its own
          have hn' : f.hub.nodes hello.nodeId = some k := by
            have hsame : hello.nodeId = n := hid
            rw [hsame]
            exact hn
          rcases hlast ⟨hello, .registered⟩ k hc hn' with hown | ⟨hello', hreg, -⟩
          · exact absurd hown hkc
          · obtain rfl := Option.some.inj (hreg.symm.trans hk)
            exact absurd rfl hp
        · exact hi.row n k s₀ hn hk hp row hold hid

/-- A new connection has a fresh id and is still to write its row. -/
theorem dial (hi : RowsCurrent f) (hfresh : f.FreshIds) (hello : NodeHello) :
    RowsCurrent ({ f with hub := (f.hub.registerNode hello.nodeId).1 }.setSession
      f.hub.nextNodeConnectionId ⟨hello, .registered⟩) := by
  have hold : ∀ {n k}, f.hub.nodes n = some k → k ≠ f.hub.nextNodeConnectionId := by
    rintro n k hn rfl
    obtain ⟨s, hs, -⟩ := hi.holder n _ hn
    rw [hfresh _ le_rfl] at hs
    cases hs
  refine ⟨?_, ?_⟩
  · intro n k hn
    simp only [Fleet.setSession, registerNode, Function.update_apply] at hn ⊢
    split at hn
    · next heq =>
        cases hn
        exact ⟨_, if_pos rfl, heq.symm, rfl⟩
    · rw [if_neg (hold hn)]
      exact hi.holder n k hn
  · intro n k s hn hk hp
    simp only [Fleet.setSession, registerNode, Function.update_apply] at hn hk
    split at hn
    · cases hn
      rw [if_pos rfl] at hk
      cases hk
      exact absurd rfl hp
    · rw [if_neg (hold hn)] at hk
      exact hi.row n k s hn hk hp

/-- A session ends its loop: the slot it held is free. -/
theorem hangUp (hi : RowsCurrent f) {c : ℕ} (hs : f.step (.hangUp c) = some f') :
    RowsCurrent f' := by
  obtain ⟨hello, hc, -, ⟨hn, rfl⟩ | ⟨hn, rfl⟩⟩ := Fleet.step_hangUp hs
  · have hother : ∀ {n k}, Function.update f.hub.nodes hello.nodeId none n = some k →
        f.hub.nodes n = some k ∧ k ≠ c := by
      intro n k hk
      rw [Function.update_apply] at hk
      split at hk
      · cases hk
      · next hne =>
          refine ⟨hk, ?_⟩
          rintro rfl
          obtain ⟨s, hs', hid, -⟩ := hi.holder n k hk
          obtain rfl : s = ⟨hello, .live none⟩ := Option.some.inj (hs'.symm.trans hc)
          exact hne hid.symm
    refine ⟨?_, ?_⟩
    · intro n k hk
      obtain ⟨hk, hne⟩ := hother hk
      simp only [Fleet.setSession, Function.update_of_ne hne]
      exact hi.holder n k hk
    · intro n k s hk hsession
      obtain ⟨hk, hne⟩ := hother hk
      simp only [Fleet.setSession, Function.update_of_ne hne] at hsession
      exact hi.row n k s hk hsession
  · -- the session does not hold the slot
    have hne : ∀ {n k}, f.hub.nodes n = some k → k ≠ c := by
      rintro n k hk rfl
      obtain ⟨s, hs', hid, -⟩ := hi.holder n k hk
      obtain rfl : s = ⟨hello, .live none⟩ := Option.some.inj (hs'.symm.trans hc)
      exact hn (hid ▸ hk)
    refine ⟨?_, ?_⟩
    · intro n k hk
      simp only [Function.update_of_ne (hne hk)]
      exact hi.holder n k hk
    · intro n k s hk hsession
      simp only [Function.update_of_ne (hne hk)] at hsession
      exact hi.row n k s hk hsession

theorem step (hi : RowsCurrent f) (hfresh : f.FreshIds) {a : FleetLabel} (hok : RowsInTime f a)
    (hs : f.step a = some f') : RowsCurrent f' := by
  have hnote := fun (append fetch : CallEnv) id d =>
    Aside.appendAndBroadcastNodeEvent (P := fun _ => True) append fetch f.hub id d trivial
  by_cases ha : Fleet.Elsewhere a
  · obtain ⟨hsessions, haside⟩ := Fleet.step_elsewhere ha hs
    exact hi.of_aside hsessions haside.nodes haside.noNewCapabilities
  cases a with
  | dial hello =>
      obtain ⟨-, -, rfl⟩ := Fleet.step_dial hs
      exact hi.dial hfresh hello
  | upsert c env =>
      obtain ⟨hello, hc, rfl⟩ := Fleet.step_upsert hs
      exact hi.upsert hok hc
  | announce c append fetch now =>
      obtain ⟨hello, hc, rfl⟩ := Fleet.step_announce hs
      have haside := hnote append fetch ⟨append.uuid⟩ (connectedDraft hello now)
      exact hi.of_session hc rfl haside.nodes haside.noNewCapabilities
        fun _ => ⟨_, rfl, rfl, SessionPhase.noConfusion⟩
  | check c validate id d =>
      obtain ⟨hello, hc, hcases⟩ := Fleet.step_check hs
      have haside := Aside.acceptsNodeEvent (P := fun _ => True) validate f.hub hello.nodeId d
      have hroute := haside.trans (.routeToNode _ hello.nodeId (.eventAck id))
      obtain ⟨-, rfl⟩ | rfl | rfl := hcases
      · exact hi.of_session hc rfl haside.nodes haside.noNewCapabilities
          fun _ => ⟨_, rfl, rfl, SessionPhase.noConfusion⟩
      · exact hi.of_aside rfl haside.nodes haside.noNewCapabilities
      · exact hi.of_aside rfl hroute.nodes hroute.noNewCapabilities
  | append c append fetch =>
      obtain ⟨hello, id, d, hc, rfl⟩ := Fleet.step_append hs
      have haside := Aside.appendAccepted (P := fun _ => True) append fetch f.hub hello.nodeId id d
        trivial
      exact hi.of_session hc rfl haside.nodes haside.noNewCapabilities
        fun _ => ⟨_, rfl, rfl, SessionPhase.noConfusion⟩
  | hangUp c => exact hi.hangUp hs
  | demote c read upsert =>
      obtain ⟨hello, hc, rfl⟩ := Fleet.step_demote hs
      exact hi.of_session hc rfl (upsertDisconnected_frame read upsert f.hub _).1
        (noNewCapabilities_upsertDisconnected read upsert f.hub _) fun h => by cases h
  | depart c append fetch now =>
      obtain ⟨hello, hc, rfl⟩ := Fleet.step_depart hs
      have haside := hnote append fetch ⟨append.uuid⟩ (disconnectedDraft hello.nodeId now)
      exact hi.of_session hc rfl haside.nodes haside.noNewCapabilities fun h => by cases h
  | _ => exact absurd trivial ha

theorem of_reach (h : Fleet.system.Reach RowsInTime f) : RowsCurrent f := by
  refine h.invariant_reach ?_ fun f a f' hreach hi hok hs =>
    hi.step (Fleet.FreshIds.of_reach hreach) hok hs
  rintro f ⟨h, ⟨refusal, nodeSecret, clientSecret, rfl⟩, rfl⟩
  refine ⟨?_, ?_⟩
  · intro n c hn
    cases hn
  · intro n c s hn
    cases hn

/-- **Selection.** The node selected suits the moment. -/
theorem suits (hi : RowsCurrent f) {env : CallEnv} {engine : String} {preferred : Option NodeId}
    {n : NodeId} (hok : MatchesCurrent f engine preferred)
    (ho : f.hub.eligibleExecutionNode env engine preferred = .ok n) :
    Suits (f.moment engine preferred) n := by
  obtain ⟨⟨row, hrow, hid, haccepts⟩, hconn, hwanted⟩ := eligibleExecutionNode_ok ho
  obtain ⟨c, hc⟩ := Option.isSome_iff_exists.mp hconn
  obtain ⟨⟨hello, p⟩, hs, hn, -⟩ := hi.holder n c hc
  have hn : hello.nodeId = n := hn
  subst hn
  refine ⟨⟨hello, ?_, ?_⟩, hwanted⟩
  · simp only [Fleet.moment, Moment.connected, hc, Option.bind_some, hs, Option.map_some]
  · show nodeAcceptsEngine hello.capabilities engine = true
    by_cases hp : p = .registered
    · subst hp
      exact hok c hello hs hc hwanted row hrow hid haccepts
    · rw [← hi.row _ c _ hc hs hp row hrow hid]
      exact haccepts

end RowsCurrent

/-! ## Runs -/

/-- The label selects the node `n` at the moment `m`. -/
def Selection (f : Fleet) : FleetLabel → Moment → NodeId → Prop
  | .command env (.startRun _ _ preferred engine ..), m, n =>
      f.hub.eligibleExecutionNode env.lookup engine preferred = .ok n ∧
        m = f.moment engine preferred
  | .createWorkerTask env request, m, n =>
      f.hub.eligibleExecutionNode env request.engine request.preferredNode = .ok n ∧
        m = f.moment request.engine request.preferredNode
  | _, _, _ => False

/-- What every selection meets, every run scheduled meets, and every creation in
progress. -/
theorem selections_scheduled {ok : Fleet → FleetLabel → Prop} {P : Moment → NodeId → Prop}
    (hsel : ∀ f a m n, Fleet.system.Reach ok f → ok f a → Selection f a m n → P m n) {f : Fleet}
    (h : Fleet.system.Reach ok f) :
    CacheOk f.hub ∧ (∀ run m, (run, m) ∈ f.scheduled → P m run.nodeId) ∧
      ∀ call, f.gate = some call → P call.moment call.nodeId := by
  refine h.invariant_reach (P := fun f => CacheOk f.hub ∧
    (∀ run m, (run, m) ∈ f.scheduled → P m run.nodeId) ∧
      ∀ call, f.gate = some call → P call.moment call.nodeId) ?_ ?_
  · rintro f ⟨h, hinit, rfl⟩
    refine ⟨CacheOk.init hinit, ?_, ?_⟩
    · intro run m hm
      exact absurd hm List.not_mem_nil
    · intro call hcall
      cases hcall
  · rintro f a f' hreach ⟨hcache, hruns, hgate⟩ hok hs
    obtain ⟨hcache', hgains⟩ := Fleet.step_runs hcache hs
    refine ⟨hcache', ?_, ?_⟩
    · intro run m hm
      rcases Fleet.step_scheduled hs hm with hm | ⟨hnew, ⟨env, cmd, rfl, rfl⟩ | ⟨e, call, rfl, hcall, rfl⟩⟩
      · exact hruns run m hm
      · obtain ⟨⟨c, t, p, engine, model, effort, prompt, policy, workspace, rfl, hnode⟩, -⟩ :=
          hgains.newRuns hnew
        exact hsel f _ _ _ hreach hok ⟨hnode, rfl⟩
      · obtain ⟨⟨call', hcall', hnode⟩, -⟩ := hgains.newRuns hnew
        obtain rfl : call = call' := Option.some.inj (hcall.symm.trans hcall')
        have hn : run.nodeId = call.nodeId := hnode
        exact hn ▸ hgate call hcall
    · intro call hcall
      rcases Fleet.step_gate hs hcall with ⟨before, hbefore, hn, -, hm⟩ | ⟨env, rfl, hn, hm⟩
      · rw [hn, hm]
        exact hgate before hbefore
      · exact hsel f _ _ _ hreach hok ⟨hn, hm⟩

/-- A preference is met in every run, whatever the rows say. -/
theorem preference_met {f : Fleet} (h : Fleet.system.Reach Anyway f) :
    ∀ run m, (run, m) ∈ f.scheduled → ∀ wanted, m.preferred = some wanted →
      run.nodeId = wanted := by
  refine (selections_scheduled (P := fun m n => ∀ wanted, m.preferred = some wanted → n = wanted)
    ?_ h).2.1
  intro f a m n _ _ hsel
  cases a with
  | command env cmd =>
      cases cmd with
      | startRun c t p engine model effort prompt policy workspace =>
          obtain ⟨ho, rfl⟩ := hsel
          exact (eligibleExecutionNode_ok ho).2.2
      | _ => exact hsel.elim
  | createWorkerTask env request =>
      obtain ⟨ho, rfl⟩ := hsel
      exact (eligibleExecutionNode_ok ho).2.2
  | _ => exact hsel.elim

/-- **Scheduling safety** in the runs in which the rows keep up with the
connections. -/
theorem scheduling_safe {f : Fleet} (h : Fleet.system.Reach RowsInTime f) : SchedulingSafe f := by
  refine (selections_scheduled ?_ h).2.1
  intro f a m n hreach hok hsel
  have hi := RowsCurrent.of_reach hreach
  cases a with
  | command env cmd =>
      cases cmd with
      | startRun c t p engine model effort prompt policy workspace =>
          obtain ⟨ho, rfl⟩ := hsel
          exact hi.suits hok ho
      | _ => exact hsel.elim
  | createWorkerTask env request =>
      obtain ⟨ho, rfl⟩ := hsel
      exact hi.suits hok ho
  | _ => exact hsel.elim

/-- A node connects, writes its row, and is sent a run that asks for it. -/
theorem scheduling_safe_sample :
    ∃ f, Fleet.system.run freshFleet (connecting "laptop" 1 2 ++ [.command (plainCommand 5)
        (.startRun ⟨5⟩ ⟨4⟩ (some ⟨"laptop"⟩) "claude" none none none .supervised none)]) = some f ∧
      f.scheduled.length = 1 ∧ SchedulingSafe f := by
  refine ⟨_, rfl, rfl, ?_⟩
  have hfresh : Fleet.system.Reach RowsInTime freshFleet := .start Fleet.fresh_init
  have hdial := hfresh.next (a := FleetLabel.dial (helloOf "laptop" "claude")) trivial rfl
  have hupsert := hdial.next (a := FleetLabel.upsert 1 (plainCall 1))
    ⟨rfl, by rintro s k ⟨⟩ ⟨⟩; exact .inl rfl⟩ rfl
  have hannounce := hupsert.next (a := FleetLabel.announce 1 (plainCall 2) (plainCall 1) .epoch)
    trivial rfl
  refine scheduling_safe (hannounce.next (a := FleetLabel.command (plainCommand 5)
    (.startRun ⟨5⟩ ⟨4⟩ (some ⟨"laptop"⟩) "claude" none none none .supervised none)) ?_ rfl)
  intro c hello hs
  -- the only session is in its loop
  have hlt : c < 2 := by
    by_contra hge
    rw [Fleet.FreshIds.of_reach hannounce c (Nat.le_of_not_lt hge)] at hs
    cases hs
  obtain rfl | rfl : c = 0 ∨ c = 1 := by omega
  · cases hs
  · cases hs

/-- The node comes back able to run another engine only, and a run of the first
is scheduled on it before its row is written again. -/
def comeback : List FleetLabel :=
  connecting "laptop" 1 2 ++ [.dial (helloOf "laptop" "codex"), beginning 5 4]

set_option maxRecDepth 4096 in
theorem scheduled_on_stale_row :
    ∃ f, Fleet.system.Reach Anyway f ∧ ¬ SchedulingSafe f := by
  have hrun : ∃ f, Fleet.system.run freshFleet comeback = some f ∧
      ∃ run m, (run, m) ∈ f.scheduled ∧
        m.connected run.nodeId = some (helloOf "laptop" "codex") ∧ m.engine = "claude" :=
    ⟨_, rfl, _, _, List.mem_singleton_self _, rfl, rfl⟩
  obtain ⟨f, hf, run, m, hm, hconn, hengine⟩ := hrun
  refine ⟨f, .of_run (.start Fleet.fresh_init) hf, fun h => ?_⟩
  obtain ⟨⟨hello, hhello, haccepts⟩, -⟩ := h run m hm
  obtain rfl := Option.some.inj (hconn.symm.trans hhello)
  rw [hengine] at haccepts
  revert haccepts
  decide

end Stackhour.Hub
