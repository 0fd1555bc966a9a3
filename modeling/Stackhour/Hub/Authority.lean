import Stackhour.Hub.FleetSteps

/-!
# What a node may speak for

A node link appends events under the id its session was authenticated with, for
runs durably bound to that node, across any interleaving of sessions, commands
and restarts. The id that marks the hub's own assistant is a string like any
other, and the handshake lets a node claim it: the separation of the assistant
from the workers holds in the runs where no node does.
-/

namespace Stackhour.Hub

open Domain TransitionSystem HubState

/-! ## The property -/

/-- **Node authority and the separation of the assistant.** -/
structure NodeAuthority (f : Fleet) : Prop where
  linked : ∀ n e, (n, e) ∈ f.linked → e.nodeId = n ∧
    ∃ run ∈ f.hub.hub.runs, e.runId = some run.id ∧ run.nodeId = n ∧ run.taskId = e.taskId
  scheduled : ∀ run m, (run, m) ∈ f.scheduled → run.nodeId ≠ hubNode
  separate : ∀ n e, (n, e) ∈ f.linked → ∀ run ∈ f.assistantRuns, e.runId ≠ some run.id

/-- No node dials in under the reserved id. -/
def NoHubNode : Fleet → AuthorityLabel → Prop
  | _, .fleet (.dial hello) => hello.nodeId ≠ hubNode
  | _, _ => True

/-! ## What an event is bound to -/

/-- A link may report the draft: it is of the node, about a run of that node and
of its task. -/
def Bound (s : Store) (n : NodeId) (d : EventDraft) : Prop :=
  d.nodeId = n ∧ ∃ r, d.runId = some r ∧ (r, n, d.taskId) ∈ bindings s

/-- The same of an event row. -/
def BoundRow (s : Store) (n : NodeId) (e : EventRow) : Prop :=
  e.nodeId = n ∧ ∃ r, e.runId = some r ∧ (r, n, e.taskId) ∈ bindings s

/-- The rows that a node append adds are those of its draft. -/
theorem newEvents_nodeEvent (append fetch : CallEnv) (h : HubState) (id : EventId)
    (d : EventDraft) {e : EventRow}
    (he : e ∈ newEvents h.hub (h.appendAndBroadcastNodeEvent append fetch id d).1.hub) :
    e = h.hub.nodeEvent append id d := by
  unfold newEvents at he
  obtain ⟨heq, -⟩ | ⟨-, -, heq⟩ | ⟨-, -, heq⟩ := event_cases append fetch h id d
  · rw [heq, List.drop_length] at he
    cases he
  all_goals
    rw [heq] at he
    simp only [announcedEvent, Store.nodeAppended, List.drop_left] at he
    exact List.mem_singleton.mp he

theorem newEvents_appendAccepted (append fetch : CallEnv) (h : HubState) (n : NodeId)
    (id : EventId) (d : EventDraft) {e : EventRow}
    (he : e ∈ newEvents h.hub (h.appendAccepted append fetch n id d).hub) :
    e = h.hub.nodeEvent append id d := by
  refine newEvents_nodeEvent append fetch h id d ?_
  unfold appendAccepted at he
  split at he <;> next heq =>
    first
      | rw [(routeToNode_hub _ _ _).1] at he
        exact heq ▸ he
      | exact heq ▸ he

/-! ## The invariant of every run -/

/-- The cache agrees with the runs, and what a session has checked or appended
is bound. -/
structure Authorised (f : Fleet) : Prop where
  cache : CacheOk f.hub
  checked : ∀ c hello id d, f.sessions c = some ⟨hello, .live (some (id, d))⟩ →
    Bound f.hub.hub hello.nodeId d
  linked : ∀ n e, (n, e) ∈ f.linked → BoundRow f.hub.hub n e

namespace Authorised

variable {f f' : Fleet}

theorem Bound.mono {s s' : Store} {n : NodeId} {d : EventDraft} (hb : Bound s n d)
    (hm : ∀ b ∈ bindings s, b ∈ bindings s') : Bound s' n d := by
  obtain ⟨hn, r, hr, hmem⟩ := hb
  exact ⟨hn, r, hr, hm _ hmem⟩

theorem BoundRow.mono {s s' : Store} {n : NodeId} {e : EventRow} (hb : BoundRow s n e)
    (hm : ∀ b ∈ bindings s, b ∈ bindings s') : BoundRow s' n e := by
  obtain ⟨hn, r, hr, hmem⟩ := hb
  exact ⟨hn, r, hr, hm _ hmem⟩

/-- A session holds an event that it held before or has just checked. -/
theorem step_checked {a : FleetLabel} (hs : f.step a = some f') {c : ℕ} {hello : NodeHello}
    {id : EventId} {d : EventDraft}
    (hc : f'.sessions c = some ⟨hello, .live (some (id, d))⟩) :
    f.sessions c = some ⟨hello, .live (some (id, d))⟩ ∨
      ∃ validate, (f.hub.acceptsNodeEvent validate hello.nodeId d).2 = .ok true := by
  have hother : ∀ {k : ℕ} {s : Option NodeSession}, (∀ x y, s ≠ some ⟨x, .live (some y)⟩) →
      Function.update f.sessions k s c = some ⟨hello, .live (some (id, d))⟩ →
      f.sessions c = some ⟨hello, .live (some (id, d))⟩ := by
    intro k s hne hk
    rw [Function.update_apply] at hk
    split at hk
    · exact absurd hk (hne _ _)
    · exact hk
  by_cases ha : Fleet.Elsewhere a
  · exact .inl ((Fleet.step_elsewhere ha hs).1 ▸ hc)
  cases a with
  | dial hello' =>
      obtain ⟨-, -, rfl⟩ := Fleet.step_dial hs
      exact .inl (hother (by simp) hc)
  | upsert k env =>
      obtain ⟨_, -, rfl⟩ := Fleet.step_upsert hs
      exact .inl (hother (by simp) hc)
  | announce k append fetch now =>
      obtain ⟨_, -, rfl⟩ := Fleet.step_announce hs
      exact .inl (hother (by simp) hc)
  | check k validate id' d' =>
      obtain ⟨hello', -, ⟨hok, rfl⟩ | rfl | rfl⟩ := Fleet.step_check hs
      · simp only [Fleet.setSession, Function.update_apply] at hc
        split at hc
        · cases hc
          exact .inr ⟨validate, hok⟩
        · exact .inl hc
      · exact .inl hc
      · exact .inl hc
  | append k append fetch =>
      obtain ⟨_, _, _, -, rfl⟩ := Fleet.step_append hs
      exact .inl (hother (by simp) hc)
  | hangUp k =>
      obtain ⟨_, -, -, ⟨-, rfl⟩ | ⟨-, rfl⟩⟩ := Fleet.step_hangUp hs
      · exact .inl (hother (by simp) hc)
      · exact .inl (hother (by simp) hc)
  | demote k read upsert =>
      obtain ⟨_, -, rfl⟩ := Fleet.step_demote hs
      exact .inl (hother (by simp) hc)
  | depart k append fetch now =>
      obtain ⟨_, -, rfl⟩ := Fleet.step_depart hs
      exact .inl (hother (by simp) hc)
  | _ => exact absurd trivial ha

/-- An event of a link is an old one, or one that its session held. -/
theorem step_linked {a : FleetLabel} (hs : f.step a = some f') {n : NodeId} {e : EventRow}
    (he : (n, e) ∈ f'.linked) :
    (n, e) ∈ f.linked ∨ ∃ c hello id d append,
      f.sessions c = some ⟨hello, .live (some (id, d))⟩ ∧ n = hello.nodeId ∧
        e = f.hub.hub.nodeEvent append id d := by
  by_cases ha : Fleet.Recording a
  · cases a with
    | append c append fetch =>
        obtain ⟨hello, id, d, hc, rfl⟩ := Fleet.step_append hs
        rcases List.mem_append.mp he with he | he
        · exact .inl he
        · obtain ⟨e', he', heq⟩ := List.mem_map.mp he
          obtain ⟨rfl, rfl⟩ := Prod.mk.inj heq
          exact .inr ⟨c, hello, id, d, append, hc, rfl,
            newEvents_appendAccepted append fetch f.hub hello.nodeId id d he'⟩
    | command env cmd =>
        obtain ⟨-, rfl⟩ := Fleet.step_command hs
        exact .inl he
    | createWorkerTask env request =>
        obtain ⟨_, rfl⟩ | ⟨_, -, -, rfl⟩ := Fleet.step_createWorkerTask hs <;> exact .inl he
    | stage e =>
        obtain ⟨_, -, ⟨_, -, rfl⟩ | ⟨_, -, rfl⟩⟩ := Fleet.step_stage hs <;> exact .inl he
    | startAssistant env c t engine model effort prompt workspace =>
        cases hs
        exact .inl he
    | _ => exact ha.elim
  · exact .inl ((Fleet.step_records ha hs).1 ▸ he)

theorem step (hi : Authorised f) {a : FleetLabel} (hs : f.step a = some f') : Authorised f' := by
  obtain ⟨hcache, hgains⟩ := Fleet.step_runs hi.cache hs
  refine ⟨hcache, ?_, ?_⟩
  · intro c hello id d hc
    refine Bound.mono ?_ hgains.bindings_mono
    rcases step_checked hs hc with hc | ⟨validate, hok⟩
    · exact hi.checked c hello id d hc
    · exact (hi.cache.acceptsNodeEvent validate hello.nodeId d).2 hok
  · intro n e he
    refine BoundRow.mono ?_ hgains.bindings_mono
    rcases step_linked hs he with he | ⟨c, hello, id, d, append, hc, rfl, rfl⟩
    · exact hi.linked n e he
    · exact hi.checked c hello id d hc

theorem of_reach {ok : Fleet → AuthorityLabel → Prop} {f : Fleet}
    (h : Fleet.restarting.Reach ok f) : Authorised f := by
  refine h.invariant ?_ ?_
  · rintro f ⟨h, hinit, rfl⟩
    refine ⟨CacheOk.init hinit, ?_, ?_⟩
    · intro c hello id d hc
      cases hc
    · intro n e he
      cases he
  · intro f a f' hi _ hs
    cases a with
    | fleet a => exact hi.step hs
    | restart =>
        cases hs
        refine ⟨?_, ?_, hi.linked⟩
        · intro r b hr
          cases hr
        · intro c hello id d hc
          cases hc

end Authorised

/-! ## The assistant's runs apart from the workers' -/

/-- Nothing of a node is under the reserved id, and the assistant's runs are. -/
structure Apart (f : Fleet) : Prop where
  unique : ((bindings f.hub.hub).map Prod.fst).Nodup
  sessions : ∀ c s, f.sessions c = some s → s.hello.nodeId ≠ hubNode
  registry : f.hub.nodes hubNode = none
  gate : ∀ call, f.gate = some call → call.nodeId ≠ hubNode
  linked : ∀ n e, (n, e) ∈ f.linked → n ≠ hubNode
  scheduled : ∀ run m, (run, m) ∈ f.scheduled → run.nodeId ≠ hubNode
  assistant : ∀ run ∈ f.assistantRuns, binding run ∈ bindings f.hub.hub ∧ run.nodeId = hubNode

namespace Apart

variable {f f' : Fleet}

/-- The node that a command or a creation selects is connected, so it is not the
reserved one. -/
theorem selected_ne (hi : Apart f) {env : CallEnv} {engine : String} {preferred : Option NodeId}
    {n : NodeId} (ho : f.hub.eligibleExecutionNode env engine preferred = .ok n) :
    n ≠ hubNode := by
  rintro rfl
  have hconn := (eligibleExecutionNode_ok ho).2.1
  rw [hi.registry] at hconn
  cases hconn

theorem step_sessions (hi : Apart f) {a : FleetLabel} (hok : NoHubNode f (.fleet a))
    (hs : f.step a = some f') (c : ℕ) (s : NodeSession) (hc : f'.sessions c = some s) :
    s.hello.nodeId ≠ hubNode := by
  rcases Fleet.step_sessions hs with ⟨hello, rfl, heq⟩ | heq | ⟨k, hello, p, s', hk, heq, hkept⟩
  · rw [heq, Function.update_apply] at hc
    split at hc
    · cases hc
      exact hok
    · exact hi.sessions c s hc
  · exact hi.sessions c s (heq ▸ hc)
  · rw [heq, Function.update_apply] at hc
    split at hc
    · rw [hkept s hc]
      exact hi.sessions k _ hk
    · exact hi.sessions c s hc

theorem step_registry (hi : Apart f) {a : FleetLabel} (hok : NoHubNode f (.fleet a))
    (hs : f.step a = some f') : f'.hub.nodes hubNode = none := by
  by_cases hdial : ∃ hello, a = .dial hello
  · obtain ⟨hello, rfl⟩ := hdial
    obtain ⟨-, -, rfl⟩ := Fleet.step_dial hs
    exact (Function.update_of_ne (Ne.symm hok) _ _).trans hi.registry
  by_cases hhang : ∃ c, a = .hangUp c
  · obtain ⟨c, rfl⟩ := hhang
    obtain ⟨hello, hc, -, ⟨-, rfl⟩ | ⟨-, rfl⟩⟩ := Fleet.step_hangUp hs
    · exact (Function.update_of_ne (Ne.symm (hi.sessions c _ hc)) _ _).trans hi.registry
    · exact hi.registry
  · obtain ⟨hnodes, -⟩ := Fleet.step_registry hs (fun hello h => hdial ⟨hello, h⟩)
      (fun c h => hhang ⟨c, h⟩)
    exact (congrFun hnodes hubNode).trans hi.registry

/-- The runs that a client or a creation schedules. -/
theorem step_scheduled (hi : Apart f) (ha : Authorised f) {a : FleetLabel}
    (hs : f.step a = some f') (run : RunRow) (m : Moment) (hm : (run, m) ∈ f'.scheduled) :
    run.nodeId ≠ hubNode := by
  obtain ⟨-, hgains⟩ := Fleet.step_runs ha.cache hs
  rcases Fleet.step_scheduled hs hm with hm | ⟨hnew, ⟨env, cmd, rfl, -⟩ | ⟨e, call, rfl, hcall, -⟩⟩
  · exact hi.scheduled run m hm
  · obtain ⟨⟨_, _, _, _, _, _, _, _, _, -, hnode⟩, -⟩ := hgains.newRuns hnew
    exact hi.selected_ne hnode
  · obtain ⟨⟨call', hcall', hnode⟩, -⟩ := hgains.newRuns hnew
    obtain rfl : call = call' := Option.some.inj (hcall.symm.trans hcall')
    have hn : run.nodeId = call.nodeId := hnode
    exact hn ▸ hi.gate call hcall

/-- The runs of the assistant. -/
theorem step_assistant (hi : Apart f) (ha : Authorised f) {a : FleetLabel}
    (hs : f.step a = some f') (run : RunRow) (hrun : run ∈ f'.assistantRuns) :
    binding run ∈ bindings f'.hub.hub ∧ run.nodeId = hubNode := by
  obtain ⟨-, hgains⟩ := Fleet.step_runs ha.cache hs
  have hold : run ∈ f.assistantRuns → binding run ∈ bindings f'.hub.hub ∧ run.nodeId = hubNode :=
    fun h => ⟨hgains.bindings_mono _ (hi.assistant run h).1, (hi.assistant run h).2⟩
  by_cases hrec : Fleet.Recording a
  · cases a with
    | append c append fetch =>
        obtain ⟨_, _, _, -, rfl⟩ := Fleet.step_append hs
        exact hold hrun
    | command env cmd =>
        obtain ⟨-, rfl⟩ := Fleet.step_command hs
        exact hold hrun
    | createWorkerTask env request =>
        obtain ⟨_, rfl⟩ | ⟨_, -, -, rfl⟩ := Fleet.step_createWorkerTask hs <;> exact hold hrun
    | stage e =>
        obtain ⟨_, -, ⟨_, -, rfl⟩ | ⟨_, -, rfl⟩⟩ := Fleet.step_stage hs <;> exact hold hrun
    | startAssistant env c t engine model effort prompt workspace =>
        cases hs
        rcases List.mem_append.mp hrun with hrun | hrun
        · exact hold hrun
        · obtain ⟨hn, hmem⟩ := hgains.newRuns hrun
          exact ⟨hmem, hn⟩
    | _ => exact hrec.elim
  · exact hold ((Fleet.step_records hrec hs).2.2.1 ▸ hrun)

theorem step (hi : Apart f) (ha : Authorised f) {a : FleetLabel}
    (hok : NoHubNode f (.fleet a)) (hs : f.step a = some f') : Apart f' where
  unique := (Fleet.step_runs ha.cache hs).2.unique hi.unique
  sessions := hi.step_sessions hok hs
  registry := hi.step_registry hok hs
  gate call hcall := by
    rcases Fleet.step_gate hs hcall with ⟨before, hbefore, hn, -⟩ | ⟨env, -, hn, -⟩
    · exact hn ▸ hi.gate before hbefore
    · exact hi.selected_ne hn
  linked n e he := by
    rcases Authorised.step_linked hs he with he | ⟨c, hello, id, d, append, hc, rfl, -⟩
    · exact hi.linked n e he
    · exact hi.sessions c _ hc
  scheduled := hi.step_scheduled ha hs
  assistant := hi.step_assistant ha hs

theorem of_reach {f : Fleet} (h : Fleet.restarting.Reach NoHubNode f) : Apart f := by
  refine h.invariant_reach ?_ ?_
  · rintro f ⟨h, ⟨refusal, nodeSecret, clientSecret, rfl⟩, rfl⟩
    obtain ⟨m, hm⟩ := Store.runMigrations_fst refusal Store.blank
    refine {
      unique := ?_
      sessions := fun c s hc => by cases hc
      registry := rfl
      gate := fun call hcall => by cases hcall
      linked := fun n e he => absurd he List.not_mem_nil
      scheduled := fun run m hm => absurd hm List.not_mem_nil
      assistant := fun run hrun => absurd hrun List.not_mem_nil }
    simp only [Fleet.idle, fromHub, hm]
    exact List.nodup_nil
  · intro f a f' hreach hi hok hs
    cases a with
    | fleet a => exact hi.step (Authorised.of_reach hreach) hok hs
    | restart =>
        cases hs
        refine ⟨hi.unique, ?_, rfl, ?_, hi.linked, hi.scheduled, hi.assistant⟩
        · intro c s hc
          cases hc
        · intro call hcall
          cases hcall

end Apart

/-! ## The contract -/

/-- A bound row is about a run of its node and of its task. -/
theorem BoundRow.run {s : Store} {n : NodeId} {e : EventRow} (hb : BoundRow s n e) :
    e.nodeId = n ∧ ∃ run ∈ s.runs, e.runId = some run.id ∧ run.nodeId = n ∧
      run.taskId = e.taskId := by
  obtain ⟨hn, r, hr, hmem⟩ := hb
  obtain ⟨run, hrun, heq⟩ := List.mem_map.mp hmem
  obtain ⟨rfl, hrest⟩ := Prod.mk.inj heq
  obtain ⟨hnode, htask⟩ := Prod.mk.inj hrest
  exact ⟨hn, run, hrun, hr, hnode, htask⟩

/-- **Authenticated events are bound**, whatever ids nodes claim: an event
appended through a link carries the id of its session and belongs to a run bound
to that node and to the event's task. -/
theorem linked_event_bound {f : Fleet} (h : Fleet.restarting.Reach Anyway f) {n : NodeId}
    {e : EventRow} (he : (n, e) ∈ f.linked) :
    e.nodeId = n ∧ ∃ run ∈ f.hub.hub.runs, e.runId = some run.id ∧ run.nodeId = n ∧
      run.taskId = e.taskId :=
  ((Authorised.of_reach h).linked n e he).run

/-- **Node authority and the separation of the assistant**, in the runs in which
no node claims the reserved id: no worker's run is bound to it, and no event of a
link goes to a run of the assistant. -/
theorem node_authority {f : Fleet} (h : Fleet.restarting.Reach NoHubNode f) : NodeAuthority f := by
  have ha := Authorised.of_reach h
  have hi := Apart.of_reach h
  refine ⟨fun n e he => (ha.linked n e he).run, hi.scheduled, ?_⟩
  intro n e he run hrun hr
  obtain ⟨-, r, hr', hmem⟩ := ha.linked n e he
  obtain ⟨hassistant, hhub⟩ := hi.assistant run hrun
  obtain rfl : run.id = r := Option.some.inj (hr.symm.trans hr')
  -- one id has one binding, and the assistant's is the hub's
  have hsame := List.inj_on_of_nodup_map hi.unique hmem hassistant rfl
  have hn : n = run.nodeId := congrArg (fun b => b.2.1) hsame
  exact hi.linked n e he (hn.trans hhub)

/-- A node runs a task and reports on it, beside a run of the assistant and
across a restart. -/
def authoritySample : List AuthorityLabel :=
  (connecting "laptop" 1 2 ++ [beginning 5 3] ++ reporting "laptop" 1 6 .runCompleted 3 5 ++
    [assisting 7 4]).map .fleet ++
  [.restart]

set_option maxRecDepth 4096 in
theorem node_authority_sample :
    ∃ f, Fleet.restarting.run freshFleet authoritySample = some f ∧
      f.linked.length = 1 ∧ f.scheduled.length = 1 ∧ f.assistantRuns.length = 1 ∧
      NodeAuthority f := by
  refine ⟨_, rfl, rfl, rfl, rfl, ?_⟩
  have hguard : ∀ a ∈ authoritySample, ∀ f, NoHubNode f a := by
    have hname : (helloOf "laptop" "claude").nodeId ≠ hubNode := by decide
    simp [authoritySample, connecting, reporting, beginning, assisting, NoHubNode, hname]
  exact node_authority (System.Reach.of_labels (.start Fleet.fresh_init) hguard
    (rfl : Fleet.restarting.run freshFleet authoritySample = some _))

/-- A node that dials in as `hub` reports the completion of the assistant's own
run, and the event is appended. -/
def impostor : List AuthorityLabel :=
  (connecting "hub" 1 2 ++
    [assisting 7 4] ++
    reporting "hub" 1 6 .runCompleted 4 7).map .fleet

set_option maxRecDepth 4096 in
theorem assistant_run_forged :
    ∃ f, Fleet.restarting.Reach Anyway f ∧ ¬ NodeAuthority f := by
  have hrun : ∃ f, Fleet.restarting.run freshFleet impostor = some f ∧
      ∃ n e, (n, e) ∈ f.linked ∧ ∃ run ∈ f.assistantRuns, e.runId = some run.id :=
    ⟨_, rfl, _, _, List.mem_singleton_self _, _, List.mem_singleton_self _, rfl⟩
  obtain ⟨f, hf, n, e, he, run, hrun, hr⟩ := hrun
  exact ⟨f, .of_run (.start Fleet.fresh_init) hf, fun h => h.separate n e he run hrun hr⟩

end Stackhour.Hub
