import Stackhour.Hub.FleetSpec

/-!
# The steps of a fleet

What each step needs and what it leaves, and from that what any step can do to
the sessions, the registry, the runs and the records of the run.
-/

namespace Stackhour.Hub

open Domain TransitionSystem HubState

namespace Fleet

variable {f f' : Fleet}

/-! ## The steps of a session -/

theorem step_dial {hello : NodeHello} (hs : f.step (.dial hello) = some f') :
    f.gate = none ∧ (f.hub.negotiateNode hello).accepted = true ∧
      f' = { f with hub := (f.hub.registerNode hello.nodeId).1 }.setSession
        f.hub.nextNodeConnectionId ⟨hello, .registered⟩ := by
  delta step at hs
  dsimp only at hs
  split at hs
  · next h => exact ⟨Option.isNone_iff_eq_none.mp h.1, h.2, (Option.some.inj hs).symm⟩
  · cases hs

theorem step_upsert {c : ℕ} {env : CallEnv}
    (hs : f.step (.upsert c env) = some f') :
    ∃ hello, f.sessions c = some ⟨hello, .registered⟩ ∧
      f' = { f with hub := f.hub.upsertConnected env hello }.setSession c ⟨hello, .stored⟩ := by
  delta step at hs
  dsimp only at hs
  split at hs
  · next hello hc => exact ⟨hello, hc, (Option.some.inj hs).symm⟩
  · cases hs

theorem step_announce {c : ℕ} {append fetch : CallEnv} {now : DateTime}
    (hs : f.step (.announce c append fetch now) = some f') :
    ∃ hello, f.sessions c = some ⟨hello, .stored⟩ ∧
      f' = { f with hub := f.hub.appendConnected append fetch hello now }.setSession c
        ⟨hello, .live none⟩ := by
  delta step at hs
  dsimp only at hs
  split at hs
  · next hello hc => exact ⟨hello, hc, (Option.some.inj hs).symm⟩
  · cases hs

theorem step_append {c : ℕ} {append fetch : CallEnv}
    (hs : f.step (.append c append fetch) = some f') :
    ∃ hello id d, f.sessions c = some ⟨hello, .live (some (id, d))⟩ ∧
      f' = { f with
        hub := f.hub.appendAccepted append fetch hello.nodeId id d
        linked := f.linked ++ (newEvents f.hub.hub
          (f.hub.appendAccepted append fetch hello.nodeId id d).hub).map
            (fun e => (hello.nodeId, e)) }.setSession c ⟨hello, .live none⟩ := by
  delta step at hs
  dsimp only at hs
  split at hs
  · next hello id d hc => exact ⟨hello, id, d, hc, (Option.some.inj hs).symm⟩
  · cases hs

theorem step_demote {c : ℕ} {read upsert : CallEnv}
    (hs : f.step (.demote c read upsert) = some f') :
    ∃ hello, f.sessions c = some ⟨hello, .left⟩ ∧
      f' = { f with hub := f.hub.upsertDisconnected read upsert hello.nodeId }.setSession c
        ⟨hello, .demoted⟩ := by
  delta step at hs
  dsimp only at hs
  split at hs
  · next hello hc => exact ⟨hello, hc, (Option.some.inj hs).symm⟩
  · cases hs

theorem step_depart {c : ℕ} {append fetch : CallEnv} {now : DateTime}
    (hs : f.step (.depart c append fetch now) = some f') :
    ∃ hello, f.sessions c = some ⟨hello, .demoted⟩ ∧
      f' = { f with
        hub := f.hub.appendDisconnected append fetch hello.nodeId now
        sessions := Function.update f.sessions c none } := by
  delta step at hs
  dsimp only at hs
  split at hs
  · next hello hc => exact ⟨hello, hc, (Option.some.inj hs).symm⟩
  · cases hs

/-- A session checks an event: it is to be appended, or it is dealt with. -/
theorem step_check {c : ℕ} {validate : CallEnv} {id : EventId} {d : EventDraft}
    (hs : f.step (.check c validate id d) = some f') :
    ∃ hello, f.sessions c = some ⟨hello, .live none⟩ ∧
      (((f.hub.acceptsNodeEvent validate hello.nodeId d).2 = .ok true ∧
          f' = { f with hub := (f.hub.acceptsNodeEvent validate hello.nodeId d).1 }.setSession c
            ⟨hello, .live (some (id, d))⟩) ∨
        f' = { f with hub := (f.hub.acceptsNodeEvent validate hello.nodeId d).1 } ∨
        f' = { f with
          hub := (f.hub.acceptsNodeEvent validate hello.nodeId d).1.routeToNode hello.nodeId
            (.eventAck id) }) := by
  delta step at hs
  dsimp only at hs
  split at hs
  · next hello hc =>
      refine ⟨hello, hc, ?_⟩
      split at hs
      · next heq =>
          rw [heq]
          exact .inl ⟨rfl, (Option.some.inj hs).symm⟩
      · next heq =>
          rw [heq]
          exact .inr (.inr (Option.some.inj hs).symm)
      · next heq =>
          rw [heq]
          exact .inr (.inl (Option.some.inj hs).symm)
  · cases hs

/-- A session ends its loop: it frees the slot if it holds it. -/
theorem step_hangUp {c : ℕ} (hs : f.step (.hangUp c) = some f') :
    ∃ hello, f.sessions c = some ⟨hello, .live none⟩ ∧ f.gate = none ∧
      ((f.hub.nodes hello.nodeId = some c ∧
          f' = { f with
            hub := { f.hub with nodes := Function.update f.hub.nodes hello.nodeId none }
            }.setSession c ⟨hello, .left⟩) ∨
        (f.hub.nodes hello.nodeId ≠ some c ∧
          f' = { f with sessions := Function.update f.sessions c none })) := by
  delta step at hs
  dsimp only at hs
  split at hs
  · next hello hc =>
      split at hs
      · next hgate =>
          refine ⟨hello, hc, Option.isNone_iff_eq_none.mp hgate, ?_⟩
          unfold unregisterNode at hs
          by_cases hn : f.hub.nodes hello.nodeId = some c
          · rw [if_pos hn] at hs
            exact .inl ⟨hn, (Option.some.inj hs).symm⟩
          · rw [if_neg hn] at hs
            exact .inr ⟨hn, (Option.some.inj hs).symm⟩
      · cases hs
  · cases hs

/-! ## The other steps -/

theorem step_ack {c : ℕ} {env : CallEnv} {commandId : CommandId}
    (hs : f.step (.ack c env commandId) = some f') :
    ∃ hello, f.sessions c = some ⟨hello, .live none⟩ ∧
      f' = { f with hub := f.hub.acknowledgeDispatchFrom env hello.nodeId commandId } := by
  delta step at hs
  dsimp only at hs
  split at hs
  · next hello hc => exact ⟨hello, hc, (Option.some.inj hs).symm⟩
  · cases hs

theorem step_command {env : CommandEnv} {cmd : ClientCommand}
    (hs : f.step (.command env cmd) = some f') :
    (needsGate cmd = true → f.gate = none) ∧
      f' = { f with
        hub := (f.hub.applyCommand env cmd).1
        scheduled := f.scheduled ++ (newRuns f.hub.hub (f.hub.applyCommand env cmd).1.hub).map
          (fun run => (run, f.momentOf cmd)) } := by
  delta step at hs
  dsimp only at hs
  split at hs
  · cases hs
  · next hgate =>
      refine ⟨fun hneeds => ?_, (Option.some.inj hs).symm⟩
      by_contra hne
      exact hgate ⟨hneeds, Option.isSome_iff_ne_none.mpr hne⟩

/-- A creation is refused, or takes the gate with the node it selected. -/
theorem step_createWorkerTask {env : CallEnv} {request : WorkerRequest}
    (hs : f.step (.createWorkerTask env request) = some f') :
    (∃ e, f' = { f with finished := f.finished ++
        [⟨request, none, f.moment request.engine request.preferredNode, .error e, []⟩] }) ∨
      ∃ n, (f.gate = none ∧ validateRunConfiguration request.engine request.model
          request.reasoningEffort none request.workspacePath = .ok ()) ∧
        f.hub.eligibleExecutionNode env request.engine request.preferredNode = .ok n ∧
        f' = { f with
          gate := some ⟨request, n, f.moment request.engine request.preferredNode, .selected, []⟩
          } := by
  delta step at hs
  dsimp only at hs
  split at hs
  · exact .inl ⟨_, (Option.some.inj hs).symm⟩
  · next hvalid =>
      split at hs
      · cases hs
      · next hgate =>
          split at hs
          · exact .inl ⟨_, (Option.some.inj hs).symm⟩
          · next n hn =>
              exact .inr ⟨n, ⟨Option.not_isSome_iff_eq_none.mp hgate, hvalid⟩, hn,
                (Option.some.inj hs).symm⟩

/-- The fleet after a critical section of a creation that left the hub `h`. -/
def staged (f : Fleet) (call : Call) (h : HubState) : Fleet :=
  { f with
    hub := h
    scheduled := f.scheduled ++ (newRuns f.hub.hub h.hub).map (fun run => (run, call.moment)) }

/-- A creation goes on to its next stage, or returns and frees the gate. -/
theorem step_stage {e : StageEnv} (hs : f.step (.stage e) = some f') :
    ∃ call, f.gate = some call ∧
      ((∃ s, (call.stage.next e f.hub call.request call.nodeId).2 = .stage s ∧
          f' = { f.staged call (call.stage.next e f.hub call.request call.nodeId).1 with
            gate := some { call with
              stage := s
              sections := call.sections ++ [(f.hub.hub,
                (call.stage.next e f.hub call.request call.nodeId).1.hub)] } }) ∨
        ∃ result, (call.stage.next e f.hub call.request call.nodeId).2 = .done result ∧
          f' = { f.staged call (call.stage.next e f.hub call.request call.nodeId).1 with
            gate := none
            finished := f.finished ++ [⟨call.request, some call.nodeId, call.moment, result,
              call.sections ++ [(f.hub.hub,
                (call.stage.next e f.hub call.request call.nodeId).1.hub)]⟩]
            }) := by
  delta step at hs
  dsimp only at hs
  split at hs
  · cases hs
  · next call hcall =>
      refine ⟨call, hcall, ?_⟩
      split at hs
      · next s heq => exact .inl ⟨s, heq, (Option.some.inj hs).symm⟩
      · next result heq => exact .inr ⟨result, heq, (Option.some.inj hs).symm⟩

/-! ## The registry, the node rows and the log -/

/-- The labels that neither start nor advance a session. -/
def Elsewhere : FleetLabel → Prop
  | .ack .. | .command .. | .createWorkerTask .. | .stage .. | .startAssistant ..
  | .assistantMessage .. | .assistantEvent .. | .track .. => True
  | _ => False

/-- Such a step leaves sessions, registry and node rows, and appends no event of
presence. -/
theorem step_elsewhere {a : FleetLabel} (ha : Elsewhere a) (hs : f.step a = some f') :
    f'.sessions = f.sessions ∧ Aside Other f.hub f'.hub := by
  cases a with
  | ack c env commandId =>
      obtain ⟨hello, -, rfl⟩ := step_ack hs
      exact ⟨rfl, .acknowledgeDispatchFrom env f.hub _ _⟩
  | command env cmd =>
      obtain ⟨-, rfl⟩ := step_command hs
      exact ⟨rfl, .applyCommandInner env f.hub none cmd⟩
  | createWorkerTask env request =>
      obtain ⟨_, rfl⟩ | ⟨_, -, -, rfl⟩ := step_createWorkerTask hs <;> exact ⟨rfl, .refl _⟩
  | stage e =>
      obtain ⟨call, -, ⟨_, -, rfl⟩ | ⟨_, -, rfl⟩⟩ := step_stage hs <;>
        exact ⟨rfl, .next e f.hub call.request call.nodeId call.stage⟩
  | startAssistant env c t engine model effort prompt workspace =>
      cases hs
      exact ⟨rfl, .startHubAssistantRun env f.hub c t engine model effort prompt workspace⟩
  | assistantMessage env c t r text mid =>
      cases hs
      exact ⟨rfl, .appendAndBroadcastCommand _ _ f.hub _ _ _ _ rfl⟩
  | assistantEvent append fetch kind t r provider payload now =>
      cases hs
      exact ⟨rfl, .appendHubAssistantEvent append fetch f.hub kind t r provider payload now⟩
  | track lookup register channel t r =>
      cases hs
      exact ⟨rfl, .trackAssistantWorker lookup register f.hub channel t r⟩
  | _ => exact ha.elim

/-- The registry changes when a session starts or ends. -/
theorem step_registry {a : FleetLabel} (hs : f.step a = some f')
    (hdial : ∀ hello, a ≠ .dial hello) (hhang : ∀ c, a ≠ .hangUp c) :
    f'.hub.nodes = f.hub.nodes ∧ f'.hub.nextNodeConnectionId = f.hub.nextNodeConnectionId := by
  have hnote := fun (append fetch : CallEnv) id d =>
    Aside.appendAndBroadcastNodeEvent (P := fun _ => True) append fetch f.hub id d trivial
  by_cases ha : Elsewhere a
  · obtain ⟨-, haside⟩ := step_elsewhere ha hs
    exact ⟨haside.nodes, haside.nextNodeConnectionId⟩
  · cases a with
    | dial hello => exact absurd rfl (hdial hello)
    | hangUp c => exact absurd rfl (hhang c)
    | upsert c env =>
        obtain ⟨hello, -, rfl⟩ := step_upsert hs
        rcases upsertConnected_cases env f.hub hello with ⟨-, heq⟩ | heq
        · rw [heq]
          exact ⟨rfl, rfl⟩
        · rw [heq]
          exact ⟨rfl, rfl⟩
    | announce c append fetch now =>
        obtain ⟨hello, -, rfl⟩ := step_announce hs
        exact ⟨(hnote _ _ _ _).nodes, (hnote _ _ _ _).nextNodeConnectionId⟩
    | check c validate id d =>
        obtain ⟨hello, -, hcases⟩ := step_check hs
        have haside := Aside.acceptsNodeEvent (P := fun _ => True) validate f.hub hello.nodeId d
        have hroute := haside.trans (.routeToNode _ hello.nodeId (.eventAck id))
        obtain ⟨-, rfl⟩ | rfl | rfl := hcases
        · exact ⟨haside.nodes, haside.nextNodeConnectionId⟩
        · exact ⟨haside.nodes, haside.nextNodeConnectionId⟩
        · exact ⟨hroute.nodes, hroute.nextNodeConnectionId⟩
    | append c append fetch =>
        obtain ⟨hello, id, d, -, rfl⟩ := step_append hs
        have haside := Aside.appendAccepted (P := fun _ => True) append fetch f.hub hello.nodeId id
          d trivial
        exact ⟨haside.nodes, haside.nextNodeConnectionId⟩
    | demote c read upsert =>
        obtain ⟨hello, -, rfl⟩ := step_demote hs
        rcases upsertDisconnected_cases read upsert f.hub hello.nodeId with ⟨heq, -⟩ | ⟨_, -, heq⟩
        · rw [heq]
          exact ⟨rfl, rfl⟩
        · rw [heq]
          exact ⟨rfl, rfl⟩
    | depart c append fetch now =>
        obtain ⟨hello, -, rfl⟩ := step_depart hs
        exact ⟨(hnote _ _ _ _).nodes, (hnote _ _ _ _).nextNodeConnectionId⟩
    | _ => exact absurd trivial ha

/-- The sessions change by a new one, or by one that goes on or ends. -/
theorem step_sessions {a : FleetLabel} (hs : f.step a = some f') :
    (∃ hello, a = .dial hello ∧ f'.sessions = Function.update f.sessions
        f.hub.nextNodeConnectionId (some ⟨hello, .registered⟩)) ∨
      f'.sessions = f.sessions ∨
      ∃ c hello p s, f.sessions c = some ⟨hello, p⟩ ∧ f'.sessions = Function.update f.sessions c s ∧
        ∀ x, s = some x → x.hello = hello := by
  have hkept : ∀ hello p, ∀ x, some (⟨hello, p⟩ : NodeSession) = some x → x.hello = hello := by
    rintro hello p x ⟨⟩
    rfl
  by_cases ha : Elsewhere a
  · exact .inr (.inl (step_elsewhere ha hs).1)
  · cases a with
    | dial hello =>
        obtain ⟨-, -, rfl⟩ := step_dial hs
        exact .inl ⟨hello, rfl, rfl⟩
    | upsert c env =>
        obtain ⟨hello, hc, rfl⟩ := step_upsert hs
        exact .inr (.inr ⟨c, hello, _, _, hc, rfl, hkept _ _⟩)
    | announce c append fetch now =>
        obtain ⟨hello, hc, rfl⟩ := step_announce hs
        exact .inr (.inr ⟨c, hello, _, _, hc, rfl, hkept _ _⟩)
    | check c validate id d =>
        obtain ⟨hello, hc, ⟨-, rfl⟩ | rfl | rfl⟩ := step_check hs
        · exact .inr (.inr ⟨c, hello, _, _, hc, rfl, hkept _ _⟩)
        · exact .inr (.inl rfl)
        · exact .inr (.inl rfl)
    | append c append fetch =>
        obtain ⟨hello, id, d, hc, rfl⟩ := step_append hs
        exact .inr (.inr ⟨c, hello, _, _, hc, rfl, hkept _ _⟩)
    | hangUp c =>
        obtain ⟨hello, hc, -, ⟨-, rfl⟩ | ⟨-, rfl⟩⟩ := step_hangUp hs
        · exact .inr (.inr ⟨c, hello, _, _, hc, rfl, hkept _ _⟩)
        · exact .inr (.inr ⟨c, hello, _, none, hc, rfl, fun x hx => by cases hx⟩)
    | demote c read upsert =>
        obtain ⟨hello, hc, rfl⟩ := step_demote hs
        exact .inr (.inr ⟨c, hello, _, _, hc, rfl, hkept _ _⟩)
    | depart c append fetch now =>
        obtain ⟨hello, hc, rfl⟩ := step_depart hs
        exact .inr (.inr ⟨c, hello, _, none, hc, rfl, fun x hx => by cases hx⟩)
    | _ => exact absurd trivial ha

/-- No session has a connection that is still to be handed out. -/
def FreshIds (f : Fleet) : Prop := ∀ c, f.hub.nextNodeConnectionId ≤ c → f.sessions c = none

theorem FreshIds.step {a : FleetLabel} (hi : f.FreshIds) (hs : f.step a = some f') :
    f'.FreshIds := by
  intro c hc
  by_cases hdial : ∃ hello, a = .dial hello
  · obtain ⟨hello, rfl⟩ := hdial
    obtain ⟨-, -, rfl⟩ := step_dial hs
    have hlt : f.hub.nextNodeConnectionId + 1 ≤ c := hc
    show Function.update f.sessions f.hub.nextNodeConnectionId _ c = none
    rw [Function.update_of_ne (by omega)]
    exact hi c (by omega)
  · have hid : f'.hub.nextNodeConnectionId = f.hub.nextNodeConnectionId := by
      by_cases hhang : ∃ k, a = .hangUp k
      · obtain ⟨k, rfl⟩ := hhang
        obtain ⟨hello, -, -, ⟨-, rfl⟩ | ⟨-, rfl⟩⟩ := step_hangUp hs <;> rfl
      · exact (step_registry hs (fun hello h => hdial ⟨hello, h⟩) (fun k h => hhang ⟨k, h⟩)).2
    have hnone := hi c (hid ▸ hc)
    rcases step_sessions hs with ⟨hello, ha, -⟩ | heq | ⟨k, hello, p, s, hk, heq, -⟩
    · exact absurd ⟨hello, ha⟩ hdial
    · rw [heq]
      exact hnone
    · have hne : c ≠ k := by
        rintro rfl
        rw [hnone] at hk
        cases hk
      rw [heq, Function.update_of_ne hne]
      exact hnone

theorem FreshIds.of_reach {ok : Fleet → FleetLabel → Prop} {f : Fleet}
    (h : system.Reach ok f) : f.FreshIds := by
  refine h.invariant ?_ fun _ _ _ hi _ hs => hi.step hs
  rintro f ⟨h, -, rfl⟩ c -
  rfl

/-! ## Runs and records -/

/-- The node that a step selects for the run it adds. -/
def Selects (f : Fleet) : FleetLabel → NodeId → Prop
  | .command env cmd, n => ∃ c t p engine model effort prompt policy workspace,
      cmd = .startRun c t p engine model effort prompt policy workspace ∧
        f.hub.eligibleExecutionNode env.lookup engine p = .ok n
  | .stage _, n => ∃ call, f.gate = some call ∧ n = call.nodeId
  | .startAssistant .., n => n = hubNode
  | _, _ => False

/-- A step adds at most one run, on the node it selects, and keeps the cache. -/
theorem step_runs (hc : CacheOk f.hub) {a : FleetLabel} (hs : f.step a = some f') :
    CacheOk f'.hub ∧ Gains (fun b => Selects f a b.2.1) f.hub.hub f'.hub.hub := by
  have hstill : ∀ {h : HubState}, Still f.hub h →
      CacheOk h ∧ Gains (fun b => Selects f a b.2.1) f.hub.hub h.hub :=
    fun hs => ⟨hs.cacheOk hc, hs.gains⟩
  cases a with
  | dial hello =>
      obtain ⟨-, -, rfl⟩ := step_dial hs
      exact hstill ⟨rfl, rfl⟩
  | upsert c env =>
      obtain ⟨hello, -, rfl⟩ := step_upsert hs
      exact hstill (.upsertConnected env f.hub hello)
  | announce c append fetch now =>
      obtain ⟨hello, -, rfl⟩ := step_announce hs
      exact hstill (.appendAndBroadcastNodeEvent append fetch f.hub _ _)
  | check c validate id d =>
      obtain ⟨hello, -, hcases⟩ := step_check hs
      obtain ⟨hcache, -⟩ := hc.acceptsNodeEvent validate hello.nodeId d
      obtain ⟨rt, hrt⟩ := acceptsNodeEvent_fst validate f.hub hello.nodeId d
      have hsame : bindings (f.hub.acceptsNodeEvent validate hello.nodeId d).1.hub =
          bindings f.hub.hub := by rw [hrt]
      have hroute := Still.routeToNode (f.hub.acceptsNodeEvent validate hello.nodeId d).1
        hello.nodeId (.eventAck id)
      obtain ⟨-, rfl⟩ | rfl | rfl := hcases
      · exact ⟨hcache, .inl hsame⟩
      · exact ⟨hcache, .inl hsame⟩
      · exact ⟨hroute.cacheOk hcache, .inl (hroute.bindings.trans hsame)⟩
  | append c append fetch =>
      obtain ⟨hello, id, d, -, rfl⟩ := step_append hs
      exact hstill (.appendAccepted append fetch f.hub hello.nodeId id d)
  | ack c env commandId =>
      obtain ⟨hello, -, rfl⟩ := step_ack hs
      exact hstill (.acknowledgeDispatchFrom env f.hub _ _)
  | hangUp c =>
      obtain ⟨hello, -, -, ⟨-, rfl⟩ | ⟨-, rfl⟩⟩ := step_hangUp hs
      · exact hstill ⟨rfl, rfl⟩
      · exact hstill (.refl _)
  | demote c read upsert =>
      obtain ⟨hello, -, rfl⟩ := step_demote hs
      exact hstill (.upsertDisconnected read upsert f.hub _)
  | depart c append fetch now =>
      obtain ⟨hello, -, rfl⟩ := step_depart hs
      exact hstill (.appendAndBroadcastNodeEvent append fetch f.hub _ _)
  | command env cmd =>
      obtain ⟨-, rfl⟩ := step_command hs
      exact ⟨hc.applyCommandInner env none cmd, Gains.applyCommandInner env f.hub none cmd⟩
  | createWorkerTask env request =>
      obtain ⟨_, rfl⟩ | ⟨_, -, -, rfl⟩ := step_createWorkerTask hs <;> exact hstill (.refl _)
  | stage e =>
      obtain ⟨call, hcall, hcases⟩ := step_stage hs
      obtain ⟨hcache, hgains⟩ := stage_runs e f.hub call.request call.nodeId call.stage hc
      have hselects := hgains.mono fun b hb => (⟨call, hcall, hb⟩ : Selects f (.stage e) b.2.1)
      obtain ⟨_, -, rfl⟩ | ⟨_, -, rfl⟩ := hcases <;> exact ⟨hcache, hselects⟩
  | startAssistant env c t engine model effort prompt workspace =>
      cases hs
      have hgains := Gains.startHubAssistantRun env f.hub c t engine model effort prompt workspace
      exact ⟨hc.of_bindings (startHubAssistantRun_routing ..) hgains.bindings_mono, hgains⟩
  | assistantMessage env c t r text mid =>
      cases hs
      exact hstill (.appendHubAssistantMessage env f.hub c t r text mid)
  | assistantEvent append fetch kind t r provider payload now =>
      cases hs
      exact hstill (.appendHubAssistantEvent append fetch f.hub kind t r provider payload now)
  | track lookup register channel t r =>
      cases hs
      obtain ⟨hcache, hsame⟩ := track_runs lookup register f.hub channel t r hc
      exact ⟨hcache, .inl hsame⟩

/-- The labels that add to a record. -/
def Recording : FleetLabel → Prop
  | .append .. | .command .. | .createWorkerTask .. | .stage .. | .startAssistant .. => True
  | _ => False

/-- No other step adds to one, or takes or frees the gate. -/
theorem step_records {a : FleetLabel} (ha : ¬ Recording a) (hs : f.step a = some f') :
    f'.linked = f.linked ∧ f'.scheduled = f.scheduled ∧ f'.assistantRuns = f.assistantRuns ∧
      f'.finished = f.finished ∧ f'.gate = f.gate := by
  cases a with
  | dial hello =>
      obtain ⟨-, -, rfl⟩ := step_dial hs
      exact ⟨rfl, rfl, rfl, rfl, rfl⟩
  | upsert c env =>
      obtain ⟨hello, -, rfl⟩ := step_upsert hs
      exact ⟨rfl, rfl, rfl, rfl, rfl⟩
  | announce c append fetch now =>
      obtain ⟨hello, -, rfl⟩ := step_announce hs
      exact ⟨rfl, rfl, rfl, rfl, rfl⟩
  | check c validate id d =>
      obtain ⟨hello, -, ⟨-, rfl⟩ | rfl | rfl⟩ := step_check hs <;> exact ⟨rfl, rfl, rfl, rfl, rfl⟩
  | ack c env commandId =>
      obtain ⟨hello, -, rfl⟩ := step_ack hs
      exact ⟨rfl, rfl, rfl, rfl, rfl⟩
  | hangUp c =>
      obtain ⟨hello, -, -, ⟨-, rfl⟩ | ⟨-, rfl⟩⟩ := step_hangUp hs <;> exact ⟨rfl, rfl, rfl, rfl, rfl⟩
  | demote c read upsert =>
      obtain ⟨hello, -, rfl⟩ := step_demote hs
      exact ⟨rfl, rfl, rfl, rfl, rfl⟩
  | depart c append fetch now =>
      obtain ⟨hello, -, rfl⟩ := step_depart hs
      exact ⟨rfl, rfl, rfl, rfl, rfl⟩
  | assistantMessage env c t r text mid =>
      cases hs
      exact ⟨rfl, rfl, rfl, rfl, rfl⟩
  | assistantEvent append fetch kind t r provider payload now =>
      cases hs
      exact ⟨rfl, rfl, rfl, rfl, rfl⟩
  | track lookup register channel t r =>
      cases hs
      exact ⟨rfl, rfl, rfl, rfl, rfl⟩
  | _ => exact absurd trivial ha

/-- A run that is scheduled by a step is new, and its moment is that of the
command or of the creation. -/
theorem step_scheduled {a : FleetLabel} (hs : f.step a = some f') {run : RunRow} {m : Moment}
    (hm : (run, m) ∈ f'.scheduled) : (run, m) ∈ f.scheduled ∨
      (run ∈ newRuns f.hub.hub f'.hub.hub ∧ ((∃ env cmd, a = .command env cmd ∧ m = f.momentOf cmd) ∨
        ∃ e call, a = .stage e ∧ f.gate = some call ∧ m = call.moment)) := by
  have hsplit : ∀ {old : List (RunRow × Moment)} {rs : List RunRow} {m' : Moment},
      (run, m) ∈ old ++ rs.map (fun r => (r, m')) → (run, m) ∈ old ∨ (run ∈ rs ∧ m = m') := by
    intro old rs m' hmem
    rcases List.mem_append.mp hmem with hold | hnew
    · exact .inl hold
    · obtain ⟨r, hr, heq⟩ := List.mem_map.mp hnew
      obtain ⟨rfl, rfl⟩ := Prod.mk.inj heq
      exact .inr ⟨hr, rfl⟩
  by_cases ha : Recording a
  · cases a with
    | append c append fetch =>
        obtain ⟨hello, id, d, -, rfl⟩ := step_append hs
        exact .inl hm
    | command env cmd =>
        obtain ⟨-, rfl⟩ := step_command hs
        exact (hsplit hm).imp_right fun h => ⟨h.1, .inl ⟨env, cmd, rfl, h.2⟩⟩
    | createWorkerTask env request =>
        obtain ⟨_, rfl⟩ | ⟨_, -, -, rfl⟩ := step_createWorkerTask hs <;> exact .inl hm
    | stage e =>
        obtain ⟨call, hcall, ⟨_, -, rfl⟩ | ⟨_, -, rfl⟩⟩ := step_stage hs <;>
          exact (hsplit hm).imp_right fun h => ⟨h.1, .inr ⟨e, call, rfl, hcall, h.2⟩⟩
    | startAssistant env c t engine model effort prompt workspace =>
        cases hs
        exact .inl hm
    | _ => exact ha.elim
  · exact .inl ((step_records ha hs).2.1 ▸ hm)

/-- A creation in progress was so before, or has just selected its node. -/
theorem step_gate {a : FleetLabel} (hs : f.step a = some f') {call : Call}
    (hcall : f'.gate = some call) :
    (∃ before, f.gate = some before ∧ call.nodeId = before.nodeId ∧
        call.request = before.request ∧ call.moment = before.moment) ∨
      ∃ env, a = .createWorkerTask env call.request ∧
        f.hub.eligibleExecutionNode env call.request.engine call.request.preferredNode =
          .ok call.nodeId ∧
        call.moment = f.moment call.request.engine call.request.preferredNode := by
  by_cases ha : Recording a
  · cases a with
    | append c append fetch =>
        obtain ⟨hello, id, d, -, rfl⟩ := step_append hs
        exact .inl ⟨call, hcall, rfl, rfl, rfl⟩
    | command env cmd =>
        obtain ⟨-, rfl⟩ := step_command hs
        exact .inl ⟨call, hcall, rfl, rfl, rfl⟩
    | createWorkerTask env request =>
        obtain ⟨_, rfl⟩ | ⟨n, -, hn, rfl⟩ := step_createWorkerTask hs
        · exact .inl ⟨call, hcall, rfl, rfl, rfl⟩
        · cases hcall
          exact .inr ⟨env, rfl, hn, rfl⟩
    | stage e =>
        obtain ⟨before, hbefore, ⟨_, -, rfl⟩ | ⟨_, -, rfl⟩⟩ := step_stage hs
        · cases hcall
          exact .inl ⟨before, hbefore, rfl, rfl, rfl⟩
        · cases hcall
    | startAssistant env c t engine model effort prompt workspace =>
        cases hs
        exact .inl ⟨call, hcall, rfl, rfl, rfl⟩
    | _ => exact ha.elim
  · exact .inl ⟨call, (step_records ha hs).2.2.2.2 ▸ hcall, rfl, rfl, rfl⟩

/-- The labels of the steps of a creation. -/
def Creating : FleetLabel → Prop
  | .createWorkerTask .. | .stage .. => True
  | _ => False

theorem step_creating {a : FleetLabel} (ha : ¬ Creating a) (hs : f.step a = some f') :
    f'.gate = f.gate ∧ f'.finished = f.finished := by
  by_cases hrec : Recording a
  · cases a with
    | append c append fetch =>
        obtain ⟨hello, id, d, -, rfl⟩ := step_append hs
        exact ⟨rfl, rfl⟩
    | command env cmd =>
        obtain ⟨-, rfl⟩ := step_command hs
        exact ⟨rfl, rfl⟩
    | startAssistant env c t engine model effort prompt workspace =>
        cases hs
        exact ⟨rfl, rfl⟩
    | createWorkerTask env request => exact absurd trivial ha
    | stage e => exact absurd trivial ha
    | _ => exact hrec.elim
  · obtain ⟨-, -, -, hfinished, hgate⟩ := step_records hrec hs
    exact ⟨hgate, hfinished⟩

/-! ## The store's own operations -/

/-- **A fleet writes through the store's operations only.** -/
theorem step_performs {a : FleetLabel} (hs : f.step a = some f') :
    Performs f.hub.hub f'.hub.hub := by
  cases a with
  | dial hello =>
      obtain ⟨-, -, rfl⟩ := step_dial hs
      exact .refl
  | upsert c env =>
      obtain ⟨hello, -, rfl⟩ := step_upsert hs
      simp only [setSession, upsertConnected]
      split
      · next s hop =>
          exact .call env (.upsertNode _) ⟨s, none, []⟩ .refl (Result.bind_eq_ok.mpr ⟨_, hop, rfl⟩)
      · exact .refl
  | announce c append fetch now =>
      obtain ⟨hello, -, rfl⟩ := step_announce hs
      exact .nodeEvent append fetch f.hub _ _
  | check c validate id d =>
      obtain ⟨hello, -, hcases⟩ := step_check hs
      obtain ⟨rt, hrt⟩ := acceptsNodeEvent_fst validate f.hub hello.nodeId d
      have hsame : (f.hub.acceptsNodeEvent validate hello.nodeId d).1.hub = f.hub.hub := by rw [hrt]
      obtain ⟨-, rfl⟩ | rfl | rfl := hcases
      · simp only [setSession, hsame]
        exact .refl
      · simp only [hsame]
        exact .refl
      · simp only [(routeToNode_hub _ _ _).1, hsame]
        exact .refl
  | append c append fetch =>
      obtain ⟨hello, id, d, -, rfl⟩ := step_append hs
      have hcall := Performs.nodeEvent append fetch f.hub id d
      simp only [setSession, appendAccepted]
      split <;> next heq =>
        rw [heq] at hcall
        first
          | exact hcall
          | (rw [(routeToNode_hub _ _ _).1]
             exact hcall)
  | ack c env commandId =>
      obtain ⟨hello, -, rfl⟩ := step_ack hs
      simp only [HubState.acknowledgeDispatchFrom]
      split
      · next s b hop =>
          exact .call env (.acknowledgeDispatchFrom commandId hello.nodeId) ⟨s, none, []⟩ .refl
            (Result.bind_eq_ok.mpr ⟨_, hop, rfl⟩)
      · exact .refl
  | hangUp c =>
      obtain ⟨hello, -, -, ⟨-, rfl⟩ | ⟨-, rfl⟩⟩ := step_hangUp hs <;> exact .refl
  | demote c read upsert =>
      obtain ⟨hello, -, rfl⟩ := step_demote hs
      simp only [setSession, upsertDisconnected]
      split
      · split
        · next s hop =>
            exact .call upsert (.upsertNode _) ⟨s, none, []⟩ .refl
              (Result.bind_eq_ok.mpr ⟨_, hop, rfl⟩)
        · exact .refl
      · exact .refl
  | depart c append fetch now =>
      obtain ⟨hello, -, rfl⟩ := step_depart hs
      exact .nodeEvent append fetch f.hub _ _
  | command env cmd =>
      obtain ⟨-, rfl⟩ := step_command hs
      exact .command env f.hub none cmd
  | createWorkerTask env request =>
      obtain ⟨_, rfl⟩ | ⟨_, -, -, rfl⟩ := step_createWorkerTask hs <;> exact .refl
  | stage e =>
      obtain ⟨call, -, ⟨_, -, rfl⟩ | ⟨_, -, rfl⟩⟩ := step_stage hs <;>
        exact stage_performs e f.hub call.request call.nodeId call.stage
  | startAssistant env c t engine model effort prompt workspace =>
      cases hs
      simp only [HubState.startHubAssistantRun]
      split
      · exact .refl
      · split <;> next heq =>
          rw [← congrArg Prod.fst heq]
          exact .bundle env.append env.fetch f.hub _ _ _ _
  | assistantMessage env c t r text mid =>
      cases hs
      exact .bundle env.append env.fetch f.hub _ _ _ _
  | assistantEvent append fetch kind t r provider payload now =>
      cases hs
      simp only [HubState.appendHubAssistantEvent]
      split
      · exact .nodeEvent append fetch f.hub _ _
      · exact .refl
  | track lookup register channel t r =>
      cases hs
      exact track_performs lookup register f.hub channel t r

/-- In every run the log invariant holds and the cache agrees with the runs. -/
theorem restarting_sound {ok : Fleet → AuthorityLabel → Prop} (h : restarting.Reach ok f) :
    EventLog f.hub.hub ∧ CacheOk f.hub := by
  refine h.invariant (P := fun f => EventLog f.hub.hub ∧ CacheOk f.hub) ?_ ?_
  · rintro f ⟨h, hinit, rfl⟩
    exact ⟨eventLog_init hinit, CacheOk.init hinit⟩
  · rintro f a f' ⟨hlog, hcache⟩ - hs
    cases a with
    | fleet a => exact ⟨(step_performs hs).eventLog hlog, (step_runs hcache hs).1⟩
    | restart =>
        cases hs
        exact ⟨hlog, fun r b hr => by cases hr⟩

end Fleet

end Stackhour.Hub
