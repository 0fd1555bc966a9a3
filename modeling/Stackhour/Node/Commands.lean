import Stackhour.Hub.Retirement
import Stackhour.Node.Engine
import Stackhour.Node.Relay

/-!
# Dispatched work, from delivery to retirement

A command takes effect the first time it is delivered to a node process, and
every delivery that has not expired is acknowledged on the link attached when
its task gets to it. At the hub the acknowledgement of the right node retires
the dispatch, and nothing else does.
-/

namespace Stackhour.Node

open Domain Hub TransitionSystem

/-! ## The contract -/

namespace CliNode

/-- Tasks and the receive loop that have yet to acknowledge a delivery of `c`. -/
def awaiting (d : CliNode) (c : CommandId) : ℕ :=
  d.tasks.countP (fun t => decide (t.toAck = some c)) +
    d.starting.toList.countP (fun s => decide (s.commandId = c))

/-- The acknowledgements handed to the writers of links. -/
def answered (d : CliNode) : List CommandId :=
  d.handed.flatMap (fun p => p.2.filterMap NodeToHub.commandId)

end CliNode

/-- The runs and processes of the engine are effects of commands. -/
structure Records (d : CliNode) : Prop where
  runs : ∀ r spec, d.state.runs r = some spec → ∃ c, (c, .registered r spec) ∈ d.effects
  jobs : ∀ r j, d.state.jobs r = some j →
    ∃ c engine request, d.effects[j]? = some (c, .executed r engine request)

/-- No command has a second effect, and none has one undelivered. -/
structure OncePerCommand (d : CliNode) : Prop extends Records d where
  once : (d.effects.map Prod.fst).Nodup
  delivered : ∀ e ∈ d.effects, e.1 ∈ d.heard

/-- Every delivery is waiting for its acknowledgement, was acknowledged on a
link, had none to be acknowledged on, or had expired; and a task that waits can
acknowledge on the link that is attached. -/
structure Answered (d : CliNode) : Prop where
  balance : ∀ c, d.heard.count c =
    d.awaiting c + d.answered.count c + d.lost.count c + d.stale.count c
  answer : ∀ i c work tx, d.tasks[i]? = some ⟨some c, work⟩ → d.outbox.tx = some tx →
    ∃ d', d.step (.acknowledge i) = some d' ∧ d'.handed = d.handed ++ [(tx, [.commandAck c])]

/-- Acknowledgements are given while a link is attached. -/
def WhileAttached (d : CliNode) : CliLabel → Prop
  | .acknowledge _ => d.outbox.tx.isSome
  | _ => True

/-! ## What is to come of a command -/

namespace CliNode

/-- The work will launch an update for `c`. -/
def updates (c : CommandId) (t : SpawnedTask) : Bool :=
  match t.work with
  | .update c' _ => decide (c' = c)
  | _ => false

/-- The effects of a command, and those under way. -/
def undertaken (d : CliNode) (c : CommandId) : ℕ :=
  (d.effects.map Prod.fst).count c + d.tasks.countP (updates c) +
    d.starting.toList.countP (fun s => decide (s.commandId = c))

theorem countP_become {d : CliNode} {i : ℕ} {t : SpawnedTask} (p : SpawnedTask → Bool)
    (hi : d.tasks[i]? = some t) (work : Work) :
    (d.become i work).tasks.countP p + (if p t then 1 else 0) =
      d.tasks.countP p + if p ⟨none, work⟩ then 1 else 0 := by
  obtain ⟨hlt, hget⟩ := List.getElem?_eq_some_iff.mp hi
  have hpos : p t = true → 0 < d.tasks.countP p := fun hp =>
    List.countP_pos_iff.mpr ⟨t, List.mem_of_getElem? hi, hp⟩
  have hle : (if p t then 1 else 0) ≤ d.tasks.countP p := by
    split
    · next hp => exact hpos hp
    · exact Nat.zero_le _
  simp only [become, List.countP_set hlt, hget]
  omega

theorem spawn_undertaken (d : CliNode) (c k : CommandId) (work : Work) :
    (d.spawn c work).undertaken k =
      d.undertaken k + if updates k ⟨some c, work⟩ then 1 else 0 := by
  simp only [undertaken, spawn, List.countP_append, List.countP_singleton]
  omega

theorem spawn_awaiting (d : CliNode) (c k : CommandId) (work : Work) :
    (d.spawn c work).awaiting k = d.awaiting k + if c = k then 1 else 0 := by
  simp only [awaiting, spawn, List.countP_append, List.countP_singleton, Option.some.injEq,
    decide_eq_true_eq]
  omega

theorem effect_undertaken (d : CliNode) (c k : CommandId) (e : Effect) :
    (d.effect c e).undertaken k = d.undertaken k + if c = k then 1 else 0 := by
  simp only [undertaken, effect, List.map_append, List.map_cons, List.map_nil, List.count_append,
    List.count_singleton, beq_iff_eq]
  omega

theorem effect_awaiting (d : CliNode) (c k : CommandId) (e : Effect) :
    (d.effect c e).awaiting k = d.awaiting k := rfl

/-- Stopping a run marks it and its process. -/
theorem stopRun_eq (d : CliNode) (r : RunId) : ∃ interrupted terminated,
    d.stopRun r = { d with
      state := { d.state with interrupted := interrupted }, terminated := terminated } := by
  unfold stopRun
  split
  · exact ⟨_, _, rfl⟩
  · exact ⟨d.state.interrupted, d.terminated, rfl⟩

/-- What one delivery adds: an acknowledgement to give, and at most `n`
effects. -/
structure Delivers (d : CliNode) (c : CommandId) (n : ℕ) (d' : CliNode) : Prop where
  undertaken : ∀ k, d'.undertaken k ≤ d.undertaken k + if c = k then n else 0
  awaiting : ∀ k, d'.awaiting k = d.awaiting k + if c = k then 1 else 0
  seen : d'.state.seen = d.state.seen
  handed : d'.handed = d.handed
  outbox : d'.outbox = d.outbox
  heard : d'.heard = d.heard
  stale : d'.stale = d.stale
  lost : d'.lost = d.lost

theorem perform_delivers {d : CliNode} (hs : d.starting = none) (c : CommandId) (work : NodeWork) :
    Delivers d c 1 (d.perform c work) := by
  cases work with
  | startRun runId taskId engine model reasoningEffort systemPrompt accessPolicy path =>
      refine ⟨fun k => ?_, fun k => ?_, rfl, rfl, rfl, rfl, rfl, rfl⟩
      · simp only [perform, spawn_undertaken, effect_undertaken]
        exact le_rfl
      · simp only [perform, spawn_awaiting, effect_awaiting]
        rfl
  | sendPrompt taskId runId text mid =>
      have hrefused : ∀ ns, Delivers d c 1 (d.spawn c (.emit ns)) := by
        refine fun ns => ⟨fun k => ?_, fun k => ?_, rfl, rfl, rfl, rfl, rfl, rfl⟩
        · rw [spawn_undertaken]
          exact Nat.add_le_add_left (Nat.zero_le _) _
        · rw [spawn_awaiting]
      simp only [perform]
      split
      · exact hrefused _
      · split
        · refine ⟨fun k => ?_, fun k => ?_, rfl, rfl, rfl, rfl, rfl, rfl⟩
          · simp [undertaken, hs, List.countP_singleton]
          · simp [awaiting, hs, List.countP_singleton]
        · exact hrefused _
  | interruptRun runId =>
      obtain ⟨interrupted, terminated, hstop⟩ := stopRun_eq d runId
      refine ⟨fun k => ?_, fun k => ?_, ?_, ?_, ?_, ?_, ?_, ?_⟩
      · simp only [perform, spawn_undertaken, effect_undertaken, hstop]
        exact le_rfl
      · simp only [perform, spawn_awaiting, effect_awaiting, hstop]
        rfl
      all_goals
        simp only [perform, hstop]
        rfl
  | update version =>
      refine ⟨fun k => ?_, fun k => ?_, rfl, rfl, rfl, rfl, rfl, rfl⟩
      · simp only [perform, spawn_undertaken, updates, decide_eq_true_eq]
        exact le_rfl
      · simp only [perform, spawn_awaiting]

/-- **A delivery.** A command seen before is acknowledged again; a new one is
marked, acknowledged, and has one effect at most. -/
theorem dispatch_cases {d : CliNode} (hs : d.starting = none) (c : CommandId) (work : NodeWork) :
    (d.state.seen c = true ∧ Delivers d c 0 (d.dispatch c work)) ∨
    (d.state.seen c = false ∧ Delivers (d.markSeen c) c 1 (d.dispatch c work)) := by
  unfold dispatch
  by_cases hseen : d.state.seen c = true
  · rw [if_pos hseen]
    refine .inl ⟨hseen, fun k => ?_, fun k => ?_, rfl, rfl, rfl, rfl, rfl, rfl⟩
    · rw [spawn_undertaken]
      exact Nat.add_le_add_left (Nat.zero_le _) _
    · rw [spawn_awaiting]
  · rw [if_neg hseen]
    exact .inr ⟨Bool.eq_false_iff.mpr hseen, perform_delivers (d := d.markSeen c) hs c work⟩

/-- A task launches its update, or drops it. -/
theorem launch_counts {d : CliNode} {i : ℕ} {c : CommandId} {version : String}
    (hi : d.tasks[i]? = some ⟨none, .update c version⟩) (e : Effect) :
    (∀ k, (d.become i (.emit [])).undertaken k ≤ d.undertaken k) ∧
      (∀ k, ((d.become i (.emit [])).effect c e).undertaken k ≤ d.undertaken k) ∧
      ∀ k, (d.become i (.emit [])).awaiting k = d.awaiting k := by
  have hcount : ∀ k, (d.become i (.emit [])).undertaken k + (if c = k then 1 else 0) =
      d.undertaken k := by
    intro k
    have hupdates := countP_become (updates k) hi (.emit [])
    simp only [updates, decide_eq_true_eq, Bool.false_eq_true, if_false] at hupdates
    rw [undertaken, undertaken, ← Nat.add_zero (d.tasks.countP _), ← hupdates,
      Nat.add_right_comm, ← Nat.add_assoc]
    rfl
  refine ⟨fun k => ?_, fun k => ?_, fun k => ?_⟩
  · rw [← hcount k]
    exact Nat.le_add_right ..
  · rw [effect_undertaken, hcount k]
  · have haw := countP_become (fun t => decide (t.toAck = some k)) hi (.emit [])
    simp only [awaiting]
    rw [Nat.add_right_cancel haw]
    rfl

end CliNode

/-! ## The runs and processes -/

namespace Records

open CliNode

variable {d d' : CliNode}

/-- Steps that register nothing. -/
theorem extend (h : Records d) (hruns : d'.state.runs = d.state.runs)
    (hjobs : ∀ r, d'.state.jobs r = d.state.jobs r ∨ d'.state.jobs r = none)
    (heffects : d.effects <+: d'.effects) : Records d' where
  runs r spec hr := by
    obtain ⟨c, hmem⟩ := h.runs r spec (hruns ▸ hr)
    exact ⟨c, heffects.subset hmem⟩
  jobs r j hj := by
    rcases hjobs r with hsame | hnone
    · obtain ⟨c, engine, request, hget⟩ := h.jobs r j (hsame ▸ hj)
      obtain ⟨hlt, hget⟩ := List.getElem?_eq_some_iff.mp hget
      refine ⟨c, engine, request, ?_⟩
      rw [List.getElem?_eq_some_iff]
      exact ⟨hlt.trans_le heffects.length_le, (heffects.getElem hlt).symm.trans hget⟩
    · cases hnone.symm.trans hj

/-- Steps that change neither the runs, the processes nor the effects. -/
theorem same (h : Records d) (hruns : d'.state.runs = d.state.runs)
    (hjobs : d'.state.jobs = d.state.jobs) (heffects : d'.effects = d.effects) : Records d' :=
  h.extend hruns (fun _ => .inl (by rw [hjobs])) (heffects ▸ List.prefix_refl _)

theorem stopRun (h : Records d) (r : RunId) : Records (d.stopRun r) := by
  obtain ⟨interrupted, terminated, hstop⟩ := stopRun_eq d r
  rw [hstop]
  exact h.same rfl rfl rfl

/-- A run is registered by an effect. -/
theorem register (h : Records d) (c : CommandId) (r : RunId) (spec : RunSpec)
    (hruns : d'.state.runs = Function.update d.state.runs r (some spec))
    (hjobs : d'.state.jobs = d.state.jobs)
    (heffects : d'.effects = d.effects ++ [(c, .registered r spec)]) : Records d' := by
  have hextend : Records { d' with state := { d'.state with runs := d.state.runs } } :=
    h.extend rfl (fun _ => .inl (by rw [hjobs])) (by rw [heffects]; exact List.prefix_append ..)
  refine ⟨fun r' spec' hr => ?_, hextend.jobs⟩
  rw [hruns] at hr
  by_cases hrr : r' = r
  · subst hrr
    rw [Function.update_self] at hr
    obtain rfl := Option.some.inj hr
    exact ⟨c, heffects ▸ List.mem_append_right _ (List.mem_singleton_self _)⟩
  · rw [Function.update_of_ne hrr] at hr
    exact hextend.runs r' spec' hr

theorem perform (h : Records d) (c : CommandId) (work : NodeWork) :
    Records (d.perform c work) := by
  cases work with
  | startRun runId taskId engine model reasoningEffort systemPrompt accessPolicy path =>
      exact h.register c runId _ rfl rfl rfl
  | sendPrompt taskId runId text mid =>
      simp only [CliNode.perform]
      split
      · exact h.same rfl rfl rfl
      · split <;> exact h.same rfl rfl rfl
  | interruptRun runId =>
      exact (h.stopRun runId).extend rfl (fun _ => .inl rfl) (List.prefix_append ..)
  | update version => exact h.same rfl rfl rfl

/-- A process is registered at the place of its effect. -/
theorem startProcess (h : Records d) (s : Starting) : Records (d.startProcess s) := by
  have hprefix : d.effects <+: (d.startProcess s).effects := List.prefix_append ..
  have hextend : Records { d.startProcess s with state := d.state } :=
    h.extend rfl (fun _ => .inl rfl) hprefix
  refine ⟨hextend.runs, fun r j hj => ?_⟩
  by_cases hr : r = s.runId
  · subst hr
    obtain rfl : d.effects.length = j := by
      simpa only [CliNode.startProcess, CliNode.spawn, CliNode.effect, Function.update_self,
        Option.some.injEq] using hj
    exact ⟨s.commandId, s.spec.engine, s.request d.config, List.getElem?_concat_length⟩
  · refine hextend.jobs r j ?_
    simpa only [CliNode.startProcess, CliNode.spawn, CliNode.effect, Function.update_of_ne hr]
      using hj

theorem finish (h : Records d) (c : CommandId) (r : RunId) (result : Option RunResult) :
    Records (d.finish c r result) := by
  refine h.extend rfl (fun k => ?_) (List.prefix_refl _)
  by_cases hk : k = r
  · subst hk
    exact .inr (Function.update_self ..)
  · exact .inl (Function.update_of_ne hk ..)

theorem handle (h : Records d) (nowSecs : ℤ) (m : HubToNode) :
    Records (d.handleHubMessage nowSecs m) := by
  cases m with
  | dispatchCommand c expiresAt work =>
      simp only [handleHubMessage]
      split
      · exact h.same rfl rfl rfl
      · unfold dispatch
        split
        · exact h.same rfl rfl rfl
        · refine perform (d := _) ?_ c work
          exact h.same rfl rfl rfl
  | cancelCommand c =>
      simp only [handleHubMessage, cancel]
      split
      · exact h.stopRun _
      · exact h
  | eventAck id => exact h.same rfl rfl rfl
  | approvalDecision id decision actor => exact h
  | heartbeat => exact h

theorem step (h : Records d) {a : CliLabel} (hs : d.step a = some d') : Records d' := by
  cases a with
  | hear m nowSecs =>
      simp only [CliNode.step] at hs
      split at hs
      · cases hs
      · cases hs
        exact h.handle nowSecs m
  | start =>
      obtain ⟨s, -, rfl⟩ := Option.map_eq_some_iff.mp hs
      exact h.startProcess s
  | acknowledge i =>
      simp only [CliNode.step] at hs
      split at hs
      · split at hs <;> cases hs <;> exact h.same rfl rfl rfl
      · cases hs
  | emit i id now =>
      simp only [CliNode.step] at hs
      split at hs
      · cases hs
        exact h.same rfl rfl rfl
      · cases hs
  | launch i =>
      simp only [CliNode.step] at hs
      split at hs
      · cases hs
        split
        · exact h.extend rfl (fun _ => .inl rfl) (List.prefix_append ..)
        · exact h.same rfl rfl rfl
      · cases hs
  | join i result =>
      simp only [CliNode.step] at hs
      split at hs
      · cases hs
        refine finish (d := _) ?_ _ _ _
        exact h.same rfl rfl rfl
      · cases hs
  | attach tx =>
      cases hs
      exact h.same rfl rfl rfl
  | detach =>
      cases hs
      exact h.same rfl rfl rfl
  | resend =>
      cases hs
      exact h.same rfl rfl rfl

end Records

/-! ## The invariant -/

/-- A command has an effect, done or under way, only once it was seen. -/
structure CliInv (d : CliNode) : Prop extends Records d where
  once : ∀ c, d.undertaken c ≤ (d.state.seen c).toNat
  known : ∀ c, d.state.seen c = true → c ∈ d.heard
  balance : ∀ c, d.heard.count c =
    d.awaiting c + d.answered.count c + d.lost.count c + d.stale.count c
  events : ∀ p ∈ d.outbox.pendingEvents, p.2.commandId = none

namespace CliInv

open CliNode

variable {d d' : CliNode}

/-- Steps that hear nothing. -/
theorem advance (h : CliInv d) (hr : Records d') (hu : ∀ c, d'.undertaken c ≤ d.undertaken c)
    (hseen : d'.state.seen = d.state.seen) (hheard : d'.heard = d.heard)
    (hb : ∀ c, d'.awaiting c + d'.answered.count c + d'.lost.count c + d'.stale.count c =
      d.awaiting c + d.answered.count c + d.lost.count c + d.stale.count c)
    (he : ∀ p ∈ d'.outbox.pendingEvents, p.2.commandId = none) : CliInv d' where
  toRecords := hr
  once c := (hu c).trans (hseen ▸ h.once c)
  known c hc := hheard ▸ h.known c (hseen ▸ hc)
  balance c := by rw [hheard, hb, h.balance]
  events := he

/-- Messages without acknowledgements answer nothing. -/
theorem answered_handed {sends : List (ℕ × List NodeToHub)}
    (hquiet : ∀ p ∈ sends, ∀ m ∈ p.2, m.commandId = none)
    (hh : d'.handed = d.handed ++ sends) : d'.answered = d.answered := by
  have hnone : sends.flatMap (fun p => p.2.filterMap NodeToHub.commandId) = [] := by
    rw [List.flatMap_eq_nil_iff]
    exact fun p hp => List.filterMap_eq_nil_iff.mpr (hquiet p hp)
  unfold answered
  rw [hh, List.flatMap_append, hnone, List.append_nil]

theorem pending_quiet (h : CliInv d) : ∀ m ∈ d.outbox.pendingEvents.map Prod.snd,
    m.commandId = none := by
  intro m hm
  obtain ⟨p, hp, rfl⟩ := List.mem_map.mp hm
  exact h.events p hp

/-- A delivery to the engine, once the command is marked. -/
theorem deliver (h : CliInv d) {c : CommandId} {n : ℕ} {seen : CommandId → Bool}
    (hd : Delivers { d with
      heard := d.heard ++ [c], state := { d.state with seen := seen } } c n d')
    (hr : Records d')
    (honce : ∀ k, d.undertaken k + (if c = k then n else 0) ≤ (seen k).toNat)
    (hknown : ∀ k, seen k = true → d.state.seen k = true ∨ k = c) : CliInv d' where
  toRecords := hr
  once k := by
    rw [hd.seen]
    exact (hd.undertaken k).trans (honce k)
  known k hk := by
    rw [hd.seen] at hk
    rw [hd.heard]
    rcases hknown k hk with hold | rfl
    · exact List.mem_append_left _ (h.known k hold)
    · exact List.mem_append_right _ (List.mem_singleton_self _)
  balance k := by
    have hb := h.balance k
    have haw := hd.awaiting k
    have hanswered : d'.answered = d.answered := by
      unfold answered
      rw [hd.handed]
    rw [hd.heard, hd.lost, hd.stale, haw, hanswered, List.count_append, List.count_singleton]
    simp only [beq_iff_eq]
    change _ = d.awaiting k + _ + d.answered.count k + d.lost.count k + d.stale.count k
    omega
  events := hd.outbox ▸ h.events

theorem dispatch (h : CliInv d) (hs : d.starting = none) (c : CommandId) (work : NodeWork)
    (hr : Records ({ d with heard := d.heard ++ [c] }.dispatch c work)) :
    CliInv ({ d with heard := d.heard ++ [c] }.dispatch c work) := by
  obtain ⟨hseen, hd⟩ | ⟨hnew, hd⟩ :=
    dispatch_cases (d := { d with heard := d.heard ++ [c] }) hs c work
  · refine h.deliver hd hr (fun k => ?_) (fun k hk => .inl hk)
    rw [ite_self, Nat.add_zero]
    exact h.once k
  · refine h.deliver hd hr (fun k => ?_)
      (fun k hk => ?_)
    · have honce := h.once k
      by_cases hck : c = k
      · subst hck
        rw [show d.state.seen c = false from hnew] at honce
        rw [if_pos rfl, Function.update_self]
        exact Nat.add_le_add_right honce 1
      · rw [if_neg hck, Function.update_of_ne (Ne.symm hck)]
        exact honce
    · by_cases hkc : k = c
      · exact .inr hkc
      · exact .inl (by rwa [Function.update_of_ne hkc] at hk)

theorem handle (h : CliInv d) (hs : d.starting = none) (nowSecs : ℤ) (m : HubToNode) :
    CliInv (d.handleHubMessage nowSecs m) := by
  have hr := h.toRecords.handle nowSecs m
  cases m with
  | dispatchCommand c expiresAt work =>
      simp only [handleHubMessage] at hr ⊢
      split
      · refine ⟨h.toRecords.same rfl rfl rfl, h.once,
          fun k hk => List.mem_append_left _ (h.known k hk), fun k => ?_, h.events⟩
        have hb := h.balance k
        simp only [List.count_append]
        show _ = d.awaiting k + d.answered.count k + d.lost.count k + _
        omega
      · next hfresh =>
          rw [if_neg hfresh] at hr
          exact h.dispatch hs c work hr
  | cancelCommand c =>
      simp only [handleHubMessage, cancel] at hr ⊢
      split
      · next r _ =>
          obtain ⟨interrupted, terminated, hstop⟩ := stopRun_eq d r
          refine h.advance (h.toRecords.stopRun r) ?_ ?_ ?_ ?_ ?_ <;> rw [hstop]
          · exact fun _ => le_rfl
          · exact fun _ => rfl
          · exact h.events
      · exact h
  | eventAck id =>
      exact h.advance hr (fun _ => le_rfl) rfl rfl (fun _ => rfl)
        (fun p hp => h.events p (OutboxState.mem_of_acknowledgeEvent hp))
  | approvalDecision id decision actor => exact h
  | heartbeat => exact h

theorem startProcess (h : CliInv d) {s : Starting} (hs : d.starting = some s) :
    CliInv (d.startProcess s) := by
  refine h.advance (h.toRecords.startProcess s) (fun c => ?_) rfl rfl (fun c => ?_) h.events
  · simp only [CliNode.startProcess, spawn_undertaken, effect_undertaken]
    simp [undertaken, updates, hs, List.countP_singleton]
  · have haw : (d.startProcess s).awaiting c = d.awaiting c := by
      simp only [CliNode.startProcess, spawn_awaiting, effect_awaiting]
      simp [awaiting, hs, List.countP_singleton]
    rw [haw]
    rfl

/-- A task goes on, with nothing to acknowledge and no update to launch before
or after. -/
theorem become (h : CliInv d) {i : ℕ} {work : Work} (hi : d.tasks[i]? = some ⟨none, work⟩)
    (next : Work) (hwork : ∀ c, updates c ⟨none, work⟩ = false)
    (hnext : ∀ c, updates c ⟨none, next⟩ = false) : CliInv (d.become i next) := by
  refine h.advance (h.toRecords.same rfl rfl rfl) (fun c => ?_) rfl rfl (fun c => ?_) h.events
  · have hcount := countP_become (updates c) hi next
    rw [hwork, hnext] at hcount
    simp only [undertaken]
    exact le_of_eq (by rw [Nat.add_right_cancel hcount]; rfl)
  · have hcount := countP_become (fun t => decide (t.toAck = some c)) hi next
    have haw : (d.become i next).awaiting c = d.awaiting c := by
      simp only [awaiting]
      rw [Nat.add_right_cancel hcount]
      rfl
    rw [haw]
    rfl

/-- A task acknowledges its command, on a link or on none. -/
theorem acknowledge (h : CliInv d) {i : ℕ} {c : CommandId} {work : Work}
    (hi : d.tasks[i]? = some ⟨some c, work⟩) (hr : Records d')
    (htasks : d'.tasks = (d.become i work).tasks) (hrest : d'.starting = d.starting ∧
      d'.effects = d.effects ∧ d'.state = d.state ∧ d'.outbox = d.outbox ∧ d'.heard = d.heard ∧
      d'.stale = d.stale)
    (hcounts : ∀ k, d'.answered.count k + d'.lost.count k =
      d.answered.count k + d.lost.count k + if c = k then 1 else 0) : CliInv d' := by
  obtain ⟨hstarting, heffects, hstate, houtbox, hheard, hstale⟩ := hrest
  refine h.advance hr (fun k => ?_) (by rw [hstate]) hheard (fun k => ?_) (houtbox ▸ h.events)
  · have hcount := countP_become (updates k) hi work
    have hsame : updates k ⟨some c, work⟩ = updates k ⟨none, work⟩ := rfl
    rw [hsame] at hcount
    simp only [undertaken, htasks, heffects, hstarting, Nat.add_right_cancel hcount]
    exact le_rfl
  · have hcount := countP_become (fun t => decide (t.toAck = some k)) hi work
    have hck := hcounts k
    simp only [Option.some.injEq, decide_eq_true_eq, reduceCtorEq, if_false] at hcount
    simp only [awaiting, htasks, hstarting, hstale]
    omega

theorem step (h : CliInv d) {a : CliLabel} (hs : d.step a = some d') : CliInv d' := by
  have hr := h.toRecords.step hs
  cases a with
  | hear m nowSecs =>
      simp only [CliNode.step] at hs
      split at hs
      · cases hs
      · next hidle =>
          cases hs
          exact h.handle (by simpa using hidle) nowSecs m
  | start =>
      obtain ⟨s, hstarting, rfl⟩ := Option.map_eq_some_iff.mp hs
      exact h.startProcess hstarting
  | acknowledge i =>
      simp only [CliNode.step] at hs
      split at hs
      · next c work hi =>
          cases htx : d.outbox.tx with
          | some tx =>
              have hack : d.outbox.ack c = some (tx, [.commandAck c]) := by
                rw [OutboxState.ack, htx]
                rfl
              rw [hack] at hs
              cases hs
              refine h.acknowledge hi hr rfl ⟨rfl, rfl, rfl, rfl, rfl, rfl⟩ fun k => ?_
              simp only [answered, List.flatMap_append, List.flatMap_singleton, List.count_append]
              rw [show [NodeToHub.commandAck c].filterMap NodeToHub.commandId = [c] from rfl,
                List.count_singleton]
              simp only [beq_iff_eq]
              exact Nat.add_right_comm ..
          | none =>
              have hack : d.outbox.ack c = none := by
                rw [OutboxState.ack, htx]
                rfl
              rw [hack] at hs
              cases hs
              refine h.acknowledge hi hr rfl ⟨rfl, rfl, rfl, rfl, rfl, rfl⟩ fun k => ?_
              simp only [List.count_append, List.count_singleton, beq_iff_eq]
              exact (Nat.add_assoc ..).symm
      · cases hs
  | emit i id now =>
      simp only [CliNode.step] at hs
      split at hs
      · next n rest hi =>
          cases hs
          have hgoes := h.become hi (.emit rest) (fun _ => rfl) (fun _ => rfl)
          refine hgoes.advance hr (fun _ => le_rfl) rfl rfl (fun c => ?_) (fun p hp => ?_)
          · rw [answered_handed (d := d.become i (.emit rest)) ?_ rfl]
            · rfl
            · intro p hp m hm
              obtain ⟨tx, -, rfl⟩ := Option.map_eq_some_iff.mp (Option.mem_toList.mp hp)
              rw [List.mem_singleton.mp hm]
              rfl
          · rcases List.mem_append.mp hp with hold | hnew
            · exact h.events p hold
            · rw [List.mem_singleton.mp hnew]
              rfl
      · cases hs
  | launch i =>
      simp only [CliNode.step] at hs
      split at hs
      · next c version hi =>
          obtain ⟨hdropped, hdone, haw⟩ := launch_counts hi (.updated version)
          split at hs <;> cases hs
          · exact h.advance hr hdone rfl rfl (fun k => congrArg (· + _ + _ + _) (haw k)) h.events
          · exact h.advance hr hdropped rfl rfl (fun k => congrArg (· + _ + _ + _) (haw k)) h.events
      · cases hs
  | join i result =>
      simp only [CliNode.step] at hs
      split at hs
      · next c r t hi =>
          cases hs
          have hgoes := h.become hi (.emit (endNotices t r (d.state.interrupted r) result))
            (fun _ => rfl) (fun _ => rfl)
          exact hgoes.advance hr (fun _ => le_rfl) rfl rfl (fun _ => rfl) h.events
      · cases hs
  | attach tx =>
      cases hs
      refine h.advance hr (fun _ => le_rfl) rfl rfl (fun c => ?_) h.events
      rw [answered_handed (d := d) ?_ rfl]
      · rfl
      · intro p hp m hm
        rw [List.mem_singleton.mp hp] at hm
        exact h.pending_quiet m hm
  | detach =>
      cases hs
      exact h.advance hr (fun _ => le_rfl) rfl rfl (fun _ => rfl) h.events
  | resend =>
      cases hs
      refine h.advance hr (fun _ => le_rfl) rfl rfl (fun c => ?_) h.events
      rw [answered_handed (d := d) ?_ rfl]
      · rfl
      · intro p hp m hm
        obtain ⟨tx, -, rfl⟩ := Option.map_eq_some_iff.mp (Option.mem_toList.mp hp)
        exact h.pending_quiet m hm

theorem init (hi : CliNode.system.init d) : CliInv d := by
  obtain ⟨config, nodeId, rfl⟩ := hi
  refine ⟨⟨?_, ?_⟩, fun _ => Nat.zero_le _, ?_, fun _ => rfl, ?_⟩
  · intro r spec hr
    cases hr
  · intro r j hj
    cases hj
  · intro c hc
    cases hc
  · intro p hp
    cases hp

theorem oncePerCommand (h : CliInv d) : OncePerCommand d where
  toRecords := h.toRecords
  once := by
    refine List.nodup_iff_count_le_one.mpr fun c => ?_
    calc (d.effects.map Prod.fst).count c
        ≤ d.undertaken c := (Nat.le_add_right ..).trans (Nat.le_add_right ..)
      _ ≤ (d.state.seen c).toNat := h.once c
      _ ≤ 1 := Bool.toNat_le _
  delivered e he := by
    refine h.known e.1 ?_
    have hpos : 0 < (d.effects.map Prod.fst).count e.1 :=
      List.count_pos_iff.mpr (List.mem_map_of_mem he)
    have hle : 0 < (d.state.seen e.1).toNat :=
      hpos.trans_le (((Nat.le_add_right ..).trans (Nat.le_add_right ..)).trans (h.once e.1))
    cases hseen : d.state.seen e.1 with
    | true => rfl
    | false =>
        rw [hseen] at hle
        exact absurd hle (Nat.lt_irrefl 0)

theorem isAnswered (h : CliInv d) : Answered d where
  balance := h.balance
  answer i c work tx hi htx := by
    refine ⟨{ d.become i work with handed := d.handed ++ [(tx, [.commandAck c])] }, ?_, rfl⟩
    simp only [CliNode.step, hi, OutboxState.ack, htx, Option.map_some]

end CliInv

/-! ## The contract holds -/

namespace CliNode

variable {d d' : CliNode}

/-- Only a task that finds no link loses its acknowledgement. -/
theorem step_lost {a : CliLabel} (hs : d.step a = some d') :
    d'.lost = d.lost ∨ d.outbox.tx = none ∧ ∃ i, a = .acknowledge i := by
  cases a with
  | hear m nowSecs =>
      simp only [step] at hs
      split at hs
      · cases hs
      · next hidle =>
          cases hs
          refine .inl ?_
          cases m with
          | dispatchCommand c expiresAt work =>
              simp only [handleHubMessage]
              split
              · rfl
              · obtain ⟨-, hd⟩ | ⟨-, hd⟩ :=
                  dispatch_cases (d := { d with heard := d.heard ++ [c] })
                    (by simpa using hidle) c work <;> exact hd.lost
          | cancelCommand c =>
              simp only [handleHubMessage, cancel]
              split
              · next r _ =>
                  obtain ⟨interrupted, terminated, hstop⟩ := stopRun_eq d r
                  rw [hstop]
              · rfl
          | eventAck id => rfl
          | approvalDecision id decision actor => rfl
          | heartbeat => rfl
  | acknowledge i =>
      simp only [step] at hs
      split at hs
      · split at hs <;> cases hs
        · exact .inl rfl
        · next hack => exact .inr ⟨Option.map_eq_none_iff.mp hack, i, rfl⟩
      · cases hs
  | start =>
      obtain ⟨s, -, rfl⟩ := Option.map_eq_some_iff.mp hs
      exact .inl rfl
  | emit i id now =>
      simp only [step] at hs
      split at hs <;> cases hs
      exact .inl rfl
  | launch i =>
      simp only [step] at hs
      split at hs
      · split at hs <;> cases hs <;> exact .inl rfl
      · cases hs
  | join i result =>
      simp only [step] at hs
      split at hs <;> cases hs
      exact .inl rfl
  | _ =>
      cases hs
      exact .inl rfl

theorem nothing_lost (hr : CliNode.system.Reach WhileAttached d) : d.lost = [] := by
  refine System.Reach.invariant (P := fun d => d.lost = []) ?_ ?_ hr
  · rintro d ⟨config, nodeId, rfl⟩
    rfl
  · intro d a d' hnone hok hs
    rcases step_lost hs with hsame | ⟨htx, i, rfl⟩
    · exact hsame.trans hnone
    · rw [WhileAttached, htx] at hok
      cases hok

end CliNode

/-! ## The node of the relay -/

namespace CliNode

/-- What the node of the relay does: it takes one of its own steps, hears a
message, or is not concerned. -/
def NodeMoves (r r' : Relay) : Prop :=
  r' = r ∨ (∃ m, r' = r.receive m) ∨ ∃ b, r.step b = some r'

/-- Hearing a message sends nothing, and acknowledges an event at most. -/
theorem handle_outbox {d : CliNode} (hs : d.starting = none) (nowSecs : ℤ) (m : HubToNode) :
    (d.handleHubMessage nowSecs m).handed = d.handed ∧
      ((d.handleHubMessage nowSecs m).outbox = d.outbox ∨
        ∃ id, m = .eventAck id ∧
          (d.handleHubMessage nowSecs m).outbox = d.outbox.acknowledgeEvent id) := by
  cases m with
  | dispatchCommand c expiresAt work =>
      simp only [handleHubMessage]
      split
      · exact ⟨rfl, .inl rfl⟩
      · obtain ⟨-, hd⟩ | ⟨-, hd⟩ :=
          dispatch_cases (d := { d with heard := d.heard ++ [c] }) hs c work <;>
        exact ⟨hd.handed, .inl hd.outbox⟩
  | cancelCommand c =>
      simp only [handleHubMessage, cancel]
      split
      · next r _ =>
          obtain ⟨interrupted, terminated, hstop⟩ := stopRun_eq d r
          rw [hstop]
          exact ⟨rfl, .inl rfl⟩
      · exact ⟨rfl, .inl rfl⟩
  | eventAck id => exact ⟨rfl, .inr ⟨id, rfl, rfl⟩⟩
  | approvalDecision id decision actor => exact ⟨rfl, .inl rfl⟩
  | heartbeat => exact ⟨rfl, .inl rfl⟩

/-- **The engine runs on the relay**: what a step does to the outbox, and hands
to the writers of links, the relay's node can do. -/
theorem step_relayed {d d' : CliNode} {a : CliLabel} (hs : d.step a = some d') {r : Relay}
    (hr : r.outbox = d.outbox) :
    ∃ r' sends, NodeMoves r r' ∧ r'.outbox = d'.outbox ∧ d'.handed = d.handed ++ sends ∧
      r'.writers = r.writers ++ sends := by
  obtain ⟨hub, nodeId, outbox, writers, wires, emitted, rejected⟩ := r
  obtain rfl : outbox = d.outbox := hr
  -- a step that touches neither is none of the relay's
  have hidle : d'.outbox = d.outbox → d'.handed = d.handed → ∃ r' sends,
      NodeMoves ⟨hub, nodeId, d.outbox, writers, wires, emitted, rejected⟩ r' ∧
        r'.outbox = d'.outbox ∧ d'.handed = d.handed ++ sends ∧ r'.writers = writers ++ sends :=
    fun hout hhanded => ⟨_, [], .inl rfl, hout.symm, by rw [hhanded, List.append_nil],
      (List.append_nil _).symm⟩
  cases a with
  | hear m nowSecs =>
      simp only [step] at hs
      split at hs
      · cases hs
      · next hbusy =>
          cases hs
          obtain ⟨hhanded, hout | ⟨id, -, hout⟩⟩ := handle_outbox (by simpa using hbusy) nowSecs m
          · exact hidle hout hhanded
          · exact ⟨_, [], .inr (.inl ⟨.eventAck id, rfl⟩), hout.symm,
              by rw [hhanded, List.append_nil], (List.append_nil _).symm⟩
  | start =>
      obtain ⟨s, -, rfl⟩ := Option.map_eq_some_iff.mp hs
      exact hidle rfl rfl
  | acknowledge i =>
      simp only [step] at hs
      split at hs
      · next c work _ =>
          split at hs
          · next send hack =>
              cases hs
              refine ⟨_, [send], .inr (.inr ⟨.ackCommand c, rfl⟩), rfl, rfl, ?_⟩
              rw [hack]
              rfl
          · cases hs
            exact hidle rfl rfl
      · cases hs
  | emit i id now =>
      simp only [step] at hs
      split at hs
      · next n rest _ =>
          cases hs
          exact ⟨_, _, .inr (.inr ⟨.emit id (n.draft d.nodeId now), rfl⟩), rfl, rfl, rfl⟩
      · cases hs
  | launch i =>
      simp only [step] at hs
      split at hs
      · split at hs <;> cases hs <;> exact hidle rfl rfl
      · cases hs
  | join i result =>
      simp only [step] at hs
      split at hs <;> cases hs
      exact hidle rfl rfl
  | attach tx =>
      cases hs
      exact ⟨_, _, .inr (.inr ⟨.attach tx, rfl⟩), rfl, rfl, rfl⟩
  | detach =>
      cases hs
      exact ⟨_, [], .inr (.inr ⟨.detach, rfl⟩), rfl, (List.append_nil _).symm,
        (List.append_nil _).symm⟩
  | resend =>
      cases hs
      exact ⟨_, _, .inr (.inr ⟨.resend, rfl⟩), rfl, rfl, rfl⟩

end CliNode

/-! ## Once, and until retired -/

/-- **Dispatched work takes effect at most once** in the life of a node process,
its deliveries are answered as long as a link is attached, and a dispatch is
pending exactly until its node's acknowledgement is recorded. -/
theorem dispatch_once_until_retired {d : CliNode} (hr : CliNode.system.Reach Anyway d)
    {h : HubState} {row : DispatchRow} (hp : Pending h.hub row) (as : List HubLabel) :
    OncePerCommand d ∧ Answered d ∧ (CliNode.system.Reach WhileAttached d → d.lost = []) ∧
      (Pending (as.foldl HubState.step h).hub row ↔ ∀ a ∈ as, ¬ Retires row a) := by
  have hinv : CliInv d := System.Reach.invariant (fun _ hi => .init hi)
    (fun _ _ _ h _ hs => h.step hs) hr
  exact ⟨hinv.oncePerCommand, hinv.isAnswered, CliNode.nothing_lost, hp.run_iff as⟩

/-- A dispatch of the command `u`, heard at the epoch. -/
def hearing (u : ℕ) (expiresAt : Option DateTime) (work : NodeWork) : CliLabel :=
  .hear (.dispatchCommand ⟨BitVec.ofNat 128 u⟩ expiresAt work) 0

/-- The start of a Claude run. -/
def runStart (task run : ℕ) : NodeWork :=
  .startRun ⟨BitVec.ofNat 128 run⟩ ⟨BitVec.ofNat 128 task⟩ "claude" none none none .supervised none

/-- A hub that has recorded the start of run 10 for its only node. -/
def startedHub : HubState :=
  HubState.after [HubState.arrival "n", HubState.starting 10 7]

/-- That start. -/
def startRow : DispatchRow :=
  ⟨⟨10⟩, ⟨"n"⟩, .dispatchCommand ⟨10⟩ none (runStart 7 10), fmtTime .epoch, none⟩

set_option maxRecDepth 4096 in
theorem startRow_pending : Pending startedHub.hub startRow := by
  refine ⟨List.mem_of_getElem? (i := 0) ?_, rfl⟩
  rfl

/-- A node process that has just started. -/
def freshNode : CliNode := .fresh ⟨none, none, none⟩ ⟨"n"⟩

/-- A node acknowledges run 10's start. -/
def acking (name : String) (refusal : Option String) : HubLabel :=
  .commandAck ⟨.epoch, 0, refusal⟩ ⟨name⟩ ⟨10⟩

set_option maxRecDepth 4096 in
/-- A start is delivered twice, and the acknowledgement of another node comes
before the right one. -/
theorem dispatch_once_until_retired_sample :
    ∃ d, CliNode.system.run freshNode [.attach 0, hearing 10 none (runStart 7 10),
      .acknowledge 0, hearing 10 none (runStart 7 10), .acknowledge 1] = some d ∧
      OncePerCommand d ∧ Answered d ∧ d.lost = [] ∧ Pending startedHub.hub startRow ∧
      ¬ Pending ([acking "other" none, acking "n" none].foldl HubState.step startedHub).hub
        startRow := by
  have hstart : CliNode.system.Reach WhileAttached freshNode := .start ⟨_, _, rfl⟩
  have hattached := hstart.next (a := CliLabel.attach 0) trivial rfl
  have hheard := hattached.next (a := hearing 10 none (runStart 7 10)) trivial rfl
  have hacked := hheard.next (a := CliLabel.acknowledge 0) rfl rfl
  have hagain := hacked.next (a := hearing 10 none (runStart 7 10)) trivial rfl
  have hlast := hagain.next (a := CliLabel.acknowledge 1) rfl rfl
  obtain ⟨honce, hanswered, hlost, hiff⟩ := dispatch_once_until_retired
    (hlast.mono fun _ _ _ => trivial) startRow_pending [acking "other" none, acking "n" none]
  refine ⟨_, rfl, honce, hanswered, hlost hlast, startRow_pending, fun hp => ?_⟩
  exact hiff.mp hp (acking "n" none) (by simp) ⟨rfl, rfl, rfl⟩

set_option maxRecDepth 4096 in
/-- An expired dispatch is not answered, and an acknowledgement the database
refuses retires nothing. -/
theorem expired_unanswered :
    (¬ ∀ d, CliNode.system.Reach WhileAttached d → ∀ c,
      d.heard.count c = d.awaiting c + d.answered.count c) ∧
    ¬ ∀ (h : HubState) (row : DispatchRow), HubState.system.Reach Anyway h →
      Pending h.hub row → ∀ as : List HubLabel,
        (Pending (as.foldl HubState.step h).hub row ↔
          ∀ env, .commandAck env row.nodeId row.commandId ∉ as) := by
  refine ⟨fun hall => ?_, fun hall => ?_⟩
  · have hstart : CliNode.system.Reach WhileAttached freshNode := .start ⟨_, _, rfl⟩
    have hattached := hstart.next (a := CliLabel.attach 0) trivial rfl
    have hheard := hattached.next (a := hearing 30 (some .epoch) (.update "0.2.0")) trivial rfl
    exact absurd (hall _ hheard ⟨30⟩) (by decide)
  · have hiff := hall startedHub startRow (HubState.after_reach _) startRow_pending
      [acking "n" (some "disk I/O error")]
    have hstill : Pending ([acking "n" (some "disk I/O error")].foldl HubState.step
        startedHub).hub startRow := by
      refine ⟨List.mem_of_getElem? (i := 0) ?_, rfl⟩
      rfl
    exact hiff.mp hstill _ (List.mem_singleton_self _)

end Stackhour.Node
