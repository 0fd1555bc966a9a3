import Stackhour.Hub.Receipts
import Stackhour.Hub.Links

/-!
# Resolving approvals

The arm of `ResolveApproval` resolves the approval in one transaction and
appends its event in another, after a look for the receipt of an earlier try.
The handlers of any number of commands interleave between the three, and a
process that stops takes its handlers with it. The first resolution of an
approval is its only one, so the events of the others report it as well.
-/

namespace Stackhour.Hub

open Domain TransitionSystem HubState

/-! ## Handlers -/

/-- How far a handler is: before the look for a receipt, before the resolution,
or before the append of what its arm has planned. -/
inductive ResolveStage where
  | received
  | checked
  | resolved (expired : Bool) (plan : Plan)

/-- The handler of one `ResolveApproval`. -/
structure ResolveCall where
  commandId : CommandId
  approvalId : ApprovalId
  decision : Decision
  actor : String
  stage : ResolveStage

/-- A handler that has returned: its receipt, and whether the approval was
expired when it was handled. -/
structure Resolution where
  approvalId : ApprovalId
  expired : Bool
  receipt : CommandReceipt

structure Approving where
  hub : HubState
  calls : ℕ → Option ResolveCall
  resolutions : List Resolution

inductive ApprovalLabel where
  | receive (i : ℕ) (commandId : CommandId) (approvalId : ApprovalId) (decision : Decision)
      (actor : String)
  | outcome (i : ℕ) (env : CallEnv)
  | resolve (i : ℕ) (env : CommandEnv)
  | append (i : ℕ) (env : CommandEnv)
  | request (env : CallEnv) (runId : RunId) (taskId : TaskId) (toolCallId scope : String)
      (options : List String) (expiresAt : Option DateTime)
  | hub (a : HubLabel)

/-- The approval as the store holds it is expired. -/
def expiredAt (s : Store) (id : ApprovalId) (now : DateTime) : Bool :=
  match (Table.lookup ApprovalOf.id s.approvals id).map rowToApproval with
  | some (.ok approval) => approval.isExpired now
  | _ => false

/-- The commands whose handlers are the calls. -/
def HubLabel.resolves : HubLabel → Bool
  | .command _ (.resolveApproval ..) _ => true
  | _ => false

/-- The handlers that a step of the hub leaves. -/
def survivors (calls : ℕ → Option ResolveCall) : HubLabel → ℕ → Option ResolveCall
  | .restart => fun _ => none
  | _ => calls

namespace Approving

def setCall (f : Approving) (i : ℕ) (call : ResolveCall) : Approving :=
  { f with calls := Function.update f.calls i (some call) }

def finish (f : Approving) (i : ℕ) (r : Resolution) : Approving :=
  { f with calls := Function.update f.calls i none, resolutions := f.resolutions ++ [r] }

def step (f : Approving) : ApprovalLabel → Option Approving
  | .receive i c id decision actor =>
      match f.calls i with
      | none => some (f.setCall i ⟨c, id, decision, actor, .received⟩)
      | some _ => none
  | .outcome i env =>
      match f.calls i with
      | some ⟨c, id, decision, actor, .received⟩ =>
          match f.hub.hub.commandOutcome env c with
          | .ok (some o) =>
              some (f.finish i ⟨id, expiredAt f.hub.hub id env.now,
                CommandReceipt.accept c o.sequence o.eventId⟩)
          | _ => some (f.setCall i ⟨c, id, decision, actor, .checked⟩)
      | _ => none
  | .resolve i env =>
      match f.calls i with
      | some ⟨c, id, decision, actor, .checked⟩ =>
          let expired := expiredAt f.hub.hub id env.lookup.now
          match f.hub.planResolveApproval env id decision actor with
          | (h, .error e) =>
              some ({ f with hub := h }.finish i ⟨id, expired, CommandReceipt.reject c e⟩)
          | (h, .ok plan) =>
              some ({ f with hub := h }.setCall i ⟨c, id, decision, actor, .resolved expired plan⟩)
      | _ => none
  | .append i env =>
      match f.calls i with
      | some ⟨c, id, _, _, .resolved expired plan⟩ =>
          match f.hub.finishWithEntity env c plan with
          | (h, effect) => some ({ f with hub := h }.finish i ⟨id, expired, effect.receipt⟩)
      | _ => none
  | .request env r t toolCallId scope options expiresAt =>
      match f.hub.hub.requestApproval env r t toolCallId scope options expiresAt with
      | .ok (s, _) => some { f with hub := { f.hub with hub := s } }
      | .error _ => some f
  | .hub a =>
      if a.resolves then none
      else some { f with hub := f.hub.step a, calls := survivors f.calls a }

/-- A hub over a newly opened database, with no handler. -/
def system : System Approving ApprovalLabel where
  init f := HubState.system.init f.hub ∧ f.calls = (fun _ => none) ∧ f.resolutions = []
  step := step

/-! ## The steps -/

variable {f f' : Approving}

theorem step_receive {i : ℕ} {c : CommandId} {id : ApprovalId} {decision : Decision}
    {actor : String} (hs : f.step (.receive i c id decision actor) = some f') :
    f.calls i = none ∧ f' = f.setCall i ⟨c, id, decision, actor, .received⟩ := by
  delta step at hs
  dsimp only at hs
  split at hs
  · next hc => exact ⟨hc, (Option.some.inj hs).symm⟩
  · cases hs

/-- An earlier try has a receipt, or the handler goes on. -/
theorem step_outcome {i : ℕ} {env : CallEnv} (hs : f.step (.outcome i env) = some f') :
    ∃ c id decision actor, f.calls i = some ⟨c, id, decision, actor, .received⟩ ∧
      ((∃ o, f.hub.hub.commandOutcome env c = .ok (some o) ∧
          f' = f.finish i ⟨id, expiredAt f.hub.hub id env.now,
            CommandReceipt.accept c o.sequence o.eventId⟩) ∨
        f' = f.setCall i ⟨c, id, decision, actor, .checked⟩) := by
  delta step at hs
  dsimp only at hs
  split at hs
  · next c id decision actor hc =>
      refine ⟨c, id, decision, actor, hc, ?_⟩
      split at hs
      · next o ho => exact .inl ⟨o, ho, (Option.some.inj hs).symm⟩
      · exact .inr (Option.some.inj hs).symm
  · cases hs

/-- The arm plans an event, or the handler returns. -/
theorem step_resolve {i : ℕ} {env : CommandEnv} (hs : f.step (.resolve i env) = some f') :
    ∃ c id decision actor, f.calls i = some ⟨c, id, decision, actor, .checked⟩ ∧
      ((∃ h e, f.hub.planResolveApproval env id decision actor = (h, .error e) ∧
          f' = { f with hub := h }.finish i
            ⟨id, expiredAt f.hub.hub id env.lookup.now, CommandReceipt.reject c e⟩) ∨
        ∃ h plan, f.hub.planResolveApproval env id decision actor = (h, .ok plan) ∧
          f' = { f with hub := h }.setCall i ⟨c, id, decision, actor,
            .resolved (expiredAt f.hub.hub id env.lookup.now) plan⟩) := by
  delta step at hs
  dsimp only at hs
  split at hs
  · next c id decision actor hc =>
      refine ⟨c, id, decision, actor, hc, ?_⟩
      split at hs
      · next h e heq => exact .inl ⟨h, e, heq, (Option.some.inj hs).symm⟩
      · next h plan heq => exact .inr ⟨h, plan, heq, (Option.some.inj hs).symm⟩
  · cases hs

theorem step_append {i : ℕ} {env : CommandEnv} (hs : f.step (.append i env) = some f') :
    ∃ c id decision actor expired plan,
      f.calls i = some ⟨c, id, decision, actor, .resolved expired plan⟩ ∧
      f' = { f with hub := (f.hub.finishWithEntity env c plan).1 }.finish i
        ⟨id, expired, (f.hub.finishWithEntity env c plan).2.receipt⟩ := by
  delta step at hs
  dsimp only at hs
  split at hs
  · next c id decision actor expired plan hc =>
      exact ⟨c, id, decision, actor, expired, plan, hc, (Option.some.inj hs).symm⟩
  · cases hs

theorem step_request {env : CallEnv} {r : RunId} {t : TaskId} {toolCallId scope : String}
    {options : List String} {expiresAt : Option DateTime}
    (hs : f.step (.request env r t toolCallId scope options expiresAt) = some f') :
    (∃ s a, f.hub.hub.requestApproval env r t toolCallId scope options expiresAt = .ok (s, a) ∧
      f' = { f with hub := { f.hub with hub := s } }) ∨ f' = f := by
  delta step at hs
  dsimp only at hs
  split at hs
  · next s a hop => exact .inl ⟨s, a, hop, (Option.some.inj hs).symm⟩
  · exact .inr (Option.some.inj hs).symm

theorem step_hub {a : HubLabel} (hs : f.step (.hub a) = some f') :
    a.resolves = false ∧
      f' = { f with hub := f.hub.step a, calls := survivors f.calls a } := by
  delta step at hs
  dsimp only at hs
  split at hs
  · cases hs
  · next ha => exact ⟨Bool.eq_false_iff.mpr ha, (Option.some.inj hs).symm⟩

end Approving

/-! ## What the arm plans -/

/-- The payload of an `approval.resolved` event. -/
def decisionPayload (id : ApprovalId) (decision : Decision) (resolvedBy : Option String) : Json :=
  .object [("approval_id", .string (Store.uuidText id.uuid)),
    ("decision", .string decision.asStr), ("actor", .ofOption resolvedBy)]

/-- The event that reports what `row` says once it is decided. -/
def decisionPlan (env : CommandEnv) (row : ApprovalRow) (decision : Decision)
    (resolvedBy : Option String) : Plan where
  draft := draftOf env .approvalResolved row.taskId hubNode (some row.runId)
    (decisionPayload row.id decision resolvedBy)
  dispatch := none
  entity := .none

/-- **What the arm does**: it refuses, it decides a pending approval, or it
reports the decision that stands. -/
inductive ArmResult (env : CommandEnv) (h : HubState) (id : ApprovalId) (decision : Decision)
    (actor : String) : HubState × Except ProtocolError Plan → Prop where
  | refuses : ArmResult env h id decision actor (h, .error (.unknownApproval id))
  | decides (row : ApprovalRow) (current : Approval)
      (found : Table.lookup ApprovalOf.id h.hub.approvals id = some row)
      (read : rowToApproval row = .ok current) (pending : row.isPending)
      (final : decision ≠ .pending) :
      ArmResult env h id decision actor
        ({ h with hub := h.hub.resolved id decision actor env.lookup.now },
          .ok (decisionPlan env row decision (some actor)))
  | reports (row : ApprovalRow) (found : Table.lookup ApprovalOf.id h.hub.approvals id = some row)
      (decided : ¬ row.isPending) :
      ArmResult env h id decision actor
        (h, .ok (decisionPlan env row row.decision row.resolvedBy))

theorem planResolveApproval_result (env : CommandEnv) (h : HubState) (id : ApprovalId)
    (decision : Decision) (actor : String) :
    ArmResult env h id decision actor (h.planResolveApproval env id decision actor) := by
  unfold planResolveApproval
  cases hop : h.hub.resolveApproval env.lookup id decision actor env.lookup.now with
  | error e => exact .refuses
  | ok r =>
      obtain ⟨s, a⟩ := r
      obtain ⟨hd, -, row, current, hl, hrow, hs⟩ := Store.resolveApproval_eq_ok.mp hop
      obtain ⟨-, rfl⟩ := Table.mem_of_lookup hl
      have hpending := rowToApproval_isPending hrow
      have hfields : current = { row with
          expiresAt := current.expiresAt, createdAt := current.createdAt
          resolvedAt := current.resolvedAt } := by
        simp only [rowToApproval, Result.bind_eq_ok, Result.pure_eq_ok] at hrow
        obtain ⟨_, -, _, -, _, -, rfl⟩ := hrow
        rfl
      split at hs
      · next hp =>
          obtain ⟨rfl, rfl⟩ := hs
          rw [hfields]
          exact .decides row current hl hrow (hpending ▸ hp) hd
      · next hp =>
          obtain ⟨rfl, rfl⟩ := hs
          rw [hfields]
          exact .reports row hl (hpending ▸ hp)

/-! ## Steps that resolve nothing -/

/-- The approvals stay as they are, and so does what the log says of them. -/
structure LeavesApprovals (s s' : Store) : Prop where
  approvals : s'.approvals = s.approvals
  events : ∀ e ∈ s'.events, e.kind = .approvalResolved → e ∈ s.events

namespace LeavesApprovals

theorem refl (s : Store) : LeavesApprovals s s := ⟨rfl, fun _ he _ => he⟩

theorem trans {s t u : Store} (h : LeavesApprovals s t) (h' : LeavesApprovals t u) :
    LeavesApprovals s u :=
  ⟨h'.approvals.trans h.approvals, fun e he hk => h.events e (h'.events e he hk) hk⟩

theorem of_snoc {s s' : Store} {row : EventRow} (ha : s'.approvals = s.approvals)
    (he : s'.events = s.events ++ [row]) (hk : row.kind ≠ .approvalResolved) :
    LeavesApprovals s s' := by
  refine ⟨ha, ?_⟩
  intro e hmem hkind
  rw [he] at hmem
  rcases List.mem_append.mp hmem with hmem | hmem
  · exact hmem
  · exact absurd (List.mem_singleton.mp hmem ▸ hkind) hk

theorem nodeEvent (append fetch : CallEnv) (h : HubState) (id : EventId) {d : EventDraft}
    (hk : d.kind ≠ .approvalResolved) :
    LeavesApprovals h.hub (h.appendAndBroadcastNodeEvent append fetch id d).1.hub := by
  have happended : LeavesApprovals h.hub (h.hub.nodeAppended append id d) :=
    .of_snoc (Store.terminalStatuses_approvals d) rfl hk
  obtain ⟨heq, -⟩ | ⟨-, -, heq⟩ | ⟨-, -, heq⟩ := event_cases append fetch h id d
  · rw [heq]
    exact .refl h.hub
  · rw [heq]
    exact happended
  · rw [heq]
    exact happended

theorem upsertNode {env : CallEnv} {s s' : Store} {node : Node}
    (hop : s.upsertNode env node = .ok s') : LeavesApprovals s s' := by
  obtain ⟨-, rfl⟩ := Store.upsertNode_eq_ok.mp hop
  exact ⟨rfl, fun _ he _ => he⟩

end LeavesApprovals

/-- A step that decides no approval and does not say that one is decided. -/
def Unresolving : HubLabel → Prop
  | .command _ (.resolveApproval ..) _ => False
  | .nodeEvent _ _ _ _ _ d => d.kind ≠ .approvalResolved
  | _ => True

/-- No other command is about an approval. -/
theorem planOf_kind {plan : Plan} {cmd : ClientCommand} (hp : PlanOf plan cmd)
    (hc : ∀ c id decision actor, cmd ≠ .resolveApproval c id decision actor) :
    plan.draft.kind ≠ .approvalResolved := by
  cases cmd with
  | createTask c title => exact hp.1 ▸ EventKind.noConfusion
  | sendUserMessage c t r text mid => exact hp.1 ▸ EventKind.noConfusion
  | startRun c t n engine model effort prompt policy workspace =>
      exact hp.1 ▸ EventKind.noConfusion
  | interruptRun c r => exact hp.1 ▸ EventKind.noConfusion
  | resolveApproval c id decision actor => exact absurd rfl (hc c id decision actor)

theorem command_leaves (env : CommandEnv) (h : HubState) (n : Option NodeId)
    {cmd : ClientCommand}
    (hc : ∀ c id decision actor, cmd ≠ .resolveApproval c id decision actor) :
    LeavesApprovals h.hub (h.applyCommandInner env cmd n).1.hub := by
  have hsame : (h.planCommand env n cmd).1.hub = h.hub := by
    obtain heq | ⟨c, id, decision, actor, rfl, -⟩ := planCommand_hub env h n cmd
    · exact heq
    · exact absurd rfl (hc c id decision actor)
  by_cases ha : Answers env.outcome h.hub cmd.commandId
  · obtain ⟨hr, hl⟩ := ha
    obtain ⟨r, hl⟩ := Option.isSome_iff_exists.mp hl
    simp only [applyCommandInner, Store.commandOutcome, CallEnv.admit, hr, hl, Option.map_some]
    exact .refl h.hub
  · rw [applyCommandInner_eq ha]
    cases hplan : h.planCommand env n cmd with
    | mk h₁ p =>
        rw [hplan] at hsame
        cases p with
        | error e => exact hsame ▸ .refl h.hub
        | ok plan =>
            have hk : plan.draft.kind ≠ .approvalResolved :=
              planOf_kind (planCommand_planOf (h := h) (by rw [hplan])) hc
            dsimp only
            rw [rememberStarted_hub, finishWithEntity_fst]
            rw [← hsame]
            obtain ⟨heq, -⟩ | ⟨-, -, heq⟩ | ⟨-, -, heq⟩ := command_cases env.append env.fetch h₁
              cmd.commandId plan.draft plan.entity plan.dispatch
            · rw [heq]
              exact .refl h₁.hub
            · rw [heq]
              exact .of_snoc rfl rfl hk
            · rw [heq]
              exact .of_snoc rfl rfl hk

theorem step_leaves (h : HubState) {a : HubLabel} (ha : Unresolving a) :
    LeavesApprovals h.hub (h.step a).hub := by
  cases a with
  | command env cmd n =>
      refine command_leaves env h n ?_
      rintro c id decision actor rfl
      exact ha
  | nodeEvent validate append fetch n id d =>
      obtain heq | ⟨-, -, heq⟩ := (handleNodeEvent_result validate append fetch h n id d).1.hub_cases
      · simp only [HubState.step, heq]
        exact .refl h.hub
      · simp only [HubState.step, heq]
        exact .of_snoc (Store.terminalStatuses_approvals d) rfl ha
  | commandAck env n c =>
      simp only [HubState.step, HubState.acknowledgeDispatchFrom]
      split
      · next hop =>
          obtain ⟨-, rfl, -⟩ := Store.ackWhere_eq_ok.mp hop
          exact ⟨rfl, fun _ he _ => he⟩
      · exact .refl h.hub
  | register upsert append fetch hello now =>
      simp only [HubState.step, onNodeConnected]
      refine LeavesApprovals.trans ?_ (.nodeEvent append fetch _ _ EventKind.noConfusion)
      split
      · next hop => exact .upsertNode hop
      · exact .refl h.hub
  | unregister read upsert append fetch n c now =>
      have hsame : (h.unregisterNode n c).1.hub = h.hub := by
        unfold unregisterNode
        split <;> rfl
      simp only [HubState.step]
      split
      · next g heq =>
          obtain rfl : (h.unregisterNode n c).1 = g := by rw [heq]
          simp only [onNodeDisconnected]
          refine LeavesApprovals.trans ?_ (.nodeEvent append fetch _ _ EventKind.noConfusion)
          rw [← hsame]
          split
          · split
            · next hop => exact .upsertNode hop
            · exact .refl _
          · exact .refl _
      · next g heq =>
          obtain rfl : (h.unregisterNode n c).1 = g := by rw [heq]
          exact hsame ▸ .refl h.hub
  | registerWorker env channel t =>
      simp only [HubState.step]
      split
      · next hop =>
          obtain ⟨_, -, hs⟩ := Result.bind_eq_ok.mp hop
          obtain rfl := Result.pure_eq_ok.mp hs
          exact ⟨rfl, fun _ he _ => he⟩
      · exact .refl h.hub
  | restart => exact .refl h.hub

/-! ## One winner -/

/-- A resolution that decided its approval. -/
structure Winner where
  approvalId : ApprovalId
  decision : Decision
  actor : String

/-- The approval waits for a decision. -/
def undecided (s : Store) (id : ApprovalId) : Bool :=
  (Table.lookup ApprovalOf.id s.approvals id).any ApprovalOf.isPending

/-- The record of a run: the resolutions that found their approval waiting and
left it decided. -/
def noteWinner (f : Approving) (winners : List Winner) : ApprovalLabel → List Winner
  | .resolve i env =>
      match f.calls i with
      | some ⟨_, id, decision, actor, .checked⟩ =>
          if undecided f.hub.hub id ∧
              ¬ undecided (f.hub.planResolveApproval env id decision actor).1.hub id then
            winners ++ [⟨id, decision, actor⟩]
          else winners
      | _ => winners
  | _ => winners

/-- The event's payload names the approval. -/
def Names (e : EventRow) (id : ApprovalId) : Prop :=
  e.payload.get "approval_id" = some (.string (Store.uuidText id.uuid))

/-- The event's payload carries the decision and its actor. -/
def Carries (e : EventRow) (w : Winner) : Prop :=
  e.payload.get "decision" = some (.string w.decision.asStr) ∧
    e.payload.get "actor" = some (.string w.actor)

/-- **One winner per approval.** An approval is decided once, its row keeps that
decision, and the events about it carry it. -/
structure OneWinner (s : Store) (winners : List Winner) : Prop where
  once : (winners.map Winner.approvalId).Nodup
  kept : ∀ w ∈ winners, w.decision ≠ .pending ∧
    ∃ row, Table.lookup ApprovalOf.id s.approvals w.approvalId = some row ∧
      row.decision = w.decision ∧ row.resolvedBy = some w.actor
  told : ∀ e ∈ s.events, e.kind = .approvalResolved →
    ∃ w ∈ winners, Carries e w ∧ ∀ id, Names e id ↔ id = w.approvalId

/-- No node reports that an approval is resolved; the engines report no such
event. -/
def Unforged (_ : Approving × List Winner) : ApprovalLabel → Prop
  | .hub (.nodeEvent _ _ _ _ _ d) => d.kind ≠ .approvalResolved
  | _ => True

theorem Unresolving.of_label {f : Approving × List Winner} {a : HubLabel}
    (hresolves : a.resolves = false) (hok : Unforged f (.hub a)) : Unresolving a := by
  cases a with
  | command env cmd n =>
      cases cmd with
      | resolveApproval c id decision actor => cases hresolves
      | _ => trivial
  | nodeEvent validate append fetch n id d => exact hok
  | _ => trivial

/-! ## The decided approvals -/

def Winner.payload (w : Winner) : Json :=
  decisionPayload w.approvalId w.decision (some w.actor)

theorem Winner.names_payload {e : EventRow} {w : Winner} (h : e.payload = w.payload)
    (id : ApprovalId) : Names e id ↔ id = w.approvalId := by
  unfold Names
  rw [h]
  constructor
  · intro heq
    have htext : Store.uuidText w.approvalId.uuid = Store.uuidText id.uuid :=
      Json.string.inj (Option.some.inj heq)
    have huuid := Store.uuidText_inj htext
    cases id
    exact congrArg ApprovalId.mk huuid.symm
  · rintro rfl
    rfl

theorem Winner.carries_payload {e : EventRow} {w : Winner} (h : e.payload = w.payload) :
    Carries e w := by
  unfold Carries
  rw [h]
  exact ⟨rfl, rfl⟩

/-- The winners are the decided approvals. -/
structure Decided (s : Store) (winners : List Winner) : Prop where
  once : (winners.map Winner.approvalId).Nodup
  kept : ∀ w ∈ winners, w.decision ≠ .pending ∧
    ∃ row, Table.lookup ApprovalOf.id s.approvals w.approvalId = some row ∧
      row.decision = w.decision ∧ row.resolvedBy = some w.actor
  won : ∀ id row, Table.lookup ApprovalOf.id s.approvals id = some row → ¬ row.isPending →
    ∃ w ∈ winners, w.approvalId = id

namespace Decided

variable {s s' : Store} {winners : List Winner}

theorem of_same (h : Decided s winners) (ha : s'.approvals = s.approvals) :
    Decided s' winners := by
  refine ⟨h.once, ?_, ?_⟩
  · rw [ha]
    exact h.kept
  · rw [ha]
    exact h.won

/-- A new approval waits. -/
theorem request (h : Decided s winners) {env : CallEnv} {r : RunId} {t : TaskId}
    {toolCallId scope : String} {options : List String} {expiresAt : Option DateTime}
    {a : Approval}
    (hop : s.requestApproval env r t toolCallId scope options expiresAt = .ok (s', a)) :
    Decided s' winners := by
  obtain ⟨_, -, hop⟩ := Result.bind_eq_ok.mp hop
  obtain ⟨rows, hins, hs⟩ := Result.bind_eq_ok.mp hop
  obtain ⟨rfl, rfl⟩ := Prod.mk.inj (Result.pure_eq_ok.mp hs)
  obtain ⟨hfresh, rfl⟩ := Table.insert_eq_some.mp (Result.ofOption_eq_ok.mp hins)
  refine ⟨h.once, ?_, ?_⟩
  · intro w hw
    obtain ⟨hd, row, hl, hrow⟩ := h.kept w hw
    exact ⟨hd, row, Table.lookup_of_prefix (List.prefix_append _ _) hl, hrow⟩
  · intro id row hl hdecided
    rw [Table.lookup_append] at hl
    rcases Option.or_eq_some_iff.mp hl with hl | ⟨-, hl⟩
    · exact h.won id row hl hdecided
    · obtain ⟨hmem, -⟩ := Table.mem_of_lookup hl
      obtain rfl := List.mem_singleton.mp hmem
      exact absurd (decide_eq_true rfl) hdecided

/-- A resolution that finds its approval waiting wins. -/
theorem resolved (h : Decided s winners) {id : ApprovalId} {decision : Decision} {actor : String}
    {row : ApprovalRow} (hl : Table.lookup ApprovalOf.id s.approvals id = some row)
    (hp : row.isPending) (hd : decision ≠ .pending) (now : DateTime) :
    Decided (s.resolved id decision actor now) (winners ++ [⟨id, decision, actor⟩]) := by
  have hself : ∃ row', Table.lookup ApprovalOf.id (s.resolved id decision actor now).approvals id =
      some row' ∧ row'.decision = decision ∧ row'.resolvedBy = some actor := by
    simp only [Store.resolved]
    rw [Table.lookup_update_self (by intro r; rfl), hl]
    exact ⟨_, rfl, rfl, rfl⟩
  have hother : ∀ id', id' ≠ id → Table.lookup ApprovalOf.id
      (s.resolved id decision actor now).approvals id' =
        Table.lookup ApprovalOf.id s.approvals id' := by
    intro id' hne
    exact Table.lookup_update_of_ne (by intro r; rfl) hne _
  -- no winner has the approval yet, because its row is pending
  have hnew : id ∉ winners.map Winner.approvalId := by
    intro hmem
    obtain ⟨w, hw, rfl⟩ := List.mem_map.mp hmem
    obtain ⟨hfinal, row', hl', hrow, -⟩ := h.kept w hw
    obtain rfl := Option.some.inj (hl.symm.trans hl')
    exact hfinal (hrow.symm.trans (of_decide_eq_true hp))
  refine ⟨?_, ?_, ?_⟩
  · rw [List.map_append]
    exact List.Nodup.append h.once (List.nodup_singleton _)
      (List.disjoint_singleton.mpr hnew)
  · intro w hw
    rcases List.mem_append.mp hw with hw | hw
    · rw [hother w.approvalId fun heq => hnew (heq ▸ List.mem_map_of_mem hw)]
      exact h.kept w hw
    · obtain rfl := List.mem_singleton.mp hw
      exact ⟨hd, hself⟩
  · intro id' row' hl' hdecided
    by_cases heq : id' = id
    · exact ⟨_, List.mem_append_right _ (List.mem_singleton_self _), heq.symm⟩
    · rw [hother id' heq] at hl'
      obtain ⟨w, hw, hid⟩ := h.won id' row' hl' hdecided
      exact ⟨w, List.mem_append_left _ hw, hid⟩

end Decided

/-! ## Runs -/

/-- What is still to be appended reports a winner. -/
def Planned (calls : ℕ → Option ResolveCall) (winners : List Winner) : Prop :=
  ∀ i call expired plan, calls i = some call → call.stage = .resolved expired plan →
    ∃ w ∈ winners, plan.draft.payload = w.payload

namespace Planned

variable {calls : ℕ → Option ResolveCall} {winners : List Winner}

theorem set (h : Planned calls winners) (i : ℕ) {o : Option ResolveCall}
    (ho : ∀ call expired plan, o = some call → call.stage = .resolved expired plan →
      ∃ w ∈ winners, plan.draft.payload = w.payload) :
    Planned (Function.update calls i o) winners := by
  intro j call expired plan hj hstage
  rw [Function.update_apply] at hj
  split at hj
  · exact ho call expired plan hj hstage
  · exact h j call expired plan hj hstage

theorem drop (h : Planned calls winners) (i : ℕ) :
    Planned (Function.update calls i none) winners :=
  h.set i fun call expired plan hnone _ => by cases hnone

theorem more (h : Planned calls winners) (w : Winner) : Planned calls (winners ++ [w]) := by
  intro i call expired plan hi hstage
  obtain ⟨w', hw, hpayload⟩ := h i call expired plan hi hstage
  exact ⟨w', List.mem_append_left _ hw, hpayload⟩

theorem survive (h : Planned calls winners) (a : HubLabel) :
    Planned (survivors calls a) winners := by
  cases a with
  | restart =>
      intro i call expired plan hi
      cases hi
  | _ => exact h

end Planned

/-- The events about approvals report winners. -/
def Told (s : Store) (winners : List Winner) : Prop :=
  ∀ e ∈ s.events, e.kind = .approvalResolved → ∃ w ∈ winners, e.payload = w.payload

theorem Told.more {s : Store} {winners : List Winner} (h : Told s winners) (w : Winner) :
    Told s (winners ++ [w]) := by
  intro e he hk
  obtain ⟨w', hw, hpayload⟩ := h e he hk
  exact ⟨w', List.mem_append_left _ hw, hpayload⟩

structure Settling (f : Approving) (winners : List Winner) : Prop where
  decided : Decided f.hub.hub winners
  planned : Planned f.calls winners
  told : Told f.hub.hub winners

namespace Settling

variable {f f' : Approving} {winners : List Winner}

/-- The arm of a call. -/
theorem resolve (h : Settling f winners) {i : ℕ} {env : CommandEnv}
    (hs : f.step (.resolve i env) = some f') :
    Settling f' (noteWinner f winners (.resolve i env)) := by
  obtain ⟨c, id, decision, actor, hcall, hcases⟩ := Approving.step_resolve hs
  have harm := planResolveApproval_result env f.hub id decision actor
  simp only [noteWinner, hcall]
  rcases hcases with ⟨h₁, e, heq, rfl⟩ | ⟨h₁, plan, heq, rfl⟩
  · rw [heq] at harm ⊢
    cases harm with
    | refuses =>
        rw [if_neg fun hboth => hboth.2 hboth.1]
        exact ⟨h.decided, h.planned.drop i, h.told⟩
  · rw [heq] at harm ⊢
    cases harm with
    | decides row current found read pending final =>
        obtain ⟨-, rfl⟩ := Table.mem_of_lookup found
        have hdecided : Decided (f.hub.hub.resolved row.id decision actor env.lookup.now)
            (winners ++ [⟨row.id, decision, actor⟩]) :=
          h.decided.resolved found pending final env.lookup.now
        have hbefore : undecided f.hub.hub row.id = true := by
          unfold undecided
          rw [found]
          exact pending
        have hafter : ¬ undecided (f.hub.hub.resolved row.id decision actor env.lookup.now)
            row.id = true := by
          unfold undecided Store.resolved
          rw [Table.lookup_update_self (by intro r; rfl), found]
          exact fun hwait => final (of_decide_eq_true hwait)
        rw [if_pos ⟨hbefore, hafter⟩]
        refine ⟨hdecided, (h.planned.more _).set i ?_, h.told.more _⟩
        rintro call expired plan ⟨⟩ ⟨⟩
        exact ⟨_, List.mem_append_right _ (List.mem_singleton_self _), rfl⟩
    | reports row found decided =>
        obtain ⟨-, rfl⟩ := Table.mem_of_lookup found
        rw [if_neg fun hboth => hboth.2 hboth.1]
        refine ⟨h.decided, h.planned.set i ?_, h.told⟩
        rintro call expired plan ⟨⟩ ⟨⟩
        -- the decision that stands is the winner's
        obtain ⟨w, hw, hid⟩ := h.decided.won row.id row found decided
        obtain ⟨-, row', hl, hdecision, hactor⟩ := h.decided.kept w hw
        rw [hid] at hl
        obtain rfl := Option.some.inj (found.symm.trans hl)
        refine ⟨w, hw, ?_⟩
        show decisionPayload row.id row.decision row.resolvedBy = w.payload
        unfold Winner.payload
        rw [hid, hdecision, hactor]

/-- The append of a call. -/
theorem append (h : Settling f winners) {i : ℕ} {env : CommandEnv}
    (hs : f.step (.append i env) = some f') : Settling f' winners := by
  obtain ⟨c, id, decision, actor, expired, plan, hcall, rfl⟩ := Approving.step_append hs
  obtain ⟨w, hw, hpayload⟩ := h.planned i _ expired plan hcall rfl
  have hbundled : ∀ {s : Store}, s.approvals = f.hub.hub.approvals →
      s.events = f.hub.hub.events ++ [f.hub.hub.commandEvent env.append c plan.draft] →
        Decided s winners ∧ Told s winners := by
    intro s ha he
    refine ⟨h.decided.of_same ha, ?_⟩
    intro e hmem hk
    rw [he] at hmem
    rcases List.mem_append.mp hmem with hmem | hmem
    · exact h.told e hmem hk
    · obtain rfl := List.mem_singleton.mp hmem
      exact ⟨w, hw, hpayload⟩
  have hstore : Decided (f.hub.finishWithEntity env c plan).1.hub winners ∧
      Told (f.hub.finishWithEntity env c plan).1.hub winners := by
    rw [finishWithEntity_fst]
    obtain ⟨heq, -⟩ | ⟨-, -, heq⟩ | ⟨-, -, heq⟩ := command_cases env.append env.fetch f.hub c
      plan.draft plan.entity plan.dispatch
    · rw [heq]
      exact ⟨h.decided, h.told⟩
    · rw [heq]
      exact hbundled rfl rfl
    · rw [heq]
      exact hbundled rfl rfl
  exact ⟨hstore.1, h.planned.drop i, hstore.2⟩

/-- **One step.** -/
theorem step (h : Settling f winners) {a : ApprovalLabel} (hok : Unforged (f, winners) a)
    (hs : f.step a = some f') : Settling f' (noteWinner f winners a) := by
  cases a with
  | receive i c id decision actor =>
      obtain ⟨-, rfl⟩ := Approving.step_receive hs
      refine ⟨h.decided, h.planned.set i ?_, h.told⟩
      rintro call expired plan ⟨⟩ ⟨⟩
  | outcome i env =>
      obtain ⟨c, id, decision, actor, -, ⟨o, -, rfl⟩ | rfl⟩ := Approving.step_outcome hs
      · exact ⟨h.decided, h.planned.drop i, h.told⟩
      · refine ⟨h.decided, h.planned.set i ?_, h.told⟩
        rintro call expired plan ⟨⟩ ⟨⟩
  | resolve i env => exact h.resolve hs
  | append i env => exact h.append hs
  | request env r t toolCallId scope options expiresAt =>
      obtain ⟨s, a, hop, rfl⟩ | rfl := Approving.step_request hs
      · refine ⟨h.decided.request hop, h.planned, ?_⟩
        obtain ⟨_, -, hop⟩ := Result.bind_eq_ok.mp hop
        obtain ⟨_, -, heq⟩ := Result.bind_eq_ok.mp hop
        obtain ⟨rfl, -⟩ := Prod.mk.inj (Result.pure_eq_ok.mp heq)
        exact h.told
      · exact h
  | hub a =>
      obtain ⟨hresolves, rfl⟩ := Approving.step_hub hs
      have hleaves := step_leaves f.hub (Unresolving.of_label hresolves hok)
      refine ⟨h.decided.of_same hleaves.approvals, h.planned.survive a, ?_⟩
      intro e he hk
      exact h.told e (hleaves.events e he hk) hk

/-- A new database has no approvals and no events. -/
theorem init (hi : Approving.system.init f) : Settling f [] := by
  obtain ⟨⟨refusal, nodeSecret, clientSecret, hhub⟩, hcalls, -⟩ := hi
  obtain ⟨m, hm⟩ := Store.runMigrations_fst refusal Store.blank
  rw [hm] at hhub
  refine ⟨⟨List.nodup_nil, ?_, ?_⟩, ?_, ?_⟩
  · intro w hw
    cases hw
  · intro id row hl
    rw [hhub] at hl
    cases hl
  · intro i call expired plan hcall
    rw [hcalls] at hcall
    cases hcall
  · intro e he
    rw [hhub] at he
    cases he

end Settling

/-- The runs with the record of their winners. -/
def Approving.recorded : System (Approving × List Winner) ApprovalLabel :=
  Approving.system.recording [] noteWinner

theorem Settling.of_reach {f : Approving × List Winner}
    (h : Approving.recorded.Reach Unforged f) : Settling f.1 f.2 := by
  induction h with
  | start hi =>
      obtain ⟨hinit, hempty⟩ := hi
      exact hempty ▸ .init hinit
  | next _ hok hs ih =>
      obtain ⟨f', hf', rfl⟩ := Option.map_eq_some_iff.mp hs
      exact ih.step hok hf'

/-- **One winner per approval**, for any interleaving of the handlers of
`ResolveApproval` commands with each other, with retries, with restarts and with
whatever else the hub does. -/
theorem one_winner {f : Approving × List Winner} (h : Approving.recorded.Reach Unforged f) :
    OneWinner f.1.hub.hub f.2 := by
  obtain ⟨hdecided, -, htold⟩ := Settling.of_reach h
  refine ⟨hdecided.once, hdecided.kept, ?_⟩
  intro e he hk
  obtain ⟨w, hw, hpayload⟩ := htold e he hk
  exact ⟨w, hw, Winner.carries_payload hpayload, Winner.names_payload hpayload⟩

/-! ## The handlers, one at a time -/

namespace Approving

/-- A handler that is past the receipts, with nothing in between its steps. -/
theorem checked_runs (f : Approving) {i : ℕ} {c : CommandId} {id : ApprovalId}
    {decision : Decision} {actor : String}
    (hi : f.calls i = some ⟨c, id, decision, actor, .checked⟩) {env : CommandEnv}
    (ha : ¬ Answers env.outcome f.hub.hub c) :
    ∃ steps f' expired, system.run f steps = some f' ∧
      f'.calls = Function.update f.calls i none ∧
      f'.hub = (f.hub.applyCommand env (.resolveApproval c id decision actor)).1 ∧
      f'.resolutions = f.resolutions ++ [⟨id, expired,
        (f.hub.applyCommand env (.resolveApproval c id decision actor)).2.receipt⟩] := by
  have hplan : f.hub.planCommand env none (.resolveApproval c id decision actor) =
      f.hub.planResolveApproval env id decision actor := rfl
  unfold applyCommand
  rw [applyCommandInner_eq ha, hplan]
  cases heq : f.hub.planResolveApproval env id decision actor with
  | mk h r =>
      cases r with
      | error e =>
          refine ⟨[.resolve i env], { f with hub := h }.finish i ⟨id, _, CommandReceipt.reject c e⟩,
            expiredAt f.hub.hub id env.lookup.now, ?_, rfl, rfl, rfl⟩
          show (f.step (.resolve i env)).bind _ = _
          simp only [step, hi, heq]
          rfl
      | ok plan =>
          let planned := { f with hub := h }.setCall i ⟨c, id, decision, actor,
            .resolved (expiredAt f.hub.hub id env.lookup.now) plan⟩
          have hplanOf : PlanOf plan (.resolveApproval c id decision actor) :=
            @planCommand_planOf env f.hub none _ plan (by rw [hplan, heq])
          have hentity : plan.entity = .none := hplanOf.2.1
          have hremember : ∀ g effect, HubState.rememberStarted g plan effect = g := by
            intro g effect
            unfold rememberStarted
            rw [hentity]
          refine ⟨[.resolve i env, .append i env],
            { planned with hub := (h.finishWithEntity env c plan).1 }.finish i
              ⟨id, _, (h.finishWithEntity env c plan).2.receipt⟩,
            expiredAt f.hub.hub id env.lookup.now, ?_, ?_, ?_, rfl⟩
          · show (f.step (.resolve i env)).bind _ = _
            simp only [step, hi, heq]
            show (step planned (.append i env)).bind _ = _
            simp only [step, planned, setCall, Function.update_self]
            rfl
          · exact Function.update_idem _ _ _
          · exact (hremember _ _).symm

/-- **The critical sections of one handler**, with nothing in between, are
`apply_command`. -/
theorem handler_runs (f : Approving) {i : ℕ} (hi : f.calls i = none)
    (env : CommandEnv) (c : CommandId) (id : ApprovalId) (decision : Decision) (actor : String) :
    ∃ steps f' expired, system.run f steps = some f' ∧ f'.calls = f.calls ∧
      f'.hub = (f.hub.applyCommand env (.resolveApproval c id decision actor)).1 ∧
      f'.resolutions = f.resolutions ++ [⟨id, expired,
        (f.hub.applyCommand env (.resolveApproval c id decision actor)).2.receipt⟩] := by
  let received := f.setCall i ⟨c, id, decision, actor, .received⟩
  have hreceive : f.step (.receive i c id decision actor) = some received := by
    simp only [step, hi, received]
  have hfree : Function.update f.calls i none = f.calls := by
    rw [← hi, Function.update_eq_self]
  by_cases ha : Answers env.outcome f.hub.hub c
  · -- an earlier try is answered from its receipt
    obtain ⟨hr, hl⟩ := ha
    obtain ⟨r, hl⟩ := Option.isSome_iff_exists.mp hl
    have ho : f.hub.hub.commandOutcome env.outcome c =
        .ok (some ⟨r.sequence, r.eventId, false⟩) := by
      simp only [Store.commandOutcome, CallEnv.admit, hr, hl, Option.map_some]
      rfl
    have hanswer : f.hub.applyCommand env (.resolveApproval c id decision actor) =
        (f.hub, ⟨CommandReceipt.accept c r.sequence r.eventId, none⟩) := by
      simp only [applyCommand, applyCommandInner, ClientCommand.commandId, ho]
    rw [hanswer]
    refine ⟨[.receive i c id decision actor, .outcome i env.outcome],
      received.finish i ⟨id, _, CommandReceipt.accept c r.sequence r.eventId⟩,
      expiredAt f.hub.hub id env.outcome.now, ?_, ?_, rfl, rfl⟩
    · show (f.step (.receive i c id decision actor)).bind _ = _
      rw [hreceive]
      show (step received (.outcome i env.outcome)).bind _ = _
      simp only [step, received, setCall, Function.update_self, ho]
      rfl
    · exact (Function.update_idem _ _ _).trans hfree
  · let checked := f.setCall i ⟨c, id, decision, actor, .checked⟩
    obtain ⟨steps, f', expired, hrun, hcalls, hrest⟩ :=
      checked.checked_runs (Function.update_self i _ f.calls) ha
    refine ⟨.receive i c id decision actor :: .outcome i env.outcome :: steps, f', expired, ?_,
      ?_, hrest⟩
    · have houtcome : received.step (.outcome i env.outcome) = some checked := by
        simp only [step, received, setCall, Function.update_self]
        split
        · next o ho => exact absurd (answers_of_outcome ho) ha
        · simp only [Function.update_idem, checked, setCall]
      show (f.step (.receive i c id decision actor)).bind _ = _
      rw [hreceive]
      show (step received (.outcome i env.outcome)).bind _ = _
      rw [houtcome]
      exact hrun
    · rw [hcalls]
      exact (Function.update_idem _ _ _).trans hfree

end Approving

/-! ## An example -/

/-- The three steps of the handler `i`. -/
def handling (i u : ℕ) : List ApprovalLabel :=
  [.outcome i (plainCall u), .resolve i (plainCommand u), .append i (plainCommand u)]

/-- Two clients resolve an approval, one after the other. -/
def racing : List ApprovalLabel :=
  .request (plainCall 7) ⟨1⟩ ⟨2⟩ "call" "scope" [] none ::
    .receive 0 ⟨10⟩ ⟨7⟩ .allowed "ann" :: .receive 1 ⟨11⟩ ⟨7⟩ .denied "bob" ::
    (handling 0 20 ++ handling 1 21)

def freshApproving : Approving := ⟨freshHub, fun _ => none, []⟩

theorem Approving.recorded_init : Approving.recorded.init (freshApproving, []) :=
  ⟨⟨HubState.fresh_init, rfl, rfl⟩, rfl⟩

set_option maxRecDepth 4096 in
/-- The event of the second one reports what the first one decided. -/
theorem one_winner_sample :
    ∃ f, Approving.recorded.run (freshApproving, []) racing = some f ∧
      f.1.hub.hub.events.length = 2 ∧ f.2 = [⟨⟨7⟩, .allowed, "ann"⟩] ∧
      OneWinner f.1.hub.hub f.2 := by
  have hrun : ∃ f, Approving.recorded.run (freshApproving, []) racing = some f ∧
      f.1.hub.hub.events.length = 2 ∧ f.2 = [⟨⟨7⟩, .allowed, "ann"⟩] := ⟨_, rfl, rfl, rfl⟩
  obtain ⟨f, hf, hevents, hwinners⟩ := hrun
  refine ⟨f, hf, hevents, hwinners, ?_⟩
  apply one_winner
  refine System.Reach.of_labels (.start Approving.recorded_init) ?_ hf
  intro a ha u
  simp only [racing, handling, List.mem_cons, List.cons_append, List.nil_append, List.not_mem_nil,
    or_false] at ha
  rcases ha with rfl | rfl | rfl | rfl | rfl | rfl | rfl | rfl | rfl <;> trivial

end Stackhour.Hub
