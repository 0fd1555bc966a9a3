import Stackhour.Hub.StateSpec

/-!
# What a receipt says about the store

A client that is told its command was not accepted does not retry it, so a
receipt that accepts nothing should leave nothing behind. The commands that
break this are characterised exactly: their append commits but cannot be read
back, or an approval is resolved and the append after it does not go through.
-/

namespace Stackhour.Hub

open Domain HubState

/-! ## The property and the condition -/

/-- The durable tables a command can write. -/
structure SameDurable (s s' : Store) : Prop where
  events : s'.events = s.events
  receipts : s'.receipts = s.receipts
  tasks : s'.tasks = s.tasks
  runs : s'.runs = s.runs
  approvals : s'.approvals = s.approvals
  dispatches : s'.dispatches = s.dispatches

theorem SameDurable.of_eq {s s' : Store} (h : s' = s) : SameDurable s s' := by
  subst h
  exact ⟨rfl, rfl, rfl, rfl, rfl, rfl⟩

/-- A receipt that does not accept leaves the durable state as it was. -/
def NoEffectUnlessAccepted (env : CommandEnv) (h : HubState) (cmd : ClientCommand) : Prop :=
  (h.applyCommand env cmd).2.receipt.accepted = false →
    SameDurable h.hub (h.applyCommand env cmd).1.hub

/-- The command resolves an approval that is still pending. -/
def ResolvesPending (h : HubState) : ClientCommand → Prop
  | .resolveApproval _ id _ _ =>
      ∃ row, Table.lookup ApprovalOf.id h.hub.approvals id = some row ∧ row.isPending
  | _ => False

/-- The commands whose refusal hides an effect: not a retry that the receipts
answer, past every check, and either the append commits and does not read back,
or a pending approval is resolved and the append does not go through. -/
def LosesEffect (env : CommandEnv) (h : HubState) (cmd : ClientCommand) : Prop :=
  ¬ Answers env.outcome h.hub cmd.commandId ∧
  ∃ plan, (h.planCommand env none cmd).2 = .ok plan ∧
    ((Commits env.append h.hub cmd.commandId plan.entity plan.dispatch ∧
        ¬ ReadsBack env.append env.fetch plan.draft) ∨
      (ResolvesPending h cmd ∧
        ¬ Commits env.append h.hub cmd.commandId plan.entity plan.dispatch ∧
        ¬ Answers env.append h.hub cmd.commandId))

/-! ## The approval row of a resolution -/

/-- Reading an approval row keeps its decision. -/
theorem rowToApproval_isPending {row : ApprovalRow} {a : Approval}
    (h : rowToApproval row = .ok a) : a.isPending = row.isPending := by
  simp only [rowToApproval, Result.bind_eq_ok, Result.pure_eq_ok] at h
  obtain ⟨_, -, _, -, _, -, rfl⟩ := h
  rfl

/-- Resolving a pending approval changes its row. -/
theorem resolved_approvals_ne {s : Store} {id : ApprovalId} {decision : Decision}
    {actor : String} {now : DateTime} {row : ApprovalRow}
    (hl : Table.lookup ApprovalOf.id s.approvals id = some row) (hp : row.isPending)
    (hd : decision ≠ .pending) : (s.resolved id decision actor now).approvals ≠ s.approvals := by
  intro heq
  have hupd := congrArg (fun t => Table.lookup ApprovalOf.id t id) heq
  simp only [Store.resolved] at hupd
  rw [Table.lookup_update_self (by intro r; rfl), hl] at hupd
  have hdec := congrArg (fun r : Option ApprovalRow => r.map ApprovalOf.decision) hupd
  simp only [Option.map_some, Option.some.injEq] at hdec
  exact hd (hdec.trans (by simpa [ApprovalOf.isPending] using hp))

/-- The resolution of an approval leaves what an append looks at. -/
theorem planCommand_append {env : CommandEnv} {h : HubState} {cmd : ClientCommand} {c : CommandId}
    {e : EntityWrite} {disp : Option (NodeId × HubToNode)} :
    (Commits env.append (h.planCommand env none cmd).1.hub c e disp ↔
      Commits env.append h.hub c e disp) ∧
    (Answers env.append (h.planCommand env none cmd).1.hub c ↔ Answers env.append h.hub c) := by
  obtain heq | ⟨_, _, _, _, -, _, _, -, -, -, -, -, heq⟩ := planCommand_hub env h none cmd
  · rw [heq]
    exact ⟨Iff.rfl, Iff.rfl⟩
  · rw [heq]
    unfold Commits Answers Store.Admits EntityWrite.Fresh
    exact ⟨Iff.rfl, Iff.rfl⟩

/-! ## The outcomes of a command -/

section Outcomes

variable {env : CommandEnv} {h : HubState} {cmd : ClientCommand}

theorem rememberStarted_hub (h : HubState) (plan : Plan) (effect : CommandEffect) :
    (h.rememberStarted plan effect).hub = h.hub := by
  unfold rememberStarted
  split <;> rfl

theorem applyCommand_answered (ha : Answers env.outcome h.hub cmd.commandId) :
    (h.applyCommand env cmd).2.receipt.accepted = true := by
  obtain ⟨hr, hl⟩ := ha
  obtain ⟨r, hl⟩ := Option.isSome_iff_exists.mp hl
  simp [applyCommand, applyCommandInner, Store.commandOutcome, CallEnv.admit, hr, hl, bind,
    Except.bind, pure, Except.pure, CommandReceipt.accept]

/-- A rejected command wrote nothing. -/
theorem planCommand_error {e : ProtocolError} (hp : (h.planCommand env none cmd).2 = .error e) :
    (h.planCommand env none cmd).1.hub = h.hub := by
  obtain heq | ⟨_, _, _, _, -, _, _, -, -, -, -, ⟨plan, hplan⟩, -⟩ := planCommand_hub env h none cmd
  · exact heq
  · rw [hp] at hplan
    cases hplan

/-- The store is unchanged by the arm of a command that resolves no pending
approval. -/
theorem planCommand_quiet (hp : ¬ ResolvesPending h cmd) :
    (h.planCommand env none cmd).1.hub = h.hub := by
  obtain heq | ⟨_, id, _, _, rfl, row, a, hl, hrow, hpend, -, -, -⟩ :=
    planCommand_hub env h none cmd
  · exact heq
  · exact absurd ⟨row, hl, rowToApproval_isPending hrow ▸ hpend⟩ hp

/-- A planned resolution of a pending approval has changed its row. -/
theorem planCommand_resolves (hp : ResolvesPending h cmd) {plan : Plan}
    (hplan : (h.planCommand env none cmd).2 = .ok plan) :
    (h.planCommand env none cmd).1.hub.approvals ≠ h.hub.approvals := by
  cases cmd with
  | resolveApproval c id decision actor =>
      obtain ⟨row, hl, hpend⟩ := hp
      simp only [planCommand, planResolveApproval] at hplan ⊢
      cases hop : h.hub.resolveApproval env.lookup id decision actor env.lookup.now with
      | error e =>
          rw [hop] at hplan
          cases hplan
      | ok r =>
          obtain ⟨s, a⟩ := r
          obtain ⟨hd, -, row', current, hl', hrow, hs⟩ := Store.resolveApproval_eq_ok.mp hop
          obtain rfl : row = row' := Option.some.inj (hl.symm.trans hl')
          rw [if_pos ((rowToApproval_isPending hrow).trans hpend)] at hs
          rw [hs.1]
          exact resolved_approvals_ne hl hpend hd
  | createTask c title => exact hp.elim
  | sendUserMessage c t r text mid => exact hp.elim
  | startRun c t n engine model effort prompt policy workspace => exact hp.elim
  | interruptRun c r => exact hp.elim

theorem planCommand_events :
    (h.planCommand env none cmd).1.hub.events = h.hub.events := by
  obtain heq | ⟨_, _, _, _, -, _, _, -, -, -, -, -, heq⟩ := planCommand_hub env h none cmd
  · rw [heq]
  · rw [heq]
    rfl

end Outcomes

/-- The four ways to finish a planned command: receipt and store. -/
theorem finishWithEntity_cases (env : CommandEnv) (h : HubState) (c : CommandId) (plan : Plan) :
    let commits := Commits env.append h.hub c plan.entity plan.dispatch
    let readsBack := ReadsBack env.append env.fetch plan.draft
    let r := h.finishWithEntity env c plan
    (commits ∧ readsBack ∧ r.2.receipt.accepted = true) ∨
    (commits ∧ ¬ readsBack ∧ r.2.receipt.accepted = false ∧
      r.1.hub = h.hub.bundled env.append c plan.draft plan.entity plan.dispatch) ∨
    (¬ commits ∧ Answers env.append h.hub c ∧ r.2.receipt.accepted = true) ∨
    (¬ commits ∧ ¬ Answers env.append h.hub c ∧ r.2.receipt.accepted = false ∧
      r.1.hub = h.hub) := by
  intro commits readsBack r
  by_cases hc : commits
  · by_cases hb : readsBack
    · refine .inl ⟨hc, hb, ?_⟩
      simp only [r, finishWithEntity, command_announced hc hb]
      rfl
    · obtain ⟨err, herr⟩ := command_unread hc hb
      refine .inr (.inl ⟨hc, hb, ?_, ?_⟩) <;> simp only [r, finishWithEntity, herr]
  · by_cases ha : Answers env.append h.hub c
    · obtain ⟨o, -, ho⟩ := @command_answered h env.append env.fetch c plan.draft plan.entity
        plan.dispatch ha
      refine .inr (.inr (.inl ⟨hc, ha, ?_⟩))
      simp only [r, finishWithEntity, ho]
      rfl
    · obtain ⟨err, herr⟩ := @command_failed h env.append env.fetch c plan.draft plan.entity
        plan.dispatch hc ha
      refine .inr (.inr (.inr ⟨hc, ha, ?_, ?_⟩)) <;> simp only [r, finishWithEntity, herr]

/-! ## The contract -/

/-- **A non-accepting receipt means no durable effect**, exactly for the
commands that do not lose one. -/
theorem no_effect_unless_accepted (env : CommandEnv) (h : HubState) (cmd : ClientCommand) :
    NoEffectUnlessAccepted env h cmd ↔ ¬ LosesEffect env h cmd := by
  unfold NoEffectUnlessAccepted LosesEffect
  by_cases ha : Answers env.outcome h.hub cmd.commandId
  · simp [applyCommand_answered ha, ha]
  rw [applyCommand, applyCommandInner_eq ha]
  have hquiet := @planCommand_quiet env h cmd
  have hresolves := @planCommand_resolves env h cmd
  have hevents := @planCommand_events env h cmd
  have herror := @planCommand_error env h cmd
  have happ := @planCommand_append env h cmd
  generalize h.planCommand env none cmd = r at *
  obtain ⟨h₁, p⟩ := r
  cases p with
  | error e =>
      have heq := herror rfl
      simp only [reduceCtorEq, false_and, exists_false, and_false, not_false_eq_true, iff_true]
      exact fun _ => SameDurable.of_eq heq
  | ok plan =>
      simp only [Except.ok.injEq, exists_eq_left', ha, not_false_eq_true, true_and,
        rememberStarted_hub]
      rw [← (@happ cmd.commandId plan.entity plan.dispatch).1,
        ← (@happ cmd.commandId plan.entity plan.dispatch).2]
      obtain ⟨hc, hb, hacc⟩ | ⟨hc, hb, hacc, hhub⟩ | ⟨hc, hans, hacc⟩ | ⟨hc, hans, hacc, hhub⟩ :=
        finishWithEntity_cases env h₁ cmd.commandId plan
      · simp [hacc, hc, hb]
      · -- committed and unread: the log has grown
        simp only [hacc, hhub, hc, hb, true_imp_iff]
        refine iff_of_false (fun hsame => ?_) (fun hno => hno (.inl ⟨trivial, not_false⟩))
        have hlen := congrArg List.length (hsame.events.trans hevents.symm)
        simp [Store.bundled] at hlen
      · simp [hacc, hc, hans]
      · simp only [hacc, hhub, hc, hans, true_imp_iff]
        by_cases hp : ResolvesPending h cmd
        · -- the resolution stands and its event is missing
          refine iff_of_false (fun hsame => hresolves hp rfl hsame.approvals) ?_
          simp [hp]
        · simp only [hp]
          exact iff_of_true (SameDurable.of_eq (hquiet hp)) (by simp)

/-- A task is created, and the read of its event fails: the client is refused,
and the event, the receipt and the task are there. -/
theorem refused_after_commit :
    ¬ NoEffectUnlessAccepted
      { plainCommand 5 with fetch := ⟨.epoch, 4, some "disk I/O error"⟩ }
      freshHub (.createTask ⟨6⟩ "t") := by
  intro h
  have hevents := (h rfl).events
  exact absurd (congrArg List.length hevents) (by decide)

end Stackhour.Hub
