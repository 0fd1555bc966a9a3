import Stackhour.Hub.Receipts
import Stackhour.Hub.System

/-!
# The tasks and runs a command refers to

The wire vocabulary has an error for a task and one for a run that the hub does
not know, and the arm of `ResolveApproval` refuses an approval it does not know.
The arms that take a task or a run never look: the commands for which this makes
no difference are characterised exactly.
-/

namespace Stackhour.Hub

open Domain HubState TransitionSystem

/-! ## The property -/

/-- The task a command names. -/
def namedTask : ClientCommand → Option TaskId
  | .sendUserMessage _ t .. => some t
  | .startRun _ t .. => some t
  | _ => none

/-- The run a command names. -/
def namedRun : ClientCommand → Option RunId
  | .sendUserMessage _ _ r .. => r
  | .interruptRun _ r => some r
  | _ => none

/-- The task a command is about exists, and so does its run, of that task. -/
def RefersToExisting (s : Store) : ClientCommand → Prop
  | .sendUserMessage _ t none .. => t ∈ s.tasks.map TaskOf.id
  | .sendUserMessage _ t (some r) .. =>
      t ∈ s.tasks.map TaskOf.id ∧ ∃ run ∈ s.runs, run.id = r ∧ run.taskId = t
  | .startRun _ t .. => t ∈ s.tasks.map TaskOf.id
  | .interruptRun _ r => ∃ run ∈ s.runs, run.id = r ∧ run.taskId ∈ s.tasks.map TaskOf.id
  | _ => True

/-- The errors the protocol has for what a command names in vain. -/
inductive Unknown (s : Store) (cmd : ClientCommand) : ProtocolError → Prop where
  | task {t : TaskId} (named : namedTask cmd = some t) (missing : t ∉ s.tasks.map TaskOf.id) :
      Unknown s cmd (.unknownTask t)
  | run {r : RunId} (named : namedRun cmd = some r) (missing : r ∉ s.runs.map RunOf.id) :
      Unknown s cmd (.unknownRun r)

/-- An accepting receipt refers to existing entities, and a command that names
an unknown one is rejected with its error and changes nothing. -/
def ReferencesChecked (env : CommandEnv) (h : HubState) (cmd : ClientCommand)
    (n : Option NodeId) : Prop :=
  let r := h.applyCommandInner env cmd n
  (r.2.receipt.accepted = true → RefersToExisting h.hub cmd) ∧
  ((∃ e, Unknown h.hub cmd e) →
    ∃ e, Unknown h.hub cmd e ∧ r.2 = ⟨CommandReceipt.reject cmd.commandId e, none⟩ ∧
      r.1.hub = h.hub ∧ r.1.events = h.events)

/-! ## The condition -/

/-- The node a message or an interruption goes to, as far as the hub can tell. -/
def addressee (env : CommandEnv) (h : HubState) : ClientCommand → Option NodeId
  | .sendUserMessage _ t r .. =>
      ((r.bind (fun r => (h.runBinding env.lookup r).2)).map Prod.fst).or (h.nodeForTask t)
  | .interruptRun _ r => ((h.runBinding env.lookup r).2).map Prod.fst
  | _ => none

/-- The checks that a message or an interruption of a run does undergo. It is
answered from a receipt; or it is not for the hub's own assistant, and its
append is answered from a receipt or commits and reads back. -/
def Passes (env : CommandEnv) (h : HubState) (cmd : ClientCommand) : Prop :=
  Answers env.outcome h.hub cmd.commandId ∨
  (addressee env h cmd ≠ some hubNode ∧ env.append.refusal = none ∧
    ((Table.lookup ReceiptRow.commandId h.hub.receipts cmd.commandId).isSome ∨
      (h.hub.HasRoom env.append ∧
        (addressee env h cmd ≠ none → cmd.commandId ∉ h.hub.dispatches.map DispatchRow.commandId) ∧
        env.fetch.refusal = none ∧ env.draftAt.Readable ∧ env.append.now.Readable)))

/-- Everything the command names exists; and the run and the task it is about go
together, unless it fails one of the other checks. -/
def ReferencesHold (env : CommandEnv) (h : HubState) (cmd : ClientCommand) : Prop :=
  (∀ t, namedTask cmd = some t → t ∈ h.hub.tasks.map TaskOf.id) ∧
  (∀ r, namedRun cmd = some r → r ∈ h.hub.runs.map RunOf.id) ∧
  (RefersToExisting h.hub cmd ∨ ¬ Passes env h cmd)

/-! ## The errors of a command -/

section Errors

variable {env : CommandEnv} {h : HubState} {n : Option NodeId} {cmd : ClientCommand}

theorem executionNode_error {env : CallEnv} {engine : String} {preferred : Option NodeId}
    {e : ProtocolError} (he : h.executionNode env n engine preferred = .error e) :
    (∀ t, e ≠ .unknownTask t) ∧ ∀ r, e ≠ .unknownRun r := by
  unfold HubState.executionNode at he
  split at he
  · cases he
  · unfold eligibleExecutionNode at he
    split at he
    · cases he
      simp
    · split at he <;> cases he
      simp

/-- No arm rejects a command for a task or a run it does not know. -/
theorem planCommand_error_known {e : ProtocolError} (hp : (h.planCommand env n cmd).2 = .error e) :
    (∀ t, e ≠ .unknownTask t) ∧ ∀ r, e ≠ .unknownRun r := by
  cases cmd with
  | createTask c title => cases hp
  | sendUserMessage c t r text mid =>
      simp only [planCommand, planSendUserMessage] at hp
      cases r <;> dsimp only at hp <;> split at hp <;> cases hp <;> simp
  | startRun c t nodeId engine model effort prompt policy workspace =>
      simp only [planCommand, planStartRun] at hp
      split at hp
      · cases hp
        simp
      · cases hn : h.executionNode env.lookup n engine nodeId with
        | error e' =>
            rw [hn] at hp
            cases hp
            exact executionNode_error hn
        | ok node =>
            rw [hn] at hp
            cases hp
  | interruptRun c r =>
      simp only [planCommand, planInterruptRun] at hp
      split at hp <;> cases hp
      simp
  | resolveApproval c id decision actor =>
      simp only [planCommand, planResolveApproval] at hp
      split at hp <;> cases hp
      simp

theorem finishWithEntity_error (env : CommandEnv) (h : HubState) (c : CommandId) (plan : Plan) :
    (h.finishWithEntity env c plan).2.receipt.error = none := by
  unfold finishWithEntity
  split <;> rfl

theorem receipt_error_known {e : ProtocolError}
    (he : (h.applyCommandInner env cmd n).2.receipt.error = some e) :
    (∀ t, e ≠ .unknownTask t) ∧ ∀ r, e ≠ .unknownRun r := by
  unfold applyCommandInner at he
  split at he
  · cases he
  · split at he
    · next heq =>
        cases he
        exact planCommand_error_known (congrArg Prod.snd heq)
    · next plan _ =>
        dsimp only at he
        rw [finishWithEntity_error] at he
        cases he

end Errors

/-! ## When a command is accepted -/

section Accepted

variable {env : CommandEnv} {h : HubState} {n : Option NodeId} {cmd : ClientCommand}

/-- A command is accepted from a receipt, or as planned. -/
theorem accepted_iff :
    (h.applyCommandInner env cmd n).2.receipt.accepted = true ↔
      Answers env.outcome h.hub cmd.commandId ∨ ∃ plan, (h.planCommand env n cmd).2 = .ok plan ∧
        ((Commits env.append h.hub cmd.commandId plan.entity plan.dispatch ∧
            ReadsBack env.append env.fetch plan.draft) ∨
          Answers env.append h.hub cmd.commandId) := by
  by_cases ha : Answers env.outcome h.hub cmd.commandId
  · obtain ⟨hr, hl⟩ := ha
    obtain ⟨r, hl⟩ := Option.isSome_iff_exists.mp hl
    refine iff_of_true ?_ (.inl ⟨hr, Option.isSome_iff_exists.mpr ⟨r, hl⟩⟩)
    simp only [applyCommandInner, Store.commandOutcome, CallEnv.admit, hr, hl, Option.map_some]
    rfl
  · rw [applyCommandInner_eq ha]
    obtain ⟨ap, hap⟩ := planCommand_approvals env h n cmd
    rw [← Prod.mk.eta (p := h.planCommand env n cmd)]
    generalize (h.planCommand env n cmd).1 = h₁ at *
    cases (h.planCommand env n cmd).2 with
    | error e =>
        refine iff_of_false (by simp [CommandReceipt.reject]) ?_
        rintro (hans | ⟨plan, hplan, -⟩)
        · exact ha hans
        · cases hplan
    | ok plan =>
        have hcommits : Commits env.append h₁.hub cmd.commandId plan.entity plan.dispatch ↔
            Commits env.append h.hub cmd.commandId plan.entity plan.dispatch := by
          rw [hap]
          unfold Commits Store.Admits EntityWrite.Fresh
          exact Iff.rfl
        have hanswers : Answers env.append h₁.hub cmd.commandId ↔
            Answers env.append h.hub cmd.commandId := by
          rw [hap]
          exact Iff.rfl
        dsimp only
        simp only [Except.ok.injEq, exists_eq_left', ha, false_or, ← hcommits, ← hanswers]
        obtain ⟨hc, hb, hacc⟩ | ⟨hc, hb, hacc, -⟩ | ⟨hc, hans, hacc⟩ | ⟨hc, hans, hacc, -⟩ :=
          finishWithEntity_cases env h₁ cmd.commandId plan
        · exact iff_of_true hacc (.inl ⟨hc, hb⟩)
        · refine iff_of_false (by simp [hacc]) ?_
          rintro (⟨-, hb'⟩ | hans)
          · exact hb hb'
          · exact absurd hans.2 (by simp [hc.2.1])
        · exact iff_of_true hacc (.inr hans)
        · exact iff_of_false (by simp [hacc]) (by simp [hc, hans])

/-- A message to a run, or its interruption, is planned unless it is for the
hub's own assistant. -/
theorem planCommand_addressed {r : RunId} (hr : namedRun cmd = some r) :
    (addressee env h cmd = some hubNode → ∃ e, (h.planCommand env n cmd).2 = .error e) ∧
    (addressee env h cmd ≠ some hubNode → ∃ plan, (h.planCommand env n cmd).2 = .ok plan ∧
      plan.entity = .none ∧ (plan.dispatch = none ↔ addressee env h cmd = none) ∧
      plan.draft.occurredAt = env.draftAt) := by
  cases cmd with
  | createTask c title => cases hr
  | startRun c t nodeId engine model effort prompt policy workspace => cases hr
  | resolveApproval c id decision actor => cases hr
  | sendUserMessage c t r' text mid =>
      obtain rfl : r' = some r := hr
      -- a binding that is found is preferred, and without one the cache is as it was
      have hnode : ((h.runBinding env.lookup r).2.map Prod.fst).or
            ((h.runBinding env.lookup r).1.nodeForTask t) =
          addressee env h (.sendUserMessage c t (some r) text mid) := by
        unfold addressee
        dsimp only [Option.bind_some]
        cases hb : (h.runBinding env.lookup r).2 with
        | some b => rfl
        | none => rw [runBinding_none hb]
      simp only [planCommand, planSendUserMessage, hnode]
      constructor
      · intro hhub
        rw [if_pos hhub]
        exact ⟨_, rfl⟩
      · intro hhub
        rw [if_neg hhub]
        refine ⟨_, rfl, rfl, ?_, rfl⟩
        dsimp only
        cases addressee env h (.sendUserMessage c t (some r) text mid) <;> simp
  | interruptRun c r' =>
      obtain rfl : r' = r := Option.some.inj hr
      simp only [planCommand, planInterruptRun, addressee]
      constructor
      · intro hhub
        rw [if_pos hhub]
        exact ⟨_, rfl⟩
      · intro hhub
        rw [if_neg hhub]
        exact ⟨_, rfl, rfl, by simp, rfl⟩

/-- A command about a run is accepted when it passes the other checks. -/
theorem accepted_iff_passes {r : RunId} (hr : namedRun cmd = some r) :
    (h.applyCommandInner env cmd n).2.receipt.accepted = true ↔ Passes env h cmd := by
  rw [accepted_iff]
  unfold Passes
  refine or_congr_right ?_
  obtain ⟨hlocal, hplanned⟩ := @planCommand_addressed env h n cmd r hr
  by_cases hhub : addressee env h cmd = some hubNode
  · obtain ⟨e, he⟩ := hlocal hhub
    simp [he, hhub]
  · obtain ⟨plan, hplan, hentity, hdispatch, hat⟩ := hplanned hhub
    simp only [hplan, Except.ok.injEq, exists_eq_left', ne_eq, hhub, not_false_eq_true, true_and,
      Commits, Answers, ReadsBack, Store.Admits, hentity, EntityWrite.Fresh, hat, hdispatch]
    cases Table.lookup ReceiptRow.commandId h.hub.receipts cmd.commandId with
    | some r => simp
    | none =>
        simp
        tauto

end Accepted

/-! ## The contract -/

/-- A command whose names all exist is consistent, or is about a run. -/
theorem refers_or_named {s : Store} {cmd : ClientCommand}
    (ht : ∀ t, namedTask cmd = some t → t ∈ s.tasks.map TaskOf.id) :
    RefersToExisting s cmd ∨ ∃ r, namedRun cmd = some r := by
  cases cmd with
  | createTask c title => exact .inl trivial
  | sendUserMessage c t r text mid =>
      cases r with
      | none => exact .inl (ht t rfl)
      | some r => exact .inr ⟨r, rfl⟩
  | startRun c t n engine model effort prompt policy workspace => exact .inl (ht t rfl)
  | interruptRun c r => exact .inr ⟨r, rfl⟩
  | resolveApproval c id decision actor => exact .inl trivial

/-- **Accepted commands refer to existing entities**, in every state, exactly
when the command names nothing unknown and does not pass the other checks with a
run and a task that do not go together. -/
theorem references_checked (env : CommandEnv) (h : HubState) (cmd : ClientCommand)
    (n : Option NodeId) :
    ReferencesChecked env h cmd n ↔ ReferencesHold env h cmd := by
  constructor
  · rintro ⟨haccepted, hunknown⟩
    have hknown : ¬ ∃ e, Unknown h.hub cmd e := by
      intro hex
      obtain ⟨e, he, heffect, -⟩ := hunknown hex
      have herror : (h.applyCommandInner env cmd n).2.receipt.error = some e := by rw [heffect]; rfl
      obtain ⟨htask, hrun⟩ := receipt_error_known herror
      cases he with
      | task named missing => exact htask _ rfl
      | run named missing => exact hrun _ rfl
    have htask : ∀ t, namedTask cmd = some t → t ∈ h.hub.tasks.map TaskOf.id := fun t ht =>
      by_contra fun hmissing => hknown ⟨_, .task ht hmissing⟩
    have hrun : ∀ r, namedRun cmd = some r → r ∈ h.hub.runs.map RunOf.id := fun r hr =>
      by_contra fun hmissing => hknown ⟨_, .run hr hmissing⟩
    refine ⟨htask, hrun, ?_⟩
    rcases refers_or_named htask with hrefers | ⟨r, hr⟩
    · exact .inl hrefers
    · rw [← accepted_iff_passes hr]
      by_cases hacc : (h.applyCommandInner env cmd n).2.receipt.accepted = true
      · exact .inl (haccepted hacc)
      · exact .inr hacc
  · rintro ⟨htask, hrun, hgo⟩
    constructor
    · intro hacc
      rcases hgo with hrefers | hfails
      · exact hrefers
      · rcases refers_or_named htask with hrefers | ⟨r, hr⟩
        · exact hrefers
        · exact absurd ((accepted_iff_passes hr).mp hacc) hfails
    · rintro ⟨e, he⟩
      exfalso
      cases he with
      | task named missing => exact missing (htask _ named)
      | run named missing => exact missing (hrun _ named)

/-- A client starts a run of a task that was never created, and is told it was
accepted: the log has the run's start, the node its work, and no task. -/
theorem run_of_unknown_task :
    ∃ h, system.Reach Anyway h ∧
      ¬ ReferencesChecked (plainCommand 9) h
        (.startRun ⟨9⟩ ⟨5⟩ none "claude" none none none .supervised none) none := by
  refine ⟨after [arrival "laptop"], after_reach _, fun hchecked => ?_⟩
  have hrefers := hchecked.1 (by decide)
  exact absurd hrefers (by unfold RefersToExisting; decide)

end Stackhour.Hub
