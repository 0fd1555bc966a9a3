import Stackhour.Hub.Approvals
import Stackhour.Domain.Readback

/-!
# Approvals past their expiry

An approval says when it stops being actionable, and the protocol has an error
for a command that comes later. The arm of `ResolveApproval` looks at neither, so
a command that meets an expired approval is never refused as such. In the runs
in which none does, what is allowed was allowed in time.
-/

namespace Stackhour.Hub

open Domain TransitionSystem HubState

/-! ## The contract and its condition -/

/-- The approval that a step of a handler settles, and the time of it. -/
def Approving.handles (f : Approving) : ApprovalLabel → Option (ApprovalId × DateTime)
  | .outcome i env =>
      match f.calls i with
      | some ⟨c, id, _, _, .received⟩ =>
          match f.hub.hub.commandOutcome env c with
          | .ok (some _) => some (id, env.now)
          | _ => none
      | _ => none
  | .resolve i env =>
      match f.calls i with
      | some ⟨_, id, _, _, .checked⟩ => some (id, env.lookup.now)
      | _ => none
  | _ => none

/-- The approval, if it is allowed, was allowed before its expiry. -/
def InTime (row : ApprovalRow) : Prop :=
  row.decision = .allowed → ∀ a, rowToApproval row = .ok a → ∀ t, a.expiresAt = some t →
    ∃ now, a.resolvedAt = some now ∧ now < t

/-- The event says that its approval is allowed. -/
def SaysAllowed (e : EventRow) : Prop :=
  e.kind = .approvalResolved ∧ e.payload.get "decision" = some (.string Decision.allowed.asStr)

/-- **Expired approvals cannot be granted.** A command that meets an expired
approval is refused as such, the approval is not allowed by it or later, and no
event says that it is; so what is allowed was allowed in time. -/
structure ExpiryKept (f : Approving) : Prop where
  refused : ∀ r ∈ f.resolutions, r.expired → r.receipt.error = some .expired
  ungranted : ∀ r ∈ f.resolutions, r.expired → ∀ row,
    Table.lookup ApprovalOf.id f.hub.hub.approvals r.approvalId = some row →
      row.decision ≠ .allowed
  unannounced : ∀ r ∈ f.resolutions, r.expired → ∀ e ∈ f.hub.hub.events, SaysAllowed e →
    ¬ Names e r.approvalId
  inTime : ∀ id row, Table.lookup ApprovalOf.id f.hub.hub.approvals id = some row → InTime row
  announced : ∀ e ∈ f.hub.hub.events, SaysAllowed e → ∃ id row, Names e id ∧
    Table.lookup ApprovalOf.id f.hub.hub.approvals id = some row ∧ row.decision = .allowed

/-- No command meets an approval that is pending past its expiry. -/
def Timely (f : Approving × List Winner) (a : ApprovalLabel) : Prop :=
  Unforged f a ∧ ∀ id now, f.1.handles a = some (id, now) → expiredAt f.1.hub.hub id now = false

/-- **No arm answers `Expired`.** -/
theorem planResolveApproval_error {env : CommandEnv} {h h' : HubState} {id : ApprovalId}
    {decision : Decision} {actor : String} {e : ProtocolError}
    (heq : h.planResolveApproval env id decision actor = (h', .error e)) :
    e = .unknownApproval id := by
  have harm := planResolveApproval_result env h id decision actor
  rw [heq] at harm
  cases harm
  rfl

theorem finishWithEntity_unexpired (env : CommandEnv) (h : HubState) (c : CommandId)
    (plan : Plan) : (h.finishWithEntity env c plan).2.receipt.error = none := by
  unfold finishWithEntity
  split <;> rfl

/-- So a command that meets an expired approval is never told so. -/
theorem never_expired {f : Approving} (h : Approving.system.Reach Anyway f) :
    ∀ r ∈ f.resolutions, r.receipt.error ≠ some .expired := by
  refine h.invariant (P := fun f => ∀ r ∈ f.resolutions, r.receipt.error ≠ some .expired) ?_ ?_
  · rintro f ⟨-, -, hnone⟩ r hr
    rw [hnone] at hr
    cases hr
  · intro f a f' hf _ hs
    have hadd : ∀ {r : Resolution}, r.receipt.error ≠ some .expired →
        ∀ x ∈ f.resolutions ++ [r], x.receipt.error ≠ some .expired := by
      intro r hr x hx
      rcases List.mem_append.mp hx with hx | hx
      · exact hf x hx
      · exact List.mem_singleton.mp hx ▸ hr
    cases a with
    | receive i c id decision actor =>
        obtain ⟨-, rfl⟩ := Approving.step_receive hs
        exact hf
    | outcome i env =>
        obtain ⟨c, id, decision, actor, -, ⟨o, -, rfl⟩ | rfl⟩ := Approving.step_outcome hs
        · apply hadd
          rintro ⟨⟩
        · exact hf
    | resolve i env =>
        obtain ⟨c, id, decision, actor, -, ⟨h, e, heq, rfl⟩ | ⟨h, plan, -, rfl⟩⟩ :=
          Approving.step_resolve hs
        · apply hadd
          obtain rfl := planResolveApproval_error heq
          intro heq
          cases heq
        · exact hf
    | append i env =>
        obtain ⟨c, id, decision, actor, expired, plan, -, rfl⟩ := Approving.step_append hs
        apply hadd
        show (f.hub.finishWithEntity env c plan).2.receipt.error ≠ _
        rw [finishWithEntity_unexpired]
        rintro ⟨⟩
    | request env r t toolCallId scope options expiresAt =>
        obtain ⟨s, a, -, rfl⟩ | rfl := Approving.step_request hs
        · exact hf
        · exact hf
    | hub a =>
        obtain ⟨-, rfl⟩ := Approving.step_hub hs
        exact hf

/-! ## Timely runs -/

/-- Nothing has met an expired approval, and nothing was allowed late. -/
structure Prompt (f : Approving) : Prop where
  resolutions : ∀ r ∈ f.resolutions, r.expired = false
  calls : ∀ i call expired plan, f.calls i = some call → call.stage = .resolved expired plan →
    expired = false
  inTime : ∀ id row, Table.lookup ApprovalOf.id f.hub.hub.approvals id = some row → InTime row

/-- A resolution before the expiry is in time. -/
theorem InTime.resolved {row : ApprovalRow} {current : Approval} {decision : Decision}
    {actor : String} {now : DateTime} (hread : rowToApproval row = .ok current)
    (hp : current.isPending = true) (hexp : current.isExpired now = false) :
    InTime { row with
      decision := decision, resolvedBy := some actor, resolvedAt := some (fmtTime now) } := by
  intro _ a ha t ht
  simp only [rowToApproval, Result.bind_eq_ok, Result.pure_eq_ok] at hread ha
  obtain ⟨exp, hexpires, _, -, _, -, rfl⟩ := hread
  obtain ⟨exp', hexpires', _, -, resolvedAt, hresolved, rfl⟩ := ha
  obtain rfl : exp = exp' := Except.ok.inj (hexpires.symm.trans hexpires')
  obtain rfl : exp = some t := ht
  obtain ⟨at', hat, rfl⟩ := Result.mapM_some_eq_ok.mp hresolved
  obtain ⟨-, rfl⟩ := readTime_fmtTime_eq_ok.mp hat
  refine ⟨at', rfl, ?_⟩
  unfold ApprovalOf.isExpired at hexp
  rw [hp] at hexp
  exact not_not.mp (of_decide_eq_false hexp)

namespace Prompt

variable {f f' : Approving}

theorem handled {r : Resolution} (h : Prompt f) (hr : r.expired = false) :
    ∀ x ∈ f.resolutions ++ [r], x.expired = false := by
  intro x hx
  rcases List.mem_append.mp hx with hx | hx
  · exact h.resolutions x hx
  · exact List.mem_singleton.mp hx ▸ hr

theorem setCalls (h : Prompt f) (i : ℕ) {o : Option ResolveCall}
    (ho : ∀ call expired plan, o = some call → call.stage = .resolved expired plan →
      expired = false) :
    ∀ j call expired plan, Function.update f.calls i o j = some call →
      call.stage = .resolved expired plan → expired = false := by
  intro j call expired plan hj hstage
  rw [Function.update_apply] at hj
  split at hj
  · exact ho call expired plan hj hstage
  · exact h.calls j call expired plan hj hstage

theorem dropCall (h : Prompt f) (i : ℕ) :
    ∀ j call expired plan, Function.update f.calls i none j = some call →
      call.stage = .resolved expired plan → expired = false :=
  h.setCalls i fun call expired plan hnone _ => by cases hnone

theorem sameRows {s : Store} (h : Prompt f) (hs : s.approvals = f.hub.hub.approvals) :
    ∀ id row, Table.lookup ApprovalOf.id s.approvals id = some row → InTime row := by
  rw [hs]
  exact h.inTime

theorem resolve (h : Prompt f) {winners : List Winner} {i : ℕ} {env : CommandEnv}
    (hok : Timely (f, winners) (.resolve i env)) (hs : f.step (.resolve i env) = some f') :
    Prompt f' := by
  obtain ⟨c, id, decision, actor, hcall, hcases⟩ := Approving.step_resolve hs
  have hexpired : expiredAt f.hub.hub id env.lookup.now = false := by
    apply hok.2 id env.lookup.now
    simp only [Approving.handles, hcall]
  have harm := planResolveApproval_result env f.hub id decision actor
  rcases hcases with ⟨h₁, e, heq, rfl⟩ | ⟨h₁, plan, heq, rfl⟩
  · rw [heq] at harm
    cases harm
    exact ⟨h.handled hexpired, h.dropCall i, h.inTime⟩
  · rw [heq] at harm
    have hset : ∀ call expired plan', (some ⟨c, id, decision, actor,
        .resolved (expiredAt f.hub.hub id env.lookup.now) plan⟩ : Option ResolveCall) = some call →
        call.stage = .resolved expired plan' → expired = false := by
      rintro call expired plan' ⟨⟩ ⟨⟩
      exact hexpired
    cases harm with
    | decides row current found read pending final =>
        refine ⟨h.resolutions, h.setCalls i hset, ?_⟩
        intro id' row' hl
        by_cases hid : id' = id
        · subst hid
          simp only [Approving.setCall, Store.resolved] at hl
          rw [Table.lookup_update_self (by intro r; rfl), found] at hl
          obtain rfl := Option.some.inj hl
          apply InTime.resolved read ((rowToApproval_isPending read).trans pending)
          unfold expiredAt at hexpired
          rw [found, Option.map_some, read] at hexpired
          exact hexpired
        · simp only [Approving.setCall, Store.resolved] at hl
          rw [Table.lookup_update_of_ne (by intro r; rfl) hid] at hl
          exact h.inTime id' row' hl
    | reports row found decided => exact ⟨h.resolutions, h.setCalls i hset, h.inTime⟩

theorem step (h : Prompt f) {winners : List Winner} {a : ApprovalLabel}
    (hok : Timely (f, winners) a) (hs : f.step a = some f') : Prompt f' := by
  cases a with
  | receive i c id decision actor =>
      obtain ⟨-, rfl⟩ := Approving.step_receive hs
      refine ⟨h.resolutions, h.setCalls i ?_, h.inTime⟩
      rintro call expired plan ⟨⟩ ⟨⟩
  | outcome i env =>
      obtain ⟨c, id, decision, actor, hcall, ⟨o, ho, rfl⟩ | rfl⟩ := Approving.step_outcome hs
      · refine ⟨h.handled ?_, h.dropCall i, h.inTime⟩
        apply hok.2 id env.now
        simp only [Approving.handles, hcall, ho]
      · refine ⟨h.resolutions, h.setCalls i ?_, h.inTime⟩
        rintro call expired plan ⟨⟩ ⟨⟩
  | resolve i env => exact h.resolve hok hs
  | append i env =>
      obtain ⟨c, id, decision, actor, expired, plan, hcall, rfl⟩ := Approving.step_append hs
      refine ⟨h.handled (h.calls i _ expired plan hcall rfl), h.dropCall i, h.sameRows ?_⟩
      show (f.hub.finishWithEntity env c plan).1.hub.approvals = f.hub.hub.approvals
      rw [finishWithEntity_fst]
      obtain ⟨heq, -⟩ | ⟨-, -, heq⟩ | ⟨-, -, heq⟩ := command_cases env.append env.fetch f.hub c
        plan.draft plan.entity plan.dispatch
      · exact (congrArg (fun g : HubState => g.hub.approvals) heq).trans rfl
      · exact (congrArg (fun g : HubState => g.hub.approvals) heq).trans rfl
      · exact (congrArg (fun g : HubState => g.hub.approvals) heq).trans rfl
  | request env r t toolCallId scope options expiresAt =>
      obtain ⟨s, a, hop, rfl⟩ | rfl := Approving.step_request hs
      · refine ⟨h.resolutions, h.calls, ?_⟩
        obtain ⟨_, -, hop⟩ := Result.bind_eq_ok.mp hop
        obtain ⟨rows, hins, heq⟩ := Result.bind_eq_ok.mp hop
        obtain ⟨rfl, rfl⟩ := Prod.mk.inj (Result.pure_eq_ok.mp heq)
        obtain ⟨-, rfl⟩ := Table.insert_eq_some.mp (Result.ofOption_eq_ok.mp hins)
        intro id row hl
        rw [Table.lookup_append] at hl
        rcases Option.or_eq_some_iff.mp hl with hl | ⟨-, hl⟩
        · exact h.inTime id row hl
        · -- a new approval is pending
          obtain ⟨hmem, -⟩ := Table.mem_of_lookup hl
          obtain rfl := List.mem_singleton.mp hmem
          rintro ⟨⟩
      · exact h
  | hub a =>
      obtain ⟨hresolves, rfl⟩ := Approving.step_hub hs
      have hleaves := step_leaves f.hub (Unresolving.of_label hresolves hok.1)
      refine ⟨h.resolutions, ?_, h.sameRows hleaves.approvals⟩
      cases a with
      | restart =>
          intro i call expired plan hi
          cases hi
      | _ => exact h.calls

theorem init (hi : Approving.system.init f) : Prompt f := by
  obtain ⟨⟨refusal, nodeSecret, clientSecret, hhub⟩, hcalls, hresolutions⟩ := hi
  obtain ⟨m, hm⟩ := Store.runMigrations_fst refusal Store.blank
  rw [hm] at hhub
  refine ⟨?_, ?_, ?_⟩
  · intro r hr
    rw [hresolutions] at hr
    cases hr
  · intro i call expired plan hcall
    rw [hcalls] at hcall
    cases hcall
  · intro id row hl
    rw [hhub] at hl
    cases hl

theorem of_reach {f : Approving × List Winner} (h : Approving.recorded.Reach Timely f) :
    Prompt f.1 := by
  induction h with
  | start hi => exact .init hi.1
  | next _ hok hs ih =>
      obtain ⟨f', hf', rfl⟩ := Option.map_eq_some_iff.mp hs
      exact ih.step hok hf'

end Prompt

theorem Decision.asStr_inj {d d' : Decision} (h : d.asStr = d'.asStr) : d = d' := by
  revert h
  cases d <;> cases d' <;> decide

/-- **Expired approvals are not granted** in the runs in which no command meets
one. -/
theorem expiry_kept {f : Approving × List Winner} (h : Approving.recorded.Reach Timely f) :
    ExpiryKept f.1 := by
  have hprompt := Prompt.of_reach h
  obtain ⟨-, hkept, htold⟩ := one_winner (h.mono fun _ _ hok => hok.1)
  have hnone : ∀ r ∈ f.1.resolutions, ¬ r.expired = true := by
    intro r hr hexpired
    rw [hprompt.resolutions r hr] at hexpired
    cases hexpired
  refine ⟨fun r hr he => absurd he (hnone r hr), fun r hr he => absurd he (hnone r hr),
    fun r hr he => absurd he (hnone r hr), hprompt.inTime, ?_⟩
  rintro e he ⟨hk, hallowed⟩
  obtain ⟨w, hw, ⟨hdecision, -⟩, hnames⟩ := htold e he hk
  obtain ⟨-, row, hl, hrow, -⟩ := hkept w hw
  refine ⟨w.approvalId, row, (hnames _).mpr rfl, hl, hrow.trans ?_⟩
  exact Decision.asStr_inj (Json.string.inj (Option.some.inj (hdecision.symm.trans hallowed)))

/-- An approval that expires at `expiry` is allowed at the epoch. -/
def allowing (expiry : DateTime) : List ApprovalLabel :=
  .request (plainCall 7) ⟨1⟩ ⟨2⟩ "call" "scope" [] (some expiry) ::
    .receive 0 ⟨10⟩ ⟨7⟩ .allowed "ann" :: handling 0 20

set_option maxRecDepth 4096 in
/-- An approval that is allowed a second before it expires. -/
theorem expiry_kept_sample :
    ∃ f, Approving.recorded.run (freshApproving, []) (allowing (DateTime.epoch.addSeconds 1)) =
        some f ∧
      (∃ row ∈ f.1.hub.hub.approvals, row.decision = .allowed) ∧ ExpiryKept f.1 := by
  refine ⟨_, rfl, ⟨_, List.mem_singleton_self _, rfl⟩, ?_⟩
  have hstart : Approving.recorded.Reach Timely (freshApproving, []) :=
    .start Approving.recorded_init
  have hasked := hstart.next (a := ApprovalLabel.request (plainCall 7) ⟨1⟩ ⟨2⟩ "call" "scope" []
    (some (DateTime.epoch.addSeconds 1))) ⟨trivial, by rintro id now ⟨⟩⟩ rfl
  have hreceived := hasked.next (a := ApprovalLabel.receive 0 ⟨10⟩ ⟨7⟩ .allowed "ann")
    ⟨trivial, by rintro id now ⟨⟩⟩ rfl
  have hchecked := hreceived.next (a := ApprovalLabel.outcome 0 (plainCall 20))
    ⟨trivial, by rintro id now ⟨⟩⟩ rfl
  have hresolved := hchecked.next (a := ApprovalLabel.resolve 0 (plainCommand 20))
    ⟨trivial, by rintro id now ⟨⟩; rfl⟩ rfl
  exact expiry_kept (hresolved.next (a := ApprovalLabel.append 0 (plainCommand 20))
    ⟨trivial, by rintro id now ⟨⟩⟩ rfl)

set_option maxRecDepth 4096 in
/-- An approval that expires at the epoch is allowed at the epoch, and the event says so. -/
theorem expired_allowed :
    ∃ f, Approving.recorded.Reach Anyway f ∧ ¬ ExpiryKept f.1 ∧
      ∃ r ∈ f.1.resolutions, r.expired ∧ r.receipt.accepted ∧
        (∃ row, Table.lookup ApprovalOf.id f.1.hub.hub.approvals r.approvalId = some row ∧
          row.decision = .allowed) ∧
        ∃ e ∈ f.1.hub.hub.events, SaysAllowed e ∧ Names e r.approvalId := by
  have hrun : ∃ f, Approving.recorded.run (freshApproving, []) (allowing .epoch) = some f ∧
      ∃ r ∈ f.1.resolutions, r.expired ∧ r.receipt.accepted ∧
        (∃ row, Table.lookup ApprovalOf.id f.1.hub.hub.approvals r.approvalId = some row ∧
          row.decision = .allowed) ∧
        ∃ e ∈ f.1.hub.hub.events, SaysAllowed e ∧ Names e r.approvalId :=
    ⟨_, rfl, _, List.mem_singleton_self _, rfl, rfl, ⟨_, rfl, rfl⟩,
      _, List.mem_singleton_self _, ⟨rfl, rfl⟩, rfl⟩
  obtain ⟨f, hf, r, hr, hexpired, haccepted, ⟨row, hl, hrow⟩, hevent⟩ := hrun
  refine ⟨f, .of_run (.start Approving.recorded_init) hf, ?_, r, hr, hexpired, haccepted,
    ⟨row, hl, hrow⟩, hevent⟩
  intro h
  exact h.ungranted r hr hexpired row hl hrow

end Stackhour.Hub
