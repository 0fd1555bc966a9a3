import Stackhour.Hub.Links

/-!
# Dispatches and their acknowledgements

A recorded dispatch is pending until its `acked_at` is set, whatever else
happens to the hub; only an acknowledgement of its command by its node sets it,
and it is never pending again.
-/

namespace Stackhour.Hub

open Domain HubState

/-! ## What a step does to the dispatches -/

/-- The rows `pending_dispatches` reads. -/
def Pending (s : Store) (row : DispatchRow) : Prop := row ∈ s.dispatches ∧ row.ackedAt = none

/-- The node of a dispatch acknowledges its command, and the update is let
through. -/
def Retires (row : DispatchRow) : HubLabel → Prop
  | .commandAck env n c => c = row.commandId ∧ n = row.nodeId ∧ env.refusal = none
  | _ => False

/-- Nothing, a new row of a new command, or an acknowledgement. -/
inductive DispatchChange (h : HubState) : HubLabel → Store → Prop where
  | kept {a : HubLabel} {s' : Store} (same : s'.dispatches = h.hub.dispatches)
      (idle : ∀ row, ¬ Retires row a) : DispatchChange h a s'
  | recorded {a : HubLabel} {s' : Store} (new : DispatchRow)
      (free : new.commandId ∉ h.hub.dispatches.map DispatchRow.commandId)
      (appended : s'.dispatches = h.hub.dispatches ++ [new])
      (idle : ∀ row, ¬ Retires row a) : DispatchChange h a s'
  | acked (env : CallEnv) (n : NodeId) (c : CommandId) (through : env.refusal = none) :
      DispatchChange h (.commandAck env n c)
        (h.hub.acked env (fun d => decide (d.commandId = c ∧ d.nodeId = n)))

theorem dispatch_change (h : HubState) (a : HubLabel) : DispatchChange h a (h.step a).hub := by
  cases a with
  | command env cmd n =>
      obtain ⟨ap, hap⟩ | ⟨plan, ap, ⟨-, -, hc⟩, hap⟩ :=
        (applyCommandInner_result env h n cmd).1.hub_cases
      · exact .kept (by rw [HubState.step, hap]) (fun _ hr => hr)
      · cases hd : plan.dispatch with
        | none =>
            refine .kept ?_ (fun _ hr => hr)
            simp only [HubState.step, hap, Store.bundled, hd, dispatchRows, List.append_nil]
        | some p =>
            refine .recorded ⟨cmd.commandId, p.1, p.2, fmtTime env.append.now, none⟩
              (hc.2.2.2.2 (by rw [hd]; exact Option.some_ne_none p)) ?_ (fun _ hr => hr)
            simp only [HubState.step, hap, Store.bundled, hd, dispatchRows]
  | nodeEvent validate append fetch n id draft =>
      exact .kept (nodeEvent_links validate append fetch h n id draft).2.dispatches
        (fun _ hr => hr)
  | commandAck env n c =>
      simp only [HubState.step, HubState.acknowledgeDispatchFrom]
      split
      · next hop =>
          obtain ⟨hthrough, rfl, -⟩ := Store.ackWhere_eq_ok.mp hop
          exact .acked env n c hthrough
      · next e hop =>
          refine .kept rfl ?_
          rintro row ⟨-, -, hthrough⟩
          have hok := Store.ackWhere_eq_ok (s := h.hub)
            (p := fun d => decide (d.commandId = c ∧ d.nodeId = n)) |>.mpr ⟨hthrough, rfl, rfl⟩
          cases hop.symm.trans hok
  | register upsert append fetch hello now =>
      exact .kept (register_links upsert append fetch h hello now).2.dispatches (fun _ hr => hr)
  | unregister read upsert append fetch n c now =>
      exact .kept (unregister_links read upsert append fetch h n c now).2.dispatches
        (fun _ hr => hr)
  | registerWorker env channel t =>
      exact .kept (registerWorker_links env h channel t).2.dispatches (fun _ hr => hr)
  | restart => exact .kept rfl (fun _ hr => hr)

/-! ## One dispatch -/

/-- Its command is taken, and its node has acknowledged it. -/
structure Retired (s : Store) (row : DispatchRow) : Prop where
  taken : row.commandId ∈ s.dispatches.map DispatchRow.commandId
  done : ∀ d ∈ s.dispatches, d.commandId = row.commandId → d.nodeId = row.nodeId →
    d.ackedAt ≠ none

theorem Retired.not_pending {s : Store} {row : DispatchRow} (h : Retired s row) :
    ¬ Pending s row :=
  fun hp => h.done row hp.1 rfl rfl hp.2

/-- A row is kept, with its time of acknowledgement or not. -/
theorem acked_commandIds (env : CallEnv) (s : Store) (p : DispatchRow → Bool) :
    (s.acked env p).dispatches.map DispatchRow.commandId =
      s.dispatches.map DispatchRow.commandId := by
  simp only [Store.acked, List.map_map]
  refine List.map_congr_left fun d _ => ?_
  simp only [Function.comp_apply]
  split <;> rfl

theorem Pending.step {h : HubState} {row : DispatchRow} (hp : Pending h.hub row) {a : HubLabel}
    (hno : ¬ Retires row a) : Pending (h.step a).hub row := by
  refine ⟨?_, hp.2⟩
  have hchange := dispatch_change h a
  generalize (h.step a).hub = s' at hchange
  cases hchange with
  | kept same => exact same ▸ hp.1
  | recorded new free appended => exact appended ▸ List.mem_append_left _ hp.1
  | acked env n c through =>
      refine List.mem_map.mpr ⟨row, hp.1, if_neg ?_⟩
      simp only [Bool.and_eq_true, decide_eq_true_eq, not_and]
      rintro ⟨rfl, rfl⟩
      exact absurd ⟨rfl, rfl, through⟩ hno

theorem Pending.retired {h : HubState} {row : DispatchRow} (hp : Pending h.hub row) {a : HubLabel}
    (hr : Retires row a) : Retired (h.step a).hub row := by
  have hchange := dispatch_change h a
  generalize (h.step a).hub = s' at hchange
  cases hchange with
  | kept same idle => exact absurd hr (idle row)
  | recorded new free appended idle => exact absurd hr (idle row)
  | acked env n c through =>
      obtain ⟨rfl, rfl, -⟩ := hr
      refine ⟨?_, fun d hd hc hn hopen => ?_⟩
      · rw [acked_commandIds]
        exact List.mem_map_of_mem hp.1
      · obtain ⟨old, -, rfl⟩ := List.mem_map.mp hd
        split at hopen
        · cases hopen
        · next hmiss =>
            rw [if_neg hmiss] at hc hn
            simp only [Bool.and_eq_true, decide_eq_true_eq, not_and] at hmiss
            exact hmiss ⟨hc, hn⟩ hopen

/-- What is retired stays retired: its command is never dispatched again. -/
theorem Retired.step {h : HubState} {row : DispatchRow} (hr : Retired h.hub row) (a : HubLabel) :
    Retired (h.step a).hub row := by
  have hchange := dispatch_change h a
  generalize (h.step a).hub = s' at hchange
  cases hchange with
  | kept same => exact ⟨same ▸ hr.taken, same ▸ hr.done⟩
  | recorded new free appended =>
      refine ⟨?_, fun d hd hc hn => ?_⟩
      · rw [appended, List.map_append]
        exact List.mem_append_left _ hr.taken
      · rcases List.mem_append.mp (appended ▸ hd) with hold | hnew
        · exact hr.done d hold hc hn
        · obtain rfl := List.mem_singleton.mp hnew
          exact absurd (hc ▸ hr.taken) free
  | acked env n c through =>
      refine ⟨by rw [acked_commandIds]; exact hr.taken, fun d hd hc hn hopen => ?_⟩
      obtain ⟨old, hold, rfl⟩ := List.mem_map.mp hd
      split at hopen
      · cases hopen
      · next hmiss =>
          rw [if_neg hmiss] at hc hn
          exact hr.done old hold hc hn hopen

/-! ## Whole runs -/

theorem Retired.run {h : HubState} {row : DispatchRow} (hr : Retired h.hub row)
    (as : List HubLabel) : Retired (as.foldl HubState.step h).hub row := by
  induction as generalizing h with
  | nil => exact hr
  | cons a as ih => exact ih (hr.step a)

/-- **A pending dispatch stays pending exactly until its node's acknowledgement
is recorded.** -/
theorem Pending.run_iff {h : HubState} {row : DispatchRow} (hp : Pending h.hub row)
    (as : List HubLabel) :
    Pending (as.foldl HubState.step h).hub row ↔ ∀ a ∈ as, ¬ Retires row a := by
  induction as generalizing h with
  | nil => exact iff_of_true hp (fun _ ha => absurd ha List.not_mem_nil)
  | cons a as ih =>
      rw [List.foldl_cons, List.forall_mem_cons]
      by_cases hr : Retires row a
      · have hgone := (hp.retired hr).run as
        exact iff_of_false hgone.not_pending fun hall => hall.1 hr
      · rw [ih (hp.step hr)]
        exact (and_iff_right hr).symm

end Stackhour.Hub
