import Stackhour.Hub.State

/-!
# What a hub function does

The outcomes of an append with its broadcast: it fails and changes nothing, it
replays a receipt, it commits and announces its event, or it commits and cannot
read its event back. The last is the only one in which the caller sees an error
after a durable change.
-/

namespace Stackhour.Hub

open Domain Result

/-! ## When an append goes through -/

/-- The command append creates its event. -/
def Commits (append : CallEnv) (s : Store) (c : CommandId) (e : EntityWrite)
    (disp : Option (NodeId × HubToNode)) : Prop :=
  append.refusal = none ∧ Table.lookup ReceiptRow.commandId s.receipts c = none ∧
    s.Admits append c e disp

/-- The command append answers from a receipt. -/
def Answers (append : CallEnv) (s : Store) (c : CommandId) : Prop :=
  append.refusal = none ∧ (Table.lookup ReceiptRow.commandId s.receipts c).isSome

/-- The node append creates its event. -/
def CommitsEvent (append : CallEnv) (s : Store) (id : EventId) (d : EventDraft) : Prop :=
  append.refusal = none ∧ Table.lookup EventOf.eventId s.events id = none ∧
    (s.maxSequence + 1 < 2 ^ 63 ∧ s.maxSequence + 1 ∉ s.events.map EventOf.sequence) ∧
    s.WakesFresh (s.wakeRows id (s.maxSequence + 1) d append.now)

/-- An appended event reads back: the read is let through and both timestamps
have a four-digit year. -/
def ReadsBack (append fetch : CallEnv) (d : EventDraft) : Prop :=
  fetch.refusal = none ∧ d.occurredAt.Readable ∧ append.now.Readable

instance (append : CallEnv) (s : Store) (c : CommandId) (e : EntityWrite)
    (disp : Option (NodeId × HubToNode)) : Decidable (Commits append s c e disp) := by
  unfold Commits
  exact decidable_of_iff (append.refusal = none ∧
    (Table.lookup ReceiptRow.commandId s.receipts c).isNone ∧ s.Admits append c e disp) (by simp)

instance (append : CallEnv) (s : Store) (c : CommandId) : Decidable (Answers append s c) := by
  unfold Answers
  infer_instance

instance (append : CallEnv) (s : Store) (id : EventId) (d : EventDraft) :
    Decidable (CommitsEvent append s id d) := by
  unfold CommitsEvent Store.WakesFresh
  exact decidable_of_iff (append.refusal = none ∧
    (Table.lookup EventOf.eventId s.events id).isNone ∧
    (s.maxSequence + 1 < 2 ^ 63 ∧ s.maxSequence + 1 ∉ s.events.map EventOf.sequence) ∧
    ∀ w ∈ s.wakeRows id (s.maxSequence + 1) d append.now,
      w.eventId ∉ s.wakes.map WakeRow.eventId ∧ w.sequence ∉ s.wakes.map WakeRow.sequence)
    (by simp)

instance (append fetch : CallEnv) (d : EventDraft) : Decidable (ReadsBack append fetch d) := by
  unfold ReadsBack
  infer_instance

namespace HubState

variable {h : HubState} {append fetch : CallEnv}

/-! ## Reading an appended event back -/

theorem fetchEvent_appended {s t : Store} {d : EventDraft} {id : EventId}
    {c : Option CommandId} (hb : ReadsBack append fetch d)
    (hs : t.events = s.events ++ [Store.eventRow (s.maxSequence + 1) id c d append.now]) :
    fetchEvent fetch t (s.maxSequence + 1) =
      .ok (some (d.stamped (s.maxSequence + 1) id c append.now)) := by
  have htail := @Store.eventsAfter_appended s t fetch _ rfl hs
  obtain ⟨hf, hd, hn⟩ := hb
  unfold fetchEvent
  rw [show (s.maxSequence + 1 : ℤ) = (Store.eventRow (s.maxSequence + 1) id c d
    append.now).sequence from rfl, htail, rowToEvent_eventRow hd hn, CallEnv.admit, hf]
  simp [EventDraft.stamped, Store.eventRow, bind, Except.bind, pure, Except.pure]

theorem fetchEvent_unread {s t : Store} {d : EventDraft} {id : EventId}
    {c : Option CommandId} (hb : ¬ ReadsBack append fetch d)
    (hs : t.events = s.events ++ [Store.eventRow (s.maxSequence + 1) id c d append.now]) :
    ∃ e, fetchEvent fetch t (s.maxSequence + 1) = .error e := by
  have htail := @Store.eventsAfter_appended s t fetch _ rfl hs
  unfold fetchEvent
  rw [show (s.maxSequence + 1 : ℤ) = (Store.eventRow (s.maxSequence + 1) id c d
    append.now).sequence from rfl, htail, CallEnv.admit]
  cases hf : fetch.refusal with
  | some m => exact ⟨_, rfl⟩
  | none =>
      obtain ⟨e, he⟩ := rowToEvent_eventRow_error (q := s.maxSequence + 1) (i := id) (c := c)
        (fun hdn => hb ⟨hf, hdn⟩)
      simp only [he]
      exact ⟨e, rfl⟩

/-! ## `append_and_broadcast_command` -/

section Command

variable {c : CommandId} {d : EventDraft} {e : EntityWrite}
  {disp : Option (NodeId × HubToNode)}

/-- The hub after a command append that creates and announces its event. -/
def announced (append : CallEnv) (h : HubState) (c : CommandId) (d : EventDraft)
    (e : EntityWrite) (disp : Option (NodeId × HubToNode)) : HubState :=
  { h with
    hub := h.hub.bundled append c d e disp
    events := h.events ++ [d.stamped (h.hub.maxSequence + 1) ⟨append.uuid⟩ (some c) append.now] }

theorem append_ok_of_commits (hc : Commits append h.hub c e disp) :
    h.hub.appendCommandBundle append c d e disp =
      .ok (h.hub.bundled append c d e disp, ⟨h.hub.maxSequence + 1, ⟨append.uuid⟩, true⟩) :=
  Store.appendCommandBundle_eq_ok.mpr ⟨hc.1, .inr ⟨hc.2.1, hc.2.2, rfl, rfl⟩⟩

theorem command_announced (hc : Commits append h.hub c e disp) (hb : ReadsBack append fetch d) :
    h.appendAndBroadcastCommand append fetch c d e disp =
      (h.announced append c d e disp, .ok ⟨h.hub.maxSequence + 1, ⟨append.uuid⟩, true⟩) := by
  unfold appendAndBroadcastCommand broadcast
  rw [append_ok_of_commits hc]
  simp only [if_true, fetchEvent_appended (t := h.hub.bundled append c d e disp) hb rfl]
  rfl

/-- The defect: the store has changed and the caller is told of an error. -/
theorem command_unread (hc : Commits append h.hub c e disp) (hb : ¬ ReadsBack append fetch d) :
    ∃ err, h.appendAndBroadcastCommand append fetch c d e disp =
      ({ h with hub := h.hub.bundled append c d e disp }, .error err) := by
  obtain ⟨err, herr⟩ := fetchEvent_unread (t := h.hub.bundled append c d e disp) hb rfl
  refine ⟨err, ?_⟩
  unfold appendAndBroadcastCommand broadcast
  rw [append_ok_of_commits hc]
  simp only [if_true, herr]

theorem command_answered (ha : Answers append h.hub c) :
    ∃ o, o.created = false ∧
      h.appendAndBroadcastCommand append fetch c d e disp = (h, .ok o) := by
  obtain ⟨hr, hl⟩ := ha
  obtain ⟨r, hl⟩ := Option.isSome_iff_exists.mp hl
  refine ⟨⟨r.sequence, r.eventId, false⟩, rfl, ?_⟩
  unfold appendAndBroadcastCommand broadcast
  rw [Store.appendCommandBundle_eq_ok.mpr ⟨hr, .inl ⟨r, hl, rfl, rfl⟩⟩]
  rfl

theorem command_failed (hc : ¬ Commits append h.hub c e disp) (ha : ¬ Answers append h.hub c) :
    ∃ err, h.appendAndBroadcastCommand append fetch c d e disp = (h, .error err) := by
  unfold appendAndBroadcastCommand
  cases hop : h.hub.appendCommandBundle append c d e disp with
  | error err => exact ⟨err, rfl⟩
  | ok r =>
      obtain ⟨s, o⟩ := r
      obtain ⟨hr, ⟨r, hl, -, -⟩ | ⟨hl, hadm, -, -⟩⟩ := Store.appendCommandBundle_eq_ok.mp hop
      · exact absurd ⟨hr, Option.isSome_iff_exists.mpr ⟨r, hl⟩⟩ ha
      · exact absurd ⟨hr, hl, hadm⟩ hc

/-- **What a command append can do** to the hub: nothing, or its bundle,
announced or not. -/
theorem command_cases (append fetch : CallEnv) (h : HubState) (c : CommandId) (d : EventDraft)
    (e : EntityWrite) (disp : Option (NodeId × HubToNode)) :
    ((h.appendAndBroadcastCommand append fetch c d e disp).1 = h ∧
      ¬ Commits append h.hub c e disp) ∨
    (Commits append h.hub c e disp ∧ ReadsBack append fetch d ∧
      (h.appendAndBroadcastCommand append fetch c d e disp).1 = h.announced append c d e disp) ∨
    (Commits append h.hub c e disp ∧ ¬ ReadsBack append fetch d ∧
      (h.appendAndBroadcastCommand append fetch c d e disp).1 =
        { h with hub := h.hub.bundled append c d e disp }) := by
  by_cases hc : Commits append h.hub c e disp
  · by_cases hb : ReadsBack append fetch d
    · exact .inr (.inl ⟨hc, hb, by rw [command_announced hc hb]⟩)
    · obtain ⟨err, herr⟩ := command_unread hc hb
      exact .inr (.inr ⟨hc, hb, by rw [herr]⟩)
  · refine .inl ⟨?_, hc⟩
    by_cases ha : Answers append h.hub c
    · obtain ⟨o, -, ho⟩ := @command_answered h append fetch c d e disp ha
      rw [ho]
    · obtain ⟨err, herr⟩ := @command_failed h append fetch c d e disp hc ha
      rw [herr]

end Command

/-! ## `append_and_broadcast_node_event` -/

section NodeEvent

variable {id : EventId} {d : EventDraft}

/-- The hub after a node append that creates and announces its event. -/
def announcedEvent (append : CallEnv) (h : HubState) (id : EventId) (d : EventDraft) : HubState :=
  { h with
    hub := h.hub.nodeAppended append id d
    events := h.events ++ [d.stamped (h.hub.maxSequence + 1) id none append.now] }

theorem append_ok_of_commitsEvent (hc : CommitsEvent append h.hub id d) :
    h.hub.appendNodeEvent append id d =
      .ok (h.hub.nodeAppended append id d, ⟨h.hub.maxSequence + 1, id, true⟩) :=
  Store.appendNodeEvent_eq_ok.mpr ⟨hc.1, .inr ⟨hc.2.1, hc.2.2.1, hc.2.2.2, rfl, rfl⟩⟩

theorem event_announced (hc : CommitsEvent append h.hub id d) (hb : ReadsBack append fetch d) :
    h.appendAndBroadcastNodeEvent append fetch id d =
      (h.announcedEvent append id d, .ok ⟨h.hub.maxSequence + 1, id, true⟩) := by
  unfold appendAndBroadcastNodeEvent broadcast
  rw [append_ok_of_commitsEvent hc]
  simp only [if_true, fetchEvent_appended (t := h.hub.nodeAppended append id d) hb rfl]
  rfl

theorem event_unread (hc : CommitsEvent append h.hub id d) (hb : ¬ ReadsBack append fetch d) :
    ∃ err, h.appendAndBroadcastNodeEvent append fetch id d =
      ({ h with hub := h.hub.nodeAppended append id d }, .error err) := by
  obtain ⟨err, herr⟩ := fetchEvent_unread (t := h.hub.nodeAppended append id d) hb rfl
  refine ⟨err, ?_⟩
  unfold appendAndBroadcastNodeEvent broadcast
  rw [append_ok_of_commitsEvent hc]
  simp only [if_true, herr]

/-- **What a node append can do** to the hub: nothing, or its event, announced
or not. -/
theorem event_cases (append fetch : CallEnv) (h : HubState) (id : EventId) (d : EventDraft) :
    ((h.appendAndBroadcastNodeEvent append fetch id d).1 = h ∧
      ¬ CommitsEvent append h.hub id d) ∨
    (CommitsEvent append h.hub id d ∧ ReadsBack append fetch d ∧
      (h.appendAndBroadcastNodeEvent append fetch id d).1 = h.announcedEvent append id d) ∨
    (CommitsEvent append h.hub id d ∧ ¬ ReadsBack append fetch d ∧
      (h.appendAndBroadcastNodeEvent append fetch id d).1 =
        { h with hub := h.hub.nodeAppended append id d }) := by
  by_cases hc : CommitsEvent append h.hub id d
  · by_cases hb : ReadsBack append fetch d
    · exact .inr (.inl ⟨hc, hb, by rw [event_announced hc hb]⟩)
    · obtain ⟨err, herr⟩ := event_unread hc hb
      exact .inr (.inr ⟨hc, hb, by rw [herr]⟩)
  · refine .inl ⟨?_, hc⟩
    unfold appendAndBroadcastNodeEvent
    cases hop : h.hub.appendNodeEvent append id d with
    | error err => rfl
    | ok r =>
        obtain ⟨s, o⟩ := r
        obtain ⟨hr, ⟨row, -, rfl, rfl⟩ | ⟨hl, hq, hw, -, -⟩⟩ :=
          Store.appendNodeEvent_eq_ok.mp hop
        · rfl
        · exact absurd ⟨hr, hl, hq, hw⟩ hc

end NodeEvent

/-! ## `run_binding` -/

/-- Reading a binding touches the routing cache only. -/
theorem runBindingChecked_fst (env : CallEnv) (h : HubState) (r : RunId) :
    ∃ rt, (h.runBindingChecked env r).1 = { h with routing := rt } := by
  unfold runBindingChecked
  split
  · exact ⟨h.routing, rfl⟩
  · split
    · exact ⟨h.routing, rfl⟩
    · exact ⟨h.routing, rfl⟩
    · exact ⟨_, rfl⟩

theorem runBinding_fst (env : CallEnv) (h : HubState) (r : RunId) :
    ∃ rt, (h.runBinding env r).1 = { h with routing := rt } := by
  obtain ⟨rt, hrt⟩ := runBindingChecked_fst env h r
  refine ⟨rt, ?_⟩
  unfold runBinding
  split <;> next heq => rw [← hrt, heq]

/-- A binding that is not found leaves the cache alone. -/
theorem runBinding_none {env : CallEnv} {r : RunId} (hb : (h.runBinding env r).2 = none) :
    (h.runBinding env r).1 = h := by
  unfold runBinding runBindingChecked at hb ⊢
  cases hcached : h.routing.run r with
  | some b => rfl
  | none =>
      rw [hcached] at hb
      cases hrun : h.hub.getRun env r with
      | error e => rfl
      | ok o =>
          cases o with
          | none => rfl
          | some run =>
              rw [hrun] at hb
              cases hb

theorem acceptsNodeEvent_fst (env : CallEnv) (h : HubState) (n : NodeId) (d : EventDraft) :
    ∃ rt, (h.acceptsNodeEvent env n d).1 = { h with routing := rt } := by
  unfold acceptsNodeEvent
  split
  · exact ⟨h.routing, rfl⟩
  · split
    · exact ⟨h.routing, rfl⟩
    · next r _ =>
        obtain ⟨rt, hrt⟩ := runBindingChecked_fst env h r
        refine ⟨rt, ?_⟩
        split <;> next heq => rw [← hrt, heq]

/-! ## `apply_command` -/

/-- The store a command's arm leaves before it appends: only the resolution of
an approval writes. -/
theorem planCommand_hub (env : CommandEnv) (h : HubState) (n : Option NodeId)
    (cmd : ClientCommand) :
    (h.planCommand env n cmd).1.hub = h.hub ∨
      ∃ c id decision actor, cmd = .resolveApproval c id decision actor ∧
        ∃ row current, Table.lookup ApprovalOf.id h.hub.approvals id = some row ∧
          rowToApproval row = .ok current ∧ current.isPending ∧ decision ≠ .pending ∧
          (∃ plan, (h.planCommand env n cmd).2 = .ok plan) ∧
          (h.planCommand env n cmd).1.hub =
            h.hub.resolved id decision actor env.lookup.now := by
  cases cmd with
  | createTask c title => exact .inl rfl
  | startRun c t n engine model effort prompt policy workspace => exact .inl rfl
  | sendUserMessage c t r text mid =>
      refine .inl ?_
      simp only [planCommand, planSendUserMessage]
      cases r with
      | none =>
          dsimp only
          split <;> rfl
      | some r =>
          obtain ⟨rt, hrt⟩ := h.runBinding_fst env.lookup r
          dsimp only
          split <;> simp only [hrt]
  | interruptRun c r =>
      refine .inl ?_
      obtain ⟨rt, hrt⟩ := h.runBinding_fst env.lookup r
      simp only [planCommand, planInterruptRun]
      split <;> simp only [hrt]
  | resolveApproval c id decision actor =>
      simp only [planCommand, planResolveApproval]
      cases hop : h.hub.resolveApproval env.lookup id decision actor env.lookup.now with
      | error e => exact .inl rfl
      | ok r =>
          obtain ⟨s, a⟩ := r
          obtain ⟨hd, -, row, current, hl, hrow, hs⟩ := Store.resolveApproval_eq_ok.mp hop
          split at hs
          · next hp =>
              exact .inr ⟨c, id, decision, actor, rfl, row, current, hl, hrow, hp, hd,
                ⟨_, rfl⟩, hs.1⟩
          · exact .inl hs.1

/-- An outcome that is found is that of a receipt. -/
theorem answers_of_outcome {env : CallEnv} {s : Store} {c : CommandId} {o : AppendOutcome}
    (ho : s.commandOutcome env c = .ok (some o)) : Answers env s c := by
  simp only [Store.commandOutcome, bind_eq_ok, CallEnv.admit_eq_ok, pure_eq_ok] at ho
  obtain ⟨-, hr, ho⟩ := ho
  obtain ⟨r, hr', -⟩ := Option.map_eq_some_iff.mp ho
  exact ⟨hr, Option.isSome_iff_exists.mpr ⟨r, hr'⟩⟩

/-- Past the receipts, a command is its arm and then the append. -/
theorem applyCommandInner_eq {env : CommandEnv} {n : Option NodeId} {cmd : ClientCommand}
    (ha : ¬ Answers env.outcome h.hub cmd.commandId) :
    h.applyCommandInner env cmd n =
      match h.planCommand env n cmd with
      | (h, .error e) => (h, ⟨CommandReceipt.reject cmd.commandId e, none⟩)
      | (h, .ok plan) =>
          match h.finishWithEntity env cmd.commandId plan with
          | (h, effect) => (h.rememberStarted plan effect, effect) := by
  unfold applyCommandInner
  split
  · next o ho => exact absurd (answers_of_outcome ho) ha
  · rfl

/-- Only the approvals differ. -/
theorem planCommand_approvals (env : CommandEnv) (h : HubState) (n : Option NodeId)
    (cmd : ClientCommand) :
    ∃ ap, (h.planCommand env n cmd).1.hub = { h.hub with approvals := ap } := by
  obtain heq | ⟨_, _, _, _, -, _, _, -, -, -, -, -, heq⟩ := planCommand_hub env h n cmd
  · exact ⟨h.hub.approvals, heq⟩
  · exact ⟨_, heq⟩

/-- The links of the hub: what commands and events never touch. -/
structure SameLinks (h h' : HubState) : Prop where
  nodes : h'.nodes = h.nodes
  nextNodeConnectionId : h'.nextNodeConnectionId = h.nextNodeConnectionId
  channels : h'.channels = h.channels

theorem SameLinks.of_routing {rt : Routing} {h' : HubState}
    (heq : h' = { h with routing := rt }) : SameLinks h h' := by
  subst heq
  exact ⟨rfl, rfl, rfl⟩

/-- Planning touches the store and the routing cache. -/
theorem planCommand_links (env : CommandEnv) (h : HubState) (n : Option NodeId)
    (cmd : ClientCommand) :
    SameLinks h (h.planCommand env n cmd).1 ∧
      (h.planCommand env n cmd).1.events = h.events := by
  cases cmd with
  | createTask c title => exact ⟨⟨rfl, rfl, rfl⟩, rfl⟩
  | startRun c t n engine model effort prompt policy workspace => exact ⟨⟨rfl, rfl, rfl⟩, rfl⟩
  | sendUserMessage c t r text mid =>
      simp only [planCommand, planSendUserMessage]
      cases r with
      | none =>
          dsimp only
          split <;> exact ⟨⟨rfl, rfl, rfl⟩, rfl⟩
      | some r =>
          obtain ⟨rt, hrt⟩ := h.runBinding_fst env.lookup r
          dsimp only
          split <;> exact ⟨SameLinks.of_routing hrt, by rw [hrt]⟩
  | interruptRun c r =>
      obtain ⟨rt, hrt⟩ := h.runBinding_fst env.lookup r
      simp only [planCommand, planInterruptRun]
      split <;> exact ⟨SameLinks.of_routing hrt, by rw [hrt]⟩
  | resolveApproval c id decision actor =>
      simp only [planCommand, planResolveApproval]
      split <;> exact ⟨⟨rfl, rfl, rfl⟩, rfl⟩

/-- The command is recorded: no receipt answers it, it passes its checks as
`plan`, and its append commits. -/
def Records (env : CommandEnv) (h : HubState) (n : Option NodeId) (cmd : ClientCommand)
    (plan : Plan) : Prop :=
  ¬ Answers env.outcome h.hub cmd.commandId ∧ (h.planCommand env n cmd).2 = .ok plan ∧
    Commits env.append h.hub cmd.commandId plan.entity plan.dispatch

/-- What handling a command leaves in the store and on the bus, and what it
hands over for routing. -/
inductive CommandResult (env : CommandEnv) (h : HubState) (n : Option NodeId)
    (cmd : ClientCommand) (h' : HubState) (effect : CommandEffect) : Prop where
  | unrecorded (ap : List ApprovalRow) (hub : h'.hub = { h.hub with approvals := ap })
      (events : h'.events = h.events) (dispatch : effect.dispatch = none)
  | announced (plan : Plan) (ap : List ApprovalRow) (recorded : Records env h n cmd plan)
      (readsBack : ReadsBack env.append env.fetch plan.draft)
      (hub : h'.hub = { h.hub.bundled env.append cmd.commandId plan.draft plan.entity
        plan.dispatch with approvals := ap })
      (events : h'.events = h.events ++ [plan.draft.stamped (h.hub.maxSequence + 1)
        ⟨env.append.uuid⟩ (some cmd.commandId) env.append.now])
      (dispatch : effect.dispatch = plan.dispatch)
  | unread (plan : Plan) (ap : List ApprovalRow) (recorded : Records env h n cmd plan)
      (unread : ¬ ReadsBack env.append env.fetch plan.draft)
      (hub : h'.hub = { h.hub.bundled env.append cmd.commandId plan.draft plan.entity
        plan.dispatch with approvals := ap })
      (events : h'.events = h.events) (dispatch : effect.dispatch = none)

/-- Finishing a planned command. -/
theorem finishWithEntity_result {env : CommandEnv} {n : Option NodeId} {cmd : ClientCommand}
    {plan : Plan} (ha : ¬ Answers env.outcome h.hub cmd.commandId)
    (hplan : (h.planCommand env n cmd).2 = .ok plan) :
    CommandResult env h n cmd
      ((h.planCommand env n cmd).1.finishWithEntity env cmd.commandId plan).1
      ((h.planCommand env n cmd).1.finishWithEntity env cmd.commandId plan).2 ∧
    SameLinks h ((h.planCommand env n cmd).1.finishWithEntity env cmd.commandId plan).1 ∧
    ((h.planCommand env n cmd).1.finishWithEntity env cmd.commandId plan).1.routing =
      (h.planCommand env n cmd).1.routing := by
  obtain ⟨ap, hap⟩ := planCommand_approvals env h n cmd
  obtain ⟨hlinks, hevents⟩ := planCommand_links env h n cmd
  generalize (h.planCommand env n cmd).1 = h₁ at *
  have hcommits : Commits env.append h₁.hub cmd.commandId plan.entity plan.dispatch ↔
      Commits env.append h.hub cmd.commandId plan.entity plan.dispatch := by
    rw [hap]
    unfold Commits Store.Admits EntityWrite.Fresh
    exact Iff.rfl
  have hbundled : h₁.hub.bundled env.append cmd.commandId plan.draft plan.entity plan.dispatch =
      { h.hub.bundled env.append cmd.commandId plan.draft plan.entity plan.dispatch with
        approvals := ap } := by
    rw [hap]
    rfl
  have hmax : h₁.hub.maxSequence = h.hub.maxSequence := by
    rw [hap]
    rfl
  unfold finishWithEntity
  by_cases hc : Commits env.append h₁.hub cmd.commandId plan.entity plan.dispatch
  · have hrec : Records env h n cmd plan := ⟨ha, hplan, hcommits.mp hc⟩
    by_cases hb : ReadsBack env.append env.fetch plan.draft
    · rw [command_announced hc hb]
      refine ⟨.announced plan ap hrec hb hbundled ?_ rfl,
        ⟨hlinks.nodes, hlinks.nextNodeConnectionId, hlinks.channels⟩, rfl⟩
      simp only [HubState.announced, hevents, hmax]
    · obtain ⟨err, herr⟩ := command_unread hc hb
      rw [herr]
      exact ⟨.unread plan ap hrec hb hbundled hevents rfl,
        ⟨hlinks.nodes, hlinks.nextNodeConnectionId, hlinks.channels⟩, rfl⟩
  · by_cases hans : Answers env.append h₁.hub cmd.commandId
    · obtain ⟨o, hcr, ho⟩ := @command_answered h₁ env.append env.fetch cmd.commandId plan.draft
        plan.entity plan.dispatch hans
      rw [ho]
      refine ⟨.unrecorded ap hap hevents ?_, hlinks, rfl⟩
      simp [hcr]
    · obtain ⟨err, herr⟩ := @command_failed h₁ env.append env.fetch cmd.commandId plan.draft
        plan.entity plan.dispatch hc hans
      rw [herr]
      exact ⟨.unrecorded ap hap hevents rfl, hlinks, rfl⟩

theorem rememberStarted_eq (h : HubState) (plan : Plan) (effect : CommandEffect) :
    ∃ rt, h.rememberStarted plan effect = { h with routing := rt } := by
  unfold rememberStarted
  split
  · exact ⟨_, rfl⟩
  · exact ⟨h.routing, rfl⟩

/-- **What handling a command can do.** -/
theorem applyCommandInner_result (env : CommandEnv) (h : HubState) (n : Option NodeId)
    (cmd : ClientCommand) :
    CommandResult env h n cmd (h.applyCommandInner env cmd n).1 (h.applyCommandInner env cmd n).2 ∧
      SameLinks h (h.applyCommandInner env cmd n).1 := by
  by_cases ha : Answers env.outcome h.hub cmd.commandId
  · obtain ⟨hr, hl⟩ := ha
    obtain ⟨r, hl⟩ := Option.isSome_iff_exists.mp hl
    simp only [applyCommandInner, Store.commandOutcome, CallEnv.admit, hr, hl, Option.map_some]
    exact ⟨.unrecorded h.hub.approvals rfl rfl rfl, ⟨rfl, rfl, rfl⟩⟩
  · rw [applyCommandInner_eq ha]
    cases hplan : (h.planCommand env n cmd).2 with
    | error e =>
        obtain ⟨ap, hap⟩ := planCommand_approvals env h n cmd
        obtain ⟨hlinks, hevents⟩ := planCommand_links env h n cmd
        rw [← Prod.mk.eta (p := h.planCommand env n cmd), hplan]
        exact ⟨.unrecorded ap hap hevents rfl, hlinks⟩
    | ok plan =>
        obtain ⟨hres, hlinks, -⟩ := finishWithEntity_result ha hplan
        rw [← Prod.mk.eta (p := h.planCommand env n cmd), hplan]
        dsimp only
        generalize (h.planCommand env n cmd).1.finishWithEntity env cmd.commandId plan = r at *
        obtain ⟨rt, hrt⟩ := rememberStarted_eq r.1 plan r.2
        rw [hrt]
        refine ⟨?_, ⟨hlinks.nodes, hlinks.nextNodeConnectionId, hlinks.channels⟩⟩
        cases hres with
        | unrecorded ap hub events dispatch => exact .unrecorded ap hub events dispatch
        | announced p ap recorded rb hub events dispatch =>
            exact .announced p ap recorded rb hub events dispatch
        | unread p ap recorded rb hub events dispatch =>
            exact .unread p ap recorded rb hub events dispatch

end HubState

end Stackhour.Hub
