import Stackhour.Claire.Failures
import Stackhour.Claire.Running

/-!
# The assistant is not wedged

A run is busy until its end is handled. Where its end has been written, the output loop
has still to take it, or a thread has still to write it again; where it has not, the
next pass over a run without a process writes one.
-/

namespace Stackhour.Claire

open Domain TransitionSystem

/-- The thread writes the end of its run next. -/
def Stage.Ending : Stage → Prop
  | .exited (.failed _) | .replied => True
  | _ => False

/-- An event that ends the run. -/
def Event.Ends (e : Event) (r : Run) : Prop := e.run = some r ∧ isTerminal e.kind = true

instance (e : Event) (r : Run) : Decidable (e.Ends r) := inferInstanceAs (Decidable (_ ∧ _))

namespace State

/-- An event of the log is of the run, and of the task. -/
def Owns (s : State) (task : Task) (r : Run) : Prop := ∃ e ∈ s.log, e.task = task ∧ e.run = some r

/-- The session's run is of the session's task. -/
def OwnsRun (s : State) (x : Session) : Prop := ∀ r, x.run = some r → s.Owns x.task r

/-- What the output loop has not yet handled. -/
def unread (s : State) : List Event :=
  match s.phase with
  | .handle _ e => e :: s.log.drop s.cursor
  | _ => s.log.drop s.cursor

def HasEnd (s : State) (r : Run) : Prop := ∃ e ∈ s.log, e.Ends r

instance (s : State) (r : Run) : Decidable (s.HasEnd r) :=
  inferInstanceAs (Decidable (∃ e ∈ s.log, e.Ends r))

def EndUnread (s : State) (r : Run) : Prop := ∃ e ∈ s.unread, e.Ends r

/-- The run's thread has still to write its end. -/
def Owed (s : State) (r : Run) : Prop := ∃ j, s.jobs r = some j ∧ j.stage.Active

/-- A busy run is the session's. If it has ended an end of it is still to be handled, and so
there is in any case where `sure` holds. -/
structure Tracked (sure : Prop) (s : State) : Prop where
  cursor : s.cursor ≤ s.log.length
  boot : s.phase = .boot → s.cursor = 0
  minted : ∀ task r, s.Owns task r → r < s.runs
  owner : ∀ task task' r, s.Owns task r → s.Owns task' r → task = task'
  session : ∀ x, s.session = some x → s.OwnsRun x
  jobs : ∀ r j, s.jobs r = some j → s.Owns j.task r
  held : ∀ r task copy sessionId text, s.jobs r = some ⟨task, .holding copy sessionId text⟩ →
    s.OwnsRun copy
  busy : ∀ r ∈ s.busy, s.namedRun = some r
  ended : ∀ r ∈ s.busy, sure ∨ s.HasEnd r → s.EndUnread r ∨ s.Owed r

variable {sure : Prop}

/-! ## What leaves all of this alone -/

/-- The two differ in nothing that is tracked. -/
structure Same (s t : State) : Prop where
  log : t.log = s.log
  session : t.session.map (fun x => (x.task, x.run)) = s.session.map (fun x => (x.task, x.run))
  jobs : t.jobs = s.jobs
  busy : t.busy = s.busy
  cursor : t.cursor = s.cursor
  phase : t.phase = s.phase
  runs : t.runs = s.runs

theorem Same.refl (s : State) : Same s s := ⟨rfl, rfl, rfl, rfl, rfl, rfl, rfl⟩

theorem Same.trans {s t u : State} (h : Same s t) (h' : Same t u) : Same s u := by
  constructor
  · exact h'.log.trans h.log
  · exact h'.session.trans h.session
  · exact h'.jobs.trans h.jobs
  · exact h'.busy.trans h.busy
  · exact h'.cursor.trans h.cursor
  · exact h'.phase.trans h.phase
  · exact h'.runs.trans h.runs

theorem Same.save {s : State} {x y : Session} (hx : s.session = some x) (htask : y.task = x.task)
    (hrun : y.run = x.run) : Same s (s.save y) := by
  refine ⟨rfl, ?_, rfl, rfl, rfl, rfl, rfl⟩
  rw [hx]
  show some (y.task, y.run) = some (x.task, x.run)
  rw [htask, hrun]

theorem Same.drop (cause : Cause) (x : Session) (s : State) : Same s (s.drop cause x) := by
  unfold State.drop
  split
  · exact ⟨rfl, rfl, rfl, rfl, rfl, rfl, rfl⟩
  · exact .refl s

theorem Same.note (h : Happening) (s : State) : Same s (s.note h) :=
  ⟨rfl, rfl, rfl, rfl, rfl, rfl, rfl⟩

theorem Same.namedRun {s t : State} (h : Same s t) : t.namedRun = s.namedRun := by
  have hrun := congrArg (Option.bind · Prod.snd) h.session
  unfold State.namedRun
  cases hs : s.session <;> cases ht : t.session <;> rw [hs, ht] at hrun <;> exact hrun

theorem Same.tracked {s t : State} (h : Same s t) (hs : s.Tracked sure) : t.Tracked sure := by
  have hnamed := h.namedRun
  have hunread : t.unread = s.unread := by
    unfold unread
    rw [h.phase, h.log, h.cursor]
  constructor
  · rw [h.cursor, h.log]
    exact hs.cursor
  · rw [h.phase, h.cursor]
    exact hs.boot
  · unfold Owns
    rw [h.log, h.runs]
    exact hs.minted
  · unfold Owns
    rw [h.log]
    exact hs.owner
  · intro x hx r hr
    have hpair := h.session
    rw [hx] at hpair
    obtain ⟨y, hy, heq⟩ := Option.map_eq_some_iff.mp hpair.symm
    obtain ⟨htask, hrun⟩ := Prod.mk.inj heq
    obtain ⟨e, he, hown⟩ := hs.session y hy r (hrun.trans hr)
    rw [htask] at hown
    exact ⟨e, h.log ▸ he, hown⟩
  · unfold Owns
    rw [h.jobs, h.log]
    exact hs.jobs
  · unfold OwnsRun Owns
    rw [h.jobs, h.log]
    exact hs.held
  · rw [h.busy, hnamed]
    exact hs.busy
  · unfold HasEnd EndUnread Owed
    rw [h.busy, h.log, hunread, h.jobs]
    exact hs.ended

/-- What is tracked stays so, at the same place of the loop. -/
structure Leads (sure : Prop) (s t : State) : Prop where
  tracked : t.Tracked sure
  phase : t.phase = s.phase

theorem Leads.trans {s t u : State} (h : Leads sure s t) (h' : Leads sure t u) : Leads sure s u :=
  ⟨h'.tracked, h'.phase.trans h.phase⟩

theorem Same.leads {s t : State} (h : Same s t) (hs : s.Tracked sure) : Leads sure s t :=
  ⟨h.tracked hs, h.phase⟩

theorem Tracked.leads {s : State} (h : s.Tracked sure) : Leads sure s s := ⟨h, rfl⟩

/-! ## What the operations do -/

theorem Owns.append {s : State} {task : Task} {r : Run} (h : s.Owns task r) (e : Event) :
    (s.append e).Owns task r := by
  obtain ⟨f, hf, hown⟩ := h
  exact ⟨f, List.mem_append_left _ hf, hown⟩

theorem OwnsRun.append {s : State} {x : Session} (h : s.OwnsRun x) (e : Event) :
    (s.append e).OwnsRun x := fun r hr => (h r hr).append e

/-- Only an event of a run makes it owned. -/
theorem owns_append {s : State} {e : Event} {task : Task} {r : Run}
    (h : (s.append e).Owns task r) : s.Owns task r ∨ (e.task = task ∧ e.run = some r) := by
  obtain ⟨f, hf, hown⟩ := h
  rcases List.mem_append.mp hf with hf | hf
  · exact .inl ⟨f, hf, hown⟩
  · rw [List.mem_singleton.mp hf] at hown
    exact .inr hown

theorem unread_append {s : State} (hs : s.Tracked sure) (e : Event) :
    (s.append e).unread = s.unread ++ [e] := by
  have hdrop : (s.log ++ [e]).drop s.cursor = s.log.drop s.cursor ++ [e] :=
    List.drop_append_of_le_length hs.cursor
  unfold unread append
  dsimp only
  rw [hdrop]
  split <;> rfl

/-- An end that is written is unread. -/
theorem endUnread_append {s : State} (hs : s.Tracked sure) {e : Event} {r : Run} :
    (s.append e).EndUnread r ↔ s.EndUnread r ∨ e.Ends r := by
  unfold EndUnread
  rw [unread_append hs]
  simp only [List.mem_append, List.mem_singleton, or_and_right, exists_or, exists_eq_left]

theorem hasEnd_append {s : State} {e : Event} {r : Run} :
    (s.append e).HasEnd r ↔ s.HasEnd r ∨ e.Ends r := by
  unfold HasEnd append
  simp only [List.mem_append, List.mem_singleton, or_and_right, exists_or, exists_eq_left]

theorem Tracked.append {s : State} (h : s.Tracked sure) {e : Event}
    (hown : ∀ r, e.run = some r → s.Owns e.task r) : Leads sure s (s.append e) := by
  have hold : ∀ {task r}, (s.append e).Owns task r → s.Owns task r := by
    intro task r howns
    rcases owns_append howns with howns | ⟨rfl, hr⟩
    · exact howns
    · exact hown r hr
  refine ⟨?_, rfl⟩
  constructor
  · show s.cursor ≤ (s.log ++ [e]).length
    rw [List.length_append]
    exact h.cursor.trans (Nat.le_add_right _ _)
  · exact h.boot
  · exact fun task r howns => h.minted task r (hold howns)
  · exact fun task task' r howns howns' => h.owner task task' r (hold howns) (hold howns')
  · exact fun x hx => OwnsRun.append (h.session x hx) e
  · exact fun r j hj => (h.jobs r j hj).append e
  · exact fun r task copy sessionId text hj =>
      OwnsRun.append (h.held r task copy sessionId text hj) e
  · exact h.busy
  · intro r hr hended
    rw [endUnread_append h]
    rw [hasEnd_append, ← or_assoc] at hended
    rcases hended with hended | hend
    · exact (h.ended r hr hended).imp_left .inl
    · exact .inl (.inr hend)

theorem tryAppend_busy (lost : Bool) (e : Event) (s : State) :
    (s.tryAppend lost e).busy = s.busy := by
  cases lost <;> rfl

theorem tryAppend_session (lost : Bool) (e : Event) (s : State) :
    (s.tryAppend lost e).session = s.session := by
  cases lost <;> rfl

theorem Tracked.tryAppend {s : State} (h : s.Tracked sure) (lost : Bool) {e : Event}
    (hown : ∀ r, e.run = some r → s.Owns e.task r) : Leads sure s (s.tryAppend lost e) := by
  unfold State.tryAppend
  split
  · exact h.leads
  · exact h.append hown

/-- A session is saved that names every busy run. -/
theorem Tracked.save {s : State} (h : s.Tracked sure) {x : Session} (hown : s.OwnsRun x)
    (hbusy : ∀ r ∈ s.busy, x.run = some r) : Leads sure s (s.save x) := by
  refine ⟨?_, rfl⟩
  constructor
  · exact h.cursor
  · exact h.boot
  · exact h.minted
  · exact h.owner
  · intro y hy
    obtain rfl := Option.some.inj hy
    exact hown
  · exact h.jobs
  · exact h.held
  · exact hbusy
  · exact h.ended

theorem Tracked.removeBusy {s : State} (h : s.Tracked sure) (r : Run) :
    Leads sure s (s.removeBusy r) := by
  have hsub : ∀ r' ∈ (s.removeBusy r).busy, r' ∈ s.busy := fun r' hr' => (List.mem_filter.mp hr').1
  refine ⟨?_, rfl⟩
  constructor
  · exact h.cursor
  · exact h.boot
  · exact h.minted
  · exact h.owner
  · exact h.session
  · exact h.jobs
  · exact h.held
  · exact fun r' hr' => h.busy r' (hsub r' hr')
  · exact fun r' hr' => h.ended r' (hsub r' hr')

/-- A thread goes on. Where it writes no end any more, the end is not waited for. -/
theorem Tracked.setJobs {s : State} (h : s.Tracked sure) (r : Run) (o : Option Job)
    (hjob : ∀ j, o = some j → s.Owns j.task r)
    (hheld : ∀ task copy sessionId text, o = some ⟨task, .holding copy sessionId text⟩ →
      s.OwnsRun copy)
    (hend : r ∈ s.busy → sure ∨ s.HasEnd r → s.EndUnread r ∨ ∃ j, o = some j ∧ j.stage.Active) :
    Leads sure s { s with jobs := Function.update s.jobs r o } := by
  have hself : Function.update s.jobs r o r = o := Function.update_self r o s.jobs
  have hother : ∀ r', r' ≠ r → Function.update s.jobs r o r' = s.jobs r' := fun r' hr' =>
    Function.update_of_ne hr' _ _
  refine ⟨?_, rfl⟩
  constructor
  · exact h.cursor
  · exact h.boot
  · exact h.minted
  · exact h.owner
  · exact h.session
  · intro r' j hj
    by_cases heq : r' = r
    · subst heq
      exact hjob j (hself.symm.trans hj)
    · exact h.jobs r' j ((hother r' heq).symm.trans hj)
  · intro r' task copy sessionId text hj
    by_cases heq : r' = r
    · subst heq
      exact hheld task copy sessionId text (hself.symm.trans hj)
    · exact h.held r' task copy sessionId text ((hother r' heq).symm.trans hj)
  · exact h.busy
  · intro r' hr' hended
    by_cases heq : r' = r
    · subst heq
      apply (hend hr' hended).imp_right
      rintro ⟨j, hj, hactive⟩
      exact ⟨j, hself.trans hj, hactive⟩
    · apply (h.ended r' hr' hended).imp_right
      rintro ⟨j, hj, hactive⟩
      exact ⟨j, (hother r' heq).trans hj, hactive⟩

theorem Tracked.insertBusy {s : State} (h : s.Tracked sure) (hbusy : s.busy = []) {r : Run}
    (hnamed : s.namedRun = some r) (howed : s.Owed r) : Leads sure s (s.insertBusy r) := by
  have hone : ∀ r' ∈ (s.insertBusy r).busy, r' = r := by
    intro r' hr'
    have hinsert : r' ∈ s.busy.insert r := hr'
    rw [hbusy] at hinsert
    simpa using hinsert
  refine ⟨?_, rfl⟩
  constructor
  · exact h.cursor
  · exact h.boot
  · exact h.minted
  · exact h.owner
  · exact h.session
  · exact h.jobs
  · exact h.held
  · intro r' hr'
    rw [hone r' hr']
    exact hnamed
  · intro r' hr' _
    rw [hone r' hr']
    exact .inr howed

/-- The session is given up while no run is busy. -/
theorem Tracked.clear {s : State} (h : s.Tracked sure) (hbusy : s.busy = []) :
    Leads sure s { s with session := none } := by
  refine ⟨?_, rfl⟩
  constructor
  · exact h.cursor
  · exact h.boot
  · exact h.minted
  · exact h.owner
  · exact nofun
  · exact h.jobs
  · exact h.held
  · intro r hr
    have hr : r ∈ s.busy := hr
    rw [hbusy] at hr
    cases hr
  · exact h.ended

/-- A new run, of a task. -/
theorem Tracked.mint {s : State} (h : s.Tracked sure) (hbusy : s.busy = []) {e : Event}
    (he : e.run = some s.runs) : Leads sure s ({ s with runs := s.runs + 1 }.append e) := by
  have hcases : ∀ {task r}, (s.append e).Owns task r →
      s.Owns task r ∨ (e.task = task ∧ r = s.runs) := by
    intro task r howns
    rcases owns_append howns with howns | ⟨htask, hr⟩
    · exact .inl howns
    · exact .inr ⟨htask, Option.some.inj (hr.symm.trans he)⟩
  refine ⟨?_, rfl⟩
  constructor
  · show s.cursor ≤ (s.log ++ [e]).length
    rw [List.length_append]
    exact h.cursor.trans (Nat.le_add_right _ _)
  · exact h.boot
  · intro task r howns
    rcases hcases howns with howns | ⟨-, rfl⟩
    · exact Nat.lt_succ_of_lt (h.minted task r howns)
    · exact Nat.lt_succ_self _
  · intro task task' r howns howns'
    rcases hcases howns with hold | ⟨htask, hr⟩
    · rcases hcases howns' with hold' | ⟨-, rfl⟩
      · exact h.owner task task' r hold hold'
      · exact absurd (h.minted task _ hold) (Nat.lt_irrefl _)
    · rcases hcases howns' with hold' | ⟨htask', -⟩
      · exact absurd (hr ▸ h.minted task' r hold') (Nat.lt_irrefl _)
      · exact htask.symm.trans htask'
  · exact fun x hx => OwnsRun.append (h.session x hx) e
  · exact fun r j hj => (h.jobs r j hj).append e
  · exact fun r task copy sessionId text hj =>
      OwnsRun.append (h.held r task copy sessionId text hj) e
  · exact h.busy
  · intro r hr
    have hr : r ∈ s.busy := hr
    rw [hbusy] at hr
    cases hr

theorem read_ok {s : State} {ok : Bool} {x : Session} (h : s.read ok = some x) :
    ok = true ∧ s.session = some x := by
  unfold State.read at h
  split at h
  · next hok => exact ⟨hok, h⟩
  · cases h

theorem read_some {s : State} {ok : Bool} {x : Session} (h : s.read ok = some x) :
    s.session = some x := (read_ok h).2

end State

namespace Failing

open State

variable (f : Faults) {s : State} {sure : Prop}

/-! ## Wakes -/

theorem clearWake_same (session save : Call) (id : EventId) (s : State) :
    Same s (clearWake f session save id s) := by
  unfold clearWake
  split
  · next x hread =>
      split
      · unfold State.trySave
        split
        · exact .save (read_some hread) rfl rfl
        · exact .refl s
      · exact .refl s
  · exact .refl s

theorem defer_same (call : Call) (now : DateTime) (error : String) (id : EventId) (s : State) :
    Same s (defer f call now error id s) := by
  unfold defer
  split
  · exact ⟨rfl, rfl, rfl, rfl, rfl, rfl, rfl⟩
  · exact .refl s

theorem defer_session (call : Call) (now : DateTime) (error : String) (id : EventId) (s : State) :
    (defer f call now error id s).session = s.session := by
  unfold defer
  split <;> rfl

theorem deferSessionWake_same (now : DateTime) (reason : String) (x : Session) (s : State) :
    Same s (deferSessionWake f now reason x s) := by
  unfold deferSessionWake
  split
  · exact (defer_same f _ now reason _ s).trans (clearWake_same f _ _ _ _)
  · exact .refl s

/-! ## Starting a turn -/

theorem openTask_leads (h : s.Tracked sure) : Leads sure s s.openTask := by
  unfold State.openTask
  split
  · exact h.leads
  · have hsame : Same s { s with tasks := s.tasks + 1 } := ⟨rfl, rfl, rfl, rfl, rfl, rfl, rfl⟩
    exact (hsame.leads h).trans ((hsame.tracked h).append nofun)

/-- What a turn is submitted to: the session's run, and no run is busy. -/
structure Submits (sure : Prop) (s t : State) (x : Option Session) : Prop where
  leads : Leads sure s t
  busy : t.busy = []
  session : ∀ y, x = some y → t.session = some y ∧ y.run ≠ none

theorem submitMessage_submits (h : s.Tracked sure) (hbusy : s.busy = []) {x : Session}
    (hx : s.session = some x) (hrun : x.run ≠ none) :
    Submits sure s (submitMessage f x s).1 (submitMessage f x s).2 := by
  have hown : ∀ r, x.run = some r → s.Owns x.task r := h.session x hx
  unfold submitMessage
  split
  · refine ⟨h.tryAppend _ hown, (tryAppend_busy _ _ s).trans hbusy, fun y hy => ?_⟩
    dsimp only at hy
    split at hy
    · obtain rfl := Option.some.inj hy
      exact ⟨(tryAppend_session _ _ s).trans hx, hrun⟩
    · cases hy
  · exact ⟨h.leads, hbusy, nofun⟩

theorem submit_submits (h : s.Tracked sure) (hbusy : s.busy = []) (acceptance : Acceptance) :
    Submits sure s (submit f acceptance s).1 (submit f acceptance s).2 := by
  have hopen := openTask_leads h
  have huntaken := openTask_untaken s
  have hopened : Submits sure s s.openTask none := ⟨hopen, huntaken.busy.trans hbusy, nofun⟩
  unfold submit
  dsimp only
  split
  · exact ⟨h.leads, hbusy, nofun⟩
  split
  · split
    · exact ⟨h.leads, hbusy, nofun⟩
    · exact hopened
  split
  · exact hopened
  split
  · split
    · -- a new run
      have hmint := hopen.tracked.mint (huntaken.busy.trans hbusy)
        (e := ⟨s.turnSession.task, s.newRun.run, .runStarted, ""⟩)
        (congrArg some huntaken.runs.symm)
      rw [huntaken.runs] at hmint
      have hnew := hopen.trans hmint
      split
      · have hown : OwnsRun ({ s.openTask with runs := s.runs + 1 }.append
            ⟨s.turnSession.task, s.newRun.run, .runStarted, ""⟩) s.newRun := fun r hr =>
          ⟨_, List.mem_append_right _ List.mem_cons_self, rfl, hr⟩
        have hsave := hnew.tracked.save hown (by
          intro r hr
          have hr : r ∈ s.openTask.busy := hr
          rw [huntaken.busy, hbusy] at hr
          cases hr)
        have hmessage := submitMessage_submits f hsave.tracked (huntaken.busy.trans hbusy)
          (x := s.newRun) rfl (by simp [newRun])
        exact ⟨(hnew.trans hsave).trans hmessage.leads, hmessage.busy, hmessage.session⟩
      · exact ⟨hnew, huntaken.busy.trans hbusy, nofun⟩
    · exact hopened
  · next hkept =>
      obtain ⟨hrun, -⟩ := not_or.mp hkept
      refine submitMessage_submits f h hbusy ?_ hrun
      unfold turnSession at hrun ⊢
      cases hs : s.session with
      | none =>
          rw [hs] at hrun
          exact absurd rfl hrun
      | some x => rfl

theorem insert_remove (hbusy : s.busy = []) (r : Run) : (s.insertBusy r).removeBusy r = s := by
  have hfilter : (s.busy.insert r).filter (fun r' => decide (r' ≠ r)) = s.busy := by
    rw [insert_filter, hbusy, List.filter_nil]
  show { s with busy := (s.busy.insert r).filter (fun r' => decide (r' ≠ r)) } = s
  rw [hfilter]

/-- The process of a turn is started, or all that may be written is that its run has failed. -/
theorem launch_cases (env : Env) (prompt : Prompt) (x : Session) (r : Run) (s : State) :
    launch f env prompt x r (s.insertBusy r) = (begun prompt x.task r s, none) ∨
      ∃ lost error, launch f env prompt x r (s.insertBusy r) =
        ((s.insertBusy r).tryAppend lost ⟨x.task, some r, .runFailed, error⟩, some error) := by
  unfold launch
  split
  · exact .inr ⟨true, _, rfl⟩
  · split
    · exact .inr ⟨true, _, rfl⟩
    · split
      · exact .inr ⟨f.lost .spawnEvent, _, rfl⟩
      · exact .inl rfl

theorem begun_leads (h : s.Tracked sure) (hbusy : s.busy = []) {x : Session} {r : Run}
    (hx : s.session = some x) (hr : x.run = some r) (prompt : Prompt) :
    Leads sure s (begun prompt x.task r s) := by
  have hjobs := h.setJobs r (some ⟨x.task, .running⟩)
    (fun j hj => Option.some.inj hj ▸ h.session x hx r hr)
    (fun task copy sessionId text hj => by cases hj) (fun _ _ => .inr ⟨_, rfl, trivial⟩)
  have hinsert := hjobs.tracked.insertBusy hbusy ((namedRun_eq hx).trans hr)
    ⟨_, Function.update_self r _ s.jobs, trivial⟩
  exact (hjobs.trans hinsert).trans ((Same.note (.turn r prompt) _).leads hinsert.tracked)

theorem appendStartFailure_leads (h : s.Tracked sure) {x : Session} (hx : s.OwnsRun x)
    (read write : Call) (error : String) :
    Leads sure s (appendStartFailure f read write x error s) := by
  unfold appendStartFailure
  split
  · next run hrun =>
      split
      · exact h.leads
      · refine h.tryAppend _ fun r hr => hx r ?_
        exact hrun.trans hr
  · exact h.leads

/-- A turn that could not be started is not busy. -/
theorem unstarted_leads (h : s.Tracked sure) (hbusy : s.busy = []) {x : Session} {r : Run}
    (hx : s.session = some x) (hr : x.run = some r) (lost : Bool) (error : String) :
    Leads sure s (appendStartFailure f .startEvents .startEvent x error
      (((s.insertBusy r).tryAppend lost ⟨x.task, some r, .runFailed, error⟩).removeBusy r)) := by
  have hcomm : ((s.insertBusy r).tryAppend lost ⟨x.task, some r, .runFailed, error⟩).removeBusy r =
      s.tryAppend lost ⟨x.task, some r, .runFailed, error⟩ := by
    cases lost with
    | true => exact insert_remove hbusy r
    | false => exact congrArg (State.append · _) (insert_remove hbusy r)
  have hown : s.OwnsRun x := h.session x hx
  have hfailed : Leads sure s (s.tryAppend lost ⟨x.task, some r, .runFailed, error⟩) :=
    h.tryAppend lost fun r' hr' => hown r' (hr.trans hr')
  rw [hcomm]
  refine hfailed.trans (appendStartFailure_leads f hfailed.tracked ?_ _ _ _)
  cases lost with
  | true => exact hown
  | false => exact OwnsRun.append hown _

theorem startTurn_leads (h : s.Tracked sure) (hbusy : s.busy = []) (env : Env) (prompt : Prompt) :
    Leads sure s (startTurn f env prompt s).1 := by
  have hsubmits := submit_submits f h hbusy env.acceptance
  unfold startTurn
  generalize hsubmit : submit f env.acceptance s = result at hsubmits ⊢
  obtain ⟨t, _ | x⟩ := result
  · exact hsubmits.leads
  · obtain ⟨hx, hrun⟩ := hsubmits.session x rfl
    obtain ⟨r, hr⟩ := Option.ne_none_iff_exists'.mp hrun
    have ht := hsubmits.leads.tracked
    apply hsubmits.leads.trans
    dsimp only
    rw [hr]
    dsimp only
    cases env.settings with
    | some error =>
        dsimp only
        rw [insert_remove hsubmits.busy]
        exact ht.tryAppend _ fun r' hr' => ht.session x hx r' (hr.trans hr')
    | none =>
        dsimp only
        rcases launch_cases f env prompt x r t with hlaunch | ⟨lost, error, hlaunch⟩
        · rw [hlaunch]
          exact begun_leads ht hsubmits.busy hx hr prompt
        · rw [hlaunch]
          exact unstarted_leads f ht hsubmits.busy hx hr lost error

/-! ## The steps of the output loop -/

theorem trySave_same {x y : Session} (hx : s.session = some x) (htask : y.task = x.task)
    (hrun : y.run = x.run) (ok : Bool) : Same s (s.trySave ok y) := by
  unfold State.trySave
  split
  · exact .save hx htask hrun
  · exact .refl s

theorem abandonFollowUp_leads (h : s.Tracked sure) (error : String) :
    Leads sure s (abandonFollowUp f error s) := by
  unfold abandonFollowUp
  split
  · next current hread =>
      have hcurrent := read_some hread
      have hfailure : ∀ {t : State}, t.session = some current → Leads sure s t →
          Leads sure s (t.trySave (f.ok .saveAbandoned)
            { current with pendingFollowUp := none, followUpInProgress := false }) :=
        fun ht hleads => hleads.trans ((trySave_same (y := { current with
          pendingFollowUp := none
          followUpInProgress := false }) ht rfl rfl _).leads hleads.tracked)
      dsimp only
      split
      · refine hfailure ?_ (appendStartFailure_leads f h (h.session current hcurrent) _ _ error)
        unfold appendStartFailure State.tryAppend
        split
        · split
          · exact hcurrent
          · split <;> exact hcurrent
        · exact hcurrent
      · exact hfailure hcurrent h.leads
  · exact h.leads

theorem startFollowUp_leads (h : s.Tracked sure) (env : Env) :
    Leads sure s (startFollowUp f env s) := by
  unfold startFollowUp
  split
  · exact h.leads
  · next hbusy =>
      have hbusy := not_not.mp hbusy
      split
      · exact h.leads
      · next x hread =>
          split
          · exact h.leads
          · next b hb =>
              split
              · have hsave := Same.save (read_some hread)
                  (y := { x with pendingFollowUp := none, followUpInProgress := true }) rfl rfl
                have hstart := startTurn_leads f (hsave.tracked h) hbusy env (.followUp b)
                have hleads := (hsave.leads h).trans hstart
                have hfailed : ∀ (error reason : String) (y : Session) {t : State}, Leads sure s t →
                    Leads sure s (deferSessionWake f env.now reason y
                      ((abandonFollowUp f error t).note (.dropped b .startFailed))) := by
                  intro error reason y t ht
                  have habandon := ht.trans (abandonFollowUp_leads f ht.tracked error)
                  have hnote := Same.note (.dropped b .startFailed) (abandonFollowUp f error t)
                  have hsame := hnote.trans (deferSessionWake_same f env.now reason y _)
                  exact habandon.trans (hsame.leads habandon.tracked)
                dsimp only
                split
                · next t heq =>
                    rw [heq] at hleads
                    exact hleads
                · next t error heq =>
                    rw [heq] at hleads
                    exact hfailed _ _ _ hleads
                · next t heq =>
                    rw [heq] at hleads
                    exact hfailed _ _ _ hleads
              · exact h.leads

theorem startWake_leads (h : s.Tracked sure) (channel : String) (env : Env) :
    Leads sure s (startWake f channel env s) := by
  unfold startWake
  split
  · exact h.leads
  · next hbusy =>
      split
      · exact h.leads
      · next id _ =>
          have hsubmits := submit_submits f h (not_not.mp hbusy) env.acceptance
          generalize submit f env.acceptance s = result at hsubmits ⊢
          obtain ⟨t, _ | x⟩ := result
          · exact hsubmits.leads.trans ((defer_same f _ _ _ _ t).leads hsubmits.leads.tracked)
          · obtain ⟨hx, hrun⟩ := hsubmits.session x rfl
            obtain ⟨r, hr⟩ := Option.ne_none_iff_exists'.mp hrun
            have ht := hsubmits.leads.tracked
            apply hsubmits.leads.trans
            have hsave := Same.save hx (y := { x with pendingWake := some id }) rfl rfl
            dsimp only
            generalize hy : ({ x with pendingWake := some id } : Session) = y at hsave ⊢
            have hyrun : y.run = some r := hy ▸ hr
            have hu := hsave.tracked ht
            have hdefer : ∀ (error : String) {u : State}, Leads sure (t.save y) u →
                Leads sure t (deferSessionWake f env.now error y u) := fun error u hleads =>
              (hsave.leads ht).trans
                (hleads.trans ((deferSessionWake_same f env.now error y u).leads hleads.tracked))
            rw [hr]
            dsimp only
            split
            · cases env.settings with
              | some error =>
                  dsimp only
                  rw [insert_remove (s := t.save y) hsubmits.busy]
                  exact hdefer error hu.leads
              | none =>
                  dsimp only
                  rcases launch_cases f env (.wake id) y r (t.save y) with
                    hlaunch | ⟨lost, error, hlaunch⟩
                  · rw [hlaunch]
                    exact (hsave.leads ht).trans (begun_leads hu hsubmits.busy rfl hyrun _)
                  · rw [hlaunch]
                    exact hdefer error (unstarted_leads f hu hsubmits.busy rfl hyrun lost error)
            · exact (defer_same f _ _ _ _ t).leads ht

theorem reconcile_leads (h : s.Tracked sure) (now : DateTime) :
    Leads sure s (reconcile f now s) := by
  unfold reconcile
  split
  · exact h.leads
  · next x hread =>
      split
      · exact h.leads
      · next run hrun =>
          split
          · exact h.leads
          · have hsame := deferSessionWake_same f now
              "assistant process exited without a durable terminal event" x s
            have hown := h.session x (read_some hread) run hrun
            refine (hsame.leads h).trans ((hsame.tracked h).tryAppend _ fun r hr => ?_)
            obtain rfl := Option.some.inj hr
            obtain ⟨e, he, hown⟩ := hown
            exact ⟨e, hsame.log ▸ he, hown⟩

/-! ## What the user says -/

theorem clearCurrentRun_leads (h : s.Tracked sure) (hbusy : s.busy = []) (now : DateTime)
    (engine : String) : Leads sure s (clearCurrentRun f now engine s) := by
  unfold clearCurrentRun
  split
  · exact h.leads
  · next x _ =>
      have hsame := deferSessionWake_same f now "assistant configuration changed" x s
      dsimp only
      split
      · have hdrop := hsame.trans (Same.drop .reconfigured x _)
        refine (hdrop.leads h).trans ((hdrop.tracked h).save nofun fun r hr => ?_)
        rw [hdrop.busy, hbusy] at hr
        cases hr
      · exact hsame.leads h

theorem reset_leads (h : s.Tracked sure) (hbusy : s.busy = []) (now : DateTime) :
    Leads sure s (reset f now s) := by
  unfold reset
  split
  · exact h.leads
  · next x _ =>
      have hsame := deferSessionWake_same f now "conversation reset" x s
      dsimp only
      split
      · have hdrop := hsame.trans (Same.drop .conversationReset x _)
        exact (hdrop.leads h).trans ((hdrop.tracked h).clear (hdrop.busy.trans hbusy))
      · exact hsame.leads h

/-- A run's end is written as its thread goes on to a stage without an end to write. -/
theorem end_leads (h : s.Tracked sure) {r : Run} {task : Task} (stage : Stage) {e : Event}
    (hjob : s.Owns task r) (hheld : ∀ copy sessionId text, stage ≠ .holding copy sessionId text)
    (lost : Bool) (hend : e.Ends r) (hown : s.Owns e.task r)
    (hlost : lost = true → r ∈ s.busy → sure ∨ s.HasEnd r → s.EndUnread r) :
    Leads sure s ((s.tryAppend lost e).setStage r task stage) := by
  have hstage : ∀ (t : State) task' copy sessionId text,
      some (⟨task, stage⟩ : Job) = some ⟨task', .holding copy sessionId text⟩ → t.OwnsRun copy := by
    intro t task' copy sessionId text heq
    obtain ⟨-, hstage⟩ := Job.mk.inj (Option.some.inj heq)
    exact absurd hstage (hheld copy sessionId text)
  cases lost with
  | true =>
      exact h.setJobs r (some ⟨task, stage⟩) (fun j hj => Option.some.inj hj ▸ hjob) (hstage s)
        fun hbusy hended => .inl (hlost rfl hbusy hended)
  | false =>
      have happend : Leads sure s (s.append e) := h.append fun r' hr' => by
        obtain rfl := Option.some.inj (hend.1.symm.trans hr')
        exact hown
      exact happend.trans (happend.tracked.setJobs r (some ⟨task, stage⟩)
        (fun j hj => Option.some.inj hj ▸ hjob.append e) (hstage _)
        fun _ _ => .inl ((endUnread_append h).mpr (.inr hend)))

theorem stop_leads (h : s.Tracked sure) (now : DateTime)
    (hlost : f.ok .commandSession = true → f.lost .stopEvent = true → ∀ r ∈ s.busy, s.Live r →
      sure ∨ s.HasEnd r → s.EndUnread r) : Leads sure s (stop f now s) := by
  unfold stop
  split
  · exact h.leads
  · next x hread =>
      obtain ⟨hok, hx⟩ := read_ok hread
      split
      · exact h.leads
      · next run hrun =>
          split
          · next task hjob =>
              have hend := end_leads h .stopped (e := ⟨x.task, some run, .runInterrupted, ""⟩)
                (h.jobs run _ hjob) nofun (f.lost .stopEvent) ⟨rfl, rfl⟩ (h.session x hx run hrun)
                fun hl hbusy => hlost hok hl run hbusy ⟨task, hjob⟩
              have hstopped : Leads sure s
                  ({ s with jobs := Function.update s.jobs run (some ⟨task, .stopped⟩) }.tryAppend
                    (f.lost .stopEvent) ⟨x.task, some run, .runInterrupted, ""⟩) := by
                cases hl : f.lost .stopEvent <;> rw [hl] at hend <;> exact hend
              dsimp only
              split
              · have hsame := deferSessionWake_same f now "assessment stopped by user" x
                  ({ s with jobs := Function.update s.jobs run (some ⟨task, .stopped⟩) }.tryAppend
                    (f.lost .stopEvent) ⟨x.task, some run, .runInterrupted, ""⟩)
                have hdeferred := hstopped.trans (hsame.leads hstopped.tracked)
                have hremoved := hdeferred.trans (hdeferred.tracked.removeBusy run)
                split
                · have hdrop := hremoved.trans ((Same.drop .stopped x _).leads hremoved.tracked)
                  refine hdrop.trans (hdrop.tracked.save nofun fun r hr => ?_)
                  -- the session's run was the only busy one
                  rw [(Same.drop .stopped x _).busy] at hr
                  obtain ⟨hr, hne⟩ := List.mem_filter.mp hr
                  rw [hsame.busy, tryAppend_busy] at hr
                  have hnamed := (h.busy r hr).symm.trans ((namedRun_eq hx).trans hrun)
                  exact absurd (Option.some.inj hnamed) (of_decide_eq_true hne)
                · exact hremoved
              · exact hstopped
          · exact h.leads

/-- A session whose run is not busy has no busy run beside it. -/
theorem idle_nil (h : s.Tracked sure) (hidle : s.isBusy = false) : s.busy = [] := by
  rw [List.eq_nil_iff_forall_not_mem]
  exact fun r hr => idle_of_isBusy hidle r (h.busy r hr) hr

theorem handleInput_leads (h : s.Tracked sure) (text : String) (env : Env)
    (hlost : readInput text = .stop → f.ok .inputSession = true → f.ok .commandSession = true →
      f.lost .stopEvent = true → ∀ r ∈ s.busy, s.Live r → sure ∨ s.HasEnd r → s.EndUnread r) :
    Leads sure s (handleInput f text env s) := by
  have hsaved : ∀ {t : State}, (saved f s = true → Leads sure s t) →
      Leads sure s (if saved f s then t else s) := by
    intro t ht
    split
    · next hs => exact ht hs
    · exact h.leads
  have hnil : saved f s = true → s.busy = [] := by
    intro hs
    unfold saved at hs
    simp only [Bool.and_eq_true, Bool.not_eq_true'] at hs
    exact idle_nil h hs.1.1
  unfold handleInput
  split
  · next hok =>
    split
    · exact h.leads
    · next heq => exact stop_leads f h env.now (hlost heq hok)
    · next name _ =>
        have hsame : Same s { s with engine := name } := ⟨rfl, rfl, rfl, rfl, rfl, rfl, rfl⟩
        exact hsaved fun hs => (hsame.leads h).trans
          (clearCurrentRun_leads f (hsame.tracked h) (hnil hs) env.now name)
    · exact hsaved fun hs => clearCurrentRun_leads f h (hnil hs) env.now s.engine
    · split
      · exact h.leads
      · next hidle => exact reset_leads f h (idle_nil h (by simpa using hidle)) env.now
    · split
      · exact h.leads
      · next hidle => exact startTurn_leads f h (idle_nil h (by simpa using hidle)) env _
  · exact h.leads

/-! ## Replies -/

variable {Action : Type*}

theorem rejectReply_same (now : DateTime) (cause : Cause) (reason message : String) (s : State) :
    Same s (rejectReply f now cause reason message s).1 := by
  unfold rejectReply
  split
  · exact .refl s
  · next x hread =>
      have hx := read_some hread
      refine Same.trans ?_ (deferSessionWake_same f now reason _ _)
      split
      · have hdrop := Same.drop cause x s
        refine hdrop.trans (.save (x := x) ?_ rfl rfl)
        unfold State.drop
        split <;> exact hx
      · exact .refl s

theorem endProgress_same (s : State) : Same s (endProgress f s) := by
  unfold endProgress
  split
  · next x hread =>
      exact trySave_same (y := { x with followUpInProgress := false }) (read_some hread) rfl rfl _
  · exact .refl s

theorem setFollowUp_same (b : FollowUp) (s : State) : Same s (setFollowUp f b s) := by
  unfold setFollowUp
  split
  · next x hread =>
      split
      · have hx := read_some hread
        refine (Same.drop .overwritten x s).trans (.save (x := x) ?_ rfl rfl)
        unfold State.drop
        split <;> exact hx
      · exact .refl s
  · exact .refl s

theorem executeReply_same (h : Handling Action) (e : Event) (envelope : Envelope Action)
    (s : State) : Same s (executeReply f h e envelope s).1 := by
  have hnote : ∀ (c : Prop) [Decidable c] (happening : Happening),
      Same s (if c then s.note happening else s) := by
    intro c _ happening
    split
    · exact .note happening s
    · exact .refl s
  unfold executeReply
  dsimp only
  split
  · exact hnote _ _
  · exact (hnote _ _).trans (setFollowUp_same f _ _)

theorem processReply_same (parse : String → Option (Envelope Action)) (h : Handling Action)
    (e : Event) (s : State) : Same s (processReply f parse h e s).1 := by
  unfold processReply
  split
  · exact rejectReply_same f _ _ _ _ s
  · split
    · split
      · exact (Same.note _ s).trans (rejectReply_same f _ _ _ _ _)
      · exact (endProgress_same f s).trans (executeReply_same f h e _ _)
    · exact executeReply_same f h e _ s

/-! ## The ends of runs -/

theorem freeRun_leads (h : s.Tracked sure) (e : Event) : Leads sure s (freeRun e s) := by
  unfold State.freeRun
  split
  · exact h.removeBusy _
  · exact h.leads

theorem freeRun_free {e : Event} {r : Run} (hr : r ∈ (freeRun e s).busy) : e.run ≠ some r := by
  unfold State.freeRun at hr
  intro hrun
  rw [hrun] at hr
  exact absurd rfl (of_decide_eq_true (List.mem_filter.mp hr).2)

theorem drop_session {cause : Cause} {x y : Session} (hx : s.session = some y) :
    (s.drop cause x).session = some y := by
  unfold State.drop
  split <;> exact hx

/-- The session of a run that is not busy lets go of it. -/
theorem letGo_leads (h : s.Tracked sure) {e : Event} {x y : Session} (hx : s.session = some x)
    (hrun : x.run = e.run) (hfree : ∀ r ∈ s.busy, e.run ≠ some r) (hnone : y.run = none) :
    Leads sure s (s.save y) := by
  refine h.save (fun r hr => ?_) fun r hr => ?_
  · rw [hnone] at hr
    cases hr
  · have hnamed := (namedRun_eq hx).symm.trans (h.busy r hr)
    exact absurd (hrun.symm.trans hnamed) (hfree r hr)

theorem endTurn_leads (h : s.Tracked sure) {e : Event} (hfree : ∀ r ∈ s.busy, e.run ≠ some r)
    (now : DateTime) (reason : String) :
    Leads sure s (endTurn f now reason e s) ∧ (endTurn f now reason e s).busy = s.busy := by
  unfold endTurn
  split
  · exact ⟨h.leads, rfl⟩
  · next x hread =>
      have hx := read_some hread
      split
      · next hrun =>
          have hdefer : ∀ {t : State}, Same s t → t.session = some x →
              Leads sure s (if f.ok .saveEnded then (t.drop .runFailed x).save
                ⟨x.task, none, x.engine, x.providerSession, none, none, false⟩ else t) ∧
              (if f.ok .saveEnded then (t.drop .runFailed x).save
                ⟨x.task, none, x.engine, x.providerSession, none, none, false⟩ else t).busy =
                s.busy := by
            intro t hsame ht
            split
            · have hdrop := hsame.trans (Same.drop .runFailed x t)
              refine ⟨(hdrop.leads h).trans (letGo_leads (hdrop.tracked h) (drop_session ht) hrun ?_
                rfl), hdrop.busy⟩
              rw [hdrop.busy]
              exact hfree
            · exact ⟨hsame.leads h, hsame.busy⟩
          cases x.pendingWake with
          | some id =>
              exact hdefer (defer_same f .deferEnded now reason id s)
                ((defer_session f .deferEnded now reason id s).trans hx)
          | none => exact hdefer (.refl s) hx
      · exact ⟨h.leads, rfl⟩

theorem endRun_leads (h : s.Tracked sure) {e : Event} (hfree : ∀ r ∈ s.busy, e.run ≠ some r) :
    Leads sure s (endRun f e s) ∧ (endRun f e s).busy = s.busy := by
  unfold endRun State.trySave
  split
  · exact ⟨h.leads, rfl⟩
  · next x hread =>
      split
      · next hrun =>
          split
          · exact ⟨letGo_leads h (read_some hread) hrun hfree rfl, rfl⟩
          · exact ⟨h.leads, rfl⟩
      · exact ⟨h.leads, rfl⟩

/-- A handled event leaves no run busy that it ends. -/
theorem processEvent_leads (h : s.Tracked sure) (parse : String → Option (Envelope Action))
    (hd : Handling Action) (e : Event) : Leads sure s (processEvent f parse hd e s).1 ∧
      ∀ r ∈ (processEvent f parse hd e s).1.busy, ¬e.Ends r := by
  have hfree := freeRun_leads h e
  have hfreed : ∀ r ∈ (freeRun e s).busy, e.run ≠ some r := fun r hr => freeRun_free hr
  have hends : ∀ {t : State}, Leads sure (freeRun e s) t → t.busy = (freeRun e s).busy →
      Leads sure s t ∧ ∀ r ∈ t.busy, ¬e.Ends r := by
    intro t hleads hbusy
    refine ⟨hfree.trans hleads, fun r hr hend => hfreed r ?_ hend.1⟩
    rwa [← hbusy]
  have hkeeps : isTerminal e.kind = false → ∀ {t : State}, Same s t →
      Leads sure s t ∧ ∀ r ∈ t.busy, ¬e.Ends r := by
    intro hkind t hsame
    refine ⟨hsame.leads h, fun r _ hend => ?_⟩
    have hterminal := hend.2
    rw [hkind] at hterminal
    cases hterminal
  unfold processEvent
  split
  · next hkind => exact hkeeps (by rw [hkind]; rfl) (processReply_same f parse hd e s)
  · obtain ⟨hleads, hbusy⟩ := endTurn_leads f hfree.tracked hfreed hd.now e.text
    exact hends hleads hbusy
  · obtain ⟨hleads, hbusy⟩ := endTurn_leads f hfree.tracked hfreed hd.now "assessment interrupted"
    exact hends hleads hbusy
  · obtain ⟨hleads, hbusy⟩ := endRun_leads f hfree.tracked hfreed
    exact hends hleads hbusy
  · next hreply hfailed hinterrupted hcompleted =>
      refine hkeeps ?_ (.refl s)
      cases hkind : e.kind <;> first | rfl | contradiction

theorem handleEvent_leads (h : s.Tracked sure) (parse : String → Option (Envelope Action))
    (hd : Handling Action) (e : Event) : Leads sure s (handleEvent f parse hd e s) ∧
      ∀ r ∈ (handleEvent f parse hd e s).busy, ¬e.Ends r := by
  obtain ⟨hleads, hends⟩ := processEvent_leads f h parse hd e
  have hsame : Same (processEvent f parse hd e s).1 (handleEvent f parse hd e s) := by
    unfold handleEvent
    dsimp only
    split
    · exact .refl _
    · next id _ =>
        split
        · split
          · exact .refl _
          · refine Same.trans ?_ (clearWake_same f _ _ id _)
            split
            · exact ⟨rfl, rfl, rfl, rfl, rfl, rfl, rfl⟩
            · exact .refl _
        · exact (defer_same f _ _ _ id _).trans (clearWake_same f _ _ id _)
  refine ⟨hleads.trans (hsame.leads hleads.tracked), ?_⟩
  rw [hsame.busy]
  exact hends

/-! ## The output loop -/

/-- The loop goes on to a place from which the ends of busy runs are still to come. -/
theorem moved (h : s.Tracked sure) (cursor : ℕ) (phase : Phase) (hcursor : cursor ≤ s.log.length)
    (hboot : phase = .boot → cursor = 0)
    (hended : ∀ r ∈ s.busy, sure ∨ s.HasEnd r →
      { s with cursor := cursor, phase := phase }.EndUnread r ∨ s.Owed r) :
    { s with cursor := cursor, phase := phase }.Tracked sure := by
  constructor
  · exact hcursor
  · exact hboot
  · exact h.minted
  · exact h.owner
  · exact h.session
  · exact h.jobs
  · exact h.held
  · exact h.busy
  · exact hended

/-- A phase without an event in hand is left for another. -/
theorem passed (h : s.Tracked sure) {phase : Phase} (hunread : s.unread = s.log.drop s.cursor)
    (hphase : { s with phase := phase }.unread = s.log.drop s.cursor) (hboot : phase ≠ .boot) :
    { s with phase := phase }.Tracked sure := by
  refine moved h s.cursor phase h.cursor (fun hb => absurd hb hboot) fun r hr hended => ?_
  apply (h.ended r hr hended).imp_left
  rintro ⟨e, he, hend⟩
  rw [hunread] at he
  exact ⟨e, hphase ▸ he, hend⟩

/-- An event of the session's run is taken for the assistant's. -/
theorem isClaire_of_ends (h : s.Tracked sure) {e : Event} {r : Run} (he : e ∈ s.log)
    (hend : e.Ends r) (hr : r ∈ s.busy) (hok : f.ok .loopSession = true) : isClaire f s e = true := by
  obtain ⟨x, hx, hrun⟩ := Option.bind_eq_some_iff.mp (h.busy r hr)
  have htask := h.owner x.task e.task r (h.session x hx r hrun) ⟨e, he, rfl, hend.1⟩
  unfold isClaire State.read
  rw [hok, if_pos rfl, hx]
  simp [htask, hend.1, hrun]

/-- The loop takes the next event of those it has read. -/
theorem taken (h : s.Tracked sure) {upto : ℕ} {e : Event} (hphase : s.phase = .events upto)
    (hnext : s.log[s.cursor]? = some e)
    (htaken : f.ok .loopSession = false → ∀ r ∈ s.busy, e.Ends r →
      s.Owed r ∨ ∃ e' ∈ s.log.drop (s.cursor + 1), e'.Ends r) :
    { s with
      cursor := s.cursor + 1
      phase := if isClaire f s e then .handle upto e else .events upto }.Tracked sure := by
  obtain ⟨hlt, hget⟩ := List.getElem?_eq_some_iff.mp hnext
  have hmem : e ∈ s.log := hget ▸ List.getElem_mem hlt
  have hdrop : s.unread = e :: s.log.drop (s.cursor + 1) := by
    unfold unread
    rw [hphase, List.drop_eq_getElem_cons hlt, hget]
  refine moved h _ _ hlt (fun hboot => ?_) fun r hr hended => ?_
  · split at hboot <;> cases hboot
  · rcases h.ended r hr hended with ⟨e', he', hend⟩ | howed
    · rw [hdrop] at he'
      rcases List.mem_cons.mp he' with rfl | he'
      · cases hok : f.ok .loopSession with
        | true =>
            refine .inl ⟨e', ?_, hend⟩
            rw [isClaire_of_ends f h hmem hend hr hok, if_pos rfl]
            exact List.mem_cons_self
        | false =>
            apply (htaken hok r hr hend).symm.imp_left
            rintro ⟨e'', he'', hend'⟩
            refine ⟨e'', ?_, hend'⟩
            split
            · exact List.mem_cons_of_mem _ he''
            · exact he''
      · refine .inl ⟨e', ?_, hend⟩
        split
        · exact List.mem_cons_of_mem _ he'
        · exact he'
    · exact .inr howed

theorem output_tracked (h : s.Tracked sure) (channel : String)
    (parse : String → Option (Envelope Action)) (env : Env) (hd : Handling Action)
    (htaken : ∀ upto e, s.phase = .events upto → s.cursor < upto → s.log[s.cursor]? = some e →
      f.ok .loopSession = false → ∀ r ∈ s.busy, e.Ends r →
        s.Owed r ∨ ∃ e' ∈ s.log.drop (s.cursor + 1), e'.Ends r)
    (hbooted : s.phase = .boot → f.ok .loopCursor = true →
      ∀ r ∈ s.busy, sure ∨ s.HasEnd r → s.Owed r) :
    (output f channel parse env hd s).Tracked sure := by
  have hrest : ∀ {t : State}, Leads sure s t → (∀ upto e, s.phase ≠ .handle upto e) →
      t.unread = t.log.drop t.cursor := by
    intro t ht hphase
    unfold unread
    rw [ht.phase]
    split
    · next heq => exact absurd heq (hphase _ _)
    · rfl
  unfold output
  cases hphase : s.phase with
  | boot =>
      refine moved h _ _ ?_ nofun fun r hr hended => ?_
      · split
        · exact le_rfl
        · exact Nat.zero_le _
      · split
        · next hok => exact .inr (hbooted hphase hok r hr hended)
        · apply (h.ended r hr hended).imp_left
          rintro ⟨e, he, hend⟩
          rw [hrest h.leads (by rw [hphase]; nofun), h.boot hphase] at he
          exact ⟨e, he, hend⟩
  | read =>
      dsimp only
      split
      · exact passed h (hrest h.leads (by rw [hphase]; nofun)) rfl nofun
      · exact passed h (hrest h.leads (by rw [hphase]; nofun)) rfl nofun
  | events upto =>
      have hunread := hrest h.leads (by rw [hphase]; nofun)
      dsimp only
      split
      · exact passed h hunread rfl nofun
      · next hlt =>
        split
        · next e hnext =>
            exact taken f h hphase hnext (htaken upto e hphase (Nat.lt_of_not_le hlt) hnext)
        · exact passed h hunread rfl nofun
  | handle upto e =>
      obtain ⟨hleads, hends⟩ := handleEvent_leads f h parse hd e
      have ht := hleads.tracked
      refine moved ht (handleEvent f parse hd e s).cursor _ ht.cursor nofun
        fun r hr hended => ?_
      apply (ht.ended r hr hended).imp_left
      rintro ⟨e', he', hend⟩
      have hhand : (handleEvent f parse hd e s).unread = e :: (handleEvent f parse hd e s).log.drop
          (handleEvent f parse hd e s).cursor := by
        unfold unread
        rw [hleads.phase, hphase]
      rw [hhand] at he'
      rcases List.mem_cons.mp he' with rfl | he'
      · exact absurd hend (hends r hr)
      · exact ⟨e', he', hend⟩
  | reconcile =>
      have hleads := reconcile_leads f h env.now
      exact passed hleads.tracked (hrest hleads (by rw [hphase]; nofun)) rfl nofun
  | followUp =>
      have hleads := startFollowUp_leads f h env
      exact passed hleads.tracked (hrest hleads (by rw [hphase]; nofun)) rfl nofun
  | wake =>
      have hleads := startWake_leads f h channel env
      exact passed hleads.tracked (hrest hleads (by rw [hphase]; nofun)) rfl nofun

/-! ## The waiting threads -/

/-- A thread that has no end to write any more is done. -/
theorem removed_leads (h : s.Tracked sure) {r : Run} {j : Job} (hjob : s.jobs r = some j)
    (hover : ¬j.stage.Active) : Leads sure s (s.removeJob r) := by
  refine h.setJobs r none nofun nofun fun hr hended => (h.ended r hr hended).imp_right ?_
  rintro ⟨j', hj', hactive⟩
  obtain rfl := Option.some.inj (hjob.symm.trans hj')
  exact absurd hactive hover

/-- A thread goes on, and has still to write its end. -/
theorem staged_leads (h : s.Tracked sure) {r : Run} {task : Task} (stage : Stage)
    (hjob : s.Owns task r) (hactive : stage.Active)
    (hheld : ∀ copy sessionId text, stage = .holding copy sessionId text → s.OwnsRun copy) :
    Leads sure s (s.setStage r task stage) := by
  refine h.setJobs r (some ⟨task, stage⟩) (fun j hj => Option.some.inj hj ▸ hjob) ?_
    fun _ _ => .inr ⟨_, rfl, hactive⟩
  intro task' copy sessionId text heq
  exact hheld copy sessionId text (Job.mk.inj (Option.some.inj heq)).2

theorem exits_tracked (h : s.Tracked sure) {r : Run} {result : ProcessEnd} {t : State}
    (hstep : State.exits r result s = some t) : t.Tracked sure := by
  unfold State.exits at hstep
  split at hstep
  · next task hjob =>
      obtain rfl := Option.some.inj hstep
      exact (staged_leads h (.exited result) (h.jobs r _ hjob) trivial nofun).tracked
  · next task hjob =>
      obtain rfl := Option.some.inj hstep
      exact (removed_leads h hjob id).tracked
  · cases hstep

theorem supervise_tracked (h : s.Tracked sure) {r : Run} {t : State}
    (hstep : supervise f r s = some t)
    (halone : ∀ task copy sessionId text, s.jobs r = some ⟨task, .holding copy sessionId text⟩ →
      f.ok .saveThread = true → ∀ r' ∈ s.busy, copy.run = some r')
    (hwritten : ∀ j, s.jobs r = some j → j.stage.Ending → f.lost .threadEnd = true →
      r ∈ s.busy → sure ∨ s.HasEnd r → s.EndUnread r) : t.Tracked sure := by
  unfold supervise at hstep
  split at hstep
  · next task error hjob =>
      obtain rfl := Option.some.inj hstep
      have hown := h.jobs r _ hjob
      exact (end_leads h .ended hown nofun (f.lost .threadEnd) ⟨rfl, rfl⟩ hown
        (hwritten _ hjob trivial)).tracked
  · next task sessionId text hjob =>
      have hown := h.jobs r _ hjob
      split at hstep
      · next x hread =>
          split at hstep
          · obtain rfl := Option.some.inj hstep
            refine (staged_leads h (.holding x sessionId text) hown trivial
              fun copy sessionId' text' heq => ?_).tracked
            obtain ⟨rfl, -, -⟩ := Stage.holding.inj heq
            exact h.session x (read_some hread)
          · obtain rfl := Option.some.inj hstep
            exact (staged_leads h (.saved text) hown trivial nofun).tracked
      · obtain rfl := Option.some.inj hstep
        exact (staged_leads h (.saved text) hown trivial nofun).tracked
  · next task copy sessionId text hjob =>
      obtain rfl := Option.some.inj hstep
      have hown := h.jobs r _ hjob
      have hsave : Leads sure s (s.trySave (f.ok .saveThread)
          { copy with providerSession := sessionId }) := by
        unfold State.trySave
        split
        · next hok =>
            exact h.save (h.held r task copy sessionId text hjob)
              (halone task copy sessionId text hjob hok)
        · exact h.leads
      refine (staged_leads hsave.tracked (.saved text) ?_ trivial nofun).tracked
      unfold State.trySave
      split <;> exact hown
  · next task text hjob =>
      obtain rfl := Option.some.inj hstep
      have hown := h.jobs r _ hjob
      have hreply : Leads sure s (s.tryAppend (f.lost .threadReply)
          ⟨task, some r, .messageAssistantCompleted, text⟩) := h.tryAppend _ fun r' hr' => by
        obtain rfl := Option.some.inj hr'
        exact hown
      refine (staged_leads hreply.tracked .replied ?_ trivial nofun).tracked
      unfold State.tryAppend
      split
      · exact hown
      · exact hown.append _
  · next task hjob =>
      obtain rfl := Option.some.inj hstep
      have hown := h.jobs r _ hjob
      exact (end_leads h .ended hown nofun (f.lost .threadEnd) ⟨rfl, rfl⟩ hown
        (hwritten _ hjob trivial)).tracked
  · next task hjob =>
      obtain rfl := Option.some.inj hstep
      exact (removed_leads h hjob id).tracked
  · cases hstep

/-! ## A restart -/

theorem forgotten_tracked (h : s.Tracked sure) : (forgotten s).Tracked sure := by
  constructor
  · exact Nat.zero_le _
  · exact fun _ => rfl
  · exact h.minted
  · exact h.owner
  · exact h.session
  · exact nofun
  · exact nofun
  · exact nofun
  · exact nofun

/-- What is in memory makes no difference to a recovery. -/
theorem recover_forgotten (now : DateTime) (s : State) :
    (recover f now (forgotten s)).1 = forgotten (recover f now s).1 := by
  have hsession : (forgotten s).session = s.session := rfl
  have hsave : ∀ ok x t, (forgotten t).trySave ok x = forgotten (t.trySave ok x) := by
    intro ok x t
    cases ok <;> rfl
  have happend : ∀ lost e t, (forgotten t).tryAppend lost e = forgotten (t.tryAppend lost e) := by
    intro lost e t
    cases lost <;> rfl
  have hdefer : ∀ error id t, (forgotten t).defer now error id = forgotten (t.defer now error id) :=
    fun _ _ _ => rfl
  unfold recover
  rw [hsession]
  split
  · cases s.session with
    | none => rfl
    | some x =>
        dsimp only
        cases x.run <;> cases x.pendingWake <;> dsimp only <;>
          simp only [happend, hdefer, hsave] <;> split <;> first | rfl | (split <;> rfl)
  · rfl

theorem recover_leads (h : s.Tracked sure) (hbusy : s.busy = []) (now : DateTime) :
    Leads sure s (recover f now s).1 := by
  unfold recover
  split
  · cases hx : s.session with
    | none => exact h.leads
    | some x =>
        have hsave : ∀ {t u : State}, Leads sure s t → t.busy = [] → Same t u →
            Leads sure s (u.trySave (f.ok .saveRecovered)
              { x with run := none, pendingWake := none }) := by
          intro t u ht htbusy hu
          have hu' := ht.trans (hu.leads ht.tracked)
          unfold State.trySave
          split
          · refine hu'.trans (hu'.tracked.save nofun fun r hr => ?_)
            rw [hu.busy, htbusy] at hr
            cases hr
          · exact hu'
        have hrest : ∀ {t u : State} (c c' : Prop) [Decidable c] [Decidable c'], Leads sure s t →
            t.busy = [] → Same t u → Leads sure s (if c then (t, false) else if c' then (t, false)
              else (u.trySave (f.ok .saveRecovered) { x with run := none, pendingWake := none },
                f.ok .saveRecovered)).1 := by
          intro t u c c' _ _ ht htbusy hu
          split
          · exact ht
          · split
            · exact ht
            · exact hsave ht htbusy hu
        have hwake : ∀ {t : State} (id : EventId),
            Same t (t.defer now "hub restarted during assessment" id) := fun _ =>
          ⟨rfl, rfl, rfl, rfl, rfl, rfl, rfl⟩
        dsimp only
        cases hrun : x.run with
        | some run =>
            have hwrites := h.tryAppend (f.lost .recoverEvent)
              (e := ⟨x.task, some run, .runInterrupted, ""⟩)
              fun r hr => h.session x hx r (hrun.trans hr)
            have hwbusy := (tryAppend_busy (f.lost .recoverEvent)
              ⟨x.task, some run, .runInterrupted, ""⟩ s).trans hbusy
            cases x.pendingWake with
            | some id => exact hrest _ _ hwrites hwbusy (hwake id)
            | none => exact hrest _ _ hwrites hwbusy (.refl _)
        | none =>
            cases x.pendingWake with
            | some id => exact hrest _ _ h.leads hbusy (hwake id)
            | none => exact hrest _ _ h.leads hbusy (.refl s)
  · exact h.leads

theorem recover_tracked (h : s.Tracked sure) (now : DateTime) :
    (forgotten (recover f now s).1).Tracked sure := by
  rw [← recover_forgotten]
  exact (recover_leads f (forgotten_tracked h) rfl now).tracked

end Failing

end Stackhour.Claire
