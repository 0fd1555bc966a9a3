import Stackhour.Claire.Tracked

/-!
# The assistant is not wedged

Once the store works and a pass over the runs has found no process left, every busy run
has an end to be handled, and when all are handled no run is busy. All of this under the
condition that no step passes over the last end of a busy run.
-/

namespace Stackhour.Claire

open Domain TransitionSystem

variable {Action : Type*}

namespace State

/-! ## The condition -/

section

variable (f : Faults) (s : State)

/-- `/stop` writes the end that it owes, or the run has not ended, or has an end unread. -/
def StopsEnd (text : String) : Prop :=
  readInput text = .stop → f.ok .inputSession = true → f.ok .commandSession = true →
    f.lost .stopEvent = true → ∀ r ∈ s.busy, s.Live r → s.HasEnd r → s.EndUnread r

/-- The loop reads the session at the last end of a busy run. -/
def TakesEnd : Prop :=
  ∀ upto e, s.phase = .events upto → s.cursor < upto → s.log[s.cursor]? = some e →
    f.ok .loopSession = false → ∀ r ∈ s.busy, e.Ends r →
      s.Owed r ∨ ∃ e' ∈ s.log.drop (s.cursor + 1), e'.Ends r

/-- The loop starts before the last end of a busy run. -/
def StartsBefore : Prop :=
  s.phase = .boot → f.ok .loopCursor = true → ∀ r ∈ s.busy, s.HasEnd r → s.Owed r

/-- The session that a thread saves names the busy run. -/
def SavesNamed (run : Run) : Prop :=
  ∀ task copy sessionId text, s.jobs run = some ⟨task, .holding copy sessionId text⟩ →
    f.ok .saveThread = true → ∀ r ∈ s.busy, copy.run = some r

/-- A thread writes the end that it owes, or the run has not ended, or has an end unread. -/
def WritesEnd (run : Run) : Prop :=
  ∀ j, s.jobs run = some j → j.stage.Ending → f.lost .threadEnd = true → run ∈ s.busy →
    s.HasEnd run → s.EndUnread run

/-- The step passes over no last end of a busy run. -/
def KeepsEnds : Label Action → Prop
  | .input text _ => StopsEnd f s text
  | .output _ _ => TakesEnd f s ∧ StartsBefore f s
  | .supervise run => SavesNamed f s run ∧ WritesEnd f s run
  | _ => True

end

/-! ## A step -/

variable {f : Faults} {s t : State} {sure : Prop} {channel : String}
  {parse : String → Option (Envelope Action)}

theorem Tracked.initial (engine : String) : (State.initial engine).Tracked sure := by
  have howns : ∀ {task r}, ¬(State.initial engine).Owns task r := by
    rintro task r ⟨e, he, -⟩
    cases he
  constructor
  · exact le_rfl
  · exact fun _ => rfl
  · exact fun task r h => absurd h howns
  · exact fun task task' r h => absurd h howns
  · exact nofun
  · exact fun r j hj => absurd hj.symm (Option.some_ne_none j)
  · exact fun r task copy sessionId text hj => absurd hj.symm (Option.some_ne_none _)
  · exact List.forall_mem_nil _
  · exact List.forall_mem_nil _

/-- Before an event is in hand, what is unread is in the log. -/
theorem EndUnread.hasEnd {r : Run} (h : s.EndUnread r) (hphase : s.phase = .boot) : s.HasEnd r := by
  obtain ⟨e, he, hend⟩ := h
  unfold unread at he
  rw [hphase] at he
  exact ⟨e, List.mem_of_mem_drop he, hend⟩

/-- Where every busy run is to have an end to be handled, the store has to work. -/
theorem Tracked.stepUp (h : s.Tracked sure) (hsure : sure → f = .clean) {l : Label Action}
    (hkeeps : KeepsEnds f s l) (hstep : Hub.stepUp channel parse s f l = some t) :
    t.Tracked sure := by
  have hended : ∀ {c : Call} {r : Run}, f.lost c = true → sure ∨ s.HasEnd r → s.HasEnd r := by
    intro c r hlost hend
    refine hend.resolve_left fun hs => ?_
    rw [hsure hs] at hlost
    cases hlost
  cases l with
  | input text env =>
      obtain rfl := Option.some.inj hstep
      refine (Failing.handleInput_leads f h text env ?_).tracked
      exact fun hstop hread hcommand hlost r hr hlive hend =>
        hkeeps hstop hread hcommand hlost r hr hlive (hended hlost hend)
  | output env hd =>
      obtain rfl := Option.some.inj hstep
      obtain ⟨htakes, hstarts⟩ := hkeeps
      refine Failing.output_tracked f h channel parse env hd htakes fun hphase hok r hr hend => ?_
      rcases h.ended r hr hend with hunread | howed
      · exact hstarts hphase hok r hr (hunread.hasEnd hphase)
      · exact howed
  | exits run result => exact Failing.exits_tracked h hstep
  | supervise run =>
      obtain ⟨hsaves, hwrites⟩ := hkeeps
      exact Failing.supervise_tracked f h hstep hsaves fun j hj hending hlost hr hend =>
        hwrites j hj hending hlost hr (hended hlost hend)
  | panel engine =>
      obtain rfl := Option.some.inj hstep
      have hsame : Same s { s with engine := engine } := ⟨rfl, rfl, rfl, rfl, rfl, rfl, rfl⟩
      exact hsame.tracked h
  | workerEnded row =>
      have hstep : workerEnded row s = some t := hstep
      unfold workerEnded at hstep
      split at hstep
      · obtain rfl := Option.some.inj hstep
        have hsame : Same s ({ s with wakes := s.wakes ++ [row] }.note (.queued row.eventId)) :=
          ⟨rfl, rfl, rfl, rfl, rfl, rfl, rfl⟩
        exact hsame.tracked h
      · cases hstep
  | restart now => cases hstep

/-! ## A pass over the runs -/

theorem hasEnd_of_durable {task : Task} {r : Run} (h : s.terminalIsDurable task r = true) :
    s.HasEnd r := by
  unfold terminalIsDurable taskEvents at h
  obtain ⟨e, he, hends⟩ := List.any_eq_true.mp h
  rw [Bool.and_eq_true, decide_eq_true_eq] at hends
  exact ⟨e, (List.mem_filter.mp (List.mem_of_mem_drop he)).1, hends⟩

/-- A pass that finds no process left gives every busy run an end to be handled. -/
theorem Tracked.reconciled (h : s.Tracked False) (hidle : ∀ r, s.jobs r = none) (now : DateTime) :
    (Failing.reconcile .clean now s).Tracked True := by
  have hnext := (Failing.reconcile_leads .clean h now).tracked
  suffices hends : ∀ r ∈ (Failing.reconcile .clean now s).busy,
      (Failing.reconcile .clean now s).EndUnread r from
    ⟨hnext.cursor, hnext.boot, hnext.minted, hnext.owner, hnext.session, hnext.jobs, hnext.held,
      hnext.busy, fun r hr _ => .inl (hends r hr)⟩
  have hwaits : ∀ r ∈ s.busy, s.HasEnd r → s.EndUnread r := by
    intro r hr hend
    apply (h.ended r hr (.inr hend)).resolve_right
    rintro ⟨j, hj, -⟩
    rw [hidle r] at hj
    cases hj
  unfold Failing.reconcile
  split
  · next hread =>
      intro r hr
      have hnamed := h.busy r hr
      unfold namedRun at hnamed
      rw [show s.session = none from hread] at hnamed
      cases hnamed
  · next x hread =>
      have hx := read_some hread
      have hnamed : ∀ r ∈ s.busy, x.run = some r := fun r hr =>
        (namedRun_eq hx).symm.trans (h.busy r hr)
      split
      · next hrun =>
          intro r hr
          exact absurd (hrun.symm.trans (hnamed r hr)) (Option.some_ne_none r).symm
      · next run hrun =>
          split
          · next hleft =>
              intro r hr
              obtain rfl := Option.some.inj (hrun.symm.trans (hnamed r hr))
              rcases hleft with hfree | hjob | ⟨-, hdurable⟩
              · exact absurd hr hfree
              · unfold isRunning at hjob
                rw [hidle run] at hjob
                cases hjob
              · exact hwaits run hr (hasEnd_of_durable hdurable)
          · have hsame := Failing.deferSessionWake_same .clean now
              "assistant process exited without a durable terminal event" x s
            intro r hr
            have hr : r ∈ (Failing.deferSessionWake .clean now
              "assistant process exited without a durable terminal event" x s).busy := hr
            rw [hsame.busy] at hr
            obtain rfl := Option.some.inj (hrun.symm.trans (hnamed r hr))
            exact (endUnread_append (hsame.tracked h)).mpr (.inr ⟨rfl, rfl⟩)

theorem Tracked.pass (h : s.Tracked False) (hphase : s.phase = .reconcile)
    (hidle : ∀ r, s.jobs r = none) (env : Env) (hd : Handling Action) :
    (Failing.output .clean channel parse env hd s).Tracked True := by
  have hsame : (Failing.reconcile .clean env.now s).phase = .reconcile :=
    (Failing.reconcile_leads .clean h env.now).phase.trans hphase
  have hnext : (Failing.output .clean channel parse env hd s) =
      { Failing.reconcile .clean env.now s with phase := .followUp } := by
    unfold Failing.output
    rw [hphase]
  rw [hnext]
  refine Failing.passed (h.reconciled hidle env.now) ?_ rfl nofun
  unfold unread
  rw [hsame]

end State

namespace Hub

variable {channel : String} {parse : String → Option (Envelope Action)} {sure : Prop}

def KeepsEnds (h : Hub) (a : Label Action × Faults) : Prop := State.KeepsEnds a.2 h.state a.1

theorem tracked_step {h k : Hub} {a : Label Action × Faults} (ht : h.state.Tracked sure)
    (hsure : sure → a.2 = .clean) (hkeeps : KeepsEnds h a)
    (hstep : step channel parse h a = some k) : k.state.Tracked sure := by
  obtain ⟨l, f⟩ := a
  unfold step at hstep
  split at hstep
  · next now _ =>
      obtain rfl := Option.some.inj hstep
      exact Failing.recover_tracked f ht now
  · split at hstep
    · obtain ⟨t, hup, rfl⟩ := Option.map_eq_some_iff.mp hstep
      exact ht.stepUp hsure hkeeps hup
    · cases hstep

theorem tracked_of_reach {h : Hub} (hreach : (system channel parse).Reach KeepsEnds h) :
    h.state.Tracked False := by
  refine hreach.invariant ?_ fun h a k ht hkeeps hstep => tracked_step ht False.elim hkeeps hstep
  rintro h ⟨engine, rfl⟩
  exact .initial engine

/-! ## Runs -/

/-- The store has worked since a pass over the runs that found no process left. -/
inductive Reconciled (channel : String) (parse : String → Option (Envelope Action))
    (ok : Hub → Label Action × Faults → Prop) : Hub → Prop
  | pass {p q : Hub} (env : Env) (hd : Handling Action)
      (hreach : (system channel parse).Reach ok p) (hphase : p.state.phase = .reconcile)
      (hidle : ∀ r, p.state.jobs r = none)
      (hstep : step channel parse p (.output env hd, .clean) = some q) :
      Reconciled channel parse ok q
  | next {p q : Hub} {l : Label Action} (h : Reconciled channel parse ok p)
      (hok : ok p (l, .clean)) (hstep : step channel parse p (l, .clean) = some q) :
      Reconciled channel parse ok q

theorem tracked_of_reconciled {h : Hub} (hrec : Reconciled channel parse KeepsEnds h) :
    h.state.Tracked True := by
  induction hrec with
  | @pass p q env hd hreach hphase hidle hstep =>
      have hstep : (if p.up then some (Hub.mk (Failing.output .clean channel parse env hd p.state) true)
          else none) = some q := hstep
      split at hstep
      · obtain rfl := Option.some.inj hstep
        exact (tracked_of_reach hreach).pass hphase hidle env hd
      · cases hstep
  | next _ hok hstep ih => exact tracked_step ih (fun _ => rfl) hok hstep

/-- No process of the channel is left, and the loop has handled the whole log. -/
structure Quiet (s : State) : Prop where
  idle : ∀ r, s.jobs r = none
  consumed : s.cursor = s.log.length
  handled : ∀ upto e, s.phase ≠ .handle upto e

/-- **No run stays busy.** -/
theorem unwedged {h : Hub} (hrec : Reconciled channel parse KeepsEnds h)
    (hquiet : Quiet h.state) : h.state.busy = [] := by
  have ht := tracked_of_reconciled hrec
  rw [List.eq_nil_iff_forall_not_mem]
  intro r hr
  rcases ht.ended r hr (.inl trivial) with ⟨e, he, -⟩ | ⟨j, hj, -⟩
  · have hnil : h.state.unread = [] := by
      unfold State.unread
      rw [hquiet.consumed, List.drop_length]
      split
      · next upto e hphase => exact absurd hphase (hquiet.handled upto e)
      · rfl
    rw [hnil] at he
    cases he
  · rw [hquiet.idle r] at hj
    cases hj

/-- The store works but for one call. -/
def failing (c : Call) : Faults := ⟨fun c' => if c' = c then .lost else .done, "disk I/O error"⟩

def waiting : Label Unit := .output (State.starting true) State.idleHandling

def idleHub : System Hub (Label Unit × Faults) := system "telegram.7" fun _ => none

set_option maxRecDepth 4096 in
/-- The end of a failed turn is lost; a pass over the runs writes one, and it is handled. -/
theorem unwedged_lost : ∃ h, Reconciled "telegram.7" (fun _ => none) (@KeepsEnds Unit) h ∧
    Quiet h.state ∧ h.state.log.length = 4 ∧ h.state.busy = [] := by
  have hpasses : ∀ {h : Hub}, h.state.phase ≠ .boot → KeepsEnds h (waiting, .clean) := fun hphase =>
    ⟨fun _ _ _ _ _ hok => (nomatch hok), fun hboot => absurd hboot hphase⟩
  have hstart : idleHub.Reach KeepsEnds ⟨State.initial "claude", true⟩ := .start ⟨_, rfl⟩
  have hturn := hstart.next (a := (Label.input "hello" (State.starting true), Faults.clean))
    (fun hstop => (nomatch hstop)) rfl
  have hexit := hturn.next (a := (Label.exits 0 (.failed "out of memory"), Faults.clean)) trivial
    rfl
  have hlost := hexit.next (a := (Label.supervise 0, failing .threadEnd))
    ⟨fun _ _ _ _ hj => (nomatch hj), fun _ _ _ _ _ hend => absurd hend (by decide)⟩ rfl
  have hgone := hlost.next (a := (Label.supervise 0, Faults.clean))
    ⟨fun _ _ _ _ hj => (nomatch hj), fun _ _ _ hlost => (nomatch hlost)⟩ rfl
  have hboot := hgone.next (a := (waiting, Faults.clean))
    ⟨fun _ _ _ _ _ hok => (nomatch hok), fun _ _ r hr hend => by
      rw [List.mem_singleton.mp hr] at hend
      exact absurd hend (by decide)⟩ rfl
  have hread := hboot.next (a := (waiting, failing .loopEvents))
    ⟨fun _ _ _ _ _ hok => (nomatch hok), fun hboot => (nomatch hboot)⟩ rfl
  have hpass := Reconciled.pass (State.starting true) State.idleHandling hread rfl
    (fun r => by cases r <;> rfl) rfl
  have hfollowUp := hpass.next (l := waiting) (hpasses nofun) rfl
  have hwake := hfollowUp.next (l := waiting) (hpasses nofun) rfl
  have hreads := hwake.next (l := waiting) (hpasses nofun) rfl
  have htakes := hreads.next (l := waiting) (hpasses nofun) rfl
  have hhandles := htakes.next (l := waiting) (hpasses nofun) rfl
  obtain ⟨h, hrec, hquiet, hlog⟩ : ∃ h, Reconciled "telegram.7" (fun _ => none) KeepsEnds h ∧
      Quiet h.state ∧ h.state.log.length = 4 :=
    ⟨_, hhandles, ⟨fun r => by cases r <;> rfl, rfl, nofun⟩, rfl⟩
  exact ⟨h, hrec, hquiet, hlog, unwedged hrec hquiet⟩

set_option maxRecDepth 4096 in
/-- The session cannot be read as the loop takes the end of the turn. -/
theorem wedged : ∃ h, Reconciled "telegram.7" (fun _ => none)
      (Anyway : Hub → Label Unit × Faults → Prop) h ∧
    Quiet h.state ∧ h.state.busy = [0] ∧ h.state.isBusy = true := by
  have hrun : ∃ p, idleHub.run ⟨State.initial "claude", true⟩
      [(.input "hello" (State.starting true), .clean), (waiting, .clean),
        (.exits 0 (.failed "out of memory"), .clean), (.supervise 0, .clean),
        (.supervise 0, .clean), (waiting, .clean), (waiting, failing .loopSession),
        (waiting, .clean)] = some p ∧ p.state.phase = .reconcile ∧
      (∀ r, p.state.jobs r = none) ∧
      ∃ q, idleHub.step p (waiting, .clean) = some q ∧ (∀ r, q.state.jobs r = none) ∧
        q.state.cursor = q.state.log.length ∧ q.state.phase = .followUp ∧
        q.state.busy = [0] ∧ q.state.isBusy = true := by
    refine ⟨_, rfl, rfl, fun r => ?_, _, rfl, fun r => ?_, rfl, rfl, rfl, rfl⟩
    · cases r <;> rfl
    · cases r <;> rfl
  obtain ⟨p, hp, hphase, hidle, q, hstep, hidle', hconsumed, hfollow, hbusy, hblocks⟩ := hrun
  refine ⟨q, .pass _ _ (.of_run (.start ⟨_, rfl⟩) hp) hphase hidle hstep, ⟨hidle', hconsumed, ?_⟩,
    hbusy, hblocks⟩
  rw [hfollow]
  exact nofun

end Hub

end Stackhour.Claire
