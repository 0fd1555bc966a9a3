import Mathlib.Algebra.Group.Nat.Defs
import Mathlib.Logic.Function.Basic
import Stackhour.Lib.System

/-!
# Terminating a job

A job's slot holds the pid of its child from the spawn until the supervising thread
has waited for it. Waiting and clearing the slot are two steps, reading the slot and
signalling the pid are two more, and a pid that has been reaped may be another
process's by then.
-/

namespace Stackhour.Node

open TransitionSystem

/-- Who has a pid. -/
inductive Proc where
  | child
  | other (n : ℕ)
deriving DecidableEq

/-- Where `spawn_engine` and its wait thread are. -/
inductive Waiter where
  | unspawned
  | spawned (pid : ℕ)
  | waiting
  | waited
  | done
deriving DecidableEq

/-- Where a caller of `terminate_if_running` is: it has read a pid, or is not in the
call. -/
inductive Canceller where
  | idle
  | holding (pid : ℕ)
deriving DecidableEq

/-- What a call came to: its value, the pid that TERM was sent to, whose that pid was
at that moment, and whether the child had exited by then. -/
structure Return where
  value : Bool
  sent : Option ℕ
  owner : Option Proc
  completed : Bool

/-- The processes by pid, as long as they are not reaped, the slot of one job and the
threads that use it. `returns` is a record. -/
structure Job where
  table : ℕ → Option Proc
  exited : Bool
  waiter : Waiter
  slot : Option ℕ
  cancellers : ℕ → Canceller
  returns : List Return

/-- A step of `spawn_engine` or of its thread, of a canceller, or of the system, which
gives a free pid to another process and takes it back. -/
inductive JobLabel where
  | spawn (pid : ℕ) (fails : Bool)
  | store
  | exit
  | wait (fails : Bool)
  | clear
  | read (c : ℕ)
  | kill (c : ℕ)
  | fork (pid n : ℕ)
  | gone (pid : ℕ)

namespace Job

/-- `Pid::from_raw` of an `i32`. -/
def isPid (pid : ℕ) : Bool := decide (0 < pid ∧ pid < 2 ^ 31)

def goto (s : Job) (c : ℕ) (phase : Canceller) : Job :=
  { s with cancellers := Function.update s.cancellers c phase }

/-- What the call returns when it signals `pid`; an error of the signal is ignored. -/
def signalled (s : Job) (pid : ℕ) : Return :=
  { value := true
    sent := if isPid pid then some pid else none
    owner := s.table pid
    completed := s.exited }

def step (s : Job) : JobLabel → Option Job
  | .spawn pid fails =>
      if s.waiter ≠ .unspawned then none
      else if fails then some { s with waiter := .done }
      else if isPid pid ∧ s.table pid = none then
        some { s with
          table := Function.update s.table pid (some .child)
          waiter := .spawned pid }
      else none
  | .store =>
      match s.waiter with
      | .spawned pid => some { s with slot := some pid, waiter := .waiting }
      | _ => none
  | .exit =>
      match s.waiter with
      | .spawned _ | .waiting => if s.exited then none else some { s with exited := true }
      | _ => none
  | .wait fails =>
      match s.waiter, s.slot with
      | .waiting, some pid =>
          if fails then some { s with waiter := .waited }
          else if s.exited then
            some { s with
              table := Function.update s.table pid none
              waiter := .waited }
          else none
      | _, _ => none
  | .clear =>
      match s.waiter with
      | .waited => some { s with slot := none, waiter := .done }
      | _ => none
  | .read c =>
      match s.cancellers c with
      | .idle =>
          match s.slot with
          | some pid => some (s.goto c (.holding pid))
          | none =>
              some { s with returns := s.returns ++ [⟨false, none, none, s.exited⟩] }
      | .holding _ => none
  | .kill c =>
      match s.cancellers c with
      | .holding pid =>
          some { s.goto c .idle with returns := s.returns ++ [s.signalled pid] }
      | .idle => none
  | .fork pid n =>
      if s.table pid = none then
        some { s with table := Function.update s.table pid (some (.other n)) }
      else none
  | .gone pid =>
      match s.table pid with
      | some (.other _) => some { s with table := Function.update s.table pid none }
      | _ => none

/-- The job is new; other processes run. -/
def system : System Job JobLabel where
  init s := (∀ pid, s.table pid ≠ some .child) ∧ s.exited = false ∧ s.waiter = .unspawned ∧
    s.slot = none ∧ (∀ c, s.cancellers c = .idle) ∧ s.returns = []
  step := step

end Job

/-! ## What a call should come to -/

namespace Return

/-- TERM goes to the child, and true is returned only if it does. -/
structure OwnChild (r : Return) : Prop where
  sent : r.sent ≠ none → r.owner = some .child
  value : r.value = true → r.sent ≠ none

/-- No interruption is recorded for a child that has completed. -/
def Uncompleted (r : Return) : Prop := r.value = true → r.completed = false

end Return

namespace Job

/-- No caller is between its read of the slot and its signal. -/
def Quiet (s : Job) : Prop := ∀ c, s.cancellers c = .idle

/-- The slot is read while the pid in it is the child's, and the child is not reaped
between a read and its signal. -/
def Unreaped (s : Job) : JobLabel → Prop
  | .read _ => ∀ pid, s.slot = some pid → s.table pid = some .child
  | .wait false => s.Quiet
  | _ => True

/-- The slot is read while the child runs, and the child does not exit between a read and
its signal. -/
def Running (s : Job) : JobLabel → Prop
  | .read _ => ∀ pid, s.slot = some pid → s.table pid = some .child ∧ s.exited = false
  | .exit => s.Quiet
  | _ => True

/-! ## Invariants -/

/-- What a caller holds is the child's pid. -/
structure Held (s : Job) : Prop where
  child : ∀ c pid, s.cancellers c = .holding pid → s.table pid = some .child
  pid : ∀ pid, s.table pid = some .child → isPid pid = true
  returns : ∀ r ∈ s.returns, r.OwnChild

theorem goto_holding {s : Job} {c d : ℕ} {phase : Canceller} {pid : ℕ}
    (h : (s.goto c phase).cancellers d = .holding pid) :
    phase = .holding pid ∨ s.cancellers d = .holding pid := by
  unfold goto at h
  dsimp only at h
  by_cases hdc : d = c
  · subst hdc
    rw [Function.update_self] at h
    exact .inl h
  · rw [Function.update_of_ne hdc] at h
    exact .inr h

theorem signalled_ownChild {s : Job} {pid : ℕ} (hchild : s.table pid = some .child)
    (hpid : isPid pid = true) : (s.signalled pid).OwnChild := by
  constructor
  · exact fun _ => hchild
  · intro _
    simp [signalled, hpid]

/-- A pid changes hands that no caller holds. -/
theorem Held.update {s t : Job} (h : s.Held) {pid : ℕ} {v : Option Proc}
    (htable : t.table = Function.update s.table pid v) (hcancellers : t.cancellers = s.cancellers)
    (hreturns : t.returns = s.returns) (hpid : v = some .child → isPid pid = true)
    (hheld : ∀ c, s.cancellers c ≠ .holding pid) : t.Held := by
  constructor
  · intro c held hc
    rw [hcancellers] at hc
    have hne : held ≠ pid := by
      rintro rfl
      exact hheld c hc
    rw [htable, Function.update_of_ne hne]
    exact h.child c held hc
  · intro q hq
    rw [htable] at hq
    by_cases hqpid : q = pid
    · subst hqpid
      rw [Function.update_self] at hq
      exact hpid hq
    · rw [Function.update_of_ne hqpid] at hq
      exact h.pid q hq
  · rw [hreturns]
    exact h.returns

/-- A caller gets or gives back a pid, and a call may return. -/
theorem Held.goto {s t : Job} (h : s.Held) {c : ℕ} {phase : Canceller} {new : List Return}
    (htable : t.table = s.table) (hcancellers : t.cancellers = (s.goto c phase).cancellers)
    (hreturns : t.returns = s.returns ++ new)
    (hphase : ∀ pid, phase = .holding pid → s.table pid = some .child)
    (hnew : ∀ r ∈ new, r.OwnChild) : t.Held := by
  constructor
  · intro d pid hd
    rw [hcancellers] at hd
    rw [htable]
    rcases goto_holding hd with heq | hold
    · exact hphase pid heq
    · exact h.child d pid hold
  · rw [htable]
    exact h.pid
  · rw [hreturns]
    intro r hr
    rcases List.mem_append.mp hr with hold | hr
    · exact h.returns r hold
    · exact hnew r hr

theorem Held.free {s : Job} (h : s.Held) {pid : ℕ} (hfree : s.table pid ≠ some .child) (c : ℕ) :
    s.cancellers c ≠ .holding pid :=
  fun hc => hfree (h.child c pid hc)

theorem quiet_free {s : Job} (h : s.Quiet) (pid c : ℕ) : s.cancellers c ≠ .holding pid := by
  rw [h c]
  exact nofun

/-- A step keeps `Held` if it reads no stale pid and reaps no child that is held. -/
theorem Held.step {s t : Job} {a : JobLabel} (h : s.Held) (ha : s.Unreaped a)
    (hs : s.step a = some t) : t.Held := by
  cases a with
  | spawn pid fails =>
      unfold Job.step at hs
      dsimp only at hs
      split at hs
      · cases hs
      · split at hs
        · obtain rfl := Option.some.inj hs
          exact ⟨h.child, h.pid, h.returns⟩
        · split at hs
          · next hfree =>
              obtain rfl := Option.some.inj hs
              have hchild : s.table pid ≠ some .child := by
                rw [hfree.2]
                exact nofun
              have hheld := h.free hchild
              exact h.update rfl rfl rfl (fun _ => hfree.1) hheld
          · cases hs
  | store =>
      unfold Job.step at hs
      dsimp only at hs
      split at hs
      · obtain rfl := Option.some.inj hs
        exact ⟨h.child, h.pid, h.returns⟩
      · cases hs
  | exit =>
      have hkept : t.table = s.table ∧ t.cancellers = s.cancellers ∧ t.returns = s.returns := by
        unfold Job.step at hs
        dsimp only at hs
        split at hs
        · split at hs
          · cases hs
          · obtain rfl := Option.some.inj hs
            exact ⟨rfl, rfl, rfl⟩
        · split at hs
          · cases hs
          · obtain rfl := Option.some.inj hs
            exact ⟨rfl, rfl, rfl⟩
        · cases hs
      obtain ⟨htable, hcancellers, hreturns⟩ := hkept
      exact ⟨by rw [htable, hcancellers]; exact h.child, by rw [htable]; exact h.pid,
        by rw [hreturns]; exact h.returns⟩
  | wait fails =>
      unfold Job.step at hs
      dsimp only at hs
      split at hs
      · split at hs
        · obtain rfl := Option.some.inj hs
          exact ⟨h.child, h.pid, h.returns⟩
        · next hnot =>
            split at hs
            · obtain rfl := Option.some.inj hs
              rw [Bool.not_eq_true] at hnot
              subst hnot
              exact h.update rfl rfl rfl nofun (quiet_free ha _)
            · cases hs
      · cases hs
  | clear =>
      unfold Job.step at hs
      dsimp only at hs
      split at hs
      · obtain rfl := Option.some.inj hs
        exact ⟨h.child, h.pid, h.returns⟩
      · cases hs
  | read c =>
      unfold Job.step at hs
      dsimp only at hs
      split at hs
      · split at hs
        · next pid hslot =>
            obtain rfl := Option.some.inj hs
            refine h.goto rfl rfl (List.append_nil _).symm (fun q hq => ?_) nofun
            obtain rfl := Canceller.holding.inj hq
            exact ha _ hslot
        · obtain rfl := Option.some.inj hs
          refine ⟨h.child, h.pid, fun r hr => ?_⟩
          rcases List.mem_append.mp hr with hold | hnew
          · exact h.returns r hold
          · rw [List.mem_singleton.mp hnew]
            exact ⟨fun hsent => absurd rfl hsent, nofun⟩
      · cases hs
  | kill c =>
      unfold Job.step at hs
      dsimp only at hs
      split at hs
      · next pid hc =>
          obtain rfl := Option.some.inj hs
          have hown := h.child c pid hc
          refine h.goto rfl rfl rfl nofun (fun r hr => ?_)
          rw [List.mem_singleton.mp hr]
          exact signalled_ownChild hown (h.pid pid hown)
      · cases hs
  | fork pid n =>
      unfold Job.step at hs
      dsimp only at hs
      split at hs
      · next hfree =>
          obtain rfl := Option.some.inj hs
          exact h.update rfl rfl rfl nofun (h.free (by rw [hfree]; exact nofun))
      · cases hs
  | gone pid =>
      unfold Job.step at hs
      dsimp only at hs
      split at hs
      · next hother =>
          obtain rfl := Option.some.inj hs
          exact h.update rfl rfl rfl nofun (h.free (by rw [hother]; exact nofun))
      · cases hs

theorem held_init {s : Job} (h : system.init s) : s.Held := by
  obtain ⟨hnone, -, -, -, hidle, hreturns⟩ := h
  constructor
  · intro c pid hc
    rw [hidle c] at hc
    cases hc
  · exact fun pid hpid => absurd hpid (hnone pid)
  · rw [hreturns]
    exact nofun

theorem held {s : Job} (h : system.Reach Unreaped s) : s.Held :=
  h.invariant (P := Held) (fun _ => held_init) (fun _ _ _ hi hok hs => hi.step hok hs)

/-! ## Children that run -/

/-- The child runs while a caller holds its pid. -/
structure Live (s : Job) : Prop extends s.Held where
  running : s.exited = true → s.Quiet
  returned : ∀ r ∈ s.returns, r.Uncompleted

/-- The calls of `terminate_if_running` move at their own steps only. -/
theorem calls_of_step {s t : Job} {a : JobLabel} (hs : s.step a = some t) :
    (t.cancellers = s.cancellers ∧ t.returns = s.returns ∧ (t.exited = s.exited ∨ a = .exit)) ∨
    (∃ c pid, a = .read c ∧ s.slot = some pid ∧ t = s.goto c (.holding pid)) ∨
    (∃ r : Return, r.value = false ∧ t = { s with returns := s.returns ++ [r] }) ∨
    ∃ c pid, s.cancellers c = .holding pid ∧
      t = { s.goto c .idle with returns := s.returns ++ [s.signalled pid] } := by
  cases a with
  | read c =>
      unfold Job.step at hs
      dsimp only at hs
      split at hs
      · split at hs
        · next pid hslot => exact .inr (.inl ⟨c, pid, rfl, hslot, (Option.some.inj hs).symm⟩)
        · exact .inr (.inr (.inl ⟨_, rfl, (Option.some.inj hs).symm⟩))
      · cases hs
  | kill c =>
      unfold Job.step at hs
      dsimp only at hs
      split at hs
      · next pid hc => exact .inr (.inr (.inr ⟨c, pid, hc, (Option.some.inj hs).symm⟩))
      · cases hs
  | exit =>
      refine .inl ?_
      unfold Job.step at hs
      dsimp only at hs
      repeat' split at hs
      all_goals cases hs
      all_goals exact ⟨rfl, rfl, .inr rfl⟩
  | spawn pid fails | store | wait fails | clear | fork pid n | gone pid =>
      refine .inl ?_
      unfold Job.step at hs
      dsimp only at hs
      repeat' split at hs
      all_goals cases hs
      all_goals exact ⟨rfl, rfl, .inl rfl⟩

/-- Reaping takes an exited child, which nobody holds. -/
theorem Live.unreaped {s t : Job} {a : JobLabel} (h : s.Live) (ha : s.Running a)
    (hs : s.step a = some t) : s.Unreaped a := by
  cases a with
  | read c => exact fun pid hslot => (ha pid hslot).1
  | wait fails =>
      cases fails with
      | true => trivial
      | false =>
          unfold Job.step at hs
          dsimp only at hs
          split at hs
          · split at hs
            · next hfails => exact absurd hfails (by decide)
            · split at hs
              · next hexited => exact h.running hexited
              · cases hs
          · cases hs
  | _ => trivial

theorem Live.step {s t : Job} {a : JobLabel} (h : s.Live) (ha : s.Running a)
    (hs : s.step a = some t) : t.Live := by
  refine ⟨h.toHeld.step (h.unreaped ha hs) hs, ?_, ?_⟩
  · rcases calls_of_step hs with ⟨hcancellers, -, hexited⟩ | hread | hfalse | hkill
    · unfold Quiet
      rw [hcancellers]
      rcases hexited with heq | rfl
      · rw [heq]
        exact h.running
      · exact fun _ => ha
    · obtain ⟨c, pid, rfl, hslot, rfl⟩ := hread
      intro hexited
      have hlive : s.exited = false := (ha pid hslot).2
      have hexited : s.exited = true := hexited
      rw [hlive] at hexited
      cases hexited
    · obtain ⟨r, -, rfl⟩ := hfalse
      exact h.running
    · obtain ⟨c, pid, -, rfl⟩ := hkill
      intro hexited d
      have hquiet := h.running hexited d
      by_cases hdc : d = c
      · subst hdc
        exact Function.update_self ..
      · exact (Function.update_of_ne hdc _ _).trans hquiet
  · rcases calls_of_step hs with ⟨-, hreturns, -⟩ | hread | hfalse | hkill
    · rw [hreturns]
      exact h.returned
    · obtain ⟨c, pid, -, -, rfl⟩ := hread
      exact h.returned
    · obtain ⟨r, hvalue, rfl⟩ := hfalse
      intro q hq
      rcases List.mem_append.mp hq with hold | hnew
      · exact h.returned q hold
      · rw [List.mem_singleton.mp hnew]
        intro htrue
        rw [hvalue] at htrue
        cases htrue
    · obtain ⟨c, pid, hc, rfl⟩ := hkill
      intro q hq
      rcases List.mem_append.mp hq with hold | hnew
      · exact h.returned q hold
      · rw [List.mem_singleton.mp hnew]
        intro _
        by_contra hexited
        rw [Bool.not_eq_false] at hexited
        rw [h.running hexited c] at hc
        cases hc

theorem live {s : Job} (h : system.Reach Running s) : s.Live := by
  refine h.invariant (P := Live) (fun s hs => ?_) (fun _ _ _ hi hok hs => hi.step hok hs)
  have hheld := held_init hs
  obtain ⟨-, -, -, -, hidle, hreturns⟩ := hs
  refine ⟨hheld, fun _ => hidle, ?_⟩
  rw [hreturns]
  exact nofun

/-- **Termination hits the job's own child.** Where no child is reaped between a read of
its slot and the signal, or between its exit and a read. And where no child exits there
either, an interrupted child had not completed. -/
theorem terminates_own_child (s : Job) :
    (system.Reach Unreaped s → ∀ r ∈ s.returns, r.OwnChild) ∧
      (system.Reach Running s → ∀ r ∈ s.returns, r.OwnChild ∧ r.Uncompleted) := by
  constructor
  · exact fun h => (held h).returns
  · exact fun h r hr => ⟨(live h).returns r hr, (live h).returned r hr⟩

/-! ## Runs -/

/-- A job at a table with no processes. -/
def fresh : Job :=
  { table := fun _ => none, exited := false, waiter := .unspawned, slot := none
    cancellers := fun _ => .idle, returns := [] }

theorem fresh_init : system.init fresh :=
  ⟨fun _ => nofun, rfl, rfl, rfl, fun _ => rfl, rfl⟩

/-- A running child is interrupted. -/
theorem terminates_own_child_sample : ∃ s, system.Reach Unreaped s ∧ system.Reach Running s ∧
    s.returns ≠ [] ∧ (∀ r ∈ s.returns, r.OwnChild) ∧
      ∀ r ∈ s.returns, r.OwnChild ∧ r.Uncompleted := by
  have hslot : ∀ pid, some 7 = some pid →
      Function.update fresh.table 7 (some Proc.child) pid = some .child := by
    rintro _ ⟨⟩
    rfl
  have hfresh : system.Reach Unreaped fresh := .start fresh_init
  have hspawned := hfresh.next (a := JobLabel.spawn 7 false) trivial rfl
  have hstored := hspawned.next (a := JobLabel.store) trivial rfl
  have hread := hstored.next (a := JobLabel.read 0) hslot rfl
  have hunreaped := hread.next (a := JobLabel.kill 0) trivial rfl
  have hfresh : system.Reach Running fresh := .start fresh_init
  have hspawned := hfresh.next (a := JobLabel.spawn 7 false) trivial rfl
  have hstored := hspawned.next (a := JobLabel.store) trivial rfl
  have hread := hstored.next (a := JobLabel.read 0) (fun pid hpid => ⟨hslot pid hpid, rfl⟩) rfl
  have hrunning := hread.next (a := JobLabel.kill 0) trivial rfl
  exact ⟨_, hunreaped, hrunning, nofun, (terminates_own_child _).1 hunreaped,
    (terminates_own_child _).2 hrunning⟩

/-- The child is reaped, its pid goes to another process, and then the slot is read. -/
theorem stranger_terminated : ¬∀ s, system.Reach Anyway s →
    ∀ r ∈ s.returns, r.OwnChild ∧ r.Uncompleted := by
  intro h
  have hreturns : (system.run fresh
      [.spawn 7 false, .store, .exit, .wait false, .fork 7 1, .read 0, .kill 0]).map Job.returns =
      some [⟨true, some 7, some (.other 1), true⟩] := rfl
  obtain ⟨t, hrun, ht⟩ := Option.map_eq_some_iff.mp hreturns
  have hr := h t (System.Reach.of_run (.start fresh_init) hrun) ⟨true, some 7, some (.other 1), true⟩
    (by rw [ht]; exact List.mem_singleton_self _)
  cases hr.1.sent nofun

end Job

end Stackhour.Node
