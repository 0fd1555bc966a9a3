import Mathlib.Data.List.Basic

/-!
# Executable transition systems

A system is a set of initial states and a partial step function. Every choice
the environment makes (which process moves, which message is lost, which call
fails) is part of the label, so a step is a function of the label and a run is
a list of labels that can be evaluated.

Safety results are stated over `Reach ok`: the states of the runs all of whose
steps meet the guard `ok`. `Anyway` is the guard that excludes nothing.
-/

namespace TransitionSystem

universe u v

/-- States `σ`, labels `α`. A step that is not enabled is `none`. -/
structure System (σ : Type u) (α : Type v) where
  init : σ → Prop
  step : σ → α → Option σ

variable {σ : Type u} {α : Type v}

/-- The guard that every step meets. -/
def Anyway : σ → α → Prop := fun _ _ => True

namespace System

variable (M : System σ α)

/-- The states reached by runs all of whose steps meet `ok`. -/
inductive Reach (ok : σ → α → Prop) : σ → Prop where
  | start {s : σ} (h : M.init s) : Reach ok s
  | next {s t : σ} {a : α} (h : Reach ok s) (hok : ok s a)
      (hstep : M.step s a = some t) : Reach ok t

/-- The state after a list of labels, if every one of them is enabled. -/
def run (s : σ) : List α → Option σ
  | [] => some s
  | a :: as => (M.step s a).bind (fun t => run t as)

variable {M}

/-- **The invariant rule.** What holds initially and is preserved by every
guarded step holds of every state reached. -/
theorem Reach.invariant {ok : σ → α → Prop} {P : σ → Prop}
    (hinit : ∀ s, M.init s → P s)
    (hstep : ∀ s a t, P s → ok s a → M.step s a = some t → P t)
    {s : σ} (h : M.Reach ok s) : P s := by
  induction h with
  | start h => exact hinit _ h
  | next _ hok hs ih => exact hstep _ _ _ ih hok hs

/-- The invariant rule with the states already known to be reached: an
invariant proved earlier may be used at the source of each step. -/
theorem Reach.invariant_reach {ok : σ → α → Prop} {P : σ → Prop}
    (hinit : ∀ s, M.init s → P s)
    (hstep : ∀ s a t, M.Reach ok s → P s → ok s a → M.step s a = some t → P t)
    {s : σ} (h : M.Reach ok s) : P s := by
  induction h with
  | start h => exact hinit _ h
  | next h hok hs ih => exact hstep _ _ _ h ih hok hs

/-- Weakening the guard only adds states. -/
theorem Reach.mono {ok ok' : σ → α → Prop} (hle : ∀ s a, ok s a → ok' s a)
    {s : σ} (h : M.Reach ok s) : M.Reach ok' s := by
  induction h with
  | start h => exact .start h
  | next _ hok hs ih => exact .next ih (hle _ _ hok) hs

/-- An evaluated run from a reached state ends in a reached state. -/
theorem Reach.of_run {s t : σ} {as : List α} (h : M.Reach Anyway s)
    (hrun : M.run s as = some t) : M.Reach Anyway t := by
  induction as generalizing s with
  | nil =>
      have hst : s = t := Option.some.inj hrun
      exact hst ▸ h
  | cons a as ih =>
      obtain ⟨u, hu, hrun⟩ := Option.bind_eq_some_iff.mp hrun
      exact ih (.next h trivial hu) hrun

/-- The same under a guard on the labels alone. -/
theorem Reach.of_labels {ok : σ → α → Prop} {s t : σ} {as : List α} (h : M.Reach ok s)
    (hok : ∀ a ∈ as, ∀ u, ok u a) (hrun : M.run s as = some t) : M.Reach ok t := by
  induction as generalizing s with
  | nil =>
      have hst : s = t := Option.some.inj hrun
      exact hst ▸ h
  | cons a as ih =>
      obtain ⟨u, hu, hrun⟩ := Option.bind_eq_some_iff.mp hrun
      exact ih (.next h (hok a List.mem_cons_self s) hu)
        (fun b hb => hok b (List.mem_cons_of_mem a hb)) hrun

/-! ## Records of a run -/

/-- The system with a record beside its state: `note` adds what a step is to be
remembered for, from the state before the step and the label. -/
def recording {γ : Type*} (M : System σ α) (empty : γ) (note : σ → γ → α → γ) :
    System (σ × γ) α where
  init s := M.init s.1 ∧ s.2 = empty
  step s a := (M.step s.1 a).map (fun t => (t, note s.1 s.2 a))

/-- A record keeps no step from happening. -/
theorem Reach.of_recording {γ : Type*} {M : System σ α} {empty : γ} {note : σ → γ → α → γ}
    {ok : σ × γ → α → Prop} {s : σ × γ} (h : (M.recording empty note).Reach ok s) :
    M.Reach Anyway s.1 := by
  induction h with
  | start h => exact .start h.1
  | next _ _ hs ih =>
      obtain ⟨t, ht, rfl⟩ := Option.map_eq_some_iff.mp hs
      exact ih.next trivial ht

end System

end TransitionSystem
