import Mathlib.Data.List.TakeWhile
import Mathlib.Logic.Function.Basic
import Stackhour.Hub.Validation
import Stackhour.Lib.System

/-!
# The agent's lock

`agent.lock` holds the pid of its owner. A process that finds it there reads the
pid, probes the process, removes a stale file and tries once more, and every one
of these is a step of its own: what is removed need not be what was read.
-/

namespace Stackhour.Agent

open TransitionSystem

/-! ## The pid in the file -/

/-- What is written: the decimal digits of the pid. -/
def pidText (pid : ℕ) : List Char := Nat.toDigits 10 pid

/-- `stored_pid` of a text: leading digits that are a positive `u32`. -/
def storedPid (text : List Char) : Option ℕ :=
  let digits := (text.dropWhile Hub.isWhitespace).takeWhile Char.isDigit
  let pid := Nat.ofDigitChars 10 digits 0
  if digits = [] ∨ 2 ^ 32 ≤ pid ∨ pid = 0 then none else some pid

theorem pidText_ne_nil (pid : ℕ) : pidText pid ≠ [] := Nat.toDigits_ne_nil

/-- A digit is no space. -/
theorem not_whitespace_of_digit {c : Char} (h : c.isDigit = true) : Hub.isWhitespace c = false := by
  have hc : '0'.toNat ≤ c.toNat ∧ c.toNat ≤ '9'.toNat := Char.isDigit_iff_toNat.mp h
  have h0 : 48 ≤ c.toNat := hc.1
  have h9 : c.toNat ≤ 57 := hc.2
  unfold Hub.isWhitespace
  simp
  omega

/-- **The pid is read back.** -/
theorem storedPid_pidText {pid : ℕ} (hpos : 0 < pid) (hlt : pid < 2 ^ 31) :
    storedPid (pidText pid) = some pid := by
  have hdigits : ∀ c ∈ pidText pid, c.isDigit = true :=
    fun c hc => Nat.isDigit_of_mem_toDigits (by decide) (by decide) hc
  have hdrop : (pidText pid).dropWhile Hub.isWhitespace = pidText pid := by
    cases htext : pidText pid with
    | nil => rfl
    | cons c cs =>
        have hc := not_whitespace_of_digit (hdigits c (htext ▸ List.mem_cons_self))
        rw [List.dropWhile_cons_of_neg (by rw [hc]; decide)]
  have htake : (pidText pid).takeWhile Char.isDigit = pidText pid :=
    List.takeWhile_eq_self_iff.mpr hdigits
  have hvalue : Nat.ofDigitChars 10 (pidText pid) 0 = pid := Nat.ofDigitChars_ten_toDigits
  unfold storedPid
  dsimp only
  rw [hdrop, htake, hvalue, if_neg]
  rintro (h | h | h)
  · exact pidText_ne_nil pid h
  · omega
  · omega

/-! ## Processes and steps -/

/-- A file that has stood at the path; no two that were created share an `id`. -/
structure LockFile where
  id : ℕ
  text : List Char
deriving DecidableEq

/-- Why `acquire` fails. -/
inductive LockError where
  | alreadyRunning (owner : ℕ)
  | contended
  | cannotCreate
  | cannotWrite
deriving DecidableEq

/-- Where a process is. `seen` records the file that was read; the code keeps
only what its text says. -/
inductive Phase where
  | idle (error : Option LockError)
  | creating (mayRetry : Bool)
  | writing (file : ℕ)
  | unstamped
  | holding (file : ℕ)
  | reading (mayRetry : Bool)
  | probing (seen : Option LockFile) (owner : ℕ) (mayRetry : Bool)
  | removing (seen : Option LockFile)
  | releasing
  | unlinking (seen : Option LockFile)
deriving DecidableEq

/-- The live processes and the file at the path. -/
structure Locks where
  procs : ℕ → Option Phase
  path : Option LockFile
  next : ℕ

/-- A step of process `p`, with what the system makes of the call: creating may
fail, a write may stop after some bytes, a probe may be inconclusive. -/
inductive LockLabel where
  | spawn (p : ℕ)
  | die (p : ℕ)
  | acquire (p : ℕ)
  | create (p : ℕ) (fails : Bool)
  | write (p : ℕ) (kept : Option ℕ)
  | read (p : ℕ) (readable : Bool)
  | probe (p : ℕ) (unsure : Bool)
  | remove (p : ℕ) (fails : Bool)
  | release (p : ℕ)

namespace Locks

def goto (s : Locks) (p : ℕ) (phase : Phase) : Locks :=
  { s with procs := Function.update s.procs p (some phase) }

/-- The file with this `id`, if it is still at the path, gets a text. -/
def stamp (s : Locks) (id : ℕ) (text : List Char) : Locks :=
  { s with path := s.path.map (fun f => if f.id = id then { f with text := text } else f) }

/-- `pid_is_alive`. -/
def isAlive (s : Locks) (pid : ℕ) (unsure : Bool) : Bool :=
  decide (pid < 2 ^ 31) && ((s.procs pid).isSome || unsure)

/-- `std::fs::remove_file`, whose error is ignored. -/
def unlink (s : Locks) (fails : Bool) : Locks := { s with path := if fails then s.path else none }

/-- What `try_acquire` does once the pid is known to be stale or missing. -/
def afterStale (mayRetry : Bool) (seen : Option LockFile) : Phase :=
  if mayRetry then .removing seen else .idle (some .contended)

def step (s : Locks) : LockLabel → Option Locks
  | .spawn p =>
      if s.procs p = none ∧ 0 < p ∧ p < 2 ^ 31 then some (s.goto p (.idle none)) else none
  | .die p => some { s with procs := Function.update s.procs p none }
  | .acquire p =>
      match s.procs p with
      | some (.idle _) => some (s.goto p (.creating true))
      | _ => none
  | .create p fails =>
      match s.procs p with
      | some (.creating mayRetry) =>
          if fails then some (s.goto p (.idle (some .cannotCreate)))
          else
            match s.path with
            | some _ => some (s.goto p (.reading mayRetry))
            | none =>
                some (({ s with path := some ⟨s.next, []⟩, next := s.next + 1 } : Locks).goto p
                  (.writing s.next))
      | _ => none
  | .write p kept =>
      match s.procs p with
      | some (.writing file) =>
          match kept with
          | none => some ((s.stamp file (pidText p)).goto p (.holding file))
          | some n => some ((s.stamp file ((pidText p).take n)).goto p .unstamped)
      | _ => none
  | .read p readable =>
      let seen := if readable then s.path else none
      match s.procs p with
      | some (.reading mayRetry) =>
          match seen.bind (fun f => storedPid f.text) with
          | some owner => some (s.goto p (.probing seen owner mayRetry))
          | none => some (s.goto p (afterStale mayRetry seen))
      | some .releasing =>
          match seen.bind (fun f => storedPid f.text) with
          | some owner => some (s.goto p (if owner ≠ p then .idle none else .unlinking seen))
          | none => some (s.goto p (.unlinking seen))
      | _ => none
  | .probe p unsure =>
      match s.procs p with
      | some (.probing seen owner mayRetry) =>
          some (s.goto p
            (if s.isAlive owner unsure then .idle (some (.alreadyRunning owner))
            else afterStale mayRetry seen))
      | _ => none
  | .remove p fails =>
      match s.procs p with
      | some (.removing _) => some ((s.unlink fails).goto p (.creating false))
      | some (.unlinking _) => some ((s.unlink fails).goto p (.idle none))
      | some .unstamped => some ((s.unlink fails).goto p (.idle (some .cannotWrite)))
      | _ => none
  | .release p =>
      match s.procs p with
      | some (.holding _) => some (s.goto p .releasing)
      | _ => none

/-- No process is about the lock yet; any file may stand at the path. -/
def system : System Locks LockLabel where
  init s := (∀ p phase, s.procs p = some phase → phase = .idle none ∧ 0 < p ∧ p < 2 ^ 31) ∧
    ∀ f, s.path = some f → f.id < s.next
  step := step

end Locks

/-- **One holder.** -/
def MutualExclusion (s : Locks) : Prop :=
  ∀ p q i j, s.procs p = some (.holding i) → s.procs q = some (.holding j) → p = q

/-- The process has created the file and writes or holds it. -/
def Locks.Owns (s : Locks) (p id : ℕ) : Prop :=
  s.procs p = some (.writing id) ∨ s.procs p = some (.holding id)

/-- The file on which a process decided. -/
def Phase.seen : Phase → Option LockFile
  | .probing seen _ _ | .removing seen | .unlinking seen => seen
  | _ => none

/-- A phase in which a process owns nothing. -/
def Phase.isQuiet : Phase → Bool
  | .writing _ | .holding _ => false
  | _ => true

/-- A process removes a file that a live process owns only if it is the one that it
read, with a pid in it. -/
def Undisturbed (s : Locks) : LockLabel → Prop
  | .remove p fails => fails = false → ∀ f, s.path = some f → ∀ q, s.Owns q f.id →
      (s.procs p).bind Phase.seen = some f ∧ f.text ≠ []
  | _ => True

namespace Locks

variable {s t : Locks}

/-! ## What a phase knows -/

/-- A file that was read with a pid in it has been written. -/
def Known (s : Locks) (seen : Option LockFile) : Prop :=
  ∀ g, seen = some g → g.id < s.next ∧ (g.text ≠ [] → ∀ q, s.procs q ≠ some (.writing g.id))

/-- What holds of a process in a phase. An owner's file is at the path; who removes
a file has found that its pid is none, dead or its own. -/
def Fine (s : Locks) (p : ℕ) : Phase → Prop
  | .writing file => s.path = some ⟨file, []⟩
  | .holding file => s.path = some ⟨file, pidText p⟩
  | .probing seen owner _ => s.Known seen ∧ ∀ g, seen = some g → storedPid g.text = some owner
  | .removing seen => s.Known seen ∧
      ∀ g, seen = some g → ∀ q, storedPid g.text = some q → s.procs q ≠ some (.holding g.id)
  | .unlinking seen => s.Known seen ∧
      ∀ g, seen = some g → ∀ q, storedPid g.text = some q → q = p
  | _ => True

structure Orderly (s : Locks) : Prop where
  pids : ∀ p phase, s.procs p = some phase → 0 < p ∧ p < 2 ^ 31
  fresh : ∀ f, s.path = some f → f.id < s.next
  single : ∀ p q i j, s.Owns p i → s.Owns q j → p = q
  fine : ∀ p phase, s.procs p = some phase → s.Fine p phase

/-- An owner's file is the one at the path. -/
theorem Orderly.path_of_owns (h : s.Orderly) {p i : ℕ} (howns : s.Owns p i) :
    ∃ f, s.path = some f ∧ f.id = i ∧ (f.text = [] ∨ f.text = pidText p) := by
  rcases howns with hp | hp
  · exact ⟨_, h.fine p _ hp, rfl, .inl rfl⟩
  · exact ⟨_, h.fine p _ hp, rfl, .inr rfl⟩

theorem Known.mono {seen : Option LockFile} (h : s.Known seen) (hnext : s.next ≤ t.next)
    (hwriting : ∀ q i, i < s.next → t.procs q = some (.writing i) → s.procs q = some (.writing i)) :
    t.Known seen := by
  intro g hg
  obtain ⟨hlt, hwritten⟩ := h g hg
  refine ⟨Nat.lt_of_lt_of_le hlt hnext, ?_⟩
  intro htext q hq
  exact hwritten htext q (hwriting q g.id hlt hq)

/-- A process keeps what it knows when the others come to own no file of before,
and the path changes for owners only. -/
theorem Fine.mono {p : ℕ} {phase : Phase} (h : s.Fine p phase) (hnext : s.next ≤ t.next)
    (hwriting : ∀ q i, i < s.next → t.procs q = some (.writing i) → s.procs q = some (.writing i))
    (hholding : ∀ q i, i < s.next → t.procs q = some (.holding i) →
      s.procs q = some (.holding i) ∨ s.procs q = some (.writing i))
    (hpath : (∃ i, phase = .writing i ∨ phase = .holding i) → t.path = s.path) :
    t.Fine p phase := by
  cases phase with
  | writing i => exact (hpath ⟨i, .inl rfl⟩).trans h
  | holding i => exact (hpath ⟨i, .inr rfl⟩).trans h
  | probing seen owner mayRetry => exact ⟨h.1.mono hnext hwriting, h.2⟩
  | removing seen =>
      refine ⟨h.1.mono hnext hwriting, ?_⟩
      intro g hg q hq hhold
      obtain ⟨hlt, hwritten⟩ := h.1 g hg
      rcases hholding q g.id hlt hhold with hsame | hbefore
      · exact h.2 g hg q hq hsame
      · refine hwritten ?_ q hbefore
        intro hnil
        rw [hnil] at hq
        cases hq
  | unlinking seen => exact ⟨h.1.mono hnext hwriting, h.2⟩
  | idle error => trivial
  | creating mayRetry => trivial
  | unstamped => trivial
  | reading mayRetry => trivial
  | releasing => trivial

/-! ## Steps -/

theorem goto_self (s : Locks) (p : ℕ) (phase : Phase) : (s.goto p phase).procs p = some phase :=
  Function.update_self ..

theorem goto_of_ne (s : Locks) {p q : ℕ} (h : q ≠ p) (phase : Phase) :
    (s.goto p phase).procs q = s.procs q :=
  Function.update_of_ne h ..

theorem goto_procs {p q : ℕ} {next phase : Phase} (h : (s.goto p next).procs q = some phase) :
    (q = p ∧ phase = next) ∨ (q ≠ p ∧ s.procs q = some phase) := by
  by_cases hqp : q = p
  · rw [hqp, goto_self] at h
    exact .inl ⟨hqp, (Option.some.inj h).symm⟩
  · rw [goto_of_ne s hqp] at h
    exact .inr ⟨hqp, h⟩

/-- A process goes on to a phase in which it owns nothing; the path may change if no
other process owns the file there. -/
theorem Orderly.goto (h : s.Orderly) {p : ℕ} (hpid : 0 < p ∧ p < 2 ^ 31) {phase : Phase}
    (hquiet : phase.isQuiet = true) (path : Option LockFile)
    (hfresh : ∀ f, path = some f → f.id < s.next)
    (hothers : ∀ q i, q ≠ p → s.Owns q i → path = s.path)
    (hfine : ({ s with path := path } : Locks).Fine p phase) :
    (({ s with path := path } : Locks).goto p phase).Orderly := by
  have hwriting : ∀ q i, (({ s with path := path } : Locks).goto p phase).procs q =
      some (.writing i) → s.procs q = some (.writing i) := by
    intro q i hq
    rcases goto_procs hq with ⟨-, rfl⟩ | ⟨-, hq⟩
    · cases hquiet
    · exact hq
  have hholding : ∀ q i, (({ s with path := path } : Locks).goto p phase).procs q =
      some (.holding i) → s.procs q = some (.holding i) := by
    intro q i hq
    rcases goto_procs hq with ⟨-, rfl⟩ | ⟨-, hq⟩
    · cases hquiet
    · exact hq
  have howns : ∀ q i, (({ s with path := path } : Locks).goto p phase).Owns q i → s.Owns q i := by
    rintro q i (hq | hq)
    · exact .inl (hwriting q i hq)
    · exact .inr (hholding q i hq)
  have hmono : ∀ {q : ℕ} {other : Phase}, ({ s with path := path } : Locks).Fine q other →
      (({ s with path := path } : Locks).goto p phase).Fine q other := fun h =>
    h.mono (Nat.le_refl _) (fun r i _ hr => hwriting r i hr)
      (fun r i _ hr => .inl (hholding r i hr)) fun _ => rfl
  constructor
  · intro q other hq
    rcases goto_procs hq with ⟨rfl, -⟩ | ⟨-, hq⟩
    · exact hpid
    · exact h.pids q other hq
  · exact hfresh
  · intro q r i j hq hr
    exact h.single q r i j (howns q i hq) (howns r j hr)
  · intro q other hq
    rcases goto_procs hq with ⟨rfl, rfl⟩ | ⟨hqp, hq⟩
    · exact hmono hfine
    · refine hmono ((h.fine q other hq).mono (Nat.le_refl _) (fun _ _ _ hr => hr)
        (fun _ _ _ hr => .inl hr) ?_)
      rintro ⟨i, rfl | rfl⟩
      · exact hothers q i hqp (.inl hq)
      · exact hothers q i hqp (.inr hq)

theorem Orderly.goto_quiet (h : s.Orderly) {p : ℕ} (hpid : 0 < p ∧ p < 2 ^ 31) {phase : Phase}
    (hquiet : phase.isQuiet = true) (hfine : s.Fine p phase) : (s.goto p phase).Orderly :=
  h.goto hpid hquiet s.path h.fresh (fun _ _ _ _ => rfl) hfine

/-- What is at the path is known to have been written, or is still empty. -/
theorem Orderly.known_path (h : s.Orderly) (readable : Bool) :
    s.Known (if readable then s.path else none) := by
  intro g hg
  have hpath : s.path = some g := by
    cases readable with
    | true => exact hg
    | false => cases hg
  refine ⟨h.fresh g hpath, ?_⟩
  intro htext q hq
  have hblank : some g = some ⟨g.id, []⟩ := hpath.symm.trans (h.fine q _ hq)
  exact htext (congrArg LockFile.text (Option.some.inj hblank))

/-- Dying. -/
theorem Orderly.die (h : s.Orderly) (p : ℕ) :
    ({ s with procs := Function.update s.procs p none } : Locks).Orderly := by
  have hprocs : ∀ {q : ℕ} {phase : Phase}, Function.update s.procs p none q = some phase →
      s.procs q = some phase := by
    intro q phase hq
    by_cases hqp : q = p
    · rw [hqp, Function.update_self] at hq
      cases hq
    · rwa [Function.update_of_ne hqp] at hq
  constructor
  · intro q phase hq
    exact h.pids q phase (hprocs hq)
  · exact h.fresh
  · intro q r i j hq hr
    refine h.single q r i j ?_ ?_
    · exact hq.imp hprocs hprocs
    · exact hr.imp hprocs hprocs
  · intro q phase hq
    exact (h.fine q phase (hprocs hq)).mono (Nat.le_refl _) (fun _ _ _ hr => hprocs hr)
      (fun _ _ _ hr => .inl (hprocs hr)) fun _ => rfl

/-- Creating the file. -/
theorem Orderly.create (h : s.Orderly) {p : ℕ} (hpid : 0 < p ∧ p < 2 ^ 31)
    (hpath : s.path = none) :
    (({ s with path := some ⟨s.next, []⟩, next := s.next + 1 } : Locks).goto p
      (.writing s.next)).Orderly := by
  -- without a file at the path nobody owns one
  have hnone : ∀ q i, ¬ s.Owns q i := by
    intro q i howns
    obtain ⟨f, hf, -⟩ := h.path_of_owns howns
    rw [hpath] at hf
    cases hf
  have howner : ∀ q i, (({ s with path := some ⟨s.next, []⟩, next := s.next + 1 } : Locks).goto p
      (.writing s.next)).Owns q i → q = p := by
    rintro q i (hq | hq)
    · rcases goto_procs hq with ⟨hqp, -⟩ | ⟨-, hq⟩
      · exact hqp
      · exact absurd (.inl hq) (hnone q i)
    · rcases goto_procs hq with ⟨hqp, -⟩ | ⟨-, hq⟩
      · exact hqp
      · exact absurd (.inr hq) (hnone q i)
  constructor
  · intro q phase hq
    rcases goto_procs hq with ⟨rfl, -⟩ | ⟨-, hq⟩
    · exact hpid
    · exact h.pids q phase hq
  · intro f hf
    obtain rfl := Option.some.inj hf
    exact Nat.lt_succ_self _
  · intro q r i j hq hr
    rw [howner q i hq, howner r j hr]
  · intro q phase hq
    rcases goto_procs hq with ⟨rfl, rfl⟩ | ⟨-, hq⟩
    · rfl
    · refine (h.fine q phase hq).mono (Nat.le_succ _) ?_ ?_ ?_
      · intro r i hi hr
        rcases goto_procs hr with ⟨-, hphase⟩ | ⟨-, hr⟩
        · -- the new file is none of those seen before
          obtain rfl : i = s.next := Phase.writing.inj hphase
          exact absurd hi (Nat.lt_irrefl _)
        · exact hr
      · intro r i _ hr
        rcases goto_procs hr with ⟨-, hphase⟩ | ⟨-, hr⟩
        · cases hphase
        · exact .inl hr
      · rintro ⟨i, rfl | rfl⟩
        · exact absurd (.inl hq) (hnone q i)
        · exact absurd (.inr hq) (hnone q i)

theorem stamp_path {i : ℕ} {before : List Char} (h : s.path = some ⟨i, before⟩)
    (text : List Char) : (s.stamp i text).path = some ⟨i, text⟩ := by
  unfold Locks.stamp
  rw [h]
  simp

/-- Writing the pid. -/
theorem Orderly.stamp (h : s.Orderly) {p i : ℕ} (hp : s.procs p = some (.writing i)) :
    ((s.stamp i (pidText p)).goto p (.holding i)).Orderly := by
  have hpath : s.path = some ⟨i, []⟩ := h.fine p _ hp
  have hstamped : (s.stamp i (pidText p)).path = some ⟨i, pidText p⟩ := stamp_path hpath _
  -- the writer was the only owner
  have halone : ∀ q j, q ≠ p → ¬ s.Owns q j :=
    fun q j hqp howns => hqp (h.single q p j i howns (.inl hp))
  have howner : ∀ q j, ((s.stamp i (pidText p)).goto p (.holding i)).Owns q j → q = p := by
    rintro q j (hq | hq)
    · rcases goto_procs hq with ⟨hqp, -⟩ | ⟨hqp, hq⟩
      · exact hqp
      · exact absurd (.inl hq) (halone q j hqp)
    · rcases goto_procs hq with ⟨hqp, -⟩ | ⟨hqp, hq⟩
      · exact hqp
      · exact absurd (.inr hq) (halone q j hqp)
  constructor
  · intro q phase hq
    rcases goto_procs hq with ⟨rfl, -⟩ | ⟨-, hq⟩
    · exact h.pids q _ hp
    · exact h.pids q phase hq
  · intro f hf
    obtain rfl := Option.some.inj (hstamped.symm.trans hf)
    exact h.fresh ⟨i, []⟩ hpath
  · intro q r j k hq hr
    rw [howner q j hq, howner r k hr]
  · intro q phase hq
    rcases goto_procs hq with ⟨rfl, rfl⟩ | ⟨hqp, hq⟩
    · exact hstamped
    · refine (h.fine q phase hq).mono (Nat.le_refl _) ?_ ?_ ?_
      · intro r j _ hr
        rcases goto_procs hr with ⟨-, hphase⟩ | ⟨-, hr⟩
        · cases hphase
        · exact hr
      · intro r j _ hr
        rcases goto_procs hr with ⟨rfl, hphase⟩ | ⟨-, hr⟩
        · obtain rfl : j = i := Phase.holding.inj hphase
          exact .inr hp
        · exact .inl hr
      · rintro ⟨j, rfl | rfl⟩
        · exact absurd (.inl hq) (halone q j hqp)
        · exact absurd (.inr hq) (halone q j hqp)

/-- **An undisturbed removal takes no file that is owned.** -/
theorem Orderly.not_owned (h : s.Orderly) {p : ℕ} {phase : Phase}
    (hphase : phase = .unstamped ∨ ∃ seen, phase = .removing seen ∨ phase = .unlinking seen)
    (hp : s.procs p = some phase)
    (hok : ∀ f, s.path = some f → ∀ q, s.Owns q f.id →
      (s.procs p).bind Phase.seen = some f ∧ f.text ≠ []) (q i : ℕ) : ¬ s.Owns q i := by
  intro howns
  obtain ⟨f, hf, rfl, htext⟩ := h.path_of_owns howns
  obtain ⟨hseen, hnonempty⟩ := hok f hf q howns
  have hpid : f.text = pidText q := htext.resolve_left hnonempty
  have hlive : 0 < q ∧ q < 2 ^ 31 := by
    rcases howns with hq | hq
    · exact h.pids q _ hq
    · exact h.pids q _ hq
  have hstored : storedPid f.text = some q := by
    rw [hpid]
    exact storedPid_pidText hlive.1 hlive.2
  -- the owner has written its pid, so that it holds the file
  have hholds : s.procs q = some (.holding f.id) := by
    rcases howns with hq | hq
    · have hblank : some f = some ⟨f.id, []⟩ := hf.symm.trans (h.fine q _ hq)
      exact absurd (congrArg LockFile.text (Option.some.inj hblank)) hnonempty
    · exact hq
  rw [hp] at hseen
  change phase.seen = some f at hseen
  have hfine := h.fine p phase hp
  rcases hphase with rfl | ⟨seen, rfl | rfl⟩
  · cases hseen
  · exact hfine.2 f hseen q hstored hholds
  · have hself : q = p := hfine.2 f hseen q hstored
    rw [hself, hp] at hholds
    cases hholds

theorem afterStale_quiet (mayRetry : Bool) (seen : Option LockFile) :
    (afterStale mayRetry seen).isQuiet = true := by
  cases mayRetry <;> rfl

theorem Fine.afterStale {p : ℕ} {seen : Option LockFile} (h : s.Fine p (.removing seen))
    (mayRetry : Bool) : s.Fine p (afterStale mayRetry seen) := by
  cases mayRetry with
  | true => exact h
  | false => trivial

/-- Reading the file. -/
theorem Orderly.read (h : s.Orderly) {p : ℕ} {readable : Bool}
    (hs : s.step (.read p readable) = some t) : t.Orderly := by
  have hknown := h.known_path readable
  unfold step at hs
  dsimp only at hs
  generalize (if readable = true then s.path else none) = seen at hs hknown
  split at hs
  · next hp =>
      have hpid := h.pids p _ hp
      split at hs
      · next owner howner =>
          obtain rfl := Option.some.inj hs
          refine h.goto_quiet hpid rfl ⟨hknown, ?_⟩
          rintro g rfl
          exact howner
      · next hnone =>
          obtain rfl := Option.some.inj hs
          refine h.goto_quiet hpid (afterStale_quiet _ _) (Fine.afterStale ⟨hknown, ?_⟩ _)
          rintro g rfl q hq
          rw [Option.bind_some, hq] at hnone
          cases hnone
  · next hp =>
      have hpid := h.pids p _ hp
      split at hs
      · next owner howner =>
          obtain rfl := Option.some.inj hs
          split
          · exact h.goto_quiet hpid rfl trivial
          · next hself =>
              refine h.goto_quiet hpid rfl ⟨hknown, ?_⟩
              rintro g rfl q hq
              rw [Option.bind_some, hq] at howner
              rw [Option.some.inj howner]
              exact not_not.mp hself
      · next hnone =>
          obtain rfl := Option.some.inj hs
          refine h.goto_quiet hpid rfl ⟨hknown, ?_⟩
          rintro g rfl q hq
          rw [Option.bind_some, hq] at hnone
          cases hnone
  · cases hs

/-- Probing the process. -/
theorem Orderly.probe (h : s.Orderly) {p : ℕ} {unsure : Bool}
    (hs : s.step (.probe p unsure) = some t) : t.Orderly := by
  unfold step at hs
  dsimp only at hs
  split at hs
  · next seen owner mayRetry hp =>
      have hpid := h.pids p _ hp
      obtain ⟨hknown, howner⟩ := h.fine p _ hp
      obtain rfl := Option.some.inj hs
      split
      · exact h.goto_quiet hpid rfl trivial
      · next hdead =>
          refine h.goto_quiet hpid (afterStale_quiet _ _) (Fine.afterStale ⟨hknown, ?_⟩ _)
          intro g hg q hq hholds
          -- the probe would have found the holder
          obtain rfl : owner = q := Option.some.inj ((howner g hg).symm.trans hq)
          apply hdead
          unfold isAlive
          rw [hholds, decide_eq_true (h.pids owner _ hholds).2]
          rfl
  · cases hs

/-- Removing the file. -/
theorem Orderly.remove (h : s.Orderly) {p : ℕ} {fails : Bool} {phase next : Phase}
    (hphase : phase = .unstamped ∨ ∃ seen, phase = .removing seen ∨ phase = .unlinking seen)
    (hp : s.procs p = some phase) (hok : Undisturbed s (.remove p fails))
    (hquiet : next.isQuiet = true) (hfine : (s.unlink fails).Fine p next) :
    ((s.unlink fails).goto p next).Orderly := by
  refine h.goto (h.pids p _ hp) hquiet (if fails then s.path else none) ?_ ?_ hfine
  · intro f hf
    split at hf
    · exact h.fresh f hf
    · cases hf
  · intro q i _ howns
    cases fails with
    | true => rfl
    | false => exact absurd howns (h.not_owned hphase hp (hok rfl) q i)

theorem step_orderly (h : s.Orderly) {a : LockLabel} (hok : Undisturbed s a)
    (hs : s.step a = some t) : t.Orderly := by
  cases a with
  | spawn p =>
      unfold step at hs
      dsimp only at hs
      split at hs
      · next hp =>
          obtain rfl := Option.some.inj hs
          exact h.goto_quiet hp.2 rfl trivial
      · cases hs
  | die p =>
      obtain rfl := Option.some.inj hs
      exact h.die p
  | acquire p =>
      unfold step at hs
      dsimp only at hs
      split at hs
      · next hp =>
          obtain rfl := Option.some.inj hs
          exact h.goto_quiet (h.pids p _ hp) rfl trivial
      · cases hs
  | create p fails =>
      unfold step at hs
      dsimp only at hs
      split at hs
      · next hp =>
          have hpid := h.pids p _ hp
          split at hs
          · obtain rfl := Option.some.inj hs
            exact h.goto_quiet hpid rfl trivial
          · split at hs
            · obtain rfl := Option.some.inj hs
              exact h.goto_quiet hpid rfl trivial
            · next hpath =>
                obtain rfl := Option.some.inj hs
                exact h.create hpid hpath
      · cases hs
  | write p kept =>
      unfold step at hs
      dsimp only at hs
      split at hs
      · next i hp =>
          split at hs
          · obtain rfl := Option.some.inj hs
            exact h.stamp hp
          · next n =>
              obtain rfl := Option.some.inj hs
              have hpath : s.path = some ⟨i, []⟩ := h.fine p _ hp
              refine h.goto (h.pids p _ hp) rfl (s.stamp i ((pidText p).take n)).path ?_ ?_ trivial
              · intro f hf
                rw [stamp_path hpath] at hf
                obtain rfl := Option.some.inj hf
                exact h.fresh ⟨i, []⟩ hpath
              · intro q j hqp howns
                exact absurd (h.single q p j i howns (.inl hp)) hqp
      · cases hs
  | read p readable => exact h.read hs
  | probe p unsure => exact h.probe hs
  | remove p fails =>
      unfold step at hs
      dsimp only at hs
      split at hs
      · next seen hp =>
          obtain rfl := Option.some.inj hs
          exact h.remove (.inr ⟨seen, .inl rfl⟩) hp hok rfl trivial
      · next seen hp =>
          obtain rfl := Option.some.inj hs
          exact h.remove (.inr ⟨seen, .inr rfl⟩) hp hok rfl trivial
      · next hp =>
          obtain rfl := Option.some.inj hs
          exact h.remove (.inl rfl) hp hok rfl trivial
      · cases hs
  | release p =>
      unfold step at hs
      dsimp only at hs
      split at hs
      · next hp =>
          obtain rfl := Option.some.inj hs
          exact h.goto_quiet (h.pids p _ hp) rfl trivial
      · cases hs

end Locks

/-- **Undisturbed, the lock excludes.** -/
theorem mutual_exclusion {s : Locks} (hreach : Locks.system.Reach Undisturbed s) :
    MutualExclusion s := by
  have horderly : s.Orderly := by
    refine hreach.invariant (P := Locks.Orderly) ?_ ?_
    · rintro s ⟨hidle, hfresh⟩
      have hnone : ∀ q i, ¬ s.Owns q i := by
        rintro q i (hq | hq)
        · cases (hidle q _ hq).1
        · cases (hidle q _ hq).1
      constructor
      · intro p phase hp
        exact (hidle p phase hp).2
      · exact hfresh
      · intro p q i j hp _
        exact absurd hp (hnone p i)
      · intro p phase hp
        rw [(hidle p phase hp).1]
        trivial
    · rintro s a t h hok hs
      exact Locks.step_orderly h hok hs
  intro p q i j hp hq
  exact horderly.single p q i j (.inr hp) (.inr hq)

/-- A lock that a dead process has left. -/
def staleLock : Locks := ⟨fun _ => none, some ⟨0, pidText 9⟩, 1⟩

theorem staleLock_init : Locks.system.init staleLock := by
  refine ⟨?_, ?_⟩
  · rintro p phase ⟨⟩
  · rintro f ⟨⟩
    decide

/-- A stale lock is taken over. -/
theorem mutual_exclusion_sample :
    ∃ s, Locks.system.run staleLock
        [.spawn 3, .acquire 3, .create 3 false, .read 3 true, .probe 3 false, .remove 3 false,
          .create 3 false, .write 3 none] = some s ∧
      s.procs 3 = some (.holding 1) ∧ MutualExclusion s := by
  have hstart : Locks.system.Reach Undisturbed staleLock := .start staleLock_init
  have hspawned := hstart.next (a := LockLabel.spawn 3) trivial rfl
  have hacquire := hspawned.next (a := LockLabel.acquire 3) trivial rfl
  have hexists := hacquire.next (a := LockLabel.create 3 false) trivial rfl
  have hread := hexists.next (a := LockLabel.read 3 true) trivial rfl
  have hdead := hread.next (a := LockLabel.probe 3 false) trivial rfl
  have hremoved := hdead.next (a := LockLabel.remove 3 false) (by
    intro _ f hf q howns
    obtain rfl := Option.some.inj hf
    exact ⟨rfl, pidText_ne_nil 9⟩) rfl
  have hcreated := hremoved.next (a := LockLabel.create 3 false) trivial rfl
  have hholds := hcreated.next (a := LockLabel.write 3 none) trivial rfl
  exact ⟨_, rfl, rfl, mutual_exclusion hholds⟩

/-- Two processes have found the same lock stale; the second one removes the lock
that the first one has taken. -/
theorem two_holders : ∃ s, Locks.system.Reach Anyway s ∧ ¬ MutualExclusion s := by
  have hrun : ∃ s, Locks.system.run staleLock
        [.spawn 3, .spawn 4, .acquire 3, .create 3 false, .read 3 true, .probe 3 false,
          .acquire 4, .create 4 false, .read 4 true, .probe 4 false,
          .remove 3 false, .create 3 false, .write 3 none,
          .remove 4 false, .create 4 false, .write 4 none] = some s ∧
      s.procs 3 = some (.holding 1) ∧ s.procs 4 = some (.holding 2) := ⟨_, rfl, rfl, rfl⟩
  obtain ⟨s, hs, h3, h4⟩ := hrun
  refine ⟨s, .of_run (.start staleLock_init) hs, ?_⟩
  intro h
  exact absurd (h 3 4 1 2 h3 h4) (by decide)

end Stackhour.Agent
