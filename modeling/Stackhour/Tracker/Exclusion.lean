import Mathlib.Data.Fintype.Basic
import Mathlib.Logic.Function.Basic
import Stackhour.Lib.System

/-!
# A restore and the servers

Servers look for the lock of a restore once, before they open the database, and a restore
looks for writers for a moment, before it moves the database aside. A connection keeps the
files it has opened, whatever becomes of their names.
-/

namespace Stackhour.Tracker

open TransitionSystem

namespace Exclusion

/-- How far a connection is with an ingest. -/
inductive Txn (ρ : Type*) where
  | idle
  | writing (row : ρ)
  | committed (row : ρ)

/-- A connection has a main file and a log open. -/
structure Conn (ρ : Type*) where
  main : ℕ
  log : ℕ
  txn : Txn ρ

inductive Server (ρ : Type*) where
  | off
  | checked
  | serving (c : Conn ρ)

/-- Where `restore_with` is. -/
inductive Phase where
  | idle
  | locked
  | looked
  | copied
  | folded
  | proved
  | swept
  | moved
  | swapped
  | done
  | failed
deriving DecidableEq

/-- The files at the names, the rows in the files, the servers and the restore; `acked` are
the rows of the ingests acknowledged since the restore has returned. -/
structure World (ι : Type*) (ρ : Type*) where
  target : Option ℕ
  log : Option ℕ
  tmp : Option ℕ
  rollback : Option ℕ
  lock : Bool
  mains : ℕ → List ρ
  logs : ℕ → List ρ
  next : ℕ
  servers : ι → Server ρ
  phase : Phase
  existed : Bool
  acked : List ρ

/-- Steps of server `i` and of the restore; a step of the restore may fail, and so may the
rename that undoes its swap. -/
inductive Label (ι : Type*) (ρ : Type*) where
  | check (i : ι)
  | connect (i : ι)
  | insert (i : ι) (row : ρ)
  | commit (i : ι)
  | ack (i : ι)
  | checkpoint (i : ι)
  | close (i : ι)
  | kill (i : ι)
  | acquire
  | look
  | copy (rows : List ρ)
  | fold
  | exclusive
  | sweep
  | moveAside
  | swap
  | finish
  | fail (undone : Bool)

variable {ι ρ : Type*}

/-- A transaction holds the write lock of a main file. -/
def Server.writes (m : ℕ) : Server ρ → Bool
  | .serving ⟨main, _, .writing _⟩ => main == m
  | _ => false

/-- A connection has a main file open. -/
def Server.serves (m : ℕ) : Server ρ → Bool
  | .serving c => c.main == m
  | _ => false

namespace World

/-- What a reader of the database at the target path finds. -/
def present (w : World ι ρ) : List ρ :=
  (w.target.map w.mains).getD [] ++ (w.log.map w.logs).getD []

/-- A checkpoint: the log is folded into the main file. -/
def foldLog (w : World ι ρ) (m l : ℕ) : World ι ρ :=
  { w with
    mains := Function.update w.mains m (w.mains m ++ w.logs l)
    logs := Function.update w.logs l [] }

/-- `open`: the main file, and an empty one where there is none. -/
def openMain (w : World ι ρ) : World ι ρ × ℕ :=
  match w.target with
  | some m => (w, m)
  | none =>
      ({ w with
          target := some w.next
          mains := Function.update w.mains w.next []
          next := w.next + 1 }, w.next)

/-- The log beside it, and an empty one where there is none. -/
def openLog (w : World ι ρ) : World ι ρ × ℕ :=
  match w.log with
  | some l => (w, l)
  | none =>
      ({ w with
          log := some w.next
          logs := Function.update w.logs w.next []
          next := w.next + 1 }, w.next)

variable [DecidableEq ι]

def set (w : World ι ρ) (i : ι) (s : Server ρ) : World ι ρ :=
  { w with servers := Function.update w.servers i s }

@[simp] theorem set_self (w : World ι ρ) (i : ι) (s : Server ρ) : (w.set i s).servers i = s :=
  Function.update_self ..

theorem set_of_ne (w : World ι ρ) {i j : ι} (h : j ≠ i) (s : Server ρ) :
    (w.set i s).servers j = w.servers j := Function.update_of_ne h ..

variable [Fintype ι]

/-- No transaction is open on the database at the target path. -/
def quiet (w : World ι ρ) : Bool :=
  match w.target with
  | none => true
  | some m => decide (∀ j, (w.servers j).writes m = false)

/-- The restore fails; a swap that has begun is undone. -/
def failRestore (w : World ι ρ) (undone : Bool) : World ι ρ :=
  let w := { w with lock := false, tmp := none, phase := .failed }
  if w.existed && undone then { w with target := w.rollback, rollback := none }
  else { w with target := none }

def step (w : World ι ρ) : Label ι ρ → Option (World ι ρ)
  | .check i =>
      match w.servers i with
      | .off => some (if w.lock then w else w.set i .checked)
      | _ => none
  | .connect i =>
      match w.servers i with
      | .checked =>
          let (w, m) := w.openMain
          let (w, l) := w.openLog
          some (w.set i (.serving ⟨m, l, .idle⟩))
      | _ => none
  | .insert i row =>
      match w.servers i with
      | .serving ⟨m, l, .idle⟩ =>
          if ∀ j, (w.servers j).writes m = false then
            some (w.set i (.serving ⟨m, l, .writing row⟩))
          else none
      | _ => none
  | .commit i =>
      match w.servers i with
      | .serving ⟨m, l, .writing row⟩ =>
          let written := { w with logs := Function.update w.logs l (w.logs l ++ [row]) }
          some (written.set i (.serving ⟨m, l, .committed row⟩))
      | _ => none
  | .ack i =>
      match w.servers i with
      | .serving ⟨m, l, .committed row⟩ =>
          let acked := if w.phase = .done then w.acked ++ [row] else w.acked
          some ({ w with acked }.set i (.serving ⟨m, l, .idle⟩))
      | _ => none
  | .checkpoint i =>
      match w.servers i with
      | .serving c => some (w.foldLog c.main c.log)
      | _ => none
  | .close i =>
      match w.servers i with
      | .serving c =>
          let others := w.set i .off
          -- the last connection to a database that was not moved removes the log
          if w.target = some c.main ∧ ∀ j, (others.servers j).serves c.main = false then
            some { others.foldLog c.main c.log with log := none }
          else some others
      | _ => none
  | .kill i => some (w.set i .off)
  | .acquire =>
      if (w.phase = .idle ∨ w.phase = .failed) ∧ w.lock = false then
        some { w with lock := true, phase := .locked }
      else none
  | .look =>
      if w.phase = .locked then some { w with existed := w.target.isSome, phase := .looked }
      else none
  | .copy rows =>
      if w.phase = .looked then
        some { w with
          tmp := some w.next
          mains := Function.update w.mains w.next rows
          next := w.next + 1
          phase := .copied }
      else none
  | .fold =>
      if w.phase = .copied ∧ w.quiet then
        let folded :=
          match w.target, w.log with
          | some m, some l => w.foldLog m l
          | _, _ => w
        some { folded with phase := .folded }
      else none
  | .exclusive =>
      if w.phase = .folded ∧ w.quiet then some { w with phase := .proved } else none
  | .sweep => if w.phase = .proved then some { w with log := none, phase := .swept } else none
  | .moveAside =>
      if w.phase = .swept then
        if w.existed then
          match w.target with
          | some m => some { w with target := none, rollback := some m, phase := .moved }
          | none => none
        else some { w with phase := .moved }
      else none
  | .swap =>
      if w.phase = .moved then some { w with target := w.tmp, tmp := none, phase := .swapped }
      else none
  | .finish =>
      if w.phase = .swapped then some { w with lock := false, phase := .done } else none
  | .fail undone =>
      match w.phase with
      | .idle | .done | .failed => none
      | .moved | .swapped => some (w.failRestore undone)
      | _ => some { w with lock := false, tmp := none, phase := .failed }

/-- Any files, no server and no restore. -/
def Init (w : World ι ρ) : Prop :=
  (∀ i, w.servers i = .off) ∧ w.phase = .idle ∧ w.lock = false ∧ w.acked = []

end World

def system (ι ρ : Type*) [DecidableEq ι] [Fintype ι] : System (World ι ρ) (Label ι ρ) where
  init := World.Init
  step := World.step

/-! ## What is acknowledged stays -/

/-- The copy takes the place of the target only while no server has a database open. -/
def Alone (w : World ι ρ) : Label ι ρ → Prop
  | .swap => ∀ i c, w.servers i ≠ .serving c
  | _ => True

/-- The swap has happened. -/
def Phase.swappedIn : Phase → Prop
  | .swapped | .done => True
  | _ => False

/-- Once the copy is in its place, every connection has the files at the names open, and
what is committed or acknowledged is in them. -/
structure Settled (w : World ι ρ) : Prop where
  bound : w.phase.swappedIn → ∀ i c, w.servers i = .serving c →
    w.target = some c.main ∧ w.log = some c.log
  committed : w.phase.swappedIn → ∀ i m l row,
    w.servers i = .serving ⟨m, l, .committed row⟩ → row ∈ w.present
  acked : w.acked = [] ∨ w.phase = .done
  kept : ∀ row ∈ w.acked, row ∈ w.present

variable {w w' : World ι ρ}

/-- Before the swap there is nothing to keep. -/
theorem Settled.early (hphase : ¬w.phase.swappedIn) (hacked : w.acked = []) : Settled w := by
  constructor
  · exact fun h => absurd h hphase
  · exact fun h => absurd h hphase
  · exact .inl hacked
  · rw [hacked]
    exact nofun

theorem Settled.acked_nil (h : Settled w) (hphase : w.phase ≠ .done) : w.acked = [] :=
  h.acked.resolve_right hphase

/-- A step that takes no row away and no file from a connection. -/
theorem Settled.grow (h : Settled w) (hservers : w'.servers = w.servers)
    (hphase : w'.phase = w.phase) (hacked : w'.acked = w.acked)
    (hbound : w.phase.swappedIn → ∀ i c, w.servers i = .serving c →
      w'.target = some c.main ∧ w'.log = some c.log)
    (hpresent : w.phase.swappedIn → ∀ row ∈ w.present, row ∈ w'.present) : Settled w' := by
  constructor
  · intro hp i c hi
    rw [hphase] at hp
    rw [hservers] at hi
    exact hbound hp i c hi
  · intro hp i m l row hi
    rw [hphase] at hp
    rw [hservers] at hi
    exact hpresent hp row (h.committed hp i m l row hi)
  · rw [hacked, hphase]
    exact h.acked
  · intro row hrow
    rw [hacked] at hrow
    rcases h.acked with hnil | hdone
    · rw [hnil] at hrow
      cases hrow
    · exact hpresent (by rw [hdone]; trivial) row (h.kept row hrow)

/-- A database that is opened is there. -/
theorem Settled.openMain (h : Settled w) :
    Settled w.openMain.1 ∧ w.openMain.1.target = some w.openMain.2 ∧
      w.openMain.1.servers = w.servers := by
  unfold World.openMain
  cases htarget : w.target with
  | some m => exact ⟨h, htarget, rfl⟩
  | none =>
      refine ⟨h.grow rfl rfl rfl (fun hp i c hi => ?_) (fun _ row hrow => ?_), rfl, rfl⟩
      · exact absurd (h.bound hp i c hi).1 (by rw [htarget]; exact nofun)
      · unfold World.present at hrow ⊢
        rw [htarget] at hrow
        exact List.mem_append_right _ hrow

theorem Settled.openLog (h : Settled w) :
    Settled w.openLog.1 ∧ w.openLog.1.log = some w.openLog.2 ∧
      w.openLog.1.target = w.target ∧ w.openLog.1.servers = w.servers := by
  unfold World.openLog
  cases hlog : w.log with
  | some l => exact ⟨h, hlog, rfl, rfl⟩
  | none =>
      refine ⟨h.grow rfl rfl rfl (fun hp i c hi => ?_) (fun _ row hrow => ?_), rfl, rfl, rfl⟩
      · exact absurd (h.bound hp i c hi).2 (by rw [hlog]; exact nofun)
      · unfold World.present at hrow ⊢
        rw [hlog] at hrow
        exact List.mem_append_left _ (by simpa using hrow)

/-- A checkpoint of a connection. -/
theorem Settled.foldLog (h : Settled w) {m l : ℕ}
    (hnames : w.phase.swappedIn → w.target = some m ∧ w.log = some l) :
    Settled (w.foldLog m l) := by
  refine h.grow rfl rfl rfl h.bound fun hp row hrow => ?_
  obtain ⟨htarget, hlog⟩ := hnames hp
  unfold World.present at hrow ⊢
  unfold World.foldLog
  rw [htarget, hlog] at hrow
  simp only [htarget, hlog, Option.map_some, Option.getD_some, Function.update_self,
    List.append_nil]
  exact hrow

/-- A step of the restore before the swap. -/
theorem Settled.advance (h : Settled w) (hbefore : w.phase ≠ .done)
    (hacked : w'.acked = w.acked) (hphase : ¬w'.phase.swappedIn) : Settled w' :=
  .early hphase (hacked.trans (h.acked_nil hbefore))

theorem Settled.failRestore (h : Settled w) (hbefore : w.phase ≠ .done) {undone : Bool} :
    Settled (w.failRestore undone) := by
  unfold World.failRestore
  dsimp only
  split
  · exact h.advance hbefore rfl id
  · exact h.advance hbefore rfl id

variable [DecidableEq ι]

/-- A step of a server that leaves the files and the phase alone. -/
theorem Settled.set (h : Settled w) (i : ι) (s : Server ρ)
    (hbound : ∀ c, s = .serving c → w.phase.swappedIn →
      w.target = some c.main ∧ w.log = some c.log)
    (hcommitted : ∀ m l row, s = .serving ⟨m, l, .committed row⟩ → w.phase.swappedIn →
      row ∈ w.present) : Settled (w.set i s) := by
  constructor
  · intro hphase j c hj
    by_cases hji : j = i
    · subst hji
      rw [World.set_self] at hj
      exact hbound c hj hphase
    · rw [World.set_of_ne w hji] at hj
      exact h.bound hphase j c hj
  · intro hphase j m l row hj
    by_cases hji : j = i
    · subst hji
      rw [World.set_self] at hj
      exact hcommitted m l row hj hphase
    · rw [World.set_of_ne w hji] at hj
      exact h.committed hphase j m l row hj
  · exact h.acked
  · exact h.kept

/-- A commit goes into the log of the connection. -/
theorem settled_commit {i : ι} {m l : ℕ} {row : ρ} (h : Settled w)
    (hi : w.servers i = .serving ⟨m, l, .writing row⟩) :
    Settled (({ w with logs := Function.update w.logs l (w.logs l ++ [row]) } : World ι ρ).set i
      (.serving ⟨m, l, .committed row⟩)) := by
  have hpresent : w.phase.swappedIn →
      ({ w with logs := Function.update w.logs l (w.logs l ++ [row]) } : World ι ρ).present =
        w.present ++ [row] := by
    intro hp
    obtain ⟨-, hlog⟩ := h.bound hp i _ hi
    unfold World.present
    simp only [hlog, Option.map_some, Option.getD_some, Function.update_self, List.append_assoc]
  have hwritten : Settled
      ({ w with logs := Function.update w.logs l (w.logs l ++ [row]) } : World ι ρ) := by
    refine h.grow rfl rfl rfl h.bound fun hp r hr => ?_
    rw [hpresent hp]
    exact List.mem_append_left _ hr
  refine hwritten.set i _ ?_ ?_
  · rintro c hc hp
    cases hc
    exact h.bound hp i ⟨m, l, .writing row⟩ hi
  · rintro m' l' r hr hp
    cases hr
    rw [hpresent hp]
    exact List.mem_append_right _ List.mem_cons_self

/-- What is acknowledged is committed. -/
theorem settled_ack {i : ι} {m l : ℕ} {row : ρ} (h : Settled w)
    (hi : w.servers i = .serving ⟨m, l, .committed row⟩) :
    Settled (({ w with acked := if w.phase = .done then w.acked ++ [row] else w.acked } :
      World ι ρ).set i (.serving ⟨m, l, .idle⟩)) := by
  have hacked : Settled
      ({ w with acked := if w.phase = .done then w.acked ++ [row] else w.acked } : World ι ρ) := by
    by_cases hdone : w.phase = .done
    · rw [if_pos hdone]
      refine ⟨h.bound, h.committed, .inr hdone, fun r hr => ?_⟩
      rcases List.mem_append.mp hr with hold | hnew
      · exact h.kept r hold
      · rw [List.mem_singleton.mp hnew]
        exact h.committed (by rw [hdone]; trivial) i m l row hi
    · rw [if_neg hdone]
      exact h
  refine hacked.set i _ ?_ nofun
  rintro c hc hp
  cases hc
  exact h.bound hp i ⟨m, l, .committed row⟩ hi

/-- The last connection folds the log it has open before it removes it. -/
theorem settled_close {i : ι} {c : Conn ρ} (h : Settled w) (hi : w.servers i = .serving c)
    (htarget : w.target = some c.main)
    (hlast : ∀ j, ((w.set i .off).servers j).serves c.main = false) :
    Settled { (w.set i .off).foldLog c.main c.log with log := none } := by
  have hoff : Settled (w.set i .off) := h.set i .off nofun nofun
  have hnone : w.phase.swappedIn → ∀ j d, (w.set i .off).servers j ≠ .serving d := by
    intro hp j d hj
    have hserves := hlast j
    rw [hj] at hserves
    have hmain : some c.main = some d.main := htarget.symm.trans (hoff.bound hp j d hj).1
    rw [Option.some.inj hmain] at hserves
    simp [Server.serves] at hserves
  refine hoff.grow rfl rfl rfl (fun hp j d hj => absurd hj (hnone hp j d)) fun hp row hrow => ?_
  have hlog := (h.bound hp i c hi).2
  have htarget' : (w.set i .off).target = some c.main := htarget
  have hlog' : (w.set i .off).log = some c.log := hlog
  unfold World.present at hrow ⊢
  unfold World.foldLog
  rw [htarget', hlog'] at hrow
  simp only [htarget', Option.map_some, Option.map_none, Option.getD_some, Option.getD_none,
    Function.update_self, List.append_nil]
  exact hrow

variable [Fintype ι]

theorem settled_step {a : Label ι ρ} (h : Settled w) (hok : Alone w a)
    (hs : w.step a = some w') : Settled w' := by
  unfold World.step at hs
  cases a with
  | check i =>
      dsimp only at hs
      split at hs
      · obtain rfl := Option.some.inj hs
        split
        · exact h
        · exact h.set i .checked nofun nofun
      · cases hs
  | connect i =>
      dsimp only at hs
      split at hs
      · obtain rfl := Option.some.inj hs
        obtain ⟨h1, htarget, -⟩ := h.openMain
        obtain ⟨h2, hlog, htarget2, -⟩ := h1.openLog
        refine h2.set i _ ?_ nofun
        rintro c hc -
        cases hc
        exact ⟨htarget2.trans htarget, hlog⟩
      · cases hs
  | insert i row =>
      dsimp only at hs
      split at hs
      · next m l hi =>
          split at hs
          · obtain rfl := Option.some.inj hs
            refine h.set i _ ?_ nofun
            rintro c hc hp
            cases hc
            exact h.bound hp i ⟨m, l, .idle⟩ hi
          · cases hs
      · cases hs
  | commit i =>
      dsimp only at hs
      split at hs
      · next m l row hi =>
          obtain rfl := Option.some.inj hs
          exact settled_commit h hi
      · cases hs
  | ack i =>
      dsimp only at hs
      split at hs
      · next m l row hi =>
          obtain rfl := Option.some.inj hs
          exact settled_ack h hi
      · cases hs
  | checkpoint i =>
      dsimp only at hs
      split at hs
      · next c hi =>
          obtain rfl := Option.some.inj hs
          exact h.foldLog fun hp => h.bound hp i c hi
      · cases hs
  | close i =>
      dsimp only at hs
      split at hs
      · next c hi =>
          split at hs
          · next hlast =>
              obtain rfl := Option.some.inj hs
              exact settled_close h hi hlast.1 hlast.2
          · obtain rfl := Option.some.inj hs
            exact h.set i .off nofun nofun
      · cases hs
  | kill i =>
      obtain rfl := Option.some.inj hs
      exact h.set i .off nofun nofun
  | acquire =>
      dsimp only at hs
      split at hs
      · next hphase =>
          obtain rfl := Option.some.inj hs
          refine h.advance ?_ rfl id
          rcases hphase.1 with hidle | hfailed
          · rw [hidle]
            exact nofun
          · rw [hfailed]
            exact nofun
      · cases hs
  | look =>
      dsimp only at hs
      split at hs
      · next hphase =>
          obtain rfl := Option.some.inj hs
          exact h.advance (by rw [hphase]; exact nofun) rfl id
      · cases hs
  | copy rows =>
      dsimp only at hs
      split at hs
      · next hphase =>
          obtain rfl := Option.some.inj hs
          exact h.advance (by rw [hphase]; exact nofun) rfl id
      · cases hs
  | fold =>
      dsimp only at hs
      split at hs
      · next hphase =>
          obtain rfl := Option.some.inj hs
          refine h.advance (by rw [hphase.1]; exact nofun) ?_ id
          split <;> rfl
      · cases hs
  | exclusive =>
      dsimp only at hs
      split at hs
      · next hphase =>
          obtain rfl := Option.some.inj hs
          exact h.advance (by rw [hphase.1]; exact nofun) rfl id
      · cases hs
  | sweep =>
      dsimp only at hs
      split at hs
      · next hphase =>
          obtain rfl := Option.some.inj hs
          exact h.advance (by rw [hphase]; exact nofun) rfl id
      · cases hs
  | moveAside =>
      dsimp only at hs
      split at hs
      · next hphase =>
          have hbefore : w.phase ≠ .done := by
            rw [hphase]
            exact nofun
          split at hs
          · split at hs
            · obtain rfl := Option.some.inj hs
              exact h.advance hbefore rfl id
            · cases hs
          · obtain rfl := Option.some.inj hs
            exact h.advance hbefore rfl id
      · cases hs
  | swap =>
      -- every connection there will be is opened after this
      dsimp only at hs
      split at hs
      · next hphase =>
          obtain rfl := Option.some.inj hs
          have hnil := h.acked_nil (by rw [hphase]; exact nofun)
          constructor
          · exact fun _ i c hi => absurd hi (hok i c)
          · exact fun _ i m l row hi => absurd hi (hok i _)
          · exact .inl hnil
          · intro row hrow
            rw [show _ = [] from hnil] at hrow
            cases hrow
      · cases hs
  | finish =>
      dsimp only at hs
      split at hs
      · next hphase =>
          obtain rfl := Option.some.inj hs
          have hp : w.phase.swappedIn := by
            rw [hphase]
            trivial
          exact ⟨fun _ => h.bound hp, fun _ => h.committed hp, .inr rfl, h.kept⟩
      · cases hs
  | fail undone =>
      dsimp only at hs
      split at hs
      · cases hs
      · cases hs
      · cases hs
      · next hphase =>
          obtain rfl := Option.some.inj hs
          exact h.failRestore (by rw [hphase]; exact nofun)
      · next hphase =>
          obtain rfl := Option.some.inj hs
          exact h.failRestore (by rw [hphase]; exact nofun)
      · next hdone _ _ _ =>
          obtain rfl := Option.some.inj hs
          exact h.advance (fun heq => hdone heq) rfl id

/-- In every run in which no server has a database open at the swap, what is acknowledged
after the restore has returned is in the database at the target path. -/
theorem acknowledged_present (h : (system ι ρ).Reach Alone w) : ∀ row ∈ w.acked, row ∈ w.present := by
  have hsettled : Settled w := by
    refine h.invariant (P := Settled) ?_ fun s a t hsettled hok hs => settled_step hsettled hok hs
    rintro s ⟨-, hphase, -, hacked⟩
    exact .early (by rw [hphase]; exact id) hacked
  exact hsettled.kept

/-! One server, and a database with one row. -/

def quietWorld : World Unit ℕ where
  target := some 0
  log := none
  tmp := none
  rollback := none
  lock := false
  mains := fun n => if n = 0 then [1] else []
  logs := fun _ => []
  next := 1
  servers := fun _ => .off
  phase := .idle
  existed := false
  acked := []

theorem quietWorld_init : quietWorld.Init := ⟨fun _ => rfl, rfl, rfl, rfl⟩

def preparing : List (Label Unit ℕ) :=
  [.acquire, .look, .copy [7], .fold, .exclusive, .sweep, .moveAside]

def serving : List (Label Unit ℕ) := [.check (), .connect ()]

def ingesting (row : ℕ) : List (Label Unit ℕ) := [.insert () row, .commit (), .ack ()]

/-- The server is started after the restore. -/
theorem acknowledged_present_restarted :
    ∃ w1 w2 w3, (system Unit ℕ).run quietWorld preparing = some w1 ∧ w1.step .swap = some w2 ∧
      (system Unit ℕ).run w2 ([.finish] ++ serving ++ ingesting 5) = some w3 ∧
      w3.acked = [5] ∧ ∀ row ∈ w3.acked, row ∈ w3.present := by
  obtain ⟨w1, hprepare, hoff, w2, hswap, w3, hserve, hacked⟩ :
      ∃ w1, (system Unit ℕ).run quietWorld preparing = some w1 ∧ (∀ i, w1.servers i = .off) ∧
        ∃ w2, w1.step .swap = some w2 ∧
          ∃ w3, (system Unit ℕ).run w2 ([.finish] ++ serving ++ ingesting 5) = some w3 ∧
            w3.acked = [5] :=
    ⟨_, rfl, fun _ => rfl, _, rfl, _, rfl, rfl⟩
  refine ⟨w1, w2, w3, hprepare, hswap, hserve, hacked, ?_⟩
  have hstart : (system Unit ℕ).Reach Alone quietWorld := .start quietWorld_init
  have halone : Alone w1 (.swap : Label Unit ℕ) := by
    intro i c hi
    rw [hoff i] at hi
    cases hi
  have hprepared := hstart.of_labels (by simp [preparing, Alone]) hprepare
  have hserved := (hprepared.next halone hswap).of_labels (by simp [serving, ingesting, Alone]) hserve
  exact acknowledged_present hserved

/-- A connection stays open across the restore, with no transaction in it. -/
theorem acknowledged_lost :
    ¬∀ w, (system Unit ℕ).Reach Anyway w → ∀ row ∈ w.acked, row ∈ w.present := by
  intro h
  obtain ⟨w, hrun, hacked, hpresent⟩ : ∃ w, (system Unit ℕ).run quietWorld
      (serving ++ preparing ++ [.swap, .finish] ++ ingesting 5) = some w ∧ w.acked = [5] ∧
        w.present = [7] :=
    ⟨_, rfl, rfl, rfl⟩
  have hreach := TransitionSystem.System.Reach.of_run (.start quietWorld_init) hrun
  have hlost := h w hreach 5 (by rw [hacked]; exact List.mem_cons_self)
  rw [hpresent] at hlost
  exact absurd hlost (by decide)

end Exclusion

end Stackhour.Tracker
