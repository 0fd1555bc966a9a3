import Mathlib.Data.Int.Notation
import Mathlib.Data.List.Infix
import Stackhour.Lib.System

/-!
# Migrations

An opener brings a database to the latest version: it checks the recorded history
against the migrations it knows and runs those that are missing, each with its
history entry in one transaction. Any operation may fail, and the process may die
before any of them.
-/

namespace Migrations

open TransitionSystem

universe u

variable {Data : Type u}

/-- A statement, on the tables that it finds. -/
abbrev Statement (Data : Type u) : Type u := Data → Except String Data

/-- A migration; its statements may depend on the tables as they are when its
transaction begins. -/
structure Migration (Data : Type u) where
  version : ℤ
  name : String
  statements : Data → List (Statement Data)

def Migration.entry (m : Migration Data) : ℤ × String := (m.version, m.name)

/-- What an opener knows: its migrations, the script that follows them, and its
error texts. -/
structure Opener (Data : Type u) where
  migrations : List (Migration Data)
  tail : List (Statement Data)
  newer : ℤ → String
  invalid : ℤ × String → ℤ × String → String
  failed : Migration Data → String → String

/-- What is in a database file. The history is in the order of its key; without its
table it is none. -/
structure Image (Data : Type u) where
  history : Option (List (ℤ × String))
  data : Data

def Image.applied (i : Image Data) : List (ℤ × String) := i.history.getD []

/-- Where an opener is. `work` is what its open transaction sees. -/
inductive Stage (Data : Type u) where
  | closed (error : Option String)
  | opening
  | reading
  | migrating (rest : List (Migration Data))
  | applying (work : Image Data) (m : Migration Data) (script : List (Statement Data))
      (rest : List (Migration Data))
  | recording (work : Image Data) (m : Migration Data) (rest : List (Migration Data))
  | committing (work : Image Data) (m : Migration Data) (rest : List (Migration Data))
  | rollingBack (error : String)
  | tailing (script : List (Statement Data))
  | opened

/-- The file and its opener. -/
structure Opening (Data : Type u) where
  durable : Image Data
  stage : Stage Data

inductive Label where
  | go
  | fail (error : String)
  | crash

namespace Opener

variable (O : Opener Data)

def entries : List (ℤ × String) := O.migrations.map Migration.entry

/-- The check of the recorded history. -/
def check : List (ℤ × String) → List (Migration Data) → Option String
  | [], _ => none
  | (version, _) :: _, [] => some (O.newer version)
  | found :: applied, m :: expected =>
      if found = m.entry then check applied expected else some (O.invalid m.entry found)

/-- Inserting a history row, whose key must be new. -/
def record (work : Image Data) (m : Migration Data) : Except String (Image Data) :=
  match work.history with
  | none => .error "no such table"
  | some history =>
      if m.version ∈ history.map Prod.fst then .error "UNIQUE constraint failed"
      else .ok { work with history := some (history ++ [m.entry]) }

/-- The next operation succeeds, as far as the tables let it. -/
def go (p : Opening Data) : Opening Data :=
  match p.stage with
  | .closed _ | .opened => { p with stage := .opening }
  | .opening => ⟨{ p.durable with history := some p.durable.applied }, .reading⟩
  | .reading =>
      match O.check p.durable.applied O.migrations with
      | some error => { p with stage := .closed (some error) }
      | none => { p with stage := .migrating (O.migrations.drop p.durable.applied.length) }
  | .migrating [] => { p with stage := .tailing O.tail }
  | .migrating (m :: rest) =>
      { p with stage := .applying p.durable m (m.statements p.durable.data) rest }
  | .applying work m [] rest => { p with stage := .recording work m rest }
  | .applying work m (statement :: script) rest =>
      match statement work.data with
      | .ok data => { p with stage := .applying { work with data := data } m script rest }
      | .error e => { p with stage := .rollingBack (O.failed m e) }
  | .recording work m rest =>
      match record work m with
      | .ok work => { p with stage := .committing work m rest }
      | .error e => { p with stage := .rollingBack (O.failed m e) }
  | .committing work _ rest => ⟨work, .migrating rest⟩
  | .rollingBack error => { p with stage := .closed (some error) }
  | .tailing [] => { p with stage := .opened }
  | .tailing (statement :: script) =>
      match statement p.durable.data with
      | .ok data => ⟨{ p.durable with data := data }, .tailing script⟩
      | .error e => { p with stage := .closed (some e) }

/-- Where an opener goes on when the next operation fails; the error of a rollback
is dropped. -/
def afterFailure (error : String) : Stage Data → Option (Stage Data)
  | .closed _ | .opening | .reading | .migrating (_ :: _) | .tailing (_ :: _) =>
      some (.closed (some error))
  | .applying _ m _ _ | .recording _ m _ | .committing _ m _ =>
      some (.rollingBack (O.failed m error))
  | .rollingBack first => some (.closed (some first))
  | .migrating [] | .tailing [] | .opened => none

def step (p : Opening Data) : Label → Option (Opening Data)
  | .go => some (O.go p)
  | .fail error => (O.afterFailure error p.stage).map (fun stage => { p with stage := stage })
  | .crash => some { p with stage := .closed none }

/-- Opens of a file, one after another. -/
def system (start : Image Data) : System (Opening Data) Label where
  init p := p = ⟨start, .closed none⟩
  step := O.step

end Opener

/-! ## What a prefix of the migrations makes -/

/-- A script without a failure. -/
def runScript : List (Statement Data) → Data → Except String Data
  | [], data => .ok data
  | statement :: script, data =>
      match statement data with
      | .ok data => runScript script data
      | .error e => .error e

/-- Migrations without a failure. -/
def runAll : List (Migration Data) → Data → Except String Data
  | [], data => .ok data
  | m :: rest, data =>
      match runScript (m.statements data) data with
      | .ok data => runAll rest data
      | .error e => .error e

/-- The file holds the tables that the first `k` migrations make of `base`, and
records those. -/
structure Opener.Produced (O : Opener Data) (base : Data) (k : ℕ) (i : Image Data) : Prop where
  le : k ≤ O.migrations.length
  history : i.applied = O.entries.take k
  data : runAll (O.migrations.take k) base = .ok i.data

/-- **Opening is prefix-consistent.** A file that a prefix of the migrations has made
stays one of a prefix no shorter, and is opened only with all of them; a file with
any other history is not opened and stays as it is. -/
structure Opener.Consistent (O : Opener Data) (start : Image Data) (p : Opening Data) : Prop where
  ofPrefix : ∀ base k, O.Produced base k start →
    ∃ k', k ≤ k' ∧ O.Produced base k' p.durable ∧
      (p.stage = .opened → k' = O.migrations.length)
  refused : ¬ start.applied <+: O.entries → p.durable = start ∧ p.stage ≠ .opened

/-- The tail leaves what all the migrations have made. -/
def Opener.Settled (O : Opener Data) : Prop :=
  ∀ base data, runAll O.migrations base = .ok data → ∀ statement ∈ O.tail, statement data = .ok data

/-! ## Rules -/

/-- The first statement of a script that succeeds, and the rest. -/
theorem runScript_cons {statement : Statement Data} {script : List (Statement Data)}
    {data final : Data} (h : runScript (statement :: script) data = .ok final) :
    ∃ next, statement data = .ok next ∧ runScript script next = .ok final := by
  unfold runScript at h
  split at h
  · next next hnext => exact ⟨next, hnext, h⟩
  · cases h

/-- Migrations that succeed end in a run of the last one. -/
theorem runAll_append {ms : List (Migration Data)} {m : Migration Data} {base final : Data}
    (h : runAll (ms ++ [m]) base = .ok final) :
    ∃ data, runAll ms base = .ok data ∧ runScript (m.statements data) data = .ok final := by
  induction ms generalizing base with
  | nil =>
      refine ⟨base, rfl, ?_⟩
      rw [List.nil_append, runAll] at h
      split at h
      · next data hdata =>
          obtain rfl := Except.ok.inj h
          exact hdata
      · cases h
  | cons first ms ih =>
      rw [List.cons_append, runAll] at h
      split at h
      · next data hdata =>
          obtain ⟨before, hbefore, hlast⟩ := ih h
          refine ⟨before, ?_, hlast⟩
          rw [runAll, hdata]
          exact hbefore
      · cases h

theorem runAll_snoc (ms : List (Migration Data)) (m : Migration Data) {base data next : Data}
    (h : runAll ms base = .ok data) (hm : runScript (m.statements data) data = .ok next) :
    runAll (ms ++ [m]) base = .ok next := by
  induction ms generalizing base with
  | nil =>
      obtain rfl := Except.ok.inj h
      show (match runScript (m.statements base) base with
        | .ok data => runAll [] data
        | .error e => .error e) = _
      rw [hm]
      rfl
  | cons first ms ih =>
      unfold runAll at h
      rw [List.cons_append]
      unfold runAll
      split at h
      · exact ih h
      · cases h

namespace Opener

variable {O : Opener Data}

/-- The check passes an initial part of what is known. -/
theorem check_none {applied : List (ℤ × String)} {ms : List (Migration Data)} :
    O.check applied ms = none ↔ applied <+: ms.map Migration.entry := by
  induction applied generalizing ms with
  | nil =>
      refine iff_of_true ?_ List.nil_prefix
      unfold check
      rfl
  | cons found applied ih =>
      cases ms with
      | nil =>
          refine iff_of_false ?_ ?_
          · unfold check
            rintro ⟨⟩
          · rintro ⟨rest, h⟩
            cases h
      | cons m ms =>
          unfold check
          rw [List.map_cons, List.cons_prefix_cons]
          split
          · next h => exact ih.trans (and_iff_right h).symm
          · next h =>
              refine iff_of_false ?_ fun hprefix => h hprefix.1
              rintro ⟨⟩

/-- What a stage knows, between transactions and in one: what the transaction has
done so far and what is left of it make the whole migration. -/
def Follows (O : Opener Data) (k : ℕ) (durable : Image Data) : Stage Data → Prop
  | .closed _ | .opening | .reading | .rollingBack _ => True
  | .migrating rest => rest = O.migrations.drop k
  | .applying work m script rest => O.migrations.drop k = m :: rest ∧
      work.history = durable.history ∧
      runScript script work.data = runScript (m.statements durable.data) durable.data
  | .recording work m rest => O.migrations.drop k = m :: rest ∧
      work.history = durable.history ∧
      runScript (m.statements durable.data) durable.data = .ok work.data
  | .committing work m rest => O.migrations.drop k = m :: rest ∧
      work.applied = durable.applied ++ [m.entry] ∧
      runScript (m.statements durable.data) durable.data = .ok work.data
  | .tailing script => k = O.migrations.length ∧ ∀ statement ∈ script, statement ∈ O.tail
  | .opened => k = O.migrations.length

/-- The invariant of the opens of a file that a prefix has made. -/
def Keeps (O : Opener Data) (base : Data) (least : ℕ) (p : Opening Data) : Prop :=
  ∃ k, least ≤ k ∧ O.Produced base k p.durable ∧ O.Follows k p.durable p.stage

theorem Keeps.to_stage {base : Data} {least k : ℕ} {p : Opening Data} (hle : least ≤ k)
    (hproduced : O.Produced base k p.durable) {stage : Stage Data}
    (h : O.Follows k p.durable stage) : O.Keeps base least { p with stage := stage } :=
  ⟨k, hle, hproduced, h⟩

theorem take_drop_cons {ms : List (Migration Data)} {k : ℕ} {m : Migration Data}
    {rest : List (Migration Data)} (h : ms.drop k = m :: rest) :
    k < ms.length ∧ ms.take (k + 1) = ms.take k ++ [m] ∧ ms.drop (k + 1) = rest := by
  have hlt : k < ms.length := by
    by_contra hge
    rw [List.drop_eq_nil_of_le (Nat.not_lt.mp hge)] at h
    cases h
  rw [List.drop_eq_getElem_cons hlt] at h
  obtain ⟨hm, hrest⟩ := List.cons.inj h
  exact ⟨hlt, by rw [List.take_add_one, List.getElem?_eq_getElem hlt, hm]; rfl, hrest⟩

/-- A commit makes the file that of one more migration. -/
theorem Produced.commit {base : Data} {k : ℕ} {durable work : Image Data}
    (h : O.Produced base k durable) {m : Migration Data} {rest : List (Migration Data)}
    (hdrop : O.migrations.drop k = m :: rest) (hhistory : work.applied = durable.applied ++ [m.entry])
    (hdata : runScript (m.statements durable.data) durable.data = .ok work.data) :
    O.Produced base (k + 1) work := by
  obtain ⟨hlt, htake, -⟩ := take_drop_cons hdrop
  constructor
  · exact hlt
  · rw [hhistory, h.history]
    unfold entries
    rw [← List.map_take, ← List.map_take, htake, List.map_append]
    rfl
  · rw [htake]
    exact runAll_snoc _ m h.data hdata

/-- The next operation. -/
theorem go_keeps (hsettled : O.Settled) {base : Data} {least : ℕ} {p : Opening Data}
    (h : O.Keeps base least p) : O.Keeps base least (O.go p) := by
  obtain ⟨durable, stage⟩ := p
  obtain ⟨k, hle, hproduced, hfollows⟩ := h
  change O.Produced base k durable at hproduced
  change O.Follows k durable stage at hfollows
  cases stage with
  | closed error => exact ⟨k, hle, hproduced, trivial⟩
  | opened => exact ⟨k, hle, hproduced, trivial⟩
  | opening => exact ⟨k, hle, ⟨hproduced.le, hproduced.history, hproduced.data⟩, trivial⟩
  | reading =>
      unfold go
      dsimp only
      split
      · exact ⟨k, hle, hproduced, trivial⟩
      · refine ⟨k, hle, hproduced, ?_⟩
        show O.migrations.drop durable.applied.length = O.migrations.drop k
        rw [hproduced.history]
        unfold entries
        rw [List.length_take, List.length_map, Nat.min_eq_left hproduced.le]
  | migrating rest =>
      cases rest with
      | nil =>
          refine ⟨k, hle, hproduced, ?_, fun statement h => h⟩
          have hdrop : O.migrations.length ≤ k := List.drop_eq_nil_iff.mp hfollows.symm
          exact Nat.le_antisymm hproduced.le hdrop
      | cons m rest => exact ⟨k, hle, hproduced, hfollows.symm, rfl, rfl⟩
  | applying work m script rest =>
      obtain ⟨hdrop, hhistory, hscript⟩ := hfollows
      cases script with
      | nil => exact ⟨k, hle, hproduced, hdrop, hhistory, hscript.symm⟩
      | cons statement script =>
          unfold go
          dsimp only
          split
          · next data hdata =>
              refine ⟨k, hle, hproduced, hdrop, hhistory, ?_⟩
              rw [← hscript, runScript, hdata]
          · exact ⟨k, hle, hproduced, trivial⟩
  | recording work m rest =>
      obtain ⟨hdrop, hhistory, hdata⟩ := hfollows
      unfold go
      dsimp only
      split
      · next next hrecord =>
          refine ⟨k, hle, hproduced, hdrop, ?_⟩
          unfold record at hrecord
          split at hrecord
          · cases hrecord
          · next history hsome =>
              split at hrecord
              · cases hrecord
              · obtain rfl := Except.ok.inj hrecord
                refine ⟨?_, hdata⟩
                unfold Image.applied
                rw [← hhistory, hsome]
                rfl
      · exact ⟨k, hle, hproduced, trivial⟩
  | committing work m rest =>
      obtain ⟨hdrop, hhistory, hdata⟩ := hfollows
      exact ⟨k + 1, Nat.le_succ_of_le hle, hproduced.commit hdrop hhistory hdata,
        (take_drop_cons hdrop).2.2.symm⟩
  | rollingBack error => exact ⟨k, hle, hproduced, trivial⟩
  | tailing script =>
      obtain ⟨hall, hscript⟩ := hfollows
      cases script with
      | nil => exact ⟨k, hle, hproduced, hall⟩
      | cons statement script =>
          have hdata := hproduced.data
          rw [hall, List.take_length] at hdata
          have hsame := hsettled base durable.data hdata statement (hscript _ List.mem_cons_self)
          unfold go
          dsimp only
          rw [hsame]
          exact ⟨k, hle, hproduced, hall, fun st hst => hscript st (List.mem_cons_of_mem _ hst)⟩

theorem failure_keeps {base : Data} {least : ℕ} {p : Opening Data} {error : String}
    {stage : Stage Data} (h : O.Keeps base least p)
    (hs : O.afterFailure error p.stage = some stage) :
    O.Keeps base least { p with stage := stage } := by
  obtain ⟨k, hle, hproduced, -⟩ := h
  refine Keeps.to_stage hle hproduced ?_
  unfold afterFailure at hs
  split at hs <;> cases hs <;> trivial

theorem step_keeps (hsettled : O.Settled) {base : Data} {least : ℕ} {p q : Opening Data}
    (h : O.Keeps base least p) (a : Label) (hs : O.step p a = some q) : O.Keeps base least q := by
  cases a with
  | go =>
      obtain rfl := Option.some.inj hs
      exact go_keeps hsettled h
  | fail error =>
      obtain ⟨stage, hstage, rfl⟩ := Option.map_eq_some_iff.mp hs
      exact failure_keeps h hstage
  | crash =>
      obtain rfl := Option.some.inj hs
      obtain ⟨k, hle, hproduced, -⟩ := h
      exact ⟨k, hle, hproduced, trivial⟩

/-- A file with another history, before its check. -/
def Refuses (start : Image Data) (p : Opening Data) : Prop :=
  p.durable = start ∧ ((∃ error, p.stage = .closed error) ∨ p.stage = .opening ∨ p.stage = .reading)

theorem step_refuses {start : Image Data} (hforeign : ¬ start.applied <+: O.entries)
    {p q : Opening Data} (h : Refuses start p) (a : Label) (hs : O.step p a = some q) :
    Refuses start q := by
  obtain ⟨durable, stage⟩ := p
  obtain ⟨rfl, hstage⟩ := h
  -- a history that is no prefix is not empty, so that its table is there
  have hsame : ({ durable with history := some durable.applied } : Image Data) = durable := by
    obtain ⟨history, data⟩ := durable
    cases history with
    | none => exact absurd List.nil_prefix hforeign
    | some history => rfl
  cases a with
  | go =>
      obtain rfl := Option.some.inj hs
      rcases hstage with ⟨error, rfl⟩ | rfl | rfl
      · exact ⟨rfl, .inr (.inl rfl)⟩
      · exact ⟨hsame, .inr (.inr rfl)⟩
      · unfold go
        dsimp only
        split
        · next error _ => exact ⟨rfl, .inl ⟨_, rfl⟩⟩
        · next hnone => exact absurd (check_none.mp hnone) hforeign
  | fail error =>
      obtain ⟨next, hnext, rfl⟩ := Option.map_eq_some_iff.mp hs
      refine ⟨rfl, .inl ?_⟩
      rcases hstage with ⟨error, rfl⟩ | rfl | rfl
      · exact ⟨_, (Option.some.inj hnext).symm⟩
      · exact ⟨_, (Option.some.inj hnext).symm⟩
      · exact ⟨_, (Option.some.inj hnext).symm⟩
  | crash =>
      obtain rfl := Option.some.inj hs
      exact ⟨rfl, .inl ⟨_, rfl⟩⟩

/-- **Opens with failures and crashes anywhere are prefix-consistent.** -/
theorem consistent (hsettled : O.Settled) {start : Image Data} {p : Opening Data}
    (hreach : (O.system start).Reach Anyway p) : O.Consistent start p := by
  constructor
  · intro base k hstart
    have hkeeps : O.Keeps base k p := by
      refine hreach.invariant (P := fun p => O.Keeps base k p) ?_
        fun p a q h _ hs => step_keeps hsettled h a hs
      rintro p rfl
      exact ⟨k, Nat.le_refl k, hstart, trivial⟩
    obtain ⟨k', hle, hproduced, hfollows⟩ := hkeeps
    refine ⟨k', hle, hproduced, ?_⟩
    intro hopened
    rw [hopened] at hfollows
    exact hfollows
  · intro hforeign
    have hrefuses : Refuses start p := by
      refine hreach.invariant (P := fun p => Refuses start p) ?_
        fun p a q h _ hs => step_refuses hforeign h a hs
      rintro p rfl
      exact ⟨rfl, .inl ⟨_, rfl⟩⟩
    refine ⟨hrefuses.1, ?_⟩
    intro hopened
    rcases hrefuses.2 with ⟨error, h⟩ | h | h
    · cases hopened.symm.trans h
    · cases hopened.symm.trans h
    · cases hopened.symm.trans h

end Opener

end Migrations
