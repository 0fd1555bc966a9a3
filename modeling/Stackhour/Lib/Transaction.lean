import Mathlib.Logic.Basic

/-!
# Transactions of a connection

A connection sees the stored data, or what its open transaction has made of it. Each
operation may fail, and some failures end the transaction. A script between `BEGIN` and
`COMMIT` that is rolled back on an error leaves the data as it was or as the whole script
makes it.
-/

namespace Transaction

universe u v w

variable {σ : Type u} {α : Type v} {β : Type w}

/-- The stored data, and what the open transaction sees, if there is one. -/
structure Connection (σ : Type u) where
  stored : σ
  work : Option σ

/-- Why an operation fails, and whether this ends the transaction. -/
structure Fault where
  error : String
  ends : Bool

/-- A connection with the result of an operation. -/
abbrev Outcome (σ : Type u) (α : Type v) := Connection σ × Except String α

/-- The next operation, unless the one before failed. -/
def Outcome.andThen (o : Outcome σ α) (next : Connection σ → α → Outcome σ β) : Outcome σ β :=
  match o with
  | (c, .error e) => (c, .error e)
  | (c, .ok a) => next c a

namespace Connection

/-- A failed operation changes no data. -/
def fail (c : Connection σ) (f : Fault) : Outcome σ α :=
  (if f.ends then { c with work := none } else c, .error f.error)

/-- `BEGIN IMMEDIATE`. -/
def beginImmediate (c : Connection σ) : Option Fault → Outcome σ Unit
  | some f => c.fail f
  | none =>
      match c.work with
      | some _ => (c, .error "cannot start a transaction within a transaction")
      | none => ({ c with work := some c.stored }, .ok ())

/-- A statement; outside of a transaction it is one of its own. -/
def execute (c : Connection σ) (f : σ → σ × α) : Option Fault → Outcome σ α
  | some e => c.fail e
  | none =>
      match c.work with
      | some w => ({ c with work := some (f w).1 }, .ok (f w).2)
      | none => ({ c with stored := (f c.stored).1 }, .ok (f c.stored).2)

/-- `COMMIT`. -/
def commit (c : Connection σ) : Option Fault → Outcome σ Unit
  | some f => c.fail f
  | none =>
      match c.work with
      | some w => (⟨w, none⟩, .ok ())
      | none => (c, .error "cannot commit - no transaction is active")

/-- `ROLLBACK`; its own error, that there is no transaction any more, is dropped. -/
def rollback (c : Connection σ) : Connection σ := { c with work := none }

end Connection

/-- An error rolls back, and stays the error. -/
def Outcome.orRollback : Outcome σ α → Outcome σ α
  | (c, .ok a) => (c, .ok a)
  | (c, .error e) => (c.rollback, .error e)

/-- A script in a transaction that is rolled back when an operation fails. -/
def transact (c : Connection σ) (begins commits : Option Fault)
    (body : Connection σ → Outcome σ α) : Outcome σ α :=
  (c.beginImmediate begins).andThen fun c _ =>
    ((body c).andThen fun c a =>
      (c.commit commits).andThen fun c _ => (c, .ok a)).orRollback

/-! ## What a script computes -/

/-- In a transaction the script does `f` to what it sees, or fails; it stores nothing. -/
def Computes (body : Connection σ → Outcome σ α) (f : σ → σ × α) : Prop :=
  ∀ s w, body ⟨s, some w⟩ = (⟨s, some (f w).1⟩, .ok (f w).2) ∨
    ∃ work e, body ⟨s, some w⟩ = (⟨s, work⟩, .error e)

theorem Computes.pure (a : α) : Computes (fun c : Connection σ => (c, .ok a)) (fun w => (w, a)) :=
  fun _ _ => .inl rfl

theorem Computes.execute (f : σ → σ × α) (fault : Option Fault) :
    Computes (fun c => c.execute f fault) f := by
  intro s w
  cases fault with
  | none => exact .inl rfl
  | some e =>
      right
      show ∃ work e', (if e.ends then (⟨s, none⟩ : Connection σ) else ⟨s, some w⟩, _) = _
      split
      · exact ⟨_, _, rfl⟩
      · exact ⟨_, _, rfl⟩

theorem Computes.andThen {body : Connection σ → Outcome σ α} {f : σ → σ × α}
    {next : α → Connection σ → Outcome σ β} {g : α → σ → σ × β} (hbody : Computes body f)
    (hnext : ∀ a, Computes (next a) (g a)) :
    Computes (fun c => (body c).andThen (fun c a => next a c)) (fun w => g (f w).2 (f w).1) := by
  intro s w
  dsimp only
  rcases hbody s w with hok | ⟨work, e, herr⟩
  · rw [hok]
    exact hnext (f w).2 s (f w).1
  · rw [herr]
    exact .inr ⟨work, e, rfl⟩

theorem fail_orRollback (c : Connection σ) (f : Fault) :
    (c.fail (α := α) f).orRollback = (⟨c.stored, none⟩, .error f.error) := by
  unfold Connection.fail
  split
  · rfl
  · rfl

/-- **All or nothing.** -/
theorem Computes.transact {body : Connection σ → Outcome σ α} {f : σ → σ × α}
    (h : Computes body f) (s : σ) (begins commits : Option Fault) :
    transact ⟨s, none⟩ begins commits body = (⟨(f s).1, none⟩, .ok (f s).2) ∨
      ∃ e, transact ⟨s, none⟩ begins commits body = (⟨s, none⟩, .error e) := by
  cases begins with
  | some e =>
      right
      refine ⟨e.error, ?_⟩
      show Outcome.andThen (if e.ends then (⟨s, none⟩ : Connection σ) else ⟨s, none⟩, _) _ = _
      rw [ite_self]
      rfl
  | none =>
      have hscript : Transaction.transact ⟨s, none⟩ none commits body =
          ((body ⟨s, some s⟩).andThen fun c a =>
            (c.commit commits).andThen fun c _ => (c, .ok a)).orRollback := rfl
      rw [hscript]
      rcases h s s with hok | ⟨work, e, herr⟩
      · rw [hok]
        cases commits with
        | none => exact .inl rfl
        | some e =>
            right
            refine ⟨e.error, ?_⟩
            rw [← @fail_orRollback _ α ⟨s, some (f s).1⟩ e]
            rfl
      · rw [herr]
        exact .inr ⟨e, rfl⟩

end Transaction
