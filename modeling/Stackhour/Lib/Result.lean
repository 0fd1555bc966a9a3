import Mathlib.Data.List.Forall2

/-!
# Fallible steps

Inversion of a sequenced `Except` computation. A computation that returns
`ok` ran every one of its steps successfully.
-/

namespace Result

universe u v

variable {ε : Type u} {α β : Type v}

theorem bind_eq_ok {x : Except ε α} {f : α → Except ε β} {b : β} :
    (x >>= f) = .ok b ↔ ∃ a, x = .ok a ∧ f a = .ok b := by
  cases x with
  | error e => simp [bind, Except.bind]
  | ok a => simp [bind, Except.bind]

theorem pure_eq_ok {a b : α} : (pure a : Except ε α) = .ok b ↔ a = b := by
  simp [pure, Except.pure]

theorem map_eq_ok {x : Except ε α} {f : α → β} {b : β} :
    x.map f = .ok b ↔ ∃ a, x = .ok a ∧ f a = b := by
  cases x <;> simp [Except.map]

theorem map_eq_error {x : Except ε α} {f : α → β} {e : ε} :
    x.map f = .error e ↔ x = .error e := by
  cases x <;> simp [Except.map]

/-- An optional value with the error for its absence. -/
def ofOption (e : ε) : Option α → Except ε α
  | none => .error e
  | some a => .ok a

theorem ofOption_eq_ok {e : ε} {o : Option α} {a : α} :
    ofOption e o = .ok a ↔ o = some a := by
  cases o <;> simp [ofOption]

theorem mapM_some_eq_ok {f : α → Except ε β} {x : α} {o : Option β} :
    (some x).mapM f = .ok o ↔ ∃ y, f x = .ok y ∧ o = some y := by
  show (f x >>= fun y => pure (some y)) = .ok o ↔ _
  rw [bind_eq_ok]
  refine exists_congr fun y => and_congr_right fun _ => ?_
  rw [pure_eq_ok]
  exact eq_comm

/-- A list goes through when each of its elements does. -/
theorem mapM_eq_ok {f : α → Except ε β} {xs : List α} {ys : List β} :
    xs.mapM f = .ok ys ↔ List.Forall₂ (fun x y => f x = .ok y) xs ys := by
  induction xs generalizing ys with
  | nil =>
      rw [List.mapM_nil, pure_eq_ok, List.forall₂_nil_left_iff]
      exact eq_comm
  | cons x xs ih =>
      rw [List.mapM_cons, bind_eq_ok, List.forall₂_cons_left_iff]
      refine exists_congr fun y => ?_
      rw [bind_eq_ok]
      constructor
      · rintro ⟨hy, zs, hzs, heq⟩
        exact ⟨zs, hy, ih.mp hzs, (pure_eq_ok.mp heq).symm⟩
      · rintro ⟨zs, hy, hzs, heq⟩
        exact ⟨hy, zs, ih.mpr hzs, pure_eq_ok.mpr heq.symm⟩

/-- Every element gave one of the results, and every result came from one. -/
theorem mapM_mem {f : α → Except ε β} {xs : List α} {ys : List β} (h : xs.mapM f = .ok ys) :
    (∀ x ∈ xs, ∃ y ∈ ys, f x = .ok y) ∧ ∀ y ∈ ys, ∃ x ∈ xs, f x = .ok y := by
  have hall := mapM_eq_ok.mp h
  clear h
  induction hall with
  | nil =>
      refine ⟨fun x hx => ?_, fun y hy => ?_⟩
      · cases hx
      · cases hy
  | cons hxy _ ih =>
      refine ⟨fun x hx => ?_, fun y hy => ?_⟩
      · rcases List.mem_cons.mp hx with rfl | hx
        · exact ⟨_, List.mem_cons_self, hxy⟩
        · obtain ⟨y, hy, hf⟩ := ih.1 x hx
          exact ⟨y, List.mem_cons_of_mem _ hy, hf⟩
      · rcases List.mem_cons.mp hy with rfl | hy
        · exact ⟨_, List.mem_cons_self, hxy⟩
        · obtain ⟨x, hx, hf⟩ := ih.2 y hy
          exact ⟨x, List.mem_cons_of_mem _ hx, hf⟩

/-- A decoder `f` that gives an encoded value back exactly when it is fit does so
for a list of them. -/
theorem mapM_map_eq_ok {f : α → Except ε β} {g : β → α} {P : β → Prop}
    (h : ∀ x y, f (g x) = .ok y ↔ P x ∧ y = x) {xs ys : List β} :
    (xs.map g).mapM f = .ok ys ↔ (∀ x ∈ xs, P x) ∧ ys = xs := by
  rw [mapM_eq_ok, List.forall₂_map_left_iff]
  constructor
  · intro hall
    induction hall with
    | nil =>
        refine ⟨?_, rfl⟩
        intro x hx
        cases hx
    | cons hxy _ ih =>
        obtain ⟨hx, rfl⟩ := (h _ _).mp hxy
        obtain ⟨hxs, rfl⟩ := ih
        exact ⟨List.forall_mem_cons.mpr ⟨hx, hxs⟩, rfl⟩
  · rintro ⟨hall, rfl⟩
    exact List.forall₂_same.mpr fun x hx => (h x x).mpr ⟨hall x hx, rfl⟩

/-! ## Steps on a state

A step that fails leaves a state behind as well. -/

/-- Go on with `next` unless the step failed. -/
def andThen {σ : Type*} (r : σ × Except ε α) (next : σ → α → σ × Except ε β) :
    σ × Except ε β :=
  match r with
  | (s, .error e) => (s, .error e)
  | (s, .ok a) => next s a

/-- What holds of a sequence holds where it stops. -/
theorem andThen_rule {σ : Type*} {r : σ × Except ε α} {next : σ → α → σ × Except ε β}
    {Q : σ × Except ε β → Prop} (herror : ∀ e, r.2 = .error e → Q (r.1, .error e))
    (hnext : ∀ a, r.2 = .ok a → Q (next r.1 a)) : Q (andThen r next) := by
  obtain ⟨s, e | a⟩ := r
  · exact herror e rfl
  · exact hnext a rfl

end Result
