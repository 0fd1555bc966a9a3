import Mathlib.Algebra.BigOperators.Group.List.Basic
import Mathlib.Data.List.Induction
import Mathlib.Data.List.Nodup
import Mathlib.Data.List.Perm.Basic

/-!
# Grouping

A map of lists that is filled by pushing each item under its key. Keys stand in
the order of their first items, and every list holds the items of its key in the
order in which they came.
-/

namespace Grouping

universe u v w x

variable {α : Type u} {β : Type v} {κ : Type w} [DecidableEq κ]

/-- Push an item to the list of its key, which is empty if there is none. -/
def push (k : κ) (b : β) : List (κ × List β) → List (κ × List β)
  | [] => [(k, [b])]
  | (k', bs) :: rest =>
      if k' = k then (k', bs ++ [b]) :: rest else (k', bs) :: push k b rest

/-- Push the items of a list one after the other. -/
def group (key : α → κ) (val : α → β) (xs : List α) : List (κ × List β) :=
  xs.foldl (fun g a => push (key a) (val a) g) []

def get (g : List (κ × List β)) (k : κ) : Option (List β) :=
  (g.find? (fun e => decide (e.1 = k))).map Prod.snd

variable {key : α → κ} {val : α → β}

@[simp] theorem group_nil : group key val [] = [] := rfl

theorem group_snoc (xs : List α) (a : α) :
    group key val (xs ++ [a]) = push (key a) (val a) (group key val xs) :=
  List.foldl_concat _ _ _ _

theorem get_push (k k' : κ) (b : β) : ∀ g : List (κ × List β),
    get (push k b g) k' = if k = k' then some ((get g k).getD [] ++ [b]) else get g k' := by
  intro g
  induction g with
  | nil =>
      by_cases h : k = k'
      · simp [get, push, h]
      · simp [get, push, h]
  | cons e rest ih =>
      obtain ⟨l, bs⟩ := e
      by_cases hl : l = k
      · subst hl
        by_cases h : l = k'
        · simp [get, push, h]
        · simp [get, push, h]
      · by_cases hk' : l = k'
        · subst hk'
          have h : ¬k = l := fun h => hl h.symm
          simp [get, push, hl, h]
        · have hstep : get (push k b ((l, bs) :: rest)) k' = get (push k b rest) k' := by
            simp [get, push, hl, hk']
          rw [hstep, ih]
          simp [get, hl, hk']

/-- What stands under a key are its items. -/
theorem get_group (xs : List α) (k : κ) :
    get (group key val xs) k =
      if xs.filter (fun a => decide (key a = k)) = [] then none
      else some ((xs.filter (fun a => decide (key a = k))).map val) := by
  induction xs using List.reverseRecOn with
  | nil => rfl
  | append_singleton xs a ih =>
      rw [group_snoc, get_push, List.filter_append]
      by_cases h : key a = k
      · subst h
        rw [if_pos rfl, ih]
        split
        · next hnil => simp [hnil]
        · simp
      · simp [h, ih]

theorem group_isEmpty (xs : List α) : (group key val xs).isEmpty = xs.isEmpty := by
  induction xs using List.reverseRecOn with
  | nil => rfl
  | append_singleton xs a ih =>
      rw [group_snoc]
      have h : ∀ g : List (κ × List β), (push (key a) (val a) g).isEmpty = false := by
        intro g
        cases g with
        | nil => rfl
        | cons e rest =>
            unfold push
            split <;> rfl
      rw [h]
      simp

/-! ## The groups as a partition -/

theorem push_keys (k : κ) (b : β) : ∀ g : List (κ × List β),
    (push k b g).map Prod.fst = if k ∈ g.map Prod.fst then g.map Prod.fst
      else g.map Prod.fst ++ [k] := by
  intro g
  induction g with
  | nil => rfl
  | cons e rest ih =>
      obtain ⟨l, bs⟩ := e
      by_cases hl : l = k
      · simp [push, hl]
      · have hl' : ¬k = l := fun h => hl h.symm
        by_cases hmem : k ∈ rest.map Prod.fst
        · rw [if_pos hmem] at ih
          have hin : k ∈ ((l, bs) :: rest).map Prod.fst := List.mem_cons_of_mem _ hmem
          rw [if_pos hin]
          simp [push, hl, ih]
        · rw [if_neg hmem] at ih
          have hnot : k ∉ ((l, bs) :: rest).map Prod.fst := by
            simpa [hl'] using hmem
          rw [if_neg hnot]
          simp [push, hl, ih]

theorem keys_nodup (xs : List α) : ((group key val xs).map Prod.fst).Nodup := by
  induction xs using List.reverseRecOn with
  | nil => exact List.nodup_nil
  | append_singleton xs a ih =>
      rw [group_snoc, push_keys]
      split
      · exact ih
      · next h =>
          refine List.nodup_append.mpr ⟨ih, List.nodup_singleton _, ?_⟩
          rintro k hk l hl rfl
          exact h (List.mem_singleton.mp hl ▸ hk)

/-- The keys are those of the items. -/
theorem mem_keys {xs : List α} {k : κ} :
    k ∈ (group key val xs).map Prod.fst ↔ ∃ a ∈ xs, key a = k := by
  induction xs using List.reverseRecOn with
  | nil => simp
  | append_singleton xs a ih =>
      rw [group_snoc, push_keys]
      simp only [List.mem_append, List.mem_singleton, or_and_right, exists_or, exists_eq_left, ← ih]
      split
      · next hmem => exact ⟨.inl, fun h => h.elim id fun h => h ▸ hmem⟩
      · rw [List.mem_append, List.mem_singleton, eq_comm (a := k)]

/-- A group is what stands under its key. -/
theorem get_of_mem {g : List (κ × List β)} (hnodup : (g.map Prod.fst).Nodup) {k : κ}
    {bs : List β} (h : (k, bs) ∈ g) : get g k = some bs := by
  induction g with
  | nil => cases h
  | cons e rest ih =>
      obtain ⟨l, cs⟩ := e
      obtain ⟨hnot, hnodup⟩ := List.nodup_cons.mp hnodup
      rcases List.mem_cons.mp h with heq | hrest
      · obtain ⟨rfl, rfl⟩ := Prod.mk.inj heq
        simp [get]
      · have hne : ¬l = k := by
          rintro rfl
          exact hnot (List.mem_map.mpr ⟨_, hrest, rfl⟩)
        have := ih hnodup hrest
        simpa [get, hne] using this

theorem mem_group {xs : List α} {k : κ} {bs : List β} (h : (k, bs) ∈ group key val xs) :
    bs = (xs.filter (fun a => decide (key a = k))).map val := by
  have hget := get_of_mem (keys_nodup xs) h
  rw [get_group] at hget
  split at hget
  · cases hget
  · exact (Option.some.inj hget).symm

theorem push_items_perm (k : κ) (b : β) : ∀ g : List (κ × List β),
    ((push k b g).flatMap Prod.snd).Perm (g.flatMap Prod.snd ++ [b]) := by
  intro g
  induction g with
  | nil => exact List.Perm.refl _
  | cons e rest ih =>
      obtain ⟨l, bs⟩ := e
      unfold push
      split
      · simp only [List.flatMap_cons, List.append_assoc]
        exact List.perm_append_comm.append_left bs
      · simp only [List.flatMap_cons, List.append_assoc]
        exact ih.append_left bs

/-- No item is lost, and none is in two groups. -/
theorem items_perm (xs : List α) : ((group key val xs).flatMap Prod.snd).Perm (xs.map val) := by
  induction xs using List.reverseRecOn with
  | nil => exact List.Perm.refl _
  | append_singleton xs a ih =>
      rw [group_snoc, List.map_append]
      exact (push_items_perm _ _ _).trans (ih.append_right _)

/-- What is made of a map of groups, as far as one key goes. -/
theorem filter_flatMap {γ : Type x} {p : κ → γ → Bool} {f : κ → List β → List γ}
    (hp : ∀ k k' c, p k c → p k' c → k = k') :
    ∀ {g : List (κ × List β)}, (g.map Prod.fst).Nodup →
      (∀ e ∈ g, ∀ c ∈ f e.1 e.2, p e.1 c = true) → ∀ k,
        (g.flatMap (fun e => f e.1 e.2)).filter (p k) = ((get g k).map (f k)).getD [] := by
  intro g
  induction g with
  | nil => intro _ _ k; rfl
  | cons e rest ih =>
      intro hnodup hown k
      obtain ⟨l, bs⟩ := e
      obtain ⟨hnot, hnodup⟩ := List.nodup_cons.mp hnodup
      have hrest := ih hnodup (fun e he => hown e (List.mem_cons_of_mem _ he)) k
      rw [List.flatMap_cons, List.filter_append, hrest]
      by_cases hl : l = k
      · subst hl
        have hnone : get rest l = none := by
          unfold get
          rw [Option.map_eq_none_iff, List.find?_eq_none]
          intro e he heq
          exact hnot (List.mem_map.mpr ⟨e, he, of_decide_eq_true heq⟩)
        have hall : (f l bs).filter (p l) = f l bs :=
          List.filter_eq_self.mpr (hown (l, bs) (List.mem_cons_self ..))
        rw [hnone, hall]
        simp [get]
      · have hnil : (f l bs).filter (p k) = [] := by
          refine List.filter_eq_nil_iff.mpr (fun c hc hpk => hl ?_)
          exact hp l k c (hown (l, bs) (List.mem_cons_self ..) c hc) hpk
        rw [hnil, List.nil_append]
        simp [get, hl]

/-- What the items weigh is what their groups weigh. -/
theorem sum_group {M : Type x} [AddCommMonoid M] (weight : β → M) (xs : List α) :
    ((group key val xs).map (fun e => (e.2.map weight).sum)).sum =
      (xs.map (fun a => weight (val a))).sum := by
  have hsum : ∀ g : List (κ × List β), (g.map (fun e => (e.2.map weight).sum)).sum =
      ((g.flatMap Prod.snd).map weight).sum := by
    intro g
    induction g with
    | nil => rfl
    | cons e rest ih =>
        rw [List.map_cons, List.sum_cons, List.flatMap_cons, List.map_append, List.sum_append, ih]
  calc ((group key val xs).map (fun e => (e.2.map weight).sum)).sum
      = (((group key val xs).flatMap Prod.snd).map weight).sum := hsum _
    _ = ((xs.map val).map weight).sum := ((items_perm xs).map weight).sum_eq
    _ = (xs.map (fun a => weight (val a))).sum := by rw [List.map_map]; rfl

end Grouping
