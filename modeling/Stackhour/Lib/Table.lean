import Mathlib.Data.List.Nodup

/-!
# Tables with a primary key

A table is the list of its rows in insertion order (the order of SQLite's
`rowid`), with a function that reads the primary key of a row. `insert` is
refused on a key already present, `update` rewrites the rows of one key, and
`lookup` reads the row of a key.
-/

namespace Table

universe u v

variable {ρ : Type u} {κ : Type v} [DecidableEq κ]

/-- The first row with the key; under `Unique` the only one. -/
def lookup (key : ρ → κ) (t : List ρ) (k : κ) : Option ρ :=
  t.find? (fun r => decide (key r = k))

/-- Insert a row at the end, refused when its key is taken. -/
def insert (key : ρ → κ) (r : ρ) (t : List ρ) : Option (List ρ) :=
  if key r ∈ t.map key then none else some (t ++ [r])

/-- Rewrite every row with the key. -/
def update (key : ρ → κ) (k : κ) (f : ρ → ρ) (t : List ρ) : List ρ :=
  t.map (fun r => if key r = k then f r else r)

/-- No key occurs twice. -/
def Unique (key : ρ → κ) (t : List ρ) : Prop := (t.map key).Nodup

variable {key : ρ → κ}

/-! ## Lookup -/

@[simp] theorem lookup_nil (k : κ) : lookup key [] k = none := rfl

theorem mem_of_lookup {t : List ρ} {k : κ} {r : ρ}
    (h : lookup key t k = some r) : r ∈ t ∧ key r = k :=
  ⟨List.mem_of_find?_eq_some h, by simpa using List.find?_some h⟩

theorem lookup_eq_none {t : List ρ} {k : κ} :
    lookup key t k = none ↔ k ∉ t.map key := by
  simp [lookup, List.find?_eq_none]

theorem lookup_isSome {t : List ρ} {k : κ} :
    (lookup key t k).isSome ↔ k ∈ t.map key := by
  rw [← not_iff_not, Option.not_isSome_iff_eq_none, lookup_eq_none]

theorem lookup_append (t u : List ρ) (k : κ) :
    lookup key (t ++ u) k = (lookup key t k).or (lookup key u k) := by
  simp [lookup, List.find?_append]

/-- A row appended under another key leaves the lookup alone. -/
theorem lookup_snoc_of_ne {t : List ρ} {r : ρ} {k : κ} (h : key r ≠ k) :
    lookup key (t ++ [r]) k = lookup key t k := by
  simp [lookup, List.find?_append, h]

theorem lookup_snoc_self {t : List ρ} {r : ρ} (h : key r ∉ t.map key) :
    lookup key (t ++ [r]) (key r) = some r := by
  rw [lookup_append, lookup_eq_none.mpr h]
  simp [lookup]

/-- Appending rows never changes a lookup that already succeeds. -/
theorem lookup_of_prefix {t t' : List ρ} {k : κ} {r : ρ} (hpre : t <+: t')
    (h : lookup key t k = some r) : lookup key t' k = some r := by
  obtain ⟨u, rfl⟩ := hpre
  rw [lookup_append, h]
  rfl

/-- Under a unique key the lookup finds exactly the member with that key. -/
theorem lookup_eq_some_iff {t : List ρ} (hu : Unique key t) {k : κ} {r : ρ} :
    lookup key t k = some r ↔ r ∈ t ∧ key r = k := by
  refine ⟨mem_of_lookup, ?_⟩
  rintro ⟨hr, rfl⟩
  cases hl : lookup key t (key r) with
  | none => exact absurd (List.mem_map_of_mem hr) (lookup_eq_none.mp hl)
  | some r' =>
      obtain ⟨hr', hk⟩ := mem_of_lookup hl
      rw [List.inj_on_of_nodup_map hu hr' hr hk]

/-! ## Insertion -/

theorem insert_eq_some {t t' : List ρ} {r : ρ} :
    insert key r t = some t' ↔ key r ∉ t.map key ∧ t' = t ++ [r] := by
  unfold insert
  split <;> simp_all [eq_comm]

omit [DecidableEq κ] in
theorem unique_nil : Unique key ([] : List ρ) := List.nodup_nil

omit [DecidableEq κ] in
theorem Unique.snoc {t : List ρ} {r : ρ} (hu : Unique key t)
    (hr : key r ∉ t.map key) : Unique key (t ++ [r]) := by
  unfold Unique
  rw [List.map_append, List.nodup_append]
  refine ⟨hu, by simp, ?_⟩
  rintro a ha b hb rfl
  rw [List.map_singleton, List.mem_singleton] at hb
  exact hr (hb ▸ ha)

/-! ## Updates that keep the key -/

theorem update_keys {k : κ} {f : ρ → ρ} (hf : ∀ r, key (f r) = key r)
    (t : List ρ) : (update key k f t).map key = t.map key := by
  unfold update
  rw [List.map_map]
  refine List.map_congr_left fun r _ => ?_
  simp only [Function.comp_apply]
  split <;> simp [hf]

theorem Unique.update {k : κ} {f : ρ → ρ} (hf : ∀ r, key (f r) = key r)
    {t : List ρ} (hu : Unique key t) : Unique key (update key k f t) := by
  unfold Unique
  rw [update_keys hf]
  exact hu

theorem update_keys_of {k : κ} {f : ρ → ρ} (hf : ∀ r, key r = k → key (f r) = k)
    (t : List ρ) : (update key k f t).map key = t.map key := by
  unfold update
  rw [List.map_map]
  refine List.map_congr_left fun r _ => ?_
  simp only [Function.comp_apply]
  split
  · next h => rw [hf r h, h]
  · rfl

/-- The rows of the other keys stay. -/
theorem update_filter_ne {k : κ} {f : ρ → ρ} (hf : ∀ r, key r = k → key (f r) = k)
    (t : List ρ) : (update key k f t).filter (fun r => decide (key r ≠ k)) =
      t.filter (fun r => decide (key r ≠ k)) := by
  unfold update
  induction t with
  | nil => rfl
  | cons r t ih =>
      rw [List.map_cons]
      by_cases h : key r = k
      · rw [if_pos h, List.filter_cons_of_neg (by simp [hf r h]),
          List.filter_cons_of_neg (by simp [h]), ih]
      · rw [if_neg h, List.filter_cons_of_pos (by simp [h]),
          List.filter_cons_of_pos (by simp [h]), ih]

/-- The rewritten rows need keep the key only where they had it. -/
theorem lookup_update_of {k k' : κ} {f : ρ → ρ} (hf : ∀ r, key r = k → key (f r) = k)
    (t : List ρ) :
    lookup key (update key k f t) k' =
      (lookup key t k').map (fun r => if key r = k then f r else r) := by
  unfold lookup update
  rw [List.find?_map]
  congr 2
  funext r
  simp only [Function.comp_apply]
  split
  · next h => rw [hf r h, h]
  · rfl

theorem lookup_update {k k' : κ} {f : ρ → ρ} (hf : ∀ r, key (f r) = key r)
    (t : List ρ) :
    lookup key (update key k f t) k' =
      (lookup key t k').map (fun r => if key r = k then f r else r) :=
  lookup_update_of (fun r hr => (hf r).trans hr) t

theorem lookup_update_self {k : κ} {f : ρ → ρ} (hf : ∀ r, key (f r) = key r)
    (t : List ρ) :
    lookup key (update key k f t) k = (lookup key t k).map f := by
  rw [lookup_update hf]
  cases h : lookup key t k with
  | none => rfl
  | some r => simp [(mem_of_lookup h).2]

theorem lookup_update_of_ne {k k' : κ} {f : ρ → ρ} (hf : ∀ r, key (f r) = key r)
    (hne : k' ≠ k) (t : List ρ) :
    lookup key (update key k f t) k' = lookup key t k' := by
  rw [lookup_update hf]
  cases h : lookup key t k' with
  | none => rfl
  | some r => simp [(mem_of_lookup h).2, hne]

theorem mem_update {k : κ} {f : ρ → ρ} {t : List ρ} {r : ρ} :
    r ∈ update key k f t ↔
      (∃ r₀ ∈ t, key r₀ = k ∧ f r₀ = r) ∨ (r ∈ t ∧ key r ≠ k) := by
  unfold update
  rw [List.mem_map]
  constructor
  · rintro ⟨r₀, hr₀, rfl⟩
    by_cases hk : key r₀ = k
    · exact Or.inl ⟨r₀, hr₀, hk, by rw [if_pos hk]⟩
    · rw [if_neg hk]
      exact Or.inr ⟨hr₀, hk⟩
  · rintro (⟨r₀, hr₀, hk, rfl⟩ | ⟨hr, hk⟩)
    · exact ⟨r₀, hr₀, if_pos hk⟩
    · exact ⟨r, hr, if_neg hk⟩

end Table
