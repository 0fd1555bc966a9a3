import Mathlib.Data.List.Induction
import Mathlib.Data.List.Nodup
import Mathlib.Order.Lattice

/-!
# The latest item of each key

A map that is filled item by item keeps under each key the first of its latest items. Keys
stand in the order of their first items.
-/

namespace Latest

universe u v w

variable {α : Type u} {κ : Type v} {τ : Type w} [DecidableEq κ] [LinearOrder τ]
variable (key : α → κ) (value : α → τ)

/-- Keep an item under its key, unless the one that is there is as late. -/
def keep : List α → α → List α
  | [], r => [r]
  | a :: kept, r =>
      if key a = key r then (if value r ≤ value a then a else r) :: kept
      else a :: keep kept r

def latest (items : List α) : List α := items.foldl (keep key value) []

/-- The item is its key's latest, and the first of these. -/
structure IsLatest (items : List α) (a : α) : Prop where
  mem : a ∈ items
  first : ∃ before after, items = before ++ a :: after ∧
    (∀ r ∈ before, key r = key a → value r < value a) ∧
    ∀ r ∈ after, key r = key a → value r ≤ value a

variable {key value}

theorem latest_snoc (items : List α) (r : α) :
    latest key value (items ++ [r]) = keep key value (latest key value items) r :=
  List.foldl_concat ..

theorem keep_keys (kept : List α) (r : α) : (keep key value kept r).map key =
    if key r ∈ kept.map key then kept.map key else kept.map key ++ [key r] := by
  induction kept with
  | nil => rfl
  | cons a kept ih =>
      by_cases hkey : key a = key r
      · have hmem : key r ∈ (a :: kept).map key := hkey ▸ List.mem_cons_self ..
        rw [keep, if_pos hkey, if_pos hmem]
        split
        · rfl
        · rw [List.map_cons, List.map_cons, hkey]
      · rw [keep, if_neg hkey, List.map_cons, ih]
        have hne : key r ≠ key a := Ne.symm hkey
        by_cases hmem : key r ∈ kept.map key
        · simp [hmem]
        · simp [hmem, hne]

/-- What is kept once an item has come. -/
theorem mem_keep {kept : List α} (hnodup : (kept.map key).Nodup) {r a : α}
    (h : a ∈ keep key value kept r) :
    (a ∈ kept ∧ (key a = key r → value r ≤ value a)) ∨
      (a = r ∧ ∀ b ∈ kept, key b = key r → value b < value r) := by
  induction kept with
  | nil => exact .inr ⟨List.mem_singleton.mp h, nofun⟩
  | cons b kept ih =>
      rw [List.map_cons, List.nodup_cons] at hnodup
      -- no other item has the key of this one
      have hother : ∀ c ∈ kept, key c ≠ key b :=
        fun c hc heq => hnodup.1 (heq ▸ List.mem_map_of_mem hc)
      by_cases hkey : key b = key r
      · rw [keep, if_pos hkey] at h
        rcases List.mem_cons.mp h with rfl | hmem
        · split
          · next hle => exact .inl ⟨List.mem_cons_self .., fun _ => hle⟩
          · next hlt =>
              refine .inr ⟨rfl, fun c hc hcr => ?_⟩
              rcases List.mem_cons.mp hc with rfl | hc
              · exact not_le.mp hlt
              · exact absurd (hcr.trans hkey.symm) (hother c hc)
        · exact .inl ⟨List.mem_cons_of_mem _ hmem,
            fun har => absurd (har.trans hkey.symm) (hother a hmem)⟩
      · rw [keep, if_neg hkey] at h
        rcases List.mem_cons.mp h with rfl | hmem
        · exact .inl ⟨List.mem_cons_self .., fun heq => absurd heq hkey⟩
        · rcases ih hnodup.2 hmem with ⟨hkept, hle⟩ | ⟨rfl, hlt⟩
          · exact .inl ⟨List.mem_cons_of_mem _ hkept, hle⟩
          · refine .inr ⟨rfl, fun c hc hcr => ?_⟩
            rcases List.mem_cons.mp hc with rfl | hc
            · exact absurd hcr hkey
            · exact hlt c hc hcr

variable (key value)

theorem latest_keys (items : List α) : ((latest key value items).map key).Nodup ∧
    ∀ k, k ∈ (latest key value items).map key ↔ k ∈ items.map key := by
  induction items using List.reverseRecOn with
  | nil => exact ⟨List.nodup_nil, fun _ => Iff.rfl⟩
  | append_singleton items r ih =>
      rw [latest_snoc, keep_keys]
      split
      · next hmem =>
          refine ⟨ih.1, fun k => ?_⟩
          rw [ih.2, List.map_append, List.mem_append, List.map_singleton, List.mem_singleton]
          refine ⟨.inl, ?_⟩
          rintro (hk | rfl)
          · exact hk
          · exact (ih.2 _).mp hmem
      · next hmem =>
          refine ⟨List.nodup_append.mpr ⟨ih.1, List.nodup_singleton _, ?_⟩, fun k => ?_⟩
          · rintro k hk _ hr rfl
            exact hmem (List.mem_singleton.mp hr ▸ hk)
          · rw [List.map_append, List.mem_append, List.mem_append, ih.2]
            rfl

/-- **What is kept is its key's latest**, and the first of these. -/
theorem latest_isLatest (items : List α) :
    ∀ a ∈ latest key value items, IsLatest key value items a := by
  induction items using List.reverseRecOn with
  | nil => exact nofun
  | append_singleton items r ih =>
      intro a ha
      rw [latest_snoc] at ha
      rcases mem_keep (latest_keys key value items).1 ha with ⟨hkept, hle⟩ | ⟨rfl, hlt⟩
      · obtain ⟨hmem, before, after, rfl, hbefore, hafter⟩ := ih a hkept
        refine ⟨List.mem_append_left _ hmem, before, after ++ [r], ?_, hbefore, ?_⟩
        · rw [List.append_assoc, List.cons_append]
        · intro x hx hxa
          rcases List.mem_append.mp hx with hx | hx
          · exact hafter x hx hxa
          · obtain rfl := List.mem_singleton.mp hx
            exact hle hxa.symm
      · refine ⟨List.mem_append_right _ (List.mem_singleton_self _), items, [], rfl, ?_, nofun⟩
        intro x hx hxa
        -- the item that stood under the key is as late as any before it
        obtain ⟨b, hb, hkey⟩ := List.mem_map.mp (((latest_keys key value items).2 (key x)).mpr
          (List.mem_map_of_mem hx))
        obtain ⟨-, before, after, heq, hbefore, hafter⟩ := ih b hb
        refine lt_of_le_of_lt ?_ (hlt b hb (hkey.trans hxa))
        rw [heq] at hx
        rcases List.mem_append.mp hx with hx | hx
        · exact le_of_lt (hbefore x hx hkey.symm)
        · rcases List.mem_cons.mp hx with rfl | hx
          · exact le_rfl
          · exact hafter x hx hkey.symm

/-- Keys stand in the order of their first items. -/
theorem latest_order (items : List α) : ((latest key value items).map key).Pairwise fun k l =>
    (items.map key).idxOf k < (items.map key).idxOf l := by
  induction items using List.reverseRecOn with
  | nil => exact List.Pairwise.nil
  | append_singleton items r ih =>
      have hmem := (latest_keys key value items).2
      have hfirst : ∀ k ∈ (latest key value items).map key,
          ((items ++ [r]).map key).idxOf k = (items.map key).idxOf k := by
        intro k hk
        rw [List.map_append]
        exact List.idxOf_append_of_mem ((hmem k).mp hk)
      have hold : ((latest key value items).map key).Pairwise fun k l =>
          ((items ++ [r]).map key).idxOf k < ((items ++ [r]).map key).idxOf l := by
        refine ih.imp_of_mem fun hk hl hlt => ?_
        rw [hfirst _ hk, hfirst _ hl]
        exact hlt
      rw [latest_snoc, keep_keys]
      split
      · exact hold
      · next hnew =>
          refine List.pairwise_append.mpr ⟨hold, List.pairwise_singleton .., ?_⟩
          intro k hk l hl
          obtain rfl := List.mem_singleton.mp hl
          rw [hfirst k hk, List.map_append,
            List.idxOf_append_of_notMem fun hr => hnew ((hmem _).mpr hr)]
          have hlt := List.idxOf_lt_length_of_mem ((hmem k).mp hk)
          omega

/-- Where a key comes before another, an item of it comes before all those of the other. -/
theorem first_item {items : List α} {k l : κ}
    (h : (items.map key).idxOf k < (items.map key).idxOf l) :
    ∃ before c after, items = before ++ c :: after ∧ key c = k ∧
      ∀ e ∈ items, key e = l → e ∈ after := by
  induction items with
  | nil => exact absurd h (Nat.lt_irrefl _)
  | cons a items ih =>
      rw [List.map_cons, List.idxOf_cons, List.idxOf_cons] at h
      by_cases hl : key a = l
      · simp [hl] at h
      · by_cases hk : key a = k
        · refine ⟨[], a, items, rfl, hk, fun e he hel => ?_⟩
          rcases List.mem_cons.mp he with rfl | he
          · exact absurd hel hl
          · exact he
        · rw [beq_eq_false_iff_ne.mpr hk, beq_eq_false_iff_ne.mpr hl] at h
          obtain ⟨before, c, after, rfl, hc, hafter⟩ := ih (Nat.lt_of_succ_lt_succ h)
          refine ⟨a :: before, c, after, rfl, hc, fun e he hel => ?_⟩
          rcases List.mem_cons.mp he with rfl | he
          · exact absurd hel hl
          · exact hafter e he hel

end Latest
