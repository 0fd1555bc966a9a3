import Mathlib.Algebra.Group.Int.Defs
import Stackhour.Core.FsUtil
import Stackhour.Core.JsNum
import Stackhour.Lib.Table

/-!
# JSON documents

The maps of `serde_json`, which keep the order of their keys, and what its reader
and its pretty printer promise of each other.
-/

namespace Stackhour.Domain

/-! ## Maps -/

/-- `serde_json::Map` with `preserve_order`. -/
abbrev Fields := List (String × Json)

namespace Fields

/-- `Map::get`. -/
def get (fields : Fields) (key : String) : Option Json :=
  (Table.lookup Prod.fst fields key).map Prod.snd

/-- `Map::insert`: a key that is there keeps its place. -/
def insert (fields : Fields) (key : String) (v : Json) : Fields :=
  if key ∈ fields.map Prod.fst then Table.update Prod.fst key (Function.const _ (key, v)) fields
  else fields ++ [(key, v)]

/-- `Map::shift_remove`. -/
def remove (fields : Fields) (key : String) : Fields := fields.filter (fun f => decide (f.1 ≠ key))

/-- What `Map::get_mut` is used for. -/
def modify (fields : Fields) (key : String) (f : Json → Json) : Fields :=
  Table.update Prod.fst key (Prod.map id f) fields

theorem const_fst (key : String) (v : Json) :
    ∀ e : String × Json, e.1 = key → (Function.const _ (key, v) e).1 = key := fun _ _ => rfl

theorem map_fst (f : Json → Json) : ∀ e : String × Json, (Prod.map id f e).1 = e.1 :=
  fun _ => rfl

theorem insert_nodup {fields : Fields} (h : Table.Unique Prod.fst fields) (key : String)
    (v : Json) : Table.Unique Prod.fst (fields.insert key v) := by
  unfold insert
  split
  · unfold Table.Unique
    rw [Table.update_keys_of (const_fst key v)]
    exact h
  · next hkey => exact h.snoc hkey

theorem remove_nodup {fields : Fields} (h : Table.Unique Prod.fst fields) (key : String) :
    Table.Unique Prod.fst (fields.remove key) := h.sublist (List.filter_sublist.map Prod.fst)

theorem modify_nodup {fields : Fields} (h : Table.Unique Prod.fst fields) (key : String)
    (f : Json → Json) : Table.Unique Prod.fst (fields.modify key f) := h.update (map_fst f)

/-- The other fields keep their values and order. -/
theorem insert_remove (fields : Fields) (key : String) (v : Json) :
    (fields.insert key v).remove key = fields.remove key := by
  unfold insert remove
  split
  · exact Table.update_filter_ne (const_fst key v) fields
  · rw [List.filter_append]
    simp

theorem remove_remove (fields : Fields) (key : String) :
    (fields.remove key).remove key = fields.remove key := by
  unfold remove
  rw [List.filter_filter]
  simp

theorem modify_remove (fields : Fields) (key : String) (f : Json → Json) :
    (fields.modify key f).remove key = fields.remove key :=
  Table.update_filter_ne (fun e h => (map_fst f e).trans h) fields

theorem get_insert (fields : Fields) (key : String) (v : Json) :
    (fields.insert key v).get key = some v := by
  unfold get insert
  split
  · next hkey =>
      obtain ⟨e, he⟩ := Option.isSome_iff_exists.mp (Table.lookup_isSome.mpr hkey)
      rw [Table.lookup_update_of (const_fst key v), he]
      simp [(Table.mem_of_lookup he).2]
  · next hkey =>
      rw [Table.lookup_snoc_self (r := (key, v)) hkey]
      rfl

theorem get_insert_of_ne {fields : Fields} {key k : String} (h : k ≠ key) (v : Json) :
    (fields.insert key v).get k = fields.get k := by
  unfold get insert
  split
  · rw [Table.lookup_update_of (const_fst key v)]
    cases hlookup : Table.lookup Prod.fst fields k with
    | none => rfl
    | some e =>
        have hne : e.1 ≠ key := (Table.mem_of_lookup hlookup).2 ▸ h
        simp [hne]
  · rw [Table.lookup_snoc_of_ne (r := (key, v)) h.symm]

theorem get_remove (fields : Fields) (key : String) : (fields.remove key).get key = none := by
  unfold get
  rw [Table.lookup_eq_none.mpr]
  · rfl
  · simp [remove]

theorem get_modify (fields : Fields) (key : String) (f : Json → Json) :
    (fields.modify key f).get key = (fields.get key).map f := by
  unfold get modify
  rw [Table.lookup_update_self (map_fst f), Option.map_map, Option.map_map]
  rfl

/-- A field that is modified twice is modified once. -/
theorem modify_modify (fields : Fields) (key : String) (f g : Json → Json) :
    (fields.modify key f).modify key g = fields.modify key (g ∘ f) := by
  unfold modify Table.update
  rw [List.map_map]
  apply List.map_congr_left
  intro e _
  by_cases he : e.1 = key <;> simp [he, Prod.map]

/-- Only what the key holds counts. -/
theorem modify_congr {fields : Fields} {key : String} {f g : Json → Json}
    (h : ∀ e ∈ fields, e.1 = key → f e.2 = g e.2) : fields.modify key f = fields.modify key g := by
  unfold modify Table.update
  apply List.map_congr_left
  intro e he
  by_cases hkey : e.1 = key
  · simp [hkey, Prod.map, h e he hkey]
  · simp [hkey]

theorem mem_of_get {fields : Fields} {key : String} {v : Json} (h : fields.get key = some v) :
    (key, v) ∈ fields := by
  obtain ⟨e, he, rfl⟩ := Option.map_eq_some_iff.mp h
  obtain ⟨hmem, rfl⟩ := Table.mem_of_lookup he
  exact hmem

/-- With unique keys a field is what its key gives. -/
theorem get_of_mem {fields : Fields} (h : Table.Unique Prod.fst fields) {e : String × Json}
    (hmem : e ∈ fields) : fields.get e.1 = some e.2 := by
  rw [get, (Table.lookup_eq_some_iff h).mpr ⟨hmem, rfl⟩, Option.map_some]

theorem mem_insert {fields : Fields} {key : String} {v : Json} {e : String × Json}
    (h : e ∈ fields.insert key v) : e = (key, v) ∨ (e ∈ fields ∧ e.1 ≠ key) := by
  by_cases he : e.1 = key
  · left
    unfold insert at h
    split at h
    · rcases Table.mem_update.mp h with ⟨_, _, _, rfl⟩ | ⟨_, hne⟩
      · rfl
      · exact absurd he hne
    · next hkey =>
        rcases List.mem_append.mp h with hmem | hmem
        · exact absurd (he ▸ List.mem_map_of_mem hmem) hkey
        · exact List.mem_singleton.mp hmem
  · right
    have hmem : e ∈ (fields.insert key v).remove key := List.mem_filter.mpr ⟨h, by simpa using he⟩
    rw [insert_remove] at hmem
    exact ⟨(List.mem_filter.mp hmem).1, he⟩

end Fields

/-! ## What a document may be -/

/-- `as_object_mut` and an edit of the map. -/
def Json.onObject (f : Fields → Fields) : Json → Json
  | .object fields => .object (f fields)
  | v => v

/-- A 64-bit integer or a finite float. -/
def Number.Fits : Number → Prop
  | .int n => -2 ^ 63 ≤ n ∧ n < 2 ^ 64
  | .float bits => Core.F64.isFinite bits = true

instance : DecidablePred Number.Fits
  | .int n => inferInstanceAs (Decidable (-2 ^ 63 ≤ n ∧ n < 2 ^ 64))
  | .float bits => inferInstanceAs (Decidable (Core.F64.isFinite bits = true))

/-- Values of at most some depth; no object has a key twice. -/
inductive Json.Fits : ℕ → Json → Prop where
  | null {depth : ℕ} : Fits depth .null
  | bool {depth : ℕ} (b : Bool) : Fits depth (.bool b)
  | number {depth : ℕ} {n : Number} (h : n.Fits) : Fits depth (.number n)
  | string {depth : ℕ} (s : String) : Fits depth (.string s)
  | array {depth : ℕ} {items : List Json} (h : ∀ v ∈ items, Fits depth v) :
      Fits (depth + 1) (.array items)
  | object {depth : ℕ} {fields : Fields} (hkeys : Table.Unique Prod.fst fields)
      (h : ∀ f ∈ fields, Fits depth f.2) : Fits (depth + 1) (.object fields)

theorem Json.Fits.insert {depth : ℕ} {fields : Fields} (h : Json.Fits (depth + 1) (.object fields))
    (key : String) {v : Json} (hv : v.Fits depth) :
    Json.Fits (depth + 1) (.object (fields.insert key v)) := by
  cases h with
  | object hkeys hfields =>
      refine .object (Fields.insert_nodup hkeys key v) ?_
      intro e he
      rcases Fields.mem_insert he with rfl | ⟨hmem, -⟩
      · exact hv
      · exact hfields e hmem

theorem Json.Fits.remove {depth : ℕ} {fields : Fields} (h : Json.Fits (depth + 1) (.object fields))
    (key : String) : Json.Fits (depth + 1) (.object (fields.remove key)) := by
  cases h with
  | object hkeys hfields =>
      exact .object (Fields.remove_nodup hkeys key)
        (fun e he => hfields e (List.mem_of_mem_filter he))

theorem Json.Fits.modify {depth : ℕ} {fields : Fields} (h : Json.Fits (depth + 1) (.object fields))
    {key : String} {f : Json → Json}
    (hf : ∀ v, (key, v) ∈ fields → v.Fits depth → (f v).Fits depth) :
    Json.Fits (depth + 1) (.object (fields.modify key f)) := by
  cases h with
  | object hkeys hfields =>
      refine .object (Fields.modify_nodup hkeys key f) ?_
      intro e he
      rcases Table.mem_update.mp he with ⟨e₀, hmem, hkey, rfl⟩ | ⟨hmem, -⟩
      · exact hf _ (hkey ▸ hmem) (hfields _ hmem)
      · exact hfields e hmem

end Stackhour.Domain

namespace Stackhour.Core

open Domain

/-- `to_string_pretty` and `from_str`, with the text of the reader's error. -/
structure JsonText where
  pretty : Json → List Char
  parse : List Char → Except String Json

/-- What is read has at most 127 levels, and what could have been read is read back
from its text and the newline after it. -/
structure JsonText.Lawful (J : JsonText) : Prop where
  fits : ∀ {text v}, J.parse text = .ok v → v.Fits 127
  parse_pretty : ∀ {v : Json}, v.Fits 127 → J.parse (J.pretty v ++ ['\n']) = .ok v

end Stackhour.Core
