import Mathlib.Data.List.Nodup

/-!
# Records of named values

A record is written as the slots of its fields, some of which have no value, and read by
looking its keys up. What is read of a record is unchanged where fields are reordered and
where ones with other keys are added.
-/

namespace Records

universe u v w

variable {κ : Type u} {V : Type v} {α : Type w}

/-- The fields that have a value. -/
def record (slots : List (κ × Option V)) : List (κ × V) :=
  slots.filterMap (fun s => s.2.map (fun v => (s.1, v)))

theorem record_keys (slots : List (κ × Option V)) :
    ((record slots).map Prod.fst).Sublist (slots.map Prod.fst) := by
  induction slots with
  | nil => exact List.Sublist.refl _
  | cons slot slots ih =>
      obtain ⟨key, value⟩ := slot
      cases value with
      | none => exact ih.trans (List.sublist_cons_self ..)
      | some v => exact ih.cons_cons key

theorem mem_record {slots : List (κ × Option V)} {key : κ} {v : V} :
    (key, v) ∈ record slots ↔ (key, some v) ∈ slots := by
  unfold record
  rw [List.mem_filterMap]
  constructor
  · rintro ⟨⟨k, o⟩, hmem, heq⟩
    cases o with
    | none => cases heq
    | some w =>
        cases heq
        exact hmem
  · intro hmem
    exact ⟨(key, some v), hmem, rfl⟩

variable [DecidableEq κ]

/-- The first value of a key. -/
def get (k : κ) : List (κ × V) → Option V
  | [] => none
  | (key, v) :: rest => if key = k then some v else get k rest

theorem get_of_not_mem {k : κ} {fields : List (κ × V)} (h : k ∉ fields.map Prod.fst) :
    get k fields = none := by
  induction fields with
  | nil => rfl
  | cons field fields ih =>
      rw [List.map_cons, List.mem_cons, not_or] at h
      rw [get, if_neg (Ne.symm h.1)]
      exact ih h.2

/-- A slot is read back, be there a value in it or not. -/
theorem get_record {slots : List (κ × Option V)} (hkeys : (slots.map Prod.fst).Nodup) {k : κ}
    {o : Option V} (h : (k, o) ∈ slots) : get k (record slots) = o := by
  induction slots with
  | nil => cases h
  | cons slot slots ih =>
      obtain ⟨key, value⟩ := slot
      rw [List.map_cons, List.nodup_cons] at hkeys
      have hsub := (record_keys slots).subset
      rcases List.mem_cons.mp h with heq | hmem
      · cases heq
        have hnone : get k (record slots) = none := get_of_not_mem fun hk => hkeys.1 (hsub hk)
        cases o with
        | none => exact hnone
        | some v => exact if_pos rfl
      · have hne : key ≠ k := by
          rintro rfl
          exact hkeys.1 (List.mem_map.mpr ⟨_, hmem, rfl⟩)
        cases value with
        | none => exact ih hkeys.2 hmem
        | some v => exact (if_neg hne).trans (ih hkeys.2 hmem)

/-! ## Readers -/

/-- How a value of a field is written and read. -/
structure Codec (V : Type v) (α : Type w) where
  enc : α → V
  dec : V → Option α

/-- What was written is read back. -/
def Codec.Reads (c : Codec V α) (a : α) : Prop := c.dec (c.enc a) = some a

/-- A value held inside another. -/
def Codec.map {β : Type*} (c : Codec V α) (wrap : α → β) (unwrap : β → α) : Codec V β where
  enc b := c.enc (unwrap b)
  dec v := (c.dec v).map wrap

theorem Codec.Reads.map {β : Type*} {c : Codec V α} {wrap : α → β} {unwrap : β → α} {b : β}
    (h : c.Reads (unwrap b)) (hwrap : wrap (unwrap b) = b) : (c.map wrap unwrap).Reads b := by
  show (c.dec (c.enc (unwrap b))).map wrap = some b
  rw [h, Option.map_some, hwrap]

/-- A value of an enumeration by its name. -/
def Codec.named (c : Codec V κ) (all : List α) (name : α → κ) : Codec V α where
  enc a := c.enc (name a)
  dec v := (c.dec v).bind (fun s => all.find? (fun a => decide (name a = s)))

theorem Codec.Reads.named {c : Codec V κ} {all : List α} {name : α → κ} {a : α}
    (h : c.Reads (name a)) (hmem : a ∈ all) (hinj : ∀ b ∈ all, name b = name a → b = a) :
    (c.named all name).Reads a := by
  show (c.dec (c.enc (name a))).bind (fun s => all.find? (fun b => decide (name b = s))) = some a
  rw [h, Option.bind_some]
  cases hfind : all.find? (fun b => decide (name b = name a)) with
  | none =>
      have hnone := List.find?_eq_none.mp hfind a hmem
      exact absurd (decide_eq_true rfl) hnone
  | some b =>
      have hname : name b = name a := by simpa using List.find?_some hfind
      rw [hinj b (List.mem_of_find?_eq_some hfind) hname]

/-- A field that must be there. -/
def required (c : Codec V α) (k : κ) (fields : List (κ × V)) : Option α :=
  (get k fields).bind c.dec

/-- A field that may be missing or empty. -/
def optionalField (c : Codec V α) (isNull : V → Bool) (k : κ) (fields : List (κ × V)) :
    Option (Option α) :=
  match get k fields with
  | none => some none
  | some v => if isNull v then some none else (c.dec v).map some

theorem required_eq {c : Codec V α} {k : κ} {fields : List (κ × V)} {a : α} (h : c.Reads a)
    (hget : get k fields = some (c.enc a)) : required c k fields = some a := by
  rw [required, hget]
  exact h

theorem optionalField_eq {c : Codec V α} {isNull : V → Bool} {k : κ} {fields : List (κ × V)}
    {o : Option α} (h : ∀ a ∈ o, c.Reads a ∧ isNull (c.enc a) = false)
    (hget : get k fields = o.map c.enc) : optionalField c isNull k fields = some o := by
  rw [optionalField, hget]
  cases o with
  | none => rfl
  | some a =>
      obtain ⟨hreads, hnull⟩ := h a rfl
      rw [Option.map_some]
      show (if isNull (c.enc a) then some none else (c.dec (c.enc a)).map some) = _
      rw [hnull, hreads]
      rfl

/-- An option that is written as an empty value. -/
theorem optionalField_eq_null {c : Codec V α} {isNull : V → Bool} {k : κ} {fields : List (κ × V)}
    {o : Option α} {null : V} (h : ∀ a ∈ o, c.Reads a ∧ isNull (c.enc a) = false)
    (hnull : isNull null = true) (hget : get k fields = some ((o.map c.enc).getD null)) :
    optionalField c isNull k fields = some o := by
  rw [optionalField, hget]
  cases o with
  | none =>
      show (if isNull null then some none else (c.dec null).map some) = _
      rw [hnull]
      rfl
  | some a =>
      obtain ⟨hreads, hsome⟩ := h a rfl
      show (if isNull (c.enc a) then some none else (c.dec (c.enc a)).map some) = _
      rw [hsome, hreads]
      rfl

/-- Fields that have the same values under some keys. -/
def Agrees (keys : List κ) (fields other : List (κ × V)) : Prop :=
  ∀ k ∈ keys, get k other = get k fields

theorem Agrees.refl (keys : List κ) (fields : List (κ × V)) : Agrees keys fields fields :=
  fun _ _ => rfl

/-! ## Slots -/

/-- A field of a record that is to be written: always, or only where there is a value, or as
an empty value where there is none. -/
inductive Slot (κ : Type u) (V : Type v) : Type (max u v 1) where
  | must {α : Type} (k : κ) (c : Codec V α) (a : α)
  | skip {α : Type} (k : κ) (c : Codec V α) (o : Option α)
  | nullable {α : Type} (k : κ) (c : Codec V α) (o : Option α)

namespace Slot

variable (isNull : V → Bool) (null : V)

def key : Slot κ V → κ
  | .must k _ _ => k
  | .skip k _ _ => k
  | .nullable k _ _ => k

def value : Slot κ V → Option V
  | .must _ c a => some (c.enc a)
  | .skip _ c o => o.map c.enc
  | .nullable _ c o => some ((o.map c.enc).getD null)

/-- What is written in it is read back, and no value is written as an empty one. -/
def Ok : Slot κ V → Prop
  | .must _ c a => c.Reads a
  | .skip _ c o => ∀ a ∈ o, c.Reads a ∧ isNull (c.enc a) = false
  | .nullable _ c o => ∀ a ∈ o, c.Reads a ∧ isNull (c.enc a) = false

/-- The field is read as what was written in it. -/
def Read (fields : List (κ × V)) : Slot κ V → Prop
  | .must k c a => required c k fields = some a
  | .skip k c o => optionalField c isNull k fields = some o
  | .nullable k c o => optionalField c isNull k fields = some o

end Slot

/-- The record of some slots. -/
def write (null : V) (slots : List (Slot κ V)) : List (κ × V) :=
  record (slots.map (fun s => (s.key, s.value null)))

/-- **Slots are read back** from all fields that agree with their record. -/
theorem read_of_agrees {isNull : V → Bool} {null : V} (hnull : isNull null = true)
    {slots : List (Slot κ V)} {keys : List κ} {fields : List (κ × V)}
    (hok : ∀ s ∈ slots, s.Ok isNull) (hnodup : (slots.map Slot.key).Nodup)
    (hkeys : slots.map Slot.key ⊆ keys) (h : Agrees keys (write null slots) fields) :
    ∀ s ∈ slots, s.Read isNull fields := by
  intro s hs
  have hpairs : ((slots.map (fun s => (s.key, s.value null))).map Prod.fst).Nodup := by
    rw [List.map_map]
    exact hnodup
  have hget : get s.key fields = s.value null := by
    rw [h s.key (hkeys (List.mem_map_of_mem hs))]
    exact get_record hpairs (List.mem_map_of_mem hs)
  have hslot := hok s hs
  cases s with
  | must k c a => exact required_eq hslot hget
  | skip k c o => exact optionalField_eq hslot hget
  | nullable k c o => exact optionalField_eq_null hslot hnull hget

end Records
