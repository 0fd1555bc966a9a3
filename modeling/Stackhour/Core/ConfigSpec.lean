import Mathlib.Data.List.Nodup
import Stackhour.Core.Config

/-!
# What a merged configuration says

A merged configuration is read along paths of keys. A path that the file of the user reaches is
answered with what stands there, one that it leaves open with the default. Merging over the same
defaults once more changes nothing, keys in order included.
-/

namespace Stackhour.Domain.Fields

theorem get_cons (e : String × Json) (fields : Fields) (k : String) :
    get (e :: fields) k = if e.1 = k then some e.2 else get fields k := by
  unfold get Table.lookup
  by_cases h : e.1 = k
  · simp [h]
  · simp [h]

theorem get_eq_none {fields : Fields} {k : String} :
    fields.get k = none ↔ k ∉ fields.map Prod.fst := by
  unfold get
  rw [Option.map_eq_none_iff, Table.lookup_eq_none]

theorem insert_keys (fields : Fields) (k : String) (v : Json) :
    (fields.insert k v).map Prod.fst =
      fields.map Prod.fst ++ if k ∈ fields.map Prod.fst then [] else [k] := by
  unfold insert
  split
  · rw [Table.update_keys_of (const_fst k v), List.append_nil]
  · rw [List.map_append]
    rfl

theorem get_modify_of_ne {key k : String} (h : k ≠ key) (fields : Fields) (f : Json → Json) :
    (fields.modify key f).get k = fields.get k := by
  unfold get modify
  rw [Table.lookup_update_of_ne (map_fst f) h]

theorem get_remove_of_ne {key k : String} (h : k ≠ key) (fields : Fields) :
    (fields.remove key).get k = fields.get k := by
  induction fields with
  | nil => rfl
  | cons e rest ih =>
      by_cases he : e.1 = key
      · rw [get_cons, if_neg (fun hk => h (hk.symm.trans he)), ← ih]
        unfold remove
        rw [List.filter_cons_of_neg (by simpa using he)]
      · have hkept : remove (e :: rest) key = e :: remove rest key :=
          List.filter_cons_of_pos (by simpa using he)
        rw [hkept, get_cons, get_cons, ih]

/-- A map is its keys in order with what they give. -/
theorem eq_of_get {a b : Fields} (ha : Table.Unique Prod.fst a) (hb : Table.Unique Prod.fst b)
    (hkeys : a.map Prod.fst = b.map Prod.fst) (hget : ∀ k, a.get k = b.get k) : a = b := by
  have hread : ∀ {c : Fields}, Table.Unique Prod.fst c →
      c = (c.map Prod.fst).map fun k => (k, (c.get k).getD .null) := by
    intro c hc
    rw [List.map_map]
    conv_lhs => rw [← List.map_id c]
    apply List.map_congr_left
    intro e he
    show e = (e.1, (c.get e.1).getD .null)
    rw [get_of_mem hc he]
    rfl
  rw [hread ha, hread hb, hkeys]
  apply List.map_congr_left
  intro k _
  rw [hget k]

end Stackhour.Domain.Fields

namespace Stackhour.Core

open Domain

/-! ## One level -/

theorem mergeFields_get {user : Fields} (hu : Table.Unique Prod.fst user) (out : Fields)
    (k : String) :
    (mergeFields out user).get k =
      match user.get k with
      | some v => some (mergeValue (out.get k) v)
      | none => out.get k := by
  induction user generalizing out with
  | nil => rfl
  | cons e rest ih =>
      obtain ⟨k₀, v₀⟩ := e
      obtain ⟨hfresh, hrest⟩ := List.nodup_cons.mp hu
      have hnone : Fields.get rest k₀ = none := Fields.get_eq_none.mpr hfresh
      rw [mergeFields, ih hrest, Fields.get_cons]
      by_cases hk : k₀ = k
      · subst hk
        rw [hnone, if_pos rfl]
        exact Fields.get_insert out k₀ _
      · rw [if_neg hk, Fields.get_insert_of_ne (Ne.symm hk)]

theorem mergeFields_keys {user : Fields} (hu : Table.Unique Prod.fst user) (out : Fields) :
    (mergeFields out user).map Prod.fst =
      out.map Prod.fst ++ (user.map Prod.fst).filter fun k => k ∉ out.map Prod.fst := by
  induction user generalizing out with
  | nil => exact (List.append_nil _).symm
  | cons e rest ih =>
      obtain ⟨k₀, v₀⟩ := e
      obtain ⟨hfresh, hrest⟩ := List.nodup_cons.mp hu
      rw [mergeFields, ih hrest, Fields.insert_keys]
      by_cases hk : k₀ ∈ out.map Prod.fst
      · rw [if_pos hk, List.append_nil, List.map_cons, List.filter_cons_of_neg (by simpa using hk)]
      · rw [if_neg hk, List.map_cons, List.filter_cons_of_pos (by simpa using hk),
          List.append_assoc, List.singleton_append]
        congr 2
        apply List.filter_congr
        intro k hmem
        have hne : k ≠ k₀ := fun h => hfresh (h ▸ hmem)
        simp [hne]

theorem mergeFields_unique {user : Fields} (hu : Table.Unique Prod.fst user) {out : Fields}
    (hout : Table.Unique Prod.fst out) : Table.Unique Prod.fst (mergeFields out user) := by
  unfold Table.Unique
  rw [mergeFields_keys hu]
  refine List.Nodup.append hout (List.Nodup.filter _ hu) ?_
  intro k hk hfiltered
  exact absurd hk (by simpa using (List.mem_filter.mp hfiltered).2)

theorem repr_injective {a b : ℕ} (h : a.repr = b.repr) : a = b := by
  have htext : Nat.toDigits 10 a = Nat.toDigits 10 b := by
    have hlist := congrArg String.toList h
    rwa [Nat.repr, Nat.repr, String.toList_ofList, String.toList_ofList] at hlist
  rw [← @Nat.ofDigitChars_ten_toDigits a, htext, Nat.ofDigitChars_ten_toDigits]

/-- Indices are distinct keys. -/
theorem zipIdx_unique {α : Type} (f : α → Json) (items : List α) :
    Table.Unique Prod.fst (items.zipIdx.map fun p => (p.2.repr, f p.1)) := by
  unfold Table.Unique
  rw [List.map_map]
  have hkeys : (Prod.fst ∘ fun p : α × ℕ => (p.2.repr, f p.1)) = Nat.repr ∘ Prod.snd := rfl
  rw [hkeys, ← List.map_map, List.zipIdx_map_snd]
  exact List.Nodup.map (fun _ _ => repr_injective) List.nodup_range'

theorem spreadIntoMap_unique {depth : ℕ} {v : Json} (h : v.Fits depth) :
    Table.Unique Prod.fst (spreadIntoMap v) := by
  cases h with
  | object hkeys hfields => exact hkeys
  | array h => exact zipIdx_unique id _
  | string s => exact zipIdx_unique (fun c => .string (String.singleton c)) s.toList
  | _ => exact Table.unique_nil

/-- A value as `serde_json` reads it. -/
def WellFormed (v : Json) : Prop := ∃ depth, v.Fits depth

theorem spreadIntoMap_wellFormed {v w : Json} {k : String} (h : WellFormed v)
    (hget : (spreadIntoMap v).get k = some w) : WellFormed w := by
  have hmem := Fields.mem_of_get hget
  obtain ⟨depth, h⟩ := h
  cases h with
  | object _ hfields => exact ⟨_, hfields _ hmem⟩
  | array hitems =>
      obtain ⟨p, hp, heq⟩ := List.mem_map.mp hmem
      rw [← (Prod.mk.inj heq).2]
      exact ⟨_, hitems _ (List.fst_mem_of_mem_zipIdx hp)⟩
  | string s =>
      obtain ⟨p, -, heq⟩ := List.mem_map.mp hmem
      rw [← (Prod.mk.inj heq).2]
      exact ⟨0, .string _⟩
  | _ => cases hmem

/-! ## Merging again -/

/-- A map that is merged over itself stays, if its values do. -/
theorem mergeFields_same {m : Fields} (hm : Table.Unique Prod.fst m)
    (h : ∀ k v, m.get k = some v → mergeValue (some v) v = v) : mergeFields m m = m := by
  apply Fields.eq_of_get (mergeFields_unique hm hm) hm
  · rw [mergeFields_keys hm, List.filter_eq_nil_iff.mpr (by simp), List.append_nil]
  · intro k
    rw [mergeFields_get hm]
    cases hget : m.get k with
    | none => rfl
    | some v => exact congrArg some (h k v hget)

theorem mergeValue_same {v : Json} (h : WellFormed v) : mergeValue (some v) v = v := by
  obtain ⟨depth, h⟩ := h
  induction h with
  | @object depth fields hkeys hfields ih =>
      rw [mergeValue]
      exact congrArg Json.object
        (mergeFields_same hkeys fun k v hget => ih _ (Fields.mem_of_get hget))
  | _ => rfl

/-- A map that was merged over another one is merged over it again. -/
theorem mergeFields_again {out user : Fields} (hout : Table.Unique Prod.fst out)
    (hu : Table.Unique Prod.fst user) (hsame : ∀ k v, out.get k = some v → WellFormed v)
    (h : ∀ k v, user.get k = some v →
      mergeValue (out.get k) (mergeValue (out.get k) v) = mergeValue (out.get k) v) :
    mergeFields out (mergeFields out user) = mergeFields out user := by
  have hmerged := mergeFields_unique hu hout
  apply Fields.eq_of_get (mergeFields_unique hmerged hout) hmerged
  · rw [mergeFields_keys hmerged, mergeFields_keys hu, List.filter_append, List.filter_filter,
      List.filter_eq_nil_iff.mpr (by simp)]
    simp
  · intro k
    rw [mergeFields_get hmerged, mergeFields_get hu]
    cases huser : user.get k with
    | some v => exact congrArg some (h k v huser)
    | none =>
        cases hget : out.get k with
        | none => rfl
        | some v => exact congrArg some (mergeValue_same (hsame k v hget))

/-- By induction on the user's value, whatever it is merged over. -/
theorem mergeValue_again {v : Json} (h : WellFormed v) {old : Option Json}
    (hold : ∀ b, old = some b → WellFormed b) :
    mergeValue old (mergeValue old v) = mergeValue old v := by
  obtain ⟨depth, h⟩ := h
  induction h generalizing old with
  | @object depth fields hkeys hfields ih =>
      have hover : ∀ b, WellFormed b → mergeFields (spreadIntoMap b)
          (mergeFields (spreadIntoMap b) fields) = mergeFields (spreadIntoMap b) fields := by
        intro b hb
        refine mergeFields_again (spreadIntoMap_unique hb.choose_spec) hkeys
          (fun k v hget => spreadIntoMap_wellFormed hb hget) ?_
        intro k v hget
        apply ih _ (Fields.mem_of_get hget)
        exact fun b' hb' => spreadIntoMap_wellFormed hb hb'
      cases old with
      | none => rfl
      | some b =>
          cases b with
          | object m => exact congrArg Json.object (hover _ (hold _ rfl))
          | array items => exact congrArg Json.object (hover _ (hold _ rfl))
          | _ => rfl
  | _ => rfl

theorem deepMerge_again {base user : Json} (hb : WellFormed base) (hu : WellFormed user) :
    deepMerge base (deepMerge base user) = deepMerge base user := by
  apply congrArg Json.object
  apply mergeFields_again (spreadIntoMap_unique hb.choose_spec)
    (spreadIntoMap_unique hu.choose_spec)
  · exact fun k v hget => spreadIntoMap_wellFormed hb hget
  · intro k v hget
    apply mergeValue_again (spreadIntoMap_wellFormed hu hget)
    exact fun b hold => spreadIntoMap_wellFormed hb hold

/-! ## Paths -/

/-- The value that a path of keys leads to through objects. -/
def reach (v : Json) : List String → Option Json
  | [] => some v
  | k :: path => (v.get k).bind fun w => reach w path

/-- The same of the defaults, where an array is the object of its indices. -/
def default (v : Json) : List String → Option Json
  | [] => some v
  | k :: path =>
      match v with
      | .object m => ((spreadIntoMap (.object m)).get k).bind fun w => default w path
      | .array items => ((spreadIntoMap (.array items)).get k).bind fun w => default w path
      | _ => none

theorem reach_append (v : Json) (path rest : List String) :
    reach v (path ++ rest) = (reach v path).bind fun w => reach w rest := by
  induction path generalizing v with
  | nil => rfl
  | cons k path ih =>
      rw [List.cons_append, reach, reach, Option.bind_assoc]
      congr 1
      funext w
      exact ih w

theorem mergeValue_none (v : Json) : mergeValue none v = v := by
  cases v <;> rfl

/-- An object that is merged over a container, or over nothing that counts. -/
theorem mergeValue_cases (old : Option Json) (fields : Fields) :
    (∃ b, old = some b ∧
        mergeValue old (.object fields) = .object (mergeFields (spreadIntoMap b) fields) ∧
        ∀ k path, (old.bind fun b => default b (k :: path)) =
          ((spreadIntoMap b).get k).bind fun w => default w path) ∨
      (mergeValue old (.object fields) = .object fields ∧
        ∀ k path, (old.bind fun b => default b (k :: path)) = none) := by
  cases old with
  | none => exact .inr ⟨rfl, fun _ _ => rfl⟩
  | some b =>
      cases b with
      | object m => exact .inl ⟨_, rfl, rfl, fun _ _ => rfl⟩
      | array items => exact .inl ⟨_, rfl, rfl, fun _ _ => rfl⟩
      | _ => exact .inr ⟨rfl, fun _ _ => rfl⟩

theorem get_object {fields : Fields} (k : String) : (Json.object fields).get k = fields.get k := rfl

/-- What a step along a path went through. -/
theorem reach_cons {v w : Json} {k : String} {path : List String}
    (h : reach v (k :: path) = some w) :
    ∃ fields u, v = .object fields ∧ Fields.get fields k = some u ∧ reach u path = some w := by
  obtain ⟨u, hget, hpath⟩ := Option.bind_eq_some_iff.mp h
  cases v with
  | object fields => exact ⟨fields, u, rfl, hget, hpath⟩
  | _ => cases hget

theorem WellFormed.fields {fields : Fields} (h : WellFormed (.object fields)) :
    Table.Unique Prod.fst fields ∧ ∀ {k u}, fields.get k = some u → WellFormed u := by
  obtain ⟨_, h⟩ := h
  cases h with
  | object hkeys hfields => exact ⟨hkeys, fun hget => ⟨_, hfields _ (Fields.mem_of_get hget)⟩⟩

/-- A value of the user's is merged over the default at its path. -/
theorem mergeValue_reach {path : List String} {user v : Json} (hu : WellFormed user)
    (h : reach user path = some v) (old : Option Json) :
    reach (mergeValue old user) path =
      some (mergeValue (old.bind fun b => default b path) v) := by
  induction path generalizing user old with
  | nil =>
      obtain rfl := Option.some.inj h
      cases old <;> rfl
  | cons k path ih =>
      obtain ⟨fields, u, rfl, hget, hpath⟩ := reach_cons h
      obtain ⟨hkeys, hfields⟩ := hu.fields
      rcases mergeValue_cases old fields with ⟨b, rfl, hmerged, hdefault⟩ | ⟨hmerged, hdefault⟩
      · rw [hmerged, reach, get_object, mergeFields_get hkeys, hget,
          Option.bind_some, hdefault]
        exact ih (hfields hget) hpath _
      · rw [hmerged, hdefault, mergeValue_none, h]

/-- A key that the user leaves out is the default's, and all that is under it. -/
theorem mergeValue_open {before : List String} {k : String} {user : Json} {fields : Fields}
    (hu : WellFormed user) (h : reach user before = some (.object fields))
    (hnone : fields.get k = none) (rest : List String) (old : Option Json) :
    reach (mergeValue old user) (before ++ k :: rest) =
      (old.bind fun b => default b (before ++ [k])).bind fun w => reach w rest := by
  induction before generalizing user old with
  | nil =>
      obtain rfl := Option.some.inj h
      rcases mergeValue_cases old fields with ⟨b, rfl, hmerged, hdefault⟩ | ⟨hmerged, hdefault⟩
      · rw [hmerged, List.nil_append, reach, get_object, mergeFields_get hu.fields.1, hnone,
          List.nil_append, hdefault]
        cases (spreadIntoMap b).get k <;> rfl
      · rw [hmerged, List.nil_append, List.nil_append, hdefault, reach, get_object, hnone]
  | cons key before ih =>
      obtain ⟨above, u, rfl, hget, hpath⟩ := reach_cons h
      obtain ⟨hkeys, hfields⟩ := hu.fields
      rcases mergeValue_cases old above with ⟨b, rfl, hmerged, hdefault⟩ | ⟨hmerged, hdefault⟩
      · rw [hmerged, List.cons_append, reach, get_object, mergeFields_get hkeys, hget,
          List.cons_append, Option.bind_some, hdefault]
        exact ih (hfields hget) hpath _
      · rw [hmerged, List.cons_append, List.cons_append, hdefault, reach, get_object, hget,
          Option.bind_some]
        have hplain := ih (hfields hget) hpath none
        rwa [mergeValue_none] at hplain

/-- The top of a document counts as an object. -/
def asObject (v : Json) : Json := .object (spreadIntoMap v)

theorem asObject_wellFormed {v : Json} (h : WellFormed v) : WellFormed (asObject v) := by
  obtain ⟨depth, h⟩ := h
  cases h with
  | object hkeys hfields => exact ⟨_, .object hkeys hfields⟩
  | @array depth items hitems =>
      refine ⟨depth + 1, .object (zipIdx_unique id _) ?_⟩
      intro f hf
      obtain ⟨p, hp, rfl⟩ := List.mem_map.mp hf
      exact hitems _ (List.fst_mem_of_mem_zipIdx hp)
  | string s =>
      refine ⟨1, .object (zipIdx_unique (fun c => .string (String.singleton c)) s.toList) ?_⟩
      intro f hf
      obtain ⟨p, -, rfl⟩ := List.mem_map.mp hf
      exact .string _
  | _ => exact ⟨1, .object Table.unique_nil nofun⟩

/-- **What a merged configuration says.** Along a path that the user's file has, the file's value,
an object over what the default has there; past a key that the file leaves out, the default;
and the merged configuration, taken for the file, is merged to itself. -/
theorem deepMerge_reads {base user : Json} (hb : WellFormed base) (hu : WellFormed user) :
    (∀ path v, reach (asObject user) path = some v →
      reach (deepMerge base user) path = some (mergeValue (default (asObject base) path) v)) ∧
    (∀ before k rest fields, reach (asObject user) before = some (.object fields) →
      Fields.get fields k = none → reach (deepMerge base user) (before ++ k :: rest) =
        (default (asObject base) (before ++ [k])).bind fun w => reach w rest) ∧
    deepMerge base (deepMerge base user) = deepMerge base user := by
  have hobject := asObject_wellFormed hu
  refine ⟨?_, ?_, deepMerge_again hb hu⟩
  · intro path v h
    exact mergeValue_reach hobject h (some (asObject base))
  · intro before k rest fields h hnone
    exact mergeValue_open hobject h hnone rest (some (asObject base))

/-! ## The defaults -/

theorem fits_strings (texts : List String) (depth : ℕ) :
    Json.Fits (depth + 1) (.array (texts.map .string)) := by
  refine .array ?_
  intro v hv
  obtain ⟨s, -, rfl⟩ := List.mem_map.mp hv
  exact .string s

/-- An object whose keys are the ones listed. -/
theorem fits_object {depth : ℕ} {fields : Fields} (keys : List String) (hnodup : keys.Nodup)
    (hkeys : fields.map Prod.fst = keys) (h : fields.Forall fun f => f.2.Fits depth) :
    Json.Fits (depth + 1) (.object fields) := by
  refine .object ?_ (List.forall_iff_forall_mem.mp h)
  unfold Table.Unique
  rw [hkeys]
  exact hnodup

theorem fits_empty {depth : ℕ} : Json.Fits (depth + 1) (.object []) :=
  .object Table.unique_nil nofun

theorem fits_int {depth : ℕ} (n : ℤ) (h : -2 ^ 63 ≤ n ∧ n < 2 ^ 64) :
    Json.Fits depth (.number (.int n)) := .number h

theorem fits_app (source category : String) : Json.Fits 1
    (.object [("source", .string source), ("category", .string category)]) :=
  fits_object ["source", "category"] (by decide) rfl ⟨.string _, .string _⟩

theorem defaultsWith_wellFormed (dbPath machine : String) :
    WellFormed (defaultsWith dbPath machine) := by
  refine ⟨4, fits_object ["server", "agent", "summary", "wakatime"] (by decide) rfl
    ⟨?_, ?_, ?_, ?_⟩⟩
  · exact fits_object ["port", "host", "db", "token", "tokens"] (by decide) rfl
      ⟨fits_int 4040 (by decide), .string _, .string _, .string _, fits_empty⟩
  · have hwatch : Json.Fits 2 (.object (["files", "claude", "codex", "macApps", "ssh", "zed"].map
        fun name => (name, .bool true))) :=
      fits_object ["files", "claude", "codex", "macApps", "ssh", "zed"] (by decide) rfl
        ⟨.bool true, .bool true, .bool true, .bool true, .bool true, .bool true⟩
    exact fits_object ["serverUrl", "token", "machine", "intervalSeconds", "projectRoots",
        "projectAliases", "watch", "apps", "idleSeconds", "ignoreDirs", "maxScanDepth"]
      (by decide) rfl
      ⟨.string _, .string _, .string _, fits_int 20 (by decide), .array nofun, fits_empty, hwatch,
        fits_object ["Claude", "Codex", "ChatGPT", "WebStorm", "Zed"] (by decide) rfl
          ⟨fits_app _ _, fits_app _ _, fits_app _ _, fits_app _ _, fits_app _ _⟩,
        fits_int 120 (by decide), fits_strings _ _, fits_int 8 (by decide)⟩
  · exact fits_object ["capSeconds", "lastEventCreditSeconds", "reattributeWindowSeconds",
        "joinGapSeconds"] (by decide) rfl
      ⟨fits_int 120 (by decide), fits_int 60 (by decide), fits_int 120 (by decide),
        fits_int 300 (by decide)⟩
  · exact fits_object ["apiKey"] (by decide) rfl (.string _)

/-- A file that moves the agent to another server and empties its ignored directories. -/
def movedAgent : Json :=
  .object [("agent", .object [("serverUrl", .string "http://hub"), ("ignoreDirs", .array [])])]

theorem movedAgent_wellFormed : WellFormed movedAgent :=
  ⟨3, fits_object ["agent"] (by decide) rfl
    (fits_object ["serverUrl", "ignoreDirs"] (by decide) rfl ⟨.string _, .array nofun⟩)⟩

/-- The file over the defaults. -/
theorem deepMerge_reads_moved : WellFormed (defaultsWith "/db" "mac") ∧ WellFormed movedAgent ∧
    (∀ path v, reach (asObject movedAgent) path = some v →
      reach (deepMerge (defaultsWith "/db" "mac") movedAgent) path =
        some (mergeValue (default (asObject (defaultsWith "/db" "mac")) path) v)) ∧
    (∀ before k rest fields, reach (asObject movedAgent) before = some (.object fields) →
      Fields.get fields k = none →
      reach (deepMerge (defaultsWith "/db" "mac") movedAgent) (before ++ k :: rest) =
        (default (asObject (defaultsWith "/db" "mac")) (before ++ [k])).bind
          fun w => reach w rest) ∧
    deepMerge (defaultsWith "/db" "mac") (deepMerge (defaultsWith "/db" "mac") movedAgent) =
      deepMerge (defaultsWith "/db" "mac") movedAgent :=
  ⟨defaultsWith_wellFormed "/db" "mac", movedAgent_wellFormed,
    deepMerge_reads (defaultsWith_wellFormed "/db" "mac") movedAgent_wellFormed⟩

end Stackhour.Core
