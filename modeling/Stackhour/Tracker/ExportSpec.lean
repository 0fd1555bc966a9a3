import Stackhour.Core.EnrollmentSpec
import Stackhour.Core.RepositorySpec
import Stackhour.Tracker.Export

/-!
# What an export leaves

The output is what it was, or the whole export: its lines are read back as the header and the
rows of the two queries, with every column under its name. No other entry changes but that of
the temporary file.
-/

namespace Stackhour.Tracker.Exporting

open Core Domain Files Result

variable {fl : Floats} {ft : JsonGrammar.FloatText}

/-! ## The rows of a query -/

/-- The rows of a table whose column is within bounds, in order. -/
structure Chosen (t : SqlTable) (by₁ by₂ : String) (low high : SqlValue)
    (rows : List (List SqlValue)) : Prop where
  perm : rows.Perm (t.rows.filter fun row => within low high (cell t.columns row by₁))
  ordered : rows.Pairwise
    (fun a b => rowPlace t.columns by₁ by₂ a ≤ rowPlace t.columns by₁ by₂ b)

theorem selectRows_chosen (t : SqlTable) (by₁ by₂ : String) (low high : SqlValue) :
    Chosen t by₁ by₂ low high (selectRows t by₁ by₂ low high) :=
  ⟨List.mergeSort_perm _ _, Sorting.mergeSort_sorted _ _⟩

theorem Chosen.wide {t : SqlTable} {by₁ by₂ : String} {low high : SqlValue}
    {rows : List (List SqlValue)} (h : Chosen t by₁ by₂ low high rows) :
    ∀ row ∈ rows, row.length = t.columns.length :=
  fun row hrow => t.wide row (List.mem_of_mem_filter (h.perm.mem_iff.mp hrow))

/-! ## The values of a row -/

theorem insert_new {fields : Fields} {key : String} (h : key ∉ fields.map Prod.fst) (v : Json) :
    Fields.insert fields key v = fields ++ [(key, v)] := by
  unfold Fields.insert
  rw [if_neg h]

theorem foldl_insert_new {ι : Type*} {key : ι → String} {v : ι → Json} {items : List ι}
    (h : (items.map key).Nodup) : ∀ {out : Fields},
      (∀ i ∈ items, key i ∉ out.map Prod.fst) →
      items.foldl (fun obj i => Fields.insert obj (key i) (v i)) out =
        out ++ items.map (fun i => (key i, v i)) := by
  induction items with
  | nil =>
      intro out _
      exact (List.append_nil out).symm
  | cons i items ih =>
      intro out hout
      obtain ⟨hi, hitems⟩ := List.nodup_cons.mp h
      rw [List.foldl_cons, insert_new (hout i (List.mem_cons_self ..)), ih hitems]
      · rw [List.append_assoc]
        rfl
      · intro j hj hmem
        rw [List.map_append, List.mem_append] at hmem
        rcases hmem with hmem | hmem
        · exact hout j (List.mem_cons_of_mem i hj) hmem
        · rw [List.map_singleton, List.mem_singleton] at hmem
          have hkey : key j = key i := hmem
          exact hi (hkey ▸ List.mem_map_of_mem hj)

theorem foldl_insert_fits {ι : Type*} {key : ι → String} {v : ι → Json} {items : List ι}
    {depth : ℕ} (h : ∀ i ∈ items, (v i).Fits depth) : ∀ {out : Fields},
      Json.Fits (depth + 1) (.object out) →
      Json.Fits (depth + 1)
        (.object (items.foldl (fun obj i => Fields.insert obj (key i) (v i)) out)) := by
  induction items with
  | nil => exact id
  | cons i items ih =>
      intro out hout
      exact ih (fun j hj => h j (List.mem_cons_of_mem i hj))
        (hout.insert (key i) (h i (List.mem_cons_self ..)))

/-- The fields of a row, one for each column. -/
def rowFields (fl : Floats) (t : SqlTable) (row : List SqlValue) : Fields :=
  (t.columns.zip row).map fun c => (c.1, columnValue fl c.2)

theorem rowToValue_eq {t : SqlTable} {row : List SqlValue} (h : row.length = t.columns.length) :
    rowToValue fl row t.columns = .object (rowFields fl t row) := by
  unfold rowToValue rowFields
  rw [@foldl_insert_new _ Prod.fst (fun c => columnValue fl c.2)]
  · rfl
  · rw [List.map_fst_zip h.ge]
    exact t.distinct
  · exact fun _ _ => List.not_mem_nil

/-! ## What can be written can be read -/

/-- The cast of a float to 64 bits saturates. -/
def Saturates (fl : Floats) : Prop := ∀ f, -2 ^ 63 ≤ fl.toInt f ∧ fl.toInt f < 2 ^ 63

theorem jsonNum_fits (hfl : Saturates fl) (f : F64) : (jsonNum fl f).Fits := by
  obtain ⟨hlow, hhigh⟩ := hfl f
  unfold jsonNum
  split
  · exact ⟨hlow, by omega⟩
  · split
    · next hfinite => exact hfinite
    · exact (by decide : (-2 : ℤ) ^ 63 ≤ 0 ∧ (0 : ℤ) < 2 ^ 64)

theorem blobFields_fits (bytes : List UInt8) (depth : ℕ) :
    Json.Fits (depth + 1) (.object (blobFields bytes)) := by
  refine foldl_insert_fits (fun b _ => ?_) (.object List.nodup_nil nofun)
  have hbyte := b.1.toNat_lt
  exact .number ⟨by omega, by omega⟩

theorem columnValue_fits (hfl : Saturates fl) (v : SqlValue) (depth : ℕ) :
    (columnValue fl v).Fits (depth + 1) := by
  cases v with
  | null => exact .null
  | integer n =>
      have hlow := n.le_toInt
      have hhigh := n.toInt_lt
      exact .number ⟨hlow, by omega⟩
  | real f => exact .number (jsonNum_fits hfl f)
  | text bytes => exact .string _
  | blob bytes => exact blobFields_fits bytes depth

/-- A line of a row. -/
def recordOf (kind : String) (data : Json) : Json :=
  .object [("type", .string kind), ("data", data)]

/-- The documents of an export, a line for each. -/
def records (fl : Floats) (now fromTime toTime : F64) (heartbeats days : SqlTable)
    (heartbeatRows dayRows : List (List SqlValue)) : List Json :=
  header fl now fromTime toTime ::
    heartbeatRows.map (fun row => recordOf "heartbeat" (.object (rowFields fl heartbeats row))) ++
    dayRows.map (fun row => recordOf "wakatime-day" (.object (rowFields fl days row)))

/-- A file of one document a line, as it is read. -/
def Holds (ft : JsonGrammar.FloatText) (bytes : List UInt8) (docs : List Json) : Prop :=
  ∃ text lines, Utf8.decode bytes = some text ∧ text.splitOn '\n' = lines ++ [[]] ∧
    lines.map (JsonGrammar.parse ft) = docs.map .ok

theorem header_fits (hfl : Saturates fl) (now fromTime toTime : F64) :
    (header fl now fromTime toTime).Fits 127 := by
  have hkeys : ["type", "version", "createdAt", "from", "to"].Nodup := by decide
  refine .object hkeys ?_
  simp only [List.forall_mem_cons, List.not_mem_nil, false_implies, implies_true, and_true]
  exact ⟨.string _, .number (by decide), .number (jsonNum_fits hfl _),
    .number (jsonNum_fits hfl _), .number (jsonNum_fits hfl _)⟩

theorem recordOf_fits (hfl : Saturates fl) (kind : String) (row : List SqlValue)
    (names : List String) : (recordOf kind (rowToValue fl row names)).Fits 127 := by
  have hrow : (rowToValue fl row names).Fits 126 :=
    foldl_insert_fits (fun c _ => columnValue_fits hfl c.2 124) (.object List.nodup_nil nofun)
  have hkeys : ["type", "data"].Nodup := by decide
  refine .object hkeys ?_
  simp only [List.forall_mem_cons, List.not_mem_nil, false_implies, implies_true, and_true]
  exact ⟨.string _, hrow⟩

theorem document_eq {now fromTime toTime : F64} {heartbeats days : SqlTable}
    {rows rows' : List (List SqlValue)} (h : ∀ row ∈ rows, row.length = heartbeats.columns.length)
    (h' : ∀ row ∈ rows', row.length = days.columns.length) :
    document fl ft now fromTime toTime heartbeats days rows rows' =
      (records fl now fromTime toTime heartbeats days rows rows').flatMap (lineOf ft) := by
  have hlines : ∀ (kind : String) (t : SqlTable) (rs : List (List SqlValue)),
      (∀ row ∈ rs, row.length = t.columns.length) →
      rs.flatMap (fun row => writeRecord ft kind (rowToValue fl row t.columns)) =
        (rs.map fun row => recordOf kind (.object (rowFields fl t row))).flatMap (lineOf ft) := by
    intro kind t rs hrs
    rw [List.flatMap_map]
    apply List.flatMap_congr
    intro row hrow
    rw [rowToValue_eq (hrs row hrow)]
    rfl
  unfold document records
  rw [hlines _ heartbeats rows h, hlines _ days rows' h', List.cons_append, List.flatMap_cons,
    List.flatMap_append, List.append_assoc]

/-- **The lines are read back** as what they were written from. -/
theorem holds_lines (hft : ft.Lawful) {docs : List Json} (h : ∀ v ∈ docs, v.Fits 127) :
    Holds ft (Utf8.encode (docs.flatMap (lineOf ft))) docs := by
  refine ⟨docs.flatMap (lineOf ft), docs.map (JsonGrammar.compact ft), Utf8.decode_encode _, ?_, ?_⟩
  · have hlines := @splitOn_printed (docs.map (JsonGrammar.compact ft)) (by
      intro text htext
      obtain ⟨v, hv, rfl⟩ := List.mem_map.mp htext
      intro hnewline
      exact absurd (JsonGrammar.compact_plain hft (h v hv) _ hnewline) (by decide))
    rwa [List.flatMap_map] at hlines
  · rw [List.map_map]
    apply List.map_congr_left
    intro v hv
    exact JsonGrammar.parse_compact hft (h v hv)

/-! ## The atomic write -/

variable {δ : Type*}

/-- Only the temporary file changes. -/
def Aside (tmp : Loc δ) (d d' : Storage δ) : Prop := ∀ l, l ≠ tmp → d' l = d l

theorem Aside.trans {tmp : Loc δ} {a b c : Storage δ} (h : Aside tmp a b) (h' : Aside tmp b c) :
    Aside tmp a c := fun l hl => (h' l hl).trans (h l hl)

variable [DecidableEq δ]

/-- A temporary file that was renamed, or is still to be removed. -/
inductive Written (d : Storage δ) (tmp output : Loc δ) (bytes : List UInt8) :
    Storage δ × Except Halt Unit → Prop where
  | aside (d' : Storage δ) (h : Halt) (hd : Aside tmp d d') :
      Written d tmp output bytes (d', .error h)
  | placed (d' : Storage δ) (hd : Aside tmp d d') (hfile : d' tmp = some (.file bytes)) :
      Written d tmp output bytes ((d'.put tmp none).put output (some (.file bytes)), .ok ())

theorem createExcl_cases (d : Storage δ) (l : Loc δ) (fault : Option Halt) :
    (∃ h, createExcl d l fault = (d, .error h)) ∨
      createExcl d l fault = (d.put l (some (.file [])), .ok ()) := by
  unfold createExcl
  split
  · exact .inl ⟨_, rfl⟩
  · exact .inl ⟨_, rfl⟩
  · next hcreate =>
      obtain ⟨-, rfl⟩ := Disk.create_some hcreate
      exact .inr rfl

theorem writeAll_cases (d : Storage δ) (l : Loc δ) (bytes : List UInt8)
    (fault : Option (Halt × ℕ)) :
    (∃ h part, writeAll d l bytes fault = (d.put l (some (.file part)), .error h)) ∨
      writeAll d l bytes fault = (d.put l (some (.file bytes)), .ok ()) := by
  rcases fault with _ | ⟨h, n⟩
  · exact .inr rfl
  · exact .inl ⟨h, _, rfl⟩

theorem renameTo_cases {d : Storage δ} {a b : Loc δ} {bytes : List UInt8}
    (ha : d a = some (.file bytes)) (fault : Option Halt) :
    (∃ h, renameTo d a b fault = (d, .error h)) ∨
      renameTo d a b fault = ((d.put a none).put b (some (.file bytes)), .ok ()) := by
  unfold renameTo
  split
  · exact .inl ⟨_, rfl⟩
  · exact .inl ⟨_, rfl⟩
  · next hrename =>
      obtain ⟨n, hn, -, -, rfl⟩ := Disk.rename_some hrename
      rw [ha] at hn
      obtain rfl := Option.some.inj hn
      exact .inr rfl

theorem aside_put (d : Storage δ) (tmp : Loc δ) (n : Option (Node (Loc δ) (List UInt8))) :
    Aside tmp d (d.put tmp n) := fun _ hl => Disk.put_of_ne hl n

theorem writeTmp_written (d : Storage δ) (tmp output : Loc δ) (bytes : List UInt8) (f : Faults) :
    Written d tmp output bytes (writeTmp d tmp output bytes f) := by
  unfold writeTmp
  rcases createExcl_cases d tmp f.create with ⟨h, hcreate⟩ | hcreate
  · rw [hcreate]
    exact .aside d h fun _ _ => rfl
  rw [hcreate]
  have hempty := aside_put d tmp (some (.file []))
  generalize d.put tmp (some (.file [])) = d₁ at hempty
  show Written d tmp output bytes (andThen (writeAll d₁ tmp bytes f.write) _)
  rcases writeAll_cases d₁ tmp bytes f.write with ⟨h, part, hwrite⟩ | hwrite
  · rw [hwrite]
    exact .aside _ h (hempty.trans (aside_put d₁ tmp _))
  rw [hwrite]
  have hall := hempty.trans (aside_put d₁ tmp (some (.file bytes)))
  have hfile := Disk.put_self (d := d₁) (l := tmp) (some (.file bytes))
  generalize d₁.put tmp (some (.file bytes)) = d₂ at hall hfile
  show Written d tmp output bytes (andThen (attempt d₂ f.sync) _)
  cases hsync : f.sync with
  | some h => exact .aside d₂ h hall
  | none =>
      show Written d tmp output bytes (renameTo d₂ tmp output f.rename)
      rcases renameTo_cases (b := output) hfile f.rename with ⟨h, hrename⟩ | hrename
      · rw [hrename]
        exact .aside d₂ h hall
      · rw [hrename]
        exact .placed d₂ hall hfile

/-- What the atomic write leaves. -/
structure Replaced (d : Storage δ) (tmp output : Loc δ) (bytes : List UInt8) (f : Faults)
    (out : Storage δ × Except Halt Unit) : Prop where
  other : ∀ l, l ≠ output → l ≠ tmp → out.1 l = d l
  whole : (out.1 output = d output ∧ ∃ h, out.2 = .error h) ∨
    (out.1 output = some (.file bytes) ∧ ∀ h, out.2 = .error h → f.chmod = some h)
  cleared : out.2 ≠ .error .stopped → f.keepsTmp = false →
    out.1 = d ∨ ∀ part, out.1 tmp ≠ some (.file part)

theorem dropGuard_of_ne {d : Storage δ} {tmp l : Loc δ} (hl : l ≠ tmp) (result : Except Halt Unit)
    (keeps : Bool) : dropGuard d tmp result keeps l = d l := by
  unfold dropGuard
  split
  · rfl
  · exact Disk.unlink_of_ne hl

theorem dropGuard_tmp {d : Storage δ} {tmp : Loc δ} {result : Except Halt Unit}
    (hresult : result ≠ .error .stopped) (part : List UInt8) :
    dropGuard d tmp result false tmp ≠ some (.file part) := by
  unfold dropGuard
  rw [if_neg (by rintro (hstop | hkeeps); exacts [hresult hstop, Bool.false_ne_true hkeeps])]
  rcases Disk.unlink_self d tmp with hnone | ⟨hdir, -⟩
  · rw [hnone]
    exact nofun
  · rw [hdir]
    exact nofun

/-- The file is written and renamed under the guard. -/
theorem guarded_replaced {d d₀ : Storage δ} {tmp output : Loc δ} (hne : output ≠ tmp)
    (hstale : Aside tmp d d₀) (bytes : List UInt8) (f : Faults) :
    Replaced d tmp output bytes f (andThen (dropGuard (writeTmp d₀ tmp output bytes f).1 tmp
      (writeTmp d₀ tmp output bytes f).2 f.keepsTmp, (writeTmp d₀ tmp output bytes f).2)
      fun d _ => attempt d f.chmod) := by
  have hwritten := writeTmp_written d₀ tmp output bytes f
  generalize writeTmp d₀ tmp output bytes f = placed at hwritten
  cases hwritten with
  | aside d' h hd =>
      have hall := hstale.trans hd
      refine ⟨fun l _ hl => ?_, .inl ⟨?_, h, rfl⟩, fun hstop hkeeps => .inr fun part => ?_⟩
      · exact (dropGuard_of_ne hl _ _).trans (hall l hl)
      · exact (dropGuard_of_ne hne _ _).trans (hall output hne)
      · rw [hkeeps]
        exact dropGuard_tmp (fun heq => hstop heq) part
  | placed d' hd hfile =>
      have hall := hstale.trans hd
      generalize hafter : dropGuard ((d'.put tmp none).put output (some (.file bytes))) tmp
        (.ok ()) f.keepsTmp = after
      have hother : ∀ l, l ≠ output → l ≠ tmp → after l = d l := by
        intro l hl hl'
        rw [← hafter, dropGuard_of_ne hl', Disk.put_of_ne hl, Disk.put_of_ne hl', hall l hl']
      have hplace : after output = some (.file bytes) := by
        rw [← hafter, dropGuard_of_ne hne, Disk.put_self]
      have hclear : f.keepsTmp = false → ∀ part, after tmp ≠ some (.file part) := by
        intro hkeeps part
        have hok : (.ok () : Except Halt Unit) ≠ .error .stopped := nofun
        rw [← hafter, hkeeps]
        exact dropGuard_tmp hok part
      show Replaced d tmp output bytes f (attempt after f.chmod)
      cases hchmod : f.chmod with
      | none =>
          exact ⟨hother, .inr ⟨hplace, fun h heq => nomatch heq⟩,
            fun _ hkeeps => .inr (hclear hkeeps)⟩
      | some h =>
          refine ⟨hother, .inr ⟨hplace, ?_⟩, fun _ hkeeps => .inr (hclear hkeeps)⟩
          rintro _ heq
          obtain rfl := Except.error.inj heq
          exact hchmod

theorem replaceOutput_replaced {d : Storage δ} {tmp output : Loc δ} (hne : output ≠ tmp)
    (bytes : List UInt8) (f : Faults) :
    Replaced d tmp output bytes f (replaceOutput d tmp output bytes f) := by
  unfold replaceOutput
  cases f.mkdir with
  | some h => exact ⟨fun _ _ _ => rfl, .inl ⟨rfl, h, rfl⟩, fun _ _ => .inl rfl⟩
  | none =>
      apply guarded_replaced hne
      intro l hl
      split
      · rfl
      · exact Disk.unlink_of_ne hl

/-! ## The export -/

/-- The bytes of an export, and how many rows of each table are in it. -/
def Exports (fl : Floats) (ft : JsonGrammar.FloatText) (now fromTime toTime : F64) (db : Tables)
    (bytes : List UInt8) (n m : ℕ) : Prop :=
  ∃ heartbeats days rows rows', db.heartbeats = some heartbeats ∧ db.days = some days ∧
    Chosen heartbeats "time" "id" (bound fromTime) (bound toTime) rows ∧
    Chosen days "date" "project" (boundText (isoDate fromTime))
      (boundText (if toTime = MAX_SAFE_INTEGER then "9999-12-31" else isoDate toTime)) rows' ∧
    Holds ft bytes (records fl now fromTime toTime heartbeats days rows rows') ∧
    n = rows.length ∧ m = rows'.length

theorem exports_document (hft : ft.Lawful) (hfl : Saturates fl) (now fromTime toTime : F64)
    {db : Tables} {heartbeats days : SqlTable} (hheartbeats : db.heartbeats = some heartbeats)
    (hdays : db.days = some days) :
    Exports fl ft now fromTime toTime db
      (Utf8.encode (document fl ft now fromTime toTime heartbeats days
        (heartbeatRows heartbeats fromTime toTime) (dayRows days fromTime toTime)))
      (heartbeatRows heartbeats fromTime toTime).length (dayRows days fromTime toTime).length := by
  have hrows : Chosen heartbeats "time" "id" (bound fromTime) (bound toTime)
      (heartbeatRows heartbeats fromTime toTime) := selectRows_chosen ..
  have hrows' : Chosen days "date" "project" (boundText (isoDate fromTime))
      (boundText (if toTime = MAX_SAFE_INTEGER then "9999-12-31" else isoDate toTime))
      (dayRows days fromTime toTime) := selectRows_chosen ..
  refine ⟨heartbeats, days, _, _, hheartbeats, hdays, hrows, hrows', ?_, rfl, rfl⟩
  rw [document_eq hrows.wide hrows'.wide]
  apply holds_lines hft
  intro v hv
  have hline : ∀ (kind : String) (t : SqlTable) (rs : List (List SqlValue)),
      (∀ row ∈ rs, row.length = t.columns.length) →
      v ∈ rs.map (fun row => recordOf kind (.object (rowFields fl t row))) → v.Fits 127 := by
    intro kind t rs hrs hmem
    obtain ⟨row, hrow, rfl⟩ := List.mem_map.mp hmem
    rw [← rowToValue_eq (hrs row hrow)]
    exact recordOf_fits hfl kind row t.columns
  rcases List.mem_append.mp hv with hv | hv
  · rcases List.mem_cons.mp hv with rfl | hv
    · exact header_fits hfl now fromTime toTime
    · exact hline _ heartbeats _ hrows.wide hv
  · exact hline _ days _ hrows'.wide hv

theorem prepare_ok {t : Option SqlTable} {by₁ by₂ : String} {fault : Option Halt}
    {unprepared : String} {table : SqlTable}
    (h : prepare t by₁ by₂ fault unprepared = .ok table) : t = some table := by
  unfold prepare at h
  split at h
  · cases h
  · cases h
  · split at h
    · obtain rfl := Except.ok.inj h
      rfl
    · cases h

omit [DecidableEq δ] in
theorem locate_tmp_ne (dirOf : List (List Char) → δ) (output : Path) (pid : ℕ) :
    output.locate dirOf ≠ (tmpPathFor output pid).locate dirOf := by
  intro h
  exact Loc.suffix_ne (l := output.locate dirOf) (s := Backup.tmpSuffix pid)
    (List.cons_ne_nil _ _) h.symm

/-- What an export may leave and return; `whole` says of bytes that they are the export. -/
structure AllOrNothing (dirOf : List (List Char) → δ) (pid : ℕ) (d : Storage δ) (resolved : Path)
    (force : Bool) (f : Faults) (whole : List UInt8 → ℕ → ℕ → Prop)
    (out : Storage δ × Except Halt (ℕ × ℕ × Path)) : Prop where
  /-- No other entry changes: the database does not, unless it is the output. -/
  other : ∀ l, l ≠ resolved.locate dirOf → l ≠ (tmpPathFor resolved pid).locate dirOf →
    out.1 l = d l
  /-- The output is what it was, or the export. -/
  output : out.1 (resolved.locate dirOf) = d (resolved.locate dirOf) ∨
    ∃ bytes n m, out.1 (resolved.locate dirOf) = some (.file bytes) ∧ whole bytes n m
  /-- What is returned is what was written, over a file only if that was asked for. -/
  done : ∀ n m p, out.2 = .ok (n, m, p) → p = resolved ∧
    (pathExists d (resolved.locate dirOf) = true → force = true) ∧
    ∃ bytes, out.1 (resolved.locate dirOf) = some (.file bytes) ∧ whole bytes n m
  /-- An error leaves the output, but that of its permissions. -/
  failed : ∀ h, out.2 = .error h →
    out.1 (resolved.locate dirOf) = d (resolved.locate dirOf) ∨ f.chmod = some h
  /-- The temporary file is removed. -/
  cleared : out.2 ≠ .error .stopped → f.keepsTmp = false →
    out.1 = d ∨ ∀ part, out.1 ((tmpPathFor resolved pid).locate dirOf) ≠ some (.file part)

omit [DecidableEq δ] in
theorem AllOrNothing.kept (dirOf : List (List Char) → δ) (pid : ℕ) (d : Storage δ)
    (resolved : Path) (force : Bool) (f : Faults) (whole : List UInt8 → ℕ → ℕ → Prop) (h : Halt) :
    AllOrNothing dirOf pid d resolved force f whole (d, .error h) where
  other _ _ _ := rfl
  output := .inl rfl
  done _ _ _ hok := nomatch hok
  failed _ _ := .inl rfl
  cleared _ _ := .inl rfl

omit [DecidableEq δ] in
theorem AllOrNothing.replaced {dirOf : List (List Char) → δ} {pid : ℕ} {d : Storage δ}
    {resolved : Path} {force : Bool} {f : Faults} {whole : List UInt8 → ℕ → ℕ → Prop}
    {bytes : List UInt8} {n m : ℕ} (hwhole : whole bytes n m)
    (hforce : pathExists d (resolved.locate dirOf) = true → force = true)
    {written : Storage δ × Except Halt Unit}
    (h : Replaced d ((tmpPathFor resolved pid).locate dirOf) (resolved.locate dirOf) bytes f
      written) :
    AllOrNothing dirOf pid d resolved force f whole
      (andThen written fun d _ => (d, .ok (n, m, resolved))) := by
  obtain ⟨after, e | _⟩ := written
  · refine ⟨h.other, ?_, fun _ _ _ hok => (nomatch hok), ?_, ?_⟩
    · exact h.whole.imp And.left fun hplaced => ⟨bytes, n, m, hplaced.1, hwhole⟩
    · rintro _ heq
      obtain rfl := Except.error.inj heq
      exact h.whole.imp And.left fun hplaced => hplaced.2 e rfl
    · intro hstop
      exact h.cleared fun heq => hstop (congrArg Except.error (Except.error.inj heq))
  · have hplaced : after (resolved.locate dirOf) = some (.file bytes) := by
      rcases h.whole with ⟨-, e, herror⟩ | ⟨hplaced, -⟩
      · cases herror
      · exact hplaced
    refine ⟨h.other, .inr ⟨bytes, n, m, hplaced, hwhole⟩, ?_, fun _ herror => (nomatch herror), ?_⟩
    · rintro _ _ _ hok
      cases hok
      exact ⟨rfl, hforce, bytes, hplaced, hwhole⟩
    · intro _
      exact h.cleared fun heq => nomatch heq

theorem noFloats_saturates : Saturates noFloats :=
  fun _ => (by decide : (-2 : ℤ) ^ 63 ≤ 0 ∧ (0 : ℤ) < 2 ^ 63)

def pulses : SqlTable where
  columns := ["id", "time", "raw"]
  rows := [[.integer 2, .real F64.one, .blob [7, 9]], [.integer 1, .real F64.zero, .null]]
  distinct := by decide
  wide := by decide

def imported : SqlTable where
  columns := ["date", "project", "seconds"]
  rows := [[.text (Utf8.encode "1970-01-01".toList), .text [0xFF], .real F64.one]]
  distinct := by decide
  wide := by decide

/-- The disk is full while the lines are written. -/
def diskFull : Faults :=
  ⟨none, none, none, none, false, none, some (.failed "No space left on device (os error 28)", 9),
    none, none, false, none, ""⟩

end Stackhour.Tracker.Exporting
