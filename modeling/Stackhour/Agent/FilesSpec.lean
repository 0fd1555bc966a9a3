import Stackhour.Agent.Files
import Stackhour.Agent.WatchersSpec
import Stackhour.Tracker.ChargingSpec

/-!
# Every write is reported once

A file that the roots show is reported by the first scan that begins after it was written,
and by no later one.
-/

namespace Stackhour.Agent

open Core Domain

/-! ## What a walk finds -/

/-- A file that a directory shows, within some levels: no name on the way is hidden and no
directory is ignored. -/
inductive Visible (fs : FileSystem) (ignoreDirs : List (List Char)) :
    ℕ → List Char → List (List Char) → Prop
  | here {turns : ℕ} {dir name : List Char} {entries : List Entry} :
      fs.readDir dir = some entries → ⟨name, some .file⟩ ∈ entries → hidden name = false →
      Visible fs ignoreDirs (turns + 1) dir [name]
  | under {turns : ℕ} {dir name : List Char} {entries : List Entry} {rest : List (List Char)} :
      fs.readDir dir = some entries → ⟨name, some .dir⟩ ∈ entries → hidden name = false →
      name ∉ ignoreDirs → Visible fs ignoreDirs turns (join dir name) rest →
      Visible fs ignoreDirs (turns + 1) dir (name :: rest)

/-- No directory has a name twice. -/
def DistinctNames (fs : FileSystem) : Prop :=
  ∀ dir entries, fs.readDir dir = some entries → (entries.map Entry.name).Nodup

section

variable {fs : FileSystem} {ignoreDirs : List (List Char)} {turns : ℕ} {dir : List Char}
  {names : List (List Char)}

/-- What a walk takes from one entry. -/
def entryFiles (fs : FileSystem) (ignoreDirs : List (List Char)) (turns : ℕ) (dir : List Char)
    (entry : Entry) : List (List (List Char)) :=
  if hidden entry.name then []
  else
    match entry.type with
    | some .dir =>
        if ignoreDirs.contains entry.name then []
        else (walk fs ignoreDirs turns (join dir entry.name)).map (entry.name :: ·)
    | some .file => [[entry.name]]
    | _ => []

theorem walk_succ (fs : FileSystem) (ignoreDirs : List (List Char)) (turns : ℕ)
    (dir : List Char) : walk fs ignoreDirs (turns + 1) dir =
      ((fs.readDir dir).getD []).flatMap (entryFiles fs ignoreDirs turns dir) := rfl

theorem mem_entryFiles {entry : Entry} : names ∈ entryFiles fs ignoreDirs turns dir entry ↔
    hidden entry.name = false ∧
      (entry.type = some .file ∧ names = [entry.name] ∨
        entry.type = some .dir ∧ entry.name ∉ ignoreDirs ∧
          ∃ rest ∈ walk fs ignoreDirs turns (join dir entry.name), names = entry.name :: rest) := by
  unfold entryFiles
  by_cases hhidden : hidden entry.name = true
  · simp [hhidden]
  · rw [if_neg hhidden]
    rw [Bool.not_eq_true] at hhidden
    split
    · next htype =>
        by_cases hignore : entry.name ∈ ignoreDirs
        · simp [htype, hignore]
        · simp [htype, hignore, hhidden, eq_comm]
    · next htype => simp [htype, hhidden]
    · next hdir hfile =>
        simp only [List.not_mem_nil, false_iff]
        rintro ⟨-, ⟨htype, -⟩ | ⟨htype, -⟩⟩
        · exact hfile htype
        · exact hdir htype

/-- A walk finds the files that the directory shows. -/
theorem mem_walk :
    names ∈ walk fs ignoreDirs turns dir ↔ Visible fs ignoreDirs turns dir names := by
  induction turns generalizing dir names with
  | zero =>
      simp only [walk, List.not_mem_nil, false_iff]
      intro h
      cases h
  | succ turns ih =>
      rw [walk_succ, List.mem_flatMap]
      constructor
      · rintro ⟨⟨name, type⟩, hentry, hnames⟩
        obtain ⟨entries, hread, hentry⟩ : ∃ entries, fs.readDir dir = some entries ∧
            ⟨name, type⟩ ∈ entries := by
          cases hread : fs.readDir dir with
          | none => simp [hread] at hentry
          | some entries => exact ⟨entries, rfl, by simpa [hread] using hentry⟩
        obtain ⟨hhidden, ⟨htype, rfl⟩ | ⟨htype, hignore, rest, hrest, rfl⟩⟩ :=
          mem_entryFiles.mp hnames
        · obtain rfl : type = some .file := htype
          exact .here hread hentry hhidden
        · obtain rfl : type = some .dir := htype
          exact .under hread hentry hhidden hignore (ih.mp hrest)
      · intro h
        cases h with
        | here hread hentry hhidden =>
            exact ⟨_, by rw [hread]; exact hentry, mem_entryFiles.mpr ⟨hhidden, .inl ⟨rfl, rfl⟩⟩⟩
        | under hread hentry hhidden hignore hrest =>
            exact ⟨_, by rw [hread]; exact hentry,
              mem_entryFiles.mpr ⟨hhidden, .inr ⟨rfl, hignore, _, ih.mpr hrest, rfl⟩⟩⟩

/-- A walk finds each file once. -/
theorem walk_nodup (h : DistinctNames fs) : (walk fs ignoreDirs turns dir).Nodup := by
  induction turns generalizing dir with
  | zero => exact List.nodup_nil
  | succ turns ih =>
      rw [walk_succ]
      cases hread : fs.readDir dir with
      | none => exact List.nodup_nil
      | some entries =>
          have hfirst : ∀ entry, ∀ names ∈ entryFiles fs ignoreDirs turns dir entry,
              names.head? = some entry.name := by
            intro entry names hnames
            obtain ⟨-, ⟨-, rfl⟩ | ⟨-, -, rest, -, rfl⟩⟩ := mem_entryFiles.mp hnames <;> rfl
          refine List.nodup_flatMap.mpr ⟨?_, ?_⟩
          · intro entry _
            unfold entryFiles
            split
            · exact List.nodup_nil
            · split
              · split
                · exact List.nodup_nil
                · exact ih.map fun a b hab => (List.cons_eq_cons.mp hab).2
              · exact List.nodup_singleton _
              · exact List.nodup_nil
          · refine ((List.pairwise_map.mp (h dir entries hread))).imp ?_
            intro a b hne names ha hb
            exact hne (Option.some.inj ((hfirst a names ha).symm.trans (hfirst b names hb)))

end

variable {ar : Arithmetic}

/-- The watcher keeps to its one key. -/
theorem filesWatcher_private : Private (filesWatcher ar) ["filesLastScan"] where
  apart := by decide
  frame := by
    intro world s now k hk
    exact Fields.get_insert_of_ne (by simpa using hk) _
  run := by
    intro world s t now hsame
    have hlast := hsame "filesLastScan" (by simp)
    refine ⟨?_, ?_⟩
    · simp only [filesWatcher, scanSince, hlast]
    · intro k hk
      obtain rfl := List.mem_singleton.mp hk
      simp only [filesWatcher, Fields.get_insert]
  marker := by
    intro world s t _
    rfl

/-! ## One scan -/

/-- `<` is the order of the values, and a minute more is not less. -/
structure Ordered {τ : Type*} [LinearOrder τ] (ar : Arithmetic) (value : F64 → τ) : Prop where
  less_iff : ∀ a b : F64, a.isFinite = true → b.isFinite = true →
    (ar.less a b = true ↔ value a < value b)
  ahead : ∀ a b : F64, a.isFinite = true → b.isFinite = true → value b ≤ value a →
    ar.less (ar.add a (ar.ofInt 60)) b = false

/-- One file that one root shows, by one way, while the watcher is on. -/
structure Watched (ar : Arithmetic) (world : FilesWorld) (root : List Char)
    (names : List (List Char)) : Prop where
  enabled : world.cfg.enabled = true
  once : world.cfg.projectRoots.count root = 1
  visible : Visible world.fs world.cfg.ignoreDirs (scanTurns ar world.cfg) root names
  distinct : DistinctNames world.fs
  alone : ∀ other ∈ world.cfg.projectRoots, ∀ way,
    Visible world.fs world.cfg.ignoreDirs (scanTurns ar world.cfg) other way →
      pathOf other way = pathOf root names → other = root ∧ way = names

/-- A row about a file and the time when it was written. -/
def isAbout (path : List Char) (t : F64) (row : Json) : Bool :=
  match row.get "entity", row.get "time" with
  | some (.string entity), some (.number (.float time)) =>
      decide (entity = String.ofList path ∧ time = t)
  | _, _ => false

/-- What a scan reports. -/
def scanRows (ar : Arithmetic) (world : FilesWorld) (since now : F64) : List Json :=
  (scanned ar world).filterMap (rowIn ar world since now)

section

variable {τ : Type*} [LinearOrder τ] {value : F64 → τ} {world : FilesWorld}
  {root path : List Char} {names : List (List Char)} {since now t : F64}

theorem flatMap_count {α β : Type*} [BEq α] [LawfulBEq α] [DecidableEq α] (l : List α) (a : α)
    (b : β) : l.flatMap (fun x => if x = a then [b] else []) = List.replicate (l.count a) b := by
  induction l with
  | nil => rfl
  | cons x l ih =>
      rw [List.flatMap_cons, ih]
      by_cases hx : x = a
      · rw [if_pos hx, hx, List.count_cons_self, List.replicate_succ]
        rfl
      · rw [if_neg hx, List.count_cons_of_ne hx]
        rfl

/-- A scan comes upon a watched file once. -/
theorem Watched.scanned_eq (h : Watched ar world root names) :
    (scanned ar world).filter (fun file => pathOf file.1 file.2 = pathOf root names) =
      [(root, names)] := by
  have hroot : ∀ other ∈ world.cfg.projectRoots,
      ((walk world.fs world.cfg.ignoreDirs (scanTurns ar world.cfg) other).map
        (fun way => (other, way))).filter
          (fun file => pathOf file.1 file.2 = pathOf root names) =
        if other = root then [(root, names)] else [] := by
    intro other hother
    rw [List.filter_map]
    by_cases hsame : other = root
    · subst hsame
      have hway : ∀ way ∈ walk world.fs world.cfg.ignoreDirs (scanTurns ar world.cfg) other,
          decide (pathOf other way = pathOf other names) = (way == names) := by
        intro way hway
        rw [Bool.eq_iff_iff, decide_eq_true_eq, beq_iff_eq]
        exact ⟨fun heq => (h.alone other hother way (mem_walk.mp hway) heq).2,
          fun heq => congrArg _ heq⟩
      have hcount := List.count_eq_one_of_mem (walk_nodup h.distinct) (mem_walk.mpr h.visible)
      rw [if_pos rfl]
      show (List.filter (fun way => decide (pathOf other way = pathOf other names)) _).map _ = _
      rw [List.filter_congr hway, List.filter_beq, hcount]
      rfl
    · rw [if_neg hsame, List.map_eq_nil_iff, List.filter_eq_nil_iff]
      intro way hway heq
      exact hsame (h.alone other hother way (mem_walk.mp hway) (of_decide_eq_true heq)).1
  unfold scanned
  rw [List.filter_flatMap, List.flatMap_congr hroot, flatMap_count, h.once]
  rfl

theorem get_fileRow (world : FilesWorld) (root : List Char) (names : List (List Char))
    (mtime : F64) :
    (fileRow world root names mtime).get "entity" =
        some (.string (String.ofList (pathOf root names))) ∧
      (fileRow world root names mtime).get "time" = some (jsonFloat mtime) := ⟨rfl, rfl⟩

/-- A row is about the file it is made for. -/
theorem isAbout_fileRow (ht : t.isFinite = true) (mtime : F64) :
    isAbout path t (fileRow world root names mtime) =
      decide (pathOf root names = path ∧ mtime = t) := by
  obtain ⟨hentity, htime⟩ := get_fileRow world root names mtime
  unfold isAbout
  rw [hentity, htime]
  by_cases hfinite : mtime.isFinite = true
  · simp [jsonFloat, hfinite, String.ofList_inj]
  · have hne : mtime ≠ t := fun heq => hfinite (heq ▸ ht)
    simp [jsonFloat, hfinite, hne]

theorem filter_filterMap_of {α β : Type*} {g : α → Option β} {p : β → Bool} {q : α → Bool}
    (l : List α) (h : ∀ a b, g a = some b → p b = q a) :
    (l.filterMap g).filter p = (l.filter q).filterMap g := by
  induction l with
  | nil => rfl
  | cons a l ih =>
      cases hg : g a with
      | none => by_cases hq : q a <;> simp [hg, hq, ih]
      | some b => by_cases hq : q a <;> simp [hg, hq, h a b hg, ih]

theorem rowIn_eq_some {file : List Char × List (List Char)} {row : Json} :
    rowIn ar world since now file = some row ↔
      ∃ mtime, world.fs.mtime (pathOf file.1 file.2) = some mtime ∧
        inWindow ar since now mtime = true ∧ row = fileRow world file.1 file.2 mtime := by
  unfold rowIn
  rw [Option.bind_eq_some_iff]
  refine exists_congr fun mtime => and_congr_right fun _ => ?_
  split
  · next hwindow => simp only [Option.some.injEq, hwindow, true_and, eq_comm (a := row)]
  · next hwindow => simp only [hwindow, Bool.false_eq_true, false_and, reduceCtorEq]

/-- What a scan says of a write to a watched file. -/
theorem Watched.rows_about (h : Watched ar world root names) (ht : t.isFinite = true)
    (hmtime : world.fs.mtime (pathOf root names) = some t) :
    (scanRows ar world since now).filter (isAbout (pathOf root names) t) =
      if inWindow ar since now t = true then [fileRow world root names t] else [] := by
  unfold scanRows
  rw [filter_filterMap_of (q := fun file => pathOf file.1 file.2 = pathOf root names),
    h.scanned_eq]
  · simp only [List.filterMap_cons, List.filterMap_nil, rowIn, hmtime, Option.bind_some]
    split <;> simp_all
  · intro file row hrow
    obtain ⟨mtime, hread, -, rfl⟩ := rowIn_eq_some.mp hrow
    rw [isAbout_fileRow ht]
    by_cases hpath : pathOf file.1 file.2 = pathOf root names
    · rw [hpath, hmtime] at hread
      simp [hpath, Option.some.inj hread]
    · simp [hpath]

/-- A scan says nothing of a write that it does not find. -/
theorem rows_about_none (ht : t.isFinite = true) (hmtime : world.fs.mtime path ≠ some t) :
    (scanRows ar world since now).filter (isAbout path t) = [] := by
  rw [List.filter_eq_nil_iff]
  intro row hrow habout
  obtain ⟨file, -, hfile⟩ := List.mem_filterMap.mp hrow
  obtain ⟨mtime, hread, -, rfl⟩ := rowIn_eq_some.mp hfile
  rw [isAbout_fileRow ht] at habout
  obtain ⟨rfl, rfl⟩ := of_decide_eq_true habout
  exact hmtime hread

/-! ## Ticks -/

/-- What one tick finds, and when. -/
structure ScanTurn where
  world : FilesWorld
  clock : Clock

/-- The rows of one tick after another over the state. -/
def filesRows (ar : Arithmetic) : Fields → List ScanTurn → List Json
  | _, [] => []
  | state, r :: rest =>
      (runWatcher ar r.world r.clock (filesWatcher ar) state).2 ++
        filesRows ar (runWatcher ar r.world r.clock (filesWatcher ar) state).1 rest

variable {clock : Clock} {state : Fields}

/-- A tick of the watcher scans with the time that the state has, and leaves its own. -/
theorem runWatcher_files (henabled : world.cfg.enabled = true)
    (hroots : world.cfg.projectRoots ≠ []) (clock : Clock) (state : Fields) :
    (runWatcher ar world clock (filesWatcher ar) state).2 =
        scanRows ar world (scanSince ar world.cfg state clock.now) clock.now ∧
      (runWatcher ar world clock (filesWatcher ar) state).1.get "filesLastScan" =
        some (jsonFloat clock.now) := by
  have hgate : (filesWatcher ar).gate world = .run := by
    show (if _ then _ else if _ then _ else _) = _
    rw [henabled, if_neg (by simp), if_neg hroots]
  have hsince : scanSince ar world.cfg (editHealth state "files" startedHealth) clock.now =
      scanSince ar world.cfg state clock.now := by
    unfold scanSince
    rw [editHealth_get (by decide)]
  obtain ⟨f, htick⟩ := @runWatcher_run ar _ world clock _ hgate state
  rw [htick]
  constructor
  · show scanRows ar world (scanSince ar world.cfg (editHealth state "files" startedHealth)
      clock.now) clock.now = _
    rw [hsince]
  · show (editHealth _ "files" f).get "filesLastScan" = _
    rw [editHealth_get (by decide)]
    exact Fields.get_insert ..

/-- A tick says nothing of a write that it does not find. -/
theorem tick_about_none (ht : t.isFinite = true) (hmtime : world.fs.mtime path ≠ some t) :
    (runWatcher ar world clock (filesWatcher ar) state).2.filter (isAbout path t) = [] := by
  by_cases henabled : world.cfg.enabled = true
  · by_cases hroots : world.cfg.projectRoots = []
    · have hgate : (filesWatcher ar).gate world =
          .skipped true false "no project roots configured" := by
        show (if _ then _ else if _ then _ else _) = _
        rw [henabled, if_neg (by simp), if_pos hroots]
      unfold runWatcher
      rw [hgate]
      rfl
    · rw [(runWatcher_files henabled hroots clock state).1]
      exact rows_about_none ht hmtime
  · have hgate : (filesWatcher ar).gate world = .skipped false false "disabled in config" := by
      show (if _ then _ else if _ then _ else _) = _
      rw [Bool.not_eq_true] at henabled
      rw [henabled]
      rfl
    unfold runWatcher
    rw [hgate]
    rfl

/-- A scan goes on from where the last one was, if the clock did. -/
theorem scanSince_last (ho : Ordered ar value) (cfg : FilesConfig) {last now : F64}
    (hstate : Fields.get state "filesLastScan" = some (jsonFloat last))
    (hlast : last.isFinite = true) (hnow : now.isFinite = true) (hle : value last ≤ value now) :
    scanSince ar cfg state now = last := by
  have hread : floatOr ar (ar.sub now cfg.intervalSeconds) (some (jsonFloat last)) = last := by
    unfold jsonFloat
    rw [if_pos hlast]
    rfl
  have hless : ¬ ar.less now last = true := by
    rw [ho.less_iff now last hnow hlast]
    exact not_lt.mpr hle
  unfold scanSince
  simp only [hstate, hread]
  exact if_neg hless

theorem Watched.roots_ne (h : Watched ar world root names) : world.cfg.projectRoots ≠ [] := by
  intro hnil
  have honce := h.once
  rw [hnil] at honce
  cases honce

/-- Once a scan began after a write, no later one reports it. -/
theorem rows_about_later (ho : Ordered ar value) (ht : t.isFinite = true) {rounds : List ScanTurn}
    (hwatched : ∀ r ∈ rounds, Watched ar r.world root names ∧
      r.world.fs.mtime (pathOf root names) = some t) :
    ∀ {last : F64} {state : Fields},
      Fields.get state "filesLastScan" = some (jsonFloat last) → last.isFinite = true →
      (∀ r ∈ rounds, r.clock.now.isFinite = true) → value t ≤ value last →
      (last :: rounds.map (fun r => r.clock.now)).IsChain (fun a b => value a ≤ value b) →
      (filesRows ar state rounds).filter (isAbout (pathOf root names) t) = [] := by
  induction rounds with
  | nil =>
      intro last state _ _ _ _ _
      rfl
  | cons r rest ih =>
      intro last state hstate hlast hfinite hwritten hclock
      obtain ⟨hw, hmtime⟩ := hwatched r (List.mem_cons_self ..)
      have hnow := hfinite r (List.mem_cons_self ..)
      rw [List.map_cons, List.isChain_cons_cons] at hclock
      obtain ⟨hle, hclock⟩ := hclock
      obtain ⟨hrows, hleft⟩ := @runWatcher_files ar _ hw.enabled hw.roots_ne r.clock state
      have hold : inWindow ar last r.clock.now t = false := by
        have hless : ar.less last t = false := by
          rw [← Bool.not_eq_true, ho.less_iff last t hlast ht]
          exact not_lt.mpr hwritten
        unfold inWindow
        rw [hless, Bool.false_and]
      rw [filesRows, List.filter_append, hrows,
        scanSince_last ho r.world.cfg hstate hlast hnow hle, hw.rows_about ht hmtime, hold,
        if_neg Bool.false_ne_true, List.nil_append]
      exact ih (fun s hs => hwatched s (List.mem_cons_of_mem _ hs)) hleft hnow
        (fun s hs => hfinite s (List.mem_cons_of_mem _ hs)) (hwritten.trans hle) hclock

/-- **A write is reported once.** Whatever the state was and whatever the ticks before found,
a write between two scans to a file that is watched from then on is in the rows of all ticks
exactly once, with the row that the first scan after it makes. -/
theorem write_reported (ho : Ordered ar value) {before after : List ScanTurn}
    {last first : ScanTurn}
    (hlast : last.world.cfg.enabled = true ∧ last.world.cfg.projectRoots ≠ [])
    (hbefore : ∀ r ∈ before ++ [last], r.world.fs.mtime (pathOf root names) ≠ some t)
    (hwatched : ∀ r ∈ first :: after, Watched ar r.world root names ∧
      r.world.fs.mtime (pathOf root names) = some t)
    (hfinite : t.isFinite = true ∧ ∀ r ∈ last :: first :: after, r.clock.now.isFinite = true)
    (hwritten : value last.clock.now < value t ∧ value t ≤ value first.clock.now)
    (hclock : ((last :: first :: after).map (fun r => r.clock.now)).IsChain
      (fun a b => value a ≤ value b)) (state : Fields) :
    (filesRows ar state (before ++ last :: first :: after)).filter
      (isAbout (pathOf root names) t) = [fileRow first.world root names t] := by
  obtain ⟨ht, hfinite⟩ := hfinite
  induction before generalizing state with
  | cons r before ih =>
      rw [List.cons_append, filesRows, List.filter_append,
        tick_about_none ht (hbefore r (by simp)), List.nil_append]
      exact ih (fun s hs => hbefore s (by simpa using Or.inr (by simpa using hs))) _
  | nil =>
      obtain ⟨hw, hmtime⟩ := hwatched first (List.mem_cons_self ..)
      have hlastnow := hfinite last (by simp)
      have hfirstnow := hfinite first (by simp)
      rw [List.map_cons, List.map_cons, List.isChain_cons_cons] at hclock
      obtain ⟨hle, hclock⟩ := hclock
      obtain ⟨-, hstate⟩ := @runWatcher_files ar _ hlast.1 hlast.2 last.clock state
      obtain ⟨hrows, hleft⟩ := @runWatcher_files ar _ hw.enabled hw.roots_ne first.clock
        (runWatcher ar last.world last.clock (filesWatcher ar) state).1
      have hnew : inWindow ar last.clock.now first.clock.now t = true := by
        unfold inWindow
        rw [(ho.less_iff _ _ hlastnow ht).mpr hwritten.1,
          ho.ahead _ _ hfirstnow ht hwritten.2]
        rfl
      rw [List.nil_append, filesRows, List.filter_append,
        tick_about_none ht (hbefore last (by simp)), List.nil_append, filesRows,
        List.filter_append, hrows,
        scanSince_last ho first.world.cfg hstate hlastnow hfirstnow hle, hw.rows_about ht hmtime,
        if_pos hnew, rows_about_later ho ht (fun r hr => hwatched r (List.mem_cons_of_mem _ hr))
          hleft hfirstnow (fun r hr => hfinite r (by simp [hr])) hwritten.2 hclock,
        List.append_nil]

end

/-! ## A file in a source directory -/

/-- A sum that is too large stays at the larger part. -/
def cappedAdd (a b : F64) : F64 :=
  if Binary64.decode a + Binary64.decode b < Binary64.limit then
    Binary64.encode (Binary64.decode a + Binary64.decode b)
  else if Binary64.decode a < Binary64.decode b then b else a

theorem decode_le_cappedAdd (a b : F64) : Binary64.decode a ≤ Binary64.decode (cappedAdd a b) := by
  unfold cappedAdd
  split
  · next hfits =>
      rw [Binary64.decode_encode hfits]
      exact Nat.le_add_right ..
  · split
    · next hless => exact hless.le
    · exact le_refl _

def boundedNumbers : Arithmetic :=
  { Tracker.Charging.wholeNumbers with
    add := cappedAdd
    add_whole := by
      intro a b h
      show cappedAdd (Binary64.encode a) (Binary64.encode b) = Binary64.encode (a + b)
      rw [cappedAdd, Binary64.decode_encode (by omega), Binary64.decode_encode (by omega),
        if_pos h] }

theorem boundedNumbers_ordered : Ordered boundedNumbers Binary64.decode where
  less_iff _ _ _ _ := decide_eq_true_iff
  ahead _ _ _ _ hle := decide_eq_false (not_lt.mpr (hle.trans (decode_le_cappedAdd ..)))

/-- A root with a directory in it and a file in that, which is written at some second. -/
def sourceFiles (written : ℕ) : FileSystem where
  readDir dir :=
    if dir = "/p".toList then some [⟨".git".toList, some .dir⟩, ⟨"src".toList, some .dir⟩]
    else if dir = "/p/src".toList then some [⟨"a.rs".toList, some .file⟩]
    else none
  mtime path := if path = "/p/src/a.rs".toList then some (Binary64.encode written) else none
  readString _ := none
  disk := ⟨fun _ => none, fun _ => none, ['/']⟩

def sourceRound (written now : ℕ) : ScanTurn where
  world := ⟨⟨true, ["/p".toList], [], Binary64.encode 8, Binary64.encode 20, []⟩,
    sourceFiles written, remoteUrls⟩
  clock := ⟨Binary64.encode now, F64.zero, Binary64.encode now⟩

theorem sourceFiles_walk (written now : ℕ) : walk (sourceRound written now).world.fs []
    (scanTurns boundedNumbers (sourceRound written now).world.cfg) "/p".toList =
      [["src".toList, "a.rs".toList]] := by
  have hturns : scanTurns boundedNumbers (sourceRound written now).world.cfg = 9 := by
    show scanTurns boundedNumbers ⟨true, ["/p".toList], [], Binary64.encode 8,
      Binary64.encode 20, []⟩ = 9
    decide
  rw [hturns]
  rfl

theorem sourceFiles_watched (written now : ℕ) : Watched boundedNumbers
    (sourceRound written now).world "/p".toList ["src".toList, "a.rs".toList] where
  enabled := rfl
  once := by
    show ["/p".toList].count "/p".toList = 1
    decide
  visible := by
    refine mem_walk.mp ?_
    show _ ∈ walk _ [] _ _
    rw [sourceFiles_walk]
    exact List.mem_singleton.mpr rfl
  distinct := by
    intro dir entries hread
    simp only [sourceRound, sourceFiles] at hread
    split at hread
    · obtain rfl := Option.some.inj hread
      decide
    · split at hread
      · obtain rfl := Option.some.inj hread
        decide
      · cases hread
  alone := by
    intro other hother way hway _
    obtain rfl : other = "/p".toList := List.mem_singleton.mp hother
    have hway := mem_walk.mpr hway
    rw [show (sourceRound written now).world.cfg.ignoreDirs = [] from rfl,
      sourceFiles_walk] at hway
    exact ⟨rfl, List.mem_singleton.mp hway⟩

/-- A file that was written at 70, over scans at 60, 80 and 100. -/
theorem write_reported_source :
    (filesRows boundedNumbers [] [sourceRound 50 60, sourceRound 70 80, sourceRound 70 100]).filter
        (isAbout "/p/src/a.rs".toList (Binary64.encode 70)) =
      [fileRow (sourceRound 70 80).world "/p".toList ["src".toList, "a.rs".toList]
        (Binary64.encode 70)] := by
  have hpath : pathOf "/p".toList ["src".toList, "a.rs".toList] = "/p/src/a.rs".toList := by decide
  have hdecode : ∀ n ≤ 100, Binary64.decode (Binary64.encode n) = n :=
    fun n hn => Binary64.decode_encode (lt_of_le_of_lt hn (by decide))
  show (filesRows boundedNumbers [] ([] ++ sourceRound 50 60 :: sourceRound 70 80 ::
    [sourceRound 70 100])).filter _ = _
  rw [← hpath]
  refine write_reported boundedNumbers_ordered ⟨rfl, ?_⟩ ?_ ?_ ⟨by decide, ?_⟩ ⟨?_, ?_⟩ ?_ []
  · exact List.cons_ne_nil "/p".toList []
  · intro r hr
    obtain rfl := List.mem_singleton.mp hr
    rw [hpath]
    show some (Binary64.encode 50) ≠ _
    decide
  · intro r hr
    rcases List.mem_cons.mp hr with rfl | hr
    · exact ⟨sourceFiles_watched 70 80, rfl⟩
    · obtain rfl := List.mem_singleton.mp hr
      exact ⟨sourceFiles_watched 70 100, rfl⟩
  · have hfinite : ∀ n ∈ [60, 80, 100], F64.isFinite (Binary64.encode n) = true := by decide
    intro r hr
    rcases List.mem_cons.mp hr with rfl | hr
    · exact hfinite 60 (by simp)
    · rcases List.mem_cons.mp hr with rfl | hr
      · exact hfinite 80 (by simp)
      · obtain rfl := List.mem_singleton.mp hr
        exact hfinite 100 (by simp)
  · show Binary64.decode (Binary64.encode 60) < Binary64.decode (Binary64.encode 70)
    rw [hdecode 60 (by omega), hdecode 70 (by omega)]
    omega
  · show Binary64.decode (Binary64.encode 70) ≤ Binary64.decode (Binary64.encode 80)
    rw [hdecode 70 (by omega), hdecode 80 (by omega)]
    omega
  · show [Binary64.encode 60, Binary64.encode 80, Binary64.encode 100].IsChain
      (fun a b => Binary64.decode a ≤ Binary64.decode b)
    simp [hdecode]

end Stackhour.Agent
