import Stackhour.Agent.Watchers
import Stackhour.Core.ConfigSpec
import Stackhour.Tracker.ChargingSpec

/-!
# Watchers are isolated

Watchers that keep to keys of their own do not see each other: a tick collects what each of them
would give alone, also when another one fails, and leaves each its own entry.
-/

namespace Stackhour.Agent

open Core Domain

variable {ar : Arithmetic} {World : Type*}

/-! ## Health entries -/

theorem objectAt_insert (fields : Fields) (key : String) (m : Fields) :
    objectAt (fields.insert key (.object m)) key = m := by
  unfold objectAt
  rw [Fields.get_insert]

theorem objectAt_congr {a b : Fields} {key : String}
    (h : Fields.get a key = Fields.get b key) : objectAt a key = objectAt b key := by
  unfold objectAt
  rw [h]

theorem healthOf_edit (state : Fields) (name : String) (f : Fields → Fields) :
    healthOf (editHealth state name f) name = f (healthOf state name) := by
  unfold healthOf editHealth
  rw [objectAt_insert, objectAt_insert]
  rfl

/-- An edit leaves the entries of the other watchers. -/
theorem healthOf_edit_of_ne {name other : String} (h : other ≠ name) (state : Fields)
    (f : Fields → Fields) : healthOf (editHealth state name f) other = healthOf state other := by
  unfold healthOf editHealth
  rw [objectAt_insert]
  exact objectAt_congr (Fields.get_insert_of_ne h _)

theorem editHealth_get {key : String} (h : key ≠ "watcherHealth") (state : Fields) (name : String)
    (f : Fields → Fields) : (editHealth state name f).get key = state.get key :=
  Fields.get_insert_of_ne h _

theorem healthOf_congr {s t : Fields} (h : s.get "watcherHealth" = t.get "watcherHealth")
    (name : String) : healthOf s name = healthOf t name := by
  unfold healthOf
  rw [objectAt_congr h]

/-! ## What a watcher sees -/

def SameOn (keys : List String) (s t : Fields) : Prop := ∀ k ∈ keys, s.get k = t.get k

/-- A watcher reads and writes these keys of the state and no others. -/
structure Private (w : Watcher World) (keys : List String) : Prop where
  apart : "watcherHealth" ∉ keys
  frame : ∀ world s now k, k ∉ keys → (w.run world s now).1.get k = s.get k
  run : ∀ world s t now, SameOn keys s t → (w.run world s now).2 = (w.run world t now).2 ∧
    SameOn keys (w.run world s now).1 (w.run world t now).1
  marker : ∀ world s t, SameOn keys s t → w.inputMarker world s = w.inputMarker world t

/-- Two states that look the same to a watcher, its entry included. -/
structure Alike (name : String) (keys : List String) (s t : Fields) : Prop where
  own : SameOn keys s t
  health : healthOf s name = healthOf t name

namespace Alike

variable {name : String} {keys : List String} {s t u : Fields}

theorem refl (s : Fields) : Alike name keys s s := ⟨fun _ _ => rfl, rfl⟩

theorem trans (h : Alike name keys s t) (h' : Alike name keys t u) : Alike name keys s u :=
  ⟨fun k hk => (h.own k hk).trans (h'.own k hk), h.health.trans h'.health⟩

theorem edit (hapart : "watcherHealth" ∉ keys) (h : Alike name keys s t) (f : Fields → Fields) :
    Alike name keys (editHealth s name f) (editHealth t name f) := by
  constructor
  · intro k hk
    have hne : k ≠ "watcherHealth" := fun hkey => hapart (hkey ▸ hk)
    rw [editHealth_get hne, editHealth_get hne]
    exact h.own k hk
  · rw [healthOf_edit, healthOf_edit, h.health]

/-- An edit of another entry is not seen. -/
theorem of_edit (hapart : "watcherHealth" ∉ keys) {other : String} (hne : name ≠ other)
    (s : Fields) (f : Fields → Fields) : Alike name keys (editHealth s other f) s :=
  ⟨fun _ hk => editHealth_get (fun hkey => hapart (hkey ▸ hk)) _ _ _,
    healthOf_edit_of_ne hne _ _⟩

end Alike

variable {world : World} {clock : Clock} {w : Watcher World} {keys : List String}

/-- The rows of a run; one that fails has none. -/
def reported : Except String (List Json) → List Json
  | .ok rows => rows
  | .error _ => []

/-- A tick of a watcher that is on is its run, between two edits of its entry. -/
theorem runWatcher_run (hgate : w.gate world = .run) (state : Fields) :
    ∃ f, runWatcher ar world clock w state =
      (editHealth (w.run world (editHealth state w.name startedHealth) clock.now).1 w.name f,
        reported (w.run world (editHealth state w.name startedHealth) clock.now).2) := by
  unfold runWatcher
  rw [hgate]
  dsimp only
  obtain ⟨after, result⟩ := w.run world (editHealth state w.name startedHealth) clock.now
  cases result with
  | error message => exact ⟨_, rfl⟩
  | ok rows => exact ⟨_, rfl⟩

/-- **A watcher gives the same** where the state looks the same to it. -/
theorem runWatcher_alike (hw : Private w keys) {s t : Fields} (h : Alike w.name keys s t) :
    (runWatcher ar world clock w s).2 = (runWatcher ar world clock w t).2 ∧
      Alike w.name keys (runWatcher ar world clock w s).1 (runWatcher ar world clock w t).1 := by
  unfold runWatcher
  cases w.gate world with
  | skipped enabled available reason => exact ⟨rfl, h.edit hw.apart _⟩
  | run =>
      have hstarted := h.edit hw.apart startedHealth
      have hbefore := hw.marker world _ _ hstarted.own
      obtain ⟨hresult, hown⟩ := hw.run world _ _ clock.now hstarted.own
      have hran : Alike w.name keys (w.run world (editHealth s w.name startedHealth) clock.now).1
          (w.run world (editHealth t w.name startedHealth) clock.now).1 := by
        refine ⟨hown, ?_⟩
        rw [healthOf_congr (hw.frame world _ clock.now _ hw.apart),
          healthOf_congr (hw.frame world _ clock.now _ hw.apart)]
        exact hstarted.health
      have hafter := hw.marker world _ _ hran.own
      dsimp only
      generalize w.run world (editHealth s w.name startedHealth) clock.now = a
        at hresult hran hafter
      generalize w.run world (editHealth t w.name startedHealth) clock.now = b
        at hresult hran hafter
      obtain ⟨a, ra⟩ := a
      obtain ⟨b, rb⟩ := b
      obtain rfl : ra = rb := hresult
      cases ra with
      | error message => exact ⟨rfl, hran.edit hw.apart _⟩
      | ok rows =>
          dsimp only at hafter ⊢
          rw [hbefore, hafter]
          exact ⟨rfl, hran.edit hw.apart _⟩

/-- A watcher is not seen by one with other keys and another name. -/
theorem runWatcher_unseen (hw : Private w keys) {name : String} {others : List String}
    (hapart : "watcherHealth" ∉ others) (hne : name ≠ w.name) (hdisjoint : ∀ k ∈ keys, k ∉ others)
    (s : Fields) : Alike name others (runWatcher ar world clock w s).1 s := by
  unfold runWatcher
  cases w.gate world with
  | skipped enabled available reason => exact Alike.of_edit hapart hne s _
  | run =>
      have hstarted : Alike name others (editHealth s w.name startedHealth) s :=
        Alike.of_edit hapart hne s _
      have hran : Alike name others (w.run world (editHealth s w.name startedHealth) clock.now).1
          (editHealth s w.name startedHealth) := by
        constructor
        · exact fun k hk => hw.frame world _ clock.now k fun hmine => hdisjoint k hmine hk
        · exact healthOf_congr (hw.frame world _ clock.now _ hw.apart) name
      dsimp only
      generalize w.run world (editHealth s w.name startedHealth) clock.now = a at hran
      obtain ⟨a, ra⟩ := a
      cases ra with
      | error message => exact ((Alike.of_edit hapart hne a _).trans hran).trans hstarted
      | ok rows => exact ((Alike.of_edit hapart hne a _).trans hran).trans hstarted

/-! ## The loop -/

theorem runWatchers_cons (clocks : String → Clock) (w : Watcher World) (ws : List (Watcher World))
    (s : Fields) : runWatchers ar world clocks (w :: ws) s =
      ((runWatchers ar world clocks ws (runWatcher ar world (clocks w.name) w s).1).1,
        (runWatcher ar world (clocks w.name) w s).2 ++
          (runWatchers ar world clocks ws (runWatcher ar world (clocks w.name) w s).1).2) := by
  have hacc : ∀ (ws : List (Watcher World)) (s : Fields) (rows : List Json),
      ws.foldl (fun acc w =>
        let r := runWatcher ar world (clocks w.name) w acc.1
        (r.1, acc.2 ++ r.2)) (s, rows) =
      ((runWatchers ar world clocks ws s).1, rows ++ (runWatchers ar world clocks ws s).2) := by
    intro ws
    induction ws with
    | nil => exact fun s rows => Prod.ext rfl (List.append_nil rows).symm
    | cons w ws ih =>
        intro s rows
        unfold runWatchers
        rw [List.foldl_cons, List.foldl_cons, ih, ih, List.nil_append, List.append_assoc]
  unfold runWatchers
  rw [List.foldl_cons, hacc, List.nil_append]
  rfl

theorem runWatchers_one (clocks : String → Clock) (w : Watcher World) (s : Fields) :
    runWatchers ar world clocks [w] s = runWatcher ar world (clocks w.name) w s := by
  rw [runWatchers_cons]
  exact Prod.ext rfl (List.append_nil _)

/-- The watchers of a tick keep to keys of their own, and have names of their own. -/
structure Isolated (own : String → List String) (ws : List (Watcher World)) : Prop where
  keep : ∀ w ∈ ws, Private w (own w.name)
  names : (ws.map Watcher.name).Nodup
  disjoint : ws.Pairwise fun a b => ∀ k ∈ own a.name, k ∉ own b.name

variable {own : String → List String} {ws : List (Watcher World)}

theorem Isolated.tail (h : Isolated own (w :: ws)) : Isolated own ws :=
  ⟨fun v hv => h.keep v (List.mem_cons_of_mem w hv), (List.nodup_cons.mp h.names).2,
    (List.pairwise_cons.mp h.disjoint).2⟩

theorem Isolated.ne (h : Isolated own (w :: ws)) {v : Watcher World} (hv : v ∈ ws) :
    v.name ≠ w.name :=
  fun heq => (List.nodup_cons.mp h.names).1 (heq ▸ List.mem_map_of_mem hv)

/-- The watchers after one of them are not seen by it. -/
theorem runWatchers_unseen (clocks : String → Clock) (h : Isolated own (w :: ws)) (s : Fields) :
    Alike w.name (own w.name) (runWatchers ar world clocks ws s).1 s := by
  induction ws generalizing s with
  | nil => exact Alike.refl s
  | cons v ws ih =>
      rw [runWatchers_cons]
      have hv := h.keep v (List.mem_cons_of_mem w List.mem_cons_self)
      have hskip : Isolated own (w :: ws) := by
        refine ⟨?_, ?_, ?_⟩
        · intro u hu
          rcases List.mem_cons.mp hu with rfl | hu
          · exact h.keep u List.mem_cons_self
          · exact h.keep u (List.mem_cons_of_mem w (List.mem_cons_of_mem v hu))
        · exact h.names.sublist (((List.sublist_cons_self v ws).cons_cons w).map Watcher.name)
        · exact h.disjoint.sublist ((List.sublist_cons_self v ws).cons_cons w)
      apply (ih hskip _).trans
      apply runWatcher_unseen hv (h.keep w List.mem_cons_self).apart
      · exact (h.ne List.mem_cons_self).symm
      · intro k hk hmine
        exact (List.pairwise_cons.mp h.disjoint).1 v List.mem_cons_self k hmine hk

/-- **A tick is the sum of its watchers.** The rows are, in the fixed order, those that each
watcher gives alone, and each finds its keys and its entry as if it had been alone, whichever of
the others fail or are skipped. -/
theorem tick_isolated (clocks : String → Clock) (h : Isolated own ws) (state : Fields) :
    (runWatchers ar world clocks ws state).2 =
        ws.flatMap (fun w => (runWatchers ar world clocks [w] state).2) ∧
      ∀ w ∈ ws, Alike w.name (own w.name) (runWatchers ar world clocks ws state).1
        (runWatchers ar world clocks [w] state).1 := by
  induction ws generalizing state with
  | nil => exact ⟨rfl, nofun⟩
  | cons w ws ih =>
      have hw := h.keep w List.mem_cons_self
      have hseen : ∀ v ∈ ws, (runWatchers ar world clocks [v]
            (runWatcher ar world (clocks w.name) w state).1).2 =
          (runWatchers ar world clocks [v] state).2 ∧
          Alike v.name (own v.name) (runWatchers ar world clocks [v]
            (runWatcher ar world (clocks w.name) w state).1).1
            (runWatchers ar world clocks [v] state).1 := by
        intro v hv
        rw [runWatchers_one, runWatchers_one]
        apply runWatcher_alike (h.keep v (List.mem_cons_of_mem w hv))
        apply runWatcher_unseen hw (h.keep v (List.mem_cons_of_mem w hv)).apart (h.ne hv)
        exact fun k hk => (List.pairwise_cons.mp h.disjoint).1 v hv k hk
      obtain ⟨hrows, hstates⟩ := ih h.tail (runWatcher ar world (clocks w.name) w state).1
      rw [runWatchers_cons]
      constructor
      · dsimp only
        rw [hrows, List.flatMap_cons, runWatchers_one]
        congr 1
        exact List.flatMap_congr fun v hv => (hseen v hv).1
      · intro v hv
        rcases List.mem_cons.mp hv with rfl | hv
        · rw [runWatchers_one]
          exact runWatchers_unseen clocks h _
        · exact (hstates v hv).trans (hseen v hv).2

/-- A watcher that finds one row. -/
def rowWatcher : Watcher Unit where
  name := "files"
  gate _ := .run
  inputMarker _ _ := none
  run _ state _ := (state.insert "filesLastScan" .null, .ok [.object []])

/-- A watcher whose directory is not there. -/
def lostWatcher : Watcher Unit where
  name := "claude"
  gate _ := .run
  inputMarker _ _ := none
  run _ state _ := (state, .error "no such directory")

def ownKeys (name : String) : List String := if name = "files" then ["filesLastScan"] else []

theorem rowWatcher_private : Private rowWatcher ["filesLastScan"] where
  apart := by decide
  frame _ _ _ _ hk := Fields.get_insert_of_ne (fun h => hk (List.mem_singleton.mpr h)) _
  run _ _ _ _ _ := by
    refine ⟨rfl, ?_⟩
    intro k hk
    obtain rfl := List.mem_singleton.mp hk
    exact (Fields.get_insert _ _ _).trans (Fields.get_insert _ _ _).symm
  marker _ _ _ _ := rfl

theorem lostWatcher_private : Private lostWatcher [] where
  apart := nofun
  frame _ _ _ _ _ := rfl
  run _ _ _ _ h := ⟨rfl, h⟩
  marker _ _ _ _ := rfl

theorem lost_isolated : Isolated ownKeys [lostWatcher, rowWatcher] where
  keep w hw := by
    rcases List.mem_cons.mp hw with rfl | hw
    · exact lostWatcher_private
    · obtain rfl := List.mem_singleton.mp hw
      exact rowWatcher_private
  names := by decide
  disjoint := List.pairwise_pair.mpr nofun

/-- The watcher that fails is the first. -/
theorem tick_isolated_lost :
    let clocks : String → Clock := fun _ => ⟨F64.one, F64.zero, F64.one⟩
    (runWatchers Tracker.Charging.wholeNumbers () clocks [lostWatcher, rowWatcher] []).2 =
        [lostWatcher, rowWatcher].flatMap
          (fun w => (runWatchers Tracker.Charging.wholeNumbers () clocks [w] []).2) ∧
      ∀ w ∈ [lostWatcher, rowWatcher], Alike w.name (ownKeys w.name)
        (runWatchers Tracker.Charging.wholeNumbers () clocks [lostWatcher, rowWatcher] []).1
        (runWatchers Tracker.Charging.wholeNumbers () clocks [w] []).1 :=
  tick_isolated _ lost_isolated []

end Stackhour.Agent
