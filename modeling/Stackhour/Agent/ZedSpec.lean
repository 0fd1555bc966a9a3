import Stackhour.Agent.WatchersSpec
import Stackhour.Agent.Zed
import Stackhour.Core.ConfigSpec
import Stackhour.Tracker.ChargingSpec

/-!
# The signature hides no update

While a signature stands for one content, the watcher that skips what it has read reports
what one would that reads at every tick: each thread whose time of update is not that of
the reading before, and nothing of the first reading.
-/

namespace Stackhour.Agent

open Core Domain

/-! ## The plain watcher -/

variable (ar : Arithmetic)

/-- What a tick reads when it reads. -/
def readingOf (world : ZedWorld) : Option (List ZedThread) :=
  if world.enabled then
    match world.files with
    | .found _ (.ok tables) => (threadsTable tables).map (threadsOf ar)
    | _ => none
  else none

/-- When a reading has a thread updated. -/
def updatedIn (reading : List ZedThread) (key : String) : Option String :=
  (Table.lookup ZedThread.key reading key).map ZedThread.updated

/-- What is new in a reading; all of the first one is old. -/
def changes (last : Option (List ZedThread)) (reading : List ZedThread) : List ZedThread :=
  match last with
  | none => []
  | some before => reading.filter (fun thread => updatedIn before thread.key ≠ some thread.updated)

/-- The rows of a watcher that reads at every tick. -/
def plainRows : Option (List ZedThread) → List (ZedWorld × Clock) → List Json
  | _, [] => []
  | last, (world, clock) :: rest =>
      match readingOf ar world with
      | none => plainRows last rest
      | some reading =>
          (changes last reading).map (threadRow clock.now) ++ plainRows (some reading) rest

/-- The rows of the watcher, over one tick after another. -/
def zedRows : Fields → List (ZedWorld × Clock) → List Json
  | _, [] => []
  | state, (world, clock) :: rest =>
      (runWatcher ar world clock (zedWatcher ar) state).2 ++
        zedRows (runWatcher ar world clock (zedWatcher ar) state).1 rest

/-- A signature stands for one content, in which no thread is twice. -/
structure Faithful (contents : String → Option (List ZedThread)) (world : ZedWorld) : Prop where
  signature : ∀ s tables, world.files = .found s (.ok tables) →
    (threadsTable tables).map (threadsOf ar) = contents s
  distinct : ∀ reading, readingOf ar world = some reading →
    Table.Unique ZedThread.key reading

/-! ## What the state knows -/

/-- The flag of the first reading. -/
def initDone (state : Fields) : Bool :=
  ((Fields.get state "zedInitDone").map (jsTruthy ar.toFloats)).getD false

/-- The state has the last reading, and its signature is not one of another. -/
structure Knows (contents : String → Option (List ZedThread)) (state : Fields)
    (last : Option (List ZedThread)) : Prop where
  threads : ∀ key, Fields.get (objectAt state "zedThreads") key =
    (last.bind (updatedIn · key)).map Json.string
  init : initDone ar state = last.isSome
  signature : ∀ s reading, stringAt state "zedDbSignature" = some s →
    contents s = some reading → last = some reading

variable {ar : Arithmetic} {contents : String → Option (List ZedThread)} {state : Fields}
  {last : Option (List ZedThread)} {world : ZedWorld} {clock : Clock} {now : F64}

/-- The watcher keeps to its four keys. -/
def zedKeys : List String := ["zedThreads", "zedInitDone", "zedDbSignature", "zedDbMtime"]

theorem stringAt_congr {s t : Fields} {key : String} (h : Fields.get s key = Fields.get t key) :
    stringAt s key = stringAt t key := by
  unfold stringAt
  rw [h]

theorem Knows.congr (h : Knows ar contents state last) {t : Fields}
    (hsame : ∀ key ∈ zedKeys, Fields.get t key = Fields.get state key) :
    Knows ar contents t last where
  threads key := by
    rw [objectAt_congr (hsame "zedThreads" (by decide))]
    exact h.threads key
  init := by
    unfold initDone
    rw [hsame "zedInitDone" (by decide)]
    exact h.init
  signature := by
    rw [stringAt_congr (hsame "zedDbSignature" (by decide))]
    exact h.signature

theorem Knows.edit (h : Knows ar contents state last) (name : String) (f : Fields → Fields) :
    Knows ar contents (editHealth state name f) last := by
  refine h.congr ?_
  intro key hkey
  exact editHealth_get (fun heq => absurd (heq ▸ hkey) (by decide)) state name f

theorem get_recordSignature {key : String} (hsig : key ≠ "zedDbSignature")
    (hmtime : key ≠ "zedDbMtime") (state : Fields) (signature : String) :
    Fields.get (recordSignature state signature) key = Fields.get state key := by
  unfold recordSignature
  rw [Fields.get_remove_of_ne hmtime, Fields.get_insert_of_ne hsig]

theorem stringAt_recordSignature (state : Fields) (signature : String) :
    stringAt (recordSignature state signature) "zedDbSignature" = some signature := by
  unfold stringAt recordSignature
  rw [Fields.get_remove_of_ne (by decide), Fields.get_insert]

/-- The next map has the threads of the reading. -/
theorem get_nextThreads {threads : List ZedThread} (h : Table.Unique ZedThread.key threads)
    (key : String) : Fields.get (nextThreads threads) key =
      (updatedIn threads key).map Json.string := by
  have hfold : ∀ acc : Fields,
      Fields.get (threads.foldl (fun next thread => Fields.insert next thread.key
        (.string thread.updated)) acc) key =
        ((updatedIn threads key).map Json.string).or (Fields.get acc key) := by
    induction threads with
    | nil =>
        intro acc
        rfl
    | cons thread rest ih =>
        intro acc
        unfold Table.Unique at h
        rw [List.map_cons, List.nodup_cons] at h
        rw [List.foldl_cons, ih h.2]
        unfold updatedIn
        by_cases hkey : thread.key = key
        · subst hkey
          have hfirst : Table.lookup ZedThread.key (thread :: rest) thread.key = some thread :=
            List.find?_cons_of_pos (decide_eq_true rfl)
          rw [Table.lookup_eq_none.mpr h.1, hfirst, Fields.get_insert]
          rfl
        · rw [Table.lookup, Table.lookup, List.find?_cons_of_neg (by simpa using hkey),
            Fields.get_insert_of_ne (Ne.symm hkey)]
  exact (hfold []).trans (Option.or_none ..)

/-- What is reported is what is new. -/
theorem Knows.reports (h : Knows ar contents state last) (reading : List ZedThread) :
    reading.filter (isReported (objectAt state "zedThreads") (initDone ar state)) =
      changes last reading := by
  cases last with
  | none =>
      refine List.filter_eq_nil_iff.mpr ?_
      intro thread _
      simp [isReported, h.threads, h.init]
  | some before =>
      refine List.filter_congr ?_
      intro thread _
      have hstring : stringAt (objectAt state "zedThreads") thread.key =
          updatedIn before thread.key := by
        unfold stringAt
        rw [h.threads]
        cases hupdated : updatedIn before thread.key with
        | none => simp [hupdated]
        | some updated => simp [hupdated]
      simp [isReported, hstring, h.init]

/-! ## A tick -/

/-- What a tick says of a reading. -/
def tickRows (last : Option (List ZedThread)) (now : F64) :
    Option (List ZedThread) → List Json
  | none => []
  | some reading => (changes last reading).map (threadRow now)

theorem Knows.recordSignature (h : Knows ar contents state last) {signature : String}
    (hsig : contents signature = none) :
    Knows ar contents (Agent.recordSignature state signature) last where
  threads key := by
    rw [objectAt_congr (get_recordSignature (by decide) (by decide) state signature)]
    exact h.threads key
  init := by
    unfold initDone
    rw [get_recordSignature (by decide) (by decide)]
    exact h.init
  signature := by
    intro s reading hs hreading
    rw [stringAt_recordSignature] at hs
    rw [← Option.some.inj hs, hsig] at hreading
    cases hreading

/-- Reading reports what is new, and the state knows the reading. -/
theorem Knows.readThreads (h : Knows ar contents state last) {tables : List ZedTable}
    {signature : String} (hsig : (threadsTable tables).map (threadsOf ar) = contents signature)
    (hdistinct : ∀ reading, contents signature = some reading →
      Table.Unique ZedThread.key reading) :
    (Agent.readThreads ar tables state now signature).2 = tickRows last now (contents signature) ∧
      Knows ar contents (Agent.readThreads ar tables state now signature).1
        ((contents signature).or last) := by
  unfold Agent.readThreads
  cases htable : threadsTable tables with
  | none =>
      rw [htable, Option.map_none] at hsig
      rw [← hsig]
      exact ⟨rfl, h.recordSignature hsig.symm⟩
  | some t =>
      rw [htable, Option.map_some] at hsig
      rw [← hsig]
      refine ⟨congrArg (List.map (threadRow now)) (h.reports (threadsOf ar t)), ?_⟩
      have hnodup := hdistinct _ hsig.symm
      constructor
      · intro key
        have hobject : objectAt (Agent.recordSignature (Fields.insert (Fields.insert state
            "zedThreads" (.object (nextThreads (threadsOf ar t)))) "zedInitDone" (.bool true))
              signature) "zedThreads" = nextThreads (threadsOf ar t) := by
          unfold objectAt
          rw [get_recordSignature (by decide) (by decide), Fields.get_insert_of_ne (by decide),
            Fields.get_insert]
        dsimp only
        rw [hobject, get_nextThreads hnodup]
        rfl
      · unfold initDone
        dsimp only
        rw [get_recordSignature (by decide) (by decide), Fields.get_insert]
        rfl
      · intro s reading hs hreading
        dsimp only at hs
        rw [stringAt_recordSignature] at hs
        rw [← Option.some.inj hs, ← hsig] at hreading
        exact hreading

/-- A reading that is as the one before has nothing new. -/
theorem changes_same {reading : List ZedThread} (h : Table.Unique ZedThread.key reading) :
    changes (some reading) reading = [] := by
  refine List.filter_eq_nil_iff.mpr ?_
  intro thread hthread
  have hfind := (Table.lookup_eq_some_iff h).mpr ⟨hthread, rfl⟩
  simp [updatedIn, hfind]

theorem readingOf_found {signature : String} {tables : List ZedTable}
    (henabled : world.enabled = true) (hfiles : world.files = .found signature (.ok tables)) :
    readingOf ar world = (threadsTable tables).map (threadsOf ar) := by
  unfold readingOf
  rw [if_pos henabled, hfiles]

/-- A run says what is new since the last reading, also where it does not read. -/
theorem Knows.run (h : Knows ar contents state last) (hf : Faithful ar contents world)
    (henabled : world.enabled = true) (now : F64) :
    reported ((zedWatcher ar).run world state now).2 = tickRows last now (readingOf ar world) ∧
      Knows ar contents ((zedWatcher ar).run world state now).1
        ((readingOf ar world).or last) := by
  unfold zedWatcher
  dsimp only
  cases hfiles : world.files with
  | absent =>
      have hnone : readingOf ar world = none := by
        unfold readingOf
        rw [if_pos henabled, hfiles]
      rw [hnone]
      exact ⟨rfl, h⟩
  | found signature db =>
      cases db with
      | error message =>
          have hnone : readingOf ar world = none := by
            unfold readingOf
            rw [if_pos henabled, hfiles]
          rw [hnone]
          dsimp only
          split
          · exact ⟨rfl, h⟩
          · exact ⟨rfl, h⟩
      | ok tables =>
          have hreading := @readingOf_found ar _ _ _ henabled hfiles
          have hcontents := hf.signature signature tables hfiles
          rw [hreading, hcontents]
          rw [hcontents] at hreading
          dsimp only
          split
          · next hseen =>
              -- the signature is one that was read: its content is the last reading
              cases hsame : contents signature with
              | none => exact ⟨rfl, h⟩
              | some reading =>
                  obtain rfl := h.signature signature reading hseen hsame
                  have hdistinct := hf.distinct reading (hreading.trans hsame)
                  refine ⟨?_, h⟩
                  show [] = (changes (some reading) reading).map (threadRow now)
                  rw [changes_same hdistinct]
                  rfl
          · exact h.readThreads hcontents fun reading hsome =>
              hf.distinct reading (hreading.trans hsome)

theorem Knows.tick (h : Knows ar contents state last) (hf : Faithful ar contents world)
    (clock : Clock) : (runWatcher ar world clock (zedWatcher ar) state).2 =
        tickRows last clock.now (readingOf ar world) ∧
      Knows ar contents (runWatcher ar world clock (zedWatcher ar) state).1
        ((readingOf ar world).or last) := by
  by_cases henabled : world.enabled = true
  · have hgate : (zedWatcher ar).gate world = .run := if_pos henabled
    obtain ⟨f, htick⟩ := @runWatcher_run ar _ world clock _ hgate state
    obtain ⟨hrows, hknows⟩ := (h.edit "zed" startedHealth).run hf henabled clock.now
    rw [htick]
    exact ⟨hrows, hknows.edit "zed" f⟩
  · have hgate : (zedWatcher ar).gate world = .skipped false false "disabled in config" :=
      if_neg henabled
    have hnone : readingOf ar world = none := if_neg henabled
    unfold runWatcher
    rw [hgate, hnone]
    exact ⟨rfl, h.edit "zed" _⟩

theorem zedRows_plain {turns : List (ZedWorld × Clock)}
    (hf : ∀ turn ∈ turns, Faithful ar contents turn.1) (h : Knows ar contents state last) :
    zedRows ar state turns = plainRows ar last turns := by
  induction turns generalizing state last with
  | nil => rfl
  | cons turn rest ih =>
      obtain ⟨world, clock⟩ := turn
      obtain ⟨hrows, hknows⟩ := h.tick (hf (world, clock) (List.mem_cons_self ..)) clock
      have ih := ih (fun turn hturn => hf turn (List.mem_cons_of_mem _ hturn)) hknows
      rw [zedRows, plainRows, hrows, ih]
      cases readingOf ar world with
      | none => rfl
      | some reading => rfl

theorem knows_fresh (hfresh : ∀ key ∈ zedKeys, Fields.get state key = none) :
    Knows ar contents state none where
  threads key := by
    have hobject : objectAt state "zedThreads" = [] := by
      unfold objectAt
      rw [hfresh "zedThreads" (by decide)]
    rw [hobject]
    rfl
  init := by
    unfold initDone
    rw [hfresh "zedInitDone" (by decide)]
    rfl
  signature := by
    intro s reading hs
    unfold stringAt at hs
    rw [hfresh "zedDbSignature" (by decide)] at hs
    cases hs

/-- **Skipping hides no update.** From a state that knows no threads, over ticks with any
databases, missing files, failing reads and pauses, the rows are those of a watcher that
reads at every tick: of each reading but the first, the threads whose time of update is
not that of the reading before. -/
theorem zed_reports_changes {turns : List (ZedWorld × Clock)}
    (hf : ∀ turn ∈ turns, Faithful ar contents turn.1)
    (hfresh : ∀ key ∈ zedKeys, Fields.get state key = none) :
    zedRows ar state turns = plainRows ar none turns :=
  zedRows_plain hf (knows_fresh hfresh)

/-! ## Two threads, one of which goes on -/

/-- The database when the first thread was updated at some time. -/
def twoThreads (updated : String) : List ZedTable :=
  [⟨"threads", ["id", "updated_at"],
    [fun col => if col = "id" then .text "a" else .text updated,
      fun col => if col = "id" then .text "b" else .integer 1]⟩]

def twoLook (signature updated : String) : ZedWorld × Clock :=
  (⟨true, .found signature (.ok (twoThreads updated))⟩, ⟨F64.one, F64.zero, F64.one⟩)

def brokenLook : ZedWorld × Clock :=
  (⟨true, .found "s2" (.error "cannot open threads.db")⟩, ⟨F64.one, F64.zero, F64.one⟩)

def twoContents (signature : String) : Option (List ZedThread) :=
  some [⟨"a", signature, "thread a"⟩, ⟨"b", "1", "thread b"⟩]

theorem twoLook_faithful (signature : String) : Faithful Tracker.Charging.wholeNumbers
    twoContents (twoLook signature signature).1 where
  signature := by
    intro s tables hfiles
    obtain ⟨rfl, htables⟩ := ZedFiles.found.inj hfiles
    obtain rfl := Except.ok.inj htables
    rfl
  distinct := by
    intro reading hreading
    obtain rfl : [⟨"a", signature, "thread a"⟩, ⟨"b", "1", "thread b"⟩] = reading :=
      Option.some.inj hreading
    show ["a", "b"].Nodup
    decide

theorem brokenLook_faithful :
    Faithful Tracker.Charging.wholeNumbers twoContents brokenLook.1 where
  signature := by
    intro s tables hfiles
    cases (ZedFiles.found.inj hfiles).2
  distinct := by
    intro reading hreading
    cases hreading

/-- The update is reported by the tick that can read it. -/
theorem zed_reports_changes_two :
    zedRows Tracker.Charging.wholeNumbers []
        [twoLook "s1" "s1", twoLook "s1" "s1", brokenLook, twoLook "s2" "s2"] =
      [threadRow F64.one ⟨"a", "s2", "thread a"⟩] := by
  have hf : ∀ turn ∈ [twoLook "s1" "s1", twoLook "s1" "s1", brokenLook, twoLook "s2" "s2"],
      Faithful Tracker.Charging.wholeNumbers twoContents turn.1 := by
    intro turn hturn
    simp only [List.mem_cons, List.not_mem_nil, or_false] at hturn
    rcases hturn with rfl | rfl | rfl | rfl
    · exact twoLook_faithful "s1"
    · exact twoLook_faithful "s1"
    · exact brokenLook_faithful
    · exact twoLook_faithful "s2"
  exact (zed_reports_changes hf fun _ _ => rfl).trans rfl

end Stackhour.Agent
