import Stackhour.Tracker.Backup

/-!
# What a backup leaves alone

The entries on the way to the source and its sidecars stay unless they are, under
another path, the ones a backup removes or replaces. The destination is replaced last but
for its permissions and its verification.
-/

set_option linter.unusedSectionVars false

namespace Stackhour.Tracker

open Files Result

namespace Backup

open Restore (walSuffix shmSuffix)

variable {δ β Db : Type*} [DecidableEq δ] {S : Copying β Db}

/-! ## Entries -/

/-- The temporary file and its sidecars. -/
def temps (tmp : Loc δ) : List (Loc δ) := [tmp, tmp.suffix walSuffix, tmp.suffix shmSuffix]

/-- The sidecars of the destination that are removed. -/
def dropped (destination : Loc δ) (f : Faults β) : List (Loc δ) :=
  (if f.keepWal then [] else [destination.suffix walSuffix]) ++
    (if f.keepShm then [] else [destination.suffix shmSuffix])

/-- The links on the way to a file, and its entry. -/
def Storage.path (st : Storage δ β) (l : Loc δ) : List (Loc δ) :=
  match st.way l with
  | none => []
  | some p => p.1 ++ [p.2]

/-- The entries through which the database at a path and its sidecars are reached. -/
def Storage.entries (st : Storage δ β) (l : Loc δ) : List (Loc δ) :=
  match st.way l with
  | none => []
  | some p => p.1 ++ [p.2, p.2.suffix walSuffix, p.2.suffix shmSuffix]

/-- A file or a link stands there. -/
def Storage.Standing (st : Storage δ β) (l : Loc δ) : Prop :=
  st.disk l ≠ none ∧ st.disk l ≠ some .dir

theorem unlink_congr {d d' : Disk δ (Loc δ) (File β)} {l : Loc δ}
    (h : d' l = some .dir ↔ d l = some .dir) : d'.unlink l l = d.unlink l l := by
  by_cases hdir : d l = some .dir
  · rw [Disk.unlink_dir hdir, Disk.unlink_dir (h.mpr hdir), hdir, h.mpr hdir]
  · rw [Disk.unlink_eq hdir, Disk.unlink_eq (fun hd => hdir (h.mp hd)), Disk.put_self, Disk.put_self]

theorem unlink_dir_iff {d : Disk δ (Loc δ) (File β)} {l m : Loc δ} :
    d.unlink l m = some .dir ↔ d m = some .dir := by
  by_cases hm : m = l
  · subst hm
    by_cases hdir : d m = some .dir
    · rw [Disk.unlink_dir hdir]
    · rw [Disk.unlink_eq hdir, Disk.put_self]
      exact ⟨nofun, fun h => absurd h hdir⟩
  · rw [Disk.unlink_of_ne hm]

/-- A removal changes what it removes and nothing else. -/
theorem unlink_self_eq {st : Storage δ β} {l : Loc δ} :
    st.disk.unlink l l = st.disk l ↔ ¬st.Standing l := by
  unfold Storage.Standing
  by_cases hdir : st.disk l = some .dir
  · rw [Disk.unlink_dir hdir]
    simp [hdir]
  · rw [Disk.unlink_eq hdir, Disk.put_self]
    simp only [hdir, not_false_eq_true, and_true, ne_eq, not_not]
    exact eq_comm

/-- Removing entries one after the other. -/
theorem foldl_remove (st : Storage δ β) {ls : List (Loc δ)} (hls : ls.Nodup) (m : Loc δ) :
    (ls.foldl Storage.remove st).disk m =
      if m ∈ ls then st.disk.unlink m m else st.disk m := by
  induction ls generalizing st with
  | nil => simp
  | cons l ls ih =>
      obtain ⟨hl, hls⟩ := List.nodup_cons.mp hls
      rw [List.foldl_cons, ih _ hls]
      show (if m ∈ ls then (st.disk.unlink l).unlink m m else st.disk.unlink l m) = _
      by_cases hm : m = l
      · subst hm
        rw [if_neg hl, if_pos List.mem_cons_self]
      · rw [Disk.unlink_of_ne hm]
        have hcongr : (st.disk.unlink l).unlink m m = st.disk.unlink m m :=
          unlink_congr unlink_dir_iff
        simp [hm, hcongr]

theorem suffixes_ne (l : Loc δ) : l ≠ l.suffix walSuffix ∧ l ≠ l.suffix shmSuffix ∧
    l.suffix walSuffix ≠ l.suffix shmSuffix :=
  ⟨(Loc.suffix_ne (by decide)).symm, (Loc.suffix_ne (by decide)).symm,
    fun h => absurd (Loc.suffix_inj h) (by decide)⟩

theorem temps_nodup (l : Loc δ) : (temps l).Nodup := by
  obtain ⟨hwal, hshm, hsides⟩ := suffixes_ne l
  simp [temps, hwal, hshm, hsides]

theorem dropped_nodup (l : Loc δ) (f : Faults β) : (dropped l f).Nodup := by
  obtain ⟨-, -, hsides⟩ := suffixes_ne l
  unfold dropped
  split <;> split <;> simp [hsides]

theorem clear_disk (st : Storage δ β) (tmp m : Loc δ) :
    (clear st tmp).disk m = if m ∈ temps tmp then st.disk.unlink m m else st.disk m :=
  foldl_remove st (temps_nodup tmp) m

theorem dropSidecars_disk (st : Storage δ β) (l : Loc δ) (f : Faults β) (m : Loc δ) :
    (dropSidecars st l f).disk m = if m ∈ dropped l f then st.disk.unlink m m else st.disk m := by
  rw [← foldl_remove st (dropped_nodup l f)]
  unfold dropSidecars dropped
  split <;> split <;> rfl

/-! ## Steps on the temporary file -/

/-- Nothing but the temporary file and its sidecars changes, and directories stay. -/
structure Scratch (tmp : Loc δ) (st st' : Storage δ β) : Prop where
  other : ∀ e, e ∉ temps tmp → st'.disk e = st.disk e
  dirs : ∀ e, st'.disk e = some .dir ↔ st.disk e = some .dir
  next : st.next ≤ st'.next

variable {tmp : Loc δ}

theorem Scratch.refl (st : Storage δ β) : Scratch tmp st st :=
  ⟨fun _ _ => rfl, fun _ => Iff.rfl, le_rfl⟩

theorem Scratch.trans {a b c : Storage δ β} (h : Scratch tmp a b) (h' : Scratch tmp b c) :
    Scratch tmp a c := by
  constructor
  · exact fun e he => (h'.other e he).trans (h.other e he)
  · exact fun e => (h'.dirs e).trans (h.dirs e)
  · exact h.next.trans h'.next

theorem written_cases (d : Disk δ (Loc δ) (File β)) (next : ℕ) (l : Loc δ) (b : β) :
    (∃ i, written d next l b = d.put l (some (.file ⟨i, b⟩)) ∧ d l ≠ some .dir) ∨
      written d next l b = d := by
  unfold written
  split
  · next hnone => exact .inl ⟨next, rfl, by simp [hnone]⟩
  · next x hx => exact .inl ⟨x.ino, rfl, by simp [hx]⟩
  · exact .inr rfl

theorem write_of_ne {st : Storage δ β} {l m : Loc δ} (h : m ≠ l) (b : β) :
    (st.write l b).disk m = st.disk m := by
  show written st.disk st.next l b m = _
  rcases written_cases st.disk st.next l b with ⟨i, hput, -⟩ | hsame
  · rw [hput, Disk.put_of_ne h]
  · rw [hsame]

theorem scratch_write {st : Storage δ β} {l : Loc δ} (hl : l ∈ temps tmp) (b : β) :
    Scratch tmp st (st.write l b) := by
  constructor
  · intro e he
    refine write_of_ne ?_ b
    rintro rfl
    exact he hl
  · intro e
    show written st.disk st.next l b e = _ ↔ _
    rcases written_cases st.disk st.next l b with ⟨i, hput, hdir⟩ | hsame
    · rw [hput]
      by_cases he : e = l
      · rw [he, Disk.put_self]
        exact ⟨nofun, fun h => absurd h hdir⟩
      · rw [Disk.put_of_ne he]
    · rw [hsame]
  · exact Nat.le_succ _

theorem scratch_save {st : Storage δ β} {l : Loc δ} (hl : l ∈ temps tmp) (o : Option β) :
    Scratch tmp st (st.save l o) := by
  cases o with
  | none => exact Scratch.refl st
  | some b => exact scratch_write hl b

theorem scratch_remove {st : Storage δ β} {l : Loc δ} (hl : l ∈ temps tmp) :
    Scratch tmp st (st.remove l) := by
  constructor
  · exact fun e he => Disk.unlink_of_ne fun heq => he (heq ▸ hl)
  · exact fun e => unlink_dir_iff
  · exact le_rfl

theorem mem_temps (tmp : Loc δ) :
    tmp ∈ temps tmp ∧ tmp.suffix walSuffix ∈ temps tmp ∧ tmp.suffix shmSuffix ∈ temps tmp := by
  simp [temps]

theorem scratch_leave (st : Storage δ β) (tmp : Loc δ) (left : Leftover β) :
    Scratch tmp st (leave st tmp left) := by
  obtain ⟨hmain, hwal, hshm⟩ := mem_temps tmp
  exact ((scratch_save hmain _).trans (scratch_save hwal _)).trans (scratch_save hshm _)

theorem write_none {st : Storage δ β} {l : Loc δ} (h : st.disk l = none) (b : β) :
    (st.write l b).disk l = some (.file ⟨st.next, b⟩) := by
  show written st.disk st.next l b l = _
  unfold written
  rw [h]
  exact Disk.put_self _

theorem write_file {st : Storage δ β} {l : Loc δ} {x : File β} (h : st.disk l = some (.file x))
    (b : β) : (st.write l b).disk l = some (.file ⟨x.ino, b⟩) := by
  show written st.disk st.next l b l = _
  unfold written
  rw [h]
  exact Disk.put_self _

theorem save_of_ne {st : Storage δ β} {l m : Loc δ} (h : m ≠ l) (o : Option β) :
    (st.save l o).disk m = st.disk m := by
  cases o with
  | none => rfl
  | some b => exact write_of_ne h b

theorem way_file {st : Storage δ β} {l : Loc δ} {x : File β} (h : st.disk l = some (.file x)) :
    st.way l = some ([], l) := by
  unfold Storage.way
  rw [Disk.follow_end h nofun]
  dsimp only
  rw [h]

theorem read_file {st : Storage δ β} {l : Loc δ} {x : File β} (h : st.disk l = some (.file x)) :
    st.read l = some x.bytes := by
  unfold Storage.read Disk.bytes
  rw [way_file h]
  simp [h]

theorem way_spec {st : Storage δ β} {l : Loc δ} {p : List (Loc δ) × Loc δ}
    (h : st.way l = some p) :
    (∀ e ∈ p.1, ∃ target, st.disk e = some (.link target)) ∧ ∃ x, st.disk p.2 = some (.file x) := by
  unfold Storage.way at h
  split at h
  · cases h
  · next q hq =>
      split at h
      · next x hx =>
          obtain rfl := Option.some.inj h
          exact ⟨(Disk.follow_spec hq).1, x, hx⟩
      · cases h

/-- Where nothing on the way changes, it is the way still. -/
theorem way_congr {st st' : Storage δ β} {l : Loc δ} {p : List (Loc δ) × Loc δ}
    (h : st.way l = some p) (hpath : ∀ e ∈ st.path l, st'.disk e = st.disk e) :
    st'.way l = some p := by
  unfold Storage.path at hpath
  rw [h] at hpath
  have hend : st'.disk p.2 = st.disk p.2 := hpath _ (by simp)
  obtain ⟨-, x, hx⟩ := way_spec h
  have hfollow : st.disk.follow Storage.maxLinks l = some p := by
    unfold Storage.way at h
    split at h
    · cases h
    · next q hq =>
        split at h
        · rwa [Option.some.inj h] at hq
        · cases h
  unfold Storage.way
  rw [Disk.follow_congr hfollow (fun e he => hpath e (List.mem_append_left _ he)) hend]
  dsimp only
  rw [hend, hx]

theorem opened_congr {st st' : Storage δ β} {l : Loc δ} (hway : (st.way l).isSome = true)
    (hentries : ∀ e ∈ st.entries l, st'.disk e = st.disk e) : st'.opened l = st.opened l := by
  obtain ⟨p, hp⟩ := Option.isSome_iff_exists.mp hway
  unfold Storage.entries at hentries
  rw [hp] at hentries
  have hpath : ∀ e ∈ st.path l, st'.disk e = st.disk e := by
    unfold Storage.path
    rw [hp]
    intro e he
    refine hentries e ?_
    rcases List.mem_append.mp he with hlink | hend
    · exact List.mem_append_left _ hlink
    · rw [List.mem_singleton.mp hend]
      simp
  unfold Storage.opened
  rw [hp, way_congr hp hpath]
  dsimp only
  rw [hentries p.2 (by simp), hentries (p.2.suffix walSuffix) (by simp)]

/-! ## Up to the destination -/

/-- The one file a database is copied and settled into. -/
def backupOf (S : Copying β Db) (m : β) (w : Option β) : β :=
  S.settled (S.copied m w).1 (S.copied m w).2

theorem committed_backupOf (m : β) (w : Option β) :
    S.committed (backupOf S m w) none = S.committed m w :=
  (S.settled_kept _ _).trans (S.copied_kept m w)

/-- The steps up to the destination succeed. -/
structure Sealed (S : Copying β Db) (st : Storage δ β) (source tmp : Loc δ) (f : Faults β) :
    Prop where
  snapshot : f.snapshot = none
  finalize : f.finalize = none
  verifyTmp : f.verifyTmp = none
  chmodTmp : f.chmodTmp = none
  fsync : f.fsync = none
  room : st.disk tmp ≠ some .dir ∧ st.disk (tmp.suffix walSuffix) ≠ some .dir
  copy : ∃ m w n, st.opened source = some (m, w) ∧ S.check (backupOf S m w) = .ok n

/-- The copy takes the place of the destination. -/
structure Installs (S : Copying β Db) (st : Storage δ β) (source destination tmp : Loc δ)
    (f : Faults β) : Prop extends Sealed S st source tmp f where
  rename : f.rename = none
  place : st.disk destination ≠ some .dir

/-- All steps succeed. -/
structure Completes (S : Copying β Db) (st : Storage δ β) (source destination tmp : Loc δ)
    (f : Faults β) : Prop extends Installs S st source destination tmp f where
  chmodDestination : f.chmodDestination = none
  verifyDestination : f.verifyDestination = none

/-- What stands at the temporary file before the destination is touched. -/
structure Copied (S : Copying β Db) (before : Storage δ β) (source tmp : Loc δ)
    (st : Storage δ β) (b : β) : Prop extends Scratch tmp before st where
  main : ∃ i, before.next ≤ i ∧ st.disk tmp = some (.file ⟨i, b⟩)

theorem opened_file {st : Storage δ β} {l : Loc δ} {x : File β} {w : Option β}
    (h : st.disk l = some (.file x))
    (hwal : st.disk (l.suffix walSuffix) = none ∧ w = none ∨
      ∃ y, st.disk (l.suffix walSuffix) = some (.file y) ∧ w = some y.bytes) :
    st.opened l = some (x.bytes, w) := by
  unfold Storage.opened
  rw [way_file h]
  dsimp only
  rw [h]
  rcases hwal with ⟨hwal, rfl⟩ | ⟨y, hwal, rfl⟩
  · rw [hwal]
  · rw [hwal]

/-- Whatever becomes of the snapshot, it is a matter of the temporary file. -/
theorem snapshot_scratch (st : Storage δ β) (source tmp : Loc δ)
    (fault : Option (String × Leftover β)) :
    Scratch tmp st (snapshot S st source tmp fault).1 := by
  unfold snapshot
  split
  · exact scratch_leave st tmp _
  · next m w _ _ _ => exact scratch_leave st tmp ⟨some (S.copied m w).1, (S.copied m w).2, none⟩
  · exact Scratch.refl st

theorem snapshot_ok {st : Storage δ β} {source tmp : Loc δ} {fault : Option (String × Leftover β)}
    {u : Unit} (hok : (snapshot S st source tmp fault).2 = .ok u) :
    fault = none ∧ st.disk tmp = none ∧ st.disk (tmp.suffix walSuffix) = none ∧
      ∃ m w, st.opened source = some (m, w) ∧
        (snapshot S st source tmp fault).1.disk tmp =
          some (.file ⟨st.next, (S.copied m w).1⟩) ∧
        (snapshot S st source tmp fault).1.opened tmp = some (S.copied m w) := by
  unfold snapshot at hok ⊢
  split at hok
  · cases hok
  · next m w hopened hmain hwal =>
      obtain ⟨hmw, hms, hws⟩ := suffixes_ne tmp
      refine ⟨rfl, hmain, hwal, m, w, hopened, ?_⟩
      have hfile : (leave st tmp ⟨some (S.copied m w).1, (S.copied m w).2, none⟩).disk tmp =
          some (.file ⟨st.next, (S.copied m w).1⟩) :=
        (save_of_ne hms none).trans ((save_of_ne hmw _).trans (write_none hmain _))
      refine ⟨hfile, opened_file hfile ?_⟩
      have hlog : (st.write tmp (S.copied m w).1).disk (tmp.suffix walSuffix) = none :=
        (write_of_ne hmw.symm _).trans hwal
      show (((st.write tmp (S.copied m w).1).save (tmp.suffix walSuffix) (S.copied m w).2).save
        (tmp.suffix shmSuffix) none).disk _ = _ ∧ _ ∨ _
      rw [save_of_ne hws]
      rcases (S.copied m w).2 with _ | b
      · exact .inl ⟨hlog, rfl⟩
      · exact .inr ⟨_, write_none hlog b, rfl⟩
  · cases hok

theorem snapshot_error {st : Storage δ β} {source tmp : Loc δ}
    {fault : Option (String × Leftover β)} {e : String}
    (herror : (snapshot S st source tmp fault).2 = .error e) :
    ¬(fault = none ∧ (∃ m w, st.opened source = some (m, w)) ∧ st.disk tmp = none ∧
      st.disk (tmp.suffix walSuffix) = none) := by
  rintro ⟨rfl, ⟨m, w, hopened⟩, hmain, hwal⟩
  unfold snapshot at herror
  rw [hopened, hmain, hwal] at herror
  cases herror

theorem finalize_scratch (st : Storage δ β) (tmp : Loc δ) (fault : Option (String × Leftover β)) :
    Scratch tmp st (finalizeSnapshot S st tmp fault).1 := by
  obtain ⟨hmain, hwal, hshm⟩ := mem_temps tmp
  unfold finalizeSnapshot
  split
  · exact scratch_leave st tmp _
  · exact Scratch.refl st
  · exact ((scratch_write hmain _).trans (scratch_remove hwal)).trans (scratch_remove hshm)

/-- The copy settles into one file. -/
theorem finalize_opened {st : Storage δ β} {tmp : Loc δ} {x : File β} {m : β} {w : Option β}
    (hmain : st.disk tmp = some (.file x)) (hopened : st.opened tmp = some (m, w)) :
    (finalizeSnapshot S st tmp none).2 = .ok () ∧
      (finalizeSnapshot S st tmp none).1.disk tmp = some (.file ⟨x.ino, S.settled m w⟩) := by
  obtain ⟨hmw, hms, -⟩ := suffixes_ne tmp
  unfold finalizeSnapshot
  rw [hopened]
  refine ⟨rfl, ?_⟩
  show ((st.write tmp (S.settled m w)).disk.unlink _).unlink _ tmp = _
  rw [Disk.unlink_of_ne hms, Disk.unlink_of_ne hmw]
  exact write_file hmain _

/-- The steps on the temporary file: where one fails, nothing else has changed. -/
theorem copied_rule {st : Storage δ β} {dirOf : List (List Char) → δ}
    {source tmp : Path} {f : Faults β}
    {next : Storage δ β → Storage δ β × Except String BackupInfo}
    {Q : Storage δ β × Except String BackupInfo → Prop}
    (htemps : ∀ e ∈ temps (tmp.locate dirOf), st.disk e = none ∨ st.disk e = some .dir)
    (herror : ∀ st' e, Scratch (tmp.locate dirOf) st st' →
      ¬Sealed S st (source.locate dirOf) (tmp.locate dirOf) f → Q (st', .error e))
    (hnext : ∀ st' m w, Sealed S st (source.locate dirOf) (tmp.locate dirOf) f →
      st.opened (source.locate dirOf) = some (m, w) →
      Copied S st (source.locate dirOf) (tmp.locate dirOf) st' (backupOf S m w) → Q (next st')) :
    Q (andThen (snapshot S st (source.locate dirOf) (tmp.locate dirOf) f.snapshot) fun st _ =>
      andThen (finalizeSnapshot S st (tmp.locate dirOf) f.finalize) fun st _ =>
      andThen (st, verifyBackup S st dirOf tmp f.verifyTmp) fun st _ =>
      andThen (attempt st f.chmodTmp) fun st _ =>
      andThen (attempt st f.fsync) fun st _ => next st) := by
  obtain ⟨hmem, hwal, -⟩ := mem_temps (tmp.locate dirOf)
  have hroom : ∀ e ∈ temps (tmp.locate dirOf), st.disk e ≠ some .dir → st.disk e = none :=
    fun e he hdir => (htemps e he).resolve_right hdir
  have hscratch := snapshot_scratch (S := S) st (source.locate dirOf) (tmp.locate dirOf) f.snapshot
  refine andThen_rule (fun e he => herror _ e hscratch fun h => ?_) fun u hok => ?_
  · obtain ⟨m, w, n, hopened, -⟩ := h.copy
    exact snapshot_error he ⟨h.snapshot, ⟨m, w, hopened⟩, hroom _ hmem h.room.1,
      hroom _ hwal h.room.2⟩
  obtain ⟨hsnapshot, hmain, hlog, m, w, hopened, hfile, hcopied⟩ := snapshot_ok hok
  generalize (snapshot S st (source.locate dirOf) (tmp.locate dirOf) f.snapshot).1 = st1
    at hscratch hfile hcopied ⊢
  have hscratch := hscratch.trans (finalize_scratch (S := S) st1 (tmp.locate dirOf) f.finalize)
  cases hfinalize : f.finalize with
  | some fault =>
      rw [hfinalize] at hscratch
      refine andThen_rule (fun e _ => herror _ e hscratch fun h => ?_) fun u hok => by cases hok
      have hnone := h.finalize
      rw [hfinalize] at hnone
      cases hnone
  | none =>
  rw [hfinalize] at hscratch
  obtain ⟨hfinal, hsettled⟩ := finalize_opened (S := S) hfile hcopied
  refine andThen_rule (fun e he => ?_) fun _ _ => ?_
  · rw [hfinal] at he
    cases he
  generalize (finalizeSnapshot S st1 (tmp.locate dirOf) none).1 = st2 at hscratch hsettled ⊢
  have hattempt : ∀ fault, (attempt st2 fault).1 = st2 := by
    intro fault
    cases fault <;> rfl
  have hread := read_file hsettled
  refine andThen_rule (fun e he => herror _ e hscratch fun h => ?_) fun n hverified => ?_
  · obtain ⟨m', w', n, hopened', hcheck⟩ := h.copy
    cases hopened.symm.trans hopened'
    have hverify : verifyBackup S st2 dirOf tmp f.verifyTmp = .error e := he
    unfold verifyBackup at hverify
    rw [hread, h.verifyTmp] at hverify
    exact absurd (hverify.symm.trans hcheck) nofun
  obtain ⟨hverifyTmp, hcheck⟩ : f.verifyTmp = none ∧ S.check (backupOf S m w) = .ok n := by
    have hverify : verifyBackup S st2 dirOf tmp f.verifyTmp = .ok n := hverified
    unfold verifyBackup at hverify
    rw [hread] at hverify
    cases hfault : f.verifyTmp with
    | none =>
        rw [hfault] at hverify
        exact ⟨rfl, hverify⟩
    | some e =>
        rw [hfault] at hverify
        cases hverify
  cases hchmod : f.chmodTmp with
  | some e =>
      refine herror _ e hscratch fun h => ?_
      have hnone := h.chmodTmp
      rw [hchmod] at hnone
      cases hnone
  | none =>
  cases hfsync : f.fsync with
  | some e =>
      refine herror _ e hscratch fun h => ?_
      have hnone := h.fsync
      rw [hfsync] at hnone
      cases hnone
  | none =>
  refine hnext st2 m w ?_ hopened ⟨hscratch, st.next, le_rfl, hsettled⟩
  constructor
  · exact hsnapshot
  · exact hfinalize
  · exact hverifyTmp
  · exact hchmod
  · exact hfsync
  · rw [hmain, hlog]
    exact ⟨nofun, nofun⟩
  · exact ⟨m, w, n, hopened, hcheck⟩

/-! ## The destination -/

theorem tmpSuffix_head (pid : ℕ) : ∃ rest, tmpSuffix pid = '.' :: rest := ⟨_, rfl⟩

theorem mem_temps_suffix {l e : Loc δ} {pid : ℕ} (h : e ∈ temps (l.suffix (tmpSuffix pid))) :
    ∃ s, e = l.suffix ('.' :: s) := by
  obtain ⟨rest, hrest⟩ := tmpSuffix_head pid
  have happend : ∀ s t : List Char, (l.suffix s).suffix t = l.suffix (s ++ t) := by
    intro s t
    unfold Loc.suffix
    rw [List.append_assoc]
  rw [hrest] at h
  simp only [temps, List.mem_cons, List.not_mem_nil, or_false, happend] at h
  rcases h with rfl | rfl | rfl
  · exact ⟨_, rfl⟩
  · exact ⟨_, rfl⟩
  · exact ⟨_, rfl⟩

theorem sidecar_head {s : List Char} (hs : s ∈ [walSuffix, shmSuffix]) : ∃ t, s = '-' :: t := by
  rcases List.mem_pair.mp hs with rfl | rfl
  · exact ⟨_, rfl⟩
  · exact ⟨_, rfl⟩

theorem mem_dropped {l e : Loc δ} {f : Faults β} (h : e ∈ dropped l f) :
    ∃ s ∈ [walSuffix, shmSuffix], e = l.suffix s := by
  unfold dropped at h
  rcases List.mem_append.mp h with h | h
  · split at h
    · cases h
    · exact ⟨walSuffix, by simp, List.mem_singleton.mp h⟩
  · split at h
    · cases h
    · exact ⟨shmSuffix, by simp, List.mem_singleton.mp h⟩

/-- The destination and its sidecars are at other entries than the temporary file. -/
theorem destination_temps (l : Loc δ) (pid : ℕ) : l ∉ temps (l.suffix (tmpSuffix pid)) := by
  intro h
  obtain ⟨s, hs⟩ := mem_temps_suffix h
  exact Loc.suffix_ne (List.cons_ne_nil _ _) hs.symm

theorem sidecar_apart (l : Loc δ) (pid : ℕ) {s : List Char} (hs : s ∈ [walSuffix, shmSuffix]) :
    l.suffix s ∉ temps (l.suffix (tmpSuffix pid)) ∧ l.suffix s ≠ l := by
  obtain ⟨t, rfl⟩ := sidecar_head hs
  constructor
  · intro h
    obtain ⟨r, hr⟩ := mem_temps_suffix h
    exact absurd (List.cons.inj (Loc.suffix_inj hr)).1 (by decide)
  · exact Loc.suffix_ne (List.cons_ne_nil _ _)

theorem dropped_apart {l e : Loc δ} (pid : ℕ) {f : Faults β} (h : e ∈ dropped l f) :
    e ∉ temps (l.suffix (tmpSuffix pid)) ∧ e ≠ l := by
  obtain ⟨s, hs, rfl⟩ := mem_dropped h
  exact sidecar_apart l pid hs

theorem destination_dropped (l : Loc δ) (f : Faults β) : l ∉ dropped l f :=
  fun h => (dropped_apart 0 h).2 rfl

/-- The disk once the sidecars of the destination are removed, but for the temporary file. -/
def Dropped (tmp destination : Loc δ) (f : Faults β) (before st : Storage δ β) : Prop :=
  ∀ e, e ∉ temps tmp → e ≠ destination →
    st.disk e = if e ∈ dropped destination f then before.disk.unlink e e else before.disk e

/-- What the steps under the guard come to. -/
inductive Replaced (S : Copying β Db) (before : Storage δ β) (source destination tmp : Loc δ)
    (f : Faults β) : Storage δ β × Except String BackupInfo → Prop
  | stopped (st : Storage δ β) (e : String) (hscratch : Scratch tmp before st)
      (hsealed : ¬Sealed S before source tmp f) :
      Replaced S before source destination tmp f (st, .error e)
  | kept (st : Storage δ β) (e : String) (hsealed : Sealed S before source tmp f)
      (hinstalls : ¬Installs S before source destination tmp f)
      (hdropped : Dropped tmp destination f before st)
      (hplace : st.disk destination = before.disk destination)
      (hdirs : ∀ e, st.disk e = some .dir ↔ before.disk e = some .dir) :
      Replaced S before source destination tmp f (st, .error e)
  | placed (st : Storage δ β) (r : Except String BackupInfo) (x : File β) (m : β) (w : Option β)
      (hinstalls : Installs S before source destination tmp f)
      (hdropped : Dropped tmp destination f before st)
      (hplace : st.disk destination = some (.file x)) (hnew : before.next ≤ x.ino)
      (hopened : before.opened source = some (m, w)) (hbytes : x.bytes = backupOf S m w)
      (hdirs : ∀ e, st.disk e = some .dir ↔ before.disk e = some .dir)
      (hresult : (∃ info, r = .ok info) ↔ Completes S before source destination tmp f) :
      Replaced S before source destination tmp f (st, r)

theorem rename_ok {st : Storage δ β} {a b : Loc δ} {x : File β}
    (ha : st.disk a = some (.file x)) (hb : st.disk b ≠ some .dir) :
    (st.rename a b none).2 = .ok () ∧
      (st.rename a b none).1.disk = (st.disk.put a none).put b (some (.file x)) := by
  have hdisk : st.disk.rename a b = some ((st.disk.put a none).put b (some (.file x))) := by
    unfold Disk.rename
    rw [ha]
    dsimp only
    split
    · next hdir => exact absurd hdir hb
    · rfl
  unfold Storage.rename
  split
  · next heq => cases heq
  · next hnone =>
      rw [hdisk] at hnone
      cases hnone
  · next disk hsome =>
      rw [hdisk] at hsome
      exact ⟨rfl, (Option.some.inj hsome).symm⟩

theorem rename_error {st : Storage δ β} {a b : Loc δ} {fault : Option String}
    (h : ¬(fault = none ∧ st.disk b ≠ some .dir)) :
    ∃ e, st.rename a b fault = (st, .error e) := by
  unfold Storage.rename
  split
  · exact ⟨_, rfl⟩
  · exact ⟨_, rfl⟩
  · next disk hrename =>
      obtain ⟨n, -, -, hdir, -⟩ := Disk.rename_some hrename
      exact absurd ⟨rfl, hdir⟩ h

/-- What is done once the copy is in its place changes no entry. -/
theorem finish_spec {st : Storage δ β} {dirOf : List (List Char) → δ} {destination : Path}
    {x : File β} {n : ℤ} (hfile : st.disk (destination.locate dirOf) = some (.file x))
    (hcheck : S.check x.bytes = .ok n) (f : Faults β) :
    ∃ r, (andThen (attempt st f.chmodDestination) fun st _ =>
        (st, (verifyBackup S st dirOf destination f.verifyDestination).map
          fun heartbeats => (⟨destination, heartbeats, some destination⟩ : BackupInfo))) = (st, r) ∧
      ((∃ info, r = .ok info) ↔ f.chmodDestination = none ∧ f.verifyDestination = none) := by
  have hverify : verifyBackup S st dirOf destination f.verifyDestination =
      f.verifyDestination.elim (.ok n) .error := by
    unfold verifyBackup
    rw [read_file hfile]
    cases f.verifyDestination with
    | some e => rfl
    | none => exact hcheck
  cases hchmod : f.chmodDestination with
  | some e =>
      refine ⟨.error e, rfl, ?_⟩
      simp
  | none =>
      refine ⟨_, rfl, ?_⟩
      rw [hverify]
      cases f.verifyDestination with
      | some e => simp [Except.map]
      | none => simp [Except.map]

theorem replace_spec {st : Storage δ β} {dirOf : List (List Char) → δ}
    {source destination : Path} {pid : ℕ} {f : Faults β}
    (htemps : ∀ e ∈ temps ((destination.suffix (tmpSuffix pid)).locate dirOf),
      st.disk e = none ∨ st.disk e = some .dir) :
    Replaced S st (source.locate dirOf) (destination.locate dirOf)
      ((destination.suffix (tmpSuffix pid)).locate dirOf) f
      (replace S st dirOf source destination (destination.suffix (tmpSuffix pid)) f) := by
  refine copied_rule htemps (fun st' e hscratch hsealed => .stopped st' e hscratch hsealed) ?_
  intro st' m w hsealed hopened hcopied
  generalize hl : destination.locate dirOf = l
  have htmp : (destination.suffix (tmpSuffix pid)).locate dirOf = l.suffix (tmpSuffix pid) :=
    hl ▸ rfl
  rw [htmp] at hsealed hcopied ⊢
  have hltemps := destination_temps l pid
  have hldropped := destination_dropped l f
  obtain ⟨hmem, -, -⟩ := mem_temps (l.suffix (tmpSuffix pid))
  obtain ⟨i, hi, hmain⟩ := hcopied.main
  -- the sidecars of the destination go
  have hdrop := dropSidecars_disk st' l f
  generalize dropSidecars st' l f = st2 at hdrop ⊢
  dsimp only
  have hdirs : ∀ e, st2.disk e = some .dir ↔ st.disk e = some .dir := by
    intro e
    rw [hdrop, ← hcopied.dirs]
    split
    · exact unlink_dir_iff
    · exact Iff.rfl
  have hdropped : Dropped (l.suffix (tmpSuffix pid)) l f st st2 := by
    intro e he _
    rw [hdrop, hcopied.other e he]
    split
    · exact unlink_congr (by rw [hcopied.other e he])
    · rfl
  have hplace : st2.disk l = st.disk l := by
    rw [hdrop, if_neg hldropped, hcopied.other l hltemps]
  have hfile : st2.disk (l.suffix (tmpSuffix pid)) = some (.file ⟨i, backupOf S m w⟩) := by
    rw [hdrop, if_neg (fun h => (dropped_apart pid h).1 hmem), hmain]
  by_cases hrename : f.rename = none ∧ st2.disk l ≠ some .dir
  · obtain ⟨hnone, hnotdir⟩ := hrename
    obtain ⟨hok, hdisk⟩ := rename_ok hfile hnotdir
    rw [hnone]
    refine andThen_rule (fun e he => ?_) fun u _ => ?_
    · rw [hok] at he
      cases he
    generalize (st2.rename (l.suffix (tmpSuffix pid)) l none).1 = st3 at hdisk ⊢
    have hinstalls : Installs S st (source.locate dirOf) l (l.suffix (tmpSuffix pid)) f :=
      ⟨hsealed, hnone, hplace ▸ hnotdir⟩
    have hplaced : st3.disk l = some (.file ⟨i, backupOf S m w⟩) := by
      rw [hdisk, Disk.put_self]
    have hother : ∀ e, e ≠ l.suffix (tmpSuffix pid) → e ≠ l → st3.disk e = st2.disk e := by
      intro e htemp he
      rw [hdisk, Disk.put_of_ne he, Disk.put_of_ne htemp]
    have hdropped : Dropped (l.suffix (tmpSuffix pid)) l f st st3 := by
      intro e he hne
      rw [hother e (fun heq => he (heq ▸ hmem)) hne]
      exact hdropped e he hne
    have hdirs : ∀ e, st3.disk e = some .dir ↔ st.disk e = some .dir := by
      intro e
      rw [← hdirs e]
      by_cases he : e = l
      · subst he
        rw [hplaced]
        exact ⟨nofun, fun h => absurd h hnotdir⟩
      · by_cases htemp : e = l.suffix (tmpSuffix pid)
        · subst htemp
          rw [hdisk, Disk.put_of_ne he, Disk.put_self, hfile]
          exact ⟨nofun, nofun⟩
        · rw [hother e htemp he]
    obtain ⟨m', w', n, hopened', hcheck⟩ := hsealed.copy
    cases hopened.symm.trans hopened'
    obtain ⟨r, hrun, hresult⟩ :=
      @finish_spec δ β Db _ S st3 dirOf destination _ n (hl ▸ hplaced) hcheck f
    rw [hrun]
    refine .placed st3 r _ m w hinstalls hdropped hplaced hi hopened rfl hdirs (hresult.trans ?_)
    exact ⟨fun h => ⟨hinstalls, h.1, h.2⟩, fun h => ⟨h.chmodDestination, h.verifyDestination⟩⟩
  · obtain ⟨e, hrun⟩ := @rename_error _ _ _ st2 (l.suffix (tmpSuffix pid)) l f.rename hrename
    rw [hrun]
    refine .kept st2 e hsealed (fun h => hrename ⟨h.rename, ?_⟩) hdropped hplace hdirs
    rw [hplace]
    exact h.place

/-! ## What a backup touches -/

section Safe

variable {st : Storage δ β} {dirOf : List (List Char) → δ} {source destination : Path} {pid : ℕ}
  {force : Bool} {f : Faults β}

/-- The call goes past its checks. -/
structure Starts (st : Storage δ β) (dirOf : List (List Char) → δ) (source destination : Path)
    (force : Bool) (f : Faults β) : Prop where
  file : (st.way (source.locate dirOf)).isSome = true
  differ : destination ≠ source
  free : st.pathExists (destination.locate dirOf) = true → force = true
  mkdir : f.mkdir = none

/-- The entries that the call removes or replaces. -/
def Touched (S : Copying β Db) (st : Storage δ β) (source destination tmp : Loc δ)
    (f : Faults β) (e : Loc δ) : Prop :=
  e ∈ temps tmp ∧ st.Standing e ∨
    Sealed S st source tmp f ∧ e ∈ dropped destination f ∧ st.Standing e ∨
    Installs S st source destination tmp f ∧ e = destination

/-- What a backup promises: the source and its sidecars stay; where it fails, so does the
file at the destination, and no temporary file is left; where it does not, the destination
is one file with all that is committed in the source. -/
structure Safe (S : Copying β Db) (st : Storage δ β) (source destination tmp : Loc δ)
    (out : Storage δ β × Except String BackupInfo) : Prop where
  kept : ∀ e ∈ st.entries source, out.1.disk e = st.disk e
  failed : ∀ message, out.2 = .error message →
    ∀ e ∈ st.path destination, out.1.disk e = st.disk e
  cleared : ∀ e ∈ temps tmp, out.1.disk e = none ∨ out.1.disk e = st.disk e
  done : ∀ info, out.2 = .ok info → ∃ x, out.1.disk destination = some (.file x) ∧
    out.1.disk (destination.suffix walSuffix) = none ∧
    out.1.disk (destination.suffix shmSuffix) = none ∧
    st.content S source = some (S.committed x.bytes none)

/-- Nothing that is touched is on the way to the source or one of its sidecars, or, where a
step fails, to the file at the destination; and no sidecar of the destination stays. -/
structure Harmless (S : Copying β Db) (st : Storage δ β) (source destination tmp : Loc δ)
    (f : Faults β) : Prop where
  kept : ∀ e ∈ st.entries source, ¬Touched S st source destination tmp f e
  failed : ¬Completes S st source destination tmp f →
    ∀ e ∈ st.path destination, ¬Touched S st source destination tmp f e
  sidecars : Completes S st source destination tmp f →
    ∀ s ∈ [walSuffix, shmSuffix], st.disk (destination.suffix s) ≠ none →
      destination.suffix s ∈ dropped destination f ∧ st.disk (destination.suffix s) ≠ some .dir

/-- The steps up to the destination go as they do where the leftovers are not removed first. -/
theorem sealed_clear {source tmp : Loc δ} (hway : (st.way source).isSome = true)
    (h : ∀ e ∈ st.entries source, ¬(e ∈ temps tmp ∧ st.Standing e)) :
    (clear st tmp).opened source = st.opened source ∧
      (Sealed S (clear st tmp) source tmp f ↔ Sealed S st source tmp f) := by
  have hkept : ∀ e ∈ st.entries source, (clear st tmp).disk e = st.disk e := by
    intro e he
    rw [clear_disk]
    split
    · next htemp => exact unlink_self_eq.mpr fun hstanding => h e he ⟨htemp, hstanding⟩
    · rfl
  have hopened := opened_congr hway hkept
  have hdirs : ∀ e, (clear st tmp).disk e = some .dir ↔ st.disk e = some .dir := by
    intro e
    rw [clear_disk]
    split
    · exact unlink_dir_iff
    · exact Iff.rfl
  refine ⟨hopened, fun h => ?_, fun h => ?_⟩
  · refine ⟨h.snapshot, h.finalize, h.verifyTmp, h.chmodTmp, h.fsync, ?_, ?_⟩
    · exact ⟨fun hd => h.room.1 ((hdirs _).mpr hd), fun hd => h.room.2 ((hdirs _).mpr hd)⟩
    · rw [← hopened]
      exact h.copy
  · refine ⟨h.snapshot, h.finalize, h.verifyTmp, h.chmodTmp, h.fsync, ?_, ?_⟩
    · exact ⟨fun hd => h.room.1 ((hdirs _).mp hd), fun hd => h.room.2 ((hdirs _).mp hd)⟩
    · rw [hopened]
      exact h.copy

theorem clear_destination (st : Storage δ β) (l : Loc δ) (pid : ℕ) :
    (clear st (l.suffix (tmpSuffix pid))).disk l = st.disk l := by
  rw [clear_disk, if_neg (destination_temps l pid)]

theorem installs_clear {l source : Loc δ}
    (hsealed : Sealed S (clear st (l.suffix (tmpSuffix pid))) source (l.suffix (tmpSuffix pid)) f ↔
      Sealed S st source (l.suffix (tmpSuffix pid)) f) :
    Installs S (clear st (l.suffix (tmpSuffix pid))) source l (l.suffix (tmpSuffix pid)) f ↔
      Installs S st source l (l.suffix (tmpSuffix pid)) f := by
  have hplace := clear_destination st l pid
  constructor
  · exact fun h => ⟨hsealed.mp h.toSealed, h.rename, hplace ▸ h.place⟩
  · exact fun h => ⟨hsealed.mpr h.toSealed, h.rename, hplace.symm ▸ h.place⟩

theorem completes_clear {l source : Loc δ}
    (hsealed : Sealed S (clear st (l.suffix (tmpSuffix pid))) source (l.suffix (tmpSuffix pid)) f ↔
      Sealed S st source (l.suffix (tmpSuffix pid)) f) :
    Completes S (clear st (l.suffix (tmpSuffix pid))) source l (l.suffix (tmpSuffix pid)) f ↔
      Completes S st source l (l.suffix (tmpSuffix pid)) f := by
  have hinstalls := installs_clear hsealed
  constructor
  · exact fun h => ⟨hinstalls.mp h.toInstalls, h.chmodDestination, h.verifyDestination⟩
  · exact fun h => ⟨hinstalls.mpr h.toInstalls, h.chmodDestination, h.verifyDestination⟩

theorem temps_gone {st st' : Storage δ β} {tmp : Loc δ}
    (hdirs : ∀ e, st'.disk e = some .dir ↔ (clear st tmp).disk e = some .dir) :
    ∀ e ∈ temps tmp, (clear st' tmp).disk e = st.disk.unlink e e := by
  intro e he
  rw [clear_disk, if_pos he]
  refine unlink_congr ((hdirs e).trans ?_)
  rw [clear_disk, if_pos he]
  exact unlink_dir_iff

theorem Replaced.dirs {before : Storage δ β} {source destination tmp : Loc δ}
    {inner : Storage δ β × Except String BackupInfo}
    (h : Replaced S before source destination tmp f inner) :
    ∀ e, inner.1.disk e = some .dir ↔ before.disk e = some .dir := by
  cases h with
  | stopped st e hscratch hsealed => exact hscratch.dirs
  | kept st e hsealed hinstalls hdropped hplace hdirs => exact hdirs
  | placed st r x m w hinstalls hdropped hplace hnew hopened hbytes hdirs hresult => exact hdirs

/-- What is not touched is what stays. -/
theorem Replaced.touched {l source : Loc δ} {inner : Storage δ β × Except String BackupInfo}
    (h : Replaced S (clear st (l.suffix (tmpSuffix pid))) source l (l.suffix (tmpSuffix pid)) f inner)
    (hsealed : Sealed S (clear st (l.suffix (tmpSuffix pid))) source (l.suffix (tmpSuffix pid)) f ↔
      Sealed S st source (l.suffix (tmpSuffix pid)) f) (e : Loc δ) :
    (clear inner.1 (l.suffix (tmpSuffix pid))).disk e = st.disk e ↔
      ¬Touched S st source l (l.suffix (tmpSuffix pid)) f e := by
  have hltemps := destination_temps l pid
  have hldropped := destination_dropped l f
  have hplace := clear_destination st l pid
  have hinstalls := installs_clear hsealed
  unfold Touched
  by_cases htemp : e ∈ temps (l.suffix (tmpSuffix pid))
  · have hne : e ≠ l := fun heq => hltemps (heq ▸ htemp)
    have hnot : e ∉ dropped l f := fun hdrop => (dropped_apart pid hdrop).1 htemp
    rw [temps_gone h.dirs e htemp, unlink_self_eq]
    simp [htemp, hne, hnot]
  · have hclear : ∀ m : Storage δ β,
        (clear m (l.suffix (tmpSuffix pid))).disk e = m.disk e := by
      intro m
      rw [clear_disk, if_neg htemp]
    rw [hclear]
    simp only [htemp, false_and, false_or]
    cases h with
    | stopped st' message hscratch hnot =>
        have hsame := (hscratch.other e htemp).trans (hclear st)
        have hnot : ¬Sealed S st source (l.suffix (tmpSuffix pid)) f := fun h => hnot (hsealed.mpr h)
        have hnot' : ¬Installs S st source l (l.suffix (tmpSuffix pid)) f := fun h => hnot h.toSealed
        simp [hsame, hnot, hnot']
    | kept st' message hseal hnot hdropped hplace' _ =>
        have hnot : ¬Installs S st source l (l.suffix (tmpSuffix pid)) f :=
          fun h => hnot (hinstalls.mpr h)
        simp only [hnot, false_and, or_false, hsealed.mp hseal, true_and]
        by_cases he : e = l
        · subst he
          simp [hplace'.trans hplace, hldropped]
        · rw [hdropped e htemp he]
          split
          · next hdrop =>
              rw [unlink_congr (by rw [hclear]), unlink_self_eq]
              simp [hdrop]
          · next hdrop => simp [hdrop, hclear]
    | placed st' r x m w hinst hdropped hplaced hnew _ _ _ _ =>
        simp only [hinstalls.mp hinst, (hinstalls.mp hinst).toSealed, true_and]
        by_cases he : e = l
        · subst he
          have hfresh : st.disk e ≠ some (.file x) := fun h =>
            absurd hnew (Nat.not_le.mpr (st.used e x h))
          simp [hplaced, hfresh.symm]
        · rw [hdropped e htemp he]
          split
          · next hdrop =>
              rw [unlink_congr (by rw [hclear]), unlink_self_eq]
              simp [hdrop, he]
          · next hdrop => simp [hdrop, he, hclear]

theorem Replaced.result {before : Storage δ β} {source destination tmp : Loc δ}
    {inner : Storage δ β × Except String BackupInfo}
    (h : Replaced S before source destination tmp f inner) :
    (∃ info, inner.2 = .ok info) ↔ Completes S before source destination tmp f := by
  cases h with
  | stopped st e hscratch hsealed => exact ⟨nofun, fun h => absurd h.toSealed hsealed⟩
  | kept st e hsealed hinstalls _ _ _ => exact ⟨nofun, fun h => absurd h.toInstalls hinstalls⟩
  | placed st r x m w _ _ _ _ _ _ _ hresult => exact hresult

/-- Where all steps succeed, the copy stands at the destination. -/
theorem Replaced.installed {before : Storage δ β} {source destination tmp : Loc δ}
    {inner : Storage δ β × Except String BackupInfo}
    (h : Replaced S before source destination tmp f inner)
    (hcompletes : Completes S before source destination tmp f) :
    ∃ x, inner.1.disk destination = some (.file x) ∧
      before.content S source = some (S.committed x.bytes none) ∧
      Dropped tmp destination f before inner.1 := by
  cases h with
  | stopped st e hscratch hsealed => exact absurd hcompletes.toSealed hsealed
  | kept st e hsealed hinstalls _ _ _ => exact absurd hcompletes.toInstalls hinstalls
  | placed st r x m w _ hdropped hplace _ hopened hbytes _ _ =>
      refine ⟨x, hplace, ?_, hdropped⟩
      unfold Storage.content
      rw [hopened, hbytes, committed_backupOf]
      rfl

theorem backupTo_stops (h : ¬Starts st dirOf source destination force f) :
    ∃ e, backupTo S dirOf pid st source destination force f = (st, .error e) := by
  unfold backupTo
  split
  · exact ⟨_, rfl⟩
  · next hway =>
      split
      · exact ⟨_, rfl⟩
      · next hdiffer =>
          split
          · exact ⟨_, rfl⟩
          · next hfree =>
              cases hmkdir : f.mkdir with
              | some e => exact ⟨e, rfl⟩
              | none =>
                  refine absurd ⟨?_, hdiffer, fun hexists => ?_, hmkdir⟩ h
                  · simpa [Option.isSome_iff_ne_none] using hway
                  · simpa [hexists] using hfree

theorem backupTo_starts (h : Starts st dirOf source destination force f) :
    let tmp := destination.suffix (tmpSuffix pid)
    let inner := replace S (clear st (tmp.locate dirOf)) dirOf source destination tmp f
    backupTo S dirOf pid st source destination force f =
      (clear inner.1 (tmp.locate dirOf), inner.2) := by
  intro tmp inner
  have hway : (st.way (source.locate dirOf)).isNone = false := by
    simpa [Option.isSome_iff_ne_none] using h.file
  have hfree : (st.pathExists (destination.locate dirOf) && !force) = false := by
    cases hexists : st.pathExists (destination.locate dirOf) with
    | false => rfl
    | true => simp [h.free hexists]
  unfold backupTo
  rw [hway, hfree, h.mkdir, if_neg h.differ]
  rfl

/-- A backup is safe exactly where what it touches is apart from what it must leave. -/
theorem backupTo_safe_iff (S : Copying β Db) (dirOf : List (List Char) → δ) (pid : ℕ)
    (st : Storage δ β) (source destination : Path) (force : Bool) (f : Faults β) :
    Safe S st (source.locate dirOf) (destination.locate dirOf)
        ((destination.suffix (tmpSuffix pid)).locate dirOf)
        (backupTo S dirOf pid st source destination force f) ↔
      (Starts st dirOf source destination force f →
        Harmless S st (source.locate dirOf) (destination.locate dirOf)
          ((destination.suffix (tmpSuffix pid)).locate dirOf) f) := by
  by_cases hstarts : Starts st dirOf source destination force f
  swap
  · obtain ⟨e, hrun⟩ := @backupTo_stops _ _ _ _ S _ _ _ _ pid _ _ hstarts
    rw [hrun]
    refine ⟨fun _ h => absurd h hstarts, fun _ => ?_⟩
    exact ⟨fun _ _ => rfl, fun _ _ _ _ => rfl, fun _ _ => .inr rfl, nofun⟩
  have hrun := @backupTo_starts _ _ _ _ S _ _ _ _ pid _ _ hstarts
  dsimp only at hrun
  rw [hrun]
  have hreplaced := @replace_spec _ _ _ _ S (clear st ((destination.suffix
    (tmpSuffix pid)).locate dirOf)) dirOf source destination pid f (fun e he => by
      rw [clear_disk, if_pos he]
      exact (Disk.unlink_self st.disk e).imp_right And.left)
  have hway := hstarts.file
  generalize replace S (clear st ((destination.suffix (tmpSuffix pid)).locate dirOf)) dirOf source
    destination (destination.suffix (tmpSuffix pid)) f = inner at hreplaced
  have htmp : (destination.suffix (tmpSuffix pid)).locate dirOf =
      (destination.locate dirOf).suffix (tmpSuffix pid) := rfl
  rw [htmp] at hreplaced ⊢
  generalize destination.locate dirOf = l at hreplaced
  generalize source.locate dirOf = s at hreplaced hway
  simp only [hstarts, true_implies]
  have hgone := temps_gone hreplaced.dirs
  by_cases hleft : ∃ e ∈ st.entries s, e ∈ temps (l.suffix (tmpSuffix pid)) ∧ st.Standing e
  · -- a leftover is what leads to the source
    obtain ⟨e, he, htemp, hstanding⟩ := hleft
    constructor
    · intro h
      have hkept := h.kept e he
      rw [hgone e htemp] at hkept
      exact absurd hstanding (unlink_self_eq.mp hkept)
    · exact fun h => absurd (.inl ⟨htemp, hstanding⟩) (h.kept e he)
  obtain ⟨hopened, hsealed⟩ := @sealed_clear _ _ _ _ S st f s (l.suffix (tmpSuffix pid)) hway
    (fun e he h => hleft ⟨e, he, h⟩)
  have htouched := hreplaced.touched hsealed
  have hcompletes := hreplaced.result.trans (completes_clear hsealed)
  -- what becomes of a sidecar of the destination
  have hsidecar : ∀ x ∈ [walSuffix, shmSuffix],
      Dropped (l.suffix (tmpSuffix pid)) l f (clear st (l.suffix (tmpSuffix pid))) inner.1 →
      ((clear inner.1 (l.suffix (tmpSuffix pid))).disk (l.suffix x) = none ↔
        (st.disk (l.suffix x) ≠ none →
          l.suffix x ∈ dropped l f ∧ st.disk (l.suffix x) ≠ some .dir)) := by
    intro x hx hdropped
    obtain ⟨htemp, hne⟩ := sidecar_apart l pid hx
    have hclear : (clear st (l.suffix (tmpSuffix pid))).disk (l.suffix x) = st.disk (l.suffix x) := by
      rw [clear_disk, if_neg htemp]
    rw [clear_disk, if_neg htemp, hdropped _ htemp hne]
    split
    · next hdrop =>
        rw [unlink_congr (by rw [hclear])]
        by_cases hdir : st.disk (l.suffix x) = some .dir
        · rw [Disk.unlink_dir hdir]
          simp [hdir]
        · rw [Disk.unlink_eq hdir, Disk.put_self]
          simp [hdrop, hdir]
    · next hdrop =>
        rw [hclear]
        simp [hdrop]
  constructor
  · intro h
    constructor
    · exact fun e he => (htouched e).mp (h.kept e he)
    · intro hnot e he
      cases hresult : inner.2 with
      | ok info => exact absurd (hcompletes.mp ⟨info, hresult⟩) hnot
      | error message => exact (htouched e).mp (h.failed message hresult e he)
    · intro hdone x hx
      obtain ⟨info, hinfo⟩ := hcompletes.mpr hdone
      obtain ⟨_, -, -, hdropped⟩ := hreplaced.installed (hreplaced.result.mp ⟨info, hinfo⟩)
      obtain ⟨_, -, hwal, hshm, -⟩ := h.done info hinfo
      refine (hsidecar x hx hdropped).mp ?_
      rcases List.mem_pair.mp hx with rfl | rfl
      · exact hwal
      · exact hshm
  · intro h
    constructor
    · exact fun e he => (htouched e).mpr (h.kept e he)
    · intro message hmessage e he
      refine (htouched e).mpr (h.failed (fun hdone => ?_) e he)
      obtain ⟨info, hinfo⟩ := hcompletes.mpr hdone
      rw [hmessage] at hinfo
      cases hinfo
    · intro e he
      rw [hgone e he]
      rcases Disk.unlink_self st.disk e with hnone | ⟨hdir, hwas⟩
      · exact .inl hnone
      · exact .inr (hdir.trans hwas.symm)
    · intro info hinfo
      have hdone := hcompletes.mp ⟨info, hinfo⟩
      obtain ⟨x, hx, hcontent, hdropped⟩ :=
        hreplaced.installed (hreplaced.result.mp ⟨info, hinfo⟩)
      refine ⟨x, ?_, ?_, ?_, ?_⟩
      · rw [clear_destination]
        exact hx
      · exact (hsidecar walSuffix (by simp) hdropped).mpr (h.sidecars hdone _ (by simp))
      · exact (hsidecar shmSuffix (by simp) hdropped).mpr (h.sidecars hdone _ (by simp))
      · unfold Storage.content at hcontent ⊢
        rw [← hcontent, hopened]

/-- The source that is safe holds what it held. -/
theorem Safe.content {source destination tmp : Loc δ} {out : Storage δ β × Except String BackupInfo}
    (h : Safe S st source destination tmp out) (hway : (st.way source).isSome = true) :
    out.1.content S source = st.content S source := by
  unfold Storage.content
  rw [opened_congr hway h.kept]

end Safe

/-- A file that holds a number of rows, and a log that holds some more. -/
def countedRows : Copying ℕ ℕ where
  toSqlite := Restore.countedRows
  copied := fun m w => (m, w)
  settled := fun m w => m + w.getD 0
  copied_kept := fun _ _ => rfl
  settled_kept := fun _ _ => rfl

def noFaults : Faults ℕ where
  mkdir := none
  snapshot := none
  finalize := none
  verifyTmp := none
  chmodTmp := none
  fsync := none
  keepWal := false
  keepShm := false
  rename := none
  chmodDestination := none
  verifyDestination := none

/-- A database with a row, and two more in its log. -/
def loggedDisk (l : Loc (List (List Char))) :
    Option (Node (Loc (List (List Char))) (File ℕ)) :=
  if l = ⟨[], "db".toList⟩ then some (.file ⟨0, 1⟩)
  else if l = ⟨[], "db-wal".toList⟩ then some (.file ⟨1, 2⟩)
  else none

def loggedStorage : Storage (List (List Char)) ℕ where
  disk := loggedDisk
  next := 2
  used := fun l x hx => by
    unfold loggedDisk at hx
    split at hx
    · cases hx
      exact Nat.zero_lt_two
    · split at hx
      · cases hx
        exact Nat.one_lt_two
      · cases hx

def backupLogged (name : String) : Storage (List (List Char)) ℕ × Except String BackupInfo :=
  createBackup countedRows id 7 [] [] loggedStorage ⟨true, [.normal "db".toList]⟩
    (some ⟨true, [.normal name.toList]⟩) true noFaults

example : ((backupLogged "copy").1.disk ⟨[], "copy".toList⟩).isSome = true ∧
    (backupLogged "copy").1.disk ⟨[], "db-wal".toList⟩ = some (.file ⟨1, 2⟩) :=
  ⟨rfl, rfl⟩

end Backup

end Stackhour.Tracker
