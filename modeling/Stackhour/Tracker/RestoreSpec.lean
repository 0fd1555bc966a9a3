import Stackhour.Tracker.Restore

/-!
# All or nothing

Up to the point where the original is moved aside only its log is folded in, which
changes nothing that is committed. After that point the original stands at the rollback
path, and goes back from there.
-/

set_option linter.unusedSectionVars false

namespace Stackhour.Tracker

open Files Result

namespace Restore

variable {δ ρ β Db : Type*} [DecidableEq δ] [DecidableEq ρ] {S : Sqlite β Db}

/-! ## The names a restore works with -/

theorem tmpSuffix_head (pid : ℕ) :
    ∃ c rest, tmpSuffix pid = '.' :: c :: rest ∧ c.isDigit = true := by
  have hne : Nat.toDigits 10 pid ≠ [] := Nat.toDigits_ne_nil
  unfold tmpSuffix
  cases hdigits : Nat.toDigits 10 pid with
  | nil => exact absurd hdigits hne
  | cons c rest =>
      refine ⟨c, rest ++ ".restore.tmp".toList, rfl, ?_⟩
      exact Nat.isDigit_of_mem_toDigits (by decide) (by decide)
        (hdigits ▸ List.mem_cons_self ..)

/-- No two of the names are the same. -/
structure Apart (pid : ℕ) (stamp : List Char) (l : Loc δ) : Prop where
  wal : l.suffix walSuffix ≠ l
  lock : l.suffix lockSuffix ≠ l
  tmp : l.suffix (tmpSuffix pid) ≠ l
  rollback : l.suffix (rollbackSuffix stamp) ≠ l
  shm : l.suffix shmSuffix ≠ l
  wal_lock : l.suffix walSuffix ≠ l.suffix lockSuffix
  wal_tmp : l.suffix walSuffix ≠ l.suffix (tmpSuffix pid)
  wal_rollback : l.suffix walSuffix ≠ l.suffix (rollbackSuffix stamp)
  wal_shm : l.suffix walSuffix ≠ l.suffix shmSuffix
  shm_lock : l.suffix shmSuffix ≠ l.suffix lockSuffix
  shm_tmp : l.suffix shmSuffix ≠ l.suffix (tmpSuffix pid)
  shm_rollback : l.suffix shmSuffix ≠ l.suffix (rollbackSuffix stamp)
  lock_tmp : l.suffix lockSuffix ≠ l.suffix (tmpSuffix pid)
  lock_rollback : l.suffix lockSuffix ≠ l.suffix (rollbackSuffix stamp)
  tmp_rollback : l.suffix (tmpSuffix pid) ≠ l.suffix (rollbackSuffix stamp)

theorem apart (pid : ℕ) (stamp : List Char) (l : Loc δ) : Apart pid stamp l := by
  obtain ⟨c, rest, htmp, hc⟩ := tmpSuffix_head pid
  have hlock : lockSuffix ≠ tmpSuffix pid := by
    rw [htmp]
    intro h
    obtain rfl : 'm' = c := (List.cons.inj (List.cons.inj h).2).1
    exact absurd hc (by decide)
  have hrollback : tmpSuffix pid ≠ rollbackSuffix stamp := by
    rw [htmp]
    intro h
    obtain rfl : c = 'p' := (List.cons.inj (List.cons.inj h).2).1
    exact absurd hc (by decide)
  have hdash : ∀ s : List Char, '-' :: s ≠ tmpSuffix pid := by
    intro s h
    rw [htmp] at h
    exact absurd (List.cons.inj h).1 (by decide)
  constructor
  · exact Loc.suffix_ne (by decide)
  · exact Loc.suffix_ne (by decide)
  · exact Loc.suffix_ne (by rw [htmp]; exact nofun)
  · exact Loc.suffix_ne nofun
  · exact Loc.suffix_ne (by decide)
  · exact fun h => absurd (Loc.suffix_inj h) (by decide)
  · exact fun h => hdash _ (Loc.suffix_inj h)
  · exact fun h => absurd (List.cons.inj (Loc.suffix_inj h)).1 (by decide)
  · exact fun h => absurd (Loc.suffix_inj h) (by decide)
  · exact fun h => absurd (Loc.suffix_inj h) (by decide)
  · exact fun h => hdash _ (Loc.suffix_inj h)
  · exact fun h => absurd (List.cons.inj (Loc.suffix_inj h)).1 (by decide)
  · exact fun h => hlock (Loc.suffix_inj h)
  · intro h
    exact absurd (List.cons.inj (List.cons.inj (Loc.suffix_inj h)).2).1 (by decide)
  · exact fun h => hrollback (Loc.suffix_inj h)

/-! ## What a step leaves alone -/

theorem content_congr {st st' : Storage δ ρ β} {l : Loc δ} (hl : st'.disk l = st.disk l)
    (hwal : st'.disk (l.suffix walSuffix) = st.disk (l.suffix walSuffix))
    (helsewhere : st'.elsewhere = st.elsewhere) : st'.content S l = st.content S l := by
  unfold Storage.content Disk.bytes
  rw [hl, hwal, helsewhere]

theorem read_congr {st st' : Storage δ ρ β} {l m : Loc δ} (hl : st'.disk l = st.disk m)
    (helsewhere : st'.elsewhere = st.elsewhere) : st'.read l = st.read m := by
  unfold Storage.read
  rw [hl, helsewhere]

theorem alone_congr {st st' : Storage δ ρ β} {l m : Loc δ} (hl : st'.disk l = st.disk m)
    (helsewhere : st'.elsewhere = st.elsewhere) : st'.alone S l = st.alone S m := by
  unfold Storage.alone
  rw [read_congr hl helsewhere]

theorem pathExists_congr {st st' : Storage δ ρ β} {l : Loc δ} (hl : st'.disk l = st.disk l)
    (helsewhere : st'.elsewhere = st.elsewhere) : st'.pathExists l = st.pathExists l := by
  unfold Storage.pathExists
  rw [hl, helsewhere]

theorem rmForce_frame (st : Storage δ ρ β) (l : Loc δ) (fault : Option String) :
    (rmForce st l fault).1.elsewhere = st.elsewhere ∧
      ∀ m, m ≠ l → (rmForce st l fault).1.disk m = st.disk m := by
  unfold rmForce
  split
  · exact ⟨rfl, fun _ _ => rfl⟩
  · exact ⟨rfl, fun _ _ => rfl⟩
  · exact ⟨rfl, fun _ hm => Disk.unlink_of_ne hm⟩

theorem rmForce_self (st : Storage δ ρ β) (l : Loc δ) (fault : Option String) :
    (∀ u, (rmForce st l fault).2 = .ok u → (rmForce st l fault).1.disk l = none) ∧
      ((rmForce st l fault).1.disk l = some .dir → st.disk l = some .dir) := by
  unfold rmForce
  split
  · exact ⟨nofun, id⟩
  · exact ⟨nofun, id⟩
  · next hdir =>
      have hdir : st.disk l ≠ some .dir := fun h => hdir h
      have hnone : st.disk.unlink l l = none := by
        rw [Disk.unlink_eq hdir, Disk.put_self]
      refine ⟨fun _ _ => hnone, fun h => ?_⟩
      have h : st.disk.unlink l l = some .dir := h
      rw [hnone] at h
      cases h

theorem copyExcl_frame (st : Storage δ ρ β) (src dst : Loc δ) (fault : Option (String × Option β)) :
    (copyExcl st src dst fault).1.elsewhere = st.elsewhere ∧
      (∀ m, m ≠ dst → (copyExcl st src dst fault).1.disk m = st.disk m) ∧
      ((copyExcl st src dst fault).1.disk dst = some .dir → st.disk dst = some .dir) := by
  have hput : ∀ b : β, (st.disk.put dst (some (.file b))) dst = some .dir →
      st.disk dst = some .dir := fun b h => by rw [Disk.put_self] at h; cases h
  unfold copyExcl
  split
  · exact ⟨rfl, fun _ _ => rfl, id⟩
  · exact ⟨rfl, fun _ _ => rfl, id⟩
  · split
    · exact ⟨rfl, fun _ _ => rfl, id⟩
    · next disk hcreate =>
        obtain ⟨-, rfl⟩ := Disk.create_some hcreate
        exact ⟨rfl, fun _ hm => Disk.put_of_ne hm _, hput _⟩
  · split
    · exact ⟨rfl, fun _ _ => rfl, id⟩
    · next disk hcreate =>
        obtain ⟨-, rfl⟩ := Disk.create_some hcreate
        exact ⟨rfl, fun _ hm => Disk.put_of_ne hm _, hput _⟩

/-- A copy that succeeds. -/
theorem copyExcl_ok {st : Storage δ ρ β} {src dst : Loc δ} {fault : Option (String × Option β)}
    {u : Unit} (h : (copyExcl st src dst fault).2 = .ok u) :
    ∃ b, st.read src = some b ∧ (copyExcl st src dst fault).1.disk dst = some (.file b) := by
  unfold copyExcl at h ⊢
  split at h
  · cases h
  · cases h
  · split at h <;> cases h
  · next b hread =>
      split at h
      · cases h
      · next disk hcreate =>
          obtain ⟨-, rfl⟩ := Disk.create_some hcreate
          exact ⟨b, hread, by simp⟩

/-! ## The proof of idleness -/

theorem prepareExisting_frame (st : Storage δ ρ β) (l : Loc δ) (fault : Option (String × ℕ)) :
    ∀ m, m ≠ l → m ≠ l.suffix walSuffix →
      (prepareExistingDatabase S st l fault).1.disk m = st.disk m := by
  intro m hl hwal
  have hrewrite : ∀ f, (st.rewrite l f).disk m = st.disk m := by
    intro f
    unfold Storage.rewrite
    split
    · exact (Disk.put_of_ne hwal _).trans (Disk.put_of_ne hl _)
    · rfl
    · rfl
  unfold prepareExistingDatabase
  split
  · rfl
  · split
    · rfl
    · split
      · exact hrewrite _
      · exact hrewrite _

/-- What SQLite does to the files keeps what is committed if it does so for main file and
log. -/
theorem rewrite_content {st : Storage δ ρ β} {l : Loc δ} (hopens : st.opens l = true)
    {f : β → Option β → β × Option β}
    (hf : ∀ m w, S.committed (f m w).1 (f m w).2 = S.committed m w) :
    (st.rewrite l f).content S l = st.content S l ∧
      (st.rewrite l f).pathExists l = st.pathExists l := by
  have hwal : l ≠ l.suffix walSuffix := (Loc.suffix_ne (by decide)).symm
  rcases hl : st.disk l with _ | (m | r | _)
  · have hsame : st.rewrite l f = st := by
      unfold Storage.rewrite
      rw [hl]
    rw [hsame]
    exact ⟨rfl, rfl⟩
  · have hdisk : (st.rewrite l f).disk =
        (st.disk.put l (some (.file (f m (st.disk.bytes (l.suffix walSuffix))).1))).put
          (l.suffix walSuffix) ((f m (st.disk.bytes (l.suffix walSuffix))).2.map Node.file) := by
      unfold Storage.rewrite
      rw [hl]
    have hmain : (st.rewrite l f).disk l =
        some (.file (f m (st.disk.bytes (l.suffix walSuffix))).1) := by
      rw [hdisk, Disk.put_of_ne hwal, Disk.put_self]
    have hlog : (st.rewrite l f).disk.bytes (l.suffix walSuffix) =
        (f m (st.disk.bytes (l.suffix walSuffix))).2 := by
      rw [hdisk, Disk.bytes_put_file]
    constructor
    · unfold Storage.content
      rw [hmain, hl]
      dsimp only
      rw [hlog, hf]
    · unfold Storage.pathExists
      rw [hmain, hl]
  · have hrewrite : st.rewrite l f = { st with
        elsewhere := Function.update st.elsewhere r
          ((st.elsewhere r).map (fun p => f p.1 p.2)) } := by
      unfold Storage.rewrite
      rw [hl]
    rw [hrewrite]
    unfold Storage.content Storage.pathExists
    simp only [hl, Function.update_self]
    rcases st.elsewhere r with _ | ⟨m, w⟩
    · exact ⟨rfl, rfl⟩
    · simp only [Option.map_some, Option.isSome_some, and_true]
      rw [hf]
  · unfold Storage.opens at hopens
    rw [hl] at hopens
    cases hopens

/-- Once the log is folded in, the main file holds everything. -/
theorem rewrite_idle {st : Storage δ ρ β} {l : Loc δ} (hopens : st.opens l = true) :
    (st.rewrite l S.idle).alone S l = st.content S l ∧
      (st.rewrite l S.idle).disk l ≠ some .dir := by
  have hwal : l ≠ l.suffix walSuffix := (Loc.suffix_ne (by decide)).symm
  rcases hl : st.disk l with _ | (m | r | _)
  · have hsame : st.rewrite l S.idle = st := by
      unfold Storage.rewrite
      rw [hl]
    rw [hsame]
    simp [Storage.alone, Storage.read, Storage.content, hl]
  · have hmain : (st.rewrite l S.idle).disk l =
        some (.file (S.idle m (st.disk.bytes (l.suffix walSuffix))).1) := by
      unfold Storage.rewrite
      rw [hl]
      exact (Disk.put_of_ne hwal _).trans (Disk.put_self _)
    constructor
    · unfold Storage.alone Storage.read Storage.content
      rw [hmain, hl]
      simp only [Option.map_some, Option.some.injEq]
      exact S.idle_folded _ _
    · rw [hmain]
      exact nofun
  · have hrewrite : st.rewrite l S.idle = { st with
        elsewhere := Function.update st.elsewhere r
          ((st.elsewhere r).map (fun p => S.idle p.1 p.2)) } := by
      unfold Storage.rewrite
      rw [hl]
    rw [hrewrite]
    constructor
    · unfold Storage.alone Storage.read Storage.content
      simp only [hl, Function.update_self]
      rcases st.elsewhere r with _ | ⟨m, w⟩
      · rfl
      · simp only [Option.map_some, Option.some.injEq]
        exact S.idle_folded _ _
    · simp [hl]
  · unfold Storage.opens at hopens
    rw [hl] at hopens
    cases hopens

/-- A proof of idleness keeps what is committed, and one that succeeds has folded the log
into the main file. -/
theorem prepareExisting_spec (st : Storage δ ρ β) (l : Loc δ) (fault : Option (String × ℕ)) :
    let out := prepareExistingDatabase S st l fault
    out.1.content S l = st.content S l ∧ out.1.pathExists l = st.pathExists l ∧
      ∀ u, out.2 = .ok u → out.1.alone S l = st.content S l ∧ out.1.disk l ≠ some .dir := by
  dsimp only
  unfold prepareExistingDatabase
  split
  · next hmissing =>
      have hmissing : st.pathExists l = false := by simpa using hmissing
      refine ⟨rfl, rfl, fun _ _ => ?_⟩
      unfold Storage.pathExists at hmissing
      unfold Storage.alone Storage.read Storage.content
      rcases hl : st.disk l with _ | (m | r | _)
      · exact ⟨rfl, nofun⟩
      · rw [hl] at hmissing
        cases hmissing
      · rw [hl] at hmissing
        have hnone : st.elsewhere r = none := by simpa using hmissing
        simp [hnone]
      · rw [hl] at hmissing
        cases hmissing
  · split
    · exact ⟨rfl, rfl, nofun⟩
    · next hopens =>
        have hopens : st.opens l = true := by simpa using hopens
        split
        · next _ n =>
            obtain ⟨hcontent, hexists⟩ := rewrite_content hopens (S.halted_kept n)
            exact ⟨hcontent, hexists, nofun⟩
        · obtain ⟨hcontent, hexists⟩ := rewrite_content hopens S.idle_kept
          exact ⟨hcontent, hexists, fun _ _ => rewrite_idle hopens⟩

/-! ## Up to the swap -/

theorem verify_ok {st : Storage δ ρ β} {dirOf : List (List Char) → δ} {file : Path}
    {fault : Option String} {n : ℤ} (h : verify S st dirOf file fault = .ok n) :
    ∃ b, st.read (file.locate dirOf) = some b ∧ S.check b = .ok n := by
  unfold verify at h
  split at h
  · cases h
  · split at h
    · cases h
    · next b hread => exact ⟨b, hread, h⟩

/-- What stays as it is until the original is moved aside. -/
structure Kept (S : Sqlite β Db) (pid : ℕ) (stamp : List Char) (l : Loc δ)
    (before st : Storage δ ρ β) : Prop where
  content : st.content S l = before.content S l
  pathExists : st.pathExists l = before.pathExists l
  lock : st.disk (l.suffix lockSuffix) = before.disk (l.suffix lockSuffix)
  tmp : st.disk (l.suffix (tmpSuffix pid)) = some .dir →
    before.disk (l.suffix (tmpSuffix pid)) = some .dir
  rollback : st.disk (l.suffix (rollbackSuffix stamp)) =
    before.disk (l.suffix (rollbackSuffix stamp))

variable {pid : ℕ} {stamp : List Char} {l : Loc δ}

theorem Kept.refl (st : Storage δ ρ β) : Kept S pid stamp l st st := ⟨rfl, rfl, rfl, id, rfl⟩

theorem Kept.trans {a b c : Storage δ ρ β} (h : Kept S pid stamp l a b)
    (h' : Kept S pid stamp l b c) : Kept S pid stamp l a c :=
  ⟨h'.content.trans h.content, h'.pathExists.trans h.pathExists, h'.lock.trans h.lock,
    fun hdir => h.tmp (h'.tmp hdir), h'.rollback.trans h.rollback⟩

/-- A step on the temporary file. -/
theorem Kept.of_tmp {st st' : Storage δ ρ β} (helsewhere : st'.elsewhere = st.elsewhere)
    (hother : ∀ m, m ≠ l.suffix (tmpSuffix pid) → st'.disk m = st.disk m)
    (hdir : st'.disk (l.suffix (tmpSuffix pid)) = some .dir →
      st.disk (l.suffix (tmpSuffix pid)) = some .dir) : Kept S pid stamp l st st' := by
  have hapart := apart pid stamp l
  constructor
  · exact content_congr (hother _ hapart.tmp.symm) (hother _ hapart.wal_tmp) helsewhere
  · exact pathExists_congr (hother _ hapart.tmp.symm) helsewhere
  · exact hother _ hapart.lock_tmp
  · exact hdir
  · exact hother _ hapart.tmp_rollback.symm

/-- A step on another file, which is none of those that matter. -/
theorem Kept.of_shm {st st' : Storage δ ρ β} (helsewhere : st'.elsewhere = st.elsewhere)
    (hother : ∀ m, m ≠ l.suffix shmSuffix → st'.disk m = st.disk m) :
    Kept S pid stamp l st st' := by
  have hapart := apart pid stamp l
  constructor
  · exact content_congr (hother _ hapart.shm.symm) (hother _ hapart.wal_shm) helsewhere
  · exact pathExists_congr (hother _ hapart.shm.symm) helsewhere
  · exact hother _ hapart.shm_lock.symm
  · rw [hother _ hapart.shm_tmp.symm]
    exact id
  · exact hother _ hapart.shm_rollback.symm

theorem prepareExisting_kept (st : Storage δ ρ β) (fault : Option (String × ℕ)) :
    Kept S pid stamp l st (prepareExistingDatabase S st l fault).1 := by
  have hapart := apart pid stamp l
  have hframe := prepareExisting_frame (S := S) st l fault
  obtain ⟨hcontent, hexists, -⟩ := prepareExisting_spec (S := S) st l fault
  constructor
  · exact hcontent
  · exact hexists
  · exact hframe _ hapart.lock hapart.wal_lock.symm
  · rw [hframe _ hapart.tmp hapart.wal_tmp.symm]
    exact id
  · exact hframe _ hapart.rollback hapart.wal_rollback.symm

/-- The log is removed once it is folded in. -/
theorem rmForce_wal_kept {st : Storage δ ρ β} (halone : st.alone S l = st.content S l)
    (fault : Option String) :
    Kept S pid stamp l st (rmForce st (l.suffix walSuffix) fault).1 ∧
      (rmForce st (l.suffix walSuffix) fault).1.alone S l = st.alone S l ∧
      (rmForce st (l.suffix walSuffix) fault).1.disk l = st.disk l := by
  have hapart := apart pid stamp l
  obtain ⟨helsewhere, hother⟩ := rmForce_frame st (l.suffix walSuffix) fault
  have hmain := hother l hapart.wal.symm
  have halone' : (rmForce st (l.suffix walSuffix) fault).1.alone S l = st.alone S l :=
    alone_congr hmain helsewhere
  refine ⟨⟨?_, pathExists_congr hmain helsewhere, hother _ hapart.wal_lock.symm, ?_,
    hother _ hapart.wal_rollback.symm⟩, halone', hmain⟩
  · have hwal : (rmForce st (l.suffix walSuffix) fault).1.disk (l.suffix walSuffix) = none ∨
        (rmForce st (l.suffix walSuffix) fault).1 = st := by
      unfold rmForce
      split
      · exact .inr rfl
      · exact .inr rfl
      · next hdir =>
          refine .inl ?_
          have hdir : st.disk (l.suffix walSuffix) ≠ some .dir := fun h => hdir h
          show st.disk.unlink _ _ = none
          rw [Disk.unlink_eq hdir, Disk.put_self]
    rcases hwal with hnone | hsame
    · rw [← halone, ← halone']
      generalize (rmForce st (l.suffix walSuffix) fault).1 = st' at *
      rcases hl : st'.disk l with _ | (m | r | _)
      · simp [Storage.content, Storage.alone, Storage.read, hl]
      · simp [Storage.content, Storage.alone, Storage.read, Disk.bytes, hl, hnone]
      · rw [halone', halone]
        unfold Storage.content
        rw [← hmain, hl, helsewhere]
      · simp [Storage.content, Storage.alone, Storage.read, hl]
    · rw [hsame]
  · rw [hother _ hapart.wal_tmp.symm]
    exact id

/-- All is ready for the swap: the main file holds everything, and the verified copy
stands beside it. -/
structure Ready (S : Sqlite β Db) (pid : ℕ) (stamp : List Char) (l source : Loc δ)
    (before st : Storage δ ρ β) : Prop extends Kept S pid stamp l before st where
  alone : st.alone S l = before.content S l
  main : st.disk l ≠ some .dir
  wal : st.disk (l.suffix walSuffix) = none
  copy : ∃ b n, before.read source = some b ∧ S.check b = .ok n ∧
    st.disk (l.suffix (tmpSuffix pid)) = some (.file b)

theorem read_of_rmForce {st : Storage δ ρ β} {l m : Loc δ} {fault : Option String} {u : Unit}
    {b : β} (hok : (rmForce st l fault).2 = .ok u) (hread : (rmForce st l fault).1.read m = some b) :
    st.read m = some b := by
  obtain ⟨helsewhere, hother⟩ := rmForce_frame st l fault
  by_cases hm : m = l
  · subst hm
    unfold Storage.read at hread
    rw [(rmForce_self st m fault).1 u hok] at hread
    cases hread
  · rwa [read_congr (hother m hm) helsewhere] at hread

/-- What the steps up to the swap come to. -/
def Prepared (S : Sqlite β Db) (pid : ℕ) (stamp : List Char) (l source : Loc δ)
    (before : Storage δ ρ β) (out : Storage δ ρ β × Except String Unit) : Prop :=
  Kept S pid stamp l before out.1 ∧ ∀ u, out.2 = .ok u → Ready S pid stamp l source before out.1

theorem prepare_spec {st : Storage δ ρ β} {dirOf : List (List Char) → δ} {source target : Path}
    {rollback : Option Path} {f : Faults β} :
    Prepared S pid stamp (target.locate dirOf) (source.locate dirOf) st
      (prepare S st dirOf source target (target.suffix (tmpSuffix pid)) rollback f) := by
  unfold prepare
  split
  · exact ⟨Kept.refl st, nofun⟩
  generalize hl : target.locate dirOf = l
  have hlocate : ∀ s, (target.suffix s).locate dirOf = l.suffix s := fun s => hl ▸ rfl
  simp only [hlocate]
  -- the temporary file: what is left of an earlier one goes, then the copy comes
  obtain ⟨helsewhere, hother⟩ := rmForce_frame st (l.suffix (tmpSuffix pid)) f.tmpRemove
  have htmp := rmForce_self st (l.suffix (tmpSuffix pid)) f.tmpRemove
  have hkept1 : Kept S pid stamp l st (rmForce st (l.suffix (tmpSuffix pid)) f.tmpRemove).1 :=
    .of_tmp helsewhere hother htmp.2
  refine andThen_rule (fun e _ => ⟨hkept1, nofun⟩) fun u hremoved => ?_
  have hread : ∀ m b, (rmForce st (l.suffix (tmpSuffix pid)) f.tmpRemove).1.read m = some b →
      st.read m = some b := fun m b => read_of_rmForce hremoved
  generalize (rmForce st (l.suffix (tmpSuffix pid)) f.tmpRemove).1 = st1 at hkept1 hread ⊢
  obtain ⟨helsewhere, hother, hdir⟩ :=
    copyExcl_frame st1 (source.locate dirOf) (l.suffix (tmpSuffix pid)) f.copy
  have hkept2 := hkept1.trans (.of_tmp helsewhere hother hdir)
  refine andThen_rule (fun e _ => ⟨hkept2, nofun⟩) fun u hcopied => ?_
  obtain ⟨b, hsource, hcopy⟩ := copyExcl_ok hcopied
  have hsource := hread _ _ hsource
  generalize (copyExcl st1 (source.locate dirOf) (l.suffix (tmpSuffix pid)) f.copy).1 = st2
    at hkept2 hcopy ⊢
  have hattempt : ∀ fault, (attempt st2 fault).1 = st2 := by
    intro fault
    cases fault <;> rfl
  refine andThen_rule (fun e _ => ⟨by rwa [hattempt], nofun⟩) fun _ _ => ?_
  rw [hattempt]
  refine andThen_rule (fun e _ => ⟨by rwa [hattempt], nofun⟩) fun _ _ => ?_
  rw [hattempt]
  refine andThen_rule (fun e _ => ⟨hkept2, nofun⟩) fun n hverified => ?_
  obtain ⟨b', hb', hcheck⟩ := verify_ok hverified
  rw [hlocate] at hb'
  have hb : b' = b := by
    have hread2 : st2.read (l.suffix (tmpSuffix pid)) = some b := by
      unfold Storage.read
      rw [hcopy]
    exact Option.some.inj (hb'.symm.trans hread2)
  subst hb
  -- the target: its log is folded in and removed
  have hkept3 := hkept2.trans (prepareExisting_kept (S := S) st2 f.idle)
  obtain ⟨hcontent, -, hfolded⟩ := prepareExisting_spec (S := S) st2 l f.idle
  have hframe := prepareExisting_frame (S := S) st2 l f.idle
  have hapart := apart pid stamp l
  refine andThen_rule (fun e _ => ⟨hkept3, nofun⟩) fun u hidle => ?_
  obtain ⟨halone, hmain⟩ := hfolded u hidle
  have hcopy := (hframe _ hapart.tmp hapart.wal_tmp.symm).trans hcopy
  have halone : (prepareExistingDatabase S st2 l f.idle).1.alone S l =
      (prepareExistingDatabase S st2 l f.idle).1.content S l := halone.trans hcontent.symm
  generalize (prepareExistingDatabase S st2 l f.idle).1 = st3 at hkept3 hmain hcopy halone ⊢
  obtain ⟨hkept, halone4, hmain4⟩ :=
    @rmForce_wal_kept δ ρ β Db _ _ S pid stamp l st3 halone f.walRemove
  have hkept4 := hkept3.trans hkept
  have hwal := (rmForce_self st3 (l.suffix walSuffix) f.walRemove).1
  obtain ⟨-, hother⟩ := rmForce_frame st3 (l.suffix walSuffix) f.walRemove
  refine andThen_rule (fun e _ => ⟨hkept4, nofun⟩) fun u hremoved => ?_
  have hwal := hwal u hremoved
  have hcopy := (hother _ hapart.wal_tmp.symm).trans hcopy
  have halone := halone4.trans (halone.trans hkept3.content)
  rw [← hmain4] at hmain
  generalize (rmForce st3 (l.suffix walSuffix) f.walRemove).1 = st4
    at hkept4 hwal hcopy halone hmain ⊢
  obtain ⟨helsewhere, hother⟩ := rmForce_frame st4 (l.suffix shmSuffix) f.shmRemove
  have hkept5 := hkept4.trans (.of_shm helsewhere hother)
  refine ⟨hkept5, fun u _ => ⟨hkept5, ?_, ?_, ?_, ?_⟩⟩
  · exact (alone_congr (hother _ hapart.shm.symm) helsewhere).trans halone
  · exact fun h => hmain ((hother _ hapart.shm.symm).symm.trans h)
  · exact (hother _ hapart.wal_shm).trans hwal
  · exact ⟨b', n, hsource, hcheck, (hother _ hapart.shm_tmp.symm).trans hcopy⟩

/-! ## The swap -/

/-- A rename happens, or leaves everything as it was. -/
theorem rename_cases (st : Storage δ ρ β) (a b : Loc δ) (fault : Option String) :
    (∃ e, rename st a b fault = (st, .error e)) ∨
      ∃ n, st.disk a = some n ∧ n ≠ .dir ∧
        rename st a b fault =
          ({ st with disk := (st.disk.put a none).put b (some n) }, .ok ()) := by
  unfold rename
  split
  · next e => exact .inl ⟨e, rfl⟩
  · exact .inl ⟨_, rfl⟩
  · next disk hrename =>
      obtain ⟨n, hn, hdir, -, rfl⟩ := Disk.rename_some hrename
      exact .inr ⟨n, hn, hdir, rfl⟩

/-- A rename that is not made to fail happens. -/
theorem rename_none {st : Storage δ ρ β} {a b : Loc δ} {n : Node ρ β} (hn : st.disk a = some n)
    (hdir : n ≠ .dir) (hb : st.disk b = none) :
    rename st a b none =
      ({ st with disk := (st.disk.put a none).put b (some n) }, .ok ()) := by
  have hdisk : st.disk.rename a b = some ((st.disk.put a none).put b (some n)) := by
    unfold Disk.rename
    rw [hn, hb]
    cases n with
    | dir => exact absurd rfl hdir
    | _ => rfl
  unfold rename
  rw [hdisk]

/-- A failed swap is undone: the original is back, or the undo failed and it is still at the
rollback path. -/
theorem undoSwap_spec {st : Storage δ ρ β} {dirOf : List (List Char) → δ} {target rollback : Path}
    {f : Faults β} {n : Node ρ β} (e : String)
    (hrollback : rollback.locate dirOf = (target.locate dirOf).suffix (rollbackSuffix stamp))
    (hmain : st.disk (target.locate dirOf) ≠ some .dir)
    (hwal : st.disk ((target.locate dirOf).suffix walSuffix) = none)
    (hn : st.disk (rollback.locate dirOf) = some n) (hdir : n ≠ .dir)
    (hlink : ∀ r, n = .link r →
      (st.elsewhere r).map (fun p => S.committed p.1 p.2) = st.alone S (rollback.locate dirOf)) :
    let l := target.locate dirOf
    let out := undoSwap st dirOf target (some rollback) f e
    (∀ u, out.2 ≠ .ok u) ∧
      (∀ m, m ≠ l → m ≠ rollback.locate dirOf → out.1.disk m = st.disk m) ∧
      (out.1.content S l = st.alone S (rollback.locate dirOf) ∨
        f.undo.isSome = true ∧
          out.1.alone S (rollback.locate dirOf) = st.alone S (rollback.locate dirOf)) := by
  intro l
  have hapart := apart 0 stamp l
  have hne : rollback.locate dirOf ≠ l := hrollback ▸ hapart.rollback
  have hremoved : st.disk.unlink l = st.disk.put l none := Disk.unlink_eq hmain
  have hn' : (st.disk.put l none) (rollback.locate dirOf) = some n :=
    (Disk.put_of_ne hne _).trans hn
  dsimp only
  unfold undoSwap
  dsimp only
  rw [hremoved]
  cases hundo : f.undo with
  | some message =>
      have hrename : rename { st with disk := st.disk.put l none } (rollback.locate dirOf) l
          (some message) = ({ st with disk := st.disk.put l none }, .error message) := rfl
      rw [hrename]
      refine ⟨nofun, fun m hm _ => Disk.put_of_ne hm _, .inr ⟨rfl, ?_⟩⟩
      exact alone_congr (Disk.put_of_ne hne _) rfl
  | none =>
      have hrename := @rename_none _ _ _ _ _ { st with disk := st.disk.put l none }
        (rollback.locate dirOf) l n hn' hdir (Disk.put_self _)
      rw [hrename]
      refine ⟨nofun, fun m hm hr => ?_, .inl ?_⟩
      · exact (Disk.put_of_ne hm _).trans ((Disk.put_of_ne hr _).trans (Disk.put_of_ne hm _))
      · have hlog : (l.suffix walSuffix) ≠ rollback.locate dirOf := hrollback ▸ hapart.wal_rollback
        have hnolog : (((st.disk.put l none).put (rollback.locate dirOf) none).put l (some n)).bytes
            (l.suffix walSuffix) = none := by
          unfold Disk.bytes
          rw [Disk.put_of_ne hapart.wal, Disk.put_of_ne hlog, Disk.put_of_ne hapart.wal, hwal]
        unfold andThen Storage.content
        simp only [Disk.put_self]
        cases n with
        | file m =>
            simp only [hnolog]
            unfold Storage.alone Storage.read
            rw [hn]
            rfl
        | link r => exact hlink r rfl
        | dir => exact absurd rfl hdir

/-- The copy at its place. -/
def Storage.placed (st : Storage δ ρ β) (tmp l : Loc δ) (b : β) : Storage δ ρ β :=
  { st with disk := (st.disk.put tmp none).put l (some (.file b)) }

theorem swapIn_cases {st : Storage δ ρ β} {dirOf : List (List Char) → δ} {tmp target : Path}
    {f : Faults β} {b : β} (htmp : st.disk (tmp.locate dirOf) = some (.file b)) :
    (∃ e, swapIn S st dirOf tmp target f = (st, .error e)) ∨
    (∃ e, swapIn S st dirOf tmp target f =
      (st.placed (tmp.locate dirOf) (target.locate dirOf) b, .error e)) ∨
    swapIn S st dirOf tmp target f =
      (st.placed (tmp.locate dirOf) (target.locate dirOf) b, .ok ()) := by
  unfold swapIn
  rcases rename_cases st (tmp.locate dirOf) (target.locate dirOf) f.swap with
    ⟨e, hrename⟩ | ⟨n, hn, -, hrename⟩
  · rw [hrename]
    exact .inl ⟨e, rfl⟩
  · obtain rfl : n = .file b := Option.some.inj (hn.symm.trans htmp)
    rw [hrename]
    refine .inr ?_
    unfold andThen
    dsimp only
    split
    · exact .inl ⟨_, rfl⟩
    · exact .inr rfl

theorem content_of_missing {st : Storage δ ρ β} {l : Loc δ} (h : st.pathExists l = false) :
    st.content S l = none := by
  unfold Storage.pathExists at h
  unfold Storage.content
  rcases hl : st.disk l with _ | (m | r | _)
  · rfl
  · rw [hl] at h
    cases h
  · rw [hl] at h
    have hnone : st.elsewhere r = none := by simpa using h
    simp [hnone]
  · rfl

/-- What the swap comes to. -/
structure Installed (S : Sqlite β Db) (pid : ℕ) (stamp : List Char) (l source : Loc δ)
    (f : Faults β) (before : Storage δ ρ β) (out : Storage δ ρ β × Except String Unit) : Prop where
  lock : out.1.disk (l.suffix lockSuffix) = before.disk (l.suffix lockSuffix)
  tmp : out.1.disk (l.suffix (tmpSuffix pid)) = some .dir →
    before.disk (l.suffix (tmpSuffix pid)) = some .dir
  failed : ∀ e, out.2 = .error e → out.1.content S l = before.content S l ∨
    (f.undo.isSome = true ∧
      out.1.alone S (l.suffix (rollbackSuffix stamp)) = before.content S l)
  placed : ∀ u, out.2 = .ok u → ∃ b n, before.read source = some b ∧ S.check b = .ok n ∧
    out.1.disk l = some (.file b) ∧ out.1.disk (l.suffix walSuffix) = none
  moved : ∀ u, out.2 = .ok u → before.pathExists l = true →
    out.1.alone S (l.suffix (rollbackSuffix stamp)) = before.content S l

/-- Where nothing stood before, a failed swap leaves nothing. -/
theorem install_missing {before st : Storage δ ρ β} {dirOf : List (List Char) → δ} {target : Path}
    {source : Loc δ} {f : Faults β} (h : Ready S pid stamp (target.locate dirOf) source before st)
    (hmissing : before.pathExists (target.locate dirOf) = false) :
    Installed S pid stamp (target.locate dirOf) source f before
      (install S st dirOf target (target.suffix (tmpSuffix pid)) none f) := by
  obtain ⟨b, n, hsource, hcheck, hcopy⟩ := h.copy
  generalize hl : target.locate dirOf = l at h hmissing hcopy ⊢
  have hapart := apart pid stamp l
  have hlocate : (target.suffix (tmpSuffix pid)).locate dirOf = l.suffix (tmpSuffix pid) := hl ▸ rfl
  have hcontent := content_of_missing (S := S) hmissing
  have hundo : ∀ (s : Storage δ ρ β) (e : String), s.disk l ≠ some .dir →
      undoSwap s dirOf target none f e = ({ s with disk := s.disk.put l none }, .error e) := by
    intro s e hs
    unfold undoSwap
    dsimp only
    rw [hl, Disk.unlink_eq hs]
  have hgone : ∀ s : Storage δ ρ β,
      ({ s with disk := s.disk.put l none } : Storage δ ρ β).content S l = none := by
    intro s
    unfold Storage.content
    simp
  have hplaced : ∀ m, m ≠ l → m ≠ l.suffix (tmpSuffix pid) →
      (st.placed (l.suffix (tmpSuffix pid)) l b).disk m = st.disk m := fun m hm htmp =>
    (Disk.put_of_ne hm _).trans (Disk.put_of_ne htmp _)
  have htmp : (st.placed (l.suffix (tmpSuffix pid)) l b).disk (l.suffix (tmpSuffix pid)) = none :=
    (Disk.put_of_ne hapart.tmp _).trans (Disk.put_self _)
  have hself : (st.placed (l.suffix (tmpSuffix pid)) l b).disk l = some (.file b) :=
    Disk.put_self _
  have hcases := @swapIn_cases δ ρ β Db _ _ S st dirOf (target.suffix (tmpSuffix pid)) target f b
    (hlocate ▸ hcopy)
  rw [hlocate, hl] at hcases
  unfold install andThen
  dsimp only
  rcases hcases with ⟨e, hswap⟩ | ⟨e, hswap⟩ | hswap
  · rw [hswap]
    dsimp only
    rw [hundo st e h.main]
    refine ⟨(Disk.put_of_ne hapart.lock _).trans h.lock, ?_, fun _ _ => .inl ?_,
      by simp, by simp⟩
    · show (st.disk.put l none) _ = _ → _
      rw [Disk.put_of_ne hapart.tmp, hcopy]
      simp
    · rw [hgone, hcontent]
  · rw [hswap]
    dsimp only
    rw [hundo _ e (by simp [hself])]
    refine ⟨?_, ?_, fun _ _ => .inl ?_, by simp, by simp⟩
    · exact (Disk.put_of_ne hapart.lock _).trans
        ((hplaced _ hapart.lock hapart.lock_tmp).trans h.lock)
    · show ((st.placed _ l b).disk.put l none) _ = _ → _
      rw [Disk.put_of_ne hapart.tmp, htmp]
      simp
    · rw [hgone, hcontent]
  · rw [hswap]
    refine ⟨(hplaced _ hapart.lock hapart.lock_tmp).trans h.lock, ?_, by simp, fun _ _ => ?_,
      fun _ _ hexists => ?_⟩
    · rw [htmp]
      simp
    · exact ⟨b, n, hsource, hcheck, hself, (hplaced _ hapart.wal hapart.wal_tmp).trans h.wal⟩
    · rw [hmissing] at hexists
      cases hexists

/-- An original that was there is back after a failed swap, or still at the rollback path. -/
theorem install_existing {before st : Storage δ ρ β} {dirOf : List (List Char) → δ} {target : Path}
    {source : Loc δ} {f : Faults β}
    (h : Ready S pid stamp (target.locate dirOf) source before st) :
    Installed S pid stamp (target.locate dirOf) source f before
      (install S st dirOf target (target.suffix (tmpSuffix pid))
        (some (target.suffix (rollbackSuffix stamp))) f) := by
  obtain ⟨b, k, hsource, hcheck, hcopy⟩ := h.copy
  have hundo := @undoSwap_spec δ ρ β Db _ _ S stamp
  generalize hr : target.suffix (rollbackSuffix stamp) = rollback
  have hrollback : rollback.locate dirOf =
      (target.locate dirOf).suffix (rollbackSuffix stamp) := hr ▸ rfl
  have hundo := fun s => @hundo s dirOf target rollback f
  generalize htarget : target.locate dirOf = l at h hcopy hrollback hundo ⊢
  have hapart := apart pid stamp l
  have hlocate : (target.suffix (tmpSuffix pid)).locate dirOf = l.suffix (tmpSuffix pid) :=
    htarget ▸ rfl
  rw [hrollback] at hundo
  unfold install
  dsimp only
  rw [hrollback, htarget]
  rcases rename_cases st l (l.suffix (rollbackSuffix stamp)) f.moveAside with
    ⟨e, hrename⟩ | ⟨n, hn, hdir, hrename⟩
  · -- the original was not moved
    rw [hrename]
    refine ⟨h.lock, ?_, fun _ _ => .inl h.content, nofun, nofun⟩
    show st.disk _ = _ → _
    rw [hcopy]
    exact nofun
  rw [hrename]
  unfold andThen
  dsimp only
  -- the original is at the rollback path, alone
  generalize hst' : ({ st with
    disk := (st.disk.put l none).put (l.suffix (rollbackSuffix stamp)) (some n) } :
      Storage δ ρ β) = st'
  have helsewhere : st'.elsewhere = st.elsewhere := hst' ▸ rfl
  have hother : ∀ m, m ≠ l → m ≠ l.suffix (rollbackSuffix stamp) → st'.disk m = st.disk m := by
    intro m hm hmr
    rw [← hst']
    exact (Disk.put_of_ne hmr _).trans (Disk.put_of_ne hm _)
  have hmoved : st'.disk (l.suffix (rollbackSuffix stamp)) = some n := by
    rw [← hst']
    exact Disk.put_self _
  have hempty : st'.disk l = none := by
    rw [← hst']
    exact (Disk.put_of_ne hapart.rollback.symm _).trans (Disk.put_self _)
  have halone : st'.alone S (l.suffix (rollbackSuffix stamp)) = before.content S l :=
    (alone_congr (hmoved.trans hn.symm) helsewhere).trans h.alone
  have hlink : ∀ r, n = .link r →
      (st'.elsewhere r).map (fun p => S.committed p.1 p.2) = before.content S l := by
    rintro r rfl
    rw [helsewhere, ← h.content]
    unfold Storage.content
    rw [hn]
  have hcopy' := (hother _ hapart.tmp hapart.tmp_rollback).trans hcopy
  have hwal' := (hother _ hapart.wal hapart.wal_rollback).trans h.wal
  have hplaced : ∀ m, m ≠ l → m ≠ l.suffix (tmpSuffix pid) →
      (st'.placed (l.suffix (tmpSuffix pid)) l b).disk m = st'.disk m := fun m hm htmp =>
    (Disk.put_of_ne hm _).trans (Disk.put_of_ne htmp _)
  have htmp : (st'.placed (l.suffix (tmpSuffix pid)) l b).disk (l.suffix (tmpSuffix pid)) = none :=
    (Disk.put_of_ne hapart.tmp _).trans (Disk.put_self _)
  have hself : (st'.placed (l.suffix (tmpSuffix pid)) l b).disk l = some (.file b) :=
    Disk.put_self _
  have hmovedPlaced := (hplaced _ hapart.rollback hapart.tmp_rollback.symm).trans hmoved
  have halonePlaced : (st'.placed (l.suffix (tmpSuffix pid)) l b).alone S
      (l.suffix (rollbackSuffix stamp)) = before.content S l :=
    (alone_congr (hmovedPlaced.trans hmoved.symm) rfl).trans halone
  have hlock := (hother _ hapart.lock hapart.lock_rollback).trans h.lock
  have hcases := @swapIn_cases δ ρ β Db _ _ S st' dirOf (target.suffix (tmpSuffix pid)) target f b
    (hlocate ▸ hcopy')
  rw [hlocate, htarget] at hcases
  rcases hcases with ⟨e, hswap⟩ | ⟨e, hswap⟩ | hswap
  · rw [hswap]
    dsimp only
    obtain ⟨hfails, hrest, hback⟩ := hundo st' e rfl (by rw [hempty]; exact nofun) hwal' hmoved hdir
      (fun r hr => (hlink r hr).trans halone.symm)
    refine ⟨(hrest _ hapart.lock hapart.lock_rollback).trans hlock, ?_, fun _ _ => ?_,
      fun u hu => absurd hu (hfails u), fun u hu => absurd hu (hfails u)⟩
    · rw [hrest _ hapart.tmp hapart.tmp_rollback, hcopy']
      exact nofun
    · rwa [halone] at hback
  · rw [hswap]
    dsimp only
    obtain ⟨hfails, hrest, hback⟩ := hundo _ e rfl (by rw [hself]; exact nofun)
      ((hplaced _ hapart.wal hapart.wal_tmp).trans hwal') hmovedPlaced hdir
      (fun r hr => (hlink r hr).trans halonePlaced.symm)
    refine ⟨(hrest _ hapart.lock hapart.lock_rollback).trans
      ((hplaced _ hapart.lock hapart.lock_tmp).trans hlock), ?_, fun _ _ => ?_,
      fun u hu => absurd hu (hfails u), fun u hu => absurd hu (hfails u)⟩
    · rw [hrest _ hapart.tmp hapart.tmp_rollback, htmp]
      exact nofun
    · rwa [halonePlaced] at hback
  · rw [hswap]
    refine ⟨(hplaced _ hapart.lock hapart.lock_tmp).trans hlock, ?_, nofun, fun _ _ => ?_,
      fun _ _ _ => halonePlaced⟩
    · rw [htmp]
      exact nofun
    · exact ⟨b, k, hsource, hcheck, hself, (hplaced _ hapart.wal hapart.wal_tmp).trans hwal'⟩

/-! ## All or nothing -/

section AllOrNothing

variable {dirOf : List (List Char) → δ} {st : Storage δ ρ β} {target source : Path}

/-- A restore leaves the content of the target as it was, or installs the backup and keeps
the content that was there; `failed` has it at the rollback path when even the undo fails. -/
structure AllOrNothing (S : Sqlite β Db) (dirOf : List (List Char) → δ) (pid : ℕ)
    (stamp : List Char) (st : Storage δ ρ β) (target source : Path) (confirm : Bool)
    (f : Faults β) (out : Storage δ ρ β × Except String Outcome) : Prop where
  failed : ∀ e, out.2 = .error e →
    out.1.content S (target.locate dirOf) = st.content S (target.locate dirOf) ∨
      (f.undo.isSome = true ∧
        out.1.alone S ((target.suffix (rollbackSuffix stamp)).locate dirOf) =
          st.content S (target.locate dirOf))
  lock : out.1.disk ((target.suffix lockSuffix).locate dirOf) =
    st.disk ((target.suffix lockSuffix).locate dirOf)
  tmp : out.1.disk ((target.suffix (tmpSuffix pid)).locate dirOf) = none ∨
    out.1.disk ((target.suffix (tmpSuffix pid)).locate dirOf) =
      st.disk ((target.suffix (tmpSuffix pid)).locate dirOf)
  installed : ∀ o, out.2 = .ok o → confirm = true →
    ∃ b n, st.read (source.locate dirOf) = some b ∧ S.check b = .ok n ∧
      out.1.disk (target.locate dirOf) = some (.file b) ∧
      out.1.content S (target.locate dirOf) = some (S.committed b none)
  moved : ∀ o c, out.2 = .ok o → confirm = true →
    st.content S (target.locate dirOf) = some c →
      ∃ p, o.rollbackPath = some p ∧ out.1.alone S (p.locate dirOf) = some c
  dry : confirm = false → out.1 = st

/-- The lock cannot be opened although another process has it, and not because it has. -/
def LosesLock (S : Sqlite β Db) (dirOf : List (List Char) → δ) (st : Storage δ ρ β)
    (target source : Path) (backup : RawPath) (confirm : Bool) (f : Faults β) : Prop :=
  (∃ n, preview S st dirOf backup target source f = .ok n) ∧ confirm = true ∧ f.mkdir = none ∧
    f.lockCreate.isSome = true ∧
    ∃ n, st.disk ((target.suffix lockSuffix).locate dirOf) = some n ∧ n ≠ .dir

/-- A failure that touches no more than the lock. -/
theorem allOrNothing_of_lock {confirm : Bool} {f : Faults β}
    {out : Storage δ ρ β × Except String Outcome} (helsewhere : out.1.elsewhere = st.elsewhere)
    (hother : ∀ m, m ≠ (target.locate dirOf).suffix lockSuffix → out.1.disk m = st.disk m)
    (hfails : ∀ o, out.2 ≠ .ok o) (hdry : confirm = true ∨ out.1 = st) :
    AllOrNothing S dirOf pid stamp st target source confirm f out ↔
      out.1.disk ((target.suffix lockSuffix).locate dirOf) =
        st.disk ((target.suffix lockSuffix).locate dirOf) := by
  have hapart := apart pid stamp (target.locate dirOf)
  constructor
  · exact fun h => h.lock
  · intro hlock
    constructor
    · exact fun _ _ => .inl (content_congr (hother _ hapart.lock.symm) (hother _ hapart.wal_lock)
        helsewhere)
    · exact hlock
    · exact .inr (hother _ hapart.lock_tmp.symm)
    · exact fun o ho => absurd ho (hfails o)
    · exact fun o _ ho => absurd ho (hfails o)
    · intro hconfirm
      rcases hdry with htrue | hsame
      · rw [hconfirm] at htrue
        cases htrue
      · exact hsame

/-- The lock is taken, or the state is as it was but for the lock. -/
theorem acquire_cases (st : Storage δ ρ β) (dirOf : List (List Char) → δ) (target : Path)
    (b : β) (f : Faults β) :
    (∃ e, acquireMaintenanceLock st dirOf target b f = (st, .error e) ∧ f.lockCreate = none) ∨
    (∃ e disk, acquireMaintenanceLock st dirOf target b f = ({ st with disk }, .error e) ∧
      (∀ m, m ≠ (target.suffix lockSuffix).locate dirOf → disk m = st.disk m) ∧
      (disk ((target.suffix lockSuffix).locate dirOf) =
          st.disk ((target.suffix lockSuffix).locate dirOf) ↔
        ¬(f.lockCreate.isSome = true ∧
          ∃ n, st.disk ((target.suffix lockSuffix).locate dirOf) = some n ∧ n ≠ .dir))) ∨
    (acquireMaintenanceLock st dirOf target b f =
        ({ st with disk := st.disk.put ((target.suffix lockSuffix).locate dirOf) (some (.file b)) },
          .ok ()) ∧
      st.disk ((target.suffix lockSuffix).locate dirOf) = none ∧ f.lockCreate = none) := by
  unfold acquireMaintenanceLock
  dsimp only
  generalize (target.suffix lockSuffix).locate dirOf = l
  split
  · next e hcreate =>
      refine .inr (.inl ⟨e, _, rfl, fun m hm => Disk.unlink_of_ne hm, ?_⟩)
      rcases hl : st.disk l with _ | n
      · rw [Disk.unlink_of_none hl, hl]
        simp
      · by_cases hdir : n = .dir
        · subst hdir
          rw [Disk.unlink_dir hl, hl]
          simp
        · have hremoved : st.disk.unlink l l = none := by
            rw [Disk.unlink_eq (fun h => hdir (Option.some.inj (hl.symm.trans h))), Disk.put_self]
          rw [hremoved, hcreate]
          simp [hdir]
  · next hcreate =>
      split
      · exact .inl ⟨_, rfl, hcreate⟩
      · next disk hdisk =>
          obtain ⟨hnone, rfl⟩ := Disk.create_some hdisk
          split
          · refine .inr (.inl ⟨_, _, rfl, fun m hm => ?_, ?_⟩)
            · rw [Disk.unlink_of_ne hm, Disk.put_of_ne hm]
            · rw [Disk.unlink_file (Disk.put_self _), hnone, hcreate]
              simp
          · exact .inr (.inr ⟨rfl, hnone, hcreate⟩)

theorem preview_source {backup : RawPath} {f : Faults β} {n : ℤ}
    (h : preview S st dirOf backup target source f = .ok n) :
    ∃ b, st.read (source.locate dirOf) = some b := by
  unfold preview at h
  split at h
  · cases h
  · split at h
    · cases h
    · next hverify =>
        obtain ⟨b, hread, -⟩ := verify_ok hverify
        exact ⟨b, hread⟩

/-- What the steps under the lock come to, without the guards. -/
theorem held_spec {f : Faults β} {rollback : Option Path}
    (hrollback : rollback = if st.pathExists (target.locate dirOf)
      then some (target.suffix (rollbackSuffix stamp)) else none) :
    Installed S pid stamp (target.locate dirOf) (source.locate dirOf) f st
      (andThen (prepare S st dirOf source target (target.suffix (tmpSuffix pid)) rollback f)
        fun st _ => install S st dirOf target (target.suffix (tmpSuffix pid)) rollback f) := by
  obtain ⟨hkept, hready⟩ := @prepare_spec δ ρ β Db _ _ S pid stamp st dirOf source target rollback f
  refine andThen_rule (fun e _ => ?_) fun u hok => ?_
  · exact ⟨hkept.lock, hkept.tmp, fun _ _ => .inl hkept.content, nofun, nofun⟩
  · have hready := hready u hok
    generalize (prepare S st dirOf source target (target.suffix (tmpSuffix pid)) rollback f).1 =
      st' at hready ⊢
    rw [hrollback]
    split
    · exact install_existing hready
    · next hmissing => exact install_missing hready (by simpa using hmissing)

/-- The guards remove the temporary file and the lock that was taken. -/
theorem dropGuards_allOrNothing {b : β} {f : Faults β} {before : Storage δ ρ β} {n : ℤ}
    {rollback : Option Path} {run : Storage δ ρ β × Except String Unit}
    (hnone : st.disk ((target.suffix lockSuffix).locate dirOf) = none)
    (hsource : ∃ b, st.read (source.locate dirOf) = some b)
    (hbefore : before =
      { st with disk := st.disk.put ((target.suffix lockSuffix).locate dirOf) (some (.file b)) })
    (hrollback : rollback = if before.pathExists (target.locate dirOf)
      then some (target.suffix (rollbackSuffix stamp)) else none)
    (hrun : Installed S pid stamp (target.locate dirOf) (source.locate dirOf) f before run) :
    AllOrNothing S dirOf pid stamp st target source true f
      (dropGuards run.1 dirOf target (target.suffix (tmpSuffix pid)),
        run.2.map (fun _ => ⟨false, target, source, rollback, n⟩)) := by
  have hlocate : ∀ s, (target.suffix s).locate dirOf = (target.locate dirOf).suffix s :=
    fun _ => rfl
  simp only [hlocate] at hnone hbefore
  generalize hl : target.locate dirOf = l at hnone hbefore hrollback hrun
  have hapart := apart pid stamp l
  -- taking the lock changes nothing else
  have hother : ∀ m, m ≠ l.suffix lockSuffix → before.disk m = st.disk m := fun m hm => by
    rw [hbefore]
    exact Disk.put_of_ne hm _
  have helsewhere : before.elsewhere = st.elsewhere := hbefore ▸ rfl
  have hcontent : before.content S l = st.content S l :=
    content_congr (hother _ hapart.lock.symm) (hother _ hapart.wal_lock) helsewhere
  have hread : before.read (source.locate dirOf) = st.read (source.locate dirOf) := by
    refine read_congr (hother _ fun heq => ?_) helsewhere
    obtain ⟨b, hb⟩ := hsource
    unfold Storage.read at hb
    rw [heq, hnone] at hb
    cases hb
  -- neither does dropping the guards
  have hdrop : (dropGuards run.1 dirOf target (target.suffix (tmpSuffix pid))).disk =
      (run.1.disk.unlink (l.suffix (tmpSuffix pid))).unlink (l.suffix lockSuffix) := by
    rw [← hl]
    rfl
  have hdropped : ∀ m, m ≠ l.suffix (tmpSuffix pid) → m ≠ l.suffix lockSuffix →
      (dropGuards run.1 dirOf target (target.suffix (tmpSuffix pid))).disk m = run.1.disk m := by
    intro m htmp hlock
    rw [hdrop, Disk.unlink_of_ne hlock, Disk.unlink_of_ne htmp]
  have hmain := hdropped l hapart.tmp.symm hapart.lock.symm
  have hwal := hdropped _ hapart.wal_tmp hapart.wal_lock
  have hmoved := hdropped _ hapart.tmp_rollback.symm hapart.lock_rollback.symm
  have halone : (dropGuards run.1 dirOf target (target.suffix (tmpSuffix pid))).alone S
      (l.suffix (rollbackSuffix stamp)) = run.1.alone S (l.suffix (rollbackSuffix stamp)) :=
    alone_congr hmoved rfl
  constructor
  · intro e he
    rw [hlocate, hl, content_congr hmain hwal rfl, halone]
    have hfailed := hrun.failed e (map_eq_error.mp he)
    rwa [hcontent] at hfailed
  · rw [hlocate, hl, hdrop, hnone]
    refine Disk.unlink_file (b := b) ?_
    rw [Disk.unlink_of_ne hapart.lock_tmp, hrun.lock, hbefore]
    exact Disk.put_self _
  · rw [hlocate, hl, hdrop, Disk.unlink_of_ne hapart.lock_tmp.symm]
    rcases Disk.unlink_self run.1.disk (l.suffix (tmpSuffix pid)) with hgone | ⟨hdir, hwas⟩
    · exact .inl hgone
    · rw [hdir, ← hother _ hapart.lock_tmp.symm, hrun.tmp hwas]
      exact .inr rfl
  · intro o ho _
    obtain ⟨u, hu, -⟩ := map_eq_ok.mp ho
    obtain ⟨c, k, hc, hcheck, hplaced, hnolog⟩ := hrun.placed u hu
    rw [hread] at hc
    rw [hl]
    refine ⟨c, k, hc, hcheck, hmain.trans hplaced, ?_⟩
    unfold Storage.content Disk.bytes
    rw [hmain.trans hplaced, hwal.trans hnolog]
  · intro o c ho _ hc
    obtain ⟨u, hu, rfl⟩ := map_eq_ok.mp ho
    rw [hl, ← hcontent] at hc
    have hexists : before.pathExists l = true := by
      by_contra hmissing
      rw [content_of_missing (by simpa using hmissing)] at hc
      cases hc
    refine ⟨target.suffix (rollbackSuffix stamp), ?_, ?_⟩
    · show rollback = _
      rw [hrollback, if_pos hexists]
    · rw [hlocate, hl, halone, hrun.moved u hu hexists, hc]
  · simp

/-- A restore is all or nothing unless it removes a lock that is not its own. -/
theorem restore_all_or_nothing (S : Sqlite β Db) (dirOf : List (List Char) → δ) (pid : ℕ × β)
    (stamp : List Char) (st : Storage δ ρ β) (target source : Path) (backup : RawPath)
    (confirm : Bool) (f : Faults β) :
    AllOrNothing S dirOf pid.1 stamp st target source confirm f
        (restoreWith S dirOf pid stamp st target source backup confirm f) ↔
      ¬LosesLock S dirOf st target source backup confirm f := by
  have hself : ∀ e, AllOrNothing S dirOf pid.1 stamp st target source confirm f (st, .error e) := by
    intro e
    have hiff := @allOrNothing_of_lock δ ρ β Db _ _ S pid.1 stamp dirOf st target source confirm f
      (st, .error e) rfl (fun _ _ => rfl) (fun o h => by cases h) (.inr rfl)
    exact hiff.mpr rfl
  unfold LosesLock restoreWith
  cases hpreview : preview S st dirOf backup target source f with
  | error e =>
      dsimp only
      constructor
      · rintro - ⟨⟨n, hn⟩, -⟩
        cases hn
      · exact fun _ => hself e
  | ok n =>
      dsimp only
      cases hconfirm : confirm with
      | false =>
          constructor
          · rintro - ⟨-, hfalse, -⟩
            cases hfalse
          · intro _
            exact ⟨nofun, rfl, .inr rfl, nofun, nofun, fun _ => rfl⟩
      | true =>
          subst hconfirm
          cases hmkdir : f.mkdir with
          | some e =>
              constructor
              · rintro - ⟨-, -, hnone, -⟩
                cases hnone
              · exact fun _ => hself e
          | none =>
              have hattempt : attempt st none = (st, .ok ()) := rfl
              rw [hattempt]
              unfold andThen
              dsimp only
              rcases acquire_cases st dirOf target pid.2 f with
                ⟨e, hacquire, hcreate⟩ | ⟨e, disk, hacquire, hother, hlock⟩ |
                  ⟨hacquire, hnone, hcreate⟩
              · rw [hacquire, hcreate]
                constructor
                · rintro - ⟨-, -, -, hsome, -⟩
                  cases hsome
                · exact fun _ => hself e
              · rw [hacquire]
                refine (allOrNothing_of_lock ?_ hother ?_ (.inl rfl)).trans (hlock.trans ?_)
                · rfl
                · intro o ho
                  cases ho
                · simp
              · rw [hacquire, hcreate]
                constructor
                · rintro - ⟨-, -, -, hsome, -⟩
                  cases hsome
                · intro _
                  exact dropGuards_allOrNothing hnone (preview_source hpreview) rfl rfl
                    (held_spec rfl)

end AllOrNothing

def noFaults : Faults ℕ where
  verifySource := none
  canonicalize := false
  mkdir := none
  lockCreate := none
  lockWrite := none
  tmpRemove := none
  copy := none
  chmod := none
  fsync := none
  verifyTmp := none
  idle := none
  walRemove := none
  shmRemove := none
  moveAside := none
  swap := none
  verifyTarget := none
  undo := none

/-- Process 42 restores over the same target. -/
def lockedStorage : Storage (List (List Char)) Empty ℕ where
  disk := fun l =>
    if l = ⟨[], "db".toList⟩ then some (.file 1)
    else if l = ⟨[], "old".toList⟩ then some (.file 7)
    else if l = ⟨[], "db.maintenance.lock".toList⟩ then some (.file 42)
    else none
  elsewhere := fun _ => none

def restoreLocked (f : Faults ℕ) : Storage (List (List Char)) Empty ℕ × Except String Outcome :=
  restoreWith countedRows id (7, 7) [] lockedStorage ⟨[], "db".toList⟩ ⟨[], "old".toList⟩
    ⟨true, [.normal "old".toList]⟩ true f

example : (restoreLocked noFaults).1.disk ⟨[], "db.maintenance.lock".toList⟩ = some (.file 42) :=
  rfl

/-- The process has no file descriptor left for its own lock, and removes the other's. -/
theorem foreign_lock_removed :
    ¬AllOrNothing countedRows id 7 [] lockedStorage ⟨[], "db".toList⟩ ⟨[], "old".toList⟩ true
      { noFaults with lockCreate := some "Too many open files (os error 24)" }
      (restoreLocked { noFaults with lockCreate := some "Too many open files (os error 24)" }) := by
  intro h
  have hlock : none = some (Node.file 42) := h.lock
  cases hlock

end Restore

end Stackhour.Tracker
