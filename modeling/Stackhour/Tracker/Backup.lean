import Stackhour.Tracker.Restore

/-!
# Creating a backup

The database is copied with its log into a temporary file beside the destination, the
copy is settled into one file and verified, and then it takes the place of the
destination. The entries a path stands for depend on the directories that are links; the
guard against the database as its own backup compares paths.
-/

namespace Stackhour.Tracker

open Files Result

/-- SQLite, with what its online backup writes into an empty file and its log, and with
what is left of a database in one file when its log is folded in and given up. -/
structure Copying (β : Type*) (Db : Type*) extends Sqlite β Db where
  copied : β → Option β → β × Option β
  settled : β → Option β → β
  /-- The backup reads through the log. -/
  copied_kept : ∀ m w, committed (copied m w).1 (copied m w).2 = committed m w
  settled_kept : ∀ m w, committed (settled m w) none = committed m w

namespace Backup

open Restore (walSuffix shmSuffix)

variable {δ β Db : Type*}

/-! ## Files and their identity -/

/-- A file: the number of its inode, and what is in it. -/
structure File (β : Type*) where
  ino : ℕ
  bytes : β

variable [DecidableEq δ]

/-- The disk, and the number of the next file that is made. -/
structure Storage (δ : Type*) (β : Type*) where
  disk : Disk δ (Loc δ) (File β)
  next : ℕ
  used : ∀ l x, disk l = some (.file x) → x.ino < next

/-- The disk after a write at an entry. -/
def written (d : Disk δ (Loc δ) (File β)) (next : ℕ) (l : Loc δ) (b : β) :
    Disk δ (Loc δ) (File β) :=
  match d l with
  | none => d.put l (some (.file ⟨next, b⟩))
  | some (.file x) => d.put l (some (.file ⟨x.ino, b⟩))
  | _ => d

theorem written_used {d : Disk δ (Loc δ) (File β)} {next : ℕ} {l : Loc δ} {b : β}
    (hused : ∀ l x, d l = some (.file x) → x.ino < next) :
    ∀ m x, written d next l b m = some (.file x) → x.ino < next + 1 := by
  intro m x hx
  have hput : ∀ i, i ≤ next → (d.put l (some (.file ⟨i, b⟩))) m = some (.file x) →
      x.ino < next + 1 := by
    intro i hi hx
    by_cases hm : m = l
    · rw [hm, Disk.put_self] at hx
      cases hx
      exact Nat.lt_succ_of_le hi
    · rw [Disk.put_of_ne hm] at hx
      exact Nat.lt_succ_of_lt (hused m x hx)
  unfold written at hx
  rcases hl : d l with _ | (y | target | _)
  · rw [hl] at hx
    exact hput _ le_rfl hx
  · rw [hl] at hx
    exact hput _ (hused l y hl).le hx
  · rw [hl] at hx
    exact Nat.lt_succ_of_lt (hused m x hx)
  · rw [hl] at hx
    exact Nat.lt_succ_of_lt (hused m x hx)

namespace Storage

/-- So many links are followed. -/
def maxLinks : ℕ := 40

/-- The links on the way to a file, and its entry. -/
def way (st : Storage δ β) (l : Loc δ) : Option (List (Loc δ) × Loc δ) :=
  match st.disk.follow maxLinks l with
  | none => none
  | some p =>
      match st.disk p.2 with
      | some (.file _) => some p
      | _ => none

/-- `Path::exists`. -/
def pathExists (st : Storage δ β) (l : Loc δ) : Bool := (st.disk.follow maxLinks l).isSome

/-- The bytes of the file to which a path leads. -/
def read (st : Storage δ β) (l : Loc δ) : Option β :=
  (st.way l).bind fun p => (st.disk.bytes p.2).map File.bytes

/-- What SQLite reads when it opens the database at a path: the main file and its log,
which must be a file of its own. -/
def opened (st : Storage δ β) (l : Loc δ) : Option (β × Option β) :=
  match st.way l with
  | none => none
  | some p =>
      match st.disk p.2, st.disk (p.2.suffix walSuffix) with
      | some (.file m), none => some (m.bytes, none)
      | some (.file m), some (.file w) => some (m.bytes, some w.bytes)
      | _, _ => none

/-- What is committed in the database at a path. -/
def content (S : Copying β Db) (st : Storage δ β) (l : Loc δ) : Option Db :=
  (st.opened l).map fun p => S.committed p.1 p.2

/-- `rm_force`: a directory stays. -/
def remove (st : Storage δ β) (l : Loc δ) : Storage δ β where
  disk := st.disk.unlink l
  next := st.next
  used := fun m x hx => by
    by_cases hm : m = l
    · subst hm
      rcases Disk.unlink_self st.disk m with hnone | ⟨hdir, -⟩
      · rw [hnone] at hx
        cases hx
      · rw [hdir] at hx
        cases hx
    · rw [Disk.unlink_of_ne hm] at hx
      exact st.used m x hx

/-- SQLite writes a file: one that is there is rewritten, and else it is made. -/
def write (st : Storage δ β) (l : Loc δ) (b : β) : Storage δ β where
  disk := written st.disk st.next l b
  next := st.next + 1
  used := written_used st.used

/-- `fs::rename`. -/
def rename (st : Storage δ β) (a b : Loc δ) (fault : Option String) :
    Storage δ β × Except String Unit :=
  match fault, hrename : st.disk.rename a b with
  | some e, _ => (st, .error e)
  | none, none => (st, .error "No such file or directory (os error 2)")
  | none, some disk =>
      ({ disk
         next := st.next
         used := fun m x hx => by
          obtain ⟨n, hn, -, -, rfl⟩ := Disk.rename_some hrename
          by_cases hb : m = b
          · rw [hb, Disk.put_self] at hx
            exact st.used a x (hn.trans hx)
          · rw [Disk.put_of_ne hb] at hx
            by_cases ha : m = a
            · rw [ha, Disk.put_self] at hx
              cases hx
            · rw [Disk.put_of_ne ha] at hx
              exact st.used m x hx }, .ok ())

end Storage

/-! ## Steps -/

/-- What a statement that fails leaves of the temporary file and its sidecars. -/
structure Leftover (β : Type*) where
  main : Option β
  wal : Option β
  shm : Option β

/-- Which steps fail and with what message, and which of the destination's sidecars cannot
be removed. -/
structure Faults (β : Type*) where
  mkdir : Option String
  snapshot : Option (String × Leftover β)
  finalize : Option (String × Leftover β)
  verifyTmp : Option String
  chmodTmp : Option String
  fsync : Option String
  keepWal : Bool
  keepShm : Bool
  rename : Option String
  chmodDestination : Option String
  verifyDestination : Option String

/-- `resolve_path`: the parent of the root is the root. -/
def resolvePath (cwd : List (List Char)) (p : RawPath) : Path :=
  .ofNames (p.components.foldl
    (fun out c =>
      match c with
      | .cur => out
      | .parent => out.dropLast
      | .normal name => out ++ [name])
    (if p.absolute then [] else cwd))

/-- `default_destination`; `stamp` is the time. -/
def defaultDestination (source : Path) (stamp : List Char) : Path :=
  ⟨source.dir ++ ["backups".toList], "stackhour-".toList ++ stamp ++ ".db".toList⟩

def tmpSuffix (pid : ℕ) : List Char := ['.'] ++ Nat.toDigits 10 pid ++ ".tmp".toList

variable (S : Copying β Db)

def attempt (st : Storage δ β) (fault : Option String) : Storage δ β × Except String Unit :=
  match fault with
  | some e => (st, .error e)
  | none => (st, .ok ())

/-- `verify_backup`, reduced to the count of heartbeats. -/
def verifyBackup (st : Storage δ β) (dirOf : List (List Char) → δ) (file : Path)
    (fault : Option String) : Except String ℤ :=
  match st.read (file.locate dirOf) with
  | none => .error ("backup does not exist or is not a file: " ++ file.display)
  | some b =>
      match fault with
      | some e => .error e
      | none => S.check b

/-- The removal of the temporary file and its sidecars, before and after. -/
def clear (st : Storage δ β) (tmp : Loc δ) : Storage δ β :=
  ((st.remove tmp).remove (tmp.suffix walSuffix)).remove (tmp.suffix shmSuffix)

def Storage.save (st : Storage δ β) (l : Loc δ) : Option β → Storage δ β
  | none => st
  | some b => st.write l b

def leave (st : Storage δ β) (tmp : Loc δ) (left : Leftover β) : Storage δ β :=
  ((st.save tmp left.main).save (tmp.suffix walSuffix) left.wal).save (tmp.suffix shmSuffix) left.shm

/-- The source is opened and checked, and the online backup copies it. -/
def snapshot (st : Storage δ β) (source tmp : Loc δ) (fault : Option (String × Leftover β)) :
    Storage δ β × Except String Unit :=
  match fault, st.opened source, st.disk tmp, st.disk (tmp.suffix walSuffix) with
  | some (e, left), _, _, _ => (leave st tmp left, .error e)
  | none, some (m, w), none, none =>
      (leave st tmp ⟨some (S.copied m w).1, (S.copied m w).2, none⟩, .ok ())
  | none, _, _, _ => (st, .error "unable to open database file")

/-- `finalize_snapshot`. -/
def finalizeSnapshot (st : Storage δ β) (tmp : Loc δ) (fault : Option (String × Leftover β)) :
    Storage δ β × Except String Unit :=
  match fault, st.opened tmp with
  | some (e, left), _ => (leave st tmp left, .error e)
  | none, none => (st, .error "unable to open database file")
  | none, some (m, w) =>
      (((st.write tmp (S.settled m w)).remove (tmp.suffix walSuffix)).remove (tmp.suffix shmSuffix),
        .ok ())

/-- The sidecars of the destination are removed. -/
def dropSidecars (st : Storage δ β) (destination : Loc δ) (f : Faults β) : Storage δ β :=
  let st := if f.keepWal then st else st.remove (destination.suffix walSuffix)
  if f.keepShm then st else st.remove (destination.suffix shmSuffix)

structure BackupInfo where
  backupPath : Path
  heartbeats : ℤ
  outputPath : Option Path

/-- The steps under the guard of the temporary file. -/
def replace (st : Storage δ β) (dirOf : List (List Char) → δ) (source destination tmp : Path)
    (f : Faults β) : Storage δ β × Except String BackupInfo :=
  andThen (snapshot S st (source.locate dirOf) (tmp.locate dirOf) f.snapshot) fun st _ =>
  andThen (finalizeSnapshot S st (tmp.locate dirOf) f.finalize) fun st _ =>
  andThen (st, verifyBackup S st dirOf tmp f.verifyTmp) fun st _ =>
  andThen (attempt st f.chmodTmp) fun st _ =>
  andThen (attempt st f.fsync) fun st _ =>
  let st := dropSidecars st (destination.locate dirOf) f
  andThen (st.rename (tmp.locate dirOf) (destination.locate dirOf) f.rename) fun st _ =>
  andThen (attempt st f.chmodDestination) fun st _ =>
    (st, (verifyBackup S st dirOf destination f.verifyDestination).map
      fun heartbeats => ⟨destination, heartbeats, some destination⟩)

/-- `create_backup`, of resolved paths. -/
def backupTo (dirOf : List (List Char) → δ) (pid : ℕ) (st : Storage δ β)
    (source destination : Path) (force : Bool) (f : Faults β) :
    Storage δ β × Except String BackupInfo :=
  if (st.way (source.locate dirOf)).isNone then
    (st, .error ("database does not exist or is not a file: " ++ source.display))
  else if destination = source then
    (st, .error "backup output must differ from the database")
  else if st.pathExists (destination.locate dirOf) && !force then
    (st, .error ("backup exists: " ++ destination.display ++ "; pass --force to replace it"))
  else
    andThen (attempt st f.mkdir) fun st _ =>
      let tmp := destination.suffix (tmpSuffix pid)
      let (st, result) := replace S (clear st (tmp.locate dirOf)) dirOf source destination tmp f
      (clear st (tmp.locate dirOf), result)

/-- The output that is asked for, or one of its own for each time. -/
def destinationOf (cwd : List (List Char)) (stamp : List Char) (source : Path) :
    Option RawPath → Path
  | some out => resolvePath cwd out
  | none => defaultDestination source stamp

/-- `create_backup`. -/
def createBackup (dirOf : List (List Char) → δ) (pid : ℕ) (stamp : List Char)
    (cwd : List (List Char)) (st : Storage δ β) (dbPath : RawPath) (output : Option RawPath)
    (force : Bool) (f : Faults β) : Storage δ β × Except String BackupInfo :=
  let source := resolvePath cwd dbPath
  backupTo S dirOf pid st source (destinationOf cwd stamp source output) force f

end Backup

end Stackhour.Tracker
