import Mathlib.Data.List.Infix
import Stackhour.Lib.Files
import Stackhour.Lib.Result

/-!
# Restoring a backup

A restore copies the backup beside the target, folds the target's write-ahead log into
it, moves it aside and puts the copy in its place, under a lock file of its own. Each
of these steps may fail, and what it leaves behind is undone or removed.
-/

namespace Stackhour.Tracker

open Files Result

/-! ## Paths -/

/-- A component of a path. -/
inductive Component where
  | cur
  | parent
  | normal (name : List Char)

/-- A path as it is passed. -/
structure RawPath where
  absolute : Bool
  components : List Component

/-- The empty argument. -/
def RawPath.isEmpty (p : RawPath) : Bool := !p.absolute && p.components.isEmpty

/-- An absolute path without dots: the names of its directories and its own. -/
structure Path where
  dir : List (List Char)
  name : List Char
deriving DecidableEq

namespace Path

/-- `with_suffix`, `sidecars`. -/
def suffix (p : Path) (s : List Char) : Path := { p with name := p.name ++ s }

def ofNames (names : List (List Char)) : Path := ⟨names.dropLast, names.getLastD []⟩

def display (p : Path) : String :=
  "/" ++ String.ofList (List.intercalate ['/'] (p.dir ++ [p.name]))

/-- Where the entry of a path stands; `dirOf` is where the system finds a directory. -/
def locate {δ : Type*} (dirOf : List (List Char) → δ) (p : Path) : Loc δ := ⟨dirOf p.dir, p.name⟩

end Path

namespace Restore

/-- `normalize_dots`, where the parent of the root is a name of its own. -/
def normalizeDots (cwd : List (List Char)) (p : RawPath) : List (List Char) :=
  p.components.foldl
    (fun out c =>
      match c with
      | .cur => out
      | .parent => if out.isEmpty then out ++ ["..".toList] else out.dropLast
      | .normal name => out ++ [name])
    (if p.absolute then [] else cwd)

/-- `absolutize`. -/
def absolutize (cwd : List (List Char)) (p : RawPath) : Path := .ofNames (normalizeDots cwd p)

end Restore

/-! ## Databases -/

/-- SQLite, of a main file and its write-ahead log: the rows that are committed in them;
what a checkpoint and an exclusive transaction leave of them when they succeed, and when
they stop at some point; and what `verify_backup` says of a main file alone. -/
structure Sqlite (β : Type*) (Db : Type*) where
  committed : β → Option β → Db
  idle : β → Option β → β × Option β
  halted : ℕ → β → Option β → β × Option β
  check : β → Except String ℤ
  /-- A truncating checkpoint moves all that is committed into the main file. -/
  idle_folded : ∀ m w, committed (idle m w).1 none = committed m w
  idle_kept : ∀ m w, committed (idle m w).1 (idle m w).2 = committed m w
  /-- Nothing that is committed is lost by a statement that fails. -/
  halted_kept : ∀ n m w, committed (halted n m w).1 (halted n m w).2 = committed m w

namespace Restore

/-- A file that holds a number of rows, and a log that holds some more. -/
def countedRows : Sqlite ℕ ℕ where
  committed := fun m w => m + w.getD 0
  idle := fun m w => (m + w.getD 0, none)
  halted := fun _ m w => (m, w)
  check := fun m => .ok m
  idle_folded := fun _ _ => rfl
  idle_kept := fun _ _ => rfl
  halted_kept := fun _ _ _ => rfl

variable {δ ρ β Db : Type*}

/-- The disk, and the databases with their logs to which links lead: a link leads out of
the directory in which the restore works. -/
structure Storage (δ ρ β : Type*) where
  disk : Disk δ ρ β
  elsewhere : ρ → Option (β × Option β)

def walSuffix : List Char := "-wal".toList

def shmSuffix : List Char := "-shm".toList

def lockSuffix : List Char := ".maintenance.lock".toList

def tmpSuffix (pid : ℕ) : List Char := ['.'] ++ Nat.toDigits 10 pid ++ ".restore.tmp".toList

def rollbackSuffix (stamp : List Char) : List Char := ".pre-restore-".toList ++ stamp

namespace Storage

/-- `Path::exists`. -/
def pathExists (st : Storage δ ρ β) (l : Loc δ) : Bool :=
  match st.disk l with
  | some (.file _) | some .dir => true
  | some (.link r) => (st.elsewhere r).isSome
  | none => false

/-- `fs::canonicalize`. -/
def canonicalize (st : Storage δ ρ β) (l : Loc δ) : Option (Loc δ ⊕ ρ) :=
  match st.disk l with
  | some (.file _) | some .dir => some (.inl l)
  | some (.link r) => if (st.elsewhere r).isSome then some (.inr r) else none
  | none => none

/-- The bytes of the main file to which a path leads. -/
def read (st : Storage δ ρ β) (l : Loc δ) : Option β :=
  match st.disk l with
  | some (.file b) => some b
  | some (.link r) => (st.elsewhere r).map Prod.fst
  | _ => none

/-- The database at a path: what is committed in its file and its log. -/
def content (S : Sqlite β Db) (st : Storage δ ρ β) (l : Loc δ) : Option Db :=
  match st.disk l with
  | some (.file m) => some (S.committed m (st.disk.bytes (l.suffix walSuffix)))
  | some (.link r) => (st.elsewhere r).map (fun p => S.committed p.1 p.2)
  | _ => none

/-- What is committed in the main file alone. -/
def alone (S : Sqlite β Db) (st : Storage δ ρ β) (l : Loc δ) : Option Db :=
  (st.read l).map (fun m => S.committed m none)

end Storage

/-! ## Steps -/

/-- Which steps fail and with what message. A copy that fails may leave a part of the
file, a proof of idleness that fails stops at some point; `canonicalize` fails or not. -/
structure Faults (β : Type*) where
  verifySource : Option String
  canonicalize : Bool
  mkdir : Option String
  lockCreate : Option String
  lockWrite : Option String
  tmpRemove : Option String
  copy : Option (String × Option β)
  chmod : Option String
  fsync : Option String
  verifyTmp : Option String
  idle : Option (String × ℕ)
  walRemove : Option String
  shmRemove : Option String
  moveAside : Option String
  swap : Option String
  verifyTarget : Option String
  undo : Option String

def busy : String := "database is busy; stop stackhour-server before restoring"

/-- `rewrite_busy`. -/
def rewriteBusy (message : String) : String :=
  let lower := message.toList.map Char.toLower
  if lower.tails.any ("busy".toList.isPrefixOf ·) || lower.tails.any ("locked".toList.isPrefixOf ·)
  then busy else message

variable [DecidableEq δ] [DecidableEq ρ] (S : Sqlite β Db)

/-- A step that only succeeds or fails. -/
def attempt (st : Storage δ ρ β) (fault : Option String) : Storage δ ρ β × Except String Unit :=
  match fault with
  | some e => (st, .error e)
  | none => (st, .ok ())

/-- `verify_backup`, reduced to the count of heartbeats. -/
def verify (st : Storage δ ρ β) (dirOf : List (List Char) → δ) (file : Path)
    (fault : Option String) : Except String ℤ :=
  match fault with
  | some e => .error e
  | none =>
      match st.read (file.locate dirOf) with
      | none => .error ("backup does not exist or is not a file: " ++ file.display)
      | some b => S.check b

/-- `rm_force`. -/
def rmForce (st : Storage δ ρ β) (l : Loc δ) (fault : Option String) :
    Storage δ ρ β × Except String Unit :=
  match fault, st.disk l with
  | some e, _ => (st, .error e)
  | none, some .dir => (st, .error "Is a directory (os error 21)")
  | none, _ => ({ st with disk := st.disk.unlink l }, .ok ())

/-- `fs::rename`. -/
def rename (st : Storage δ ρ β) (a b : Loc δ) (fault : Option String) :
    Storage δ ρ β × Except String Unit :=
  match fault, st.disk.rename a b with
  | some e, _ => (st, .error e)
  | none, none => (st, .error "No such file or directory (os error 2)")
  | none, some disk => ({ st with disk := disk }, .ok ())

/-- `copy_excl`. -/
def copyExcl (st : Storage δ ρ β) (src dst : Loc δ) (fault : Option (String × Option β)) :
    Storage δ ρ β × Except String Unit :=
  match fault, st.read src with
  | some (e, none), _ => (st, .error e)
  | none, none => (st, .error "No such file or directory (os error 2)")
  | some (e, some part), _ =>
      match st.disk.create dst part with
      | none => (st, .error e)
      | some disk => ({ st with disk := disk }, .error e)
  | none, some b =>
      match st.disk.create dst b with
      | none => (st, .error "File exists (os error 17)")
      | some disk => ({ st with disk := disk }, .ok ())

/-- `acquire_maintenance_lock`; `pid` is what is written. -/
def acquireMaintenanceLock (st : Storage δ ρ β) (dirOf : List (List Char) → δ) (target : Path)
    (pid : β) (f : Faults β) : Storage δ ρ β × Except String Unit :=
  let lock := target.suffix lockSuffix
  match f.lockCreate with
  | some e => ({ st with disk := st.disk.unlink (lock.locate dirOf) }, .error e)
  | none =>
      match st.disk.create (lock.locate dirOf) pid with
      | none => (st, .error ("maintenance already in progress (" ++ lock.display ++ ")"))
      | some disk =>
          match f.lockWrite with
          | some e => ({ st with disk := disk.unlink (lock.locate dirOf) }, .error e)
          | none => ({ st with disk := disk }, .ok ())

/-- SQLite changes the files of the database at `l`. -/
def Storage.rewrite (st : Storage δ ρ β) (l : Loc δ) (f : β → Option β → β × Option β) :
    Storage δ ρ β :=
  match st.disk l with
  | some (.file m) =>
      let files := f m (st.disk.bytes (l.suffix walSuffix))
      { st with
        disk := (st.disk.put l (some (.file files.1))).put (l.suffix walSuffix)
          (files.2.map Node.file) }
  | some (.link r) =>
      { st with
        elsewhere := Function.update st.elsewhere r
          ((st.elsewhere r).map (fun p => f p.1 p.2)) }
  | _ => st

/-- Whether SQLite can open the database at `l`: a log that is no file stops it. -/
def Storage.opens (st : Storage δ ρ β) (l : Loc δ) : Bool :=
  match st.disk l, st.disk (l.suffix walSuffix) with
  | some .dir, _ => false
  | some (.file _), some (.link _) | some (.file _), some .dir => false
  | _, _ => true

/-- `prepare_existing_database`. -/
def prepareExistingDatabase (st : Storage δ ρ β) (l : Loc δ) (fault : Option (String × ℕ)) :
    Storage δ ρ β × Except String Unit :=
  if !st.pathExists l then (st, .ok ())
  else if !st.opens l then (st, .error (rewriteBusy "unable to open database file"))
  else
    match fault with
    | some (e, n) => (st.rewrite l (S.halted n), .error (rewriteBusy e))
    | none => (st.rewrite l S.idle, .ok ())

/-- `swap_in`. -/
def swapIn (st : Storage δ ρ β) (dirOf : List (List Char) → δ) (tmp target : Path)
    (f : Faults β) : Storage δ ρ β × Except String Unit :=
  andThen (rename st (tmp.locate dirOf) (target.locate dirOf) f.swap) fun st _ =>
    match verify S st dirOf target f.verifyTarget with
    | .error e => (st, .error e)
    | .ok _ => (st, .ok ())

/-- What happens to a failed swap: the target is removed and the original moved back. -/
def undoSwap (st : Storage δ ρ β) (dirOf : List (List Char) → δ) (target : Path)
    (rollback : Option Path) (f : Faults β) (e : String) : Storage δ ρ β × Except String Unit :=
  let st := { st with disk := st.disk.unlink (target.locate dirOf) }
  match rollback with
  | none => (st, .error e)
  | some rollback =>
      andThen (rename st (rollback.locate dirOf) (target.locate dirOf) f.undo) fun st _ =>
        (st, .error e)

/-- The steps up to the point where the original is moved aside. -/
def prepare (st : Storage δ ρ β) (dirOf : List (List Char) → δ) (source target tmp : Path)
    (rollback : Option Path) (f : Faults β) : Storage δ ρ β × Except String Unit :=
  if rollback.any (fun p => (st.disk (p.locate dirOf)).isSome) then
    (st, .error ("rollback file already exists: " ++ ((rollback.map Path.display).getD "")))
  else
    andThen (rmForce st (tmp.locate dirOf) f.tmpRemove) fun st _ =>
    andThen (copyExcl st (source.locate dirOf) (tmp.locate dirOf) f.copy) fun st _ =>
    andThen (attempt st f.chmod) fun st _ =>
    andThen (attempt st f.fsync) fun st _ =>
    andThen (st, verify S st dirOf tmp f.verifyTmp) fun st _ =>
    andThen (prepareExistingDatabase S st (target.locate dirOf) f.idle) fun st _ =>
    andThen (rmForce st ((target.suffix walSuffix).locate dirOf) f.walRemove) fun st _ =>
    rmForce st ((target.suffix shmSuffix).locate dirOf) f.shmRemove

/-- The original is moved aside, and the copy takes its place. -/
def install (st : Storage δ ρ β) (dirOf : List (List Char) → δ) (target tmp : Path)
    (rollback : Option Path) (f : Faults β) : Storage δ ρ β × Except String Unit :=
  andThen
    (match rollback with
    | none => (st, .ok ())
    | some rollback => rename st (target.locate dirOf) (rollback.locate dirOf) f.moveAside)
    fun st _ =>
      match swapIn S st dirOf tmp target f with
      | (st, .ok ()) => (st, .ok ())
      | (st, .error e) => undoSwap st dirOf target rollback f e

structure Outcome where
  dryRun : Bool
  target : Path
  source : Path
  rollbackPath : Option Path
  heartbeats : ℤ

/-- The checks before anything is written: the argument, the backup, and that the two are
not one file. -/
def preview (st : Storage δ ρ β) (dirOf : List (List Char) → δ) (backup : RawPath)
    (target source : Path) (f : Faults β) : Except String ℤ :=
  if backup.isEmpty then .error "backup file is required"
  else
    match verify S st dirOf source f.verifySource with
    | .error e => .error e
    | .ok heartbeats =>
        let a := st.canonicalize (target.locate dirOf)
        let b := st.canonicalize (source.locate dirOf)
        if st.pathExists (target.locate dirOf) && !f.canonicalize && a.isSome && a == b then
          .error "backup file and target database must differ"
        else .ok heartbeats

/-- What the guards of the lock and of the temporary file do when they are dropped. -/
def dropGuards (st : Storage δ ρ β) (dirOf : List (List Char) → δ) (target tmp : Path) :
    Storage δ ρ β :=
  { st with
    disk := (st.disk.unlink (tmp.locate dirOf)).unlink ((target.suffix lockSuffix).locate dirOf) }

/-- `restore_with`, of paths that are absolute already; `pid` is the process and what it
writes into its lock, `stamp` the time in the name of the rollback file. -/
def restoreWith (dirOf : List (List Char) → δ) (pid : ℕ × β) (stamp : List Char)
    (st : Storage δ ρ β) (target source : Path) (backup : RawPath) (confirm : Bool)
    (f : Faults β) : Storage δ ρ β × Except String Outcome :=
  match preview S st dirOf backup target source f with
  | .error e => (st, .error e)
  | .ok heartbeats =>
      if !confirm then (st, .ok ⟨true, target, source, none, heartbeats⟩)
      else
        andThen (attempt st f.mkdir) fun st _ =>
        andThen (acquireMaintenanceLock st dirOf target pid.2 f) fun st _ =>
          let tmp := target.suffix (tmpSuffix pid.1)
          let rollback :=
            if st.pathExists (target.locate dirOf) then some (target.suffix (rollbackSuffix stamp))
            else none
          let (st, result) :=
            andThen (prepare S st dirOf source target tmp rollback f) fun st _ =>
              install S st dirOf target tmp rollback f
          (dropGuards st dirOf target tmp,
            result.map (fun _ => ⟨false, target, source, rollback, heartbeats⟩))

/-- `restore_backup`, with the working directory. -/
def restoreBackup (dirOf : List (List Char) → δ) (pid : ℕ × β) (stamp : List Char)
    (cwd : List (List Char)) (st : Storage δ ρ β) (dbPath backup : RawPath) (confirm : Bool)
    (f : Faults β) : Storage δ ρ β × Except String Outcome :=
  restoreWith S dirOf pid stamp st (absolutize cwd dbPath) (absolutize cwd backup) backup confirm f

end Restore

end Stackhour.Tracker
