import Mathlib.Data.Nat.Notation
import Mathlib.Logic.Function.Basic

/-!
# Directory entries

A disk maps the places of directory entries to what stands there: a file with its
bytes, a link, or a directory. Removing and renaming act on the entry itself and never
on what a link leads to.
-/

namespace Files

universe u v w

/-- An entry of a directory. -/
structure Loc (δ : Type u) where
  dir : δ
  name : List Char
deriving DecidableEq

/-- What stands at an entry; `τ` says where a link leads. -/
inductive Node (τ : Type v) (β : Type w) where
  | file (bytes : β)
  | link (target : τ)
  | dir

/-- The entries of all directories. -/
abbrev Disk (δ : Type u) (τ : Type v) (β : Type w) := Loc δ → Option (Node τ β)

variable {δ : Type u} {τ : Type v} {β : Type w}

/-- The entry whose name has a suffix more. -/
def Loc.suffix (l : Loc δ) (s : List Char) : Loc δ := { l with name := l.name ++ s }

theorem Loc.suffix_inj {l : Loc δ} {s t : List Char} (h : l.suffix s = l.suffix t) : s = t :=
  List.append_cancel_left (congrArg Loc.name h)

theorem Loc.suffix_ne {l : Loc δ} {s : List Char} (hs : s ≠ []) : l.suffix s ≠ l := by
  intro h
  have hname : l.name ++ s = l.name := congrArg Loc.name h
  exact hs (List.append_right_eq_self.mp hname)

/-- The bytes of the file at an entry; links are not followed. -/
def Disk.bytes (d : Disk δ τ β) (l : Loc δ) : Option β :=
  match d l with
  | some (.file b) => some b
  | _ => none

/-! ## Following links -/

/-- The links from an entry to the file or directory they lead to, and the entry of that;
no more than `n` links are followed. -/
def Disk.follow (d : Disk δ (Loc δ) β) (n : ℕ) (l : Loc δ) : Option (List (Loc δ) × Loc δ) :=
  match d l, n with
  | none, _ => none
  | some (.link _), 0 => none
  | some (.link target), n + 1 => (d.follow n target).map fun p => (l :: p.1, p.2)
  | some _, _ => some ([], l)

namespace Disk

variable {d d' : Disk δ (Loc δ) β} {n : ℕ} {l : Loc δ} {p : List (Loc δ) × Loc δ}

/-- The inversion of `follow`. -/
theorem follow_cases (h : d.follow n l = some p) :
    (∃ x, d l = some x ∧ (∀ target, x ≠ .link target) ∧ p = ([], l)) ∨
      ∃ m target q, n = m + 1 ∧ d l = some (.link target) ∧ d.follow m target = some q ∧
        p = (l :: q.1, q.2) := by
  rw [follow.eq_def] at h
  rcases hx : d l with _ | (b | target | _)
  · rw [hx] at h
    cases h
  · rw [hx] at h
    exact .inl ⟨_, rfl, nofun, (Option.some.inj h).symm⟩
  · rw [hx] at h
    cases n with
    | zero => cases h
    | succ m =>
        obtain ⟨q, hq, rfl⟩ := Option.map_eq_some_iff.mp h
        exact .inr ⟨m, target, q, rfl, rfl, hq, rfl⟩
  · rw [hx] at h
    exact .inl ⟨_, rfl, nofun, (Option.some.inj h).symm⟩

theorem follow_end {x : Node (Loc δ) β} (hx : d l = some x) (hlink : ∀ target, x ≠ .link target) :
    d.follow n l = some ([], l) := by
  unfold follow
  rw [hx]
  cases x with
  | file b => rfl
  | link target => exact absurd rfl (hlink target)
  | dir => rfl

theorem follow_link {target : Loc δ} (h : d l = some (.link target)) :
    d.follow (n + 1) l = (d.follow n target).map fun p => (l :: p.1, p.2) := by
  rw [follow.eq_def, h]

/-- All that is passed is a link, and what is led to is none. -/
theorem follow_spec (h : d.follow n l = some p) :
    (∀ e ∈ p.1, ∃ target, d e = some (.link target)) ∧
      ∃ x, d p.2 = some x ∧ ∀ target, x ≠ .link target := by
  induction n generalizing l p with
  | zero =>
      rcases follow_cases h with ⟨x, hx, hnot, rfl⟩ | ⟨m, _, _, heq, -⟩
      · exact ⟨nofun, x, hx, hnot⟩
      · cases heq
  | succ n ih =>
      rcases follow_cases h with ⟨x, hx, hnot, rfl⟩ | ⟨m, target, q, heq, hlink, hq, rfl⟩
      · exact ⟨nofun, x, hx, hnot⟩
      · obtain rfl := Nat.succ.inj heq
        obtain ⟨hlinks, hend⟩ := ih hq
        refine ⟨fun e he => ?_, hend⟩
        rcases List.mem_cons.mp he with rfl | he
        · exact ⟨target, hlink⟩
        · exact hlinks e he

/-- Where nothing that is passed changes, the same is led to. -/
theorem follow_congr (h : d.follow n l = some p) (hlinks : ∀ e ∈ p.1, d' e = d e)
    (hend : d' p.2 = d p.2) : d'.follow n l = some p := by
  induction n generalizing l p with
  | zero =>
      rcases follow_cases h with ⟨x, hx, hnot, rfl⟩ | ⟨m, _, _, heq, -⟩
      · exact follow_end (hend.trans hx) hnot
      · cases heq
  | succ n ih =>
      rcases follow_cases h with ⟨x, hx, hnot, rfl⟩ | ⟨m, target, q, heq, hlink, hq, rfl⟩
      · exact follow_end (hend.trans hx) hnot
      · obtain rfl := Nat.succ.inj heq
        rw [follow_link ((hlinks l List.mem_cons_self).trans hlink),
          ih hq (fun e he => hlinks e (List.mem_cons_of_mem _ he)) hend]
        rfl

end Disk

/-! ## Changing entries -/

variable [DecidableEq δ]

/-- Put a node at an entry. -/
def Disk.put (d : Disk δ τ β) (l : Loc δ) (n : Option (Node τ β)) : Disk δ τ β :=
  Function.update d l n

/-- `unlink`: a directory stays. -/
def Disk.unlink (d : Disk δ τ β) (l : Loc δ) : Disk δ τ β :=
  match d l with
  | some .dir => d
  | _ => d.put l none

/-- `open` with `O_CREAT | O_EXCL`, and what is written. -/
def Disk.create (d : Disk δ τ β) (l : Loc δ) (b : β) : Option (Disk δ τ β) :=
  match d l with
  | none => some (d.put l (some (.file b)))
  | some _ => none

/-- `rename` of a file or a link. -/
def Disk.rename (d : Disk δ τ β) (a b : Loc δ) : Option (Disk δ τ β) :=
  match d a with
  | none | some .dir => none
  | some n =>
      match d b with
      | some .dir => none
      | _ => some ((d.put a none).put b (some n))

namespace Disk

variable {d : Disk δ τ β} {l m : Loc δ}

@[simp] theorem put_self (n : Option (Node τ β)) : d.put l n l = n := Function.update_self ..

theorem put_of_ne (h : m ≠ l) (n : Option (Node τ β)) : d.put l n m = d m :=
  Function.update_of_ne h ..

theorem bytes_put_file (o : Option β) : (d.put l (o.map Node.file)).bytes l = o := by
  unfold bytes
  rw [put_self]
  cases o <;> rfl

theorem unlink_dir (h : d l = some .dir) : d.unlink l = d := by
  unfold unlink
  rw [h]

theorem unlink_eq (h : d l ≠ some .dir) : d.unlink l = d.put l none := by
  unfold unlink
  rcases hn : d l with _ | (_ | _ | _)
  · rfl
  · rfl
  · rfl
  · exact absurd hn h

theorem unlink_of_ne (h : m ≠ l) : d.unlink l m = d m := by
  by_cases hdir : d l = some .dir
  · rw [unlink_dir hdir]
  · rw [unlink_eq hdir, put_of_ne h]

/-- What was removed is gone, unless it is a directory. -/
theorem unlink_self (d : Disk δ τ β) (l : Loc δ) :
    d.unlink l l = none ∨ d.unlink l l = some .dir ∧ d l = some .dir := by
  by_cases hdir : d l = some .dir
  · exact .inr ⟨by rw [unlink_dir hdir, hdir], hdir⟩
  · exact .inl (by rw [unlink_eq hdir, put_self])

theorem unlink_of_none (h : d l = none) : d.unlink l = d := by
  rw [unlink_eq (by rw [h]; exact nofun)]
  funext m
  by_cases hm : m = l
  · rw [hm, put_self, h]
  · exact put_of_ne hm _

theorem unlink_file {b : β} (h : d l = some (.file b)) : d.unlink l l = none := by
  rw [unlink_eq (by rw [h]; exact nofun), put_self]

/-- The inversion of `create`. -/
theorem create_some {b : β} {d' : Disk δ τ β} (h : d.create l b = some d') :
    d l = none ∧ d' = d.put l (some (.file b)) := by
  unfold create at h
  split at h
  · next hnone => exact ⟨hnone, (Option.some.inj h).symm⟩
  · cases h

/-- The inversion of `rename`. -/
theorem rename_some {d' : Disk δ τ β} (h : d.rename l m = some d') :
    ∃ n, d l = some n ∧ n ≠ .dir ∧ d m ≠ some .dir ∧ d' = (d.put l none).put m (some n) := by
  unfold rename at h
  split at h
  · cases h
  · cases h
  · next n hdir hn =>
      split at h
      · cases h
      · next hm =>
          exact ⟨n, hn, fun heq => hdir heq, fun heq => hm heq, (Option.some.inj h).symm⟩

end Disk

end Files
