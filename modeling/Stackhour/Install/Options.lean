import Stackhour.Core.Text

/-!
# The options of the installer

Three scanners walk the arguments of `control install`: one rejects what is not
an option, and two read them, each for itself. The arguments are cut into tokens
as the checker goes through them, with the place of each, so that what a reader
takes from a place can be compared with what the checker took there.
-/

namespace Stackhour.Install

open Core

/-! ## The readers -/

/-- The way an option is written. -/
def dashed (name : String) : String := "--" ++ name

/-- The loop of `option`. -/
def optionFrom (name : String) (found : Option String) : List String → Option String
  | [] => found
  | arg :: rest =>
      if arg = dashed name then
        match rest with
        | [] => found
        | value :: rest => optionFrom name (some value) rest
      else
        match stripPrefix (dashed name ++ "=") arg with
        | some value => optionFrom name (some value) rest
        | none => optionFrom name found rest

/-- A value that is not blank. -/
def nonBlank (value : Option String) : Option String :=
  value.filter (fun value => !(trim value.toList).isEmpty)

/-- `option`. -/
def option (args : List String) (name : String) : Option String :=
  nonBlank (optionFrom name none args)

/-- `flag`. -/
def flag (args : List String) (name : String) : Bool := args.any (fun arg => arg == dashed name)

/-! ## The checker -/

/-- The name that the checker takes from an argument. -/
def optionName (arg : String) : String :=
  String.ofList ((trimStartMatches "--".toList arg.length arg.toList).takeWhile (· ≠ '='))

def hasEquals (arg : String) : Bool := arg.toList.contains '='

/-- `reject_unknown`. -/
def rejectUnknown (allowed : List String) : List String → Except String Unit
  | [] => .ok ()
  | arg :: rest =>
      if !"--".toList.isPrefixOf arg.toList then .error ("unexpected argument: " ++ arg)
      else
        let name := optionName arg
        if !allowed.contains name then .error ("unknown option: --" ++ name)
        else if !hasEquals arg && name != "no-start" then
          match rest with
          | [] => .error ("--" ++ name ++ " needs a value")
          | _ :: rest => rejectUnknown allowed rest
        else rejectUnknown allowed rest

/-- The options of `install_hub`, `install_node` and `install_ssh`. -/
def hubOptions : List String :=
  ["bind", "db", "public-url", "node-token", "client-token", "no-start"]

def nodeOptions : List String :=
  ["hub-url", "id", "token", "workspace", "claude-bin", "codex-bin", "no-start"]

def sshOptions : List String :=
  ["host", "user", "port", "identity", "hub-url", "id", "token", "workspace", "claude-bin",
    "codex-bin"]

/-! ## Tokens -/

/-- What the checker takes at the place `i`: the flag, an option with its value in
the same argument, or an option with the next argument for its value. -/
inductive Token where
  | flag (i : ℕ) (arg : String)
  | joined (i : ℕ) (arg name value : String)
  | spaced (i : ℕ) (arg name value : String)
deriving DecidableEq

/-- What stands behind the first equals sign. -/
def afterEquals (arg : String) : String :=
  String.ofList (arg.toList.dropWhile (· ≠ '=')).tail

/-- The checker, with what it takes from place `i` on. -/
def tokenize (allowed : List String) (i : ℕ) : List String → Except String (List Token)
  | [] => .ok []
  | arg :: rest =>
      if !"--".toList.isPrefixOf arg.toList then .error ("unexpected argument: " ++ arg)
      else
        let name := optionName arg
        if !allowed.contains name then .error ("unknown option: --" ++ name)
        else if hasEquals arg then
          (tokenize allowed (i + 1) rest).map (.joined i arg name (afterEquals arg) :: ·)
        else if name = "no-start" then
          (tokenize allowed (i + 1) rest).map (.flag i arg :: ·)
        else
          match rest with
          | [] => .error ("--" ++ name ++ " needs a value")
          | value :: rest => (tokenize allowed (i + 2) rest).map (.spaced i arg name value :: ·)

/-- The tokens are those of the checker. -/
theorem rejectUnknown_eq (allowed : List String) (i : ℕ) (args : List String) :
    rejectUnknown allowed args = (tokenize allowed i args).map (fun _ => ()) := by
  have hmap : ∀ (x : Except String (List Token)) (t : Token),
      (x.map (t :: ·)).map (fun _ => ()) = x.map (fun _ => ()) := by
    rintro (e | ts) t <;> rfl
  induction hn : args.length using Nat.strong_induction_on generalizing i args with
  | h n ih =>
      cases args with
      | nil => rfl
      | cons arg rest =>
          have hrest := fun i => ih rest.length (by simp at hn; omega) i rest rfl
          unfold rejectUnknown tokenize
          split
          · rfl
          dsimp only
          split
          · rfl
          cases heq : hasEquals arg with
          | true => simp [hrest (i + 1), hmap]
          | false =>
              by_cases hflag : optionName arg = "no-start"
              · simp [hflag, hrest (i + 1), hmap]
              · cases rest with
                | nil => simp [hflag, Except.map]
                | cons value rest =>
                    simp [hflag, hmap, ih rest.length (by simp at hn; omega) (i + 2) rest rfl]

/-- The arguments from place `i` on are cut into tokens. -/
inductive Cuts (allowed : List String) : ℕ → List String → List Token → Prop
  | nil (i : ℕ) : Cuts allowed i [] []
  | joined {i : ℕ} {arg : String} {rest : List String} {ts : List Token}
      (hname : optionName arg ∈ allowed) (heq : hasEquals arg = true)
      (h : Cuts allowed (i + 1) rest ts) :
      Cuts allowed i (arg :: rest) (.joined i arg (optionName arg) (afterEquals arg) :: ts)
  | flag {i : ℕ} {arg : String} {rest : List String} {ts : List Token}
      (heq : hasEquals arg = false) (hname : optionName arg = "no-start")
      (h : Cuts allowed (i + 1) rest ts) : Cuts allowed i (arg :: rest) (.flag i arg :: ts)
  | spaced {i : ℕ} {arg value : String} {rest : List String} {ts : List Token}
      (hname : optionName arg ∈ allowed) (heq : hasEquals arg = false)
      (hflag : optionName arg ≠ "no-start") (h : Cuts allowed (i + 2) rest ts) :
      Cuts allowed i (arg :: value :: rest) (.spaced i arg (optionName arg) value :: ts)

theorem map_eq_ok {x : Except String (List Token)} {t : Token} {ts : List Token}
    (h : x.map (t :: ·) = .ok ts) : ∃ rest, x = .ok rest ∧ ts = t :: rest := by
  cases x with
  | error e => cases h
  | ok rest => exact ⟨rest, rfl, (Except.ok.inj h).symm⟩

theorem cuts_of_tokenize {allowed : List String} {i : ℕ} {args : List String} {ts : List Token}
    (h : tokenize allowed i args = .ok ts) : Cuts allowed i args ts := by
  induction hn : args.length using Nat.strong_induction_on generalizing i args ts with
  | h n ih =>
      cases args with
      | nil =>
          cases h
          exact .nil i
      | cons arg rest =>
          have hlength : rest.length < n := by
            rw [← hn]
            exact Nat.lt_succ_self _
          unfold tokenize at h
          split at h
          · cases h
          dsimp only at h
          split at h
          · cases h
          next hallowed =>
          have hname : optionName arg ∈ allowed := by simpa using hallowed
          cases heq : hasEquals arg with
          | true =>
              rw [heq, if_pos rfl] at h
              obtain ⟨ts', hrest, rfl⟩ := map_eq_ok h
              exact .joined hname heq (ih _ hlength hrest rfl)
          | false =>
              rw [heq, if_neg Bool.false_ne_true] at h
              split at h
              · next hflag =>
                  obtain ⟨ts', hrest, rfl⟩ := map_eq_ok h
                  exact .flag heq hflag (ih _ hlength hrest rfl)
              · next hflag =>
                  cases rest with
                  | nil => cases h
                  | cons value rest =>
                      obtain ⟨ts', hrest, rfl⟩ := map_eq_ok h
                      exact .spaced hname heq hflag
                        (ih _ (Nat.lt_of_succ_lt hlength) hrest rfl)

/-! ## What the readers take -/

/-- The places from `i` on at which `option` takes a value, with the value. -/
def optionReads (name : String) (i : ℕ) : List String → List (ℕ × String)
  | [] => []
  | arg :: rest =>
      if arg = dashed name then
        match rest with
        | [] => []
        | value :: rest => (i, value) :: optionReads name (i + 2) rest
      else
        match stripPrefix (dashed name ++ "=") arg with
        | some value => (i, value) :: optionReads name (i + 1) rest
        | none => optionReads name (i + 1) rest

/-- The places from `i` on that `flag` takes for the flag. -/
def flagReads (name : String) (i : ℕ) : List String → List ℕ
  | [] => []
  | arg :: rest =>
      if arg = dashed name then i :: flagReads name (i + 1) rest else flagReads name (i + 1) rest

theorem optionFrom_eq (name : String) (found : Option String) (i : ℕ) (args : List String) :
    optionFrom name found args = (((optionReads name i args).getLast?).map Prod.snd).or found := by
  have hlast : ∀ (r : ℕ × String) (rs : List (ℕ × String)) (found : Option String),
      (((r :: rs).getLast?).map Prod.snd).or found = ((rs.getLast?).map Prod.snd).or (some r.2) := by
    intro r rs found
    cases rs with
    | nil => rfl
    | cons r' rs =>
        rw [List.getLast?_cons_cons]
        cases hrs : (r' :: rs).getLast? with
        | none => simp at hrs
        | some r'' => rfl
  induction hn : args.length using Nat.strong_induction_on generalizing found i args with
  | h n ih =>
      cases args with
      | nil => rfl
      | cons arg rest =>
          have hlength : rest.length < n := by
            rw [← hn]
            exact Nat.lt_succ_self _
          unfold optionFrom optionReads
          split
          · cases rest with
            | nil => rfl
            | cons value rest =>
                dsimp only
                rw [ih _ (Nat.lt_of_succ_lt hlength) (some value) (i + 2) rest rfl, hlast]
          · cases stripPrefix (dashed name ++ "=") arg with
            | some value =>
                dsimp only
                rw [ih _ hlength (some value) (i + 1) rest rfl, hlast]
            | none => exact ih _ hlength found (i + 1) rest rfl

/-- The value that `option` returns is the last one it takes. -/
theorem option_eq (args : List String) (name : String) :
    option args name = nonBlank (((optionReads name 0 args).getLast?).map Prod.snd) := by
  unfold option
  rw [optionFrom_eq name none 0, Option.or_none]

theorem flag_eq (args : List String) (name : String) (i : ℕ) :
    flag args name = true ↔ ∃ k, k ∈ flagReads name i args := by
  unfold flag
  induction args generalizing i with
  | nil => simp [flagReads]
  | cons arg rest ih =>
      rw [List.any_cons, Bool.or_eq_true, ih (i + 1), beq_iff_eq, flagReads]
      by_cases heq : arg = dashed name
      · rw [if_pos heq]
        exact ⟨fun _ => ⟨i, List.mem_cons_self⟩, fun _ => .inl heq⟩
      · rw [if_neg heq]
        exact ⟨fun h => h.resolve_left heq, .inr⟩

/-! ## The property and its condition -/

namespace Token

/-- A token of the arguments from place `start` on. -/
def Within (allowed : List String) (start : ℕ) : Token → Prop
  | .flag i _ => start ≤ i
  | .joined i _ name _ | .spaced i _ name _ => start ≤ i ∧ name ∈ allowed

theorem Within.mono {allowed : List String} {start start' : ℕ} {t : Token}
    (h : t.Within allowed start') (hle : start ≤ start') : t.Within allowed start := by
  cases t with
  | flag i arg => exact hle.trans h
  | joined i arg name value => exact ⟨hle.trans h.1, h.2⟩
  | spaced i arg name value => exact ⟨hle.trans h.1, h.2⟩

/-- The value that a token assigns to an option. -/
def valueOf (name : String) : Token → Option String
  | .flag .. => none
  | .joined _ _ n value | .spaced _ _ n value => if n = name then some value else none

/-- A reader of the arguments from place `start` on takes the token for what the
checker took it. -/
def Heard (start : ℕ) (args : List String) : Token → Prop
  | .flag i _ => i ∈ flagReads "no-start" start args
  | .joined i _ name value | .spaced i _ name value =>
      name ≠ "no-start" ∧ (i, value) ∈ optionReads name start args

/-- No reader takes the next argument for the flag or for an option, if it is the
value of the token. -/
def Unread (allowed : List String) (start : ℕ) (args : List String) : Token → Prop
  | .spaced i _ _ _ => i + 1 ∉ flagReads "no-start" start args ∧
      ∀ other ∈ allowed, other ≠ "no-start" → ∀ v, (i + 1, v) ∉ optionReads other start args
  | _ => True

/-- A token is written with one pair of dashes, the flag without a value; and the
argument that is a value is not the flag and is not another option, unless that
option would be left without a value. -/
def Plain (allowed : List String) (count : ℕ) : Token → Prop
  | .flag _ arg => arg = dashed "no-start"
  | .joined _ arg name value => name ≠ "no-start" ∧ arg = dashed name ++ "=" ++ value
  | .spaced i arg name value => arg = dashed name ∧ value ≠ dashed "no-start" ∧
      ∀ other ∈ allowed, other ≠ "no-start" → other ≠ name →
        (value = dashed other → i + 2 = count) ∧ stripPrefix (dashed other ++ "=") value = none

end Token

/-- **The readers agree with the checker.** -/
structure ReadersAgree (allowed args : List String) (ts : List Token) : Prop where
  option : ∀ name ∈ allowed, name ≠ "no-start" →
    option args name = nonBlank ((ts.filterMap (Token.valueOf name)).getLast?)
  flag : flag args "no-start" = true ↔ ∃ i arg, .flag i arg ∈ ts
  heard : ∀ t ∈ ts, t.Heard 0 args
  unread : ∀ t ∈ ts, t.Unread allowed 0 args

/-! ## Arguments that are written plainly -/

theorem dashed_inj {a b : String} : dashed a = dashed b ↔ a = b := by
  unfold dashed
  constructor
  · intro h
    rw [← String.toList_inj, String.toList_append, String.toList_append] at h
    exact String.toList_inj.mp (List.append_cancel_left h)
  · rintro rfl
    rfl

theorem equals_not_mem_optionName (arg : String) : '=' ∉ (optionName arg).toList := by
  unfold optionName
  rw [String.toList_ofList]
  intro hmem
  have hkept := List.mem_takeWhile_imp hmem
  simp at hkept

theorem hasEquals_dashed {name : String} (h : '=' ∉ name.toList) : hasEquals (dashed name) = false := by
  unfold hasEquals dashed
  rw [String.toList_append]
  simp [h]

theorem joined_toList (name value : String) :
    (dashed name ++ "=" ++ value).toList = '-' :: '-' :: (name.toList ++ '=' :: value.toList) := by
  simp [dashed]

theorem joined_inj {n m v w : String} (hn : '=' ∉ n.toList) (hm : '=' ∉ m.toList) :
    dashed n ++ "=" ++ v = dashed m ++ "=" ++ w ↔ n = m ∧ v = w := by
  constructor
  · intro h
    rw [← String.toList_inj, joined_toList, joined_toList] at h
    have htail := List.tail_eq_of_cons_eq (List.tail_eq_of_cons_eq h)
    obtain ⟨hname, hvalue⟩ := cut_unique hn hm htail
    exact ⟨String.toList_inj.mp hname, String.toList_inj.mp hvalue⟩
  · rintro ⟨rfl, rfl⟩
    rfl

theorem hasEquals_joined (name value : String) : hasEquals (dashed name ++ "=" ++ value) = true := by
  unfold hasEquals
  rw [joined_toList]
  simp

/-- An argument without an equals sign is not an option with its value. -/
theorem stripPrefix_of_hasEquals {arg name : String} (h : hasEquals arg = false) :
    stripPrefix (dashed name ++ "=") arg = none := by
  rw [Option.eq_none_iff_forall_ne_some]
  intro v hv
  rw [stripPrefix_eq_some.mp hv, hasEquals_joined] at h
  cases h

/-! ### One token -/

variable {allowed : List String} {other name value arg : String} {i : ℕ} {rest : List String}

theorem optionReads_exact :
    optionReads name i (dashed name :: value :: rest) = (i, value) :: optionReads name (i + 2) rest := by
  simp [optionReads]

theorem optionReads_last : optionReads name i [dashed name] = [] := by
  simp [optionReads]

theorem optionReads_of_ne (h : arg ≠ dashed name) :
    optionReads name i (arg :: rest) =
      (stripPrefix (dashed name ++ "=") arg).toList.map (fun value => (i, value)) ++
        optionReads name (i + 1) rest := by
  cases rest <;> cases hs : stripPrefix (dashed name ++ "=") arg <;> simp [optionReads, h, hs]

theorem optionReads_joined (ho : '=' ∉ other.toList) (hn : '=' ∉ name.toList) :
    optionReads other i ((dashed name ++ "=" ++ value) :: rest) =
      (if name = other then [(i, value)] else []) ++ optionReads other (i + 1) rest := by
  have hexact : dashed name ++ "=" ++ value ≠ dashed other := by
    intro heq
    have hhas := hasEquals_joined name value
    rw [heq, hasEquals_dashed ho] at hhas
    cases hhas
  rw [optionReads_of_ne hexact]
  by_cases hsame : name = other
  · subst hsame
    rw [stripPrefix_eq_some.mpr rfl, if_pos rfl]
    rfl
  · have hnone : stripPrefix (dashed other ++ "=") (dashed name ++ "=" ++ value) = none := by
      rw [Option.eq_none_iff_forall_ne_some]
      intro v hv
      exact hsame ((joined_inj hn ho).mp (stripPrefix_eq_some.mp hv)).1
    rw [hnone, if_neg hsame]
    rfl

theorem optionReads_flag (ho : other ≠ "no-start") :
    optionReads other i (dashed "no-start" :: rest) = optionReads other (i + 1) rest := by
  have hexact : dashed "no-start" ≠ dashed other := fun heq => ho (dashed_inj.mp heq).symm
  have hequals : hasEquals (dashed "no-start") = false := hasEquals_dashed (by decide)
  rw [optionReads_of_ne hexact, stripPrefix_of_hasEquals hequals]
  rfl

theorem optionReads_spaced (hn : '=' ∉ name.toList)
    (hvalue : other ≠ name → (value = dashed other → rest = []) ∧
      stripPrefix (dashed other ++ "=") value = none) :
    optionReads other i (dashed name :: value :: rest) =
      (if name = other then [(i, value)] else []) ++ optionReads other (i + 2) rest := by
  by_cases hsame : name = other
  · subst hsame
    rw [optionReads_exact, if_pos rfl]
    rfl
  · obtain ⟨hlast, hnone⟩ := hvalue (Ne.symm hsame)
    have hexact : dashed name ≠ dashed other := fun heq => hsame (dashed_inj.mp heq)
    rw [optionReads_of_ne hexact, stripPrefix_of_hasEquals (hasEquals_dashed hn), if_neg hsame]
    show optionReads other (i + 1) (value :: rest) = optionReads other (i + 2) rest
    by_cases hvalue : value = dashed other
    · rw [hlast hvalue, hvalue, optionReads_last]
      rfl
    · rw [optionReads_of_ne hvalue, hnone]
      rfl

/-- An argument that is read as an option is written as one. -/
theorem optionReads_here {v : String} (h : (i, v) ∈ optionReads name i (arg :: rest))
    (hlater : ∀ v, (i, v) ∉ optionReads name (i + 1) rest) :
    arg = dashed name ∨ arg = dashed name ++ "=" ++ v := by
  by_cases hexact : arg = dashed name
  · exact .inl hexact
  · rw [optionReads_of_ne hexact] at h
    rcases List.mem_append.mp h with hmem | hmem
    · obtain ⟨w, hw, heq⟩ := List.mem_map.mp hmem
      obtain rfl : w = v := (Prod.mk.inj heq).2
      exact .inr (stripPrefix_eq_some.mp (Option.mem_toList.mp hw))
    · exact absurd hmem (hlater v)

/-- What is read stands at the places from `i` on. -/
theorem optionReads_ge {args : List String} {k : ℕ} {v : String}
    (h : (k, v) ∈ optionReads name i args) : i ≤ k := by
  induction hn : args.length using Nat.strong_induction_on generalizing i args with
  | h n ih =>
      match args, hn with
      | [], _ => cases h
      | arg :: rest, hn =>
          have hlength : rest.length < n := by
            rw [← hn]
            exact Nat.lt_succ_self _
          by_cases hexact : arg = dashed name
          · subst hexact
            match rest, hlength with
            | [], _ =>
                rw [optionReads_last] at h
                cases h
            | value :: rest, hlength =>
                rw [optionReads_exact] at h
                rcases List.mem_cons.mp h with heq | hmem
                · exact (Prod.mk.inj heq).1.ge
                · exact Nat.le_of_add_right_le (ih _ (Nat.lt_of_succ_lt hlength) hmem rfl)
          · rw [optionReads_of_ne hexact] at h
            rcases List.mem_append.mp h with hmem | hmem
            · obtain ⟨w, -, heq⟩ := List.mem_map.mp hmem
              exact (Prod.mk.inj heq).1.le
            · exact Nat.le_of_succ_le (ih _ hlength hmem rfl)

theorem flagReads_ge {args : List String} {k : ℕ} (h : k ∈ flagReads name i args) : i ≤ k := by
  induction args generalizing i with
  | nil => cases h
  | cons arg rest ih =>
      rw [flagReads] at h
      split at h
      · rcases List.mem_cons.mp h with rfl | hmem
        · exact le_refl _
        · exact Nat.le_of_succ_le (ih hmem)
      · exact Nat.le_of_succ_le (ih h)

/-! ### All tokens -/

variable {args : List String} {ts : List Token} {j : ℕ}

theorem Cuts.within (h : Cuts allowed i args ts) : ∀ t ∈ ts, t.Within allowed i := by
  induction h with
  | nil i => simp
  | joined hname heq h ih =>
      rintro t (_ | ⟨_, ht⟩)
      · exact ⟨le_refl _, hname⟩
      · exact (ih t ht).mono (Nat.le_succ _)
  | flag heq hname h ih =>
      rintro t (_ | ⟨_, ht⟩)
      · exact le_refl _
      · exact (ih t ht).mono (Nat.le_succ _)
  | spaced hname heq hflag h ih =>
      rintro t (_ | ⟨_, ht⟩)
      · exact ⟨le_refl _, hname⟩
      · exact (ih t ht).mono (Nat.le_add_right _ 2)

/-- Behind its first token, the readers go on with what is left. -/
structure Follows (allowed : List String) (i : ℕ) (args : List String) (j : ℕ)
    (rest : List String) : Prop where
  option : ∀ other ∈ allowed, other ≠ "no-start" → ∀ k, i < k → ∀ v,
    (k, v) ∈ optionReads other i args ↔ (k, v) ∈ optionReads other j rest
  flag : ∀ k, i < k → (k ∈ flagReads "no-start" i args ↔ k ∈ flagReads "no-start" j rest)

theorem mem_reads_later {k : ℕ} {v w : String} {b : Prop} [Decidable b] {later : List (ℕ × String)}
    (hk : i < k) : (k, v) ∈ (if b then [(i, w)] else []) ++ later ↔ (k, v) ∈ later := by
  rw [List.mem_append, or_iff_right]
  split
  · intro hmem
    exact absurd (Prod.mk.inj (List.mem_singleton.mp hmem)).1 hk.ne'
  · exact List.not_mem_nil

theorem mem_flagReads_later {k : ℕ} (hk : i < k) :
    k ∈ flagReads "no-start" i (arg :: rest) ↔ k ∈ flagReads "no-start" (i + 1) rest := by
  rw [flagReads]
  split
  · rw [List.mem_cons, or_iff_right hk.ne']
  · rfl

namespace Follows

theorem joined (hallowed : ∀ n ∈ allowed, '=' ∉ n.toList) (hn : '=' ∉ name.toList) :
    Follows allowed i ((dashed name ++ "=" ++ value) :: rest) (i + 1) rest where
  option other ho _ k hk v := by
    rw [optionReads_joined (hallowed other ho) hn]
    exact mem_reads_later hk
  flag k hk := mem_flagReads_later hk

theorem flagged : Follows allowed i (dashed "no-start" :: rest) (i + 1) rest where
  option other _ hne k hk v := by rw [optionReads_flag hne]
  flag k hk := mem_flagReads_later hk

theorem spaced (hn : '=' ∉ name.toList) (hplain : (Token.spaced i arg name value).Plain allowed
    (i + (arg :: value :: rest).length)) :
    Follows allowed i (arg :: value :: rest) (i + 2) rest where
  option other ho hne k hk v := by
    obtain ⟨rfl, -, hvalue⟩ := hplain
    rw [optionReads_spaced hn fun hother => ⟨fun heq => ?_, (hvalue other ho hne hother).2⟩]
    · exact mem_reads_later hk
    · have hcount := (hvalue other ho hne hother).1 heq
      exact List.length_eq_zero_iff.mp (by simpa using hcount.symm)
  flag k hk := by
    rw [mem_flagReads_later hk, flagReads, if_neg hplain.2.1]

/-- Nothing changes for the tokens of what is left. -/
theorem agrees (hf : Follows allowed i args j rest) (hj : i < j) {t : Token}
    (ht : t.Within allowed j) :
    (t.Heard i args ∧ t.Unread allowed i args) ↔ t.Heard j rest ∧ t.Unread allowed j rest := by
  cases t with
  | flag k arg => exact and_congr (hf.flag k (hj.trans_le ht)) Iff.rfl
  | joined k arg name value =>
      refine and_congr (and_congr_right fun hne => ?_) Iff.rfl
      exact hf.option name ht.2 hne k (hj.trans_le ht.1) value
  | spaced k arg name value =>
      have hk : i < k + 1 := (hj.trans_le ht.1).trans (Nat.lt_succ_self k)
      refine and_congr (and_congr_right fun hne => ?_) (and_congr ?_ ?_)
      · exact hf.option name ht.2 hne k (hj.trans_le ht.1) value
      · exact not_congr (hf.flag (k + 1) hk)
      · constructor
        · intro h other ho hne v hmem
          exact h other ho hne v ((hf.option other ho hne (k + 1) hk v).mpr hmem)
        · intro h other ho hne v hmem
          exact h other ho hne v ((hf.option other ho hne (k + 1) hk v).mp hmem)

end Follows

theorem optionReads_after {k : ℕ} {v : String} (hk : k < j) : (k, v) ∉ optionReads name j args :=
  fun hmem => absurd (optionReads_ge hmem) (Nat.not_le_of_lt hk)

/-! ### What is heard is written plainly -/

theorem agrees_flag {count : ℕ} :
    ((Token.flag i arg).Heard i (arg :: rest) ∧
        (Token.flag i arg).Unread allowed i (arg :: rest)) ↔
      (Token.flag i arg).Plain allowed count := by
  refine (and_iff_left trivial).trans ?_
  show i ∈ flagReads "no-start" i (arg :: rest) ↔ arg = dashed "no-start"
  rw [flagReads]
  split
  · next heq => exact ⟨fun _ => heq, fun _ => List.mem_cons_self⟩
  · next hne =>
      refine ⟨fun hmem => absurd (flagReads_ge hmem) (Nat.not_succ_le_self i), fun h => absurd h hne⟩

theorem agrees_joined {count : ℕ} (hn : '=' ∉ name.toList) (heq : hasEquals arg = true) :
    ((Token.joined i arg name value).Heard i (arg :: rest) ∧
        (Token.joined i arg name value).Unread allowed i (arg :: rest)) ↔
      (Token.joined i arg name value).Plain allowed count := by
  refine (and_iff_left trivial).trans (and_congr_right fun _ => ⟨fun hmem => ?_, ?_⟩)
  · refine (optionReads_here hmem fun v => optionReads_after (Nat.lt_succ_self i)).resolve_left ?_
    rintro rfl
    rw [hasEquals_dashed hn] at heq
    cases heq
  · rintro rfl
    rw [optionReads_joined hn hn, if_pos rfl]
    exact List.mem_cons_self

/-- An option with its value behind it is heard, and its value is not read, if it
is written as it should be. -/
theorem agrees_spaced (hallowed : ∀ n ∈ allowed, '=' ∉ n.toList) (hn : '=' ∉ name.toList)
    (heq : hasEquals arg = false) (hne : name ≠ "no-start") :
    ((Token.spaced i arg name value).Heard i (arg :: value :: rest) ∧
        (Token.spaced i arg name value).Unread allowed i (arg :: value :: rest)) ↔
      (Token.spaced i arg name value).Plain allowed (i + (arg :: value :: rest).length) := by
  constructor
  · rintro ⟨⟨-, hmem⟩, hflag, hother⟩
    have hwritten := (optionReads_here hmem fun v => optionReads_after (Nat.lt_succ_self i)).resolve_right
      (fun hjoined => by
        rw [hjoined, hasEquals_joined] at heq
        cases heq)
    subst hwritten
    refine ⟨rfl, ?_, fun other ho hone hon => ?_⟩
    · rintro rfl
      refine hflag ((mem_flagReads_later (Nat.lt_succ_self i)).mpr ?_)
      rw [flagReads, if_pos rfl]
      exact List.mem_cons_self
    · -- the scan of another option comes to the value
      have hreads : optionReads other i (dashed name :: value :: rest) =
          optionReads other (i + 1) (value :: rest) := by
        rw [optionReads_of_ne fun h => hon (dashed_inj.mp h).symm,
          stripPrefix_of_hasEquals (hasEquals_dashed hn)]
        rfl
      have hnone := hother other ho hone
      rw [hreads] at hnone
      constructor
      · rintro rfl
        cases rest with
        | nil => rfl
        | cons v rest =>
            refine absurd ?_ (hnone v)
            rw [optionReads_exact]
            exact List.mem_cons_self
      · rw [Option.eq_none_iff_forall_ne_some]
        intro v hv
        refine hnone v ?_
        have hexact : value ≠ dashed other := by
          rintro rfl
          rw [stripPrefix_of_hasEquals (hasEquals_dashed (hallowed other ho))] at hv
          cases hv
        rw [optionReads_of_ne hexact, hv]
        exact List.mem_append_left _ (List.mem_singleton_self _)
  · intro hplain
    have hfollows := Follows.spaced hn hplain
    refine ⟨⟨hne, ?_⟩, fun hmem => ?_, fun other ho hone v hmem => ?_⟩
    · obtain ⟨rfl, -⟩ := hplain
      rw [optionReads_spaced hn fun h => absurd rfl h, if_pos rfl]
      exact List.mem_cons_self
    · have hlater := (hfollows.flag (i + 1) (Nat.lt_succ_self i)).mp hmem
      exact absurd (flagReads_ge hlater) (Nat.not_succ_le_self (i + 1))
    · have hlater := (hfollows.option other ho hone (i + 1) (Nat.lt_succ_self i) v).mp hmem
      exact optionReads_after (Nat.lt_succ_self (i + 1)) hlater

/-- **The readers take the tokens for what they are if and only if the arguments
are written plainly.** -/
theorem agrees_iff_plain (hallowed : ∀ n ∈ allowed, '=' ∉ n.toList) (h : Cuts allowed i args ts) :
    (∀ t ∈ ts, t.Heard i args ∧ t.Unread allowed i args) ↔
      ∀ t ∈ ts, t.Plain allowed (i + args.length) := by
  induction h with
  | nil i => simp
  | @joined i arg rest ts hname heq h ih =>
      have hn := equals_not_mem_optionName arg
      have hcount : i + (arg :: rest).length = i + 1 + rest.length := Nat.add_right_comm i _ 1
      rw [List.forall_mem_cons, List.forall_mem_cons, agrees_joined hn heq, hcount, ← ih]
      refine and_congr_right fun hplain => forall₂_congr fun t ht => ?_
      have hfollows := @Follows.joined allowed _ (afterEquals arg) i rest hallowed hn
      rw [← hplain.2] at hfollows
      exact hfollows.agrees (Nat.lt_succ_self i) (h.within t ht)
  | @flag i arg rest ts heq hname h ih =>
      have hcount : i + (arg :: rest).length = i + 1 + rest.length := Nat.add_right_comm i _ 1
      rw [List.forall_mem_cons, List.forall_mem_cons, agrees_flag, hcount, ← ih]
      refine and_congr_right fun hplain => forall₂_congr fun t ht => ?_
      have hfollows := @Follows.flagged allowed i rest
      rw [← show arg = dashed "no-start" from hplain] at hfollows
      exact hfollows.agrees (Nat.lt_succ_self i) (h.within t ht)
  | @spaced i arg value rest ts hname heq hflag h ih =>
      have hn := equals_not_mem_optionName arg
      have hcount : i + (arg :: value :: rest).length = i + 2 + rest.length :=
        Nat.add_right_comm i _ 2
      rw [List.forall_mem_cons, List.forall_mem_cons, agrees_spaced hallowed hn heq hflag, hcount,
        ← ih]
      refine and_congr_right fun hplain => forall₂_congr fun t ht => ?_
      rw [← hcount] at hplain
      exact (Follows.spaced hn hplain).agrees (Nat.lt_add_of_pos_right (Nat.zero_lt_succ 1))
        (h.within t ht)

/-! ### The values -/

/-- The place and the value of a token of an option. -/
def Token.reading (name : String) : Token → Option (ℕ × String)
  | .flag .. => none
  | .joined i _ n value | .spaced i _ n value => if n = name then some (i, value) else none

theorem Token.valueOf_eq (name : String) (t : Token) :
    t.valueOf name = (t.reading name).map Prod.snd := by
  cases t with
  | flag i arg => rfl
  | joined i arg n value => simp only [valueOf, reading]; split <;> rfl
  | spaced i arg n value => simp only [valueOf, reading]; split <;> rfl

/-- Of arguments that are written plainly, the reader of an option takes the
values that the checker assigns to it. -/
theorem optionReads_cuts (hallowed : ∀ n ∈ allowed, '=' ∉ n.toList) (h : Cuts allowed i args ts)
    (hplain : ∀ t ∈ ts, t.Plain allowed (i + args.length)) (ho : other ∈ allowed)
    (hne : other ≠ "no-start") :
    optionReads other i args = ts.filterMap (Token.reading other) := by
  induction h with
  | nil i => rfl
  | @joined i arg rest ts hname heq h ih =>
      have hcount : i + (arg :: rest).length = i + 1 + rest.length := Nat.add_right_comm i _ 1
      rw [List.forall_mem_cons, hcount] at hplain
      obtain ⟨⟨-, hwritten⟩, hrest⟩ := hplain
      have hread := @optionReads_joined other _ (afterEquals arg) i rest (hallowed other ho)
        (equals_not_mem_optionName arg)
      rw [← hwritten, ih hrest] at hread
      rw [hread, List.filterMap_cons]
      simp only [Token.reading]
      split <;> rfl
  | @flag i arg rest ts heq hname h ih =>
      have hcount : i + (arg :: rest).length = i + 1 + rest.length := Nat.add_right_comm i _ 1
      rw [List.forall_mem_cons, hcount] at hplain
      obtain ⟨hwritten, hrest⟩ := hplain
      rw [show arg = dashed "no-start" from hwritten, optionReads_flag hne, ih hrest]
      rfl
  | @spaced i arg value rest ts hname heq hflag h ih =>
      have hcount : i + (arg :: value :: rest).length = i + 2 + rest.length :=
        Nat.add_right_comm i _ 2
      rw [List.forall_mem_cons] at hplain
      obtain ⟨⟨hwritten, -, hvalue⟩, hrest⟩ := hplain
      rw [hcount] at hrest
      have hread := @optionReads_spaced other _ value i rest (equals_not_mem_optionName arg)
        fun hon => ⟨fun hlast => List.length_eq_zero_iff.mp
          (by simpa using ((hvalue other ho hne hon).1 hlast).symm), (hvalue other ho hne hon).2⟩
      rw [← hwritten, ih hrest] at hread
      rw [hread, List.filterMap_cons]
      simp only [Token.reading]
      split <;> rfl

/-- The value that `option` returns is the last one assigned. -/
theorem option_cuts (hallowed : ∀ n ∈ allowed, '=' ∉ n.toList) (h : Cuts allowed 0 args ts)
    (hplain : ∀ t ∈ ts, t.Plain allowed args.length) (ho : other ∈ allowed)
    (hne : other ≠ "no-start") :
    option args other = nonBlank ((ts.filterMap (Token.valueOf other)).getLast?) := by
  have hvalues : ts.filterMap (Token.valueOf other) =
      (ts.filterMap (Token.reading other)).map Prod.snd := by
    rw [List.map_filterMap]
    exact List.filterMap_congr fun t _ => t.valueOf_eq other
  rw [option_eq, hvalues, List.getLast?_map,
    optionReads_cuts hallowed h (by rwa [Nat.zero_add]) ho hne]

/-- A place that is taken for the flag is that of a flag. -/
theorem flag_of_mem (h : Cuts allowed i args ts)
    (hplain : ∀ t ∈ ts, t.Plain allowed (i + args.length)) {k : ℕ}
    (hk : k ∈ flagReads "no-start" i args) : ∃ arg, .flag k arg ∈ ts := by
  induction h with
  | nil i => cases hk
  | @joined i arg rest ts hname heq h ih =>
      have hcount : i + (arg :: rest).length = i + 1 + rest.length := Nat.add_right_comm i _ 1
      rw [List.forall_mem_cons, hcount] at hplain
      have hexact : arg ≠ dashed "no-start" := by
        rintro rfl
        rw [hasEquals_dashed (by decide)] at heq
        cases heq
      rw [flagReads, if_neg hexact] at hk
      obtain ⟨arg', hmem⟩ := ih hplain.2 hk
      exact ⟨arg', List.mem_cons_of_mem _ hmem⟩
  | @flag i arg rest ts heq hname h ih =>
      have hcount : i + (arg :: rest).length = i + 1 + rest.length := Nat.add_right_comm i _ 1
      rw [List.forall_mem_cons, hcount] at hplain
      rw [flagReads, if_pos (show arg = dashed "no-start" from hplain.1)] at hk
      rcases List.mem_cons.mp hk with rfl | hk
      · exact ⟨arg, List.mem_cons_self⟩
      · obtain ⟨arg', hmem⟩ := ih hplain.2 hk
        exact ⟨arg', List.mem_cons_of_mem _ hmem⟩
  | @spaced i arg value rest ts hname heq hflag h ih =>
      have hcount : i + (arg :: value :: rest).length = i + 2 + rest.length :=
        Nat.add_right_comm i _ 2
      rw [List.forall_mem_cons] at hplain
      obtain ⟨⟨hwritten, hvalue, -⟩, hrest⟩ := hplain
      rw [hcount] at hrest
      have hexact : arg ≠ dashed "no-start" := fun h =>
        hflag (dashed_inj.mp (hwritten.symm.trans h))
      rw [flagReads, if_neg hexact, flagReads, if_neg hvalue] at hk
      obtain ⟨arg', hmem⟩ := ih hrest hk
      exact ⟨arg', List.mem_cons_of_mem _ hmem⟩

/-! ## The contract -/

/-- The names of the options have no equals sign. -/
theorem options_named : ∀ allowed ∈ [hubOptions, nodeOptions, sshOptions],
    ∀ n ∈ allowed, '=' ∉ n.toList := by
  decide

/-- **The readers of the options agree with the checker** on the arguments that it
accepts if and only if these are written plainly. -/
theorem readers_agree (hallowed : ∀ n ∈ allowed, '=' ∉ n.toList)
    (haccepted : rejectUnknown allowed args = .ok ()) :
    ∃ ts, tokenize allowed 0 args = .ok ts ∧
      (ReadersAgree allowed args ts ↔ ∀ t ∈ ts, t.Plain allowed args.length) := by
  rw [rejectUnknown_eq allowed 0] at haccepted
  cases hts : tokenize allowed 0 args with
  | error e =>
      rw [hts] at haccepted
      cases haccepted
  | ok ts =>
      have h := cuts_of_tokenize hts
      have hiff := agrees_iff_plain hallowed h
      rw [Nat.zero_add] at hiff
      refine ⟨ts, rfl, fun hagree => hiff.mp fun t ht => ⟨hagree.heard t ht, hagree.unread t ht⟩,
        fun hplain => ?_⟩
      have hheard := hiff.mpr hplain
      refine ⟨fun name hname hne => option_cuts hallowed h hplain hname hne, ?_,
        fun t ht => (hheard t ht).1, fun t ht => (hheard t ht).2⟩
      rw [flag_eq args "no-start" 0]
      constructor
      · rintro ⟨k, hk⟩
        exact ⟨k, flag_of_mem h (by rwa [Nat.zero_add]) hk⟩
      · rintro ⟨k, arg, hmem⟩
        exact ⟨k, (hheard _ hmem).1⟩

theorem readers_agree_node :
    ∃ ts, tokenize nodeOptions 0 ["--hub-url=ws://h", "--token", "secret", "--no-start"] = .ok ts ∧
      (ReadersAgree nodeOptions ["--hub-url=ws://h", "--token", "secret", "--no-start"] ts ↔
        ∀ t ∈ ts, t.Plain nodeOptions 4) :=
  readers_agree (options_named nodeOptions (by decide)) (by decide)

/-- A token that looks like an option sets the id of the node. -/
def idInToken : List String := ["--hub-url=ws://h", "--token", "--id=laptop"]

theorem token_read_as_id :
    rejectUnknown nodeOptions idInToken = .ok () ∧
      ∃ ts, tokenize nodeOptions 0 idInToken = .ok ts ∧ option idInToken "id" = some "laptop" ∧
        ¬ ReadersAgree nodeOptions idInToken ts := by
  refine ⟨by decide, _, rfl, by decide, fun h => ?_⟩
  have hid := h.option "id" (by decide) (by decide)
  revert hid
  decide

end Stackhour.Install
