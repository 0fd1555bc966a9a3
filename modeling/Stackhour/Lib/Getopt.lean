import Mathlib.Data.List.Basic

/-!
# Options of a command line

The way POSIX utilities read their arguments: elements that begin with a dash are
clusters of option letters, of which the last may take a value, from the rest of
the element or from the next one; the first other element ends the options, and
so does a double dash.
-/

namespace Getopt

/-- The options in the order they are given, and what is left. -/
structure Parsed where
  options : List (Char × Option String)
  operands : List String
deriving DecidableEq

/-- Options that come before what is parsed. -/
def Parsed.behind (os : List (Char × Option String)) (p : Parsed) : Parsed :=
  { p with options := os ++ p.options }

/-- An element that is read as options, or as the end of the options. -/
def OptionLike (e : String) : Prop := ∃ c cs, e.toList = '-' :: c :: cs

instance (e : String) : Decidable (OptionLike e) := by
  unfold OptionLike
  match h : e.toList with
  | [] => exact isFalse (by rintro ⟨c, cs, heq⟩; cases heq)
  | [_] => exact isFalse (by rintro ⟨c, cs, heq⟩; cases heq)
  | d :: c :: cs =>
      exact decidable_of_iff (d = '-') ⟨fun hd => ⟨c, cs, by rw [hd]⟩,
        by rintro ⟨_, _, heq⟩; exact (List.cons.inj heq).1⟩

section

-- the letters that are known, and whether they take a value
variable (takes : Char → Option Bool)

/-- The letters of a cluster, and the one whose value is the next element. -/
def letters : List Char → Option (List (Char × Option String) × Option Char)
  | [] => some ([], none)
  | c :: cs =>
      match takes c with
      | none => none
      | some false => (letters cs).map (fun r => ((c, none) :: r.1, r.2))
      | some true =>
          if cs = [] then some ([], some c) else some ([(c, some (String.ofList cs))], none)

/-- The options and operands of a command line, if it is well formed. -/
def scan : List String → Option Parsed
  | [] => some ⟨[], []⟩
  | e :: rest =>
      match e.toList with
      | '-' :: c :: cs =>
          if e = "--" then some ⟨[], rest⟩
          else
            match letters takes (c :: cs) with
            | none => none
            | some (os, none) => (scan rest).map (Parsed.behind os)
            | some (os, some o) =>
                match rest with
                | [] => none
                | v :: rest => (scan rest).map (Parsed.behind (os ++ [(o, some v)]))
      | _ => some ⟨[], e :: rest⟩

variable {takes} {e : String} {rest : List String} {p : Parsed}

theorem scan_operand (h : ¬ OptionLike e) : scan takes (e :: rest) = some ⟨[], e :: rest⟩ := by
  unfold scan
  split
  · next c cs heq => exact absurd ⟨c, cs, heq⟩ h
  · rfl

/-- There are no more operands than elements, and fewer if the first looks like
an option. -/
theorem operands_length {es : List String} (h : scan takes es = some p) :
    p.operands.length ≤ es.length ∧ (∀ e ∈ es.head?, OptionLike e → p.operands.length < es.length) := by
  have hbehind : ∀ {os : List (Char × Option String)} {x : Option Parsed} {p : Parsed},
      x.map (Parsed.behind os) = some p → ∃ q, x = some q ∧ q.operands = p.operands := by
    intro os x p hx
    obtain ⟨q, hq, rfl⟩ := Option.map_eq_some_iff.mp hx
    exact ⟨q, hq, rfl⟩
  fun_induction scan takes es generalizing p with
  | case1 =>
      cases h
      exact ⟨Nat.le_refl _, by simp⟩
  | case2 rest =>
      cases h
      exact ⟨Nat.le_succ _, fun _ _ _ => Nat.lt_succ_self _⟩
  | case3 => cases h
  | case4 e rest c cs he hend os hletters ih =>
      obtain ⟨q, hq, heq⟩ := hbehind h
      have hlt := Nat.lt_succ_of_le (heq ▸ (ih hq).1)
      exact ⟨Nat.le_of_lt hlt, fun _ _ _ => hlt⟩
  | case5 => cases h
  | case6 e c cs he hend os o hletters v rest ih =>
      obtain ⟨q, hq, heq⟩ := hbehind h
      have hlt := Nat.lt_succ_of_lt (Nat.lt_succ_of_le (heq ▸ (ih hq).1))
      exact ⟨Nat.le_of_lt hlt, fun _ _ _ => hlt⟩
  | case7 e rest hother =>
      cases h
      refine ⟨Nat.le_refl _, ?_⟩
      rintro e' he ⟨c, cs, hlike⟩
      obtain rfl : e = e' := by simpa using he
      exact (hother c cs hlike).elim

/-- An option with its value in the next element. -/
theorem scan_valued {o : Char} (ho : takes o = some true) (hdash : o ≠ '-') (v : String) :
    scan takes (String.ofList ['-', o] :: v :: rest) =
      (scan takes rest).map (Parsed.behind [(o, some v)]) := by
  have hend : String.ofList ['-', o] ≠ "--" := by
    intro heq
    rw [← String.toList_inj, String.toList_ofList] at heq
    simp at heq
    exact hdash heq
  rw [scan]
  simp only [String.toList_ofList, if_neg hend, letters, ho, if_true, List.nil_append]

/-! ## Options in front -/

variable (takes) in
/-- Elements that are read as these options, whatever follows. -/
def Reads (es : List String) (os : List (Char × Option String)) : Prop :=
  ∀ rest, scan takes (es ++ rest) = (scan takes rest).map (Parsed.behind os)

namespace Reads

variable {es es' : List String} {os os' : List (Char × Option String)}

theorem nil : Reads takes [] [] := by
  intro rest
  cases h : scan takes rest <;> simp [h, Parsed.behind]

theorem valued {o : Char} (ho : takes o = some true) (hdash : o ≠ '-') (v : String) :
    Reads takes [String.ofList ['-', o], v] [(o, some v)] := fun _ => scan_valued ho hdash v

theorem append (h : Reads takes es os) (h' : Reads takes es' os') :
    Reads takes (es ++ es') (os ++ os') := by
  intro rest
  rw [List.append_assoc, h, h', Option.map_map]
  refine congrArg (Option.map · _) (funext fun p => ?_)
  simp [Parsed.behind]

theorem scan_operand (h : Reads takes es os) (he : ¬ OptionLike e) :
    scan takes (es ++ e :: rest) = some ⟨os, e :: rest⟩ := by
  rw [h, Getopt.scan_operand he]
  simp [Parsed.behind]

/-- If all elements behind the options are operands, the first of them does not
look like an option. -/
theorem not_optionLike (h : Reads takes es os) (hscan : scan takes (es ++ e :: rest) = some p)
    (hlength : p.operands.length = (e :: rest).length) : ¬ OptionLike e := by
  intro hlike
  rw [h] at hscan
  obtain ⟨q, hq, rfl⟩ := Option.map_eq_some_iff.mp hscan
  have hlt := (operands_length hq).2 e (by simp) hlike
  exact Nat.lt_irrefl _ (hlength ▸ hlt)

end Reads

end

end Getopt
