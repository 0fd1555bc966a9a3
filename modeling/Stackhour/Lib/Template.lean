import Mathlib.Data.List.Find
import Mathlib.Data.List.Infix
import Mathlib.Tactic.Linarith

/-!
# Filling templates by textual replacement

Placeholders are replaced one after the other, each wherever it then stands: also in what
an earlier one has been replaced by. Characters may carry a mark, so that what a value has
brought can be told from what the template has; the placeholder is looked for among the
characters alone.
-/

namespace Template

universe u v

variable {α : Type u} {β : Type v}

/-! ## Patterns and separators -/

section Separators

variable {text : β → α} {p : List α}

/-- A pattern that starts before a character it has not ends before it. -/
theorem prefix_before {c : β} (hc : text c ∉ p) {l r : List β}
    (h : p <+: (l ++ c :: r).map text) : p <+: l.map text := by
  rw [List.map_append] at h
  by_cases hle : p.length ≤ (l.map text).length
  · exact List.prefix_of_prefix_length_le h (List.prefix_append _ _) hle
  · have hlong : l.map text ++ [text c] <+: p := by
      refine List.prefix_of_prefix_length_le ⟨r.map text, ?_⟩ h ?_
      · simp
      · rw [List.length_append, List.length_singleton]
        omega
    exact absurd (hlong.subset (by simp)) hc

theorem infix_sep {c : β} (hc : text c ∉ p) {l r : List β} :
    p <:+: (l ++ c :: r).map text ↔ p <:+: l.map text ∨ p <:+: r.map text := by
  constructor
  · intro h
    induction l with
    | nil =>
        rcases List.infix_cons_iff.mp h with hprefix | hin
        · have hnil := @prefix_before _ _ text p c hc [] r hprefix
          exact .inl hnil.isInfix
        · exact .inr hin
    | cons d l ih =>
        rcases List.infix_cons_iff.mp h with hprefix | hin
        · have hl := @prefix_before _ _ text p c hc (d :: l) r hprefix
          exact .inl hl.isInfix
        · rcases ih hin with hl | hr
          · exact .inl (hl.trans (List.suffix_cons _ _).isInfix)
          · exact .inr hr
  · rintro (⟨a, b, h⟩ | h)
    · refine ⟨a, b ++ text c :: r.map text, ?_⟩
      rw [List.map_append, ← h]
      simp
    · refine h.trans ?_
      rw [List.map_append, List.map_cons]
      exact ((List.suffix_cons _ _).trans (List.suffix_append _ _)).isInfix

end Separators

/-! ## Marks -/

/-- The characters of a value, which are marked. -/
def brought (v : List α) : List (α × Bool) := v.map (fun c => (c, true))

def plain (s : List α) : List (α × Bool) := s.map (fun c => (c, false))

@[simp] theorem map_brought (v : List α) : (brought v).map Prod.fst = v := by
  unfold brought
  rw [List.map_map]
  exact List.map_id v

@[simp] theorem map_plain (s : List α) : (plain s).map Prod.fst = s := by
  unfold plain
  rw [List.map_map]
  exact List.map_id s

theorem plain_unmarked (s : List α) : ∀ c ∈ plain s, c.2 = false := by
  intro c hc
  obtain ⟨d, -, rfl⟩ := List.mem_map.mp hc
  rfl

/-! ## One replacement -/

variable [DecidableEq α]

/-- The scan of a replacement of `p`, which is not empty, by `v`; `skip` characters of the
last match are still to be passed over. -/
def replaceFrom (text : β → α) (p : List α) (v : List β) : (skip : ℕ) → List β → List β
  | _, [] => []
  | k + 1, _ :: rest => replaceFrom text p v k rest
  | 0, c :: rest =>
      if p.isPrefixOf ((c :: rest).map text) then
        v ++ replaceFrom text p v (p.length - 1) rest
      else c :: replaceFrom text p v 0 rest

/-- Every match of `p`, from the left and without overlaps, becomes `v`. -/
def replaceBy (text : β → α) (p : List α) (v : List β) (s : List β) : List β :=
  replaceFrom text p v 0 s

/-- Replacement in a plain text. -/
def replace (p v s : List α) : List α := replaceBy id p v s

variable {text : β → α} {p : List α} {v : List β}

theorem replaceFrom_eq (k : ℕ) (s : List β) :
    replaceFrom text p v k s = replaceBy text p v (s.drop k) := by
  induction k generalizing s with
  | zero => rfl
  | succ k ih =>
      cases s with
      | nil => rfl
      | cons c rest => exact ih rest

@[simp] theorem replaceBy_nil : replaceBy text p v [] = [] := rfl

theorem replaceBy_match (hp : p ≠ []) {b : List β} (hb : b.map text = p) (s : List β) :
    replaceBy text p v (b ++ s) = v ++ replaceBy text p v s := by
  cases b with
  | nil => exact absurd hb.symm hp
  | cons c rest =>
      have hprefix : p.isPrefixOf ((c :: (rest ++ s)).map text) = true := by
        rw [List.isPrefixOf_iff_prefix, ← hb]
        exact ⟨s.map text, by simp⟩
      have hlength : p.length - 1 = rest.length := by
        rw [← hb]
        simp
      show replaceFrom text p v 0 (c :: (rest ++ s)) = _
      rw [replaceFrom, if_pos hprefix, hlength, replaceFrom_eq, List.drop_left]

theorem replaceBy_skip {c : β} {s : List β} (h : ¬ p <+: (c :: s).map text) :
    replaceBy text p v (c :: s) = c :: replaceBy text p v s := by
  have hprefix : ¬ p.isPrefixOf ((c :: s).map text) = true := by
    rw [List.isPrefixOf_iff_prefix]
    exact h
  show replaceFrom text p v 0 (c :: s) = _
  rw [replaceFrom, if_neg hprefix]
  rfl

/-- One character is replaced wherever it stands. -/
theorem replace_singleton (a : α) (v s : List α) :
    replace [a] v s = s.flatMap (fun c => if c = a then v else [c]) := by
  induction s with
  | nil => rfl
  | cons c s ih =>
      rw [List.flatMap_cons, ← ih]
      split
      · next heq =>
          subst heq
          exact @replaceBy_match _ _ _ id [c] v (List.cons_ne_nil _ _) [c] rfl s
      · next hne =>
          refine replaceBy_skip fun hprefix => hne ?_
          exact (List.cons_prefix_cons.mp hprefix).1.symm

/-- **The induction of the scan**: a text is empty, starts with a match, or starts with a
character that is passed over. -/
theorem scan (text : β → α) (hp : p ≠ []) {P : List β → Prop} (hnil : P [])
    (hmatch : ∀ b s, b.map text = p → P s → P (b ++ s))
    (hskip : ∀ c s, ¬ p <+: (c :: s).map text → P s → P (c :: s)) : ∀ s, P s := by
  intro s
  induction hn : s.length using Nat.strong_induction_on generalizing s with
  | h n ih =>
      cases s with
      | nil => exact hnil
      | cons c rest =>
          by_cases hprefix : p <+: (c :: rest).map text
          · have hsplit := List.take_append_drop p.length (c :: rest)
            have htake : ((c :: rest).take p.length).map text = p := by
              rw [List.map_take]
              exact (List.prefix_iff_eq_take.mp hprefix).symm
            have hpos : 0 < p.length := List.length_pos_iff.mpr hp
            have hshort : ((c :: rest).drop p.length).length < n := by
              rw [List.length_drop, hn]
              have := hn ▸ List.length_pos_of_ne_nil (List.cons_ne_nil c rest)
              omega
            rw [← hsplit]
            exact hmatch _ _ htake (ih _ hshort _ rfl)
          · refine hskip c rest hprefix (ih rest.length ?_ rest rfl)
            rw [← hn]
            exact Nat.lt_succ_self _

theorem replaceBy_absent (hp : p ≠ []) {s : List β} (h : ¬ p <:+: s.map text) :
    replaceBy text p v s = s := by
  induction s using scan text hp with
  | hnil => rfl
  | hmatch b s hb ih =>
      refine absurd ⟨[], s.map text, ?_⟩ h
      rw [List.map_append, hb]
      rfl
  | hskip c s hc ih =>
      rw [replaceBy_skip hc, ih fun hin => h (hin.trans (List.suffix_cons _ _).isInfix)]

/-- What is replaced by itself stays. -/
theorem replace_self (hp : p ≠ []) (s : List α) : replace p p s = s := by
  induction s using scan id hp with
  | hnil => rfl
  | hmatch b s hb ih =>
      rw [replace, replaceBy_match hp hb]
      rw [List.map_id] at hb
      rw [hb]
      exact congrArg (p ++ ·) ih
  | hskip c s hc ih =>
      rw [replace, replaceBy_skip hc]
      exact congrArg (c :: ·) ih

/-- Every match takes the pattern away and puts the value there. -/
theorem replace_length (hp : p ≠ []) (w s : List α) :
    ∃ n, (replace p w s).length + n * p.length = s.length + n * w.length := by
  induction s using scan id hp with
  | hnil => exact ⟨0, by simp [replace]⟩
  | hmatch b s hb ih =>
      obtain ⟨n, hn⟩ := ih
      refine ⟨n + 1, ?_⟩
      rw [replace, replaceBy_match hp hb]
      rw [List.map_id] at hb
      rw [hb]
      simp only [List.length_append]
      change (replace p w s).length + n * p.length = _ at hn
      change w.length + (replace p w s).length + _ = _
      linarith
  | hskip c s hc ih =>
      obtain ⟨n, hn⟩ := ih
      refine ⟨n, ?_⟩
      rw [replace, replaceBy_skip hc]
      simp only [List.length_cons]
      change (replace p w s).length + n * p.length = _ at hn
      change (replace p w s).length + 1 + _ = _
      linarith

/-- **A replacement changes every text it finds the pattern in**, unless the value is the
pattern. -/
theorem replace_eq_self_iff (hp : p ≠ []) {w s : List α} :
    replace p w s = s ↔ ¬ p <:+: s ∨ w = p := by
  constructor
  · intro h
    rw [or_iff_not_imp_left, not_not]
    intro hin
    induction s using scan id hp with
    | hnil => exact absurd (List.eq_nil_of_infix_nil hin) hp
    | hmatch b s hb ih =>
        rw [replace, replaceBy_match hp hb] at h
        rw [List.map_id] at hb
        subst hb
        obtain ⟨n, hn⟩ := replace_length hp w s
        have hlengths := congrArg List.length h
        simp only [List.length_append] at hlengths
        change w.length + (replace b w s).length = _ at hlengths
        have hsame : w.length = b.length := by
          rcases lt_trichotomy w.length b.length with hlt | heq | hlt
          · have := Nat.mul_le_mul_left n hlt.le
            omega
          · exact heq
          · have := Nat.mul_le_mul_left n hlt.le
            omega
        exact (List.append_inj h hsame).1
    | hskip c s hc ih =>
        rw [replace, replaceBy_skip hc] at h
        rcases List.infix_cons_iff.mp hin with hprefix | hin
        · rw [List.map_id] at hc
          exact absurd hprefix hc
        · exact ih (List.cons.inj h).2 hin
  · rintro (h | rfl)
    · exact replaceBy_absent hp (by rwa [List.map_id])
    · exact replace_self hp s

/-- A match does not reach over a character that the pattern has not. -/
theorem replaceBy_sep (hp : p ≠ []) {c : β} (hc : text c ∉ p) (l r : List β) :
    replaceBy text p v (l ++ c :: r) = replaceBy text p v l ++ c :: replaceBy text p v r := by
  have hskip : ¬ p <+: (c :: r).map text := by
    intro h
    have hnil := @prefix_before _ _ text p c hc [] r h
    exact hp (List.prefix_nil.mp hnil)
  induction l using scan text hp with
  | hnil => exact replaceBy_skip hskip
  | hmatch b s hb ih =>
      rw [List.append_assoc, replaceBy_match hp hb, replaceBy_match hp hb, ih,
        List.append_assoc]
  | hskip d s hd ih =>
      have hd' : ¬ p <+: (d :: (s ++ c :: r)).map text := fun h =>
        hd (@prefix_before _ _ text p c hc (d :: s) r h)
      rw [List.cons_append, replaceBy_skip hd', replaceBy_skip hd, ih]
      rfl

/-! ## Filling a template -/

structure Binding (α : Type u) where
  placeholder : List α
  value : List α
  ne_nil : placeholder ≠ []

/-- One placeholder after the other. -/
def fill : List (Binding α) → List α → List α
  | [], s => s
  | b :: bs, s => fill bs (replace b.placeholder b.value s)

/-- The scan of a simultaneous filling. -/
def fillOnceFrom (bs : List (Binding α)) : (skip : ℕ) → List α → List α
  | _, [] => []
  | k + 1, _ :: rest => fillOnceFrom bs k rest
  | 0, c :: rest =>
      match bs.find? (fun b => b.placeholder.isPrefixOf (c :: rest)) with
      | some b => b.value ++ fillOnceFrom bs (b.placeholder.length - 1) rest
      | none => c :: fillOnceFrom bs 0 rest

/-- All placeholders at once: what a value brings is not looked at. -/
def fillOnce (bs : List (Binding α)) (s : List α) : List α := fillOnceFrom bs 0 s

/-- No placeholder has the character. -/
def Separates (bs : List (Binding α)) (c : α) : Prop := ∀ b ∈ bs, c ∉ b.placeholder

theorem fill_append (bs bs' : List (Binding α)) (s : List α) :
    fill (bs ++ bs') s = fill bs' (fill bs s) := by
  induction bs generalizing s with
  | nil => rfl
  | cons b bs ih => exact ih _

theorem fill_literal {bs : List (Binding α)} {s : List α}
    (h : ∀ b ∈ bs, ¬ b.placeholder <:+: s) : fill bs s = s := by
  induction bs with
  | nil => rfl
  | cons b bs ih =>
      have hb : replace b.placeholder b.value s = s :=
        (replace_eq_self_iff b.ne_nil).mpr (.inl (h b List.mem_cons_self))
      rw [fill, hb]
      exact ih fun b' hb' => h b' (List.mem_cons_of_mem _ hb')

theorem fill_sep {bs : List (Binding α)} {c : α} (hc : Separates bs c) (l r : List α) :
    fill bs (l ++ c :: r) = fill bs l ++ c :: fill bs r := by
  induction bs generalizing l r with
  | nil => rfl
  | cons b bs ih =>
      have hsep : replace b.placeholder b.value (l ++ c :: r) =
          replace b.placeholder b.value l ++ c :: replace b.placeholder b.value r :=
        replaceBy_sep b.ne_nil (hc b List.mem_cons_self) l r
      rw [fill, hsep]
      exact ih (fun b' hb' => hc b' (List.mem_cons_of_mem _ hb')) _ _

/-- A template that is a placeholder: the value, filled with the placeholders after it. -/
theorem fill_placeholder {before after : List (Binding α)} {b : Binding α}
    (h : ∀ q ∈ before, ¬ q.placeholder <:+: b.placeholder) :
    fill (before ++ b :: after) b.placeholder = fill after b.value := by
  have hmatch : replace b.placeholder b.value b.placeholder = b.value := by
    have hmatch := @replaceBy_match _ _ _ id b.placeholder b.value b.ne_nil b.placeholder
      (List.map_id _) []
    rw [List.append_nil, replaceBy_nil, List.append_nil] at hmatch
    exact hmatch
  rw [fill_append, fill_literal h, fill, hmatch]

theorem fillOnceFrom_eq (bs : List (Binding α)) (k : ℕ) (s : List α) :
    fillOnceFrom bs k s = fillOnce bs (s.drop k) := by
  induction k generalizing s with
  | zero => rfl
  | succ k ih =>
      cases s with
      | nil => rfl
      | cons c rest => exact ih rest

theorem fillOnce_match {bs : List (Binding α)} {b : Binding α} {s : List α}
    (h : bs.find? (fun q => q.placeholder.isPrefixOf (b.placeholder ++ s)) = some b) :
    fillOnce bs (b.placeholder ++ s) = b.value ++ fillOnce bs s := by
  cases hp : b.placeholder with
  | nil => exact absurd hp b.ne_nil
  | cons c rest =>
      rw [hp, List.cons_append] at h
      show fillOnceFrom bs 0 (c :: (rest ++ s)) = _
      rw [fillOnceFrom, h]
      dsimp only
      rw [hp, fillOnceFrom_eq, List.length_cons, Nat.add_sub_cancel, List.drop_left]

theorem fillOnce_skip {bs : List (Binding α)} {c : α} {s : List α}
    (h : bs.find? (fun q => q.placeholder.isPrefixOf (c :: s)) = none) :
    fillOnce bs (c :: s) = c :: fillOnce bs s := by
  show fillOnceFrom bs 0 (c :: s) = _
  rw [fillOnceFrom, h]
  rfl

theorem fillOnce_literal {bs : List (Binding α)} {s : List α}
    (h : ∀ b ∈ bs, ¬ b.placeholder <:+: s) : fillOnce bs s = s := by
  induction s with
  | nil => rfl
  | cons c s ih =>
      have hnone : bs.find? (fun q => q.placeholder.isPrefixOf (c :: s)) = none := by
        rw [List.find?_eq_none]
        intro b hb hprefix
        exact h b hb (List.isPrefixOf_iff_prefix.mp hprefix).isInfix
      rw [fillOnce_skip hnone, ih fun b hb hin => h b hb
        (hin.trans (List.suffix_cons _ _).isInfix)]

/-- Before a separator the same placeholders match, whatever comes after it. -/
theorem isPrefixOf_before {bs : List (Binding α)} {c : α} (hc : Separates bs c) {b : Binding α}
    (hb : b ∈ bs) (l r : List α) :
    b.placeholder.isPrefixOf (l ++ c :: r) = b.placeholder.isPrefixOf l := by
  rw [Bool.eq_iff_iff, List.isPrefixOf_iff_prefix, List.isPrefixOf_iff_prefix]
  constructor
  · intro h
    have hl := @prefix_before _ _ id b.placeholder c (hc b hb) l r (by rwa [List.map_id])
    rwa [List.map_id] at hl
  · exact fun h => h.trans (List.prefix_append _ _)

theorem fillOnce_sep {bs : List (Binding α)} {c : α} (hc : Separates bs c) (l r : List α) :
    fillOnce bs (l ++ c :: r) = fillOnce bs l ++ c :: fillOnce bs r := by
  induction hn : l.length using Nat.strong_induction_on generalizing l with
  | h n ih =>
      have hfind : bs.find? (fun q => q.placeholder.isPrefixOf (l ++ c :: r)) =
          bs.find? (fun q => q.placeholder.isPrefixOf l) :=
        List.find?_congr fun b hb => isPrefixOf_before hc hb l r
      cases hl : bs.find? (fun q => q.placeholder.isPrefixOf l) with
      | none =>
          rw [hl] at hfind
          cases l with
          | nil => exact fillOnce_skip hfind
          | cons d l =>
              have hstep : fillOnce bs (d :: (l ++ c :: r)) = d :: fillOnce bs (l ++ c :: r) :=
                fillOnce_skip hfind
              rw [List.cons_append, hstep, fillOnce_skip hl,
                ih l.length (hn ▸ Nat.lt_succ_self _) l rfl]
              rfl
      | some b =>
          rw [hl] at hfind
          have hprefix : b.placeholder.isPrefixOf l = true :=
            @List.find?_some _ (fun q : Binding α => q.placeholder.isPrefixOf l) _ _ hl
          obtain ⟨s, rfl⟩ := List.isPrefixOf_iff_prefix.mp hprefix
          have hshort : s.length < n := by
            rw [← hn, List.length_append]
            have := List.length_pos_iff.mpr b.ne_nil
            omega
          rw [List.append_assoc] at hfind ⊢
          rw [fillOnce_match hfind, fillOnce_match hl, ih _ hshort s rfl, List.append_assoc]

theorem fillOnce_placeholder {bs : List (Binding α)} {b : Binding α}
    (h : bs.find? (fun q => q.placeholder.isPrefixOf b.placeholder) = some b) :
    fillOnce bs b.placeholder = b.value := by
  have hmatch := @fillOnce_match _ _ bs b []
  rw [List.append_nil] at hmatch
  rw [hmatch h]
  exact List.append_nil _

/-! ## What a filling disturbs -/

/-- Whether a match covers a marked character. -/
def reachesFrom (p : List α) : (skip : ℕ) → List (α × Bool) → Bool
  | _, [] => false
  | k + 1, c :: rest => c.2 || reachesFrom p k rest
  | 0, c :: rest =>
      if p.isPrefixOf ((c :: rest).map Prod.fst) then c.2 || reachesFrom p (p.length - 1) rest
      else reachesFrom p 0 rest

def reaches (p : List α) (s : List (α × Bool)) : Bool := reachesFrom p 0 s

/-- Some placeholder is found in what a value has brought. -/
def disturbs : List (Binding α) → List (α × Bool) → Bool
  | [], _ => false
  | b :: bs, s =>
      reaches b.placeholder s ||
        disturbs bs (replaceBy Prod.fst b.placeholder (brought b.value) s)

/-- Without its marks a filling is the filling of the plain text. -/
theorem map_replaceBy (p w : List α) (hp : p ≠ []) (s : List (α × Bool)) :
    (replaceBy Prod.fst p (brought w) s).map Prod.fst = replace p w (s.map Prod.fst) := by
  induction s using scan Prod.fst hp with
  | hnil => rfl
  | hmatch b s hb ih =>
      have hb' : (b.map Prod.fst).map id = p := by rwa [List.map_id]
      rw [replaceBy_match hp hb, List.map_append, List.map_append, replace,
        replaceBy_match hp hb', ih, map_brought]
      rfl
  | hskip c s hc ih =>
      have hc' : ¬ p <+: ((c :: s).map Prod.fst).map id := by rwa [List.map_id]
      rw [replaceBy_skip hc, List.map_cons, ih]
      exact (replaceBy_skip hc').symm

theorem reachesFrom_eq (p : List α) (k : ℕ) (s : List (α × Bool)) :
    reachesFrom p k s = ((s.take k).any Prod.snd || reaches p (s.drop k)) := by
  induction k generalizing s with
  | zero => rfl
  | succ k ih =>
      cases s with
      | nil => rfl
      | cons c rest => simp [reachesFrom, ih rest, Bool.or_assoc]

theorem reaches_match {p : List α} (hp : p ≠ []) {b : List (α × Bool)}
    (hb : b.map Prod.fst = p) (s : List (α × Bool)) :
    reaches p (b ++ s) = (b.any Prod.snd || reaches p s) := by
  cases b with
  | nil => exact absurd hb.symm hp
  | cons c rest =>
      have hprefix : p.isPrefixOf ((c :: (rest ++ s)).map Prod.fst) = true := by
        rw [List.isPrefixOf_iff_prefix, ← hb]
        exact ⟨s.map Prod.fst, by simp⟩
      have hlength : p.length - 1 = rest.length := by
        rw [← hb]
        simp
      show reachesFrom p 0 (c :: (rest ++ s)) = _
      rw [reachesFrom, if_pos hprefix, hlength, reachesFrom_eq, List.take_left, List.drop_left,
        List.any_cons, Bool.or_assoc]

theorem reaches_skip {p : List α} {c : α × Bool} {s : List (α × Bool)}
    (h : ¬ p <+: (c :: s).map Prod.fst) : reaches p (c :: s) = reaches p s := by
  have hprefix : ¬ p.isPrefixOf ((c :: s).map Prod.fst) = true := by
    rw [List.isPrefixOf_iff_prefix]
    exact h
  show reachesFrom p 0 (c :: s) = _
  rw [reachesFrom, if_neg hprefix]
  rfl

theorem reaches_of_unmarked {p : List α} (hp : p ≠ []) {s : List (α × Bool)}
    (h : ∀ c ∈ s, c.2 = false) : reaches p s = false := by
  induction s using scan Prod.fst hp with
  | hnil => rfl
  | hmatch b s hb ih =>
      rw [reaches_match hp hb, ih fun c hc => h c (List.mem_append_right _ hc), Bool.or_false,
        List.any_eq_false]
      intro c hc
      rw [h c (List.mem_append_left _ hc)]
      exact Bool.false_ne_true
  | hskip c s hc ih => rw [reaches_skip hc, ih fun d hd => h d (List.mem_cons_of_mem _ hd)]

/-- In a value every match is of marked characters. -/
theorem reaches_brought {p : List α} (hp : p ≠ []) {s : List (α × Bool)}
    (h : ∀ c ∈ s, c.2 = true) : reaches p s = true ↔ p <:+: s.map Prod.fst := by
  induction s using scan Prod.fst hp with
  | hnil =>
      constructor
      · nofun
      · exact fun hin => absurd (List.eq_nil_of_infix_nil hin) hp
  | hmatch b s hb ih =>
      have hmarked : b.any Prod.snd = true := by
        cases b with
        | nil => exact absurd hb.symm hp
        | cons c rest => rw [List.any_cons, h c (by simp), Bool.true_or]
      rw [reaches_match hp hb, hmarked, List.map_append, hb]
      exact iff_of_true (Bool.true_or _) (List.prefix_append _ _).isInfix
  | hskip c s hc ih =>
      rw [reaches_skip hc, ih fun d hd => h d (List.mem_cons_of_mem _ hd), List.map_cons,
        List.infix_cons_iff]
      exact (or_iff_right hc).symm

theorem reaches_sep {p : List α} (hp : p ≠ []) {c : α × Bool} (hc : c.1 ∉ p)
    (l r : List (α × Bool)) : reaches p (l ++ c :: r) = (reaches p l || reaches p r) := by
  induction l using scan Prod.fst hp with
  | hnil =>
      refine reaches_skip fun h => hp ?_
      exact List.prefix_nil.mp (@prefix_before _ _ Prod.fst p c hc [] r h)
  | hmatch b s hb ih =>
      rw [List.append_assoc, reaches_match hp hb, reaches_match hp hb, ih, Bool.or_assoc]
  | hskip d s hd ih =>
      have hd' : ¬ p <+: (d :: (s ++ c :: r)).map Prod.fst := fun h =>
        hd (@prefix_before _ _ Prod.fst p c hc (d :: s) r h)
      rw [List.cons_append, reaches_skip hd', reaches_skip hd, ih]

theorem disturbs_sep {bs : List (Binding α)} {c : α × Bool} (hc : Separates bs c.1)
    (l r : List (α × Bool)) :
    disturbs bs (l ++ c :: r) = (disturbs bs l || disturbs bs r) := by
  induction bs generalizing l r with
  | nil => rfl
  | cons b bs ih =>
      have hb := hc b List.mem_cons_self
      rw [disturbs, disturbs, disturbs, reaches_sep b.ne_nil hb, replaceBy_sep b.ne_nil hb,
        ih fun b' hb' => hc b' (List.mem_cons_of_mem _ hb')]
      cases reaches b.placeholder l <;> cases reaches b.placeholder r <;> simp

/-- A text without placeholders is not looked into. -/
theorem disturbs_literal {bs : List (Binding α)} {s : List (α × Bool)}
    (h : ∀ b ∈ bs, ¬ b.placeholder <:+: s.map Prod.fst) (hplain : ∀ c ∈ s, c.2 = false) :
    disturbs bs s = false := by
  induction bs with
  | nil => rfl
  | cons b bs ih =>
      rw [disturbs, reaches_of_unmarked b.ne_nil hplain,
        replaceBy_absent b.ne_nil (h b List.mem_cons_self)]
      exact ih fun b' hb' => h b' (List.mem_cons_of_mem _ hb')

/-- **A value is disturbed** when it has a placeholder that is still to be filled. -/
theorem disturbs_brought {bs : List (Binding α)} {v : List α} :
    disturbs bs (brought v) = true ↔ ∃ b ∈ bs, b.placeholder <:+: v := by
  have hmarked : ∀ c ∈ brought v, c.2 = true := by
    intro c hc
    obtain ⟨d, -, rfl⟩ := List.mem_map.mp hc
    rfl
  induction bs with
  | nil => simp [disturbs]
  | cons b bs ih =>
      rw [disturbs, Bool.or_eq_true, reaches_brought b.ne_nil hmarked, map_brought]
      by_cases hb : b.placeholder <:+: v
      · exact iff_of_true (.inl hb) ⟨b, List.mem_cons_self, hb⟩
      · rw [replaceBy_absent b.ne_nil (by rwa [map_brought])]
        constructor
        · rintro (h | h)
          · exact absurd h hb
          · obtain ⟨q, hq, hin⟩ := ih.mp h
            exact ⟨q, List.mem_cons_of_mem _ hq, hin⟩
        · rintro ⟨q, hq, hin⟩
          rcases List.mem_cons.mp hq with rfl | hq
          · exact absurd hin hb
          · exact .inr (ih.mpr ⟨q, hq, hin⟩)

/-- A template that is a placeholder disturbs the value it is filled with, when that has a
placeholder filled later. -/
theorem disturbs_placeholder {before after : List (Binding α)} {b : Binding α}
    (h : ∀ q ∈ before, ¬ q.placeholder <:+: b.placeholder) :
    disturbs (before ++ b :: after) (plain b.placeholder) = true ↔
      ∃ q ∈ after, q.placeholder <:+: b.value := by
  have hplain := plain_unmarked b.placeholder
  induction before with
  | nil =>
      have hmatch : replaceBy Prod.fst b.placeholder (brought b.value) (plain b.placeholder) =
          brought b.value := by
        have hmatch := @replaceBy_match _ _ _ Prod.fst b.placeholder (brought b.value) b.ne_nil
          (plain b.placeholder) (map_plain _) []
        rw [List.append_nil, replaceBy_nil, List.append_nil] at hmatch
        exact hmatch
      rw [List.nil_append, disturbs, reaches_of_unmarked b.ne_nil hplain, hmatch, Bool.false_or]
      exact disturbs_brought
  | cons q before ih =>
      have hq : ¬ q.placeholder <:+: (plain b.placeholder).map Prod.fst := by
        rw [map_plain]
        exact h q List.mem_cons_self
      rw [List.cons_append, disturbs, reaches_of_unmarked q.ne_nil hplain,
        replaceBy_absent q.ne_nil hq, Bool.false_or]
      exact ih fun q' hq' => h q' (List.mem_cons_of_mem _ hq')

/-! ## Simple templates -/

/-- Literal texts and single placeholders, with characters that no placeholder has between
them. -/
inductive Simple (bs : List (Binding α)) : List α → Prop where
  | literal {s : List α} (h : ∀ b ∈ bs, ¬ b.placeholder <:+: s) : Simple bs s
  | hole {before after : List (Binding α)} {b : Binding α} (hsplit : bs = before ++ b :: after)
      (h : ∀ q ∈ before ++ after, ¬ q.placeholder <:+: b.placeholder) : Simple bs b.placeholder
  | sep {c : α} {l r : List α} (hc : Separates bs c) (hl : Simple bs l) (hr : Simple bs r) :
      Simple bs (l ++ c :: r)

/-- No value of a placeholder of the template has a placeholder that is filled later. -/
def Apart (bs : List (Binding α)) (s : List α) : Prop :=
  bs.Pairwise (fun b q => b.placeholder <:+: s → ¬ q.placeholder <:+: b.value)

theorem fillOnce_hole {before after : List (Binding α)} {b : Binding α}
    (h : ∀ q ∈ before ++ after, ¬ q.placeholder <:+: b.placeholder) :
    fillOnce (before ++ b :: after) b.placeholder = b.value := by
  apply fillOnce_placeholder
  rw [List.find?_append, List.find?_eq_none.mpr, Option.none_or, List.find?_cons_of_pos]
  · exact List.isPrefixOf_iff_prefix.mpr (List.prefix_refl _)
  · intro q hq hprefix
    exact h q (List.mem_append_left _ hq) (List.isPrefixOf_iff_prefix.mp hprefix).isInfix

theorem Simple.apart_iff {bs : List (Binding α)} {s : List α} (h : Simple bs s) :
    disturbs bs (plain s) = false ↔ Apart bs s := by
  induction h with
  | @literal s h =>
      have hin : ∀ b ∈ bs, ¬ b.placeholder <:+: (plain s).map Prod.fst := by
        rw [map_plain]
        exact h
      refine iff_of_true (disturbs_literal hin (plain_unmarked s)) ?_
      exact List.pairwise_of_forall_mem_list fun b hb _ _ hbs => absurd hbs (h b hb)
  | @hole before after b hsplit h =>
      subst hsplit
      have hbefore : ∀ q ∈ before, ¬ q.placeholder <:+: b.placeholder := fun q hq =>
        h q (List.mem_append_left _ hq)
      have hafter : ∀ q ∈ after, ¬ q.placeholder <:+: b.placeholder := fun q hq =>
        h q (List.mem_append_right _ hq)
      rw [← Bool.not_eq_true, disturbs_placeholder hbefore]
      unfold Apart
      rw [List.pairwise_append, List.pairwise_cons]
      constructor
      · intro hfree
        refine ⟨?_, ⟨fun q hq _ hin => hfree ⟨q, hq, hin⟩, ?_⟩, fun q hq _ _ hin =>
          absurd hin (hbefore q hq)⟩
        · exact List.pairwise_of_forall_mem_list fun q hq _ _ hin => absurd hin (hbefore q hq)
        · exact List.pairwise_of_forall_mem_list fun q hq _ _ hin => absurd hin (hafter q hq)
      · rintro ⟨-, ⟨hb, -⟩, -⟩ ⟨q, hq, hin⟩
        exact hb q hq (List.infix_refl _) hin
  | @sep c l r hc hl hr ihl ihr =>
      have hplain : plain (l ++ c :: r) = plain l ++ (c, false) :: plain r := by
        unfold plain
        rw [List.map_append, List.map_cons]
      have hin : ∀ b ∈ bs, b.placeholder <:+: l ++ c :: r ↔
          b.placeholder <:+: l ∨ b.placeholder <:+: r := by
        intro b hb
        have hsep := @infix_sep _ _ id b.placeholder c (hc b hb) l r
        rwa [List.map_id, List.map_id, List.map_id] at hsep
      rw [hplain, @disturbs_sep _ _ bs (c, false) hc, Bool.or_eq_false_iff, ihl, ihr]
      unfold Apart
      rw [← List.pairwise_and_iff]
      constructor
      · intro h
        refine h.imp_of_mem fun {b q} hb _ hbq hbs => ?_
        rcases (hin b hb).mp hbs with hleft | hright
        · exact hbq.1 hleft
        · exact hbq.2 hright
      · intro h
        refine h.imp_of_mem fun {b q} hb _ hbq => ?_
        exact ⟨fun hleft => hbq ((hin b hb).mpr (.inl hleft)),
          fun hright => hbq ((hin b hb).mpr (.inr hright))⟩

/-- **Undisturbed, one placeholder after the other is all at once.** -/
theorem Simple.fill_eq {bs : List (Binding α)} {s : List α} (h : Simple bs s)
    (hapart : Apart bs s) : fill bs s = fillOnce bs s := by
  induction h with
  | literal h => rw [fill_literal h, fillOnce_literal h]
  | @hole before after b hsplit h =>
      subst hsplit
      have hb := (List.pairwise_cons.mp (List.pairwise_append.mp hapart).2.1).1
      have hfree : ∀ q ∈ after, ¬ q.placeholder <:+: b.value := fun q hq =>
        hb q hq (List.infix_refl _)
      rw [fill_placeholder fun q hq => h q (List.mem_append_left _ hq), fill_literal hfree,
        fillOnce_hole h]
  | @sep c l r hc hl hr ihl ihr =>
      have hpart : ∀ t : List α, (∀ b ∈ bs, b.placeholder <:+: t →
          b.placeholder <:+: l ++ c :: r) → Apart bs t := fun t ht =>
        List.Pairwise.imp_of_mem (fun hb _ hbq hbt => hbq (ht _ hb hbt)) hapart
      have hleft : Apart bs l := hpart l fun b _ hbl =>
        hbl.trans (List.prefix_append _ _).isInfix
      have hright : Apart bs r := hpart r fun b _ hbr =>
        hbr.trans ((List.suffix_cons _ _).trans (List.suffix_append _ _)).isInfix
      rw [fill_sep hc, fillOnce_sep hc, ihl hleft, ihr hright]

end Template
