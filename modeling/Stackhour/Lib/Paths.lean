import Mathlib.Data.List.DropRight
import Mathlib.Data.List.Infix

/-!
# Absolute paths

A path is read as a walk from a directory: each segment stays, goes up or goes down.
The directory where it ends is the list of its names, whatever way the path is spelled.
-/

namespace Paths

/-- What a directory entry may be called. -/
def IsName (s : List Char) : Prop := s ≠ [] ∧ s ≠ ['.'] ∧ s ≠ ['.', '.'] ∧ '/' ∉ s

instance (s : List Char) : Decidable (IsName s) := inferInstanceAs (Decidable (_ ∧ _))

/-- One segment; the root is its own parent. -/
def move (dir : List (List Char)) (segment : List Char) : List (List Char) :=
  if segment = [] ∨ segment = ['.'] then dir
  else if segment = ['.', '.'] then dir.dropLast
  else dir ++ [segment]

def walk (dir : List (List Char)) (path : List Char) : List (List Char) :=
  (path.splitOn '/').foldl move dir

/-- Where a path leads that may be relative to a directory. -/
def lead (dir : List (List Char)) (path : List Char) : List (List Char) :=
  walk (if path.head? = some '/' then [] else dir) path

def below (names : List (List Char)) : List Char := names.flatMap ('/' :: ·)

def render (names : List (List Char)) : List Char := if names = [] then ['/'] else below names

variable {names dir : List (List Char)} {n : List Char}

/-! ## Walking -/

/-- Beyond a slash the walk goes on from where it is. -/
theorem walk_append (dir : List (List Char)) (path rest : List Char) :
    walk dir (path ++ '/' :: rest) = walk (walk dir path) rest := by
  unfold walk
  rw [List.splitOn_append_cons_self, List.foldl_append]

theorem walk_name (h : IsName n) (dir : List (List Char)) : walk dir n = dir ++ [n] := by
  obtain ⟨hne, hdot, hdots, hslash⟩ := h
  unfold walk
  rw [List.splitOn_eq_singleton hslash, List.foldl_cons, List.foldl_nil]
  simp [move, hne, hdot, hdots]

theorem below_concat (names : List (List Char)) (n : List Char) :
    below (names ++ [n]) = below names ++ '/' :: n := by simp [below]

theorem render_concat (names : List (List Char)) (n : List Char) :
    render (names ++ [n]) = below names ++ '/' :: n := by simp [render, below]

/-- Names lead down. -/
theorem walk_below (h : ∀ n ∈ names, IsName n) (dir : List (List Char)) :
    walk dir (below names) = dir ++ names := by
  induction names using List.reverseRecOn with
  | nil => simp [walk, below, move]
  | append_singleton names n ih =>
      rw [below_concat, walk_append, ih (fun m hm => h m (List.mem_append_left _ hm)),
        walk_name (h n (by simp)), List.append_assoc]

theorem walk_render (h : ∀ n ∈ names, IsName n) : walk [] (render names) = names := by
  unfold render
  split
  · next hnil =>
      rw [hnil]
      decide
  · rw [walk_below h, List.nil_append]

@[simp] theorem head?_render (names : List (List Char)) : (render names).head? = some '/' := by
  cases names with
  | nil => rfl
  | cons n names => rfl

theorem not_mem_of_mem_splitOn {c : Char} : ∀ {cs part : List Char}, part ∈ cs.splitOn c →
    c ∉ part := by
  intro cs
  induction cs with
  | nil => simp
  | cons d cs ih =>
      intro part hpart
      rw [List.splitOn_cons_eq_if_modifyHead] at hpart
      split at hpart
      · rcases List.mem_cons.mp hpart with rfl | hpart
        · exact List.not_mem_nil
        · exact ih hpart
      · next hd =>
          obtain ⟨first, others, hsplit⟩ := List.exists_cons_of_ne_nil (List.splitOn_ne_nil c cs)
          rw [hsplit, List.modifyHead_cons] at hpart
          rcases List.mem_cons.mp hpart with rfl | hpart
          · intro hc
            rcases List.mem_cons.mp hc with rfl | hc
            · exact hd (beq_self_eq_true _)
            · exact ih (hsplit ▸ List.mem_cons_self ..) hc
          · exact ih (hsplit ▸ List.mem_cons_of_mem _ hpart)

theorem move_isName {segment : List Char} (hs : '/' ∉ segment) (h : ∀ n ∈ dir, IsName n) :
    ∀ n ∈ move dir segment, IsName n := by
  intro n hn
  unfold move at hn
  split at hn
  · exact h n hn
  · next hstay =>
      split at hn
      · exact h n (List.dropLast_subset _ hn)
      · next hup =>
          rcases List.mem_append.mp hn with hn | hn
          · exact h n hn
          · obtain rfl := List.mem_singleton.mp hn
            exact ⟨fun he => hstay (.inl he), fun he => hstay (.inr he), hup, hs⟩

/-- A walk ends at names. -/
theorem walk_isName (h : ∀ n ∈ dir, IsName n) (path : List Char) :
    ∀ n ∈ walk dir path, IsName n := by
  have hmoves : ∀ (segments dir : List (List Char)), (∀ s ∈ segments, '/' ∉ s) →
      (∀ n ∈ dir, IsName n) → ∀ n ∈ segments.foldl move dir, IsName n := by
    intro segments
    induction segments with
    | nil =>
        intro dir _ h
        exact h
    | cons s segments ih =>
        intro dir hs h
        exact ih _ (fun t ht => hs t (List.mem_cons_of_mem _ ht))
          (move_isName (hs s (List.mem_cons_self ..)) h)
  exact hmoves _ dir (fun s hs => not_mem_of_mem_splitOn hs) h

/-! ## The parent and the name -/

/-- What is rendered is `below` the names, but for the root. -/
theorem rdropWhile_below (h : ∀ n ∈ names, IsName n) :
    (below names).rdropWhile (· == '/') = below names := by
  rw [List.rdropWhile_eq_self_iff]
  intro hne
  induction names using List.reverseRecOn with
  | nil => exact absurd rfl hne
  | append_singleton names n ih =>
      obtain ⟨hn, -, -, hslash⟩ := h n (by simp)
      have hlast : (below (names ++ [n])).getLast hne = n.getLast hn := by
        simp [below_concat, List.getLast_cons hn]
      rw [hlast, beq_iff_eq]
      exact fun heq => hslash (heq ▸ List.getLast_mem hn)

theorem rdropWhile_render (h : ∀ n ∈ names, IsName n) :
    (render names).rdropWhile (· == '/') = below names := by
  unfold render
  split
  · next hnil => simp [hnil, below, List.rdropWhile]
  · exact rdropWhile_below h

/-- Behind the last slash is the name. -/
theorem rtakeWhile_below (hslash : '/' ∉ n) :
    (below names ++ '/' :: n).rtakeWhile (· ≠ '/') = n := by
  have hn : ∀ c ∈ n.reverse, (decide (c ≠ '/')) = true := by
    intro c hc
    exact decide_eq_true fun heq => hslash (heq ▸ List.mem_reverse.mp hc)
  unfold List.rtakeWhile
  rw [List.reverse_append, List.reverse_cons, List.append_assoc,
    List.takeWhile_append_of_pos hn]
  simp

theorem rdropWhile_name (hslash : '/' ∉ n) :
    (below names ++ '/' :: n).rdropWhile (· ≠ '/') = below names ++ ['/'] := by
  have hn : ∀ c ∈ n.reverse, (decide (c ≠ '/')) = true := by
    intro c hc
    exact decide_eq_true fun heq => hslash (heq ▸ List.mem_reverse.mp hc)
  unfold List.rdropWhile
  rw [List.reverse_append, List.reverse_cons, List.append_assoc,
    List.dropWhile_append_of_pos hn]
  simp

end Paths
