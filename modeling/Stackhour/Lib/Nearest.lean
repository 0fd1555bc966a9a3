import Mathlib.Algebra.Order.Group.Unbundled.Abs
import Mathlib.Algebra.Order.Group.Abs
import Mathlib.Data.List.Induction

/-!
# The nearest item of a sorted list

Items stand on a line. A binary search finds where a point falls among the sorted
items, and of its two neighbours the nearer one is taken if it is within a window.
-/

namespace Nearest

universe u v

variable {α : Type u} {K : Type v} [LinearOrder K]

/-- Lower bound by bisection: the first index in `[lo, hi)` whose item is not before
`t`. -/
def lowerBound (pos : α → K) (xs : List α) (t : K) (lo hi : ℕ) : ℕ :=
  if lo < hi then
    let mid := (lo + hi) / 2
    if (xs[mid]?).any (fun a => decide (pos a < t)) then lowerBound pos xs t (mid + 1) hi
    else lowerBound pos xs t lo mid
  else lo
termination_by hi - lo

/-- The items at an index and before it. -/
def neighbours (xs : List α) (lo : ℕ) : List α :=
  ((if lo = 0 then [] else [lo - 1]) ++ [lo]).filterMap (fun i => xs[i]?)

/-! ## The search -/

def before (pos : α → K) (xs : List α) (t : K) : List α := xs.filter (fun a => decide (pos a < t))

def after (pos : α → K) (xs : List α) (t : K) : List α := xs.filter (fun a => decide (t ≤ pos a))

def Sorted (pos : α → K) (xs : List α) : Prop := xs.Pairwise (fun a b => pos a ≤ pos b)

variable {pos : α → K} {xs : List α} {t : K}

/-- A sorted list is what lies before the point, followed by the rest. -/
theorem Sorted.split (h : Sorted pos xs) : xs = before pos xs t ++ after pos xs t := by
  induction xs with
  | nil => rfl
  | cons a rest ih =>
      obtain ⟨hle, hrest⟩ := List.pairwise_cons.mp h
      have ih := ih hrest
      by_cases ha : pos a < t
      · have hb : before pos (a :: rest) t = a :: before pos rest t := by
          simp [before, ha]
        have hf : after pos (a :: rest) t = after pos rest t := by
          simp [after, ha]
        rw [hb, hf, List.cons_append, ← ih]
      · have hnone : ∀ b ∈ rest, ¬pos b < t := fun b hb hlt => ha (lt_of_le_of_lt (hle b hb) hlt)
        have hb : before pos (a :: rest) t = [] := by
          simpa [before, ha] using hnone
        have hf : after pos (a :: rest) t = a :: rest := by
          simpa [after, not_lt.mp ha] using fun b hb => not_lt.mp (hnone b hb)
        rw [hb, hf, List.nil_append]

/-- The bisection keeps the items before `lo` before the point and those from `hi` on
not before it. -/
theorem lowerBound_eq {ys zs : List α} (hys : ∀ a ∈ ys, pos a < t) (hzs : ∀ a ∈ zs, t ≤ pos a)
    (lo hi : ℕ) (hlo : lo ≤ ys.length) (hhi : ys.length ≤ hi) (hlen : hi ≤ (ys ++ zs).length) :
    lowerBound pos (ys ++ zs) t lo hi = ys.length := by
  induction lo, hi using lowerBound.induct pos (ys ++ zs) t with
  | case1 lo hi hlt mid hbefore ih =>
      rw [lowerBound, if_pos hlt, if_pos hbefore]
      refine ih ?_ hhi hlen
      by_contra hge
      have hmid : mid < (ys ++ zs).length := by omega
      rw [List.getElem?_append_right (by omega), List.getElem?_eq_getElem
        (by rw [List.length_append] at hmid; omega)] at hbefore
      have hlt := of_decide_eq_true hbefore
      exact absurd hlt (not_lt.mpr (hzs _ (List.getElem_mem _)))
  | case2 lo hi hlt mid hbefore ih =>
      rw [lowerBound, if_pos hlt, if_neg hbefore]
      refine ih hlo ?_ (by omega)
      by_contra hge
      refine hbefore ?_
      have hmid : mid < ys.length := by omega
      rw [List.getElem?_append_left hmid, List.getElem?_eq_getElem hmid]
      exact decide_eq_true (hys _ (List.getElem_mem _))
  | case3 lo hi hnot =>
      rw [lowerBound, if_neg hnot]
      omega

theorem Sorted.lowerBound (h : Sorted pos xs) :
    lowerBound pos xs t 0 xs.length = (before pos xs t).length := by
  have hys : ∀ a ∈ before pos xs t, pos a < t :=
    fun a ha => of_decide_eq_true (List.mem_filter.mp ha).2
  have hzs : ∀ a ∈ after pos xs t, t ≤ pos a :=
    fun a ha => of_decide_eq_true (List.mem_filter.mp ha).2
  have hle : (before pos xs t).length ≤ xs.length := List.length_filter_le _ _
  have hsplit := h.split (t := t)
  have heq := lowerBound_eq hys hzs 0 xs.length (Nat.zero_le _) hle (by rw [← hsplit])
  rwa [← hsplit] at heq

theorem neighbours_append (ys zs : List α) :
    neighbours (ys ++ zs) ys.length = ys.getLast?.toList ++ zs.head?.toList := by
  have hhead : ∀ ys : List α,
      [ys.length].filterMap (fun i => (ys ++ zs)[i]?) = zs.head?.toList := by
    intro ys
    rw [List.filterMap_cons, List.getElem?_append_right (Nat.le_refl _), Nat.sub_self,
      List.head?_eq_getElem?]
    cases zs[0]? <;> rfl
  unfold neighbours
  rw [List.filterMap_append, hhead]
  congr 1
  rcases ys.eq_nil_or_concat with rfl | ⟨front, a, rfl⟩
  · rfl
  · rw [List.concat_eq_append]
    simp

/-- Of the items before the point the last is the nearest. -/
theorem Sorted.last_before (h : Sorted pos xs) {a : α} (ha : a ∈ before pos xs t) :
    ∃ b, (before pos xs t).getLast? = some b ∧ b ∈ before pos xs t ∧ pos a ≤ pos b := by
  have hsorted : Sorted pos (before pos xs t) := h.filter _
  rcases (before pos xs t).eq_nil_or_concat with hnil | ⟨front, b, heq⟩
  · rw [hnil] at ha
    cases ha
  · rw [List.concat_eq_append] at heq
    rw [heq] at ha hsorted ⊢
    refine ⟨b, by simp, by simp, ?_⟩
    rcases List.mem_append.mp ha with hfront | hlast
    · exact (List.pairwise_append.mp hsorted).2.2 a hfront b (List.mem_singleton_self b)
    · rw [List.mem_singleton.mp hlast]

/-- Of the other items the first is the nearest. -/
theorem Sorted.first_after (h : Sorted pos xs) {a : α} (ha : a ∈ after pos xs t) :
    ∃ b, (after pos xs t).head? = some b ∧ b ∈ after pos xs t ∧ pos b ≤ pos a := by
  have hsorted : Sorted pos (after pos xs t) := h.filter _
  rcases heq : after pos xs t with _ | ⟨b, rest⟩
  · rw [heq] at ha
    cases ha
  · rw [heq] at ha hsorted
    refine ⟨b, rfl, List.mem_cons_self .., ?_⟩
    rcases List.mem_cons.mp ha with rfl | hrest
    · exact le_refl _
    · exact (List.pairwise_cons.mp hsorted).1 a hrest

theorem neighbours_sorted (pos : α → K) (xs : List α) (t : K) :
    Sorted pos ((before pos xs t).getLast?.toList ++ (after pos xs t).head?.toList) := by
  refine List.pairwise_append.mpr ⟨?_, ?_, ?_⟩
  · cases (before pos xs t).getLast? <;> simp
  · cases (after pos xs t).head? <;> simp
  · intro a ha b hb
    have ha := List.mem_of_getLast? (Option.mem_toList.mp ha)
    have hb := List.mem_of_mem_head? (Option.mem_toList.mp hb)
    exact (of_decide_eq_true (List.mem_filter.mp ha).2).le.trans
      (of_decide_eq_true (List.mem_filter.mp hb).2)

/-! ## The nearer neighbour -/

variable [AddCommGroup K]

/-- Take `a` if it is within the window and nearer than the best so far. -/
def consider (pos : α → K) (t w : K) (best : Option α) (a : α) : Option α :=
  if |pos a - t| ≤ w ∧ ∀ b ∈ best, |pos a - t| < |pos b - t| then some a else best

/-- The nearer of the two neighbours of `t`. -/
def nearest (pos : α → K) (xs : List α) (t w : K) : Option α :=
  (neighbours xs (lowerBound pos xs t 0 xs.length)).foldl (consider pos t w) none

@[simp] theorem nearest_nil (t w : K) : nearest pos [] t w = none := by
  simp [nearest, lowerBound, neighbours]

/-- What a scan of all items would take: the nearest within the window, and of two
equally near the earlier. -/
structure IsNearest (pos : α → K) (xs : List α) (t w : K) (a : α) : Prop where
  mem : a ∈ xs
  within : |pos a - t| ≤ w
  closest : ∀ b ∈ xs, |pos b - t| ≤ w → |pos a - t| ≤ |pos b - t|
  earlier : ∀ b ∈ xs, |pos b - t| = |pos a - t| → pos a ≤ pos b

variable {w : K}

theorem Sorted.nearest_eq (h : Sorted pos xs) : nearest pos xs t w =
    ((before pos xs t).getLast?.toList ++ (after pos xs t).head?.toList).foldl
      (consider pos t w) none := by
  unfold nearest
  rw [h.lowerBound, ← neighbours_append, ← h.split]

/-! ## Items out of the window -/

theorem consider_far {a : α} (h : ¬|pos a - t| ≤ w) (best : Option α) :
    consider pos t w best a = best := if_neg (fun hle => h hle.1)

/-- A scan of sorted items takes the nearest, or none when all are out of the window. -/
theorem scan (h : Sorted pos xs) :
    match xs.foldl (consider pos t w) none with
    | none => ∀ a ∈ xs, ¬|pos a - t| ≤ w
    | some a => IsNearest pos xs t w a := by
  induction xs using List.reverseRecOn with
  | nil => exact fun a ha => absurd ha List.not_mem_nil
  | append_singleton xs b ih =>
      obtain ⟨hxs, -, hle⟩ := List.pairwise_append.mp h
      have hle : ∀ a ∈ xs, pos a ≤ pos b := fun a ha => hle a ha b (List.mem_singleton_self b)
      have ih := ih hxs
      rw [List.foldl_append, List.foldl_cons, List.foldl_nil]
      cases hbest : xs.foldl (consider pos t w) none with
      | none =>
          rw [hbest] at ih
          by_cases hb : |pos b - t| ≤ w
          · rw [show consider pos t w none b = some b from if_pos ⟨hb, nofun⟩]
            constructor
            · simp
            · exact hb
            · intro a ha hwithin
              rcases List.mem_append.mp ha with hold | hnew
              · exact absurd hwithin (ih a hold)
              · rw [List.mem_singleton.mp hnew]
            · intro a ha heq
              rcases List.mem_append.mp ha with hold | hnew
              · exact absurd (heq ▸ hb) (ih a hold)
              · rw [List.mem_singleton.mp hnew]
          · rw [consider_far hb]
            intro a ha
            rcases List.mem_append.mp ha with hold | hnew
            · exact ih a hold
            · rwa [List.mem_singleton.mp hnew]
      | some a =>
          rw [hbest] at ih
          by_cases hb : |pos b - t| ≤ w ∧ |pos b - t| < |pos a - t|
          · have htake : consider pos t w (some a) b = some b := by
              refine if_pos ⟨hb.1, ?_⟩
              rintro _ ⟨⟩
              exact hb.2
            rw [htake]
            constructor
            · simp
            · exact hb.1
            · intro c hc hwithin
              rcases List.mem_append.mp hc with hold | hnew
              · exact hb.2.le.trans (ih.closest c hold hwithin)
              · rw [List.mem_singleton.mp hnew]
            · intro c hc heq
              rcases List.mem_append.mp hc with hold | hnew
              · exact absurd (ih.closest c hold (heq ▸ hb.1)) (not_le.mpr (heq ▸ hb.2))
              · rw [List.mem_singleton.mp hnew]
          · have hkeep : consider pos t w (some a) b = some a :=
              if_neg (fun h => hb ⟨h.1, h.2 a rfl⟩)
            rw [hkeep]
            constructor
            · exact List.mem_append_left _ ih.mem
            · exact ih.within
            · intro c hc hwithin
              rcases List.mem_append.mp hc with hold | hnew
              · exact ih.closest c hold hwithin
              · rw [List.mem_singleton.mp hnew] at hwithin ⊢
                exact not_lt.mp (fun hlt => hb ⟨hwithin, hlt⟩)
            · intro c hc heq
              rcases List.mem_append.mp hc with hold | hnew
              · exact ih.earlier c hold heq
              · rw [List.mem_singleton.mp hnew]
                exact hle a ih.mem

variable [IsOrderedAddMonoid K]

theorem dist_before {a : α} (h : pos a < t) : |pos a - t| = t - pos a := by
  rw [abs_sub_comm, abs_of_pos (sub_pos.mpr h)]

theorem dist_after {a : α} (h : t ≤ pos a) : |pos a - t| = pos a - t :=
  abs_of_nonneg (sub_nonneg.mpr h)

/-- The last of a part of the items before the point counts only if it is within the
window. -/
theorem foldl_last {ys : List α} (h : Sorted pos ys) (hys : ∀ a ∈ ys, pos a < t)
    (best : Option α) :
    ys.getLast?.toList.foldl (consider pos t w) best =
      (ys.filter (fun a => decide (|pos a - t| ≤ w))).getLast?.toList.foldl
        (consider pos t w) best := by
  rcases ys.eq_nil_or_concat with rfl | ⟨front, b, rfl⟩
  · rfl
  · rw [List.concat_eq_append] at h hys ⊢
    by_cases hb : |pos b - t| ≤ w
    · rw [List.filter_append]
      simp [hb]
    · have hfar : ∀ a ∈ front ++ [b], ¬|pos a - t| ≤ w := by
        intro a ha hle
        have hab : pos a ≤ pos b := by
          rcases List.mem_append.mp ha with hfront | hlast
          · exact (List.pairwise_append.mp h).2.2 a hfront b (List.mem_singleton_self b)
          · rw [List.mem_singleton.mp hlast]
        rw [dist_before (hys a ha)] at hle
        rw [dist_before (hys b (by simp))] at hb
        exact hb ((sub_le_sub_left hab t).trans hle)
      have hnil : (front ++ [b]).filter (fun a => decide (|pos a - t| ≤ w)) = [] :=
        List.filter_eq_nil_iff.mpr (fun a ha hle => hfar a ha (of_decide_eq_true hle))
      rw [hnil]
      simp [consider_far hb]

theorem foldl_first {ys : List α} (h : Sorted pos ys) (hys : ∀ a ∈ ys, t ≤ pos a)
    (best : Option α) :
    ys.head?.toList.foldl (consider pos t w) best =
      (ys.filter (fun a => decide (|pos a - t| ≤ w))).head?.toList.foldl
        (consider pos t w) best := by
  cases ys with
  | nil => rfl
  | cons b rest =>
      by_cases hb : |pos b - t| ≤ w
      · simp [hb]
      · have hfar : ∀ a ∈ b :: rest, ¬|pos a - t| ≤ w := by
          intro a ha hle
          have hba : pos b ≤ pos a := by
            rcases List.mem_cons.mp ha with rfl | hrest
            · exact le_refl _
            · exact (List.pairwise_cons.mp h).1 a hrest
          rw [dist_after (hys a ha)] at hle
          rw [dist_after (hys b (List.mem_cons_self ..))] at hb
          exact hb ((sub_le_sub_right hba t).trans hle)
        have hnil : (b :: rest).filter (fun a => decide (|pos a - t| ≤ w)) = [] :=
          List.filter_eq_nil_iff.mpr (fun a ha hle => hfar a ha (of_decide_eq_true hle))
        rw [hnil]
        simp [consider_far hb]

/-- Only the items within the window matter. -/
theorem Sorted.nearest_within (h : Sorted pos xs) : nearest pos xs t w =
    (((before pos xs t).filter (fun a => decide (|pos a - t| ≤ w))).getLast?.toList ++
      ((after pos xs t).filter (fun a => decide (|pos a - t| ≤ w))).head?.toList).foldl
        (consider pos t w) none := by
  have hbefore : Sorted pos (before pos xs t) := h.filter _
  have hafter : Sorted pos (after pos xs t) := h.filter _
  rw [h.nearest_eq, List.foldl_append, List.foldl_append,
    foldl_last hbefore (fun a ha => of_decide_eq_true (List.mem_filter.mp ha).2),
    foldl_first hafter (fun a ha => of_decide_eq_true (List.mem_filter.mp ha).2)]

/-- A part of the items that holds those within the window has the same nearest. -/
theorem Sorted.nearest_filter (h : Sorted pos xs) {p : α → Bool}
    (hp : ∀ a ∈ xs, |pos a - t| ≤ w → p a = true) :
    nearest pos (xs.filter p) t w = nearest pos xs t w := by
  have hpart : ∀ q : α → Bool,
      ((xs.filter p).filter q).filter (fun a => decide (|pos a - t| ≤ w)) =
        (xs.filter q).filter (fun a => decide (|pos a - t| ≤ w)) := by
    intro q
    rw [List.filter_filter, List.filter_filter, List.filter_filter]
    refine List.filter_congr (fun a ha => ?_)
    by_cases hle : |pos a - t| ≤ w
    · simp [hp a ha hle]
    · simp [hle]
  have hsorted : Sorted pos (xs.filter p) := h.filter _
  rw [h.nearest_within, hsorted.nearest_within]
  unfold before after
  rw [hpart, hpart]

/-! ## What is found -/

/-- No item is nearer than both neighbours of the point. -/
theorem Sorted.neighbour (h : Sorted pos xs) {a : α} (ha : a ∈ xs) :
    ∃ b ∈ (before pos xs t).getLast?.toList ++ (after pos xs t).head?.toList,
      |pos b - t| ≤ |pos a - t| ∧ (|pos b - t| = |pos a - t| → pos b ≤ pos a) := by
  by_cases hlt : pos a < t
  · obtain ⟨b, hlast, hb, hab⟩ := h.last_before (List.mem_filter.mpr ⟨ha, decide_eq_true hlt⟩)
    have hbt : pos b < t := of_decide_eq_true (List.mem_filter.mp hb).2
    refine ⟨b, List.mem_append_left _ (by simp [hlast]), ?_⟩
    rw [dist_before hlt, dist_before hbt]
    exact ⟨sub_le_sub_left hab t, fun heq => (sub_right_injective heq).le⟩
  · have hle := not_lt.mp hlt
    obtain ⟨b, hfirst, hb, hba⟩ := h.first_after (List.mem_filter.mpr ⟨ha, decide_eq_true hle⟩)
    have hbt : t ≤ pos b := of_decide_eq_true (List.mem_filter.mp hb).2
    refine ⟨b, List.mem_append_right _ (by simp [hfirst]), ?_⟩
    rw [dist_after hle, dist_after hbt]
    exact ⟨sub_le_sub_right hba t, fun _ => hba⟩

/-- The search finds what a scan of all items would take. -/
theorem Sorted.nearest_spec (h : Sorted pos xs) :
    match nearest pos xs t w with
    | none => ∀ a ∈ xs, ¬|pos a - t| ≤ w
    | some a => IsNearest pos xs t w a := by
  have hscan := scan (t := t) (w := w) (neighbours_sorted pos xs t)
  rw [← h.nearest_eq] at hscan
  cases hfound : nearest pos xs t w with
  | none =>
      rw [hfound] at hscan
      intro a ha hle
      obtain ⟨b, hb, hba, -⟩ := h.neighbour (t := t) ha
      exact hscan b hb (hba.trans hle)
  | some a =>
      rw [hfound] at hscan
      constructor
      · rcases List.mem_append.mp hscan.mem with hl | hr
        · exact (List.mem_filter.mp (List.mem_of_getLast? (Option.mem_toList.mp hl))).1
        · exact (List.mem_filter.mp (List.mem_of_mem_head? (Option.mem_toList.mp hr))).1
      · exact hscan.within
      · intro c hc hle
        obtain ⟨b, hb, hbc, -⟩ := h.neighbour (t := t) hc
        exact (hscan.closest b hb (hbc.trans hle)).trans hbc
      · intro c hc heq
        obtain ⟨b, hb, hbc, htie⟩ := h.neighbour (t := t) hc
        have hle : |pos b - t| ≤ |pos a - t| := hbc.trans heq.le
        have hba := le_antisymm hle (hscan.closest b hb (hle.trans hscan.within))
        exact (hscan.earlier b hb hba).trans (htie (hba.trans heq.symm))

end Nearest
