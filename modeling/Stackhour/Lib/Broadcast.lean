import Stackhour.Lib.Numbering

/-!
# A bounded broadcast over a numbered log

A receiver of a broadcast is a position in the list of everything sent. When it
falls more than the capacity behind, the oldest messages are lost to it and it is
told so. `Caught bus n p m` says that a receiver at position `p`, which has
handled every number up to `m`, can go on without a hole in a log of `n` rows:
what it has yet to receive is old, or continues at `m + 1`.
-/

namespace Broadcast

open Numbering

universe u

variable {ε : Type u}

/-- The outcome of a receive. -/
inductive Received (ε : Type u) where
  | message (e : ε)
  | lagged
  | empty

/-- Receive at position `p`, and the position afterwards. An overrun receiver
moves to the oldest message still held. -/
def recv (capacity : ℕ) (bus : List ε) (p : ℕ) : Received ε × ℕ :=
  if p + capacity < bus.length then (.lagged, bus.length - capacity)
  else
    match bus[p]? with
    | some e => (.message e, p + 1)
    | none => (.empty, p)

theorem recv_message {capacity : ℕ} {bus : List ε} {p q : ℕ} {e : ε}
    (h : recv capacity bus p = (.message e, q)) : bus[p]? = some e ∧ q = p + 1 := by
  unfold recv at h
  split at h
  · cases h
  · split at h
    · next e' he =>
        obtain ⟨h1, h2⟩ := Prod.mk.inj h
        cases h1
        exact ⟨he, h2.symm⟩
    · cases h

theorem recv_lagged {capacity : ℕ} {bus : List ε} {p q : ℕ}
    (h : recv capacity bus p = (.lagged, q)) : q ≤ bus.length := by
  unfold recv at h
  split at h
  · obtain ⟨-, h2⟩ := Prod.mk.inj h
    omega
  · split at h <;> cases h

/-- From some position `k` on, the bus carries the last numbers of the log; what
lies before `k`, and what the receiver has passed, is at most `m`. -/
def Caught (num : ε → ℤ) (bus : List ε) (n : ℤ) (p : ℕ) (m : ℤ) : Prop :=
  p ≤ bus.length ∧ ∃ k ≤ bus.length, (∀ e ∈ bus.take k, num e ≤ m) ∧
    (bus.drop k).map num = after (n - (bus.length - k : ℕ)) (bus.length - k) ∧
    n - bus.length + (max p k : ℕ) ≤ m

namespace Caught

variable {num : ε → ℤ} {bus : List ε} {n m : ℤ} {p : ℕ}

/-- A receiver that has handled the whole log is caught up, wherever it is. -/
theorem full (hle : ∀ e ∈ bus, num e ≤ n) (hp : p ≤ bus.length) : Caught num bus n p n := by
  refine ⟨hp, bus.length, le_refl _, ?_, ?_, ?_⟩
  · rwa [List.take_length]
  · simp
  · rw [max_eq_right hp]
    omega

/-- The next row of the log is sent. -/
theorem push (h : Caught num bus n p m) {e : ε} (he : num e = n + 1) :
    Caught num (bus ++ [e]) (n + 1) p m := by
  obtain ⟨hp, k, hk, hold, htail, hle⟩ := h
  have hlen : (bus ++ [e]).length = bus.length + 1 := by simp
  refine ⟨by omega, k, by omega, ?_, ?_, ?_⟩
  · rwa [List.take_append_of_le_length hk]
  · rw [List.drop_append_of_le_length hk, List.map_append, htail, hlen,
      show bus.length + 1 - k = bus.length - k + 1 by omega, after_succ, List.map_singleton]
    congr 2
    · push_cast
      ring
    · rw [he]
      omega
  · rw [hlen]
    push_cast
    omega

/-- A received message is old, or the next number. -/
theorem message (h : Caught num bus n p m) {e : ε} (he : bus[p]? = some e) :
    (num e ≤ m ∧ Caught num bus n (p + 1) m) ∨
      (num e = m + 1 ∧ Caught num bus n (p + 1) (m + 1)) := by
  obtain ⟨hp, k, hk, hold, htail, hle⟩ := h
  obtain ⟨hlt, hget⟩ := List.getElem?_eq_some_iff.mp he
  by_cases hpk : p < k
  · -- before the numbered tail
    have hmem : e ∈ bus.take k := by
      rw [List.mem_take_iff_getElem]
      exact ⟨p, by omega, hget⟩
    exact .inl ⟨hold e hmem, by omega, k, hk, hold, htail, by omega⟩
  · have hnum : num e = n - bus.length + p + 1 := by
      have hq := congrArg (fun l => l[p - k]?) htail
      simp only [List.getElem?_map, List.getElem?_drop] at hq
      rw [show k + (p - k) = p by omega, he] at hq
      have hin : p - k < bus.length - k := by omega
      simp only [after, List.getElem?_map, List.getElem?_range hin, Option.map_some,
        Option.some.injEq] at hq
      omega
    by_cases hm : num e ≤ m
    · exact .inl ⟨hm, by omega, k, hk, hold, htail, by omega⟩
    · refine .inr ⟨by omega, by omega, k, hk, fun x hx => ?_, htail, by omega⟩
      have := hold x hx
      omega

/-- A receiver with nothing left to receive has the whole log behind it. -/
theorem idle (h : Caught num bus n p m) (hp : p = bus.length) : n ≤ m := by
  obtain ⟨-, k, hk, -, -, hle⟩ := h
  rw [hp, max_eq_left hk] at hle
  omega

end Caught

end Broadcast
