import Mathlib.Algebra.Order.Floor.Semiring
import Mathlib.Data.Rat.Floor
import Mathlib.Tactic.Linarith

/-!
# Waiting before a reconnect

The wait doubles with each attempt up to a maximum, and half of it is jitter. The shift
is clamped and the product saturates, so the cap is that of the integers only while the
clamp is not reached before the maximum.
-/

namespace Stackhour.Node

/-- `std::time::Duration`. -/
structure Duration where
  secs : ℕ
  nanos : ℕ
  secs_lt : secs < 2 ^ 64
  nanos_lt : nanos < 10 ^ 9

namespace Duration

/-- `as_millis`. -/
def asMillis (d : Duration) : ℕ := d.secs * 1000 + d.nanos / 10 ^ 6

/-- `from_millis`. -/
def fromMillis (n : ℕ) (h : n < 2 ^ 64) : Duration :=
  ⟨n / 1000, n % 1000 * 10 ^ 6, by omega, by omega⟩

@[simp] theorem asMillis_fromMillis {n : ℕ} (h : n < 2 ^ 64) : (fromMillis n h).asMillis = n := by
  show n / 1000 * 1000 + n % 1000 * 10 ^ 6 / 10 ^ 6 = n
  rw [Nat.mul_div_cancel _ (by norm_num)]
  omega

end Duration

/-- What `jitter_fraction` gives. -/
structure Jitter where
  fraction : ℚ
  nonneg : 0 ≤ fraction
  lt_one : fraction < 1

/-- `u64::saturating_mul`. -/
def saturatingMul (a b : ℕ) : ℕ := min (a * b) (2 ^ 64 - 1)

/-- `delay`, from the milliseconds that the two durations are cast to. -/
def delayMs (attempt baseMs maxMs : ℕ) (jitter : Jitter) : ℕ :=
  if baseMs = 0 ∨ maxMs = 0 then 0
  else
    let shift := min (attempt - 1) 32
    let capped := min (saturatingMul baseMs (2 ^ shift)) maxMs
    let half := capped / 2
    half + ⌊half * jitter.fraction⌋₊

/-- Jitter adds less than what it is a fraction of. -/
theorem jitter_le (n : ℕ) (jitter : Jitter) : ⌊n * jitter.fraction⌋₊ ≤ n := by
  have hmul : n * jitter.fraction ≤ n := mul_le_of_le_one_right n.cast_nonneg jitter.lt_one.le
  exact (Nat.floor_mono hmul).trans_eq (Nat.floor_natCast n)

/-- Half of the cap, and some of the other half: the sum does not overflow. -/
theorem delayMs_bounds (attempt baseMs : ℕ) {maxMs : ℕ} (h : maxMs < 2 ^ 64) (jitter : Jitter) :
    min (baseMs * 2 ^ min (attempt - 1) 32) maxMs / 2 ≤ delayMs attempt baseMs maxMs jitter ∧
      delayMs attempt baseMs maxMs jitter ≤ min (baseMs * 2 ^ min (attempt - 1) 32) maxMs := by
  unfold delayMs saturatingMul
  split
  · next hzero =>
      have hnone : min (baseMs * 2 ^ min (attempt - 1) 32) maxMs = 0 := by
        rcases hzero with rfl | rfl
        · simp
        · simp
      rw [hnone]
      exact ⟨le_rfl, le_rfl⟩
  · have hcapped : min (min (baseMs * 2 ^ min (attempt - 1) 32) (2 ^ 64 - 1)) maxMs =
        min (baseMs * 2 ^ min (attempt - 1) 32) maxMs := by omega
    have hjitter := jitter_le (min (baseMs * 2 ^ min (attempt - 1) 32) maxMs / 2) jitter
    dsimp only
    rw [hcapped]
    omega

/-- `delay`: the casts to `u64` take the milliseconds modulo `2 ^ 64`. -/
def delay (attempt : ℕ) (base max : Duration) (jitter : Jitter) : Duration :=
  .fromMillis (delayMs attempt (base.asMillis % 2 ^ 64) (max.asMillis % 2 ^ 64) jitter)
    (by
      have hmax : max.asMillis % 2 ^ 64 < 2 ^ 64 := Nat.mod_lt _ (by norm_num)
      have hbounds := (delayMs_bounds attempt (base.asMillis % 2 ^ 64) hmax jitter).2
      omega)

/-! ## The bounds -/

/-- The cap, over the integers. -/
def cap (attempt base max : ℕ) : ℕ := min (base * 2 ^ (attempt - 1)) max

/-- Whatever the jitter, the delay is between half of the cap and the cap, which does not
fall from one attempt to the next. -/
def Bounded (attempt : ℕ) (base max : Duration) : Prop :=
  (∀ jitter, cap attempt base.asMillis max.asMillis / 2 ≤ (delay attempt base max jitter).asMillis ∧
    (delay attempt base max jitter).asMillis ≤ cap attempt base.asMillis max.asMillis) ∧
  cap attempt base.asMillis max.asMillis ≤ max.asMillis ∧
  ∀ later, attempt ≤ later →
    cap attempt base.asMillis max.asMillis ≤ cap later base.asMillis max.asMillis

/-- The clamp is not reached before the maximum, and the casts keep what the cap is
made of. -/
def Unclamped (attempt base max : ℕ) : Prop :=
  if base < 2 ^ 64 then
    if max < 2 ^ 64 then attempt ≤ 33 ∨ max ≤ base * 2 ^ 32 + 1
    else attempt ≤ 33 ∧ base * 2 ^ (attempt - 1) / 2 ≤ max % 2 ^ 64 / 2
  else max < 2 ^ 64 ∧ max / 2 ≤ base % 2 ^ 64 * 2 ^ min (attempt - 1) 32 / 2

theorem cap_mono {attempt later base max : ℕ} (h : attempt ≤ later) :
    cap attempt base max ≤ cap later base max := by
  have hpow : base * 2 ^ (attempt - 1) ≤ base * 2 ^ (later - 1) :=
    Nat.mul_le_mul_left _ (Nat.pow_le_pow_right (by norm_num) (by omega))
  exact min_le_min_right _ hpow

/-- What the code takes for the cap is not above it. -/
theorem clamped_le_cap (attempt base max : ℕ) :
    min (base % 2 ^ 64 * 2 ^ min (attempt - 1) 32) (max % 2 ^ 64) ≤ cap attempt base max := by
  have hpow : 2 ^ min (attempt - 1) 32 ≤ 2 ^ (attempt - 1) :=
    Nat.pow_le_pow_right (by norm_num) (min_le_left _ _)
  exact min_le_min (Nat.mul_le_mul (Nat.mod_le _ _) hpow) (Nat.mod_le _ _)

theorem delay_asMillis (attempt : ℕ) (base max : Duration) (jitter : Jitter) :
    (delay attempt base max jitter).asMillis =
      delayMs attempt (base.asMillis % 2 ^ 64) (max.asMillis % 2 ^ 64) jitter :=
  Duration.asMillis_fromMillis _

/-- No jitter at all. -/
def Jitter.none : Jitter := ⟨0, le_rfl, zero_lt_one⟩

theorem delayMs_none (attempt baseMs : ℕ) {maxMs : ℕ} (h : maxMs < 2 ^ 64) :
    delayMs attempt baseMs maxMs .none =
      min (baseMs * 2 ^ min (attempt - 1) 32) maxMs / 2 := by
  have hle := (delayMs_bounds attempt baseMs h .none).1
  have hno : ∀ n : ℕ, ⌊n * Jitter.none.fraction⌋₊ = 0 := by
    intro n
    simp [Jitter.none]
  refine le_antisymm ?_ hle
  unfold delayMs saturatingMul
  split
  · exact Nat.zero_le _
  · dsimp only
    rw [hno]
    omega

/-- The bounds hold as soon as the floor does. -/
theorem bounded_iff (attempt : ℕ) (base max : Duration) : Bounded attempt base max ↔
    cap attempt base.asMillis max.asMillis / 2 ≤
      min (base.asMillis % 2 ^ 64 * 2 ^ min (attempt - 1) 32) (max.asMillis % 2 ^ 64) / 2 := by
  have hmax : max.asMillis % 2 ^ 64 < 2 ^ 64 := Nat.mod_lt _ (by norm_num)
  constructor
  · rintro ⟨hbounds, -⟩
    have hfloor := (hbounds .none).1
    rwa [delay_asMillis, delayMs_none _ _ hmax] at hfloor
  · intro hfloor
    refine ⟨fun jitter => ?_, min_le_right _ _, fun later h => cap_mono h⟩
    obtain ⟨hlow, hhigh⟩ := delayMs_bounds attempt (base.asMillis % 2 ^ 64) hmax jitter
    rw [delay_asMillis]
    exact ⟨hfloor.trans hlow, hhigh.trans (clamped_le_cap _ _ _)⟩

/-- The powers that the shift stands for. -/
theorem pow_clamped {attempt : ℕ} (h : ¬attempt ≤ 33) :
    2 ^ min (attempt - 1) 32 = 2 ^ 32 ∧ 2 * 2 ^ 32 ≤ 2 ^ (attempt - 1) := by
  constructor
  · rw [min_eq_right (by omega)]
  · have hpow : 2 ^ 33 ≤ 2 ^ (attempt - 1) := Nat.pow_le_pow_right (by norm_num) (by omega)
    omega

theorem pow_unclamped {attempt : ℕ} (h : attempt ≤ 33) :
    2 ^ min (attempt - 1) 32 = 2 ^ (attempt - 1) := by
  rw [min_eq_left (by omega)]

/-- The floor is kept as long as the cap is. -/
theorem floor_iff {base : ℕ} (hbase : 0 < base) (attempt max : ℕ) :
    cap attempt base max / 2 ≤
        min (base % 2 ^ 64 * 2 ^ min (attempt - 1) 32) (max % 2 ^ 64) / 2 ↔
      Unclamped attempt base max := by
  unfold Unclamped cap
  split
  · next hsmall =>
      rw [Nat.mod_eq_of_lt hsmall]
      by_cases hattempt : attempt ≤ 33
      · rw [pow_unclamped hattempt]
        generalize base * 2 ^ (attempt - 1) = step
        split
        · next hmax =>
            rw [Nat.mod_eq_of_lt hmax]
            exact ⟨fun _ => .inl hattempt, fun _ => le_rfl⟩
        · omega
      · -- the shift stops at 32: the step is at most half of what it should be
        obtain ⟨hshift, hpow⟩ := pow_clamped hattempt
        have hstep : base * (2 * 2 ^ 32) ≤ base * 2 ^ (attempt - 1) := Nat.mul_le_mul_left _ hpow
        rw [hshift]
        generalize base * 2 ^ (attempt - 1) = step at hstep ⊢
        split
        · next hmax =>
            rw [Nat.mod_eq_of_lt hmax]
            omega
        · omega
  · next hlarge =>
      have hpow : 1 ≤ 2 ^ (attempt - 1) := Nat.one_le_two_pow
      have hstep : base * 1 ≤ base * 2 ^ (attempt - 1) := Nat.mul_le_mul_left _ hpow
      generalize base * 2 ^ (attempt - 1) = step at hstep ⊢
      generalize base % 2 ^ 64 * 2 ^ min (attempt - 1) 32 = clamped
      by_cases hmax : max < 2 ^ 64
      · rw [Nat.mod_eq_of_lt hmax]
        omega
      · have hcast : max % 2 ^ 64 < 2 ^ 64 := Nat.mod_lt _ (by norm_num)
        omega

/-- **The delay is within its bounds** exactly when the shift is not clamped before the
maximum is reached and the casts lose nothing of the cap. -/
theorem delay_bounded {base : Duration} (hbase : 0 < base.asMillis) (attempt : ℕ)
    (max : Duration) :
    Bounded attempt base max ↔ Unclamped attempt base.asMillis max.asMillis :=
  (bounded_iff attempt base max).trans (floor_iff hbase attempt max.asMillis)

/-- Half a second up to sixteen seconds, the defaults. -/
theorem delay_bounded_default :
    Bounded 40 (.fromMillis 500 (by decide)) (.fromMillis 16000 (by decide)) :=
  (delay_bounded (by simp) 40 _).mpr (by simp [Unclamped])

/-- One millisecond is doubled 32 times at most: the wait stops at a quarter of the
maximum. -/
theorem shift_stops :
    (delay 34 (.fromMillis 1 (by decide)) (.fromMillis (2 ^ 33) (by decide)) .none).asMillis =
        2 ^ 31 ∧
      ¬Bounded 34 (.fromMillis 1 (by decide)) (.fromMillis (2 ^ 33) (by decide)) := by
  constructor
  · rw [delay_asMillis, Duration.asMillis_fromMillis, Duration.asMillis_fromMillis,
      delayMs_none _ _ (by norm_num)]
    norm_num
  · rw [bounded_iff, Duration.asMillis_fromMillis, Duration.asMillis_fromMillis]
    norm_num [cap]

/-! ## The reconnect loop -/

/-- How one connection attempt ended. -/
inductive SessionEnd where
  | shutdown
  | rejected
  | disconnected (established : Bool)

/-- A session that came up resets the ramp. -/
def nextAttempt (attempt : ℕ) (established : Bool) : ℕ :=
  min ((if established then 0 else attempt) + 1) (2 ^ 32 - 1)

/-- The waits of `run_with_engine`, from the ends of its sessions. -/
def waits (base max : Duration) : ℕ → List (SessionEnd × Jitter) → List Duration
  | _, [] => []
  | attempt, (.disconnected established, jitter) :: rest =>
      delay (nextAttempt attempt established) base max jitter ::
        waits base max (nextAttempt attempt established) rest
  | _, (.shutdown, _) :: _ => []
  | _, (.rejected, _) :: _ => []

theorem nextAttempt_pos (attempt : ℕ) (established : Bool) : 1 ≤ nextAttempt attempt established := by
  unfold nextAttempt
  omega

/-- The cap of a later attempt is at least that of the first. -/
theorem first_le_cap {attempt base max : ℕ} (h : 1 ≤ attempt) :
    min base max ≤ cap attempt base max := by
  have hfirst := @cap_mono 1 attempt base max h
  simpa [cap] using hfirst

/-- **No reconnect loop waits longer than the maximum**, and none spins while the cap is
not clamped. -/
theorem waits_bounded {base max : Duration} (hbase : 0 < base.asMillis)
    (h : ∀ attempt, Unclamped attempt base.asMillis max.asMillis) :
    ∀ attempt ends, ∀ d ∈ waits base max attempt ends,
      min base.asMillis max.asMillis / 2 ≤ d.asMillis ∧ d.asMillis ≤ max.asMillis := by
  intro attempt ends
  induction ends generalizing attempt with
  | nil => exact fun d hd => absurd hd List.not_mem_nil
  | cons next rest ih =>
      obtain ⟨ended, jitter⟩ := next
      cases ended with
      | shutdown => exact fun d hd => absurd hd List.not_mem_nil
      | rejected => exact fun d hd => absurd hd List.not_mem_nil
      | disconnected established =>
          intro d hd
          rcases List.mem_cons.mp hd with rfl | hd
          · have hfloor := (floor_iff hbase (nextAttempt attempt established) max.asMillis).mpr (h _)
            obtain ⟨hbounds, hmax, -⟩ := (bounded_iff _ base max).mpr hfloor
            have hfirst := @first_le_cap _ base.asMillis max.asMillis
              (nextAttempt_pos attempt established)
            exact ⟨(Nat.div_le_div_right hfirst).trans (hbounds jitter).1,
              (hbounds jitter).2.trans hmax⟩
          · exact ih _ d hd

end Stackhour.Node
