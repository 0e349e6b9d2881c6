import Lighting.Policy.Retry
import Lighting.Proofs.Binary.Power

/-!
# How long an attempt waits

The first wait of a policy is a span of time, but waits are counted in whole milliseconds and in single
precision.  So the first attempt waits as long as the first wait `counted` that way, and no later attempt
waits less, since a factor that is not below one does not take a product below what it was.  No attempt waits
longer than the ceiling.

What is counted may be less than what was set.  `IsBounded` is what one would expect of a policy, that no
attempt waits less than the first wait as it was set; it holds of the policies whose first wait is a number
that can be counted.
-/

namespace Lighting

open Binary (Value single)
open Text (wordLimit)

theorem Duration.nanos_ofMillis {n : Nat} (few : n < wordLimit) :
    (ofMillis n).nanos = n * nanosPerMilli := by
  refine nanos_ofNanos ?_
  simp only [wordLimit, limit, nanosPerMilli, nanosPerSecond] at *
  omega

theorem Duration.millis_ofMillis {n : Nat} (few : n < wordLimit) : (ofMillis n).millis = n := by
  rw [millis, nanos_ofMillis few]
  exact Nat.mul_div_cancel n (by decide)

theorem Duration.ofMillis_mono {m n : Nat} (le : m ≤ n) : ofMillis m ≤ ofMillis n := by
  rw [le_def, ofMillis, ofMillis, nanos_ofNanos_eq, nanos_ofNanos_eq]
  exact Nat.le_min.mpr ⟨Nat.le_trans (Nat.min_le_left _ _) (Nat.mul_le_mul_right _ le),
    Nat.min_le_right _ _⟩

/-! ## Cutting off behind the point -/

namespace Binary.Value

variable {f : Format} {bound m n : Nat} {x : Value f}

theorem truncate_natCast (n : Nat) :
    (.finite n : Value f).truncate bound = Nat.min (n / f.units) (bound - 1) := rfl

theorem truncate_le (x : Value f) : x.truncate bound ≤ bound - 1 := by
  unfold truncate
  split
  · exact Nat.min_le_right _ _
  · split
    · exact Nat.zero_le _
    · exact Nat.le_refl _
  · exact Nat.zero_le _

/-- **A factor that is not below one does not make less of a number.** -/
theorem truncate_le_mul (kept : f.Exact m) (h : x.IsAtLeast (2 ^ 0)) :
    (.finite m : Value f).truncate bound ≤ ((.finite m : Value f).mul x).truncate bound := by
  rcases h.cases with rfl | ⟨y, rfl, above⟩
  · rcases Nat.eq_zero_or_pos m with rfl | some
    · rw [truncate_natCast, Nat.zero_div]
      exact Nat.le_trans (Nat.min_le_left _ _) (Nat.zero_le _)
    · rw [mul_infinite some]
      exact truncate_le _
  · rw [Nat.pow_zero, Nat.one_mul] at above
    rw [mul_natCast, ofUnits_natCast]
    split
    · have more : m ≤ f.round (m * y) f.units :=
        Format.le_round f.units_pos kept (Nat.mul_le_mul_left m above)
      rw [truncate_natCast, truncate_natCast]
      exact Nat.le_min.mpr ⟨Nat.le_trans (Nat.min_le_left _ _) (Nat.div_le_div_right more),
        Nat.min_le_right _ _⟩
    · exact truncate_le _

end Binary.Value

namespace RetryPolicy

variable {p : RetryPolicy}

/-- The longest wait of any attempt. -/
def cap (p : RetryPolicy) : Duration := p.maxTimeout.max p.timeout

/-- The first wait as it is counted: in whole milliseconds, rounded to a number of single precision, and no
more than fit in 64 bits. -/
def counted (p : RetryPolicy) : Duration :=
  .ofMillis (Nat.min (single.round p.timeout.millis 1) (wordLimit - 1))

/-- The waits do not grow: the factor is at most one, or undefined. -/
def IsFlat (p : RetryPolicy) : Prop := Value.one.lt p.backoff = false

/-- What one expects of the waits of a policy. -/
structure IsBounded (p : RetryPolicy) : Prop where
  /-- No attempt waits less than the first wait as it was set. -/
  notShorter : ∀ n, 1 ≤ n → p.timeout ≤ p.timeoutFor n
  /-- No attempt waits longer than the ceiling, or the first wait if that is longer. -/
  notLonger : ∀ n, 1 ≤ n → p.timeoutFor n ≤ p.maxTimeout.max p.timeout
  /-- The first attempt waits for the first wait. -/
  first : p.timeoutFor 1 = p.timeout
  /-- So do all of them, if waits do not grow. -/
  flat : p.IsFlat → ∀ n, 1 ≤ n → p.timeoutFor n = p.timeout

/-! ## Counting -/

/-- The milliseconds of a span are in the range of single precision. -/
theorem round_millis_lt_limit (d : Duration) : single.round (d.millis * single.units) 1 < single.limit := by
  have few : d.millis ≤ 2 ^ 74 := by
    have := d.lt_limit
    simp only [Duration.millis, nanosPerMilli, nanosPerSecond] at *
    omega
  have power := Binary.Format.exact_two_pow_mul_units Binary.Format.holdsOne_single.precision 74
  refine Nat.lt_of_le_of_lt (Binary.Format.round_le Nat.one_pos power ?_)
    (Binary.Format.two_pow_mul_units_lt_limit (by decide))
  rw [Nat.mul_one]
  exact Nat.mul_le_mul_right _ few

theorem exact_round_millis (d : Duration) :
    single.Exact (single.round (d.millis * single.units) 1) :=
  Binary.Format.exact_round (by decide) Nat.one_pos

theorem ofNat_millis (d : Duration) : (Value.ofNat d.millis : Value single) =
    .finite (single.round (d.millis * single.units) 1 : Nat) := by
  rw [Value.ofNat, Value.ofRatio, Value.ofUnits_of_lt (round_millis_lt_limit d)]

theorem ofMillis_truncate (p : RetryPolicy) :
    Duration.ofMillis ((Value.ofNat p.timeout.millis : Value single).truncate wordLimit) = p.counted := by
  rw [ofNat_millis, Value.truncate_natCast, Binary.Format.round_mul_units,
    Nat.mul_div_cancel _ single.units_pos]
  rfl

theorem timeoutFor_eq (p : RetryPolicy) (n : Nat) : p.timeoutFor n = (Duration.ofMillis
    (((Value.ofNat p.timeout.millis).mul
      (p.backoff.atLeastOne.pow (min (n - 1) maxExponent))).truncate wordLimit)).min p.cap := rfl

/-- Without growth the first wait is counted, and nothing else is done to it. -/
theorem timeoutFor_of_pow_eq_one {n : Nat}
    (none : p.backoff.atLeastOne.pow (min (n - 1) maxExponent) = .one) :
    p.timeoutFor n = p.counted.min p.cap := by
  rw [timeoutFor_eq, none, ofNat_millis,
    Value.mul_one (exact_round_millis _) (round_millis_lt_limit _), ← ofNat_millis, ofMillis_truncate]

/-- A factor that is at most one counts as one. -/
theorem IsFlat.atLeastOne (h : p.IsFlat) : p.backoff.atLeastOne = .one := by
  unfold IsFlat at h
  unfold Value.atLeastOne
  split
  · rfl
  · rename_i above
    cases factor : p.backoff with
    | finite n =>
        rw [factor, Value.one, Value.lt] at h
        rw [factor, Value.one, Value.lt] at above
        have notAbove : ¬ (single.units : Int) < n := by simpa using h
        have notBelow : ¬ n < single.units := by simpa using above
        obtain rfl : n = single.units := by omega
        rfl
    | infinite negative =>
        rw [factor] at h above
        cases negative
        · cases h
        · exact absurd rfl above
    | undefined => exact absurd (by rw [factor]; rfl) above

theorem timeoutFor_of_flat {n : Nat} (h : n ≤ 1 ∨ p.IsFlat) : p.timeoutFor n = p.counted.min p.cap := by
  refine timeoutFor_of_pow_eq_one ?_
  rcases h with early | flat
  · rw [Nat.sub_eq_zero_of_le early, Nat.zero_min, Value.pow_zero]
  · rw [flat.atLeastOne, Value.one_pow Binary.Format.holdsOne_single]

/-- **No attempt waits less than the first wait as it is counted.** -/
theorem counted_le_timeoutFor (p : RetryPolicy) (n : Nat) : p.counted.min p.cap ≤ p.timeoutFor n := by
  have growing := (Value.isAtLeast_atLeastOne p.backoff).pow Binary.Format.holdsOne_single
    (min (n - 1) maxExponent)
  rw [Nat.zero_mul] at growing
  rw [timeoutFor_eq, ← ofMillis_truncate]
  refine Duration.min_mono_left (Duration.ofMillis_mono ?_) _
  rw [ofNat_millis]
  exact Value.truncate_le_mul (exact_round_millis _) growing

theorem timeoutFor_le_cap (p : RetryPolicy) (n : Nat) : p.timeoutFor n ≤ p.cap :=
  Duration.min_le_right _ _

/-! ## What is expected of a policy -/

theorem nanos_cap (p : RetryPolicy) : p.cap.nanos = Nat.max p.maxTimeout.nanos p.timeout.nanos :=
  Duration.nanos_max _ _

theorem timeout_le_cap (p : RetryPolicy) : p.timeout ≤ p.cap := by
  rw [Duration.le_def, nanos_cap]
  exact Nat.le_max_right _ _

/-- No attempt waits less than the first wait as it was set, if counting does not take away from it. -/
theorem timeout_le_timeoutFor_iff (p : RetryPolicy) :
    (∀ n, 1 ≤ n → p.timeout ≤ p.timeoutFor n) ↔ p.timeout ≤ p.counted := by
  constructor
  · intro longer
    have first := longer 1 (Nat.le_refl 1)
    rw [timeoutFor_of_flat (Or.inl (Nat.le_refl 1)), Duration.le_def, Duration.nanos_min] at first
    exact Nat.le_trans first (Nat.min_le_left _ _)
  · intro whole n _
    refine Nat.le_trans ?_ (p.counted_le_timeoutFor n)
    rw [Duration.nanos_min]
    exact Nat.le_min.mpr ⟨whole, p.timeout_le_cap⟩

/-- The first wait is what was set, if counting leaves it as it is, or if it is counted as more and is the
longest wait of all. -/
theorem counted_min_cap_eq_iff (p : RetryPolicy) : p.counted.min p.cap = p.timeout ↔
    p.timeout = p.counted ∨ p.timeout ≤ p.counted ∧ p.maxTimeout ≤ p.timeout := by
  rw [Duration.ext_iff, Duration.ext_iff, Duration.le_def, Duration.le_def, Duration.nanos_min, nanos_cap]
  show Min.min _ (Max.max _ _) = _ ↔ _
  omega

theorem isBounded_iff (p : RetryPolicy) : p.IsBounded ↔ p.counted.min p.cap = p.timeout := by
  have early : 1 ≤ 1 ∨ p.IsFlat := Or.inl (Nat.le_refl 1)
  constructor
  · intro bounded
    rw [← timeoutFor_of_flat early]
    exact bounded.first
  · intro same
    refine ⟨fun n _ => ?_, fun n _ => p.timeoutFor_le_cap n, ?_, fun flat n _ => ?_⟩
    · rw [← same]
      exact p.counted_le_timeoutFor n
    · rw [timeoutFor_of_flat early, same]
    · rw [timeoutFor_of_flat (Or.inr flat), same]

/-- Whole milliseconds of few digits are counted as they are, and so are the most that fit in 64 bits. -/
theorem timeout_eq_counted_iff (p : RetryPolicy) : p.timeout = p.counted ↔
    ∃ k < wordLimit, (single.Exact k ∨ k + 1 = wordLimit) ∧ p.timeout = .ofMillis k := by
  constructor
  · intro same
    have few : Nat.min (single.round p.timeout.millis 1) (wordLimit - 1) < wordLimit :=
      Nat.lt_of_le_of_lt (Nat.min_le_right _ _) (by decide)
    refine ⟨_, few, ?_, same⟩
    rcases Nat.le_total (single.round p.timeout.millis 1) (wordLimit - 1) with fits | beyond
    · left
      rw [show Nat.min _ _ = _ from Nat.min_eq_left fits]
      exact Binary.Format.exact_round (by decide) Nat.one_pos
    · right
      rw [show Nat.min _ _ = _ from Nat.min_eq_right beyond]
      rfl
  · rintro ⟨k, few, digits, whole⟩
    have kept : Nat.min (single.round k 1) (wordLimit - 1) = k := by
      rcases digits with short | last
      · have self := Binary.Format.round_mul_self Nat.one_pos short
        rw [Nat.mul_one] at self
        rw [self]
        exact Nat.min_eq_left (Nat.le_sub_one_of_lt few)
      · obtain rfl : k = wordLimit - 1 := by omega
        decide
    rw [counted, whole, Duration.millis_ofMillis few, kept]

/-- **Waits lie between the first one and the ceiling, as far as they can be counted.**  No attempt waits
longer than the ceiling, or than the first wait if that is longer, and none waits less than the first wait as
it is counted; without growth, that is how long all of them wait.  They wait no less than what was set just if
counting does not take away from it.  All that is expected of a policy holds just if the first wait is counted
as it is, or is counted as more but is the longest wait; and it is counted as it is if it is a whole number of
milliseconds, below `2 ^ 64`, that single precision can say, or the last number before `2 ^ 64`. -/
theorem waits_bounded (p : RetryPolicy) :
    (∀ n, p.counted.min (p.maxTimeout.max p.timeout) ≤ p.timeoutFor n ∧
      p.timeoutFor n ≤ p.maxTimeout.max p.timeout) ∧
    (∀ n, n ≤ 1 ∨ p.IsFlat → p.timeoutFor n = p.counted.min (p.maxTimeout.max p.timeout)) ∧
    ((∀ n, 1 ≤ n → p.timeout ≤ p.timeoutFor n) ↔ p.timeout ≤ p.counted) ∧
    (p.IsBounded ↔ p.timeout = p.counted ∨ p.timeout ≤ p.counted ∧ p.maxTimeout ≤ p.timeout) ∧
    (p.timeout = p.counted ↔
      ∃ k < wordLimit, (single.Exact k ∨ k + 1 = wordLimit) ∧ p.timeout = .ofMillis k) :=
  ⟨fun n => ⟨p.counted_le_timeoutFor n, p.timeoutFor_le_cap n⟩, fun _ early => timeoutFor_of_flat early,
    p.timeout_le_timeoutFor_iff, p.isBounded_iff.trans p.counted_min_cap_eq_iff,
    p.timeout_eq_counted_iff⟩

/-- A quarter of a second is counted as it is, so that all is as expected of the standard policy. -/
theorem waits_bounded_of_standard : standard.timeout = standard.counted ∧ standard.IsBounded := by
  have same : standard.timeout = standard.counted := by decide
  exact ⟨same, (waits_bounded standard).2.2.2.1.mpr (Or.inl same)⟩

/-- Of a millisecond and a half the half is lost, so that the first attempt gives up too early. -/
theorem half_millisecond_lost :
    ¬ ({ standard with timeout := .ofNanos 1500000 } : RetryPolicy).IsBounded ∧
      ({ standard with timeout := .ofNanos 1500000 } : RetryPolicy).timeoutFor 1 = .ofMillis 1 := by
  have early : ({ standard with timeout := .ofNanos 1500000 } : RetryPolicy).timeoutFor 1 =
    .ofMillis 1 := by decide +kernel
  exact ⟨fun bounded => absurd (early.symm.trans bounded.first) (by decide), early⟩

end RetryPolicy

end Lighting
