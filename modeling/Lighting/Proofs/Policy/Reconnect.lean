import Lighting.Policy.Reconnect
import Lighting.Proofs.Binary.Power

/-!
# How long a reconnect waits

No delay is longer than the ceiling.  A policy whose first delay is empty is meant to try again at once, and
so it does for every attempt whose factor is a number: nothing times a number is nothing.  But powers leave
the range of double precision, and nothing times infinity is no span of time, which counts as the ceiling.  So
the delay is the ceiling for those attempts whose factor overflows (`Overflows`), and a factor overflows or
not as the powers of two around the growth do.
-/

namespace Lighting

open Binary (Value double)

namespace Binary.Value

theorem ofNat_two : (ofNat 2 : Value double) = .finite (2 * double.units : Nat) :=
  ofNat_eq Format.isWide_double (by decide)

theorem ofDuration_zero : (ofDuration .zero : Value double) = .finite (0 : Nat) := by
  decide +kernel

theorem seconds?_zero : (.finite (0 : Nat) : Value double).seconds? = some .zero := by
  decide +kernel

end Binary.Value

namespace ReconnectPolicy

variable {p : ReconnectPolicy} {k n : Nat}

/-- The policies that can be built: the standard one, and what becomes of a policy when one of its settings
is set. -/
inductive IsBuilt : ReconnectPolicy → Prop where
  /-- The standard policy. -/
  | standard : IsBuilt standard
  /-- Giving up after a number of failures. -/
  | withLimit {p : ReconnectPolicy} (limit : Nat) : IsBuilt p → IsBuilt { p with limit := some limit }
  /-- Another first delay. -/
  | withFirst {p : ReconnectPolicy} (first : Duration) : IsBuilt p → IsBuilt { p with first }
  /-- Another longest delay. -/
  | withCeiling {p : ReconnectPolicy} (ceiling : Duration) : IsBuilt p → IsBuilt { p with ceiling }
  /-- Another factor. -/
  | withGrowth {p : ReconnectPolicy} (growth : Value double) : IsBuilt p → IsBuilt (p.withGrowth growth)

/-- The factor of attempt `n`, counted from zero. -/
def factor (p : ReconnectPolicy) (n : Nat) : Value double :=
  p.growth.pow (min n RetryPolicy.maxExponent)

/-- The factor of attempt `n` is beyond the range of double precision. -/
def Overflows (p : ReconnectPolicy) (n : Nat) : Prop := p.factor n = .infinite false

instance (p : ReconnectPolicy) (n : Nat) : Decidable (p.Overflows n) :=
  inferInstanceAs (Decidable (_ = _))

/-- Delays do not become shorter, whatever factor was asked for. -/
theorem IsBuilt.isAtLeast (built : p.IsBuilt) : p.growth.IsAtLeast (2 ^ 0) := by
  induction built with
  | standard =>
      have more : 2 ^ 0 * double.units ≤ 2 * double.units := Nat.mul_le_mul_right _ (by decide)
      rw [ReconnectPolicy.standard, Value.ofNat_two]
      exact Int.ofNat_le.mpr more
  | withLimit limit _ ih => exact ih
  | withFirst first _ ih => exact ih
  | withCeiling ceiling _ ih => exact ih
  | withGrowth growth _ _ => exact Value.isAtLeast_atLeastOne growth

theorem delayFor_eq (p : ReconnectPolicy) (n : Nat) : p.delayFor n =
    ((((Value.ofDuration p.first).mul (p.factor n)).seconds?).getD p.ceiling).min p.ceiling := rfl

theorem delayFor_le_ceiling (p : ReconnectPolicy) (n : Nat) : p.delayFor n ≤ p.ceiling :=
  Duration.min_le_right _ _

/-! ## Trying again at once -/

/-- **Without a first delay there is none, unless the factor overflows**; then there is the longest. -/
theorem delayFor_of_immediate (built : p.IsBuilt) (immediate : p.first = .zero) (n : Nat) :
    p.delayFor n = if p.Overflows n then p.ceiling else .zero := by
  have growing := built.isAtLeast.pow Binary.Format.holdsOne_double (min n RetryPolicy.maxExponent)
  rw [delayFor_eq, immediate, Value.ofDuration_zero]
  rcases growing.cases with infinite | ⟨m, number, -⟩
  · have overflow : p.Overflows n := infinite
    rw [if_pos overflow, overflow]
    exact Duration.min_self p.ceiling
  · have inside : ¬ p.Overflows n := by
      rw [Overflows, factor, number]
      nofun
    rw [if_neg inside, factor, number, Value.zero_mul, Value.seconds?_zero]
    exact Duration.zero_min p.ceiling

/-! ## When the factor overflows -/

/-- Not as long as a power of two above the factor has powers in the range. -/
theorem not_overflows (below : p.growth.IsUpTo (2 ^ k))
    (few : k * min n RetryPolicy.maxExponent < 1024) : ¬ p.Overflows n := by
  intro overflow
  have small := below.pow Binary.Format.holdsOne_double few
  rw [show p.growth.pow (min n RetryPolicy.maxExponent) = .infinite false from overflow] at small
  exact small

/-- As soon as a power of two below the factor has powers beyond the range. -/
theorem overflows (above : p.growth.IsAtLeast (2 ^ k))
    (many : 1024 ≤ k * min n RetryPolicy.maxExponent) : p.Overflows n :=
  above.pow_eq_infinite Binary.Format.holdsOne_double many

/-- **A policy that tries again at once does so unless the factor overflows.**  No delay of any policy is
longer than the ceiling.  If a policy was built with an empty first delay, an attempt is delayed by nothing if
its factor is in the range of double precision, and by the ceiling if it is not.  It is in the range if the
same power of a power of two above the growth is, in particular always if growth is one; it is beyond the
range if that of a power of two below the growth is. -/
theorem immediate_unless_overflow (p : ReconnectPolicy) :
    (∀ n, p.delayFor n ≤ p.ceiling ∧ p.delayAfter n ≤ p.ceiling) ∧
    (p.IsBuilt → p.first = .zero → ∀ n,
      p.delayFor n = (if p.Overflows n then p.ceiling else .zero) ∧
      p.delayAfter n = (if p.Overflows (n - 1) then p.ceiling else .zero)) ∧
    ∀ n k, (p.growth.IsUpTo (2 ^ k) → k * min n RetryPolicy.maxExponent < 1024 → ¬ p.Overflows n) ∧
      (p.growth.IsAtLeast (2 ^ k) → 1024 ≤ k * min n RetryPolicy.maxExponent → p.Overflows n) :=
  ⟨fun n => ⟨p.delayFor_le_ceiling n, p.delayFor_le_ceiling (n - 1)⟩,
    fun built immediate n =>
      ⟨delayFor_of_immediate built immediate n, delayFor_of_immediate built immediate (n - 1)⟩,
    fun _ _ => ⟨not_overflows, overflows⟩⟩

/-- The standard policy, but trying again at once. -/
def atOnce : ReconnectPolicy := { standard with first := .zero }

theorem isBuilt_atOnce : atOnce.IsBuilt := .withFirst .zero .standard

/-- The standard policy without a first delay tries again at once after 1023 failures, and waits for the
ceiling after one more. -/
theorem immediate_unless_overflow_atOnce :
    (atOnce.delayFor 1023 ≤ atOnce.ceiling ∧ atOnce.IsBuilt ∧ atOnce.first = .zero) ∧
      atOnce.delayFor 1023 = .zero ∧ atOnce.delayFor 1024 = atOnce.ceiling := by
  obtain ⟨capped, shape, factors⟩ := immediate_unless_overflow atOnce
  have doubled : atOnce.growth = .finite (2 ^ 1 * double.units : Nat) := by
    rw [atOnce, ReconnectPolicy.standard, Value.ofNat_two, Nat.pow_one]
  have before : ¬ atOnce.Overflows 1023 := by
    refine (factors 1023 1).1 ?_ (by decide)
    rw [doubled]
    exact Value.isUpTo_mul_units (2 ^ 1)
  have after : atOnce.Overflows 1024 := by
    refine (factors 1024 1).2 ?_ (by decide)
    rw [doubled]
    exact Value.isAtLeast_mul_units (2 ^ 1)
  refine ⟨⟨(capped 1023).1, isBuilt_atOnce, rfl⟩, ?_, ?_⟩
  · exact (shape isBuilt_atOnce rfl 1023).1.trans (if_neg before)
  · exact (shape isBuilt_atOnce rfl 1024).1.trans (if_pos after)

/-- Such a policy does not stay immediate: it is delayed by a minute. -/
theorem delayed_after_1024_failures : atOnce.IsBuilt ∧ atOnce.first = .zero ∧
    atOnce.delayFor 1024 = .ofSeconds 60 ∧ atOnce.delayFor 1024 ≠ .zero := by
  have built : atOnce.IsBuilt := isBuilt_atOnce
  exact ⟨built, rfl, by decide +kernel, by decide +kernel⟩

end ReconnectPolicy

end Lighting
