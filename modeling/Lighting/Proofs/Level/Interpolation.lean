import Mathlib.Algebra.Order.Field.Basic
import Mathlib.Algebra.Order.Field.Rat
import Mathlib.Data.Nat.Cast.Order.Field
import Mathlib.Data.Rat.Cast.Order
import Mathlib.Tactic.Linarith
import Mathlib.Tactic.Ring
import Lighting.Proofs.Level

/-!
# Interpolation, to the digit

The steps of a ramp divide the way from one level to another at points that are ratios, and the level of a
step is such a point rounded toward the start (`RoundsToward`).  It is computed in words of 64 bits.  They
are wide enough: a computation that gives up as soon as a number leaves its word (`interpolateInWords?`)
never gives up, and what it comes to needs no clamping.
-/

namespace Lighting

namespace Level

variable {start target : Level} {step steps : Nat}

/-- The point that is reached after `step` of `steps` equal parts of the way. -/
def point (start target : Level) (step steps : Nat) : ℚ :=
  start.toNat + ((target.toNat : ℚ) - start.toNat) * step / steps

/-- The whole number is the ratio rounded toward a start: it lies between the two, and less than one away
from the ratio. -/
def RoundsToward (start ratio : ℚ) (n : Nat) : Prop :=
  |ratio - n| < 1 ∧ (start ≤ n ∧ n ≤ ratio ∨ ratio ≤ n ∧ n ≤ start)

/-- An integer, if it fits in 64 bits beside its sign. -/
def word? (i : Int) : Option Int :=
  if -(Text.signedLimit : Int) ≤ i ∧ i < Text.signedLimit then some i else none

/-- Interpolation in words of 64 bits; nothing if a number on the way does not fit. -/
def interpolateInWords? (start target : Level) (step steps : UInt32) : Option Level :=
  if steps = 0 ∨ steps ≤ step then some target
  else do
    let delta ← word? ((target.toNat : Int) - start.toNat)
    let product ← word? (delta * step.toNat)
    let part ← word? (product.tdiv steps.toNat)
    let place ← word? (start.toNat + part)
    return clamped place

/-! ## Where the level lies -/

/-- A whole quotient is the ratio rounded down. -/
theorem natCast_div_bounds (whole : Nat) (some : 0 < steps) :
    ((whole / steps : Nat) : ℚ) ≤ whole / steps ∧ (whole / steps : ℚ) < (whole / steps : Nat) + 1 := by
  refine ⟨Nat.cast_div_le, ?_⟩
  rw [div_lt_iff₀ (Nat.cast_pos.mpr some), mul_comm]
  exact_mod_cast Nat.lt_mul_div_succ whole some

/-- **The level of a step is the point of the way, rounded toward the start.** -/
theorem roundsToward_interpolate (h : step < steps) :
    RoundsToward start.toNat (point start target step steps)
      (start.interpolate target step steps).toNat := by
  have some : 0 < steps := Nat.zero_lt_of_lt h
  rcases Nat.le_total start.toNat target.toNat with up | down
  · obtain ⟨below, above⟩ := natCast_div_bounds ((target.toNat - start.toNat) * step) some
    rw [toNat_interpolate_of_le up h]
    have ratio : point start target step steps =
        start.toNat + (((target.toNat - start.toNat) * step : Nat) : ℚ) / steps := by
      rw [point, Nat.cast_mul, Nat.cast_sub up]
    rw [ratio, RoundsToward, abs_lt, Nat.cast_add]
    refine ⟨⟨by linarith, by linarith⟩, Or.inl ⟨?_, by linarith⟩⟩
    exact le_add_of_nonneg_right (Nat.cast_nonneg _)
  · have part := mul_div_le_of_lt (start.toNat - target.toNat) h
    obtain ⟨below, above⟩ := natCast_div_bounds ((start.toNat - target.toNat) * step) some
    rw [toNat_interpolate_of_ge down h]
    have ratio : point start target step steps =
        start.toNat - (((start.toNat - target.toNat) * step : Nat) : ℚ) / steps := by
      rw [point, Nat.cast_mul, Nat.cast_sub down]
      ring
    rw [ratio, RoundsToward, abs_lt, Nat.cast_sub (by omega)]
    refine ⟨⟨by linarith, by linarith⟩, Or.inr ⟨by linarith, ?_⟩⟩
    exact sub_le_self _ (Nat.cast_nonneg _)

/-! ## Words of 64 bits -/

theorem word?_of_natAbs {i : Int} (few : i.natAbs < 2 ^ 41) : word? i = some i := by
  have limit : Text.signedLimit = 2 ^ 63 := rfl
  exact if_pos (by omega)

/-- A difference of levels, as many times over as there are steps. -/
theorem natAbs_delta_mul_lt (start target : Level) (step : UInt32) :
    (((target.toNat : Int) - start.toNat) * step.toNat).natAbs < 2 ^ 40 := by
  have delta : ((target.toNat : Int) - start.toNat).natAbs < 2 ^ 8 := by
    have := start.toNat_lt
    have := target.toNat_lt
    omega
  rw [Int.natAbs_mul, Int.natAbs_natCast]
  calc ((target.toNat : Int) - start.toNat).natAbs * step.toNat
      < 2 ^ 8 * 2 ^ 32 := Nat.mul_lt_mul_of_lt_of_le delta (Nat.le_of_lt step.toNat_lt) (by decide)
    _ = 2 ^ 40 := by norm_num

/-- **No number on the way leaves its word.** -/
theorem interpolateInWords?_eq (start target : Level) (step steps : UInt32) :
    interpolateInWords? start target step steps =
      some (start.interpolate target step.toNat steps.toNat) := by
  have same : (steps = 0 ∨ steps ≤ step) ↔ (steps.toNat = 0 ∨ steps.toNat ≤ step.toNat) := by
    rw [← UInt32.toNat_inj, UInt32.le_iff_toNat_le]
    rfl
  unfold interpolateInWords? interpolate
  by_cases last : steps.toNat = 0 ∨ steps.toNat ≤ step.toNat
  · rw [if_pos (same.mpr last), if_pos last]
  · have product := natAbs_delta_mul_lt start target step
    have part := Int.natAbs_tdiv_le_natAbs (((target.toNat : Int) - start.toNat) * step.toNat)
      steps.toNat
    have small := start.toNat_lt
    have far := target.toNat_lt
    rw [if_neg (mt same.mp last), if_neg last, Option.bind_eq_bind, word?_of_natAbs (by omega),
      Option.bind_some, word?_of_natAbs (by omega), Option.bind_some, word?_of_natAbs (by omega),
      Option.bind_some, word?_of_natAbs (by omega), Option.bind_some]
    rfl

/-- **Interpolation is exact, and it goes one way.**  The last step reaches the target.  The level of an
earlier step is the start and its share of the way, with no need of clamping; this is the point of the way
rounded toward the start, and it is the target only if there was no way to go.  No number leaves its word
of 64 bits.  All levels lie between the start and the target, and those of later steps lie nearer the target
or are the same. -/
theorem interpolate_exact (start target : Level) (step steps : UInt32) :
    (steps ≤ step → start.interpolate target step.toNat steps.toNat = target) ∧
    (step < steps →
      ((start.interpolate target step.toNat steps.toNat).toNat : Int) =
          start.toNat + (((target.toNat : Int) - start.toNat) * step.toNat).tdiv steps.toNat ∧
        RoundsToward start.toNat (point start target step.toNat steps.toNat)
          (start.interpolate target step.toNat steps.toNat).toNat ∧
        (start.interpolate target step.toNat steps.toNat = target → start = target)) ∧
    interpolateInWords? start target step steps =
      some (start.interpolate target step.toNat steps.toNat) ∧
    Toward target start (start.interpolate target step.toNat steps.toNat) ∧
    ∀ later, step ≤ later → Toward target (start.interpolate target step.toNat steps.toNat)
      (start.interpolate target later.toNat steps.toNat) := by
  refine ⟨fun reached => ?_, fun before => ?_, interpolateInWords?_eq start target step steps,
    toward_interpolate_start start target _ _, fun later order => ?_⟩
  · exact interpolate_of_le (UInt32.le_iff_toNat_le.mp reached) start target
  · have before := UInt32.lt_iff_toNat_lt.mp before
    exact ⟨natCast_toNat_interpolate before, roundsToward_interpolate before, fun there =>
      by_contra fun other => interpolate_ne_target before other there⟩
  · exact toward_interpolate (UInt32.le_iff_toNat_le.mp order) start target steps.toNat

/-- From 200 down to dark in three steps, the first one leaves 134: its point lies behind 133, and rounding goes
toward 200.  The last one leaves nothing. -/
theorem interpolate_exact_of_thirds : (1 : UInt32) < 3 ∧ (3 : UInt32) ≤ 3 ∧
    (⟨200⟩ : Level).interpolate off 3 3 = off ∧
    (⟨200⟩ : Level).interpolate off 1 3 = ⟨134⟩ ∧ point ⟨200⟩ off 1 3 = 400 / 3 ∧
    RoundsToward (⟨200⟩ : Level).toNat (point ⟨200⟩ off 1 3) (⟨134⟩ : Level).toNat := by
  have full : (⟨200⟩ : Level).toNat = 200 := rfl
  have dark : off.toNat = 0 := rfl
  have before : (1 : UInt32) < 3 := by decide
  have third : (⟨200⟩ : Level).interpolate off 1 3 = ⟨134⟩ := by decide
  refine ⟨before, by decide, (interpolate_exact ⟨200⟩ off 3 3).1 (by decide), third, ?_, ?_⟩
  · rw [point, full, dark]
    norm_num
  · rw [← third]
    exact ((interpolate_exact ⟨200⟩ off 1 3).2.1 before).2.1

end Level

end Lighting
