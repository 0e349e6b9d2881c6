import Mathlib.Algebra.Order.Field.Basic
import Mathlib.Algebra.Order.Field.Rat
import Mathlib.Algebra.Ring.Parity
import Mathlib.Data.Rat.Cast.Order
import Mathlib.Tactic.FieldSimp
import Mathlib.Tactic.Linarith
import Mathlib.Tactic.NormNum
import Mathlib.Tactic.Positivity
import Lighting.Proofs.Binary

/-!
# Seconds to the nearest nanosecond

A finite binary value is a ratio, its units over the units of one, and as many seconds are turned into
the nearest whole number of nanoseconds (`IsNearest`).  There is such a span as long as the seconds are
few (`seconds?_of_le`).  What was rounded on the way is still a whole number of seconds once it is cut off
at one (`SameSide.min_toRat`).
-/

namespace Lighting.Binary

/-- The whole number nearest to a ratio; of two that are equally near, the even one. -/
def IsNearest (q : ℚ) (n : Nat) : Prop := |q - n| < 1 / 2 ∨ |q - n| = 1 / 2 ∧ Even n

/-- The number of ones that a number of units makes. -/
def Format.toRat (f : Format) (units : Int) : ℚ := units / f.units

variable {f : Format} {num den k n : Nat}

/-- **Rounding finds the nearest whole number.** -/
theorem isNearest_roundHalfEven (num : Nat) (pos : 0 < den) :
    IsNearest (num / den) (roundHalfEven num den) := by
  have positive : (0 : ℚ) < den := Nat.cast_pos.mpr pos
  have rest : (num / den : ℚ) = (num / den : Nat) + ((num % den : Nat) : ℚ) / den := by
    have whole : (num : ℚ) = den * (num / den : Nat) + (num % den : Nat) := by
      exact_mod_cast (Nat.div_add_mod num den).symm
    rw [whole]
    field_simp
  have least : (0 : ℚ) ≤ ((num % den : Nat) : ℚ) / den := by positivity
  have most : ((num % den : Nat) : ℚ) / den < 1 := by
    rw [div_lt_one positive]
    exact_mod_cast Nat.mod_lt num pos
  unfold roundHalfEven IsNearest
  dsimp only
  rw [rest]
  split
  · -- less than half is left over
    rename_i less
    have : ((num % den : Nat) : ℚ) / den < 1 / 2 := by
      rw [div_lt_div_iff₀ positive two_pos, one_mul, mul_comm]
      exact_mod_cast less
    left
    rw [add_sub_cancel_left, abs_of_nonneg least]
    exact this
  · split
    · -- more than half is left over
      rename_i more
      have : 1 / 2 < ((num % den : Nat) : ℚ) / den := by
        rw [div_lt_div_iff₀ two_pos positive, one_mul, mul_comm _ (2 : ℚ)]
        exact_mod_cast more
      left
      rw [abs_lt]
      push_cast
      constructor <;> linarith
    · have half : ((num % den : Nat) : ℚ) / den = 1 / 2 := by
        have : 2 * (num % den) = den := by omega
        rw [div_eq_div_iff positive.ne' two_ne_zero, one_mul, mul_comm]
        exact_mod_cast this
      right
      rw [half]
      rcases Nat.mod_two_eq_zero_or_one (num / den) with even | odd
      · rw [even, Nat.add_zero]
        exact ⟨by rw [add_sub_cancel_left]; norm_num, Nat.even_iff.mpr even⟩
      · rw [odd]
        refine ⟨?_, Nat.even_iff.mpr (by omega)⟩
        push_cast
        rw [add_sub_add_left_eq_sub]
        norm_num [abs_of_neg]

/-- A whole number is the only one near to itself. -/
theorem IsNearest.eq (h : IsNearest k n) : n = k := by
  have near : |(k : ℚ) - n| ≤ 1 / 2 := h.elim le_of_lt fun tie => le_of_eq tie.1
  obtain ⟨below, above⟩ := abs_le.mp near
  have less : (n : ℚ) < k + 1 := by linarith
  have more : (k : ℚ) < n + 1 := by linarith
  have : n < k + 1 := by exact_mod_cast less
  have : k < n + 1 := by exact_mod_cast more
  omega

theorem Format.toRat_le_iff {units : Int} :
    f.toRat units ≤ k ↔ units ≤ (k * f.units : Nat) := by
  have positive : (0 : ℚ) < f.units := Nat.cast_pos.mpr f.units_pos
  rw [toRat, div_le_iff₀ positive]
  exact_mod_cast Iff.rfl

theorem Format.le_toRat_iff {units : Int} :
    k ≤ f.toRat units ↔ (k * f.units : Nat) ≤ units := by
  have positive : (0 : ℚ) < f.units := Nat.cast_pos.mpr f.units_pos
  rw [toRat, le_div_iff₀ positive]
  exact_mod_cast Iff.rfl

/-- The units of a whole number make that number. -/
theorem Format.toRat_whole (k : Nat) : f.toRat (k * f.units : Nat) = k :=
  le_antisymm (toRat_le_iff.mpr le_rfl) (le_toRat_iff.mpr le_rfl)

/-- A number of units lies on the same side as `n` of every whole number of few digits: it may come from
rounding, since such a number is none that rounding goes across. -/
def Format.SameSide (f : Format) (n units : Nat) : Prop :=
  ∀ k < 2 ^ 53, (k ≤ n → k * f.units ≤ units) ∧ (n ≤ k → units ≤ k * f.units)

theorem Format.SameSide.eq {units : Nat} (h : f.SameSide n units) (few : n < 2 ^ 53) :
    units = n * f.units :=
  Nat.le_antisymm ((h n few).2 (Nat.le_refl n)) ((h n few).1 (Nat.le_refl n))

/-- What is cut off at a whole number is a whole number. -/
theorem Format.SameSide.min_toRat {units : Nat} (h : f.SameSide n units) (few : k < 2 ^ 53) :
    min (f.toRat units) k = (min n k : Nat) := by
  rcases Nat.le_total n k with short | long
  · rw [h.eq (Nat.lt_of_le_of_lt short few), toRat_whole, Nat.min_eq_left short, min_eq_left]
    exact_mod_cast short
  · have most : (k : ℚ) ≤ f.toRat units := le_toRat_iff.mpr (by exact_mod_cast (h k few).1 long)
    rw [Nat.min_eq_right long, min_eq_right most]

/-- **Few seconds make a span, to the nearest nanosecond.** -/
theorem Value.seconds?_of_le (few : n ≤ k * f.units) (short : k ≤ 2 ^ 63) :
    ∃ d : Duration, (Value.finite n : Value f).seconds? = some d ∧
      IsNearest (f.toRat n * nanosPerSecond) d.nanos ∧ d.nanos ≤ k * nanosPerSecond := by
  have limit : roundHalfEven (n * nanosPerSecond) f.units ≤ k * nanosPerSecond := by
    refine roundHalfEven_le f.units_pos ?_
    calc n * nanosPerSecond ≤ k * f.units * nanosPerSecond := Nat.mul_le_mul_right _ few
      _ = k * nanosPerSecond * f.units := Nat.mul_right_comm _ _ _
  have inside : roundHalfEven (n * nanosPerSecond) f.units < Duration.limit := by
    simp only [Duration.limit, nanosPerSecond] at *
    omega
  refine ⟨⟨_, inside⟩, ?_, ?_, limit⟩
  · rw [seconds?, if_neg (by omega)]
    simp only [Int.toNat_natCast]
    rw [dif_pos inside]
  · have ratio : f.toRat n * nanosPerSecond = ((n * nanosPerSecond : Nat) : ℚ) / (f.units : ℚ) := by
      rw [Format.toRat]
      push_cast
      exact div_mul_eq_mul_div _ _ _
    rw [ratio]
    exact isNearest_roundHalfEven _ f.units_pos

/-- Seconds that are cut off at a whole number of them. -/
theorem Value.seconds?_cut (wide : f.IsWide) (few : k < 2 ^ 53) (n : Nat) :
    ∃ d : Duration,
      (if (ofNat k : Value f).lt (.finite n) then ofNat k else .finite n : Value f).seconds? = some d ∧
        IsNearest (min (f.toRat n) k * nanosPerSecond) d.nanos ∧ d.nanos ≤ k * nanosPerSecond := by
  rw [ofNat_eq wide few, lt]
  by_cases beyond : k * f.units < n
  · rw [if_pos (decide_eq_true (by exact_mod_cast beyond))]
    obtain ⟨d, span, near, bound⟩ :=
      seconds?_of_le (f := f) (Nat.le_refl (k * f.units)) (by omega)
    refine ⟨d, span, ?_, bound⟩
    rw [Format.toRat_whole] at near
    rwa [min_eq_right (le_of_not_ge fun below => absurd beyond ?_)]
    exact Nat.not_lt.mpr (by exact_mod_cast Format.toRat_le_iff.mp below)
  · rw [if_neg (by rw [decide_eq_true_eq]; exact_mod_cast beyond)]
    obtain ⟨d, span, near, bound⟩ := seconds?_of_le (f := f) (Nat.not_lt.mp beyond) (by omega)
    refine ⟨d, span, ?_, bound⟩
    rwa [min_eq_left (Format.toRat_le_iff.mpr (by exact_mod_cast Nat.not_lt.mp beyond))]

end Lighting.Binary
