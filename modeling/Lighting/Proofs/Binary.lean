import Mathlib.Algebra.Ring.Nat
import Lighting.Binary

/-!
# What rounding keeps

A format rounds to a number of units with no more significant bits than its precision, and a number
that has no more already is `Exact`.  Rounding does not cross an exact number: what lies below one
is not rounded to a number above it, and what lies above one is not rounded to a number below it.
So an exact number is its own rounding, and a comparison with one may be made before or after.

The seconds of a span are a sum of two rounded numbers, rounded once more.  Still a whole number of
seconds lies below them exactly if it lies below the span (`Value.lt_ofDuration_iff`), as long as it
is small enough to be told from what a nanosecond more makes of it.
-/

namespace Lighting

theorem Duration.nanos_eq (d : Duration) :
    d.nanos = nanosPerSecond * d.seconds + d.subsecondNanos :=
  (Nat.div_add_mod d.nanos nanosPerSecond).symm

namespace Binary

/-! ## Quotients -/

/-- A whole number below a quotient is not above the rounded one. -/
theorem le_roundHalfEven {num den k : Nat} (pos : 0 < den) (h : k * den ≤ num) :
    k ≤ roundHalfEven num den := by
  have floor : k ≤ num / den := (Nat.le_div_iff_mul_le pos).mpr h
  unfold roundHalfEven
  dsimp only
  split
  · exact floor
  · split <;> omega

/-- A whole number above a quotient is not below the rounded one. -/
theorem roundHalfEven_le {num den k : Nat} (pos : 0 < den) (h : num ≤ k * den) :
    roundHalfEven num den ≤ k := by
  have floor : num / den ≤ k := Nat.div_le_of_le_mul (by rwa [Nat.mul_comm])
  unfold roundHalfEven
  dsimp only
  rcases Nat.lt_or_eq_of_le floor with below | rfl
  · split
    · exact floor
    · split <;> omega
  · -- nothing is left over, so nothing is rounded up
    have whole := Nat.div_add_mod num den
    rw [Nat.mul_comm] at whole
    rw [if_pos (by omega)]

/-- A quotient may be reduced before it is rounded. -/
theorem roundHalfEven_mul_mul {num den c : Nat} (pos : 0 < c) :
    roundHalfEven (num * c) (den * c) = roundHalfEven num den := by
  have half : 2 * (num * c % (den * c)) = 2 * (num % den) * c := by
    rw [Nat.mul_mod_mul_right, Nat.mul_assoc]
  simp only [roundHalfEven, Nat.mul_div_mul_right _ _ pos, half, Nat.mul_lt_mul_right pos]

/-! ## Digits -/

theorem bitLength_le_iff {n k : Nat} : bitLength n ≤ k ↔ n < 2 ^ k := by
  unfold bitLength
  split
  · rename_i zero
    exact iff_of_true (Nat.zero_le k) (zero ▸ Nat.two_pow_pos k)
  · rename_i some
    rw [Nat.succ_le_iff, Nat.log2_lt some]

/-- A power of two adds as many digits as its exponent says. -/
theorem bitLength_mul_two_pow {n : Nat} (some : 0 < n) (e : Nat) :
    bitLength (n * 2 ^ e) = bitLength n + e := by
  apply Nat.le_antisymm
  · rw [bitLength_le_iff, Nat.pow_add]
    exact Nat.mul_lt_mul_of_pos_right (bitLength_le_iff.mp (Nat.le_refl _)) (Nat.two_pow_pos e)
  · have whole : n * 2 ^ e < 2 ^ bitLength (n * 2 ^ e) := bitLength_le_iff.mp (Nat.le_refl _)
    have more : e ≤ bitLength (n * 2 ^ e) := by
      by_contra less
      have small := Nat.pow_le_pow_right (by decide : 0 < 2) (Nat.le_of_not_le less)
      have large := Nat.le_mul_of_pos_left (2 ^ e) some
      omega
    rw [← Nat.le_sub_iff_add_le more, bitLength_le_iff]
    refine Nat.lt_of_mul_lt_mul_right (a := 2 ^ e) ?_
    rwa [← Nat.pow_add, Nat.sub_add_cancel more]

namespace Format

variable {f : Format} {num den m : Nat}

/-- Whether a number of units has no more significant bits than the precision. -/
def Exact (f : Format) (m : Nat) : Prop := ∃ a e, m = a * 2 ^ e ∧ a < 2 ^ f.precision

/-- How many binary digits rounding drops. -/
def drop (f : Format) (num den : Nat) : Nat := bitLength (num / den) - f.precision

theorem round_eq (f : Format) (num den : Nat) :
    f.round num den = roundHalfEven num (den * 2 ^ f.drop num den) * 2 ^ f.drop num den := rfl

/-- A quotient of which digits are dropped is large. -/
theorem two_pow_le_of_lt_drop {e : Nat} (h : e < f.drop num den) :
    2 ^ (f.precision + e) ≤ num / den := by
  by_contra small
  have := bitLength_le_iff.mpr (Nat.lt_of_not_le small)
  unfold drop at h
  omega

/-- A number whose last bits are not dropped is a multiple of the step of rounding. -/
theorem mul_two_pow_eq {a e : Nat} (fine : f.drop num den ≤ e) :
    a * 2 ^ e = a * 2 ^ (e - f.drop num den) * 2 ^ f.drop num den := by
  rw [Nat.mul_assoc, ← Nat.pow_add, Nat.sub_add_cancel fine]

/-- **Rounding does not go below an exact number.** -/
theorem le_round (pos : 0 < den) (kept : f.Exact m) (h : m * den ≤ num) :
    m ≤ f.round num den := by
  obtain ⟨a, e, rfl, few⟩ := kept
  -- a multiple of the step of rounding lies between the number and the quotient
  obtain ⟨k, above, below⟩ : ∃ k, a * 2 ^ e ≤ k * 2 ^ f.drop num den ∧
      k * 2 ^ f.drop num den * den ≤ num := by
    by_cases fine : f.drop num den ≤ e
    · have split := mul_two_pow_eq (a := a) fine
      exact ⟨_, Nat.le_of_eq split, split ▸ h⟩
    · -- the number is smaller than the quotient, which has digits to spare
      obtain rfl | some := Nat.eq_zero_or_pos a
      · exact ⟨0, by simp, by simp⟩
      have positive : f.precision ≠ 0 := fun zero => by
        rw [zero] at few
        omega
      have large : 2 ^ (f.precision + (f.drop num den - 1)) ≤ num / den :=
        two_pow_le_of_lt_drop (by omega)
      have split : 2 ^ (f.precision - 1) * 2 ^ f.drop num den =
          2 ^ (f.precision + (f.drop num den - 1)) := by
        rw [← Nat.pow_add]
        congr 1
        omega
      refine ⟨2 ^ (f.precision - 1), ?_, ?_⟩
      · calc a * 2 ^ e ≤ 2 ^ f.precision * 2 ^ e := Nat.mul_le_mul_right _ (Nat.le_of_lt few)
          _ = 2 ^ (f.precision + e) := (Nat.pow_add 2 _ _).symm
          _ ≤ 2 ^ (f.precision + (f.drop num den - 1)) :=
            Nat.pow_le_pow_right (by decide) (by omega)
          _ = 2 ^ (f.precision - 1) * 2 ^ f.drop num den := split.symm
      · rw [split]
        exact (Nat.le_div_iff_mul_le pos).mp large
  rw [round_eq]
  refine Nat.le_trans above (Nat.mul_le_mul_right _ (le_roundHalfEven ?_ ?_))
  · exact Nat.mul_pos pos (Nat.two_pow_pos _)
  · rwa [Nat.mul_comm den, ← Nat.mul_assoc]

/-- **Rounding does not go above an exact number.** -/
theorem round_le (pos : 0 < den) (kept : f.Exact m) (h : num ≤ m * den) :
    f.round num den ≤ m := by
  obtain ⟨a, e, rfl, few⟩ := kept
  have fine : f.drop num den ≤ e := by
    by_contra coarse
    have large : 2 ^ (f.precision + e) ≤ num / den := two_pow_le_of_lt_drop (by omega)
    have small : num / den ≤ a * 2 ^ e := Nat.div_le_of_le_mul (by rwa [Nat.mul_comm])
    have less : a * 2 ^ e < 2 ^ (f.precision + e) := by
      rw [Nat.pow_add]
      exact Nat.mul_lt_mul_of_pos_right few (Nat.two_pow_pos e)
    omega
  have split := mul_two_pow_eq (a := a) fine
  rw [round_eq, split]
  refine Nat.mul_le_mul_right _ (roundHalfEven_le (Nat.mul_pos pos (Nat.two_pow_pos _)) ?_)
  rwa [Nat.mul_comm den, ← Nat.mul_assoc, ← split]

/-- An exact number is its own rounding. -/
theorem round_mul_self (pos : 0 < den) (kept : f.Exact m) : f.round (m * den) den = m :=
  Nat.le_antisymm (round_le pos kept (Nat.le_refl _)) (le_round pos kept (Nat.le_refl _))

/-- Whole numbers are rounded as they are counted in units. -/
theorem round_mul_units (f : Format) (n : Nat) : f.round (n * f.units) 1 = f.round n 1 * f.units := by
  by_cases few : bitLength n ≤ f.precision
  · -- there is nothing to round
    have short : f.Exact n := ⟨n, 0, (Nat.mul_one n).symm, bitLength_le_iff.mp few⟩
    have units : f.Exact (n * f.units) := ⟨n, f.scale, rfl, bitLength_le_iff.mp few⟩
    have whole := round_mul_self Nat.one_pos short
    have counted := round_mul_self Nat.one_pos units
    rw [Nat.mul_one] at whole counted
    rw [whole, counted]
  · have some : 0 < n := Nat.pos_of_ne_zero fun zero => few (by rw [zero]; exact Nat.zero_le _)
    have drop : f.drop (n * f.units) 1 = f.drop n 1 + f.scale := by
      have digits : bitLength (n * f.units) = bitLength n + f.scale := bitLength_mul_two_pow some _
      unfold Format.drop
      rw [Nat.div_one, Nat.div_one, digits]
      omega
    rw [round_eq, round_eq, drop, Nat.one_mul, Nat.one_mul, Nat.pow_add]
    show roundHalfEven (n * 2 ^ f.scale) (2 ^ f.drop n 1 * 2 ^ f.scale) * _ = _ * 2 ^ f.scale
    rw [roundHalfEven_mul_mul (Nat.two_pow_pos _), Nat.mul_assoc]

/-- Powers of two are exact. -/
theorem exact_two_pow_mul_units (digits : 0 < f.precision) (e : Nat) : f.Exact (2 ^ e * f.units) :=
  ⟨1, e + f.scale, by rw [Nat.pow_add, Nat.one_mul]; rfl, Nat.one_lt_two_pow (by omega)⟩

/-- What was rounded is exact. -/
theorem exact_round (digits : 0 < f.precision) (pos : 0 < den) : f.Exact (f.round num den) := by
  have few : num / den < 2 ^ (f.precision + f.drop num den) :=
    bitLength_le_iff.mp (by unfold drop; omega)
  have most : roundHalfEven num (den * 2 ^ f.drop num den) ≤ 2 ^ f.precision := by
    refine roundHalfEven_le (Nat.mul_pos pos (Nat.two_pow_pos _)) ?_
    have below := Nat.le_of_lt ((Nat.div_lt_iff_lt_mul pos).mp few)
    rwa [Nat.pow_add, Nat.mul_right_comm, Nat.mul_assoc] at below
  rw [round_eq]
  rcases Nat.lt_or_eq_of_le most with less | full
  · exact ⟨_, _, rfl, less⟩
  · -- a carry leaves a single digit, one place further up
    exact ⟨1, f.precision + f.drop num den, by rw [full, Nat.one_mul, Nat.pow_add],
      Nat.one_lt_two_pow (by omega)⟩

end Format

/-! ## Seconds -/

namespace Format

/-- A format in which some thousand seconds are told from a nanosecond more or less. -/
structure IsWide (f : Format) : Prop where
  /-- There are digits for the seconds, and thirty more for the nanoseconds. -/
  precision : 53 ≤ f.precision
  /-- A nanosecond is not below the smallest unit. -/
  scale : 30 ≤ f.scale
  /-- The seconds of every span lie in the range. -/
  top : 65 < f.top

theorem isWide_double : double.IsWide := ⟨by decide, by decide, by decide⟩

variable {f : Format} {n k : Nat} {d : Duration}

theorem units_pos (f : Format) : 0 < f.units := Nat.two_pow_pos _

/-- The units of the whole seconds of a span. -/
def secondsUnits (f : Format) (d : Duration) : Nat := f.round (d.seconds * f.units) 1

/-- The units of what is left of a span after its whole seconds. -/
def restUnits (f : Format) (d : Duration) : Nat :=
  f.round (d.subsecondNanos * f.units * f.units) (nanosPerSecond * f.units)

theorem secondsUnits_le (kept : f.Exact (k * f.units)) (h : d.seconds ≤ k) :
    f.secondsUnits d ≤ k * f.units :=
  round_le Nat.one_pos kept (by simpa using Nat.mul_le_mul_right f.units h)

theorem le_secondsUnits (kept : f.Exact (k * f.units)) (h : k ≤ d.seconds) :
    k * f.units ≤ f.secondsUnits d :=
  le_round Nat.one_pos kept (by simpa using Nat.mul_le_mul_right f.units h)

namespace IsWide

variable (wide : f.IsWide)
include wide

/-- Numbers of few digits are exact. -/
theorem exact_mul_units (few : n < 2 ^ 53) : f.Exact (n * f.units) :=
  ⟨n, f.scale, rfl, Nat.lt_of_lt_of_le few (Nat.pow_le_pow_right (by decide) wide.precision)⟩

theorem mul_units_lt_limit (few : n ≤ 2 ^ 65) : n * f.units < f.limit := by
  show n * 2 ^ f.scale < 2 ^ (f.top + f.scale)
  rw [Nat.pow_add]
  exact Nat.mul_lt_mul_of_pos_right
    (Nat.lt_of_le_of_lt few (Nat.pow_lt_pow_right (by decide) wide.top)) (Nat.two_pow_pos _)

/-- There are digits left for thirty binary places behind the second. -/
theorem exact_add (few : n < 2 ^ 22) : f.Exact (n * f.units + 2 ^ (f.scale - 30)) := by
  have digits : n * 2 ^ 30 + 1 < 2 ^ 53 := by omega
  refine ⟨n * 2 ^ 30 + 1, f.scale - 30, ?_,
    Nat.lt_of_lt_of_le digits (Nat.pow_le_pow_right (by decide) wide.precision)⟩
  rw [Nat.add_mul, Nat.one_mul, Nat.mul_assoc, ← Nat.pow_add, Nat.add_sub_cancel' wide.scale]
  rfl

/-- The rest of a span is less than a second. -/
theorem restUnits_le : f.restUnits d ≤ f.units := by
  have one : f.Exact f.units := by simpa using wide.exact_mul_units (n := 1) (by decide)
  have rest : d.subsecondNanos ≤ nanosPerSecond := Nat.le_of_lt (Nat.mod_lt _ (by decide))
  refine round_le (Nat.mul_pos (by decide) f.units_pos) one ?_
  calc d.subsecondNanos * f.units * f.units
      ≤ nanosPerSecond * f.units * f.units :=
        Nat.mul_le_mul_right _ (Nat.mul_le_mul_right _ rest)
    _ = f.units * (nanosPerSecond * f.units) := Nat.mul_comm _ _

theorem restUnits_eq_zero (h : d.subsecondNanos = 0) : f.restUnits d = 0 := by
  have zero : f.Exact 0 := by simpa using wide.exact_mul_units (n := 0) (by decide)
  refine Nat.le_zero.mp (round_le (Nat.mul_pos (by decide) f.units_pos) zero ?_)
  simp [h]

/-- A nanosecond that is left is not lost: it is more than one in the thirtieth binary place. -/
theorem le_restUnits (h : 0 < d.subsecondNanos) : 2 ^ (f.scale - 30) ≤ f.restUnits d := by
  have small : f.Exact (2 ^ (f.scale - 30)) :=
    ⟨1, f.scale - 30, (Nat.one_mul _).symm,
      Nat.lt_of_lt_of_le (by decide : 1 < 2 ^ 53) (Nat.pow_le_pow_right (by decide) wide.precision)⟩
  refine le_round (Nat.mul_pos (by decide) f.units_pos) small ?_
  calc 2 ^ (f.scale - 30) * (nanosPerSecond * f.units)
      ≤ 2 ^ (f.scale - 30) * (2 ^ 30 * f.units) :=
        Nat.mul_le_mul_left _ (Nat.mul_le_mul_right _ (by decide))
    _ = 1 * f.units * f.units := by
        rw [← Nat.mul_assoc, ← Nat.pow_add, Nat.sub_add_cancel wide.scale, Nat.one_mul]
        rfl
    _ ≤ d.subsecondNanos * f.units * f.units :=
        Nat.mul_le_mul_right _ (Nat.mul_le_mul_right _ h)

/-- Powers of two are exact. -/
theorem exact_two_pow (e : Nat) : f.Exact (2 ^ e * f.units) :=
  exact_two_pow_mul_units (Nat.lt_of_lt_of_le (by decide) wide.precision) e

theorem secondsUnits_le_two_pow : f.secondsUnits d ≤ 2 ^ 64 * f.units :=
  secondsUnits_le (wide.exact_two_pow 64)
    (Nat.le_of_lt (Nat.div_lt_of_lt_mul (by rw [Nat.mul_comm]; exact d.lt_limit)))

theorem secondsUnits_lt_limit : f.secondsUnits d < f.limit :=
  Nat.lt_of_le_of_lt wide.secondsUnits_le_two_pow (wide.mul_units_lt_limit (by decide))

/-- The seconds of every span lie in the range. -/
theorem round_add_lt_limit : f.round (f.secondsUnits d + f.restUnits d) 1 < f.limit := by
  have sum := Nat.add_le_add (wide.secondsUnits_le_two_pow (d := d)) (wide.restUnits_le (d := d))
  have bound : 2 ^ 64 * f.units + f.units ≤ 2 ^ 65 * f.units * 1 := by omega
  exact Nat.lt_of_le_of_lt
    (round_le Nat.one_pos (wide.exact_two_pow 65) (Nat.le_trans sum bound))
    (wide.mul_units_lt_limit (Nat.le_refl _))

/-- A span that is not longer than a whole number of seconds is not rounded up beyond it. -/
theorem round_add_le (few : k < 2 ^ 22) (short : d.nanos ≤ k * nanosPerSecond) :
    f.round (f.secondsUnits d + f.restUnits d) 1 ≤ k * f.units := by
  have whole := d.nanos_eq
  have self : f.Exact (k * f.units) := wide.exact_mul_units (by omega)
  refine round_le Nat.one_pos self ?_
  rw [Nat.mul_one]
  by_cases none : d.subsecondNanos = 0
  · rw [wide.restUnits_eq_zero none, Nat.add_zero]
    exact secondsUnits_le self (by simp only [nanosPerSecond] at *; omega)
  · have below : d.seconds + 1 ≤ k := by simp only [nanosPerSecond] at *; omega
    calc f.secondsUnits d + f.restUnits d
        ≤ d.seconds * f.units + f.units :=
          Nat.add_le_add (secondsUnits_le (wide.exact_mul_units (by omega)) (Nat.le_refl _))
            wide.restUnits_le
      _ = (d.seconds + 1) * f.units := (Nat.succ_mul _ _).symm
      _ ≤ k * f.units := Nat.mul_le_mul_right _ below

/-- A span that is longer than a whole number of seconds is not rounded down to it. -/
theorem lt_round_add (few : k < 2 ^ 22) (long : k * nanosPerSecond < d.nanos) :
    k * f.units < f.round (f.secondsUnits d + f.restUnits d) 1 := by
  have whole := d.nanos_eq
  by_cases more : k + 1 ≤ d.seconds
  · have next : f.Exact ((k + 1) * f.units) := wide.exact_mul_units (by omega)
    have sum := Nat.le_trans (le_secondsUnits next more) (Nat.le_add_right _ (f.restUnits d))
    calc k * f.units < (k + 1) * f.units :=
          Nat.mul_lt_mul_of_pos_right (Nat.lt_succ_self k) f.units_pos
      _ ≤ f.round (f.secondsUnits d + f.restUnits d) 1 :=
          le_round Nat.one_pos next (by rwa [Nat.mul_one])
  · -- the seconds are the same, so that the rest makes the difference
    have some : 0 < d.subsecondNanos := by simp only [nanosPerSecond] at *; omega
    have rest : d.subsecondNanos < nanosPerSecond := Nat.mod_lt _ (by decide)
    have same : k ≤ d.seconds := by simp only [nanosPerSecond] at *; omega
    have sum := Nat.add_le_add (le_secondsUnits (wide.exact_mul_units (by omega)) same)
      (wide.le_restUnits some)
    calc k * f.units < k * f.units + 2 ^ (f.scale - 30) :=
          Nat.lt_add_of_pos_right (Nat.two_pow_pos _)
      _ ≤ f.round (f.secondsUnits d + f.restUnits d) 1 :=
          le_round Nat.one_pos (wide.exact_add few) (by rwa [Nat.mul_one])

end IsWide

end Format

namespace Value

variable {f : Format} {n : Nat} {d : Duration}

theorem ofUnits_of_lt {num den : Nat} (finite : f.round num den < f.limit) :
    (ofUnits false num den : Value f) = .finite (f.round num den) := if_pos finite

/-- Numbers of few digits are themselves. -/
theorem ofNat_eq (wide : f.IsWide) (few : n < 2 ^ 53) :
    (ofNat n : Value f) = .finite (n * f.units : Nat) := by
  have same : f.round (n * f.units) 1 = n * f.units := by
    simpa using Format.round_mul_self Nat.one_pos (wide.exact_mul_units few)
  have finite : f.round (n * f.units) 1 < f.limit := by
    rw [same]
    exact wide.mul_units_lt_limit (by omega)
  rw [ofNat, ofRatio, ofUnits_of_lt finite, same]

theorem ofDuration_eq (wide : f.IsWide) :
    (ofDuration d : Value f) = .finite (f.round (f.secondsUnits d + f.restUnits d) 1 : Nat) := by
  have rest : d.subsecondNanos < nanosPerSecond := Nat.mod_lt _ (by decide)
  have whole : (ofNat d.seconds : Value f) = .finite (f.secondsUnits d : Nat) :=
    ofUnits_of_lt wide.secondsUnits_lt_limit
  have part : (div (ofNat d.subsecondNanos) (ofNat nanosPerSecond) : Value f) =
      .finite (f.restUnits d : Nat) := by
    have some : ((nanosPerSecond * f.units : Nat) : Int) ≠ 0 :=
      Int.natCast_ne_zero.mpr (Nat.mul_ne_zero (by decide) (Nat.pos_iff_ne_zero.mp f.units_pos))
    have finite : f.restUnits d < f.limit :=
      Nat.lt_of_le_of_lt wide.restUnits_le
        (by simpa using wide.mul_units_lt_limit (n := 1) (by decide))
    rw [ofNat_eq wide (by simp only [nanosPerSecond] at *; omega), ofNat_eq wide (by decide), div,
      if_neg some]
    exact ofUnits_of_lt finite
  rw [ofDuration, whole, part, add, ← Int.natCast_add, Int.natAbs_natCast]
  exact ofUnits_of_lt wide.round_add_lt_limit

/-- **Comparing a whole number of seconds with a span is not misled by rounding.** -/
theorem lt_ofDuration_iff (wide : f.IsWide) (few : n < 2 ^ 22) :
    (ofNat n : Value f).lt (ofDuration d) = true ↔ n * nanosPerSecond < d.nanos := by
  rw [ofNat_eq wide (by omega), ofDuration_eq wide, lt, decide_eq_true_eq, Int.ofNat_lt]
  refine ⟨fun below => Nat.lt_of_not_le fun short => ?_, wide.lt_round_add few⟩
  exact absurd below (Nat.not_lt.mpr (wide.round_add_le few short))

end Value

end Binary

end Lighting
