import Lighting.Json.Meaning
import Lighting.Proofs.Binary.Seconds

/-!
# The values of JSON numbers

The digits of a number are gathered in 64 bits, and a negative exponent divides by powers of ten, none
of which is smaller than one.  So nothing on the way grows beyond `2 ^ 64` (`IsModerate`), and a positive
exponent that goes beyond the range makes the number no value at all: whatever value a number has is
finite (`Numeral.exists_finite`).
-/

namespace Lighting.Json

open Binary (Format Value double)

/-! ## Moderate values -/

section Moderate

variable {f : Format}

/-- A finite value of at most `2 ^ 64`, with either sign. -/
def IsModerate (x : Value f) : Prop :=
  ∃ units : Int, x = .finite units ∧ units.natAbs ≤ 2 ^ 64 * f.units

/-- Rounding what is moderate is moderate. -/
theorem isModerate_ofUnits (wide : f.IsWide) (negative : Bool) {num den : Nat} (pos : 0 < den)
    (h : num ≤ 2 ^ 64 * f.units * den) : IsModerate (Value.ofUnits negative num den : Value f) := by
  have bound : f.round num den ≤ 2 ^ 64 * f.units := Format.round_le pos (wide.exact_two_pow 64) h
  have finite : f.round num den < f.limit :=
    Nat.lt_of_le_of_lt bound (wide.mul_units_lt_limit (by decide))
  refine ⟨_, if_pos finite, ?_⟩
  cases negative <;> simpa using bound

theorem isModerate_ofNat (wide : f.IsWide) {m : Nat} (word : m ≤ 2 ^ 64) :
    IsModerate (Value.ofNat m : Value f) :=
  isModerate_ofUnits wide false Nat.one_pos (by simpa using Nat.mul_le_mul_right f.units word)

theorem isModerate_zero : IsModerate (.finite 0 : Value f) := ⟨0, rfl, Nat.zero_le _⟩

/-- Dividing by a value that is at least one, or beyond the range. -/
theorem isModerate_div (wide : f.IsWide) {x y : Value f} (moderate : IsModerate x)
    (least : y = .infinite false ∨ ∃ units : Nat, y = .finite units ∧ f.units ≤ units) :
    IsModerate (x.div y) := by
  obtain ⟨units, rfl, small⟩ := moderate
  obtain rfl | ⟨divisor, rfl, least⟩ := least
  · exact isModerate_zero
  · have positive : 0 < divisor := Nat.lt_of_lt_of_le f.units_pos least
    rw [Value.div, if_neg (by omega), Int.natAbs_natCast]
    exact isModerate_ofUnits wide _ positive (Nat.mul_le_mul small least)

/-- A whole number is at least one, or beyond the range. -/
theorem ofNat_cases (wide : f.IsWide) {m : Nat} (positive : 0 < m) :
    (Value.ofNat m : Value f) = .infinite false ∨
      ∃ units : Nat, (Value.ofNat m : Value f) = .finite units ∧ f.units ≤ units := by
  have one : f.Exact f.units := by simpa using wide.exact_mul_units (n := 1) (by decide)
  have least : f.units ≤ f.round (m * f.units) 1 := by
    refine Format.le_round Nat.one_pos one ?_
    rw [Nat.mul_one]
    exact Nat.le_mul_of_pos_left _ positive
  unfold Value.ofNat Value.ofRatio Value.ofUnits
  dsimp only
  split
  · exact .inr ⟨_, rfl, least⟩
  · exact .inl rfl

/-- A whole number times one may be rounded, but not across a number of few digits. -/
theorem exists_mul_one (wide : f.IsWide) {m : Nat} (word : m ≤ 2 ^ 64) :
    ∃ units : Nat, (Value.ofNat m : Value f).mul (.ofNat 1) = .finite units ∧
      f.SameSide m units := by
  have bound : f.round (m * f.units) 1 ≤ 2 ^ 64 * f.units :=
    Format.round_le Nat.one_pos (wide.exact_two_pow 64)
      (by simpa using Nat.mul_le_mul_right f.units word)
  have bound' : f.round (f.round (m * f.units) 1 * f.units) f.units ≤ 2 ^ 64 * f.units :=
    Format.round_le f.units_pos (wide.exact_two_pow 64) (Nat.mul_le_mul_right _ bound)
  have limit : 2 ^ 64 * f.units < f.limit := wide.mul_units_lt_limit (by decide)
  have first : (Value.ofNat m : Value f) = .finite (f.round (m * f.units) 1 : Nat) :=
    Value.ofUnits_of_lt (Nat.lt_of_le_of_lt bound limit)
  have one : (Value.ofNat 1 : Value f) = .finite (f.units : Nat) := by
    simpa using Value.ofNat_eq (n := 1) wide (by decide)
  have positive (n : Nat) : decide ((n : Int) < 0) = false := decide_eq_false (by omega)
  refine ⟨f.round (f.round (m * f.units) 1 * f.units) f.units, ?_,
    fun k few => ⟨fun below => ?_, fun above => ?_⟩⟩
  · rw [first, one, Value.mul, positive, positive, Int.natAbs_natCast, Int.natAbs_natCast]
    exact Value.ofUnits_of_lt (Nat.lt_of_le_of_lt bound' limit)
  · have kept := wide.exact_mul_units few
    refine Format.le_round f.units_pos kept (Nat.mul_le_mul_right _ ?_)
    exact Format.le_round Nat.one_pos kept (by simpa using Nat.mul_le_mul_right f.units below)
  · have kept := wide.exact_mul_units few
    refine Format.round_le f.units_pos kept (Nat.mul_le_mul_right _ ?_)
    exact Format.round_le Nat.one_pos kept (by simpa using Nat.mul_le_mul_right f.units above)

end Moderate

variable {m k : Nat} {x : Value double}

theorem isModerate_divideDown (rounds : Nat) (moderate : IsModerate x) (k : Nat) :
    IsModerate (Numeral.divideDown rounds x k) := by
  have divided {x : Value double} (moderate : IsModerate x) (k : Nat) :
      IsModerate (x.div (Numeral.powerOfTen k)) :=
    isModerate_div Format.isWide_double moderate
      (ofNat_cases Format.isWide_double (Nat.pow_pos (by decide)))
  induction rounds generalizing x k with
  | zero => exact divided moderate k
  | succ rounds ih =>
      unfold Numeral.divideDown
      split
      · exact moderate
      · split
        · exact divided moderate k
        · exact ih (divided moderate _) _

/-! ## Numbers -/

namespace Numeral

theorem gather_le (word : m ≤ 2 ^ 64) (digits : List UInt8) : (gather m digits).1 ≤ 2 ^ 64 := by
  induction digits generalizing m with
  | nil => exact word
  | cons b digits ih =>
      unfold gather
      split
      · rename_i fits
        exact ih (Nat.le_of_lt fits)
      · exact word

theorem parts_le (n : Numeral) : n.parts.1 ≤ 2 ^ 64 :=
  gather_le (gather_le (Nat.zero_le _) _) _

theorem scaled?_finite {exponent : Int} (word : m ≤ 2 ^ 64) (h : scaled? m exponent = some x) :
    ∃ units, x = .finite units := by
  unfold scaled? at h
  dsimp only at h
  split at h
  · obtain ⟨units, finite, -⟩ := isModerate_divideDown _
      (isModerate_ofNat Format.isWide_double word) _
    exact ⟨units, (Option.some.inj h).symm.trans finite⟩
  · split at h
    · split at h
      · exact ⟨_, (Option.some.inj h).symm⟩
      · cases h
    · split at h
      · exact ⟨0, (Option.some.inj h).symm⟩
      · cases h

/-- **The value of a number is finite.** -/
theorem exists_finite {n : Numeral} (h : n.value? = some x) : ∃ units, x = .finite units := by
  obtain ⟨y, scaled, rfl⟩ := Option.map_eq_some_iff.mp h
  obtain ⟨units, rfl⟩ := scaled?_finite n.parts_le scaled
  split
  · exact ⟨-units, rfl⟩
  · exact ⟨units, rfl⟩

/-! ## Whole numbers -/

theorem le_foldl (digits : List UInt8) (m : Nat) :
    m ≤ digits.foldl (fun n b => 10 * n + digitValue b) m := by
  induction digits generalizing m with
  | nil => exact Nat.le_refl m
  | cons b digits ih => exact Nat.le_trans (by omega) (ih (10 * m + digitValue b))

/-- Digits that fit in 64 bits are gathered to the last one. -/
theorem gather_eq (digits : List UInt8) (m : Nat)
    (word : digits.foldl (fun n b => 10 * n + digitValue b) m < Text.wordLimit) :
    gather m digits = (digits.foldl (fun n b => 10 * n + digitValue b) m, []) := by
  induction digits generalizing m with
  | nil => rfl
  | cons b digits ih =>
      rw [gather, if_pos (Nat.lt_of_le_of_lt (le_foldl digits _) word)]
      exact ih _ word

/-- The number without point and exponent that has the given digits. -/
def ofDigits (digits : List UInt8) : Numeral := ⟨false, digits, none, none⟩

theorem parts_ofDigits {digits : List UInt8} (word : digitsValue digits < Text.wordLimit) :
    (ofDigits digits).parts = (digitsValue digits, 0) := by
  have all : gather 0 digits = (digitsValue digits, []) := gather_eq digits 0 word
  simp [parts, ofDigits, all, gather]

theorem int64?_ofDigits {digits : List UInt8} (word : digitsValue digits < Text.signedLimit) :
    (ofDigits digits).int64? = some (digitsValue digits : Int) := by
  simp [int64?, ofDigits, word]

/-- **A whole number has a value, on the same side as itself of every number of few digits.** -/
theorem exists_value?_ofDigits {digits : List UInt8} (word : digitsValue digits < Text.wordLimit) :
    ∃ units : Nat, (ofDigits digits).value? = some (.finite units) ∧
      double.SameSide (digitsValue digits) units := by
  obtain ⟨units, product, sides⟩ := exists_mul_one Format.isWide_double (Nat.le_of_lt word)
  refine ⟨units, ?_, sides⟩
  have power : powerOfTen (0 : Int).toNat = Value.ofNat 1 := rfl
  have scaled : scaled? (digitsValue digits) 0 = some (.finite units) := by
    unfold scaled?
    dsimp only
    rw [if_neg (by decide), if_pos (by decide), power, product]
  rw [value?, parts_ofDigits word]
  dsimp only
  rw [scaled]
  rfl

end Numeral

end Lighting.Json
