import Lighting.Proofs.Binary

/-!
# Powers that are rounded on the way

A power is taken by repeated squaring, and every product on the way is rounded.  So it need not be the power
rounded, and it need not even grow with the exponent.  But rounding does not cross a power of two: what lies
between `2 ^ i` and `2 ^ j` to begin with lies between `2 ^ (i * n)` and `2 ^ (j * n)` after `n` factors
(`IsAtLeast.pow`, `IsUpTo.pow`).  This tells powers that stay in the range of a format from powers that leave
it, and it keeps the powers of a factor that is not below one from falling below one.
-/

namespace Lighting.Binary

/-- A format that holds one. -/
structure Format.HoldsOne (f : Format) : Prop where
  /-- There is a digit for it. -/
  precision : 0 < f.precision
  /-- It lies in the range. -/
  top : 0 < f.top

theorem Format.holdsOne_single : single.HoldsOne := ⟨by decide, by decide⟩

theorem Format.holdsOne_double : double.HoldsOne := ⟨by decide, by decide⟩

/-- The range of a format ends at a power of two. -/
theorem Format.limit_eq (f : Format) : f.limit = 2 ^ f.top * f.units := Nat.pow_add 2 f.top f.scale

theorem Format.two_pow_mul_units_lt_limit {f : Format} {e : Nat} (inside : e < f.top) :
    2 ^ e * f.units < f.limit := by
  rw [f.limit_eq]
  exact Nat.mul_lt_mul_of_pos_right (Nat.pow_lt_pow_right (by decide) inside) f.units_pos

namespace Value

variable {f : Format} {a b r : Value f} {i j k m n num den : Nat}

/-- The value is not below a whole number; it may be infinite. -/
def IsAtLeast (a : Value f) (m : Nat) : Prop :=
  match a with
  | .finite n => ((m * f.units : Nat) : Int) ≤ n
  | .infinite negative => negative = false
  | .undefined => False

/-- The value lies between zero and a whole number. -/
def IsUpTo (a : Value f) (m : Nat) : Prop :=
  match a with
  | .finite n => 0 ≤ n ∧ n ≤ ((m * f.units : Nat) : Int)
  | .infinite _ => False
  | .undefined => False

theorem isAtLeast_mul_units (m : Nat) : (.finite (m * f.units : Nat) : Value f).IsAtLeast m :=
  Int.le_refl _

theorem isUpTo_mul_units (m : Nat) : (.finite (m * f.units : Nat) : Value f).IsUpTo m :=
  ⟨Int.natCast_nonneg _, Int.le_refl _⟩

theorem isAtLeast_one : (one : Value f).IsAtLeast (2 ^ 0) := by
  simp [one, IsAtLeast]

theorem isUpTo_one : (one : Value f).IsUpTo (2 ^ 0) := by
  simp [one, IsUpTo]

/-- Whatever the factor was, it counts as one that is not below one. -/
theorem isAtLeast_atLeastOne (a : Value f) : a.atLeastOne.IsAtLeast (2 ^ 0) := by
  unfold atLeastOne
  split
  · exact isAtLeast_one
  · rename_i above
    cases a with
    | finite n => simpa [lt, one, IsAtLeast] using above
    | infinite negative => simpa [lt, one, IsAtLeast] using above
    | undefined => simp at above

/-! ## Products -/

theorem mul_natCast (x y : Nat) :
    (.finite x : Value f).mul (.finite y) = ofUnits false (x * y) f.units := rfl

theorem ofUnits_natCast (num den : Nat) : (ofUnits false num den : Value f) =
    if f.round num den < f.limit then .finite (f.round num den : Nat) else .infinite false := rfl

theorem isAtLeast_ofUnits (pos : 0 < den) (kept : f.Exact (m * f.units))
    (h : m * f.units * den ≤ num) : (ofUnits false num den : Value f).IsAtLeast m := by
  rw [ofUnits_natCast]
  split
  · exact Int.ofNat_le.mpr (Format.le_round pos kept h)
  · rfl

/-- Numbers are known by their units. -/
theorem IsAtLeast.cases (h : a.IsAtLeast m) :
    a = .infinite false ∨ ∃ n : Nat, a = .finite n ∧ m * f.units ≤ n := by
  cases a with
  | finite n =>
      obtain ⟨x, rfl⟩ := Int.eq_ofNat_of_zero_le (Int.le_trans (Int.natCast_nonneg _) h)
      exact Or.inr ⟨x, rfl, Int.ofNat_le.mp h⟩
  | infinite negative => exact Or.inl (congrArg _ h)
  | undefined => exact h.elim

theorem IsUpTo.cases (h : a.IsUpTo m) : ∃ n : Nat, a = .finite n ∧ n ≤ m * f.units := by
  cases a with
  | finite n =>
      obtain ⟨x, rfl⟩ := Int.eq_ofNat_of_zero_le h.1
      exact ⟨x, rfl, Int.ofNat_le.mp h.2⟩
  | infinite negative => exact h.elim
  | undefined => exact h.elim

theorem isZero_natCast (some : 0 < n) : (.finite n : Value f).isZero = false := by
  rw [isZero, beq_eq_false_iff_ne]
  omega

theorem isNegative_natCast (n : Nat) : (.finite n : Value f).isNegative = false := by
  rw [isNegative, decide_eq_false_iff_not]
  omega

/-- Infinity times anything above zero. -/
theorem infinite_mul (negative : Bool) (some : 0 < n) :
    (.infinite negative : Value f).mul (.finite n) = .infinite negative := by
  rw [mul, isZero_natCast some, isNegative_natCast, Bool.bne_false]
  · rfl
  all_goals nofun

/-- Anything above zero times infinity. -/
theorem mul_infinite (some : 0 < n) (negative : Bool) :
    (.finite n : Value f).mul (.infinite negative) = .infinite negative := by
  rw [mul, isZero_natCast some, isNegative_natCast, Bool.false_bne]
  · rfl
  all_goals nofun

/-- Nothing times a number is nothing. -/
theorem zero_mul (n : Nat) : (.finite (0 : Nat) : Value f).mul (.finite n) = .finite (0 : Nat) := by
  have kept : f.Exact 0 := ⟨0, 0, rfl, Nat.two_pow_pos _⟩
  have none : f.round 0 f.units = 0 :=
    Nat.le_zero.mp (Format.round_le f.units_pos kept (Nat.zero_le _))
  have inside : 0 < f.limit := Nat.two_pow_pos _
  rw [mul_natCast, Nat.zero_mul, ofUnits_natCast, none, if_pos inside]

/-- Powers of two and their units. -/
theorem two_pow_add_mul_units (i j u : Nat) : 2 ^ (i + j) * u * u = 2 ^ i * u * (2 ^ j * u) := by
  rw [Nat.pow_add, Nat.mul_mul_mul_comm, Nat.mul_assoc]

theorem IsAtLeast.mul (one : f.HoldsOne) (ha : a.IsAtLeast (2 ^ i)) (hb : b.IsAtLeast (2 ^ j)) :
    (a.mul b).IsAtLeast (2 ^ (i + j)) := by
  have some {e n : Nat} (h : 2 ^ e * f.units ≤ n) : 0 < n :=
    Nat.lt_of_lt_of_le (Nat.mul_pos (Nat.two_pow_pos e) f.units_pos) h
  obtain rfl | ⟨x, rfl, hx⟩ := ha.cases <;> obtain rfl | ⟨y, rfl, hy⟩ := hb.cases
  · rfl
  · rw [infinite_mul false (some hy)]
    rfl
  · rw [mul_infinite (some hx)]
    rfl
  · refine isAtLeast_ofUnits f.units_pos (Format.exact_two_pow_mul_units one.precision _) ?_
    rw [two_pow_add_mul_units]
    exact Nat.mul_le_mul hx hy

theorem IsUpTo.mul (one : f.HoldsOne) (inside : i + j < f.top) (ha : a.IsUpTo (2 ^ i))
    (hb : b.IsUpTo (2 ^ j)) : (a.mul b).IsUpTo (2 ^ (i + j)) := by
  obtain ⟨x, rfl, hx⟩ := ha.cases
  obtain ⟨y, rfl, hy⟩ := hb.cases
  have below : f.round (x * y) f.units ≤ 2 ^ (i + j) * f.units := by
    refine Format.round_le f.units_pos (Format.exact_two_pow_mul_units one.precision _) ?_
    rw [two_pow_add_mul_units]
    exact Nat.mul_le_mul hx hy
  rw [mul_natCast, ofUnits_natCast,
    if_pos (Nat.lt_of_le_of_lt below (Format.two_pow_mul_units_lt_limit inside))]
  exact ⟨Int.natCast_nonneg _, Int.ofNat_le.mpr below⟩

/-- A product with one. -/
theorem mul_one (kept : f.Exact n) (inside : n < f.limit) :
    (.finite n : Value f).mul one = .finite n := by
  have same : f.round (n * f.units) f.units = n := Format.round_mul_self f.units_pos kept
  rw [one, mul_natCast, ofUnits_natCast, same, if_pos inside]

theorem one_mul_one (one : f.HoldsOne) : (Value.one : Value f).mul .one = .one := by
  have kept : f.Exact f.units := by simpa using Format.exact_two_pow_mul_units one.precision 0
  have inside : f.units < f.limit := by simpa using Format.two_pow_mul_units_lt_limit one.top
  exact mul_one kept inside

/-- What is rounded is in the range of the format, or infinite. -/
theorem ofUnits_lt_limit {negative : Bool} (h : (ofUnits negative num den : Value f) = .finite n) :
    n < f.limit := by
  unfold ofUnits at h
  dsimp only at h
  split at h
  · rename_i inside
    cases negative <;> simp only [Bool.false_eq_true, if_true, if_false, finite.injEq] at h <;> omega
  · cases h

theorem mul_lt_limit (h : a.mul b = .finite n) : n < f.limit := by
  unfold mul at h
  split at h
  · exact ofUnits_lt_limit h
  · cases h
  · cases h
  · split at h <;> cases h

/-! ## Powers -/

/-- **What holds of products holds of powers**, with as many factors as the exponent says. -/
theorem powLoop_of_mul {P : Nat → Value f → Prop}
    (mul : ∀ {i j a b}, P i a → P j b → P (i + j) (a.mul b)) {fuel : Nat} (enough : n < 2 ^ fuel)
    (result : P i r) (base : P k a) : P (i + k * n) (powLoop fuel r a n) := by
  induction fuel generalizing i k n r a with
  | zero =>
      obtain rfl : n = 0 := by simpa using enough
      exact result
  | succ fuel ih =>
      have half : n / 2 < 2 ^ fuel := by
        rw [Nat.pow_succ] at enough
        omega
      -- the last binary digit of the exponent goes into the result
      have digit : P (i + k * (n % 2)) (if n % 2 = 1 then r.mul a else r) := by
        rcases Nat.mod_two_eq_zero_or_one n with even | odd
        · rw [even, if_neg (by decide)]
          exact result
        · rw [odd, if_pos rfl, Nat.mul_one]
          exact mul result base
      have count : i + k * (n % 2) + (k + k) * (n / 2) = i + k * n := by
        have digits := congrArg (k * ·) (Nat.div_add_mod n 2)
        simp only [Nat.mul_add, Nat.mul_left_comm k 2] at digits
        rw [Nat.add_mul]
        omega
      unfold powLoop
      dsimp only
      by_cases last : n / 2 = 0
      · rw [last, Nat.mul_zero, Nat.add_zero] at count
        rw [if_pos last, ← count]
        exact digit
      · rw [if_neg last, ← count]
        exact ih half digit (mul base base)

theorem lt_two_pow_fuel (n : Nat) : n < 2 ^ (bitLength n + 1) :=
  Nat.lt_trans (bitLength_le_iff.mp (Nat.le_refl _)) (Nat.pow_lt_pow_right (by decide) (by omega))

theorem pow_of_mul {P : Nat → Value f → Prop} (one : P 0 .one)
    (mul : ∀ {i j a b}, P i a → P j b → P (i + j) (a.mul b)) (base : P k a) (n : Nat) :
    P (k * n) (a.pow n) := by
  have whole := powLoop_of_mul mul (lt_two_pow_fuel n) one base
  rwa [Nat.zero_add] at whole

/-- One stays one. -/
theorem one_pow (one : f.HoldsOne) (n : Nat) : (Value.one : Value f).pow n = .one := by
  refine pow_of_mul (P := fun _ v => v = .one) (k := 0) rfl ?_ rfl n
  rintro - - _ _ rfl rfl
  exact one_mul_one one

/-- Without factors there is one. -/
theorem pow_zero (a : Value f) : a.pow 0 = one := rfl

/-- With factors there is a product. -/
theorem exists_mul_of_powLoop {fuel : Nat} (some : 0 < n) (enough : n < 2 ^ fuel) :
    ∃ x y : Value f, powLoop fuel r a n = x.mul y := by
  induction fuel generalizing n r a with
  | zero =>
      rw [Nat.pow_zero] at enough
      omega
  | succ fuel ih =>
      unfold powLoop
      dsimp only
      by_cases last : n / 2 = 0
      · rw [if_pos last, if_pos (by omega)]
        exact ⟨r, a, rfl⟩
      · rw [if_neg last]
        rw [Nat.pow_succ] at enough
        exact ih (by omega) (by omega)

/-- **A power does not fall below a power of two that its factor did not fall below.** -/
theorem IsAtLeast.pow (one : f.HoldsOne) (base : a.IsAtLeast (2 ^ k)) (n : Nat) :
    (a.pow n).IsAtLeast (2 ^ (k * n)) :=
  pow_of_mul (P := fun i v => v.IsAtLeast (2 ^ i)) isAtLeast_one (IsAtLeast.mul one) base n

/-- **A power does not rise above a power of two that its factor did not rise above**, as long as this is in
the range. -/
theorem IsUpTo.pow (one : f.HoldsOne) (base : a.IsUpTo (2 ^ k)) (inside : k * n < f.top) :
    (a.pow n).IsUpTo (2 ^ (k * n)) := by
  refine pow_of_mul (P := fun i v => i < f.top → v.IsUpTo (2 ^ i)) (fun _ => isUpTo_one) ?_
    (fun _ => base) n inside
  intro i j a b ha hb inside
  exact IsUpTo.mul one inside (ha (by omega)) (hb (by omega))

/-- **A power that should lie beyond the range is infinite.** -/
theorem IsAtLeast.pow_eq_infinite (one : f.HoldsOne) (base : a.IsAtLeast (2 ^ k))
    (beyond : f.top ≤ k * n) : a.pow n = .infinite false := by
  rcases (base.pow one n).cases with infinite | ⟨x, number, large⟩
  · exact infinite
  · have some : 0 < n := Nat.pos_of_ne_zero fun zero => by
      rw [zero, Nat.mul_zero] at beyond
      exact absurd one.top (Nat.not_lt.mpr beyond)
    obtain ⟨y, z, product⟩ := exists_mul_of_powLoop (r := .one) (a := a) some (lt_two_pow_fuel n)
    have range := mul_lt_limit (product.symm.trans number)
    have far : f.limit ≤ 2 ^ (k * n) * f.units := by
      rw [f.limit_eq]
      exact Nat.mul_le_mul_right _ (Nat.pow_le_pow_right (by decide) beyond)
    omega

end Value

end Lighting.Binary
