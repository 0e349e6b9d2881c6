import Lighting.Level

/-!
# The way from one level to another

A ramp never turns back and never goes past its target.  `Toward` says this of two levels, the second
of which comes later, and `Nearer` says besides that the second one is another level.  Both say it for
ramps that rise and for ramps that fall, so that no proof has to treat the two apart.
-/

namespace Lighting

namespace Level

/-- The second level lies between the first and the target. -/
def Toward (target l m : Level) : Prop :=
  l.toNat ≤ m.toNat ∧ m.toNat ≤ target.toNat ∨ target.toNat ≤ m.toNat ∧ m.toNat ≤ l.toNat

/-- The second level lies between the first and the target, and is not the first. -/
def Nearer (target l m : Level) : Prop :=
  l.toNat < m.toNat ∧ m.toNat ≤ target.toNat ∨ target.toNat ≤ m.toNat ∧ m.toNat < l.toNat

variable {start target l m o : Level}

theorem toward_target (l target : Level) : Toward target l target := by
  unfold Toward
  omega

theorem Nearer.toward (h : Nearer target l m) : Toward target l m := by
  unfold Nearer at h
  unfold Toward
  omega

theorem Nearer.trans (h : Nearer target l m) (h' : Nearer target m o) : Nearer target l o := by
  unfold Nearer at *
  omega

theorem Toward.nearer (h : Toward target l m) (other : m ≠ l) : Nearer target l m := by
  have : m.toNat ≠ l.toNat := fun same => other (ext same)
  unfold Toward at h
  unfold Nearer
  omega

/-- The target lies nearer than any other level, and no level lies nearer than the target. -/
theorem nearer_target_iff : Nearer target l target ↔ l ≠ target := by
  have : l = target ↔ l.toNat = target.toNat := ⟨fun same => same ▸ rfl, ext⟩
  rw [Nearer, Ne, this]
  omega

theorem not_nearer_of_target : ¬ Nearer target target m := by
  unfold Nearer
  omega

/-! ## Interpolation -/

theorem toNat_clamped {n : Nat} (h : n < 256) : (clamped n).toNat = n := by
  simp only [clamped, toNat, Int.toNat_natCast, UInt8.toNat_ofNat']
  omega

/-- Fewer than `n` of `n` equal parts make up no more than the whole. -/
theorem mul_div_le_of_lt {step steps : Nat} (whole : Nat) (h : step < steps) :
    whole * step / steps ≤ whole :=
  Nat.div_le_of_le_mul (by rw [Nat.mul_comm steps]; exact Nat.mul_le_mul_left _ (Nat.le_of_lt h))

/-- On the way up. -/
theorem toNat_interpolate_of_le {step steps : Nat} (up : start.toNat ≤ target.toNat)
    (h : step < steps) : (start.interpolate target step steps).toNat =
      start.toNat + (target.toNat - start.toNat) * step / steps := by
  have part := mul_div_le_of_lt (target.toNat - start.toNat) h
  have bound := target.toNat_lt
  have delta : (target.toNat : Int) - start.toNat = ((target.toNat - start.toNat : Nat) : Int) := by
    omega
  rw [interpolate, if_neg (by omega)]
  simp only [delta]
  rw [← Int.natCast_mul, ← Int.ofNat_tdiv, ← Int.natCast_add, toNat_clamped (by omega)]

/-- On the way down. -/
theorem toNat_interpolate_of_ge {step steps : Nat} (down : target.toNat ≤ start.toNat)
    (h : step < steps) : (start.interpolate target step steps).toNat =
      start.toNat - (start.toNat - target.toNat) * step / steps := by
  have part := mul_div_le_of_lt (start.toNat - target.toNat) h
  have bound := start.toNat_lt
  have delta : (target.toNat : Int) - start.toNat = -((start.toNat - target.toNat : Nat) : Int) := by
    omega
  rw [interpolate, if_neg (by omega)]
  simp only [delta]
  rw [Int.neg_mul, Int.neg_tdiv, ← Int.natCast_mul, ← Int.ofNat_tdiv, ← Int.sub_eq_add_neg,
    ← Int.natCast_sub (by omega), toNat_clamped (Nat.lt_of_le_of_lt (Nat.sub_le _ _) bound)]

/-- **The levels on the way to a target go toward it.** -/
theorem toward_interpolate {i j : Nat} (h : i ≤ j) (start target : Level) (steps : Nat) :
    Toward target (start.interpolate target i steps) (start.interpolate target j steps) := by
  rcases Nat.lt_or_ge j steps with inside | beyond
  · -- more steps make up more of the way, and no more than all of it
    have more (whole : Nat) : whole * i / steps ≤ whole * j / steps :=
      Nat.div_le_div_right (Nat.mul_le_mul_left _ h)
    rcases Nat.le_total start.toNat target.toNat with up | down
    · have part := mul_div_le_of_lt (target.toNat - start.toNat) inside
      have := more (target.toNat - start.toNat)
      rw [Toward, toNat_interpolate_of_le up inside, toNat_interpolate_of_le up (by omega)]
      omega
    · have part := mul_div_le_of_lt (start.toNat - target.toNat) inside
      have := more (start.toNat - target.toNat)
      rw [Toward, toNat_interpolate_of_ge down inside, toNat_interpolate_of_ge down (by omega)]
      omega
  · rw [interpolate_of_le beyond]
    exact toward_target _ target

/-- All of them lie between the start and the target. -/
theorem toward_interpolate_start (start target : Level) (step steps : Nat) :
    Toward target start (start.interpolate target step steps) := by
  rcases Nat.lt_or_ge step steps with inside | beyond
  · have first : start.interpolate target 0 steps = start := by
      apply ext
      rcases Nat.le_total start.toNat target.toNat with up | down
      · simp [toNat_interpolate_of_le up (Nat.zero_lt_of_lt inside)]
      · simp [toNat_interpolate_of_ge down (Nat.zero_lt_of_lt inside)]
    have toward := toward_interpolate (Nat.zero_le step) start target steps
    rwa [first] at toward
  · rw [interpolate_of_le beyond]
    exact toward_target _ target

/-! ## How much of the way is behind -/

/-- How far two levels are apart. -/
def gap (a b : Level) : Nat := ((b.toNat : Int) - a.toNat).natAbs

theorem gap_eq_zero_iff : gap start target = 0 ↔ start = target := by
  refine ⟨fun same => ext ?_, fun same => by simp [gap, same]⟩
  unfold gap at same
  omega

/-- The way that is behind after some of the steps. -/
theorem gap_interpolate (start target : Level) {step steps : Nat} (h : step < steps) :
    gap start (start.interpolate target step steps) = gap start target * step / steps := by
  rcases Nat.le_total start.toNat target.toNat with up | down
  · have whole : gap start target = target.toNat - start.toNat := by
      unfold gap
      omega
    rw [whole, gap, toNat_interpolate_of_le up h]
    generalize (target.toNat - start.toNat) * step / steps = behind
    omega
  · have whole : gap start target = start.toNat - target.toNat := by
      unfold gap
      omega
    have part := mul_div_le_of_lt (start.toNat - target.toNat) h
    rw [whole, gap, toNat_interpolate_of_ge down h]
    generalize (start.toNat - target.toNat) * step / steps = behind at *
    omega

/-- Two levels on the way are the same if the same way is behind. -/
theorem interpolate_eq_iff (start target : Level) {i j steps : Nat} (hi : i < steps)
    (hj : j < steps) :
    start.interpolate target i steps = start.interpolate target j steps ↔
      gap start target * i / steps = gap start target * j / steps := by
  rw [← gap_interpolate start target hi, ← gap_interpolate start target hj]
  refine ⟨fun same => by rw [same], fun same => ext ?_⟩
  -- both lie on the same side of the start
  have first := toward_interpolate_start start target i steps
  have second := toward_interpolate_start start target j steps
  unfold gap at same
  unfold Toward at first second
  omega

theorem interpolate_zero (start target : Level) {steps : Nat} (h : 0 < steps) :
    start.interpolate target 0 steps = start := by
  have behind := gap_interpolate start target h
  rw [Nat.mul_zero, Nat.zero_div] at behind
  exact (gap_eq_zero_iff.mp behind).symm

/-- Before the last step the target is not reached. -/
theorem interpolate_ne_target {step steps : Nat} (h : step < steps) (other : start ≠ target) :
    start.interpolate target step steps ≠ target := by
  intro reached
  have behind := gap_interpolate start target h
  have far : 0 < gap start target := Nat.pos_of_ne_zero (mt gap_eq_zero_iff.mp other)
  rw [reached] at behind
  have less : gap start target * step < gap start target * steps := Nat.mul_lt_mul_of_pos_left h far
  have := Nat.div_lt_of_lt_mul (Nat.mul_comm (gap start target) steps ▸ less)
  omega

/-- The level after some of the steps, in integers. -/
theorem natCast_toNat_interpolate {step steps : Nat} (h : step < steps) :
    ((start.interpolate target step steps).toNat : Int) =
      start.toNat + (((target.toNat : Int) - start.toNat) * step).tdiv steps := by
  rcases Nat.le_total start.toNat target.toNat with up | down
  · have delta : (target.toNat : Int) - start.toNat = ((target.toNat - start.toNat : Nat) : Int) := by
      omega
    rw [toNat_interpolate_of_le up h, delta, ← Int.natCast_mul, ← Int.ofNat_tdiv, Int.natCast_add]
  · have part := mul_div_le_of_lt (start.toNat - target.toNat) h
    have delta : (target.toNat : Int) - start.toNat = -((start.toNat - target.toNat : Nat) : Int) := by
      omega
    rw [toNat_interpolate_of_ge down h, delta, Int.neg_mul, Int.neg_tdiv, ← Int.natCast_mul,
      ← Int.ofNat_tdiv, Int.natCast_sub (by omega)]
    omega

end Level

end Lighting
