import Lighting.Proofs.Ramp

/-!
# The shape of a stepped ramp

A stepped ramp is counted out beforehand: how many steps it has, which levels they send and when.
`Shape` says all of it in numbers.  The steps are taken at equal intervals, and the level of the
`k`-th of `n` is `k/n` of the way, rounded toward the start; a step that would repeat a level is left
out, and the last one always goes out.

### How many are left

What is left out is decided step by step, each time by looking at the level sent before.  It comes to
the same to look at the step before, sent or not (`intermediate_eq`), so that the row is a part of the
numbers from 1 to `n - 1`, picked by a test of the number alone.  If there are fewer steps than levels
on the way no step repeats a level, and if there are more no level is passed over; both are one
formula (`length_changes`).
-/

namespace Lighting

/-- No more than `n` of the `n`-th parts of a span are a span. -/
theorem Duration.part_mul_lt_limit (d : Duration) {n k : Nat} (h : k ≤ n) :
    d.nanos / n * k < Duration.limit := by
  calc d.nanos / n * k
      ≤ d.nanos / n * n := Nat.mul_le_mul_left _ h
    _ ≤ d.nanos := Nat.div_mul_le_self _ _
    _ < Duration.limit := d.lt_limit

theorem Duration.nanos_part_times (d : Duration) {n k : Nat} (h : k ≤ n) :
    ((d.part n).times k).nanos = d.nanos / n * k :=
  Duration.nanos_ofNanos (d.part_mul_lt_limit h)

namespace Ramp

variable {n : Nat} {start target : Level} {duration : Duration}

/-! ## Which steps are left -/

/-- The `k`-th of `n` steps has another level than the one before. -/
def changes (start target : Level) (n k : Nat) : Bool :=
  start.interpolate target k n ≠ start.interpolate target (k - 1) n

/-- The `k`-th of `n` steps. -/
def stepAt (start target : Level) (duration : Duration) (n k : Nat) : Step :=
  ⟨(duration.part n).times k, start.interpolate target k n⟩

/-- A step is left out if it repeats the level of the step before, sent or not. -/
theorem intermediate_eq (start target : Level) (duration : Duration) (n count k : Nat) :
    intermediate start target duration n count (k + 1) (start.interpolate target k n) =
      ((List.range' (k + 1) count).filter (changes start target n)).map
        (stepAt start target duration n) := by
  induction count generalizing k with
  | zero => rfl
  | succ count ih =>
      rw [intermediate_succ, List.range'_succ]
      split
      · rename_i same
        have quiet : changes start target n (k + 1) = false := by simpa [changes] using same
        rw [List.filter_cons_of_neg (by simp [quiet]), ← ih (k + 1), same]
      · rename_i other
        have changed : changes start target n (k + 1) = true := by simpa [changes] using other
        rw [List.filter_cons_of_pos changed, List.map_cons, ← ih (k + 1)]
        rfl

/-- The numbers of the steps before the last that are left. -/
def kept (start target : Level) (n : Nat) : List Nat :=
  (List.range' 1 (n - 1)).filter (changes start target n)

theorem mem_kept {k : Nat} :
    k ∈ kept start target n ↔ (1 ≤ k ∧ k < n) ∧ changes start target n k = true := by
  rw [kept, List.mem_filter, List.mem_range'_1]
  exact and_congr_left fun _ => by omega

theorem kept_of_eq : kept start start n = [] := by
  refine List.eq_nil_iff_forall_not_mem.mpr fun k hk => ?_
  obtain ⟨⟨low, high⟩, changed⟩ := mem_kept.mp hk
  have none : Level.gap start start = 0 := Level.gap_eq_zero_iff.mpr rfl
  have same := (Level.interpolate_eq_iff start start high
    (Nat.lt_of_le_of_lt (Nat.sub_le k 1) high)).mpr (by rw [none, Nat.zero_mul, Nat.zero_mul])
  simp [changes, same] at changed

theorem intermediate_eq_map_kept (hn : 1 ≤ n) :
    intermediate start target duration n (n - 1) 1 start =
      (kept start target n).map (stepAt start target duration n) := by
  have row := intermediate_eq start target duration n (n - 1) 0
  rwa [Level.interpolate_zero start target hn] at row

/-- None of the steps that are left is at the target, so that none is dropped there. -/
theorem level_ne_target {s : Step}
    (hs : s ∈ (kept start target n).map (stepAt start target duration n)) : s.level ≠ target := by
  obtain ⟨k, hk, rfl⟩ := List.mem_map.mp hs
  have other : start ≠ target := by
    rintro rfl
    rw [kept_of_eq] at hk
    cases hk
  exact Level.interpolate_ne_target (mem_kept.mp hk).1.2 other

/-- **The row of a stepped ramp**: the steps that are left, and the target at the end. -/
theorem steps_eq (start target : Level) (duration : Duration) (hn : 1 ≤ n) :
    steps n start target duration =
      (kept start target n).map (stepAt start target duration n) ++ [⟨duration, target⟩] := by
  rw [steps, intermediate_eq_map_kept hn, dropAtTarget, if_neg]
  intro reached
  cases last : ((kept start target n).map (stepAt start target duration n)).getLast? with
  | none => simp [last] at reached
  | some s =>
      rw [last] at reached
      exact level_ne_target (List.mem_of_getLast? last) (of_decide_eq_true reached)

/-! ## How many are left -/

/-- Of the first `m` steps as many are left as there are, or as levels are behind if these are
fewer. -/
theorem length_changes (start target : Level) {m : Nat} (h : m < n) :
    ((List.range' 1 m).filter (changes start target n)).length =
      min m (Level.gap start target * m / n) := by
  induction m with
  | zero => simp
  | succ m ih =>
      have before : m < n := Nat.lt_of_succ_lt h
      have changed : changes start target n (1 + m) = true ↔
          Level.gap start target * (m + 1) / n ≠ Level.gap start target * m / n := by
        rw [changes, decide_eq_true_iff, Ne,
          Level.interpolate_eq_iff start target (by omega) (by omega), Nat.add_comm 1 m,
          Nat.add_sub_cancel]
      have grows : Level.gap start target * (m + 1) = Level.gap start target * m +
          Level.gap start target := Nat.mul_succ _ _
      rw [List.range'_1_concat, List.filter_append, List.length_append, ih before]
      generalize Level.gap start target = g at *
      have positive : 0 < n := Nat.zero_lt_of_lt h
      -- a step brings at least one level if the levels are no fewer than the steps, else at most one
      have jump : n ≤ g → g * m / n + 1 ≤ g * (m + 1) / n := fun many => by
        rw [← Nat.add_div_right _ positive, grows]
        exact Nat.div_le_div_right (Nat.add_le_add_left many _)
      have crawl : g ≤ n → g * (m + 1) / n ≤ g * m / n + 1 := fun few => by
        rw [← Nat.add_div_right _ positive, grows]
        exact Nat.div_le_div_right (Nat.add_le_add_left few _)
      have many : n ≤ g → m ≤ g * m / n := fun many => by
        rw [Nat.le_div_iff_mul_le positive, Nat.mul_comm]
        exact Nat.mul_le_mul_right _ many
      have few : g ≤ n → g * m / n ≤ m := fun few => by
        exact Nat.div_le_of_le_mul (Nat.mul_le_mul_right _ few)
      have back : g * m / n ≤ g * (m + 1) / n :=
        Nat.div_le_div_right (Nat.mul_le_mul_left _ (Nat.le_succ m))
      cases keeps : changes start target n (1 + m) with
      | true =>
          have := changed.mp keeps
          simp only [List.filter_cons_of_pos keeps, List.filter_nil, List.length_singleton]
          omega
      | false =>
          have : ¬ _ := fun other => Bool.eq_false_iff.mp keeps (changed.mpr other)
          simp only [List.filter_cons_of_neg (Bool.eq_false_iff.mp keeps), List.filter_nil,
            List.length_nil]
          omega

/-- A ramp has as many steps as levels lie on the way, but no more than asked for, and at least
one. -/
theorem length_steps (hn : 1 ≤ n) :
    (steps n start target duration).length = max 1 (min n (Level.gap start target)) := by
  have count := length_changes start target (show n - 1 < n by omega)
  rw [steps_eq start target duration hn, List.length_append, List.length_map, kept, count,
    List.length_singleton]
  obtain ⟨m, rfl⟩ : ∃ m, n = m + 1 := ⟨n - 1, by omega⟩
  clear count
  rw [Nat.add_sub_cancel]
  generalize Level.gap start target = g
  rcases Nat.lt_or_ge g (m + 1) with few | many
  · cases g with
    | zero => simp
    | succ g =>
        -- all of the way but its last level is behind
        have behind : (g + 1) * m / (m + 1) = g := by
          refine Nat.div_eq_of_lt_le ?_ ?_
          · rw [Nat.mul_succ, Nat.succ_mul]
            omega
          · exact Nat.mul_lt_mul_of_pos_left (Nat.lt_succ_self m) (Nat.succ_pos g)
        rw [behind]
        omega
  · have all : m ≤ g * m / (m + 1) := by
      rw [Nat.le_div_iff_mul_le (Nat.succ_pos m), Nat.mul_comm]
      exact Nat.mul_le_mul_right _ many
    omega

/-! ## The shape -/

/-- The row of a ramp of `n` steps, in numbers. -/
structure Shape (n : Nat) (start target : Level) (duration : Duration) (row : List Step) : Prop where
  /-- There are as many steps as levels on the way, but no more than `n`, and at least one. -/
  length : row.length = max 1 (min n ((target.toNat : Int) - start.toNat).natAbs)
  /-- The last step is the target, at the end. -/
  last : row.getLast? = some ⟨duration, target⟩
  /-- The levels go from the start to the target, none of them twice. -/
  levels : start ≠ target → (start :: row.map Step.level).Pairwise (Level.Nearer target)
  /-- Where there is no way to go, the target is all there is. -/
  still : start = target → row = [⟨duration, target⟩]
  /-- The offsets never go back. -/
  offsets : row.Pairwise fun s t => s.offset.nanos ≤ t.offset.nanos
  /-- The last offset is the largest one. -/
  early : ∀ s ∈ row.dropLast, s.offset.nanos < duration.nanos
  /-- With at least one nanosecond for each step no two offsets are the same. -/
  apart : n ≤ duration.nanos → row.Pairwise fun s t => s.offset.nanos < t.offset.nanos
  /-- A step before the last is sent after its share of the time, with its share of the way. -/
  shares : ∃ ks : List Nat, ks.Pairwise (· < ·) ∧ (∀ k ∈ ks, 1 ≤ k ∧ k < n) ∧
    row.dropLast.map (fun s => (s.offset.nanos, (s.level.toNat : Int))) =
      ks.map fun k => (duration.nanos / n * k,
        start.toNat + (((target.toNat : Int) - start.toNat) * k).tdiv n)
  /-- All multiples of the interval are spans. -/
  room : ∀ k ≤ n, duration.nanos / n * k < Duration.limit

theorem pairwise_kept (start target : Level) (n : Nat) : (kept start target n).Pairwise (· < ·) :=
  List.Pairwise.sublist List.filter_sublist List.pairwise_lt_range'

theorem nanos_offset_stepAt {k : Nat} (hk : k ∈ kept start target n) :
    (stepAt start target duration n k).offset.nanos = duration.nanos / n * k :=
  duration.nanos_part_times (Nat.le_of_lt (mem_kept.mp hk).1.2)

/-- All offsets but the last one are shorter than the ramp. -/
theorem nanos_offset_lt (long : 0 < duration.nanos) {k : Nat} (hk : k ∈ kept start target n) :
    (stepAt start target duration n k).offset.nanos < duration.nanos := by
  have high := (mem_kept.mp hk).1.2
  rw [nanos_offset_stepAt hk]
  rcases Nat.eq_zero_or_pos (duration.nanos / n) with none | some
  · rw [none, Nat.zero_mul]
    exact long
  · calc duration.nanos / n * k
        < duration.nanos / n * n := Nat.mul_lt_mul_of_pos_left high some
      _ ≤ duration.nanos := Nat.div_mul_le_self _ _

theorem shape_steps (hn : 1 ≤ n) (long : 0 < duration.nanos) :
    Shape n start target duration (steps n start target duration) := by
  have row := steps_eq start target duration hn
  have front : (steps n start target duration).dropLast =
      (kept start target n).map (stepAt start target duration n) := by
    rw [row, List.dropLast_concat]
  constructor
  case length => exact length_steps hn
  case last => exact getLast?_steps n start target duration
  case levels =>
    intro other
    have order := pairwise_level_front n start target duration
    rw [intermediate_eq_map_kept hn] at order
    rw [row, List.map_append, ← List.cons_append]
    refine List.pairwise_append.mpr ⟨order, List.pairwise_singleton _ _, fun l hl m hm => ?_⟩
    rw [List.mem_singleton.mp hm]
    refine Level.nearer_target_iff.mpr ?_
    rcases List.mem_cons.mp hl with rfl | hl
    · exact other
    · obtain ⟨s, hs, rfl⟩ := List.mem_map.mp hl
      exact level_ne_target hs
  case still =>
    rintro rfl
    rw [row, kept_of_eq]
    rfl
  case offsets => exact pairwise_offset_steps start target duration hn
  case early =>
    rw [front]
    intro s hs
    obtain ⟨k, hk, rfl⟩ := List.mem_map.mp hs
    exact nanos_offset_lt long hk
  case apart =>
    intro slow
    have tick : 0 < duration.nanos / n := Nat.div_pos slow hn
    rw [row]
    refine List.pairwise_append.mpr ⟨?_, List.pairwise_singleton _ _, fun s hs t ht => ?_⟩
    · refine List.pairwise_map.mpr ((pairwise_kept start target n).imp_of_mem fun hi hj less => ?_)
      rw [nanos_offset_stepAt hi, nanos_offset_stepAt hj]
      exact Nat.mul_lt_mul_of_pos_left less tick
    · obtain ⟨k, hk, rfl⟩ := List.mem_map.mp hs
      rw [List.mem_singleton.mp ht]
      exact nanos_offset_lt long hk
  case shares =>
    refine ⟨kept start target n, pairwise_kept start target n, fun k hk => (mem_kept.mp hk).1, ?_⟩
    rw [front, List.map_map]
    refine List.map_congr_left fun k hk => ?_
    exact Prod.ext (nanos_offset_stepAt hk)
      (Level.natCast_toNat_interpolate (mem_kept.mp hk).1.2)
  case room => exact fun k hk => duration.part_mul_lt_limit hk

/-- **The shape of a stepped ramp.**  A ramp that takes time and is not left to the bus units is
stepped, whatever number of steps is asked for, and its row has the shape of that number, brought
between 1 and 255. -/
theorem stepped_shape (asked : Nat) (start target : Level) {duration : Duration}
    (long : duration ≠ .zero) :
    ∃ row, plan asked (.ramp target duration) start false = .stepped row ∧
      Shape (min (max asked 1) 255) start target duration row := by
  have time : duration.isZero = false := Bool.eq_false_iff.mpr (mt Duration.isZero_iff.mp long)
  refine ⟨steps (stepCount asked) start target duration, ?_, ?_⟩
  · simp only [plan, time, Bool.false_eq_true, if_false]
  · refine shape_steps (one_le_stepCount asked) (Nat.pos_of_ne_zero fun none => long ?_)
    exact Duration.ext none

/-- From 0 to 3 in ten seconds and at most ten steps: the levels 1, 2 and 3 after four, seven and ten
seconds. -/
theorem stepped_shape_of_three_levels :
    Duration.ofSeconds 10 ≠ .zero ∧
      plan 10 (.ramp ⟨3⟩ (.ofSeconds 10)) .off false =
        .stepped [⟨.ofSeconds 4, ⟨1⟩⟩, ⟨.ofSeconds 7, ⟨2⟩⟩, ⟨.ofSeconds 10, ⟨3⟩⟩] ∧
      Shape 10 .off ⟨3⟩ (.ofSeconds 10)
        [⟨.ofSeconds 4, ⟨1⟩⟩, ⟨.ofSeconds 7, ⟨2⟩⟩, ⟨.ofSeconds 10, ⟨3⟩⟩] := by
  have long : Duration.ofSeconds 10 ≠ .zero := by decide
  have counted : plan 10 (.ramp ⟨3⟩ (.ofSeconds 10)) .off false =
      .stepped [⟨.ofSeconds 4, ⟨1⟩⟩, ⟨.ofSeconds 7, ⟨2⟩⟩, ⟨.ofSeconds 10, ⟨3⟩⟩] := by decide
  obtain ⟨row, planned, shape⟩ := stepped_shape 10 .off ⟨3⟩ long
  obtain rfl := Plan.stepped.inj (counted.symm.trans planned)
  exact ⟨long, counted, shape⟩

end Ramp

end Lighting
