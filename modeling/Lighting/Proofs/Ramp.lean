import Lighting.Proofs.Level
import Lighting.Ramp

/-!
# The row of a stepped ramp

The steps of a ramp are sent in the order of the row, and the clock has to agree with that: the
offsets of the row never go back, and none of them lies behind the end of the ramp.  The levels agree
with it too: each one is nearer to the target than those before it, and only the last one is the target.
-/

namespace Lighting

theorem Duration.nanos_times (d : Duration) (k : Nat) :
    (d.times k).nanos = Nat.min (d.nanos * k) (Duration.limit - 1) := rfl

theorem Duration.nanos_times_mono (d : Duration) {j k : Nat} (h : j ≤ k) :
    (d.times j).nanos ≤ (d.times k).nanos := by
  have : d.nanos * j ≤ d.nanos * k := Nat.mul_le_mul_left _ h
  rw [nanos_times, nanos_times]
  exact Nat.le_min.mpr ⟨Nat.le_trans (Nat.min_le_left _ _) this, Nat.min_le_right _ _⟩

/-- Fewer than `n` of the `n`-th parts of a span are no longer than the span. -/
theorem Duration.nanos_part_times_le (d : Duration) {n k : Nat} (h : k ≤ n) :
    ((d.part n).times k).nanos ≤ d.nanos := by
  rw [nanos_times]
  calc Nat.min ((d.part n).nanos * k) (limit - 1)
      ≤ d.nanos / n * k := Nat.min_le_left _ _
    _ ≤ d.nanos / n * n := Nat.mul_le_mul_left _ h
    _ ≤ d.nanos := Nat.div_mul_le_self _ _

namespace Ramp

theorem intermediate_succ (start target : Level) (duration : Duration) (n count k : Nat)
    (previous : Level) :
    intermediate start target duration n (count + 1) k previous =
      if start.interpolate target k n = previous then
        intermediate start target duration n count (k + 1) previous
      else
        ⟨(duration.part n).times k, start.interpolate target k n⟩ ::
          intermediate start target duration n count (k + 1) (start.interpolate target k n) :=
  rfl

/-- A step before the last one is sent at a multiple of the interval. -/
theorem mem_intermediate {start target : Level} {duration : Duration} {n : Nat} :
    ∀ {count k : Nat} {previous : Level} {s : Step},
      s ∈ intermediate start target duration n count k previous →
        ∃ j, k ≤ j ∧ j < k + count ∧ s.offset = (duration.part n).times j := by
  intro count
  induction count with
  | zero => intro k previous s h; simp [intermediate] at h
  | succ count ih =>
      intro k previous s h
      rw [intermediate_succ] at h
      split at h
      · obtain ⟨j, low, high, offset⟩ := ih h
        exact ⟨j, by omega, by omega, offset⟩
      · rcases List.mem_cons.mp h with rfl | h
        · exact ⟨k, Nat.le_refl _, by omega, rfl⟩
        · obtain ⟨j, low, high, offset⟩ := ih h
          exact ⟨j, by omega, by omega, offset⟩

theorem pairwise_intermediate (start target : Level) (duration : Duration) (n : Nat) :
    ∀ (count k : Nat) (previous : Level),
      (intermediate start target duration n count k previous).Pairwise
        fun s t => s.offset.nanos ≤ t.offset.nanos := by
  intro count
  induction count with
  | zero => intro k previous; exact List.Pairwise.nil
  | succ count ih =>
      intro k previous
      rw [intermediate_succ]
      split
      · exact ih _ _
      · refine List.pairwise_cons.mpr ⟨fun t ht => ?_, ih _ _⟩
        obtain ⟨j, low, -, offset⟩ := mem_intermediate ht
        rw [offset]
        exact Duration.nanos_times_mono _ (by omega)

theorem dropAtTarget_sublist (target : Level) (steps : List Step) :
    (dropAtTarget target steps).Sublist steps := by
  unfold dropAtTarget
  split
  · exact List.dropLast_sublist _
  · exact List.Sublist.refl _

/-- **The offsets of a ramp never go back.** -/
theorem pairwise_offset_steps {n : Nat} (start target : Level) (duration : Duration)
    (hn : 1 ≤ n) :
    (steps n start target duration).Pairwise fun s t => s.offset.nanos ≤ t.offset.nanos := by
  have front := dropAtTarget_sublist target
    (intermediate start target duration n (n - 1) 1 start)
  refine List.pairwise_append.mpr
    ⟨(pairwise_intermediate _ _ _ _ _ _ _).sublist front, List.pairwise_singleton _ _, ?_⟩
  intro s hs t ht
  rw [List.mem_singleton.mp ht]
  obtain ⟨j, -, high, offset⟩ := mem_intermediate (front.subset hs)
  rw [offset]
  exact Duration.nanos_part_times_le duration (by omega)

/-- No step of a ramp lies behind its end. -/
theorem offset_le_of_mem_steps {n : Nat} {start target : Level} {duration : Duration} (hn : 1 ≤ n)
    {s : Step} (h : s ∈ steps n start target duration) : s.offset.nanos ≤ duration.nanos := by
  rcases List.mem_append.mp h with front | last
  · exact (List.pairwise_append.mp (pairwise_offset_steps start target duration hn)).2.2 s front
      ⟨duration, target⟩ (List.mem_singleton_self _)
  · exact List.mem_singleton.mp last ▸ Nat.le_refl _

/-! ## Levels -/

/-- The steps before the last one come nearer and nearer to the target. -/
theorem pairwise_level_intermediate (start target : Level) (duration : Duration) (n : Nat) :
    ∀ (count k : Nat) (previous : Level),
      (∀ j, k ≤ j → Level.Toward target previous (start.interpolate target j n)) →
        (previous :: (intermediate start target duration n count k previous).map
          Step.level).Pairwise (Level.Nearer target) := by
  intro count
  induction count with
  | zero => exact fun _ _ _ => List.pairwise_singleton _ _
  | succ count ih =>
      intro k previous ahead
      rw [intermediate_succ]
      split
      · exact ih (k + 1) previous fun j h => ahead j (Nat.le_of_succ_le h)
      · rename_i other
        have rest := ih (k + 1) (start.interpolate target k n) fun j h =>
          Level.toward_interpolate (Nat.le_of_succ_le h) start target n
        have first := (ahead k (Nat.le_refl k)).nearer other
        refine List.pairwise_cons.mpr ⟨fun l hl => ?_, rest⟩
        rcases List.mem_cons.mp hl with rfl | hl
        · exact first
        · exact first.trans ((List.pairwise_cons.mp rest).1 l hl)

/-- Of steps that come nearer and nearer to the target none is left that is already there. -/
theorem level_ne_of_mem_dropAtTarget {target : Level} {steps : List Step}
    (order : (steps.map Step.level).Pairwise (Level.Nearer target)) {s : Step}
    (h : s ∈ dropAtTarget target steps) : s.level ≠ target := by
  rcases List.eq_nil_or_concat steps with rfl | ⟨front, last, eq⟩
  · cases h
  · rw [List.concat_eq_append] at eq
    subst eq
    rw [List.map_append] at order
    -- a step that another one follows is not at the target, since the other one is nearer
    have before {t : Step} (ht : t ∈ front) : t.level ≠ target := fun same =>
      Level.not_nearer_of_target (same ▸ (List.pairwise_append.mp order).2.2 t.level
        (List.mem_map_of_mem ht) last.level (List.mem_singleton_self _))
    rw [dropAtTarget, List.getLast?_concat, List.dropLast_concat] at h
    split at h
    · exact before h
    · rename_i away
      rcases List.mem_append.mp h with h | h
      · exact before h
      · exact List.mem_singleton.mp h ▸ by simpa using away

/-- The steps of a ramp before the last one: each is nearer to the target than those before. -/
theorem pairwise_level_front (n : Nat) (start target : Level) (duration : Duration) :
    (start :: (intermediate start target duration n (n - 1) 1 start).map Step.level).Pairwise
      (Level.Nearer target) :=
  pairwise_level_intermediate start target duration n (n - 1) 1 start fun j _ =>
    Level.toward_interpolate_start start target j n

/-- **Each level of a ramp is nearer to the target than those before it.** -/
theorem pairwise_level_steps (n : Nat) (start target : Level) (duration : Duration) :
    ((steps n start target duration).map Step.level).Pairwise (Level.Nearer target) := by
  have order := (List.pairwise_cons.mp (pairwise_level_front n start target duration)).2
  have front := (dropAtTarget_sublist target
    (intermediate start target duration n (n - 1) 1 start)).map Step.level
  rw [steps, List.map_append]
  refine List.pairwise_append.mpr ⟨order.sublist front, List.pairwise_singleton _ _, ?_⟩
  intro l hl m hm
  obtain ⟨s, hs, rfl⟩ := List.mem_map.mp hl
  rw [List.mem_singleton.mp hm]
  exact Level.nearer_target_iff.mpr (level_ne_of_mem_dropAtTarget order hs)

/-- A ramp stays between its start and its target. -/
theorem toward_of_mem_steps {n : Nat} {start target : Level} {duration : Duration} {s : Step}
    (h : s ∈ steps n start target duration) : Level.Toward target start s.level := by
  rcases List.mem_append.mp h with front | last
  · exact ((List.pairwise_cons.mp (pairwise_level_front n start target duration)).1 s.level
      (List.mem_map_of_mem ((dropAtTarget_sublist _ _).subset front))).toward
  · exact List.mem_singleton.mp last ▸ Level.toward_target start target

/-- Only a ramp that takes time and is not left to the bus units is stepped. -/
theorem plan_eq_stepped {n : Nat} {action : Action} {current : Level} {native : Bool}
    {row : List Step} (h : plan n action current native = .stepped row) :
    ∃ level duration, action = .ramp level duration ∧ duration.isZero = false ∧
      native = false ∧ row = steps (stepCount n) current level duration := by
  unfold plan at h
  split at h
  · rename_i level duration
    split at h
    · cases h
    · split at h
      · cases h
      · rename_i long notNative
        cases h
        exact ⟨level, duration, rfl, eq_false_of_ne_true long, eq_false_of_ne_true notNative, rfl⟩
  · cases h

end Ramp

end Lighting
