import Lighting.Proofs.Dispatcher.Places
import Lighting.Proofs.Rate

/-!
# Ramps of the bus units

A ramp that no rate covers is never left to the bus units: it is taken apart into steps, and a step
takes no time.  So whatever is on the line or still to come takes no time or is covered by a rate, and
the bus units are done with it after the slowest rate at the latest.
-/

namespace Lighting

/-- Whether the bus units can do what a command asks for: it takes no time, or a rate covers it. -/
def Command.isCovered (c : Command) : Bool :=
  c.transition.isZero || Packet.supportsRamp c.transition

/-- A ramp is left to the bus units only if they can run it; all else takes no time. -/
theorem Ramp.isCovered_plan {n : Nat} {c : Command} {current : Level} {native : Bool}
    (able : native = true → Packet.supportsRamp c.transition = true) {action : Action}
    (h : plan n c.action current native = .immediate action ∨
      plan n c.action current native = .native action) : (c.withAction action).isCovered = true := by
  have direct (level : Level) : (c.withAction (directAction level)).isCovered = true := by
    unfold directAction
    split
    · rfl
    · split <;> rfl
  obtain ⟨id, address, asked, madeAt⟩ := c
  cases asked with
  | ramp level duration =>
      simp only [plan] at h
      by_cases short : duration.isZero = true
      · simp only [short, if_true, Plan.immediate.injEq, reduceCtorEq, or_false] at h
        exact h ▸ direct level
      · by_cases native : native = true
        · simp only [short, native, if_true, Bool.false_eq_true, if_false, reduceCtorEq,
            Plan.native.injEq, false_or] at h
          rw [← h]
          exact Bool.or_eq_true_iff.mpr (Or.inr (able native))
        · simp [short, native] at h
  | on =>
      simp only [plan, Plan.immediate.injEq, reduceCtorEq, or_false] at h
      exact h ▸ rfl
  | off =>
      simp only [plan, Plan.immediate.injEq, reduceCtorEq, or_false] at h
      exact h ▸ rfl
  | setLevel level =>
      simp only [plan, Plan.immediate.injEq, reduceCtorEq, or_false] at h
      exact h ▸ rfl

namespace Dispatcher

variable {d d' : Dispatcher}

/-- The bus units are done with a command after the slowest rate at the latest. -/
theorem busTime_le {c : Command} (h : c.isCovered = true) :
    busTime c.transition ≤ Rate.slowest.duration := by
  unfold busTime
  cases covering : Rate.covering? c.transition with
  | some r => exact Rate.duration_le_slowest (List.mem_of_find?_eq_some covering)
  | none =>
      have none : c.transition = .zero := by
        simpa [Command.isCovered, Packet.supportsRamp, covering] using h
      rw [none]
      exact Nat.zero_le _

/-- All that a command comes down to is covered. -/
theorem isCovered_parts {c : Command} {now : Instant} {p : Part} (h : p ∈ d.parts c now) :
    p.command.isCovered = true := by
  have able : (d.settings.nativeRamps && Packet.supportsRamp c.transition) = true →
      Packet.supportsRamp c.transition = true := fun native => (Bool.and_eq_true_iff.mp native).2
  unfold parts at h
  split at h
  · rename_i action plan
    rw [List.mem_singleton.mp h]
    exact Ramp.isCovered_plan able (Or.inl plan)
  · rename_i action plan
    rw [List.mem_singleton.mp h]
    exact Ramp.isCovered_plan able (Or.inr plan)
  · obtain ⟨id, step, -, last, rfl⟩ := mem_stepParts h
    rfl

/-! ## Conditions on commands -/

/-- All that is on the line or still to come meets a condition. -/
structure Meets (P : Command → Prop) (d : Dispatcher) : Prop where
  /-- The commands on the line meet it. -/
  line : ∀ c ∈ d.line, P c
  /-- The steps still to come meet it. -/
  upcoming : ∀ a, ∀ p ∈ d.upcoming a, P p.command

variable {P : Command → Prop}

theorem meets_create (P : Command → Prop) (settings : Settings) (excluded : List Address) :
    (create settings excluded).Meets P :=
  ⟨nofun, nofun⟩

theorem forall_mem_puts {ps : List Part} {line : List Command}
    (new : ∀ p ∈ ps, P p.command) (h : ∀ x ∈ line, P x) :
    ∀ x ∈ ps.foldl (fun line p => p.command.put line) line, P x := by
  induction ps generalizing line with
  | nil => exact h
  | cons p ps ih =>
      obtain ⟨first, new⟩ := List.forall_mem_cons.mp new
      exact ih new fun x hx => (Command.mem_put hx).elim (fun same => same ▸ first) (h x)

/-- **What all that a command comes down to meets, every turn keeps.** -/
theorem Turn.meets {s : Step} {frame : Option (List UInt8)} (turn : d.Turn s frame d')
    (orderly : d.Orderly) (parts : ∀ c now, ∀ p ∈ d.parts c now, P p.command) (h : d.Meets P) :
    d'.Meets P := by
  have timely := orderly.timely
  cases turn with
  | idle intent submits rest =>
      exact ⟨rest.line ▸ h.line, fun a => rest.upcoming timely a ▸ h.upcoming a⟩
  | @take c now open? =>
      refine ⟨?_, fun a p hp => ?_⟩
      · rw [accept_eq, (orderly.lay c now).line_submitAll, line_lay]
        exact forall_mem_puts (fun p hp => parts c now p (List.mem_filter.mp hp).1) h.line
      · rw [timely.upcoming_accept] at hp
        split at hp
        · exact parts c now p (List.mem_filter.mp hp).1
        · exact h.upcoming a p hp
  | @release now e g number c last due task =>
      have withdrawn := orderly.withdraw due task
      obtain ⟨plan, -, -, next, -⟩ := timely.step_due due task
      have new : P c := h.upcoming c.address _ (next ▸ List.mem_cons_self)
      refine ⟨?_, fun a p hp => ?_⟩
      · rw [line_submit withdrawn.places]
        exact fun x hx => (Command.mem_put hx).elim (fun same => same ▸ new) (h.line x)
      · rw [withdrawn.timely.upcoming_submit] at hp
        have hp : p ∈ stepsFor (d.agenda.erase e.token) a := hp
        rw [← (timely.ordered.popDue_eq_some due).2.1] at hp
        by_cases same : a = c.address
        · subst same
          exact h.upcoming c.address p (next ▸ List.mem_cons_of_mem _ hp)
        · exact h.upcoming a p (timely.stepsFor_pop due task same ▸ hp)
  | @send now deadline q rest up free head =>
      refine ⟨fun c hc => h.line c ?_, fun a => ?_⟩
      · rw [line_of_idle free, head]
        exact hc
      · rw [Timely.upcoming_launch]
        exact h.upcoming a
  | @finish _ a outcome _ flight ending rest =>
      refine ⟨fun c hc => h.line c ?_, fun b p hp => h.upcoming b p ?_⟩
      · rw [rest.line] at hc
        rw [line_of_inFlight flight]
        exact List.mem_cons_of_mem _ hc
      · rw [rest.upcoming (orderly.finish flight outcome).timely] at hp
        exact timely.upcoming_land flight b ▸ hp
  | @putBack _ a attempts _ flight return? rest =>
      refine ⟨fun c hc => h.line c ?_, fun b p hp => h.upcoming b p ?_⟩
      · rw [rest.line] at hc
        rw [line_of_inFlight flight]
        exact hc
      · rw [rest.upcoming (orderly.putBack flight attempts).timely] at hp
        exact timely.upcoming_land flight b ▸ hp

/-! ## What the bus units can do -/

/-- All that is on the line or still to come is covered. -/
structure Covered (d : Dispatcher) : Prop where
  /-- The commands on the line are covered. -/
  line : ∀ c ∈ d.line, c.isCovered = true
  /-- The steps still to come are covered. -/
  upcoming : ∀ a, ∀ p ∈ d.upcoming a, p.command.isCovered = true

theorem covered_iff : d.Covered ↔ d.Meets (·.isCovered = true) :=
  ⟨fun h => ⟨h.line, h.upcoming⟩, fun h => ⟨h.line, h.upcoming⟩⟩

theorem covered_create (settings : Settings) (excluded : List Address) :
    (create settings excluded).Covered :=
  covered_iff.mpr (meets_create _ settings excluded)

/-- **Every turn keeps all covered.** -/
theorem Turn.covered {s : Step} {frame : Option (List UInt8)} (turn : d.Turn s frame d')
    (orderly : d.Orderly) (h : d.Covered) : d'.Covered :=
  covered_iff.mpr (turn.meets orderly (fun _ _ _ => isCovered_parts) (covered_iff.mp h))

theorem Covered.run (h : d.Covered) (orderly : d.Orderly) {steps : List Step}
    {frames : List (List UInt8)} (run : d.run steps = .ok (frames, d')) : d'.Covered :=
  (run_induction (P := fun d => d.Covered ∧ d.Orderly)
    (fun h step => ⟨(turn h.2.timely step).covered h.2 h.1, h.2.step step⟩) ⟨h, orderly⟩ run).1

end Dispatcher

end Lighting
