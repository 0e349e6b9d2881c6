import Lighting.Dispatcher.Enqueue
import Lighting.Proofs.Agenda
import Lighting.Proofs.Ramp

/-!
# The parts of a command

A command that is taken comes down to a row of `Part`s: itself, or the steps of a ramp, each with the
moment it falls due or none if it goes on the line at once.  `parts` computes the row from the
dispatcher that takes the command, and `accept_eq` says that taking a command is exactly this: make
room, lay the row out, and put on the line what goes there at once.

### The two shapes of a row

`parts_cases` is all that later proofs need to know about a row.  Either it is one part that goes on
the line at once, under the command's own identifier; or its last part carries that identifier and
lies on the agenda, the parts before it have the identifiers given out next, and the moments of the
row never go back.  A row that mixes the two (a ramp whose end is at once and whose middle is not)
does not exist, because offsets only grow and the last one decides.
-/

namespace Lighting

/-- One of the commands a command comes down to. -/
structure Part where
  /-- What goes on the line. -/
  command : Command
  /-- Where it comes from. -/
  origin : Origin
  /-- When it falls due; none if it goes on the line at once. -/
  moment : Option Instant

namespace Part

/-- Whether the part goes on the line at once. -/
def isAtOnce (p : Part) : Bool := p.moment.isNone

/-- The agenda entry of the part, if it has one. -/
def booking? (p : Part) : Option (Instant × Task) :=
  match p.moment, p.origin with
  | some t, .rampStep plan last => some (t, .rampStep plan p.command last)
  | _, _ => none

theorem booking?_eq_some {p : Part} {b : Instant × Task} (h : p.booking? = some b) :
    ∃ t plan last, p.moment = some t ∧ p.origin = .rampStep plan last ∧
      b = (t, .rampStep plan p.command last) := by
  unfold booking? at h
  split at h
  · rename_i t plan last moment origin
    cases h
    exact ⟨t, plan, last, moment, origin, rfl⟩
  · cases h

end Part

namespace Dispatcher

/-! ## Laying out a ramp -/

/-- When a step of a ramp falls due: never, if it has no offset or lies beyond the clock. -/
def moment (now : Instant) (offset : Duration) : Option Instant :=
  if offset.isZero then none else now.add? offset

/-- The part that carries one step of a ramp. -/
def stepPart (plan : Nat) (c : Command) (now : Instant) (id : CommandId) (step : Ramp.Step)
    (last : Bool) : Part where
  command := ⟨if last then c.id else id, c.address, .setLevel step.level, c.madeAt⟩
  origin := .rampStep plan last
  moment := moment now step.offset

/-- The parts that carry the steps of a ramp; all but the last one get identifiers of their own. -/
def stepParts (plan : Nat) (c : Command) (now : Instant) : CommandId → List Ramp.Step → List Part
  | _, [] => []
  | id, step :: rest =>
    stepPart plan c now id step rest.isEmpty :: stepParts plan c now id.next rest

@[simp] theorem isIntermediate_stepPart (plan : Nat) (c : Command) (now : Instant) (id : CommandId)
    (step : Ramp.Step) (last : Bool) :
    (stepPart plan c now id step last).origin.isIntermediate = !last := rfl

@[simp] theorem length_stepParts (plan : Nat) (c : Command) (now : Instant) (id : CommandId)
    (steps : List Ramp.Step) : (stepParts plan c now id steps).length = steps.length := by
  induction steps generalizing id with
  | nil => rfl
  | cons step rest ih => simp [stepParts, ih]

/-- The dispatcher with a row of parts laid out: their identifiers given out, their entries made,
and the plan entered if there are any. -/
def install (d : Dispatcher) (c : Command) (ps : List Part) : Dispatcher :=
  let bookings := ps.filterMap Part.booking?
  { d with
    nextId := ⟨d.nextId.number + (ps.length - 1)⟩
    nextPlan := d.nextPlan + 1
    agenda := d.agenda.bookAll bookings
    plans := if bookings.isEmpty then d.plans
      else d.plans.set c.address (some ⟨d.nextPlan, c.id, d.agenda.upcoming bookings.length⟩) }

/-- Puts the parts of a row on the line in order. -/
def submitAll (d : Dispatcher) (ps : List Part) : Dispatcher :=
  ps.foldl (fun d p => d.submit p.command p.origin) d

@[simp] theorem submitAll_nil (d : Dispatcher) : d.submitAll [] = d := rfl

theorem submitAll_cons (d : Dispatcher) (p : Part) (ps : List Part) :
    d.submitAll (p :: ps) = (d.submit p.command p.origin).submitAll ps := rfl

/-- One step is laid out as its part says. -/
theorem layStep_eq (plan : Nat) (c : Command) (now : Instant) (layout : Layout) (step : Ramp.Step)
    (last : Bool) :
    layStep plan c now layout step last =
      let d := layout.dispatcher
      let p := stepPart plan c now d.nextId step last
      { dispatcher :=
          { d with
            nextId := if last then d.nextId else d.nextId.next
            agenda := d.agenda.bookAll p.booking?.toList }
        timers := layout.timers ++ d.agenda.upcoming p.booking?.toList.length
        atOnce := layout.atOnce ++ if p.isAtOnce then [(p.command, last)] else [] } := by
  cases last <;> cases zero : step.offset.isZero <;> cases reach : now.add? step.offset <;>
    simp [layStep, issueId, stepPart, moment, Part.booking?, Part.isAtOnce, zero, reach,
      Agenda.bookAll, Agenda.upcoming, Agenda.schedule]

theorem filterMap_booking_cons (p : Part) (ps : List Part) :
    (p :: ps).filterMap Part.booking? = p.booking?.toList ++ ps.filterMap Part.booking? := by
  cases h : p.booking? <;> simp [h]

theorem map_filter_isAtOnce_cons {α : Type} (f : Part → α) (p : Part) (ps : List Part) :
    ((p :: ps).filter Part.isAtOnce).map f =
      (if p.isAtOnce then [f p] else []) ++ (ps.filter Part.isAtOnce).map f := by
  cases h : p.isAtOnce <;> simp [h]

/-- A whole ramp is laid out as its parts say. -/
theorem laySteps_eq (plan : Nat) (c : Command) (now : Instant) (steps : List Ramp.Step)
    (layout : Layout) :
    laySteps plan c now steps layout =
      let d := layout.dispatcher
      let ps := stepParts plan c now d.nextId steps
      let bookings := ps.filterMap Part.booking?
      { dispatcher :=
          { d with
            nextId := ⟨d.nextId.number + (steps.length - 1)⟩
            agenda := d.agenda.bookAll bookings }
        timers := layout.timers ++ d.agenda.upcoming bookings.length
        atOnce := layout.atOnce ++
          (ps.filter Part.isAtOnce).map fun p => (p.command, !p.origin.isIntermediate) } := by
  induction steps generalizing layout with
  | nil => simp [laySteps, stepParts, Agenda.upcoming]
  | cons step rest ih =>
      rw [laySteps, ih, layStep_eq]
      -- the steps left over find the next identifier, and there are none if this one is the last
      have parts : stepParts plan c now
          (if rest.isEmpty then layout.dispatcher.nextId else layout.dispatcher.nextId.next) rest =
            stepParts plan c now layout.dispatcher.nextId.next rest := by
        cases rest <;> rfl
      have number : (if rest.isEmpty then layout.dispatcher.nextId
          else layout.dispatcher.nextId.next).number + (rest.length - 1) =
            layout.dispatcher.nextId.number + ((step :: rest).length - 1) := by
        cases rest with
        | nil => rfl
        | cons _ _ => simp [CommandId.next]; omega
      simp only [stepParts, parts, number, filterMap_booking_cons, map_filter_isAtOnce_cons,
        List.length_append, Agenda.bookAll_append, ← Agenda.upcoming_append, List.append_assoc,
        isIntermediate_stepPart, Bool.not_not]

theorem mem_stepParts {plan : Nat} {c : Command} {now : Instant} {id : CommandId}
    {steps : List Ramp.Step} {p : Part} (h : p ∈ stepParts plan c now id steps) :
    ∃ id', ∃ step ∈ steps, ∃ last, p = stepPart plan c now id' step last := by
  induction steps generalizing id with
  | nil => simp [stepParts] at h
  | cons step rest ih =>
      rcases List.mem_cons.mp h with rfl | h
      · exact ⟨id, step, List.mem_cons_self, _, rfl⟩
      · obtain ⟨id', step', member, last, rfl⟩ := ih h
        exact ⟨id', step', List.mem_cons_of_mem _ member, last, rfl⟩

theorem foldl_submit_eq {plan : Nat} {ps : List Part}
    (steps : ∀ p ∈ ps, p.origin = .rampStep plan (!p.origin.isIntermediate)) (d : Dispatcher) :
    (ps.map fun p => (p.command, !p.origin.isIntermediate)).foldl
      (fun d (command, last) => d.submit command (.rampStep plan last)) d = d.submitAll ps := by
  induction ps generalizing d with
  | nil => rfl
  | cons p ps ih =>
      rw [List.map_cons, List.foldl_cons, submitAll_cons,
        ih fun q hq => steps q (List.mem_cons_of_mem _ hq)]
      show (d.submit p.command (.rampStep plan (!p.origin.isIntermediate))).submitAll ps = _
      rw [← steps p List.mem_cons_self]

/-- Starting a ramp is laying out its parts and putting on the line what goes there at once. -/
theorem startPlan_eq (d : Dispatcher) (c : Command) (steps : List Ramp.Step) (now : Instant) :
    d.startPlan c steps now =
      let ps := stepParts d.nextPlan c now d.nextId (fitting now steps)
      (d.install c ps).submitAll (ps.filter Part.isAtOnce) := by
  have origins : ∀ p ∈ (stepParts d.nextPlan c now d.nextId (fitting now steps)).filter
      Part.isAtOnce, p.origin = .rampStep d.nextPlan (!p.origin.isIntermediate) := by
    intro p hp
    obtain ⟨id, step, -, last, rfl⟩ := mem_stepParts (List.mem_filter.mp hp).1
    simp [stepPart, Origin.isIntermediate]
  have none? (n : Nat) : (d.agenda.upcoming n).isEmpty = (n == 0) := by
    cases n <;> simp [Agenda.upcoming]
  simp only [startPlan, laySteps_eq, List.nil_append, foldl_submit_eq origins, install,
    length_stepParts, none?]
  congr 1
  cases bookings : (stepParts d.nextPlan c now d.nextId (fitting now steps)).filterMap
    Part.booking? <;> simp

/-! ## Taking a command -/

/-- How a command is carried out. -/
def treatment (d : Dispatcher) (c : Command) : Ramp.Plan :=
  Ramp.plan d.settings.rampSteps c.action (d.registry.query c.address).best
    (d.settings.nativeRamps && Packet.supportsRamp c.transition)

/-- What a command comes down to. -/
def parts (d : Dispatcher) (c : Command) (now : Instant) : List Part :=
  match d.treatment c with
  | .immediate action => [⟨c.withAction action, .direct, none⟩]
  | .native action => [⟨c.withAction action, .direct, none⟩]
  | .stepped steps => stepParts d.nextPlan c now d.nextId (fitting now steps)

/-- The dispatcher with the running ramp of a command's address ended and the command's level
noted. -/
def makeRoom (d : Dispatcher) (c : Command) : Dispatcher :=
  let d := d.cancelPlan c.address c.id
  d.record (d.registry.aim c.address c.target c.transition)

@[simp] theorem registry_cancelPlan (d : Dispatcher) (a : Address) (successor : CommandId) :
    (d.cancelPlan a successor).registry = d.registry := by
  unfold cancelPlan; split <;> rfl

@[simp] theorem settings_cancelPlan (d : Dispatcher) (a : Address) (successor : CommandId) :
    (d.cancelPlan a successor).settings = d.settings := by
  unfold cancelPlan; split <;> rfl

@[simp] theorem nextPlan_makeRoom (d : Dispatcher) (c : Command) :
    (d.makeRoom c).nextPlan = d.nextPlan := by
  unfold makeRoom cancelPlan; split <;> rfl

@[simp] theorem nextId_makeRoom (d : Dispatcher) (c : Command) :
    (d.makeRoom c).nextId = d.nextId := by
  unfold makeRoom cancelPlan; split <;> rfl

/-- The dispatcher with a command laid out; what goes on the line at once is not there yet. -/
def lay (d : Dispatcher) (c : Command) (now : Instant) : Dispatcher :=
  match d.treatment c with
  | .stepped _ => (d.makeRoom c).install c (d.parts c now)
  | _ => d.makeRoom c

/-- **Taking a command** is making room, laying it out, and putting on the line what goes there at
once. -/
theorem accept_eq (d : Dispatcher) (c : Command) (now : Instant) :
    d.accept c now = (d.lay c now).submitAll ((d.parts c now).filter Part.isAtOnce) := by
  show (match Ramp.plan (d.cancelPlan c.address c.id).settings.rampSteps c.action
      ((d.cancelPlan c.address c.id).registry.query c.address).best
      ((d.cancelPlan c.address c.id).settings.nativeRamps && Packet.supportsRamp c.transition) with
    | .immediate action => (d.makeRoom c).submit (c.withAction action) .direct
    | .native action => (d.makeRoom c).submit (c.withAction action) .direct
    | .stepped steps => (d.makeRoom c).startPlan c steps now) = _
  rw [registry_cancelPlan, settings_cancelPlan, ← treatment]
  unfold lay parts
  cases d.treatment c with
  | immediate action => rfl
  | native action => rfl
  | stepped steps =>
      show (d.makeRoom c).startPlan c steps now = _
      rw [startPlan_eq, nextPlan_makeRoom, nextId_makeRoom]

/-! ## The shape of a row -/

/-- A row of parts that lies on the agenda: `last` is the command itself and falls due at the end,
the parts of `front` come before it under identifiers of their own. -/
structure Spread (d : Dispatcher) (c : Command) (front : List Part) (last : Part) : Prop where
  /-- The row is that of a stepped ramp. -/
  stepped : ∃ steps, d.treatment c = .stepped steps
  /-- The last part is the command. -/
  last_id : last.command.id = c.id
  /-- The last part is known as the last step of its plan. -/
  last_origin : last.origin = .rampStep d.nextPlan true
  /-- The last part lies on the agenda. -/
  last_moment : last.moment.isSome
  /-- The parts before it are known as steps before the last. -/
  front_origin : ∀ p ∈ front, p.origin = .rampStep d.nextPlan false
  /-- The parts before it get the identifiers given out next. -/
  front_id : front.map (·.command.id) = (List.range front.length).map (⟨d.nextId.number + ·⟩)
  /-- All parts are for the command's address. -/
  address : ∀ p ∈ front ++ [last], p.command.address = c.address
  /-- The moments never go back. -/
  ordered : (front ++ [last]).Pairwise fun p q =>
    ∀ t ∈ p.moment, ∀ u ∈ q.moment, t.nanos ≤ u.nanos
  /-- What goes on the line at once comes first. -/
  early : (front ++ [last]).Pairwise fun p q => q.moment = none → p.moment = none

theorem stepParts_concat (plan : Nat) (c : Command) (now : Instant) (id : CommandId)
    (init : List Ramp.Step) (step : Ramp.Step) :
    ∃ front id', stepParts plan c now id (init ++ [step]) =
        front ++ [stepPart plan c now id' step true] ∧
      (∀ p ∈ front, p.origin = .rampStep plan false) ∧
      front.map (·.command.id) = (List.range front.length).map (⟨id.number + ·⟩) := by
  induction init generalizing id with
  | nil => exact ⟨[], id, rfl, by simp, rfl⟩
  | cons first init ih =>
      obtain ⟨front, id', row, origin, ids⟩ := ih id.next
      have more : (init ++ [step]).isEmpty = false := by simp
      refine ⟨stepPart plan c now id first false :: front, id', ?_, ?_, ?_⟩
      · rw [List.cons_append, stepParts, more, row, List.cons_append]
      · intro p hp
        rcases List.mem_cons.mp hp with rfl | hp
        · rfl
        · exact origin p hp
      · rw [List.map_cons, ids, List.length_cons, List.range_succ_eq_map, List.map_cons,
          List.map_map]
        refine congrArg (List.cons _) (List.map_congr_left fun i _ => ?_)
        simp only [Function.comp_apply, CommandId.next, CommandId.mk.injEq]
        omega

theorem pairwise_stepParts (plan : Nat) (c : Command) (now : Instant) (id : CommandId)
    {steps : List Ramp.Step}
    (h : steps.Pairwise fun s t => s.offset.nanos ≤ t.offset.nanos) :
    (stepParts plan c now id steps).Pairwise fun p q =>
      ∀ t ∈ p.moment, ∀ u ∈ q.moment, t.nanos ≤ u.nanos := by
  have due {offset : Duration} {t : Instant} (h : t ∈ moment now offset) :
      t.nanos = now.nanos + offset.nanos := by
    unfold moment at h
    split at h
    · cases h
    · exact Instant.add?_eq_some_iff.mp h
  induction steps generalizing id with
  | nil => exact List.Pairwise.nil
  | cons step rest ih =>
      obtain ⟨first, rest'⟩ := List.pairwise_cons.mp h
      refine List.pairwise_cons.mpr ⟨fun q hq t ht u hu => ?_, ih id.next rest'⟩
      obtain ⟨id', step', member, last, rfl⟩ := mem_stepParts hq
      rw [due ht, due hu]
      exact Nat.add_le_add_left (first step' member) _

/-- If the last step of a ramp lies on the clock, all of them do. -/
theorem isSome_add?_of_mem {steps : List Ramp.Step} {now t : Instant} {last : Ramp.Step}
    (h : steps.Pairwise fun s t => s.offset.nanos ≤ t.offset.nanos)
    (final : steps.getLast? = some last) (reach : now.add? last.offset = some t) :
    ∀ s ∈ steps, (now.add? s.offset).isSome := by
  obtain ⟨init, rfl⟩ := List.getLast?_eq_some_iff.mp final
  have bound := (List.pairwise_append.mp h).2.2
  intro s hs
  have : s.offset.nanos ≤ last.offset.nanos := by
    rcases List.mem_append.mp hs with hs | hs
    · exact bound s hs last (List.mem_singleton_self _)
    · obtain rfl := List.mem_singleton.mp hs
      exact Nat.le_refl _
  exact Instant.isSome_add?_of_le this (Option.isSome_of_eq_some reach)

theorem pairwise_stepParts_early (plan : Nat) (c : Command) (now : Instant) (id : CommandId)
    {steps : List Ramp.Step}
    (h : steps.Pairwise fun s t => s.offset.nanos ≤ t.offset.nanos)
    (fits : ∀ s ∈ steps, (now.add? s.offset).isSome) :
    (stepParts plan c now id steps).Pairwise fun p q => q.moment = none → p.moment = none := by
  have atOnce {s : Ramp.Step} (hs : s ∈ steps) : moment now s.offset = none ↔ s.offset.nanos = 0 := by
    have fit := fits s hs
    unfold moment Duration.isZero
    split
    · simp_all
    · rw [Option.eq_none_iff_forall_not_mem]
      obtain ⟨t, reach⟩ := Option.isSome_iff_exists.mp fit
      simp_all
  induction steps generalizing id with
  | nil => exact List.Pairwise.nil
  | cons step rest ih =>
      obtain ⟨first, rest'⟩ := List.pairwise_cons.mp h
      refine List.pairwise_cons.mpr ⟨fun q hq none => ?_, ih id.next rest'
        (fun s hs => fits s (List.mem_cons_of_mem _ hs))
        (fun hs => atOnce (List.mem_cons_of_mem _ hs))⟩
      obtain ⟨id', step', member, last, rfl⟩ := mem_stepParts hq
      have := first step' member
      have := (atOnce (List.mem_cons_of_mem _ member)).mp none
      exact (atOnce List.mem_cons_self).mpr (by omega)

/-- **The two shapes of a row.** -/
theorem parts_cases (d : Dispatcher) (c : Command) (now : Instant) :
    (∃ p, d.parts c now = [p] ∧ p.moment = none ∧ p.command.id = c.id ∧
        p.command.address = c.address ∧ p.origin.isIntermediate = false) ∨
      ∃ front last, d.parts c now = front ++ [last] ∧ Spread d c front last := by
  unfold parts
  cases treatment : d.treatment c with
  | immediate action => exact Or.inl ⟨_, rfl, rfl, rfl, rfl, rfl⟩
  | native action => exact Or.inl ⟨_, rfl, rfl, rfl, rfl, rfl⟩
  | stepped steps =>
      obtain ⟨level, duration, -, long, -, rfl⟩ := Ramp.plan_eq_stepped treatment
      have last := Ramp.getLast?_steps (Ramp.stepCount d.settings.rampSteps)
        (d.registry.query c.address).best level duration
      cases reach : now.add? duration with
      | none =>
          -- the ramp ends beyond the clock, so only its target is left
          refine Or.inl ⟨stepPart d.nextPlan c now d.nextId ⟨duration, level⟩ true, ?_, ?_, ?_⟩
          · simp [fitting, last, reach, stepParts]
          · simp [stepPart, moment, long, reach]
          · exact ⟨rfl, rfl, rfl⟩
      | some t =>
          have fits : fitting now (Ramp.steps (Ramp.stepCount d.settings.rampSteps)
              (d.registry.query c.address).best level duration) =
                Ramp.steps (Ramp.stepCount d.settings.rampSteps)
                  (d.registry.query c.address).best level duration := by
            simp [fitting, last, reach]
          have ordered := pairwise_stepParts d.nextPlan c now d.nextId
            (Ramp.pairwise_offset_steps (d.registry.query c.address).best level duration
              (Ramp.one_le_stepCount d.settings.rampSteps))
          have address : ∀ p ∈ stepParts d.nextPlan c now d.nextId
              (Ramp.steps (Ramp.stepCount d.settings.rampSteps)
                (d.registry.query c.address).best level duration),
              p.command.address = c.address := by
            intro p hp
            obtain ⟨id, step, -, last, rfl⟩ := mem_stepParts hp
            rfl
          obtain ⟨front, id, row, origin, ids⟩ := stepParts_concat d.nextPlan c now d.nextId
            (Ramp.dropAtTarget level (Ramp.intermediate (d.registry.query c.address).best level
              duration (Ramp.stepCount d.settings.rampSteps)
              (Ramp.stepCount d.settings.rampSteps - 1) 1 (d.registry.query c.address).best))
            ⟨duration, level⟩
          have offsets := Ramp.pairwise_offset_steps (d.registry.query c.address).best level duration
            (Ramp.one_le_stepCount d.settings.rampSteps)
          have early := pairwise_stepParts_early d.nextPlan c now d.nextId offsets
            (isSome_add?_of_mem offsets last reach)
          rw [Ramp.steps, row] at ordered address early
          simp only [fits]
          exact Or.inr ⟨front, _, row, ⟨_, treatment⟩, rfl, rfl,
            by simp [stepPart, moment, long, reach], origin, ids, address, ordered, early⟩

end Dispatcher

end Lighting
