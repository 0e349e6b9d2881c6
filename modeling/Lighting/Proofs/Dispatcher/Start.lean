import Lighting.Proofs.Dispatcher.Places

/-!
# Starting a stepped ramp

A ramp that has to be stepped is started whole or not at all.  `planned` says what each of its steps
becomes: the last one is the ramp's own command, those before it get the identifiers given out next,
and a step falls due at its offset, or goes on the line at once if it has none.  If the ramp ends on
the clock, this is what is done with every step (`StartsWhole`).  If it does not, nothing is laid out
and the target alone goes on the line (`StartsDirect`).

### Why nothing is done by halves

The end of the ramp is looked at first, and each step is then added to the moment of the start once
more.  These additions cannot fail any more: the last step is sent at the end and the offsets before it
are smaller, so the moment of each step lies between the start and the end.

### What submission does not touch

A step that goes on the line at once may displace the attempt in flight and so strike its deadline.
Apart from that the agenda, the plans and the numbers are left as the ramp was laid out (`Spares`).
-/

namespace Lighting.Dispatcher

variable {d d' : Dispatcher} {c : Command} {level : Level} {duration : Duration}
  {row : List Ramp.Step} {now : Instant}

/-! ## What the steps become -/

/-- What the steps of a ramp become. -/
def planned (d : Dispatcher) (c : Command) (now : Instant) (row : List Ramp.Step) : List Part :=
  row.mapIdx fun i step => stepPart d.nextPlan c now ⟨d.nextId.number + i⟩ step (i + 1 = row.length)

theorem stepParts_eq_mapIdx (plan : Nat) (c : Command) (now : Instant) (id : CommandId)
    (row : List Ramp.Step) :
    stepParts plan c now id row =
      row.mapIdx fun i step => stepPart plan c now ⟨id.number + i⟩ step (i + 1 = row.length) := by
  induction row generalizing id with
  | nil => rfl
  | cons step rest ih =>
      have last : rest.isEmpty = decide (0 + 1 = (step :: rest).length) := by
        cases rest <;> simp
      rw [stepParts, ih, List.mapIdx_cons, last]
      refine congrArg (List.cons _) (congrArg (List.mapIdx · rest) (funext fun i => ?_))
      rw [List.length_cons, CommandId.next, Nat.add_assoc, Nat.add_comm 1 i]
      simp only [Nat.add_right_cancel_iff]

/-- The steps of a ramp: it takes time, its last step is the target at its end, and no step is sent
later. -/
theorem row_of_stepped (action : c.action = .ramp level duration)
    (stepped : d.treatment c = .stepped row) :
    duration.isZero = false ∧ row.getLast? = some ⟨duration, level⟩ ∧
      ∀ step ∈ row, step.offset.nanos ≤ duration.nanos := by
  obtain ⟨level', duration', action', long, -, rfl⟩ := Ramp.plan_eq_stepped stepped
  obtain ⟨rfl, rfl⟩ := Action.ramp.inj (action.symm.trans action')
  exact ⟨long, Ramp.getLast?_steps _ _ _ _, fun step hs =>
    Ramp.offset_le_of_mem_steps (Ramp.one_le_stepCount _) hs⟩

/-- A ramp that ends on the clock comes down to its steps. -/
theorem parts_of_onClock (action : c.action = .ramp level duration)
    (stepped : d.treatment c = .stepped row) {done : Instant} (reach : now.add? duration = some done) :
    d.parts c now = d.planned c now row := by
  obtain ⟨-, last, -⟩ := row_of_stepped action stepped
  have whole : fitting now row = row := by simp [fitting, last, reach]
  rw [planned, ← stepParts_eq_mapIdx]
  simp only [parts, stepped, whole]

/-- A ramp that ends beyond the clock comes down to its target. -/
theorem parts_of_beyondClock (action : c.action = .ramp level duration)
    (stepped : d.treatment c = .stepped row) (beyond : now.add? duration = none) :
    d.parts c now =
      [⟨⟨c.id, c.address, .setLevel level, c.madeAt⟩, .rampStep d.nextPlan true, none⟩] := by
  obtain ⟨long, last, -⟩ := row_of_stepped action stepped
  have alone : fitting now row = [⟨duration, level⟩] := by simp [fitting, last, beyond]
  simp [parts, stepped, alone, stepParts, stepPart, moment, long, beyond]

theorem moment_of_long (long : duration.isZero = false) (now : Instant) :
    moment now duration = now.add? duration := by
  simp [moment, long]

/-- The last step of a ramp is its own command, at its end. -/
theorem getLast?_planned (d : Dispatcher) (c : Command) (now : Instant)
    (long : duration.isZero = false) (last : row.getLast? = some ⟨duration, level⟩) :
    (d.planned c now row).getLast? = some
      ⟨⟨c.id, c.address, .setLevel level, c.madeAt⟩, .rampStep d.nextPlan true,
        now.add? duration⟩ := by
  obtain ⟨front, rfl⟩ := List.getLast?_eq_some_iff.mp last
  rw [planned, List.mapIdx_append]
  simp [stepPart, moment_of_long long]

/-- The steps before the last get the identifiers given out next. -/
theorem map_id_planned (last : row.getLast? = some ⟨duration, level⟩) :
    (d.planned c now row).map (·.command.id) =
      (List.range (row.length - 1)).map (⟨d.nextId.number + ·⟩) ++ [c.id] := by
  obtain ⟨front, rfl⟩ := List.getLast?_eq_some_iff.mp last
  obtain ⟨parts, id, eq, -, ids⟩ := stepParts_concat d.nextPlan c now d.nextId front ⟨duration, level⟩
  have count : parts.length = front.length := by
    have := congrArg List.length eq
    simpa using this.symm
  rw [planned, ← stepParts_eq_mapIdx, eq, List.map_append, ids, count]
  simp [stepPart]

/-! ## What submission does not touch -/

/-- Some entries of the agenda are struck; the plans and the numbers are the same. -/
structure Spares (d d' : Dispatcher) : Prop where
  /-- The same ramps are running. -/
  plans : d'.plans = d.plans
  /-- The same identifier is given out next. -/
  nextId : d'.nextId = d.nextId
  /-- No entry of the agenda was made. -/
  next : d'.agenda.next = d.agenda.next
  /-- What is on the agenda was there before. -/
  entries : ∀ e ∈ d'.agenda.entries, e ∈ d.agenda.entries

theorem Spares.trans {d'' : Dispatcher} (h : Spares d d') (h' : Spares d' d'') : Spares d d'' :=
  ⟨h'.plans.trans h.plans, h'.nextId.trans h.nextId, h'.next.trans h.next,
    fun e he => h.entries e (h'.entries e he)⟩

theorem spares_submit (d : Dispatcher) (c : Command) (origin : Origin) :
    Spares d (d.submit c origin) := by
  rcases submit_cases d c origin with ⟨_, _, _, -, -, -, eq⟩ | ⟨a, -, -, eq⟩ | ⟨-, eq⟩ <;> rw [eq]
  · exact ⟨rfl, rfl, rfl, fun _ he => he⟩
  · exact ⟨rfl, rfl, rfl, fun _ he => (Agenda.mem_entries_erase.mp he).1⟩
  · exact ⟨rfl, rfl, rfl, fun _ he => he⟩

theorem spares_submitAll (d : Dispatcher) (ps : List Part) : Spares d (d.submitAll ps) := by
  induction ps generalizing d with
  | nil => exact ⟨rfl, rfl, rfl, fun _ he => he⟩
  | cons p ps ih => exact (spares_submit d p.command p.origin).trans (ih _)

/-- Making room ends the ramp of the command's address and strikes its steps. -/
theorem makeRoom_frame (d : Dispatcher) (c : Command) :
    (∀ a, a ≠ c.address → (d.makeRoom c).plans.get a = d.plans.get a) ∧
      (d.makeRoom c).agenda.next = d.agenda.next ∧
      ∀ e ∈ (d.makeRoom c).agenda.entries, e ∈ d.agenda.entries := by
  unfold makeRoom cancelPlan
  split
  · exact ⟨fun _ _ => rfl, rfl, fun _ he => he⟩
  · exact ⟨fun a other => Address.Table.get_set_of_ne _ other _, Agenda.next_eraseAll _ _,
      fun _ he => (Agenda.mem_entries_eraseAll.mp he).1⟩

/-! ## All or nothing -/

/-- A ramp was started with all of its steps; it ends at the moment `done`. -/
structure StartsWhole (d : Dispatcher) (c : Command) (level : Level) (now done : Instant)
    (row : List Ramp.Step) (d' : Dispatcher) : Prop where
  /-- Every step falls due on the clock, and none after the end. -/
  onClock : ∀ step ∈ row, ∃ t, now.add? step.offset = some t ∧ t ≤ done
  /-- The steps with an offset are on the agenda at their moments, and no others of the address. -/
  later : d'.upcoming c.address = (d.planned c now row).filter (·.moment.isSome)
  /-- The steps without one were put on the line in order, and nothing else was. -/
  atOnce : ∃ laid : Dispatcher, laid.waiting = d.waiting ∧ laid.inFlight = d.inFlight ∧
    d' = laid.submitAll ((d.planned c now row).filter Part.isAtOnce)
  /-- The last step is on the agenda, at the end and under the ramp's own identifier. -/
  last : ∃ e ∈ d'.agenda.entries, e.deadline = done ∧
    e.task = .rampStep d.nextPlan ⟨c.id, c.address, .setLevel level, c.madeAt⟩ true
  /-- The steps before it bear the identifiers given out next, all of them different. -/
  ids : (d.planned c now row).map (·.command.id) =
    (List.range (row.length - 1)).map (⟨d.nextId.number + ·⟩) ++ [c.id]
  /-- These identifiers are not given out again. -/
  nextId : d'.nextId.number = d.nextId.number + (row.length - 1)
  /-- The plan is running, and it knows the steps that are on the agenda. -/
  active : ∃ timers, d'.plans.get c.address = some ⟨d.nextPlan, c.id, timers⟩ ∧
    ∀ e ∈ d'.agenda.entries, e.token ∈ timers ↔ (stepFor c.address e).isSome
  /-- The plans of other addresses are as before. -/
  plans : ∀ a, a ≠ c.address → d'.plans.get a = d.plans.get a
  /-- No other entry of the agenda was made. -/
  entries : ∀ e ∈ d'.agenda.entries, stepFor c.address e = none → e ∈ d.agenda.entries

/-- The target of a ramp was sent in its place. -/
structure StartsDirect (d : Dispatcher) (c : Command) (level : Level) (d' : Dispatcher) : Prop where
  /-- One command was put on the line, under the ramp's own identifier. -/
  atOnce : ∃ laid : Dispatcher, laid.waiting = d.waiting ∧ laid.inFlight = d.inFlight ∧
    d' = laid.submit ⟨c.id, c.address, .setLevel level, c.madeAt⟩ (.rampStep d.nextPlan true)
  /-- It stands in the place of its address. -/
  line : d'.line = (⟨c.id, c.address, .setLevel level, c.madeAt⟩ : Command).put d.line
  /-- No identifier was given out. -/
  nextId : d'.nextId = d.nextId
  /-- No plan is running for the address. -/
  idle : d'.plans.get c.address = none
  /-- The plans of other addresses are as before. -/
  plans : ∀ a, a ≠ c.address → d'.plans.get a = d.plans.get a
  /-- No entry of the agenda was made. -/
  next : d'.agenda.next = d.agenda.next
  /-- What is on the agenda was there before. -/
  entries : ∀ e ∈ d'.agenda.entries, e ∈ d.agenda.entries
  /-- No step of a ramp for the address is left on the agenda. -/
  later : d'.upcoming c.address = []

/-- What is still to come is on the agenda. -/
theorem exists_entry_of_mem_upcoming {a : Address} {p : Part} (hp : p ∈ d.upcoming a) {plan : Nat}
    {last : Bool} (origin : p.origin = .rampStep plan last) {t : Instant} (due : p.moment = some t) :
    ∃ e ∈ d.agenda.entries, e.deadline = t ∧ e.task = .rampStep plan p.command last := by
  obtain ⟨e, he, step⟩ := List.mem_filterMap.mp hp
  obtain ⟨plan', last', task, -, eq⟩ := stepFor_eq_some step
  rw [eq] at origin due
  cases origin
  exact ⟨e, he, Option.some.inj due, task⟩

/-- A ramp that ends on the clock is laid out, and nothing is sent yet. -/
theorem lay_of_onClock (action : c.action = .ramp level duration)
    (stepped : d.treatment c = .stepped row) {done : Instant} (reach : now.add? duration = some done) :
    d.lay c now = (d.makeRoom c).install c (d.planned c now row) := by
  simp only [lay, stepped, parts_of_onClock action stepped reach]

theorem startsWhole (h : d.Orderly) (action : c.action = .ramp level duration)
    (stepped : d.treatment c = .stepped row) {done : Instant} (reach : now.add? duration = some done) :
    StartsWhole d c level now done row (d.accept c now) := by
  obtain ⟨long, final, early⟩ := row_of_stepped action stepped
  have parts := parts_of_onClock action stepped reach
  have laid := lay_of_onClock action stepped reach
  have last := getLast?_planned d c now long final
  rw [reach] at last
  obtain ⟨inFlight, waiting, -⟩ := lay_frame d c now
  have later : (d.accept c now).upcoming c.address =
      (d.planned c now row).filter (·.moment.isSome) := by
    rw [h.timely.upcoming_accept, if_pos rfl, parts]
  have accept : d.accept c now =
      (d.lay c now).submitAll ((d.planned c now row).filter Part.isAtOnce) := by
    rw [accept_eq, parts]
  have spares := spares_submitAll (d.lay c now) ((d.planned c now row).filter Part.isAtOnce)
  rw [← accept, laid] at spares
  -- the last step has an entry, so the plan is entered
  have booked : ((d.planned c now row).filterMap Part.booking?).isEmpty = false := by
    rw [List.isEmpty_eq_false_iff_exists_mem]
    exact ⟨_, List.mem_filterMap.mpr ⟨_, List.mem_of_getLast? last, rfl⟩⟩
  have plans : (d.accept c now).plans = (d.makeRoom c).plans.set c.address (some
      ⟨d.nextPlan, c.id, (d.makeRoom c).agenda.upcoming
        ((d.planned c now row).filterMap Part.booking?).length⟩) := by
    rw [spares.plans]
    simp only [install, booked, Bool.false_eq_true, if_false, nextPlan_makeRoom]
  constructor
  case onClock => exact fun step hs => Instant.add?_of_le (early step hs) reach
  case later => exact later
  case atOnce => exact ⟨d.lay c now, waiting, inFlight, accept⟩
  case last =>
    have there : _ ∈ (d.planned c now row).filter (·.moment.isSome) :=
      List.mem_filter.mpr ⟨List.mem_of_getLast? last, rfl⟩
    rw [← later] at there
    exact exists_entry_of_mem_upcoming there rfl rfl
  case ids => exact map_id_planned final
  case nextId =>
    rw [spares.nextId]
    show (d.makeRoom c).nextId.number + ((d.planned c now row).length - 1) = _
    rw [nextId_makeRoom, planned, List.length_mapIdx]
  case active =>
    have running := congrArg (·.get c.address) plans
    simp only [Address.Table.get_set_self] at running
    exact ⟨_, running, (h.timely.accept c now).follows.timers _ _ running⟩
  case plans =>
    intro a other
    rw [plans, Address.Table.get_set_of_ne _ other]
    exact (makeRoom_frame d c).1 a other
  case entries =>
    intro e he none
    rcases Agenda.mem_entries_bookAll.mp (spares.entries e he) with old | ⟨i, b, new, rfl⟩
    · exact (makeRoom_frame d c).2.2 e old
    · obtain ⟨p, hp, booking⟩ := List.mem_filterMap.mp (List.mem_of_getElem? new)
      obtain ⟨t, plan, last, -, -, rfl⟩ := Part.booking?_eq_some booking
      simp [stepFor, address_parts (parts ▸ hp)] at none

theorem startsDirect (h : d.Orderly) (action : c.action = .ramp level duration)
    (stepped : d.treatment c = .stepped row) (beyond : now.add? duration = none) :
    StartsDirect d c level (d.accept c now) := by
  have parts := parts_of_beyondClock action stepped beyond
  have laid : d.lay c now =
      { d.makeRoom c with nextPlan := (d.makeRoom c).nextPlan + 1 } := by
    simp only [lay, stepped, parts]
    rfl
  obtain ⟨inFlight, waiting, -⟩ := lay_frame d c now
  obtain ⟨plans, next, entries⟩ := makeRoom_frame d c
  have accept : d.accept c now =
      (d.lay c now).submit ⟨c.id, c.address, .setLevel level, c.madeAt⟩
        (.rampStep d.nextPlan true) := by
    rw [accept_eq, parts]
    rfl
  have spares := spares_submit (d.lay c now) ⟨c.id, c.address, .setLevel level, c.madeAt⟩
    (.rampStep d.nextPlan true)
  rw [← accept, laid] at spares
  constructor
  case atOnce => exact ⟨d.lay c now, waiting, inFlight, accept⟩
  case line => rw [accept, line_submit (h.lay c now).places, line_lay]
  case nextId => rw [spares.nextId]; exact nextId_makeRoom d c
  case idle => rw [spares.plans]; exact Timely.plans_makeRoom d c
  case plans => exact fun a other => (congrArg (·.get a) spares.plans).trans (plans a other)
  case next => exact spares.next.trans next
  case entries => exact fun e he => entries e (spares.entries e he)
  case later => rw [h.timely.upcoming_accept, if_pos rfl, parts]; rfl

/-- **A stepped ramp is started whole or not at all.**  A ramp comes in, for an address that is not left
alone, and it has to be stepped.  If the clock reaches its end, every one of its steps falls due on the
clock; those with an offset are on the agenda at their moments, those without one were put on the line
in order, and the plan is running.  If the clock does not reach its end, no identifier, no entry and no
plan is made, and the target alone takes the place of the address on the line. -/
theorem ramp_starts_whole_or_direct {settings : Settings} {excluded : List Address}
    {steps : List Step} {frames : List (List UInt8)}
    (reached : (create settings excluded).run steps = .ok (frames, d))
    (open? : d.excluded.get c.address = false) (action : c.action = .ramp level duration)
    (stepped : d.treatment c = .stepped row) (now : Instant) :
    (∀ done, now.add? duration = some done →
        StartsWhole d c level now done row (d.enqueue c now)) ∧
      (now.add? duration = none → StartsDirect d c level (d.enqueue c now)) := by
  have orderly := (orderly_create settings excluded).run reached
  have taken : d.enqueue c now = d.accept c now := by simp [enqueue, open?]
  rw [taken]
  exact ⟨fun done reach => startsWhole orderly action stepped reach,
    fun beyond => startsDirect orderly action stepped beyond⟩

/-- A ramp of one nanosecond has two steps, and the first goes on the line at once.  Started at the last
moment of the clock it is not laid out. -/
theorem ramp_starts_whole_or_direct_of_nanosecond :
    ∃ d c, (create { Settings.standard with nativeRamps := false, rampSteps := 2 } []).run [] =
        .ok ([], d) ∧
      d.treatment c = .stepped [⟨.zero, ⟨127⟩⟩, ⟨.ofNanos 1, ⟨255⟩⟩] ∧
      StartsWhole d c ⟨255⟩ .start ⟨1, by decide⟩ [⟨.zero, ⟨127⟩⟩, ⟨.ofNanos 1, ⟨255⟩⟩]
        (d.enqueue c .start) ∧
      StartsDirect d c ⟨255⟩ (d.enqueue c ⟨Instant.horizon - 1, by decide⟩) := by
  have stepped : (create { Settings.standard with nativeRamps := false, rampSteps := 2 } []).treatment
      ⟨⟨1⟩, ⟨6⟩, .ramp ⟨255⟩ (.ofNanos 1), .start⟩ =
        .stepped [⟨.zero, ⟨127⟩⟩, ⟨.ofNanos 1, ⟨255⟩⟩] := by
    decide +kernel
  have reached : (create { Settings.standard with nativeRamps := false, rampSteps := 2 } []).run [] =
      .ok ([], create { Settings.standard with nativeRamps := false, rampSteps := 2 } []) := rfl
  have started := ramp_starts_whole_or_direct reached (by decide +kernel) rfl stepped
  exact ⟨_, _, reached, stepped, (started .start).1 ⟨1, by decide⟩ (by decide),
    (started ⟨Instant.horizon - 1, by decide⟩).2 (by decide)⟩

end Lighting.Dispatcher
