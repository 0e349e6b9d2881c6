import Lighting.Proofs.Dispatcher.Attempts
import Lighting.Proofs.Dispatcher.Supersession

/-!
# What an address still has to do

There is work left for an address while one of its commands waits or is in flight, or a step of its
ramp is still to come (`Busy`).  Only two things take work away: the end of an attempt, and another
command, which brings work of its own.  And only a command that is taken makes an address busy that was
not (`Turn.busy_of`).

### Where the commands on the line come from

The line tells what is to be sent, and not whether a command is a step of a ramp that goes on.  `held`
reads the line as parts, with the origin of every command.  A step before the last stands on the line
only while a later step of the same ramp is to come (`Supported`): the steps are sent in order, and
whatever ends the ramp brings a command that takes the place of the step.
-/

namespace Lighting

/-- The part that an attempt carries. -/
def Attempt.part (t : Attempt) : Part := ⟨t.command, t.origin, none⟩

/-- The part that a waiting command carries. -/
def Queued.part (q : Queued) : Part := ⟨q.command, q.origin, none⟩

/-- The part once it is on the line. -/
def Part.held (p : Part) : Part := { p with moment := none }

namespace Dispatcher

/-- The parts on the line: the one in flight, then those that wait. -/
def held (d : Dispatcher) : List Part :=
  (d.inFlight.map Attempt.part).toList ++ d.waiting.map Queued.part

/-- Something is left to do for an address. -/
def Busy (d : Dispatcher) (a : Address) : Prop := a ∈ d.places ∨ d.upcoming a ≠ []

variable {d d' : Dispatcher} {a b : Address}

/-! ## The parts on the line -/

theorem held_of_inFlight {t : Attempt} (flight : d.inFlight = some t) :
    d.held = t.part :: d.waiting.map Queued.part := by
  simp [held, flight]

theorem line_eq_held (d : Dispatcher) : d.line = d.held.map Part.command := by
  rw [held, List.map_append, List.map_map, line]
  congr 1
  cases d.inFlight <;> rfl

theorem mem_places_iff : a ∈ d.places ↔ ∃ p ∈ d.held, p.command.address = a := by
  rw [places, line_eq_held, List.map_map, List.mem_map]
  rfl

theorem Beside.held (h : Beside d d') : d'.held = d.held := by
  simp only [Dispatcher.held, h.inFlight, h.waiting]

theorem held_lay (d : Dispatcher) (c : Command) (now : Instant) : (d.lay c now).held = d.held := by
  obtain ⟨inFlight, waiting, -, -⟩ := lay_frame d c now
  rw [held, held, inFlight, waiting]

theorem held_launch (free : d.inFlight = none) {q : Queued} {rest : List Queued}
    (head : d.waiting = q :: rest) (now deadline : Instant) :
    (d.launch now deadline q rest).held = d.held := by
  rw [held, held, free, head]
  rfl

theorem held_finish {t : Attempt} (flight : d.inFlight = some t) (outcome : Outcome) :
    d.held = t.part :: (d.finish t outcome).held :=
  held_of_inFlight flight

theorem held_putBack {t : Attempt} (flight : d.inFlight = some t) (attempts : Nat) :
    (d.putBack t attempts).held = d.held :=
  (held_of_inFlight flight).symm

/-- Once a part is submitted, the others on the line are for other addresses. -/
theorem mem_held_submit (nodup : d.places.Nodup) {c : Command} {origin : Origin} {p : Part}
    (hp : p ∈ (d.submit c origin).held) :
    p = ⟨c, origin, none⟩ ∨ p ∈ d.held ∧ p.command.address ≠ c.address := by
  obtain ⟨flight, waiting⟩ := alone_of_submit nodup c origin
  rcases List.mem_append.mp hp with hp | hp
  · obtain ⟨t, flying, rfl⟩ := Option.map_eq_some_iff.mp (Option.mem_toList.mp hp)
    obtain ⟨before, other⟩ := flight t flying
    refine Or.inr ⟨?_, other⟩
    rw [held_of_inFlight before]
    exact List.mem_cons_self
  · obtain ⟨q, hq, rfl⟩ := List.mem_map.mp hp
    rcases waiting q hq with rfl | ⟨before, other⟩
    · exact Or.inl rfl
    · exact Or.inr ⟨List.mem_append_right _ (List.mem_map_of_mem before), other⟩

theorem Orderly.mem_held_submitAll (h : d.Orderly) {ps : List Part} {p : Part}
    (hp : p ∈ (d.submitAll ps).held) :
    (∃ q ∈ ps, p = q.held) ∨ p ∈ d.held ∧ ∀ q ∈ ps, p.command.address ≠ q.command.address := by
  induction ps generalizing d with
  | nil => exact Or.inr ⟨hp, nofun⟩
  | cons q ps ih =>
      rcases ih (h.submit q.command q.origin) hp with ⟨r, hr, rfl⟩ | ⟨there, others⟩
      · exact Or.inl ⟨r, List.mem_cons_of_mem _ hr, rfl⟩
      · rcases mem_held_submit h.places there with rfl | ⟨there, other⟩
        · exact Or.inl ⟨q, List.mem_cons_self, rfl⟩
        · exact Or.inr ⟨there, List.forall_mem_cons.mpr ⟨other, others⟩⟩

/-! ## The addresses on the line -/

theorem Orderly.mem_places_submit (h : d.Orderly) (c : Command) (origin : Origin) :
    b ∈ (d.submit c origin).places ↔ b = c.address ∨ b ∈ d.places := by
  rw [Dispatcher.places, line_submit h.places, Command.map_address_put, ← Dispatcher.places]
  split
  · rename_i there
    constructor
    · exact Or.inr
    · rintro (rfl | there')
      · exact there
      · exact there'
  · simp [or_comm]

theorem Orderly.mem_places_submitAll (h : d.Orderly) (ps : List Part) :
    b ∈ (d.submitAll ps).places ↔ (∃ p ∈ ps, b = p.command.address) ∨ b ∈ d.places := by
  induction ps generalizing d with
  | nil => simp
  | cons p ps ih =>
      rw [submitAll_cons, ih (h.submit p.command p.origin), h.mem_places_submit]
      simp only [List.mem_cons, exists_eq_or_imp]
      exact or_left_comm.trans or_assoc.symm

theorem Orderly.mem_places_accept (h : d.Orderly) (c : Command) (now : Instant) :
    b ∈ (d.accept c now).places ↔ (d.atOnce c now ≠ [] ∧ b = c.address) ∨ b ∈ d.places := by
  have laid : (d.lay c now).places = d.places := by rw [Dispatcher.places, line_lay]; rfl
  rw [accept_eq, (h.lay c now).mem_places_submitAll, laid]
  refine or_congr_left ⟨?_, ?_⟩
  · rintro ⟨p, hp, rfl⟩
    exact ⟨List.ne_nil_of_mem hp, address_atOnce hp⟩
  · rintro ⟨some, rfl⟩
    obtain ⟨p, hp⟩ := List.exists_mem_of_ne_nil _ some
    exact ⟨p, hp, (address_atOnce hp).symm⟩

/-! ## Work that is left -/

/-- A stepped ramp is running exactly while a step of it is to come. -/
theorem Timely.planned_iff (h : d.Timely) : (d.plans.get a).isSome ↔ d.upcoming a ≠ [] := by
  cases running : d.plans.get a with
  | none => simp [upcoming, h.follows.unplanned a running]
  | some plan =>
      obtain ⟨front, last, row, -⟩ := h.follows.planned a plan running
      simp [upcoming, row]

/-- A command puts something on the line at once, or has steps to come. -/
theorem atOnce_or_later (d : Dispatcher) (c : Command) (now : Instant) :
    d.atOnce c now ≠ [] ∨ (d.parts c now).filter (·.moment.isSome) ≠ [] := by
  rw [atOnce]
  rcases parts_cases d c now with ⟨p, row, none, -⟩ | ⟨front, last, row, spread⟩
  · left
    rw [row, List.filter_cons_of_pos (by simp [Part.isAtOnce, none])]
    exact List.cons_ne_nil _ _
  · right
    rw [row, List.filter_append, List.filter_cons_of_pos (by simp [spread.last_moment])]
    simp

namespace Busy

/-- A command that is taken makes its address busy. -/
theorem take (h : d.Orderly) (c : Command) (now : Instant) : (d.accept c now).Busy c.address := by
  rcases atOnce_or_later d c now with some | later
  · exact Or.inl ((h.mem_places_accept c now).mpr (Or.inl ⟨some, rfl⟩))
  · right
    rwa [h.timely.upcoming_accept, if_pos rfl]

theorem accept (busy : d.Busy b) (h : d.Orderly) (c : Command) (now : Instant) :
    (d.accept c now).Busy b := by
  by_cases mine : b = c.address
  · exact mine ▸ .take h c now
  · refine busy.imp (fun there => (h.mem_places_accept c now).mpr (Or.inr there)) fun some => ?_
    rwa [h.timely.upcoming_accept, if_neg mine]

theorem submit (busy : d.Busy b) (h : d.Orderly) (c : Command) (origin : Origin) :
    (d.submit c origin).Busy b := by
  refine busy.imp (fun there => (h.mem_places_submit c origin).mpr (Or.inr there)) fun some => ?_
  rwa [h.timely.upcoming_submit]

/-- A step that goes on the line keeps its address busy. -/
theorem release (busy : d.Busy b) (h : d.Orderly) {now : Instant} {e : Agenda.Entry Task}
    {g : Agenda Task} (due : d.agenda.popDue now = some (e, g)) {number : Nat} {c : Command}
    {last : Bool} (task : e.task = .rampStep number c last) :
    ((d.withdraw e c.address last).submit c (.rampStep number last)).Busy b := by
  have orderly := h.withdraw due task
  by_cases mine : b = c.address
  · exact Or.inl ((orderly.mem_places_submit c _).mpr (Or.inl mine))
  · have elsewhere := h.timely.stepsFor_pop due task mine
    obtain ⟨-, rfl, -⟩ := h.timely.ordered.popDue_eq_some due
    have withdrawn : (d.withdraw e c.address last).Busy b := busy.imp_right fun some => by
      show stepsFor (d.agenda.erase e.token) b ≠ []
      rwa [elsewhere]
    exact withdrawn.submit orderly c _

theorem beside (busy : d.Busy b) (h : d.Timely) (rest : Beside d d') : d'.Busy b := by
  rwa [Busy, places, rest.line, rest.upcoming h]

theorem launch (busy : d.Busy b) (free : d.inFlight = none) {q : Queued} {rest : List Queued}
    (head : d.waiting = q :: rest) (now deadline : Instant) :
    (d.launch now deadline q rest).Busy b := by
  rw [Busy, Timely.upcoming_launch, places, line_eq_held, held_launch free head, ← line_eq_held]
  exact busy

theorem putBack (busy : d.Busy b) (h : d.Timely) {t : Attempt} (flight : d.inFlight = some t)
    (attempts : Nat) : (d.putBack t attempts).Busy b := by
  rw [Busy, show (d.putBack t attempts).upcoming b = d.upcoming b from h.upcoming_land flight b,
    places, line_eq_held, held_putBack flight, ← line_eq_held]
  exact busy

/-- The end of an attempt takes work away from its own address only. -/
theorem finish (busy : d.Busy b) (h : d.Timely) {t : Attempt} (flight : d.inFlight = some t)
    (other : b ≠ t.command.address) (outcome : Outcome) : (d.finish t outcome).Busy b := by
  rw [Busy, show (d.finish t outcome).upcoming b = d.upcoming b from h.upcoming_land flight b]
  refine busy.imp_left fun there => ?_
  rw [places, line_of_inFlight flight] at there
  exact (List.mem_cons.mp there).resolve_left other

end Busy

/-- **Only a command that is taken brings work.** -/
theorem Turn.busy_of {s : Step} {frame : Option (List UInt8)} (turn : d.Turn s frame d')
    (h : d.Orderly) (busy : d'.Busy b) :
    d.Busy b ∨ ∃ c now, s = .enqueue c now ∧ d.excluded.get c.address = false ∧ b = c.address := by
  have beside {e e' : Dispatcher} (rest : Beside e e') (timely : e.Timely) (busy : e'.Busy b) :
      e.Busy b := by
    rwa [Busy, places, rest.line, rest.upcoming timely] at busy
  cases turn with
  | idle intent submits rest => exact Or.inl (beside rest h.timely busy)
  | @take c now open? =>
      by_cases mine : b = c.address
      · exact Or.inr ⟨c, now, rfl, open?, mine⟩
      · left
        rw [Busy, h.mem_places_accept, h.timely.upcoming_accept, if_neg mine] at busy
        exact busy.imp_left fun there => there.resolve_left fun own => mine own.2
  | @release now e g number c last due task =>
      left
      have withdrawn := h.withdraw due task
      obtain ⟨plan, -, -, row, -⟩ := h.timely.step_due due task
      by_cases mine : b = c.address
      · right
        rw [mine, row]
        exact List.cons_ne_nil _ _
      · have elsewhere := h.timely.stepsFor_pop due task mine
        obtain ⟨-, rfl, -⟩ := h.timely.ordered.popDue_eq_some due
        rw [Busy, withdrawn.mem_places_submit, withdrawn.timely.upcoming_submit] at busy
        refine busy.imp (fun there => there.resolve_left mine) fun some => ?_
        rwa [← elsewhere]
  | send up free head =>
      left
      rw [Busy, Timely.upcoming_launch, places, line_eq_held, held_launch free head,
        ← line_eq_held] at busy
      exact busy
  | @finish s t outcome d' flight ending rest =>
      left
      have busy := beside rest (h.finish flight outcome).timely busy
      rw [Busy, show (d.finish t outcome).upcoming b = _ from h.timely.upcoming_land flight b] at busy
      refine busy.imp_left fun there => ?_
      rw [places, line_of_inFlight flight]
      exact List.mem_cons_of_mem _ there
  | @putBack s t attempts d' flight return? rest =>
      left
      have busy := beside rest (h.putBack flight attempts).timely busy
      rw [Busy, show (d.putBack t attempts).upcoming b = _ from h.timely.upcoming_land flight b,
        places, line_eq_held, held_putBack flight, ← line_eq_held] at busy
      exact busy

/-! ## Steps before the last -/

/-- A step before the last is on the line only while a later one is to come. -/
def Supported (d : Dispatcher) : Prop :=
  ∀ p ∈ d.held, p.origin.isIntermediate = true → d.upcoming p.command.address ≠ []

/-- Of a command whose steps all have gone on the line, none before the last has. -/
theorem not_isIntermediate_of_atOnce {c : Command} {now : Instant} {p : Part}
    (hp : p ∈ d.atOnce c now) (gone : (d.parts c now).filter (·.moment.isSome) = []) :
    p.origin.isIntermediate = false := by
  have member := (List.mem_filter.mp hp).1
  rcases parts_cases d c now with ⟨q, row, -, -, -, direct⟩ | ⟨front, last, row, spread⟩
  · rw [row] at member
    exact List.mem_singleton.mp member ▸ direct
  · rw [row, List.filter_append, List.filter_cons_of_pos (by simp [spread.last_moment])] at gone
    simp at gone

theorem Supported.accept (h : d.Supported) (orderly : d.Orderly) (c : Command) (now : Instant) :
    (d.accept c now).Supported := by
  intro p hp early
  rw [orderly.timely.upcoming_accept]
  rw [accept_eq] at hp
  rcases (orderly.lay c now).mem_held_submitAll hp with ⟨q, hq, rfl⟩ | ⟨there, others⟩
  · have mine : q.command.address = c.address := address_atOnce hq
    rw [if_pos (show q.held.command.address = c.address from mine)]
    intro gone
    have direct := not_isIntermediate_of_atOnce hq gone
    exact absurd (early.symm.trans direct) nofun
  · split
    · rename_i mine
      -- the part would have given way to one that goes on the line at once
      refine (atOnce_or_later d c now).resolve_left fun some => ?_
      obtain ⟨q, hq⟩ := List.exists_mem_of_ne_nil _ some
      exact others q hq (mine.trans (address_atOnce hq).symm)
    · exact h p (held_lay d c now ▸ there) early

theorem Supported.release (h : d.Supported) (orderly : d.Orderly) {now : Instant}
    {e : Agenda.Entry Task} {g : Agenda Task} (due : d.agenda.popDue now = some (e, g))
    {number : Nat} {c : Command} {last : Bool} (task : e.task = .rampStep number c last) :
    ((d.withdraw e c.address last).submit c (.rampStep number last)).Supported := by
  have withdrawn := orderly.withdraw due task
  obtain ⟨_, -, -, -, -, goesOn⟩ := orderly.timely.step_due due task
  have elsewhere {b : Address} (other : b ≠ c.address) :=
    orderly.timely.stepsFor_pop due task other
  obtain ⟨-, rfl, -⟩ := orderly.timely.ordered.popDue_eq_some due
  intro p hp early
  rw [withdrawn.timely.upcoming_submit]
  show stepsFor (d.agenda.erase e.token) p.command.address ≠ []
  rcases mem_held_submit withdrawn.places hp with rfl | ⟨there, other⟩
  · obtain ⟨front, final, row, -⟩ := goesOn (by simpa [Origin.isIntermediate] using early)
    simp [row]
  · rw [elsewhere other]
    exact h p there early

/-- **Every turn keeps a step on the line only while its ramp goes on.** -/
theorem Turn.supported {s : Step} {frame : Option (List UInt8)} (turn : d.Turn s frame d')
    (orderly : d.Orderly) (h : d.Supported) : d'.Supported := by
  -- what happens beside the commands changes neither the parts on the line nor the steps to come
  have beside {e e' : Dispatcher} (rest : Beside e e') (timely : e.Timely) (h : e.Supported) :
      e'.Supported := by
    intro p hp early
    rw [rest.upcoming timely]
    exact h p (rest.held ▸ hp) early
  cases turn with
  | idle intent submits rest => exact beside rest orderly.timely h
  | take open? => exact h.accept orderly _ _
  | release due task => exact h.release orderly due task
  | send up free head =>
      intro p hp early
      rw [Timely.upcoming_launch]
      exact h p (held_launch free head _ _ ▸ hp) early
  | @finish s t outcome d' flight ending rest =>
      refine beside rest (orderly.finish flight outcome).timely fun p hp early => ?_
      rw [show (d.finish t outcome).upcoming _ = _ from orderly.timely.upcoming_land flight _]
      exact h p (held_finish flight outcome ▸ List.mem_cons_of_mem _ hp) early
  | @putBack s t attempts d' flight return? rest =>
      refine beside rest (orderly.putBack flight attempts).timely fun p hp early => ?_
      rw [show (d.putBack t attempts).upcoming _ = _ from orderly.timely.upcoming_land flight _]
      exact h p (held_putBack flight attempts ▸ hp) early

theorem supported_create (settings : Settings) (excluded : List Address) :
    (create settings excluded).Supported :=
  fun _ hp => absurd hp List.not_mem_nil

end Dispatcher

end Lighting
