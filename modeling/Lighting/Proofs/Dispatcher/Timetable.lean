import Lighting.Dispatcher.Inbound
import Lighting.Dispatcher.Transmit
import Lighting.Proofs.Dispatcher.Line
import Lighting.Proofs.Dispatcher.Parts

/-!
# The timetable

The agenda of a dispatcher holds three kinds of entries, and each of them is there for something the
dispatcher knows of: the deadline of the attempt in flight, the end of a ramp that the bus units run,
the steps of the stepped ramps that are running.  `Timely` says that this goes both ways: nothing is
on the agenda that nobody waits for, and whatever is waited for is on the agenda.  A stale entry, one
whose command has given way to another, is therefore never found there; it was struck at the moment
the command gave way.

### Ramps are read in order

The steps of a ramp are not three facts about members of the agenda but one about a list: read in the
order in which they fall due, they are steps before the last followed by the last one, which bears the
identifier of the command (`Follows`).  So the ramp is over exactly when its last step is taken out.

### One kind at a time

Each of the three parts has a lemma which says that changes of the agenda that do not concern its kind
of entry do not concern it (`Awaits.frame`, `Settles.frame`, `Follows.frame`).
-/

namespace Lighting

/-- The agenda entry of an attempt's deadline. -/
def Attempt.entry (a : Attempt) : Agenda.Entry Task :=
  ⟨a.timer, a.deadline, .confirmation a.command.id a.number⟩

namespace Dispatcher

/-- The step of a ramp for an address that an agenda entry holds. -/
def stepFor (a : Address) (e : Agenda.Entry Task) : Option Part :=
  match e.task with
  | .rampStep plan c last =>
    if c.address = a then some ⟨c, .rampStep plan last, some e.deadline⟩ else none
  | _ => none

/-- The steps of ramps for an address on an agenda, in the order in which they fall due. -/
def stepsFor (g : Agenda Task) (a : Address) : List Part := g.entries.filterMap (stepFor a)

/-- The steps of ramps for an address that are still to come, the next one first. -/
def upcoming (d : Dispatcher) (a : Address) : List Part := stepsFor d.agenda a

theorem stepFor_eq_some {a : Address} {e : Agenda.Entry Task} {p : Part} (h : stepFor a e = some p) :
    ∃ plan last, e.task = .rampStep plan p.command last ∧ p.command.address = a ∧
      p = ⟨p.command, .rampStep plan last, some e.deadline⟩ := by
  unfold stepFor at h
  split at h
  · rename_i plan c last task
    split at h
    · rename_i same
      cases h
      exact ⟨plan, last, task, same, rfl⟩
    · cases h
  · cases h

theorem stepFor_of_ne {a b : Address} {e : Agenda.Entry Task} (h : (stepFor a e).isSome)
    (ne : b ≠ a) : stepFor b e = none := by
  obtain ⟨p, step⟩ := Option.isSome_iff_exists.mp h
  obtain ⟨plan, last, task, rfl, -⟩ := stepFor_eq_some step
  simp [stepFor, task, Ne.symm ne]

/-! ## What is on the agenda -/

/-- The deadlines on an agenda are that of the attempt in flight. -/
structure Awaits (g : Agenda Task) (flight : Option Attempt) : Prop where
  /-- A deadline is that of the attempt in flight. -/
  owned : ∀ e ∈ g.entries, ∀ id number, e.task = .confirmation id number →
    ∃ a, flight = some a ∧ e = a.entry
  /-- The attempt in flight has its deadline. -/
  live : ∀ a, flight = some a → a.entry ∈ g.entries

/-- The ends of ramps on an agenda are those that are known to be there. -/
structure Settles (g : Agenda Task) (settling : Address.Table (Option Agenda.Token)) : Prop where
  /-- The end of a ramp is known to be there. -/
  owned : ∀ e ∈ g.entries, ∀ a, e.task = .settled a → settling.get a = some e.token
  /-- What is known to be there is there. -/
  live : ∀ a t, settling.get a = some t → ∃ deadline, ⟨t, deadline, .settled a⟩ ∈ g.entries

/-- The steps of ramps on an agenda are those of the running ramps. -/
structure Follows (g : Agenda Task) (plans : Address.Table (Option ActivePlan)) : Prop where
  /-- Where no ramp is running there are no steps. -/
  unplanned : ∀ a, plans.get a = none → stepsFor g a = []
  /-- Where a ramp is running there are its steps, and the last one is the command. -/
  planned : ∀ a plan, plans.get a = some plan → ∃ front last, stepsFor g a = front ++ [last] ∧
    last.command.id = plan.final ∧ last.origin = .rampStep plan.id true ∧
    ∀ p ∈ front, p.origin = .rampStep plan.id false
  /-- A ramp knows the tokens of its steps, and of no other entries. -/
  timers : ∀ a plan, plans.get a = some plan → ∀ e ∈ g.entries,
    e.token ∈ plan.timers ↔ (stepFor a e).isSome
  /-- The tokens a ramp knows have been given out. -/
  issued : ∀ a plan, plans.get a = some plan → ∀ t ∈ plan.timers, t.number < g.next.number

/-- Everything on the agenda is waited for, and everything that is waited for is on the agenda. -/
structure Timely (d : Dispatcher) : Prop where
  /-- The agenda is in order. -/
  ordered : d.agenda.WellFormed
  /-- The deadlines are that of the attempt in flight. -/
  awaits : Awaits d.agenda d.inFlight
  /-- The ends of ramps are the known ones. -/
  settles : Settles d.agenda d.settling
  /-- The steps are those of the running ramps. -/
  follows : Follows d.agenda d.plans

theorem Awaits.frame {g g' : Agenda Task} {flight : Option Attempt} (h : Awaits g flight)
    (same : ∀ e id number, e.task = .confirmation id number →
      (e ∈ g'.entries ↔ e ∈ g.entries)) : Awaits g' flight where
  owned := fun e he id number task => h.owned e ((same e id number task).mp he) id number task
  live := fun a flight => (same a.entry _ _ rfl).mpr (h.live a flight)

theorem Settles.frame {g g' : Agenda Task} {settling : Address.Table (Option Agenda.Token)}
    (h : Settles g settling)
    (same : ∀ e a, e.task = .settled a → (e ∈ g'.entries ↔ e ∈ g.entries)) :
    Settles g' settling where
  owned := fun e he a task => h.owned e ((same e a task).mp he) a task
  live := fun a t known =>
    have ⟨deadline, he⟩ := h.live a t known
    ⟨deadline, (same ⟨t, deadline, .settled a⟩ a rfl).mpr he⟩

theorem Follows.frame {g g' : Agenda Task} {plans : Address.Table (Option ActivePlan)}
    (h : Follows g plans) (same : ∀ a, stepsFor g' a = stepsFor g a)
    (entries : ∀ e ∈ g'.entries, e ∈ g.entries ∨
      g.next.number ≤ e.token.number ∧ ∀ a, stepFor a e = none)
    (next : g.next.number ≤ g'.next.number) : Follows g' plans where
  unplanned := fun a none => (same a).trans (h.unplanned a none)
  planned := fun a plan running => by
    rw [same]
    exact h.planned a plan running
  timers := fun a plan running e he => by
    rcases entries e he with he | ⟨young, other⟩
    · exact h.timers a plan running e he
    · simp only [other a, Option.isSome_none, Bool.false_eq_true, iff_false]
      intro known
      exact absurd (h.issued a plan running _ known) (Nat.not_lt.mpr young)
  issued := fun a plan running t ht => Nat.lt_of_lt_of_le (h.issued a plan running t ht) next

/-! ## Making and striking an entry that is no step -/

theorem stepsFor_schedule {g : Agenda Task} {deadline : Instant} {task : Task} {a : Address}
    (other : stepFor a ⟨g.next, deadline, task⟩ = none) :
    stepsFor (g.schedule deadline task).2 a = stepsFor g a :=
  Agenda.filterMap_schedule_of_none other

theorem stepsFor_erase {g : Agenda Task} (wf : g.WellFormed) {e : Agenda.Entry Task}
    (he : e ∈ g.entries) {a : Address} (other : stepFor a e = none) :
    stepsFor (g.erase e.token) a = stepsFor g a :=
  Agenda.filterMap_erase fun x hx same => wf.unique x hx e he same ▸ other

/-- A row of steps that fall due in order, none of them before what is there, is read after it. -/
theorem stepsFor_bookAll {g : Agenda Task} (wf : g.WellFormed) {a : Address} {ps : List Part}
    (address : ∀ p ∈ ps, p.command.address = a)
    (origin : ∀ p ∈ ps, ∃ plan last, p.origin = .rampStep plan last)
    (ordered : ps.Pairwise fun p q => ∀ t ∈ p.moment, ∀ u ∈ q.moment, t.nanos ≤ u.nanos)
    (after : ∀ x ∈ g.entries, (stepFor a x).isSome → ∀ p ∈ ps, ∀ t ∈ p.moment,
      x.deadline.nanos ≤ t.nanos) (b : Address) :
    stepsFor (g.bookAll (ps.filterMap Part.booking?)) b =
      stepsFor g b ++ if b = a then ps.filter (·.moment.isSome) else [] := by
  induction ps generalizing g with
  | nil => simp
  | cons p ps ih =>
      obtain ⟨first, rest⟩ := List.pairwise_cons.mp ordered
      obtain ⟨mine, address⟩ := List.forall_mem_cons.mp address
      obtain ⟨⟨plan, last, origin'⟩, origin⟩ := List.forall_mem_cons.mp origin
      have after' := fun x hx step q (hq : q ∈ ps) => after x hx step q (List.mem_cons_of_mem _ hq)
      cases moment : p.moment with
      | none =>
          have booking : p.booking? = none := by simp [Part.booking?, moment]
          rw [List.filterMap_cons_none booking, ih wf address origin rest after',
            List.filter_cons_of_neg (by simp [moment])]
      | some t =>
          have booking : p.booking? = some (t, .rampStep plan p.command last) := by
            simp [Part.booking?, moment, origin']
          have this : stepFor a ⟨g.next, t, .rampStep plan p.command last⟩ = some p := by
            obtain ⟨command, _, _⟩ := p
            simp_all [stepFor]
          rw [List.filterMap_cons_some booking, Agenda.bookAll_cons, ih (wf.schedule _ _) address
            origin rest, List.filter_cons_of_pos (by simp [moment])]
          · split
            · rename_i same
              subst same
              have made := wf.filterMap_schedule_of_last this fun x hx step =>
                after x hx step p List.mem_cons_self t moment
              rw [stepsFor, made, List.append_assoc]
              rfl
            · rename_i other
              rw [stepsFor_schedule (stepFor_of_ne (Option.isSome_of_eq_some this) other)]
          · intro x hx step q hq u hu
            rcases Agenda.mem_entries_schedule.mp hx with rfl | hx
            · exact first q hq t moment u hu
            · exact after' x hx step q hq u hu

theorem Follows.schedule {g : Agenda Task} {plans : Address.Table (Option ActivePlan)}
    (h : Follows g plans) {deadline : Instant} {task : Task}
    (other : ∀ a, stepFor a ⟨g.next, deadline, task⟩ = none) :
    Follows (g.schedule deadline task).2 plans := by
  refine h.frame (fun a => stepsFor_schedule (other a)) (fun e he => ?_) (Nat.le_succ _)
  rcases Agenda.mem_entries_schedule.mp he with rfl | he
  · exact Or.inr ⟨Nat.le_refl _, other⟩
  · exact Or.inl he

theorem Follows.erase {g : Agenda Task} {plans : Address.Table (Option ActivePlan)}
    (h : Follows g plans) (wf : g.WellFormed) {e : Agenda.Entry Task} (he : e ∈ g.entries)
    (other : ∀ a, stepFor a e = none) : Follows (g.erase e.token) plans :=
  h.frame (fun a => stepsFor_erase wf he (other a))
    (fun _ hx => Or.inl (Agenda.mem_entries_erase.mp hx).1) (Nat.le_refl _)

/-- Striking an entry of another kind leaves the deadlines alone. -/
theorem Awaits.erase {g : Agenda Task} {flight : Option Attempt} (h : Awaits g flight)
    (wf : g.WellFormed) {e : Agenda.Entry Task} (he : e ∈ g.entries)
    (other : ∀ id number, e.task ≠ .confirmation id number) : Awaits (g.erase e.token) flight := by
  refine h.frame fun x id number task => ?_
  rw [wf.mem_entries_erase_token he, and_iff_left]
  rintro rfl
  exact other id number task

/-- Striking an entry of another kind leaves the ends of ramps alone. -/
theorem Settles.erase {g : Agenda Task} {settling : Address.Table (Option Agenda.Token)}
    (h : Settles g settling) (wf : g.WellFormed) {e : Agenda.Entry Task} (he : e ∈ g.entries)
    (other : ∀ a, e.task ≠ .settled a) : Settles (g.erase e.token) settling := by
  refine h.frame fun x a task => ?_
  rw [wf.mem_entries_erase_token he, and_iff_left]
  rintro rfl
  exact other a task

/-- Making an entry of another kind leaves the deadlines alone. -/
theorem Awaits.schedule {g : Agenda Task} {flight : Option Attempt} (h : Awaits g flight)
    {deadline : Instant} {task : Task} (other : ∀ id number, task ≠ .confirmation id number) :
    Awaits (g.schedule deadline task).2 flight := by
  refine h.frame fun x id number task => ?_
  rw [Agenda.mem_entries_schedule, or_iff_right]
  rintro rfl
  exact other id number task

/-- Making an entry of another kind leaves the ends of ramps alone. -/
theorem Settles.schedule {g : Agenda Task} {settling : Address.Table (Option Agenda.Token)}
    (h : Settles g settling) {deadline : Instant} {task : Task} (other : ∀ a, task ≠ .settled a) :
    Settles (g.schedule deadline task).2 settling := by
  refine h.frame fun x a task => ?_
  rw [Agenda.mem_entries_schedule, or_iff_right]
  rintro rfl
  exact other a task

/-- A ramp is taken up where none was running: its steps are on the agenda, and it knows their
tokens. -/
theorem Follows.adopt {g g' : Agenda Task} {plans : Address.Table (Option ActivePlan)}
    (h : Follows g plans) {a : Address} {plan : ActivePlan}
    (others : ∀ b, b ≠ a → stepsFor g' b = stepsFor g b)
    (mine : ∃ front last, stepsFor g' a = front ++ [last] ∧ last.command.id = plan.final ∧
      last.origin = .rampStep plan.id true ∧ ∀ p ∈ front, p.origin = .rampStep plan.id false)
    (entries : ∀ x ∈ g'.entries,
      (x ∈ g.entries ∧ stepFor a x = none ∧ x.token ∉ plan.timers) ∨
        (x.token ∈ plan.timers ∧ (stepFor a x).isSome ∧ g.next.number ≤ x.token.number))
    (issued : ∀ t ∈ plan.timers, t.number < g'.next.number)
    (next : g.next.number ≤ g'.next.number) : Follows g' (plans.set a (some plan)) := by
  -- the other ramps ran before
  have before {b : Address} {plan' : ActivePlan} (other : b ≠ a)
      (running : (plans.set a (some plan)).get b = some plan') : plans.get b = some plan' :=
    (Address.Table.get_set_of_ne _ other _).symm.trans running
  have new {plan' : ActivePlan} (running : (plans.set a (some plan)).get a = some plan') :
      plan = plan' :=
    Option.some.inj ((Address.Table.get_set_self _ _ _).symm.trans running)
  constructor
  · intro b none
    by_cases other : b = a
    · subst other
      exact absurd ((Address.Table.get_set_self _ _ _).symm.trans none) nofun
    · rw [others b other]
      exact h.unplanned b ((Address.Table.get_set_of_ne _ other _).symm.trans none)
  · intro b plan' running
    by_cases other : b = a
    · subst other
      exact new running ▸ mine
    · rw [others b other]
      exact h.planned b plan' (before other running)
  · intro b plan' running x hx
    by_cases other : b = a
    · subst other
      rw [← new running]
      rcases entries x hx with ⟨-, none, unknown⟩ | ⟨known, step, -⟩
      · exact iff_of_false unknown (by simp [none])
      · exact iff_of_true known step
    · rcases entries x hx with ⟨hx, -⟩ | ⟨-, step, young⟩
      · exact h.timers b plan' (before other running) x hx
      · refine iff_of_false ?_ (by simp [stepFor_of_ne step other])
        intro known
        exact Nat.not_lt.mpr young (h.issued b plan' (before other running) _ known)
  · intro b plan' running t ht
    by_cases other : b = a
    · subst other
      exact issued t (new running ▸ ht)
    · exact Nat.lt_of_lt_of_le (h.issued b plan' (before other running) t ht) next

/-- Enters the end of a ramp that the bus units run, where none is entered. -/
def settle (d : Dispatcher) (a : Address) (deadline : Instant) : Dispatcher :=
  { d with
    agenda := (d.agenda.schedule deadline (.settled a)).2
    settling := d.settling.set a (some d.agenda.next) }

/-- Takes a step that falls due off the agenda; with the last one the ramp is over. -/
def withdraw (d : Dispatcher) (e : Agenda.Entry Task) (a : Address) (last : Bool) : Dispatcher :=
  { d with
    agenda := d.agenda.erase e.token
    plans := if last then d.plans.set a none else d.plans }

/-! ## The operations keep the timetable -/

theorem timely_create (settings : Settings) (excluded : List Address) :
    (create settings excluded).Timely where
  ordered := Agenda.wellFormed_empty
  awaits := ⟨fun _ he => absurd he List.not_mem_nil, fun _ flight => nomatch flight⟩
  settles := ⟨fun _ he => absurd he List.not_mem_nil, fun a t known => by
    simp [create] at known⟩
  follows := ⟨fun _ _ => rfl, fun a plan running => by simp [create] at running,
    fun a plan running => by simp [create] at running,
    fun a plan running => by simp [create] at running⟩

namespace Timely

variable {d : Dispatcher}

/-- A change that leaves the agenda and all that stands behind it alone keeps the timetable. -/
theorem of_same {d' : Dispatcher} (h : d.Timely) (agenda : d'.agenda = d.agenda)
    (inFlight : d'.inFlight = d.inFlight) (settling : d'.settling = d.settling)
    (plans : d'.plans = d.plans) : d'.Timely where
  ordered := agenda ▸ h.ordered
  awaits := agenda ▸ inFlight ▸ h.awaits
  settles := agenda ▸ settling ▸ h.settles
  follows := agenda ▸ plans ▸ h.follows

theorem launch (h : d.Timely) (idle : d.inFlight = none) (now deadline : Instant) (q : Queued)
    (rest : List Queued) : (d.launch now deadline q rest).Timely where
  ordered := h.ordered.schedule _ _
  awaits := by
    constructor
    · intro e he id number task
      refine ⟨_, rfl, ?_⟩
      rcases Agenda.mem_entries_schedule.mp he with rfl | he
      · rfl
      · obtain ⟨a, flight, -⟩ := h.awaits.owned e he id number task
        rw [idle] at flight
        cases flight
    · intro a flight
      cases flight
      exact Agenda.mem_entries_schedule.mpr (Or.inl rfl)
  settles := h.settles.schedule fun _ => nofun
  follows := h.follows.schedule fun _ => rfl

theorem land (h : d.Timely) {a : Attempt} (flight : d.inFlight = some a) : (d.land a).Timely := by
  have live := h.awaits.live a flight
  refine ⟨h.ordered.erase _, ⟨fun e he id number task => ?_, nofun⟩,
    h.settles.erase h.ordered live fun _ => nofun, h.follows.erase h.ordered live fun _ => rfl⟩
  obtain ⟨he, ne⟩ := (h.ordered.mem_entries_erase_token live).mp he
  obtain ⟨b, flight', rfl⟩ := h.awaits.owned e he id number task
  obtain rfl : a = b := Option.some.inj (flight.symm.trans flight')
  exact absurd rfl ne

theorem unsettle (h : d.Timely) (a : Address) : (d.unsettle a).Timely := by
  unfold Dispatcher.unsettle
  split
  · rename_i t known
    obtain ⟨deadline, live⟩ := h.settles.live a t known
    refine ⟨h.ordered.erase _, h.awaits.erase h.ordered live fun _ _ => nofun,
      ⟨fun e he b task => ?_, fun b u known' => ?_⟩, h.follows.erase h.ordered live fun _ => rfl⟩
    · obtain ⟨there, ne⟩ := (h.ordered.mem_entries_erase_token live).mp he
      have owned := h.settles.owned e there b task
      show (d.settling.set a none).get b = _
      rw [Address.Table.get_set_of_ne _ ?_, owned]
      rintro rfl
      have same : t = e.token := Option.some.inj (known.symm.trans owned)
      exact ne (h.ordered.unique e there _ live same.symm)
    · have known' : (d.settling.set a none).get b = some u := known'
      rw [Address.Table.get_set] at known'
      split at known'
      · cases known'
      · rename_i other
        obtain ⟨deadline', live'⟩ := h.settles.live b u known'
        refine ⟨deadline', (h.ordered.mem_entries_erase_token live).mpr ⟨live', fun same => ?_⟩⟩
        cases same
        exact other rfl
  · exact h

theorem settle (h : d.Timely) {a : Address} (unknown : d.settling.get a = none)
    (deadline : Instant) : (d.settle a deadline).Timely := by
  refine ⟨h.ordered.schedule _ _, h.awaits.schedule fun _ _ => nofun,
    ⟨fun e he b task => ?_, fun b u known => ?_⟩, h.follows.schedule fun _ => rfl⟩
  · rcases Agenda.mem_entries_schedule.mp he with rfl | he
    · cases task
      exact Address.Table.get_set_self _ _ _
    · have owned := h.settles.owned e he b task
      show (d.settling.set a _).get b = _
      rw [Address.Table.get_set_of_ne _ ?_, owned]
      rintro rfl
      rw [unknown] at owned
      cases owned
  · have known : (d.settling.set a (some d.agenda.next)).get b = some u := known
    rw [Address.Table.get_set] at known
    split at known
    · rename_i same
      cases known
      exact ⟨deadline, Agenda.mem_entries_schedule.mpr (Or.inl (same ▸ rfl))⟩
    · obtain ⟨deadline', live⟩ := h.settles.live b u known
      exact ⟨deadline', Agenda.mem_entries_schedule.mpr (Or.inr live)⟩

/-- Entering the end of a ramp is striking the earlier one and making the new one. -/
theorem settleAt_eq (h : d.Timely) (a : Address) (deadline : Instant) :
    d.settleAt a deadline = (d.unsettle a).settle a deadline := by
  unfold Dispatcher.settleAt Dispatcher.unsettle
  cases known : d.settling.get a with
  | none => rfl
  | some previous =>
      obtain ⟨deadline', live⟩ := h.settles.live a previous known
      have old : previous ≠ d.agenda.next := fun same =>
        Nat.lt_irrefl _ (same ▸ h.ordered.issued _ live)
      have twice : (d.settling.set a none).set a (some d.agenda.next) =
          d.settling.set a (some d.agenda.next) := by
        ext b
        by_cases same : b = a <;> simp [Address.Table.get_set, same]
      show ({ d with
          agenda := (d.agenda.schedule deadline (.settled a)).2.erase previous
          settling := d.settling.set a (some d.agenda.next) } : Dispatcher) =
        { d with
          agenda := ((d.agenda.erase previous).schedule deadline (.settled a)).2
          settling := (d.settling.set a none).set a (some d.agenda.next) }
      rw [h.ordered.erase_schedule _ _ old, twice]

theorem settleAt (h : d.Timely) (a : Address) (deadline : Instant) :
    (d.settleAt a deadline).Timely := by
  rw [h.settleAt_eq]
  refine (h.unsettle a).settle ?_ deadline
  unfold Dispatcher.unsettle
  split
  · exact Address.Table.get_set_self _ _ _
  · rename_i unknown
    exact unknown

/-! ### Ramps -/

/-- The plan of an address ends, and the steps it still had are gone. -/
theorem stepsFor_eraseAll (h : d.Timely) {a : Address} {plan : ActivePlan}
    (running : d.plans.get a = some plan) (b : Address) :
    stepsFor (d.agenda.eraseAll plan.timers) b = if b = a then [] else d.upcoming b := by
  have timers := h.follows.timers a plan running
  split
  · rename_i same
    subst same
    refine List.filterMap_eq_nil_iff.mpr fun e he => ?_
    obtain ⟨he, spared⟩ := Agenda.mem_entries_eraseAll.mp he
    simpa [timers e he] using spared
  · rename_i other
    exact Agenda.filterMap_eraseAll fun e he known => stepFor_of_ne ((timers e he).mp known) other

theorem cancelPlan (h : d.Timely) (a : Address) (successor : CommandId) :
    (d.cancelPlan a successor).Timely := by
  unfold Dispatcher.cancelPlan
  split
  · exact h
  · rename_i plan running
    have timers := h.follows.timers a plan running
    -- only steps of the plan are struck
    have keeps (e : Agenda.Entry Task) (other : stepFor a e = none) :
        e ∈ (d.agenda.eraseAll plan.timers).entries ↔ e ∈ d.agenda.entries := by
      rw [Agenda.mem_entries_eraseAll, and_iff_left_iff_imp]
      intro he
      simp [timers e he, other]
    -- the other ramps ran before
    have before {b : Address} {plan' : ActivePlan}
        (running' : (d.plans.set a none).get b = some plan') :
        b ≠ a ∧ d.plans.get b = some plan' := by
      have other : b ≠ a := by
        rintro rfl
        exact absurd ((Address.Table.get_set_self _ _ _).symm.trans running') nofun
      exact ⟨other, (Address.Table.get_set_of_ne _ other _).symm.trans running'⟩
    refine ⟨h.ordered.eraseAll _, h.awaits.frame fun e id number task => keeps e ?_,
      h.settles.frame fun e b task => keeps e ?_, ?_⟩
    · simp [stepFor, task]
    · simp [stepFor, task]
    · constructor
      · intro b none
        show stepsFor (d.agenda.eraseAll plan.timers) b = []
        rw [h.stepsFor_eraseAll running]
        split
        · rfl
        · rename_i other
          exact h.follows.unplanned b ((Address.Table.get_set_of_ne _ other _).symm.trans none)
      · intro b plan' running'
        obtain ⟨other, running'⟩ := before running'
        show ∃ front last, stepsFor (d.agenda.eraseAll plan.timers) b = _ ∧ _
        rw [h.stepsFor_eraseAll running, if_neg other]
        exact h.follows.planned b plan' running'
      · intro b plan' running' e he
        exact h.follows.timers b plan' (before running').2 e (Agenda.mem_entries_eraseAll.mp he).1
      · intro b plan' running' t ht
        have := h.follows.issued b plan' (before running').2 t ht
        show t.number < (d.agenda.eraseAll plan.timers).next.number
        rwa [Agenda.next_eraseAll]

/-- A step that falls due is one of the running ramp: the next one, and the last one exactly if
nothing comes after it. -/
theorem step_due (h : d.Timely) {now : Instant} {e : Agenda.Entry Task} {g : Agenda Task}
    (pop : d.agenda.popDue now = some (e, g)) {number : Nat} {c : Command} {last : Bool}
    (task : e.task = .rampStep number c last) :
    ∃ plan, d.plans.get c.address = some plan ∧ plan.id = number ∧
      d.upcoming c.address = ⟨c, .rampStep number last, some e.deadline⟩ :: stepsFor g c.address ∧
      (last = true → c.id = plan.final ∧ stepsFor g c.address = []) ∧
      (last = false → ∃ front final, stepsFor g c.address = front ++ [final] ∧
        final.command.id = plan.final ∧ final.origin = .rampStep plan.id true ∧
        ∀ p ∈ front, p.origin = .rampStep plan.id false) := by
  obtain ⟨entries, -, -⟩ := Agenda.popDue_eq_some_iff.mp pop
  have first : stepFor c.address e = some ⟨c, .rampStep number last, some e.deadline⟩ := by
    simp [stepFor, task]
  have steps : d.upcoming c.address =
      ⟨c, .rampStep number last, some e.deadline⟩ :: stepsFor g c.address := by
    rw [upcoming, stepsFor, entries, List.filterMap_cons_some first]
    rfl
  cases running : d.plans.get c.address with
  | none =>
      have := h.follows.unplanned _ running
      rw [← upcoming, steps] at this
      cases this
  | some plan =>
      obtain ⟨front, final, row, id, origin, early⟩ := h.follows.planned _ plan running
      rw [← upcoming, steps] at row
      refine ⟨plan, rfl, ?_⟩
      cases front with
      | nil =>
          obtain ⟨rfl, rest⟩ := List.cons.inj row
          cases origin
          exact ⟨rfl, steps, fun _ => ⟨id, rest⟩, nofun⟩
      | cons p front =>
          obtain ⟨rfl, rest⟩ := List.cons.inj row
          cases early _ List.mem_cons_self
          exact ⟨rfl, steps, nofun, fun _ => ⟨front, final, rest, id, origin,
            fun p hp => early p (List.mem_cons_of_mem _ hp)⟩⟩

theorem stepsFor_pop (h : d.Timely) {now : Instant} {e : Agenda.Entry Task} {g : Agenda Task}
    (pop : d.agenda.popDue now = some (e, g)) {number : Nat} {c : Command} {last : Bool}
    (task : e.task = .rampStep number c last) {b : Address} (other : b ≠ c.address) :
    stepsFor g b = d.upcoming b := by
  obtain ⟨he, rfl, -⟩ := h.ordered.popDue_eq_some pop
  exact stepsFor_erase h.ordered he (by simp [stepFor, task, Ne.symm other])

theorem withdraw (h : d.Timely) {now : Instant} {e : Agenda.Entry Task} {g : Agenda Task}
    (pop : d.agenda.popDue now = some (e, g)) {number : Nat} {c : Command} {last : Bool}
    (task : e.task = .rampStep number c last) : (d.withdraw e c.address last).Timely := by
  obtain ⟨plan, running, -, -, ended, goesOn⟩ := h.step_due pop task
  have elsewhere {b : Address} := h.stepsFor_pop pop task (b := b)
  obtain ⟨he, rfl, -⟩ := h.ordered.popDue_eq_some pop
  -- a ramp that still runs ran before
  have before {b : Address} {plan' : ActivePlan}
      (running' : (d.withdraw e c.address last).plans.get b = some plan') :
      d.plans.get b = some plan' := by
    cases last with
    | false => exact running'
    | true =>
        have running' : (d.plans.set c.address none).get b = some plan' := running'
        rw [Address.Table.get_set] at running'
        split at running'
        · cases running'
        · exact running'
  refine ⟨h.ordered.erase _, h.awaits.erase h.ordered he fun _ _ => by simp [task],
    h.settles.erase h.ordered he fun _ => by simp [task], fun b none => ?_, fun b plan' running' => ?_,
    fun b plan' running' x hx => h.follows.timers b plan' (before running') x
      (Agenda.mem_entries_erase.mp hx).1,
    fun b plan' running' => h.follows.issued b plan' (before running')⟩
  · show stepsFor (d.agenda.erase e.token) b = []
    by_cases same : b = c.address
    · subst same
      cases last with
      | false => exact absurd (running.symm.trans none) nofun
      | true => exact (ended rfl).2
    · rw [elsewhere same]
      refine h.follows.unplanned b ?_
      cases last with
      | false => exact none
      | true => exact (Address.Table.get_set_of_ne _ same _).symm.trans none
  · show ∃ front last, stepsFor (d.agenda.erase e.token) b = _ ∧ _
    by_cases same : b = c.address
    · subst same
      obtain rfl : plan = plan' := Option.some.inj (running.symm.trans (before running'))
      cases last with
      | false => exact goesOn rfl
      | true => exact absurd ((Address.Table.get_set_self _ _ _).symm.trans running') nofun
    · rw [elsewhere same]
      exact h.follows.planned b plan' (before running')

/-! ### Submission -/

theorem submit (h : d.Timely) (c : Command) (origin : Origin) : (d.submit c origin).Timely := by
  rcases submit_cases d c origin with ⟨_, _, _, -, -, -, eq⟩ | ⟨a, flight, -, eq⟩ | ⟨-, eq⟩
  · rw [eq]
    exact h.of_same rfl rfl rfl rfl
  · rw [eq]
    exact (h.land flight).of_same rfl rfl rfl rfl
  · rw [eq]
    exact h.of_same rfl rfl rfl rfl

theorem submitAll (h : d.Timely) (ps : List Part) : (d.submitAll ps).Timely := by
  induction ps generalizing d with
  | nil => exact h
  | cons p ps ih => exact ih (h.submit p.command p.origin)

/-! ### Taking a command -/

theorem upcoming_install (h : d.Timely) {e : Dispatcher} {c : Command} {front : List Part}
    {last : Part} (spread : Spread e c front last) (idle : d.plans.get c.address = none)
    (b : Address) : (d.install c (front ++ [last])).upcoming b =
      if b = c.address then (front ++ [last]).filter (·.moment.isSome) else d.upcoming b := by
  have none := h.follows.unplanned _ idle
  have origin : ∀ p ∈ front ++ [last], ∃ plan last, p.origin = .rampStep plan last := by
    intro p hp
    rcases List.mem_append.mp hp with hp | hp
    · exact ⟨_, _, spread.front_origin p hp⟩
    · exact ⟨_, _, List.mem_singleton.mp hp ▸ spread.last_origin⟩
  have steps := stepsFor_bookAll h.ordered spread.address origin spread.ordered
    (fun x hx step => absurd (List.filterMap_eq_nil_iff.mp none x hx) (Option.isSome_iff_ne_none.mp step)) b
  refine steps.trans ?_
  split
  · rename_i same
    rw [same, none, List.nil_append]
  · exact List.append_nil _

/-- What is on the agenda once a ramp is laid out was there, or it is one of the steps made now. -/
theorem mem_entries_laid (h : d.Timely) {e : Dispatcher} {c : Command} {front : List Part}
    {last : Part} (spread : Spread e c front last) (idle : d.plans.get c.address = none)
    {bs : List (Instant × Task)} (bookings : (front ++ [last]).filterMap Part.booking? = bs)
    {x : Agenda.Entry Task} (hx : x ∈ (d.agenda.bookAll bs).entries) :
    (x ∈ d.agenda.entries ∧ stepFor c.address x = none ∧ x.token ∉ d.agenda.upcoming bs.length) ∨
      (x.token ∈ d.agenda.upcoming bs.length ∧ (stepFor c.address x).isSome ∧
        d.agenda.next.number ≤ x.token.number) := by
  rcases Agenda.mem_entries_bookAll.mp hx with hx | ⟨i, b, booked, rfl⟩
  · refine Or.inl ⟨hx, List.filterMap_eq_nil_iff.mp (h.follows.unplanned _ idle) x hx, ?_⟩
    intro made
    obtain ⟨i, -, token⟩ := Agenda.mem_upcoming.mp made
    have := h.ordered.issued x hx
    rw [token] at this
    simp only at this
    omega
  · obtain ⟨p, hp, booking⟩ := List.mem_filterMap.mp (bookings ▸ List.mem_of_getElem? booked)
    obtain ⟨t, plan, final, -, -, rfl⟩ := Part.booking?_eq_some booking
    refine Or.inr ⟨Agenda.mem_upcoming.mpr ⟨i, (List.getElem?_eq_some_iff.mp booked).1, rfl⟩, ?_,
      Nat.le_add_right _ _⟩
    simp [stepFor, spread.address p hp]

theorem install (h : d.Timely) {e : Dispatcher} {c : Command} {front : List Part} {last : Part}
    (spread : Spread e c front last) (number : e.nextPlan = d.nextPlan)
    (idle : d.plans.get c.address = none) : (d.install c (front ++ [last])).Timely := by
  have upcoming := h.upcoming_install spread idle
  generalize bookings : (front ++ [last]).filterMap Part.booking? = bs at *
  have agenda : (d.install c (front ++ [last])).agenda = d.agenda.bookAll bs := by
    simp only [Dispatcher.install, bookings]
  have plans : (d.install c (front ++ [last])).plans =
      d.plans.set c.address (some ⟨d.nextPlan, c.id, d.agenda.upcoming bs.length⟩) := by
    obtain ⟨t, moment⟩ := Option.isSome_iff_exists.mp spread.last_moment
    have booked : bs.isEmpty = false := by
      rw [← bookings, List.filterMap_append]
      simp [Part.booking?, moment, spread.last_origin]
    simp only [Dispatcher.install, bookings, booked, Bool.false_eq_true, if_false]
  have entries (x : Agenda.Entry Task) (hx : x ∈ (d.agenda.bookAll bs).entries) :=
    h.mem_entries_laid spread idle bookings hx
  have keeps (x : Agenda.Entry Task) (other : stepFor c.address x = none) :
      x ∈ (d.install c (front ++ [last])).agenda.entries ↔ x ∈ d.agenda.entries := by
    rw [agenda]
    constructor
    · intro hx
      rcases entries x hx with ⟨hx, -⟩ | ⟨-, step, -⟩
      · exact hx
      · rw [other] at step
        cases step
    · intro hx
      exact Agenda.mem_entries_bookAll.mpr (Or.inl hx)
  refine ⟨h.ordered.bookAll _, h.awaits.frame fun x id number task => keeps x ?_,
    h.settles.frame fun x b task => keeps x ?_, ?_⟩
  · simp [stepFor, task]
  · simp [stepFor, task]
  · rw [plans]
    refine h.follows.adopt (fun b other => (upcoming b).trans (if_neg other)) ?_
      (agenda ▸ entries) ?_ ?_
    · refine ⟨front.filter (·.moment.isSome), last, (upcoming c.address).trans ?_, spread.last_id,
        number ▸ spread.last_origin, fun p hp => ?_⟩
      · rw [if_pos rfl, List.filter_append]
        simp [spread.last_moment]
      · exact number ▸ spread.front_origin p (List.mem_filter.mp hp).1
    · intro t ht
      obtain ⟨i, bound, rfl⟩ := Agenda.mem_upcoming.mp ht
      rw [agenda, Agenda.next_bookAll]
      simp only
      omega
    · rw [agenda, Agenda.next_bookAll]
      exact Nat.le_add_right _ _

theorem makeRoom (h : d.Timely) (c : Command) : (d.makeRoom c).Timely :=
  (h.cancelPlan c.address c.id).of_same rfl rfl rfl rfl

/-- Where a command is taken no earlier step is left, and elsewhere nothing has changed. -/
theorem upcoming_makeRoom (h : d.Timely) (c : Command) (b : Address) :
    (d.makeRoom c).upcoming b = if b = c.address then [] else d.upcoming b := by
  show (d.cancelPlan c.address c.id).upcoming b = _
  unfold Dispatcher.cancelPlan
  split
  · rename_i none
    split
    · rename_i same
      rw [same]
      exact h.follows.unplanned _ none
    · rfl
  · rename_i plan running
    exact h.stepsFor_eraseAll running b

theorem plans_makeRoom (d : Dispatcher) (c : Command) :
    (d.makeRoom c).plans.get c.address = none := by
  show (d.cancelPlan c.address c.id).plans.get c.address = none
  unfold Dispatcher.cancelPlan
  split
  · rename_i none
    exact none
  · exact Address.Table.get_set_self _ _ _

/-- A row that goes on the line at once is laid out by giving out a plan number at most. -/
theorem lay_of_atOnce {c : Command} {now : Instant} {p : Part} (row : d.parts c now = [p])
    (atOnce : p.moment = none) :
    d.lay c now = d.makeRoom c ∨
      d.lay c now = { d.makeRoom c with nextPlan := (d.makeRoom c).nextPlan + 1 } := by
  unfold lay
  split
  · refine Or.inr ?_
    simp [row, Dispatcher.install, Part.booking?, atOnce, Agenda.bookAll]
  · exact Or.inl rfl

theorem lay_of_spread {c : Command} {now : Instant} {front : List Part} {last : Part}
    (row : d.parts c now = front ++ [last]) (spread : Spread d c front last) :
    d.lay c now = (d.makeRoom c).install c (front ++ [last]) := by
  obtain ⟨steps, stepped⟩ := spread.stepped
  simp only [lay, stepped, row]

theorem lay (h : d.Timely) (c : Command) (now : Instant) : (d.lay c now).Timely := by
  rcases parts_cases d c now with ⟨p, row, atOnce, -⟩ | ⟨front, last, row, spread⟩
  · rcases lay_of_atOnce row atOnce with eq | eq <;> rw [eq]
    · exact h.makeRoom c
    · exact (h.makeRoom c).of_same rfl rfl rfl rfl
  · rw [lay_of_spread row spread]
    exact (h.makeRoom c).install spread (nextPlan_makeRoom d c).symm (plans_makeRoom d c)

/-- A command that is taken leaves exactly its own steps to come for its address. -/
theorem upcoming_lay (h : d.Timely) (c : Command) (now : Instant) (b : Address) :
    (d.lay c now).upcoming b =
      if b = c.address then (d.parts c now).filter (·.moment.isSome) else d.upcoming b := by
  have room := h.upcoming_makeRoom c b
  rcases parts_cases d c now with ⟨p, row, atOnce, -⟩ | ⟨front, last, row, spread⟩
  · have same : (d.lay c now).upcoming b = (d.makeRoom c).upcoming b := by
      rcases lay_of_atOnce row atOnce with eq | eq
      · rw [eq]
      · rw [eq]
        rfl
    rw [same, room, row, List.filter_cons_of_neg (by simp [atOnce]), List.filter_nil]
  · rw [lay_of_spread row spread, (h.makeRoom c).upcoming_install spread (plans_makeRoom d c), room,
      row]
    split <;> rfl

theorem accept (h : d.Timely) (c : Command) (now : Instant) : (d.accept c now).Timely := by
  rw [accept_eq]
  exact (h.lay c now).submitAll _

/-! ### What leaves the steps to come alone -/

theorem upcoming_launch (now deadline : Instant) (q : Queued) (rest : List Queued) (b : Address) :
    (d.launch now deadline q rest).upcoming b = d.upcoming b :=
  stepsFor_schedule rfl

theorem upcoming_land (h : d.Timely) {a : Attempt} (flight : d.inFlight = some a) (b : Address) :
    (d.land a).upcoming b = d.upcoming b :=
  stepsFor_erase h.ordered (h.awaits.live a flight) rfl

theorem upcoming_unsettle (h : d.Timely) (a b : Address) :
    (d.unsettle a).upcoming b = d.upcoming b := by
  unfold Dispatcher.unsettle
  split
  · rename_i t known
    obtain ⟨deadline, live⟩ := h.settles.live a t known
    exact stepsFor_erase h.ordered live rfl
  · rfl

theorem upcoming_settleAt (h : d.Timely) (a : Address) (deadline : Instant) (b : Address) :
    (d.settleAt a deadline).upcoming b = d.upcoming b := by
  rw [h.settleAt_eq]
  exact (stepsFor_schedule rfl).trans (h.upcoming_unsettle a b)

theorem upcoming_submit (h : d.Timely) (c : Command) (origin : Origin) (b : Address) :
    (d.submit c origin).upcoming b = d.upcoming b := by
  rcases submit_cases d c origin with ⟨_, _, _, -, -, -, eq⟩ | ⟨a, flight, -, eq⟩ | ⟨-, eq⟩
  · rw [eq]
    rfl
  · rw [eq]
    exact h.upcoming_land flight b
  · rw [eq]
    rfl

theorem upcoming_submitAll (h : d.Timely) (ps : List Part) (b : Address) :
    (d.submitAll ps).upcoming b = d.upcoming b := by
  induction ps generalizing d with
  | nil => rfl
  | cons p ps ih => exact (ih (h.submit p.command p.origin)).trans (h.upcoming_submit _ _ b)

/-- Once a command is taken, the steps to come for its address are those of its row. -/
theorem upcoming_accept (h : d.Timely) (c : Command) (now : Instant) (b : Address) :
    (d.accept c now).upcoming b =
      if b = c.address then (d.parts c now).filter (·.moment.isSome) else d.upcoming b := by
  rw [accept_eq, (h.lay c now).upcoming_submitAll, h.upcoming_lay]

end Timely

end Dispatcher

end Lighting
