import Lighting.Proofs.Dispatcher.Changes
import Lighting.Proofs.Dispatcher.Places

/-!
# The agenda mirrors the state

Whatever the dispatcher waits for it knows of: the attempt in flight, the stepped ramps, the ends of
ramps of the bus units.  The timetable says that the agenda holds an entry for each of them and for
nothing else.  This module draws the two consequences that make the agenda safe to use.

### No task is out of date

Before it does a task, the dispatcher asks whether the task still concerns anything (`IsCurrent`).  In
a run the answer is always yes, so that doing a task is what it would be without asking (`obey`).

### What is given up stays given up

Tokens are given out in ascending order, and no operation makes an entry under an old token or goes
back to an old attempt or ramp (`Grows`).  So the entries of what is given up once, in whatever way,
are gone from the agenda for the rest of the run.
-/

namespace Lighting

/-- Whether the task is the deadline of an attempt. -/
def Task.isDeadline : Task → Bool
  | .confirmation _ _ => true
  | _ => false

namespace Dispatcher

variable {d d' : Dispatcher}

/-! ## Doing a task without asking -/

/-- Does a task without asking whether it still concerns anything. -/
def obey (d : Dispatcher) (e : Agenda.Entry Task) : Dispatcher :=
  match e.task with
  | .confirmation _ _ =>
    match d.inFlight with
    | none => d
    | some a => ({ d with inFlight := none } : Dispatcher).retryOrFail a
  | .rampStep plan c last =>
    ({ d with plans := if last then d.plans.set c.address none else d.plans } : Dispatcher).submit c
      (.rampStep plan last)
  | .settled a =>
    let d := { d with settling := d.settling.set a none }
    d.record (d.registry.setRamp a false)

/-- A task still concerns what is there: the attempt in flight, the running ramp of its address, the
end that is awaited.  These are the questions the dispatcher asks. -/
def IsCurrent (d : Dispatcher) (e : Agenda.Entry Task) : Prop :=
  match e.task with
  | .confirmation id number => ∃ a, d.inFlight = some a ∧ a.command.id = id ∧ a.number = number
  | .rampStep number c _ => ∃ plan, d.plans.get c.address = some plan ∧ plan.id = number
  | .settled a => d.settling.get a = some e.token

/-- A task that still concerns something is done. -/
theorem IsCurrent.fire_eq {e : Agenda.Entry Task} (h : d.IsCurrent e) : d.fire e = d.obey e := by
  obtain ⟨token, deadline, task⟩ := e
  cases task with
  | confirmation id number =>
      obtain ⟨a, flight, rfl, rfl⟩ := h
      simp only [fire, obey, onTimeout, flight, and_self, if_true]
  | rampStep number c last =>
      obtain ⟨plan, running, rfl⟩ := h
      cases last <;> simp only [fire, obey, onRampStep, running, if_true, Bool.false_eq_true, if_false]
  | settled a => exact if_pos h

namespace Timely

/-- A step on the agenda is one of the running ramp of its address, which knows its token; if it is
the last one, it is the command of the ramp. -/
theorem step_of_mem (h : d.Timely) {e : Agenda.Entry Task} (there : e ∈ d.agenda.entries)
    {number : Nat} {c : Command} {last : Bool} (task : e.task = .rampStep number c last) :
    ∃ plan, d.plans.get c.address = some plan ∧ plan.id = number ∧ e.token ∈ plan.timers ∧
      (last = true → c.id = plan.final) := by
  have step : stepFor c.address e = some ⟨c, .rampStep number last, some e.deadline⟩ := by
    simp [stepFor, task]
  have member : (⟨c, .rampStep number last, some e.deadline⟩ : Part) ∈ stepsFor d.agenda c.address :=
    List.mem_filterMap.mpr ⟨e, there, step⟩
  cases running : d.plans.get c.address with
  | none =>
      rw [h.follows.unplanned _ running] at member
      cases member
  | some plan =>
      have known := (h.follows.timers _ plan running e there).mpr (Option.isSome_of_eq_some step)
      obtain ⟨front, final, row, id, origin, early⟩ := h.follows.planned _ plan running
      rw [row] at member
      rcases List.mem_append.mp member with early' | final'
      · cases early _ early'
        exact ⟨plan, rfl, rfl, known, fun last => by cases last⟩
      · obtain rfl := List.mem_singleton.mp final'
        cases origin
        exact ⟨plan, rfl, rfl, known, fun _ => id⟩

/-- **No task is out of date.** -/
theorem isCurrent (h : d.Timely) {e : Agenda.Entry Task} (there : e ∈ d.agenda.entries) :
    d.IsCurrent e := by
  unfold IsCurrent
  split
  · rename_i id number task
    obtain ⟨a, flight, rfl⟩ := h.awaits.owned e there id number task
    cases task
    exact ⟨a, flight, rfl, rfl⟩
  · rename_i number c last task
    obtain ⟨plan, running, same, -⟩ := h.step_of_mem there task
    exact ⟨plan, running, same⟩
  · rename_i a task
    exact h.settles.owned e there a task

/-- The next task is done without asking. -/
theorem fireNext_eq (h : d.Timely) {now : Instant} {e : Agenda.Entry Task} {g : Agenda Task}
    (due : d.agenda.popDue now = some (e, g)) :
    d.fireNext now = ({ d with agenda := g } : Dispatcher).obey e := by
  have current : ({ d with agenda := g } : Dispatcher).IsCurrent e :=
    h.isCurrent (h.ordered.popDue_eq_some due).1
  rw [← current.fire_eq, fireNext, due]

/-! ## The mirror -/

/-- The deadlines on the agenda are that of the attempt in flight. -/
theorem deadlines_eq (h : d.Timely) :
    d.agenda.entries.filter (·.task.isDeadline) = (d.inFlight.map Attempt.entry).toList := by
  have owned (e : Agenda.Entry Task) (he : e ∈ d.agenda.entries)
      (deadline : e.task.isDeadline = true) : ∃ a, d.inFlight = some a ∧ e = a.entry := by
    cases task : e.task with
    | confirmation id number => exact h.awaits.owned e he id number task
    | rampStep number c last => rw [task] at deadline; cases deadline
    | settled a => rw [task] at deadline; cases deadline
  cases flight : d.inFlight with
  | none =>
      refine List.filter_eq_nil_iff.mpr fun e he deadline => ?_
      obtain ⟨a, flight', -⟩ := owned e he deadline
      rw [flight] at flight'
      cases flight'
  | some a =>
      refine h.ordered.filter_eq_singleton (h.awaits.live a flight) rfl fun e he deadline => ?_
      obtain ⟨b, flight', rfl⟩ := owned e he deadline
      rw [Option.some.inj (flight.symm.trans flight')]

/-- The ends of ramps on the agenda are the awaited ones. -/
theorem settled_eq (h : d.Timely) (a : Address) :
    (d.agenda.entries.filter (·.task = .settled a)).map (·.token) = (d.settling.get a).toList := by
  cases known : d.settling.get a with
  | none =>
      rw [List.filter_eq_nil_iff.mpr fun e he settled => ?_]
      · rfl
      · have owned := h.settles.owned e he a (of_decide_eq_true settled)
        rw [known] at owned
        cases owned
  | some t =>
      obtain ⟨deadline, live⟩ := h.settles.live a t known
      rw [h.ordered.filter_eq_singleton live (by simp) fun e he settled => ?_]
      · rfl
      · have owned := h.settles.owned e he a (of_decide_eq_true settled)
        exact h.ordered.unique e he _ live (Option.some.inj (owned.symm.trans known))

/-- The last step of a running ramp is on the agenda. -/
theorem final_live (h : d.Timely) {a : Address} {plan : ActivePlan}
    (running : d.plans.get a = some plan) :
    ∃ e ∈ d.agenda.entries, ∃ c : Command, e.task = .rampStep plan.id c true ∧ c.address = a ∧
      c.id = plan.final ∧ e.token ∈ plan.timers := by
  obtain ⟨front, last, row, id, origin, -⟩ := h.follows.planned a plan running
  have member : last ∈ stepsFor d.agenda a := by
    rw [row]
    simp
  obtain ⟨e, he, step⟩ := List.mem_filterMap.mp member
  have known := (h.follows.timers a plan running e he).mpr (Option.isSome_of_eq_some step)
  obtain ⟨number, last', task, address, eq⟩ := stepFor_eq_some step
  rw [eq] at origin
  cases origin
  exact ⟨e, he, last.command, task, address, id, known⟩

end Timely

/-! ## What is given up stays given up -/

/-- Tokens are used once: what is on the agenda, in flight or planned afterwards was so before, or it
bears a token given out since. -/
structure Grows (d d' : Dispatcher) : Prop where
  next : d.agenda.next.number ≤ d'.agenda.next.number
  entries : ∀ e ∈ d'.agenda.entries, e ∈ d.agenda.entries ∨ d.agenda.next.number ≤ e.token.number
  flight : ∀ a, d'.inFlight = some a → d.inFlight = some a ∨ d.agenda.next.number ≤ a.timer.number
  plans : ∀ a plan, d'.plans.get a = some plan → d.plans.get a = some plan ∨
    ∀ t ∈ plan.timers, d.agenda.next.number ≤ t.number

namespace Grows

theorem refl (d : Dispatcher) : Grows d d :=
  ⟨Nat.le_refl _, fun _ => Or.inl, fun _ => Or.inl, fun _ _ => Or.inl⟩

theorem trans {e : Dispatcher} (h : Grows d d') (h' : Grows d' e) : Grows d e where
  next := Nat.le_trans h.next h'.next
  entries := fun x hx => by
    rcases h'.entries x hx with old | young
    · exact h.entries x old
    · exact Or.inr (Nat.le_trans h.next young)
  flight := fun a flight => by
    rcases h'.flight a flight with old | young
    · exact h.flight a old
    · exact Or.inr (Nat.le_trans h.next young)
  plans := fun a plan running => by
    rcases h'.plans a plan running with old | young
    · exact h.plans a plan old
    · exact Or.inr fun t ht => Nat.le_trans h.next (young t ht)

/-- Entries are gone or new, and the rest is as it was. -/
theorem of_agenda (flight : d'.inFlight = d.inFlight) (plans : d'.plans = d.plans)
    (next : d.agenda.next.number ≤ d'.agenda.next.number)
    (entries : ∀ e ∈ d'.agenda.entries, e ∈ d.agenda.entries ∨ d.agenda.next.number ≤ e.token.number) :
    Grows d d' :=
  ⟨next, entries, fun _ h => Or.inl (flight.symm.trans h), fun _ _ h => Or.inl (plans ▸ h)⟩

theorem schedule {deadline : Instant} {task : Task} {e : Agenda.Entry Task}
    (he : e ∈ (d.agenda.schedule deadline task).2.entries) :
    e ∈ d.agenda.entries ∨ d.agenda.next.number ≤ e.token.number := by
  rcases Agenda.mem_entries_schedule.mp he with rfl | he
  · exact Or.inr (Nat.le_refl _)
  · exact Or.inl he

theorem install (d : Dispatcher) (c : Command) (ps : List Part) : Grows d (d.install c ps) where
  next := by
    show d.agenda.next.number ≤ (d.agenda.bookAll _).next.number
    rw [Agenda.next_bookAll]
    exact Nat.le_add_right _ _
  entries := fun e he => by
    rcases Agenda.mem_entries_bookAll.mp he with he | ⟨i, b, -, rfl⟩
    · exact Or.inl he
    · exact Or.inr (Nat.le_add_right _ _)
  flight := fun _ => Or.inl
  plans := fun a plan running => by
    have running : (if (ps.filterMap Part.booking?).isEmpty then d.plans
      else d.plans.set c.address (some ⟨d.nextPlan, c.id,
        d.agenda.upcoming (ps.filterMap Part.booking?).length⟩)).get a = some plan := running
    split at running
    · exact Or.inl running
    · rw [Address.Table.get_set] at running
      split at running
      · cases running
        refine Or.inr fun t ht => ?_
        obtain ⟨i, -, rfl⟩ := Agenda.mem_upcoming.mp ht
        exact Nat.le_add_right _ _
      · exact Or.inl running

theorem settleAt (d : Dispatcher) (a : Address) (deadline : Instant) :
    Grows d (d.settleAt a deadline) := by
  unfold Dispatcher.settleAt
  refine of_agenda rfl rfl ?_ fun e he => ?_
  · dsimp only
    split <;> exact Nat.le_succ _
  · dsimp only at he
    split at he
    · exact schedule (Agenda.mem_entries_erase.mp he).1
    · exact schedule he

theorem launch (d : Dispatcher) (now deadline : Instant) (q : Queued) (rest : List Queued) :
    Grows d (d.launch now deadline q rest) where
  next := Nat.le_succ _
  entries := fun _ => schedule
  flight := fun a flight => by
    cases flight
    exact Or.inr (Nat.le_refl _)
  plans := fun _ _ => Or.inl

end Grows

theorem Change.grows (h : Change d d') : Grows d d' := by
  cases h with
  | ground => exact ⟨Nat.le_refl _, fun _ => Or.inl, nofun, fun _ _ => Or.inl⟩
  | cross fewer next =>
      exact .of_agenda rfl rfl (Nat.le_of_eq (congrArg _ next.symm)) fun e he => Or.inl (fewer e he)
  | unplan a =>
      refine ⟨Nat.le_refl _, fun _ => Or.inl, fun _ => Or.inl, fun b plan running => Or.inl ?_⟩
      have running : (d.plans.set a none).get b = some plan := running
      rw [Address.Table.get_set] at running
      split at running
      · cases running
      · exact running
  | install c ps => exact .install d c ps
  | settle a deadline => exact .settleAt d a deadline
  | _ => exact .of_agenda rfl rfl (Nat.le_refl _) fun _ => Or.inl

theorem Changes.grows (h : Changes d d') : Grows d d' := by
  induction h with
  | refl => exact .refl d
  | tail _ change ih => exact ih.trans change.grows

theorem Course.grows {s : Step} (h : d.Course s d') : Grows d d' := by
  cases h with
  | quiet known changes => exact changes.grows
  | turn news other changes =>
      have grows := changes.grows
      exact ⟨grows.next, grows.entries, grows.flight, grows.plans⟩
  | launch sent reach => exact .launch d _ _ _ _

theorem Grows.run {steps : List Step} {frames : List (List UInt8)}
    (run : d.run steps = .ok (frames, d')) : Grows d d' :=
  run_induction (P := Grows d) (fun {e s _ _} h step => h.trans (after_of_ok step ▸ (e.course s).grows))
    (.refl d) run

/-- The token of something that was waited for and is no longer: an attempt that was in flight, a step
of a ramp that was running, an end that was awaited. -/
inductive GivenUp (d d' : Dispatcher) : Agenda.Token → Prop where
  /-- The attempt was confirmed, rejected, superseded or interrupted, or its time was up. -/
  | attempt {a : Attempt} (flight : d.inFlight = some a) (gone : d'.inFlight ≠ some a) :
      GivenUp d d' a.timer
  /-- The ramp was cancelled, or it has come to its end. -/
  | plan {a : Address} {plan : ActivePlan} {t : Agenda.Token}
      (running : d.plans.get a = some plan) (gone : d'.plans.get a ≠ some plan)
      (known : t ∈ plan.timers) : GivenUp d d' t
  /-- The end has come, or another one has taken its place. -/
  | settled {a : Address} {t : Agenda.Token} (awaited : d.settling.get a = some t)
      (gone : d'.settling.get a ≠ some t) : GivenUp d d' t

/-- What is given up had been waited for, and it is no longer on the agenda. -/
theorem GivenUp.absent {t : Agenda.Token} (h : d.GivenUp d' t) (timely : d.Timely)
    (timely' : d'.Timely) (grows : Grows d d') :
    t.number < d.agenda.next.number ∧ ∀ e ∈ d'.agenda.entries, e.token ≠ t := by
  cases h with
  | @attempt a flight gone =>
      have live := timely.awaits.live a flight
      have issued : a.timer.number < d.agenda.next.number := timely.ordered.issued _ live
      refine ⟨issued, fun e he same => ?_⟩
      rcases grows.entries e he with old | young
      · obtain rfl := timely.ordered.unique e old _ live same
        obtain ⟨b, flight', eq⟩ := timely'.awaits.owned _ he _ _ rfl
        have timer : a.timer = b.timer := congrArg Agenda.Entry.token eq
        rcases grows.flight b flight' with old' | young
        · cases flight.symm.trans old'
          exact gone flight'
        · rw [← timer] at young
          omega
      · rw [same] at young
        omega
  | @plan a plan t running gone known =>
      have issued := timely.follows.issued a plan running t known
      refine ⟨issued, fun e he same => ?_⟩
      subst same
      rcases grows.entries e he with old | young
      · have step := (timely.follows.timers a plan running e old).mp known
        cases running' : d'.plans.get a with
        | none =>
            have none := List.filterMap_eq_nil_iff.mp (timely'.follows.unplanned a running') e he
            rw [none] at step
            cases step
        | some plan' =>
            have known' := (timely'.follows.timers a plan' running' e he).mpr step
            rcases grows.plans a plan' running' with old' | young
            · cases running.symm.trans old'
              exact gone running'
            · have := young _ known'
              omega
      · omega
  | @settled a t awaited gone =>
      obtain ⟨deadline, live⟩ := timely.settles.live a t awaited
      have issued : t.number < d.agenda.next.number := timely.ordered.issued _ live
      refine ⟨issued, fun e he same => ?_⟩
      rcases grows.entries e he with old | young
      · obtain rfl := timely.ordered.unique e old _ live same
        exact gone (timely'.settles.owned _ he a rfl)
      · rw [same] at young
        omega

/-- A token that is no longer on the agenda never comes back. -/
theorem Grows.absent (grows : Grows d d') {t : Agenda.Token} (issued : t.number < d.agenda.next.number)
    (absent : ∀ e ∈ d.agenda.entries, e.token ≠ t) : ∀ e ∈ d'.agenda.entries, e.token ≠ t := by
  intro e he same
  rcases grows.entries e he with old | young
  · exact absent e old same
  · rw [same] at young
    omega

/-- **The agenda mirrors the state.**  There is one deadline if an attempt is in flight, its own, and
none otherwise; one end of a ramp for every address that awaits one, under the token it is known by,
and no other; and steps of ramps only of those that are running, each of which still has its last
step there.  So no task that falls due is out of date, and asking makes no difference; and the entries
of what is given up are never on the agenda again, now or later. -/
theorem tasks_mirror {settings : Settings} {excluded : List Address} {steps : List Step}
    {frames : List (List UInt8)}
    (reached : (create settings excluded).run steps = .ok (frames, d)) :
    d.agenda.entries.filter (·.task.isDeadline) = (d.inFlight.map Attempt.entry).toList ∧
      (∀ a, (d.agenda.entries.filter (·.task = .settled a)).map (·.token) =
        (d.settling.get a).toList) ∧
      (∀ e ∈ d.agenda.entries, ∀ number c last, e.task = .rampStep number c last →
        ∃ plan, d.plans.get c.address = some plan ∧ plan.id = number ∧ e.token ∈ plan.timers ∧
          (last = true → c.id = plan.final)) ∧
      (∀ a plan, d.plans.get a = some plan → ∃ e ∈ d.agenda.entries, ∃ c : Command,
        e.task = .rampStep plan.id c true ∧ c.address = a ∧ c.id = plan.final ∧
          e.token ∈ plan.timers) ∧
      (∀ now e g, d.agenda.popDue now = some (e, g) → d.IsCurrent e ∧
        ({ d with agenda := g } : Dispatcher).fire e = ({ d with agenda := g } : Dispatcher).obey e) ∧
      ∀ more frames' d', d.run more = .ok (frames', d') → ∀ t, d.GivenUp d' t →
        ∀ later frames'' d'', d'.run later = .ok (frames'', d'') →
          ∀ e ∈ d''.agenda.entries, e.token ≠ t := by
  have timely := ((orderly_create settings excluded).run reached).timely
  refine ⟨timely.deadlines_eq, timely.settled_eq,
    fun e he number c last task => timely.step_of_mem he task, fun a plan => timely.final_live,
    fun now e g due => ?_, fun more frames' d' run t given later frames'' d'' run' => ?_⟩
  · have current := timely.isCurrent (timely.ordered.popDue_eq_some due).1
    have current' : ({ d with agenda := g } : Dispatcher).IsCurrent e := current
    exact ⟨current, current'.fire_eq⟩
  · have timely' := (((orderly_create settings excluded).run reached).run run).timely
    have grows := Grows.run run
    obtain ⟨issued, absent⟩ := given.absent timely timely' grows
    exact (Grows.run run').absent (Nat.lt_of_lt_of_le issued grows.next) absent

/-- A line is in flight, and its answer comes: its deadline was on the agenda and is gone for good. -/
theorem tasks_mirror_of_answer :
    ∃ frames d a frames' d', (create .standard []).run
        [.linkUp, .issue, .enqueue ⟨⟨1⟩, ⟨6⟩, .setLevel ⟨40⟩, .start⟩ .start, .poll .start] =
          .ok (frames, d) ∧
      d.inFlight = some a ∧ d.agenda.entries.filter (·.task.isDeadline) = [a.entry] ∧
      d.run [.frame [0x68, 0x2E] .start] = .ok (frames', d') ∧
      ∀ later frames'' d'', d'.run later = .ok (frames'', d'') →
        ∀ e ∈ d''.agenda.entries, e.token ≠ a.timer := by
  obtain ⟨⟨frames, d⟩, reached, seen⟩ := exists_ok
    (x := (create .standard []).run
      [.linkUp, .issue, .enqueue ⟨⟨1⟩, ⟨6⟩, .setLevel ⟨40⟩, .start⟩ .start, .poll .start])
    (f := fun r => (r.2.inFlight.isSome, (r.2.run [.frame [0x68, 0x2E] .start]).toOption.map
      fun r' => r'.2.inFlight.isSome))
    (b := (true, some false)) (by decide +kernel)
  obtain ⟨flight, seen⟩ := Prod.mk.inj seen
  obtain ⟨⟨frames', d'⟩, answered, idle⟩ := exists_ok seen
  obtain ⟨a, flight⟩ := Option.isSome_iff_exists.mp flight
  obtain ⟨deadline, -, -, -, -, gone⟩ := tasks_mirror reached
  have given : d.GivenUp d' a.timer := .attempt flight fun still => by
    have idle : d'.inFlight.isSome = false := idle
    rw [still] at idle
    cases idle
  exact ⟨frames, d, a, frames', d', reached, flight, by rw [deadline, flight]; rfl, answered,
    gone _ _ _ answered a.timer given⟩

end Dispatcher

end Lighting
