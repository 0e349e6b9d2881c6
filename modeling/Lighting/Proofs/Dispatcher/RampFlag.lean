import Lighting.Proofs.Dispatcher.Announcements
import Lighting.Proofs.Dispatcher.Hearing

/-!
# The ramp flag never gets stuck

The flag that a ramp is running stands in the state of a device and clears itself nowhere.  What it
takes is that something is still to come which clears it, and this is what a flag that is set goes
with: the end of a ramp of the bus units is awaited, or there is work left for the address (`Warranted`).

### The steps of a ramp

Two things could leave a flag behind that nothing clears.  A step that is accepted sets it, and no end
is entered for it; and a step that fails leaves it set.  In both cases the step was one before the last,
and such a step is on the line only while a later one is to come.  So work is left, and the flag has to
wait for it.
-/

namespace Lighting

namespace Dispatcher

variable {d d' : Dispatcher} {a : Address}

/-- If the flag of an address is set, the end of a ramp of the bus units is awaited for it, or something
is left to do. -/
def Warranted (d : Dispatcher) (a : Address) : Prop :=
  (d.query a).rampActive = true → (d.settling.get a).isSome ∨ d.Busy a

/-- What leaves flag and end alone and takes no work away. -/
theorem Warranted.calm (h : d.Warranted a) (calm : Calm a d d') (busy : d.Busy a → d'.Busy a) :
    d'.Warranted a := by
  intro active
  rw [calm.awaited]
  exact (h (calm.flag.symm.trans active)).imp_right busy

/-- News that is not of a step is of a ramp whose end is then awaited, or clears the flag. -/
theorem Taken.warranted {h : Hearing} (taken : Taken d h d') (whole : h.isStep = false) :
    d'.Warranted h.address := by
  intro active
  left
  rw [taken.awaited, whole, if_neg nofun, Option.isSome_map]
  rwa [taken.flag, whole, Bool.false_or] at active

/-- Reports are of ramps whose end is then awaited, or clear the flag. -/
theorem TakenAll.warranted {hs : List Hearing} (taken : TakenAll d hs d') (timely : d.Timely)
    (whole : ∀ h ∈ hs, h.isStep = false) (before : d.Warranted a) : d'.Warranted a := by
  induction taken with
  | nil => exact before
  | @cons d e d' h hs first beside grows rest ih =>
      obtain ⟨whole, others⟩ := List.forall_mem_cons.mp whole
      refine ih (beside.timely timely) others ?_
      by_cases mine : a = h.address
      · exact mine ▸ first.warranted whole
      · exact before.calm (first.others a mine) fun busy => busy.beside timely beside

/-- The end of an attempt leaves a flag set only if something is left to clear it. -/
theorem Warranted.finish (h : d.Warranted a) (orderly : d.Orderly) {t : Attempt}
    (flight : d.inFlight = some t) {outcome : Outcome} (rest : Beside (d.finish t outcome) d')
    (others : ∀ b, b ≠ t.command.address → Calm b d d')
    (own : d'.Busy t.command.address ∨ d'.Warranted t.command.address) : d'.Warranted a := by
  by_cases mine : a = t.command.address
  · subst mine
    exact own.elim (fun busy _ => Or.inr busy) id
  · refine h.calm (others a mine) fun busy => ?_
    exact (busy.finish orderly.timely flight mine outcome).beside
      (orderly.finish flight outcome).timely rest

/-- A step that goes on leaves work behind when its attempt ends. -/
theorem Supported.busy_of_finish (h : d.Supported) (orderly : d.Orderly) {t : Attempt}
    (flight : d.inFlight = some t) (early : t.origin.isIntermediate = true) {outcome : Outcome}
    (rest : Beside (d.finish t outcome) d') : d'.Busy t.command.address := by
  right
  rw [rest.upcoming (orderly.finish flight outcome).timely,
    show (d.finish t outcome).upcoming _ = _ from orderly.timely.upcoming_land flight _]
  refine h t.part ?_ early
  rw [held_of_inFlight flight]
  exact List.mem_cons_self

/-- **Every step leaves a flag set only if something is left to clear it.** -/
theorem Swing.warranted {s : Step} (swing : d.Swing s d') (orderly : d.Orderly)
    (supported : d.Supported) (h : d.Warranted a) : d'.Warranted a := by
  cases swing with
  | apart quiet calm busy => exact h.calm (calm a) (busy a)
  | @accepted t now flight heard taken rest =>
      refine h.finish orderly flight rest taken.others ?_
      cases step : (d.answer now t).isStep with
      | true => exact Or.inl (supported.busy_of_finish orderly flight (Bool.and_eq_true_iff.mp step).2 rest)
      | false => exact Or.inr (taken.warranted step)
  | @failed t flight quiet awaited others flag rest =>
      refine h.finish orderly flight rest others ?_
      cases early : t.origin.isIntermediate with
      | true => exact Or.inl (supported.busy_of_finish orderly flight early rest)
      | false => exact Or.inr fun active => absurd (active.symm.trans (flag early)) nofun
  | reported whole taken => exact taken.warranted orderly.timely whole h
  | @settled b quiet awaited flag others rest =>
      by_cases mine : a = b
      · subst mine
        exact fun active => absurd (active.symm.trans flag) nofun
      · exact h.calm (others a mine) fun busy => busy.beside orderly.timely rest

theorem warranted_run {settings : Settings} {excluded : List Address} {steps : List Step}
    {frames : List (List UInt8)}
    (reached : (create settings excluded).run steps = .ok (frames, d)) (a : Address) :
    d.Warranted a := by
  have kept := run_induction (P := fun d => d.Orderly ∧ d.Supported ∧ d.Warranted a)
    (fun {e s frame e'} ⟨orderly, supported, h⟩ step =>
      ⟨orderly.step step, (turn orderly.timely step).supported orderly supported,
        (swing orderly step).warranted orderly supported h⟩)
    ⟨orderly_create settings excluded, supported_create settings excluded, fun active => by
      rw [query, show (create settings excluded).registry = .empty from rfl,
        Registry.query_empty] at active
      cases active⟩ reached
  exact kept.2.2

/-- **The ramp flag never gets stuck.**  While the flag of an address is set, the end of a ramp of the
bus units is on the agenda for it, a stepped ramp is running for it, or a command for it waits or is in
flight.  So once nothing is left to do for an address, its flag is clear, and the last thing published
of it says so. -/
theorem ramp_flag_warranted {settings : Settings} {excluded : List Address} {steps : List Step}
    {frames : List (List UInt8)}
    (reached : (create settings excluded).run steps = .ok (frames, d)) (a : Address) :
    ((d.query a).rampActive = true →
      (∃ e ∈ d.agenda.entries, e.task = .settled a) ∨ (d.plans.get a).isSome ∨ a ∈ d.places) ∧
    ((∀ e ∈ d.agenda.entries, e.task ≠ .settled a) → d.plans.get a = none → a ∉ d.places →
      (d.query a).rampActive = false ∧ (lastTold d.outbox a).rampActive = false) := by
  have orderly := (orderly_create settings excluded).run reached
  have warranted : (d.query a).rampActive = true →
      (∃ e ∈ d.agenda.entries, e.task = .settled a) ∨ (d.plans.get a).isSome ∨ a ∈ d.places := by
    intro active
    rcases warranted_run reached a active with awaited | there | coming
    · obtain ⟨t, known⟩ := Option.isSome_iff_exists.mp awaited
      obtain ⟨deadline, live⟩ := orderly.timely.settles.live a t known
      exact Or.inl ⟨_, live, rfl⟩
    · exact Or.inr (Or.inr there)
    · exact Or.inr (Or.inl (orderly.timely.planned_iff.mpr coming))
  refine ⟨warranted, fun unsettled unplanned absent => ?_⟩
  have clear : (d.query a).rampActive = false := by
    by_contra set
    rcases warranted ((Bool.not_eq_false _).mp set) with ⟨e, he, task⟩ | planned | there
    · exact unsettled e he task
    · rw [unplanned] at planned
      cases planned
    · exact absent there
  have told := ((mirrored_create settings excluded).run reached).registry.published a
  exact ⟨clear, (congrArg (fun p => p.2.2) told).trans clear⟩

/-- The first of the two steps of a ramp is accepted: the flag is set, no end is on the agenda, nothing
waits and nothing is in flight, so the ramp must be running.  Once the second step is accepted too,
nothing is left, and the flag is clear. -/
theorem ramp_flag_warranted_of_two_steps :
    ∃ frames d frames' d', (create { Settings.standard with nativeRamps := false, rampSteps := 2 } []).run
        [.linkUp, .enqueue ⟨⟨9⟩, ⟨6⟩, .ramp .full (.ofSeconds 8), .start⟩ .start,
          .fire (.ofMillis 4000), .poll (.ofMillis 4000), .frame [0x68, 0x2E] (.ofMillis 4000)] =
          .ok (frames, d) ∧
      (d.query ⟨6⟩).rampActive = true ∧ (d.plans.get ⟨6⟩).isSome ∧
      (create { Settings.standard with nativeRamps := false, rampSteps := 2 } []).run
        [.linkUp, .enqueue ⟨⟨9⟩, ⟨6⟩, .ramp .full (.ofSeconds 8), .start⟩ .start,
          .fire (.ofMillis 4000), .poll (.ofMillis 4000), .frame [0x68, 0x2E] (.ofMillis 4000),
          .fire (.ofMillis 8000), .poll (.ofMillis 8000), .frame [0x69, 0x2E] (.ofMillis 8000)] =
          .ok (frames', d') ∧
      (d'.query ⟨6⟩).confirmed = some .full ∧ (lastTold d'.outbox ⟨6⟩).rampActive = false := by
  obtain ⟨⟨frames, d⟩, reached, seen⟩ := exists_ok
    (x := (create { Settings.standard with nativeRamps := false, rampSteps := 2 } []).run
      [.linkUp, .enqueue ⟨⟨9⟩, ⟨6⟩, .ramp .full (.ofSeconds 8), .start⟩ .start,
        .fire (.ofMillis 4000), .poll (.ofMillis 4000), .frame [0x68, 0x2E] (.ofMillis 4000)])
    (f := fun r => ((r.2.query ⟨6⟩).rampActive,
      decide ((∀ e ∈ r.2.agenda.entries, e.task ≠ .settled ⟨6⟩) ∧ ⟨6⟩ ∉ r.2.places)))
    (b := (true, true)) (by decide +kernel)
  obtain ⟨⟨frames', d'⟩, reached', seen'⟩ := exists_ok
    (x := (create { Settings.standard with nativeRamps := false, rampSteps := 2 } []).run
      [.linkUp, .enqueue ⟨⟨9⟩, ⟨6⟩, .ramp .full (.ofSeconds 8), .start⟩ .start,
        .fire (.ofMillis 4000), .poll (.ofMillis 4000), .frame [0x68, 0x2E] (.ofMillis 4000),
        .fire (.ofMillis 8000), .poll (.ofMillis 8000), .frame [0x69, 0x2E] (.ofMillis 8000)])
    (f := fun r => ((r.2.query ⟨6⟩).confirmed,
      decide ((∀ e ∈ r.2.agenda.entries, e.task ≠ .settled ⟨6⟩) ∧ r.2.plans.get ⟨6⟩ = none ∧
        ⟨6⟩ ∉ r.2.places)))
    (b := (some .full, true)) (by decide +kernel)
  obtain ⟨active, seen⟩ := Prod.mk.inj seen
  obtain ⟨unsettled, absent⟩ := of_decide_eq_true seen
  obtain ⟨confirmed, seen'⟩ := Prod.mk.inj seen'
  obtain ⟨unsettled', unplanned', absent'⟩ := of_decide_eq_true seen'
  have planned : (d.plans.get ⟨6⟩).isSome := by
    rcases (ramp_flag_warranted reached ⟨6⟩).1 active with ⟨e, he, task⟩ | planned | there
    · exact absurd task (unsettled e he)
    · exact planned
    · exact absurd there absent
  exact ⟨frames, d, frames', d', reached, active, planned, reached', confirmed,
    ((ramp_flag_warranted reached' ⟨6⟩).2 unsettled' unplanned' absent').2⟩

end Dispatcher

end Lighting
