import Lighting.Proofs.Dispatcher.Updates

/-!
# What a subscriber knows

Someone who has had every event since the beginning can do without the dispatcher: the last event of
the link says whether it is up, and the last event of an address what is published of its device.
`Mirrored` says so, and that no event was idle: an event of the link says the opposite of the one
before it, and an event of an address shows something else than the one before it.

It holds between all steps, after steps that stop, and it is kept by every single change.  Inside a
step, where several updates may follow each other, an event is held against the registry at the moment
it was told, that is after the update it tells of (`Recorded`).
-/

namespace Lighting

/-- What an event says of the link. -/
def Event.link? : Event → Option Bool
  | .linkChanged up => some up
  | _ => none

/-- The link as the news has it, the latest first: as the last event of it says, and down before any
event. -/
def lastLink (told : List Event) : Bool := (told.findSome? Event.link?).getD false

/-- Every event of the link says the opposite of the one before it, and the first one that it is up. -/
def Alternates (told : List Event) : Prop :=
  ∀ later up earlier, told = later ++ .linkChanged up :: earlier → up = !lastLink earlier

theorem Alternates.cons {told : List Event} (h : Alternates told) {e : Event}
    (turns : ∀ up, e = .linkChanged up → up = !lastLink told) : Alternates (e :: told) := by
  intro later up earlier split
  rcases List.cons_eq_append_iff.mp split with ⟨rfl, first⟩ | ⟨later', rfl, rest⟩
  · obtain ⟨same, rfl⟩ := List.cons.inj first
    exact turns up same.symm
  · exact h later' up earlier rest

namespace Dispatcher

/-- The events tell all there is to know of the link and of the devices, and no event is idle. -/
structure Mirrored (d : Dispatcher) : Prop where
  /-- The link is as its last event says. -/
  link : lastLink d.outbox = d.linkUp
  /-- The events of the link alternate. -/
  alternates : Alternates d.outbox
  /-- Every device is as its last event shows, and no event shows what was shown before. -/
  registry : d.registry.Shown d.outbox

variable {d d' : Dispatcher}

theorem mirrored_create (settings : Settings) (excluded : List Address) :
    (create settings excluded).Mirrored where
  link := rfl
  alternates := fun later up earlier split => by simp [create] at split
  registry := Registry.shown_empty

/-! ## One change -/

/-- News of a device. -/
theorem Mirrored.record (h : d.Mirrored) (u : Registry.Update) :
    (d.record (d.registry.update u)).Mirrored := by
  have shown := h.registry.update u
  obtain ⟨-, -, full⟩ := d.registry.update_told u
  cases news : (d.registry.update u).2 with
  | none =>
      have outbox : (d.record (d.registry.update u)).outbox = d.outbox := by
        rw [Dispatcher.record, news]
        rfl
      rw [news] at shown
      exact ⟨by rw [outbox]; exact h.link, by rw [outbox]; exact h.alternates, by rw [outbox]; exact shown⟩
  | some e =>
      have outbox : (d.record (d.registry.update u)).outbox = e :: d.outbox := by
        rw [Dispatcher.record, news]
        rfl
      rw [news] at shown
      obtain rfl := full e news
      refine ⟨?_, ?_, by rw [outbox]; exact shown⟩
      · rw [outbox]
        exact h.link
      · rw [outbox]
        exact h.alternates.cons fun up same => by cases same

/-- News of a command. -/
theorem Mirrored.resolve (h : d.Mirrored) (id : CommandId) (a : Address) (outcome : Outcome) :
    (d.tell (.resolved id a outcome)).Mirrored where
  link := h.link
  alternates := h.alternates.cons nofun
  registry := h.registry.tell rfl

/-- News of the link. -/
theorem Mirrored.turn (h : d.Mirrored) {up : Bool} (other : d.linkUp = !up) :
    (({ d with linkUp := up } : Dispatcher).tell (.linkChanged up)).Mirrored where
  link := rfl
  alternates := h.alternates.cons fun up' same => by
    cases same
    rw [h.link, other, Bool.not_not]
  registry := h.registry.tell rfl

theorem Change.mirrored (change : Change d d') (h : d.Mirrored) : d'.Mirrored := by
  cases change with
  | record u => exact h.record u
  | resolve id a outcome => exact h.resolve id a outcome
  | _ => exact ⟨h.link, h.alternates, h.registry⟩

/-! ## Steps and runs -/

theorem Changes.mirrored (changes : Changes d d') (h : d.Mirrored) : d'.Mirrored := by
  induction changes with
  | refl => exact h
  | tail _ change ih => exact change.mirrored ih

theorem Course.mirrored {s : Step} (course : d.Course s d') (h : d.Mirrored) : d'.Mirrored := by
  cases course with
  | quiet known changes => exact changes.mirrored h
  | turn news other changes =>
      exact (changes.mirrored h).turn (changes.fixed.linkUp.trans other)
  | launch sent reach => exact ⟨h.link, h.alternates, h.registry⟩

theorem Mirrored.run (h : d.Mirrored) {steps : List Step} {frames : List (List UInt8)}
    (run : d.run steps = .ok (frames, d')) : d'.Mirrored :=
  run_induction (fun {d s _ _} h step => after_of_ok step ▸ (d.course s).mirrored h) h run

/-- **The events tell everything, and nothing twice.**  Before and after every step, also one that
stops, the events say how the link is and what is published of every device, the events of the link
alternate, and an event of a device shows something new.  All that happened to the registry, in a run and
in a step after it, are the updates of the steps, and what is told of devices are the events of these
updates: each carries the full state of its address as the update it tells of has left it.  And an update
changes one address only, and there is an event of it exactly if what is published has changed. -/
theorem events_mirror {settings : Settings} {excluded : List Address} {steps : List Step}
    {frames : List (List UInt8)}
    (reached : (create settings excluded).run steps = .ok (frames, d)) (s : Step) :
    d.Mirrored ∧ (d.after s).Mirrored ∧
      Recorded (create settings excluded) d ((create settings excluded).updatesAlong steps) ∧
      Recorded d (d.after s) (d.updates s) ∧
      (∃ news, (d.after s).tidings = news ++ d.tidings ∧
        ∀ e ∈ news, ∃ before u after state, d.updates s = before ++ u :: after ∧
          e = .stateChanged state ∧ state = (d.registry.run (before ++ [u])).1.query u.address ∧
          state.address = u.address ∧
          state.published ≠ ((d.registry.run before).1.query u.address).published) ∧
      ∀ (r : Registry) (u : Registry.Update),
        (∀ b, b ≠ u.address → (r.update u).1.states.get b = r.states.get b) ∧
          ((r.update u).2.isSome ↔
            ((r.update u).1.query u.address).published ≠ (r.query u.address).published) ∧
          ∀ e, (r.update u).2 = some e → e = .stateChanged ((r.update u).1.query u.address) := by
  have mirrored := (mirrored_create settings excluded).run reached
  exact ⟨mirrored, (d.course s).mirrored mirrored, recorded_run reached, d.recorded s,
    (d.recorded s).full mirrored.registry, Registry.update_told⟩

/-- A command is sent, and its answer comes: this is one update, its event carries the whole state, and a
subscriber then knows the link and the level. -/
theorem events_mirror_of_answer :
    ∃ frames d, (create .standard []).run
        [.linkUp, .issue, .enqueue ⟨⟨1⟩, ⟨6⟩, .setLevel ⟨40⟩, .start⟩ .start, .poll .start] =
          .ok (frames, d) ∧
      (d.after (.frame [0x68, 0x2E] .start)).Mirrored ∧
      lastLink (d.after (.frame [0x68, 0x2E] .start)).outbox = true ∧
      d.updates (.frame [0x68, 0x2E] .start) = [.confirmRamp ⟨6⟩ ⟨40⟩ false] ∧
      Recorded d (d.after (.frame [0x68, 0x2E] .start)) [.confirmRamp ⟨6⟩ ⟨40⟩ false] ∧
      lastTold (d.after (.frame [0x68, 0x2E] .start)).outbox ⟨6⟩ =
        (d.after (.frame [0x68, 0x2E] .start)).query ⟨6⟩ ∧
      ((d.after (.frame [0x68, 0x2E] .start)).query ⟨6⟩).published = (some ⟨40⟩, .confirmed, false) := by
  obtain ⟨⟨frames, d⟩, reached, seen⟩ := exists_ok
    (x := (create .standard []).run
      [.linkUp, .issue, .enqueue ⟨⟨1⟩, ⟨6⟩, .setLevel ⟨40⟩, .start⟩ .start, .poll .start])
    (f := fun r =>
      (decide (lastLink (r.2.after (.frame [0x68, 0x2E] .start)).outbox = true ∧
        r.2.updates (.frame [0x68, 0x2E] .start) = [.confirmRamp ⟨6⟩ ⟨40⟩ false] ∧
        lastTold (r.2.after (.frame [0x68, 0x2E] .start)).outbox ⟨6⟩ =
          (r.2.after (.frame [0x68, 0x2E] .start)).query ⟨6⟩),
        ((r.2.after (.frame [0x68, 0x2E] .start)).query ⟨6⟩).published))
    (b := (true, some ⟨40⟩, .confirmed, false)) (by decide +kernel)
  obtain ⟨told, published⟩ := Prod.mk.inj seen
  obtain ⟨link, updates, full⟩ := of_decide_eq_true told
  obtain ⟨-, mirrored, -, recorded, -⟩ := events_mirror reached (.frame [0x68, 0x2E] .start)
  exact ⟨frames, d, reached, mirrored, link, updates, updates ▸ recorded, full, published⟩

end Dispatcher

end Lighting
