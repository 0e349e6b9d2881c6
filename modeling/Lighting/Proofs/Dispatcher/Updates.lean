import Lighting.Proofs.Dispatcher.Changes

/-!
# What a step does to the registry

`updates` names the updates a step makes, in order, from the step and the dispatcher alone: a command notes
its level and its time; an accepted attempt confirms its level, one that has failed for good has it assumed;
reports are taken over as they are; the end of a ramp clears its flag.  All other steps make none.

`recorded` says that this is all that happens to the registry, and all that is told of devices: the
registry is what the updates make of it, and what is new in the outbox are their events, in order.  The
state in an event is therefore the one that the registry held when the event was told, in all its parts,
the ones that are not compared included.

### Stopping

Two updates may come beside the end of a ramp that lies beyond the clock.  That of an answer is then not
made, as the end is entered first; that of a report is, and no report after it is looked at.
-/

namespace Lighting

namespace Dispatcher

/-! ## The updates of a step -/

/-- What an accepted attempt lets know: its level, and whether a ramp is running. -/
def updatesOfAnswer (a : Attempt) (now : Instant) : List Registry.Update :=
  let c := a.command
  if c.transition.isZero then [.confirmRamp c.address c.target a.origin.isIntermediate]
  else if (now.add? (busTime c.transition)).isSome then [.confirmRamp c.address c.target true]
  else []

/-- What the failure of an attempt lets know: nothing if it is repeated, else its level is assumed, and no
ramp is running unless it was a step of one that goes on. -/
def updatesOfFailure (d : Dispatcher) (a : Attempt) : List Registry.Update :=
  if d.settings.retry.retries a.number then []
  else
    let c := a.command
    .assume c.address c.target :: if a.origin.isIntermediate then [] else [.setRamp c.address false]

/-- What reports let know: each of an address that is not to be left alone, up to the first one of a ramp
that ends beyond the clock. -/
def updatesOfReports (excluded : Address.Table Bool) (now : Instant) :
    List Packet.Report → List Registry.Update
  | [] => []
  | r :: rs =>
    if excluded.get r.address then updatesOfReports excluded now rs
    else .report r.address r.level r.transition r.source ::
      if r.transition.isZero || (now.add? r.transition).isSome then updatesOfReports excluded now rs
      else []

/-- What a task lets know that has fallen due. -/
def updatesOfTask (d : Dispatcher) (e : Agenda.Entry Task) : List Registry.Update :=
  match e.task with
  | .confirmation id number =>
    match d.inFlight with
    | some a => if a.command.id = id ∧ a.number = number then d.updatesOfFailure a else []
    | none => []
  | .rampStep _ _ _ => []
  | .settled a => if d.settling.get a = some e.token then [.setRamp a false] else []

/-- The updates that a step makes, in order. -/
def updates (d : Dispatcher) : Step → List Registry.Update
  | .enqueue c _ =>
    if d.excluded.get c.address then [] else [.aim c.address c.target c.transition]
  | .frame octets now =>
    match Packet.decode octets with
    | .ok (.confirmation c) =>
      match d.inFlight with
      | some a =>
        if a.key.matches c then
          if c.accepted then updatesOfAnswer a now else d.updatesOfFailure a
        else []
      | none => []
    | .ok (.status reports) => updatesOfReports d.excluded now reports
    | _ => []
  | .fire now =>
    match d.agenda.popDue now with
    | some (e, _) => d.updatesOfTask e
    | none => []
  | _ => []

/-- The updates that a row of steps makes, in order. -/
def updatesAlong (d : Dispatcher) : List Step → List Registry.Update
  | [] => []
  | s :: rest =>
    match d.step s with
    | .ok (_, after) => d.updates s ++ after.updatesAlong rest
    | .error _ => d.updates s

/-! ## Records -/

/-- The events that tell of devices, the latest first. -/
def tidings (d : Dispatcher) : List Event := d.outbox.filter Event.isStateChange

/-- The registry has gone through a row of updates, and what they told was told. -/
structure Recorded (d d' : Dispatcher) (us : List Registry.Update) : Prop where
  registry : d'.registry = (d.registry.run us).1
  tidings : d'.tidings = (d.registry.run us).2 ++ d.tidings

variable {d d' e : Dispatcher} {us vs : List Registry.Update}

namespace Recorded

theorem refl (d : Dispatcher) : Recorded d d [] := ⟨rfl, rfl⟩

theorem trans (h : Recorded d d' us) (h' : Recorded d' e vs) : Recorded d e (us ++ vs) where
  registry := by rw [h'.registry, h.registry, Registry.run_append]
  tidings := by rw [h'.tidings, h.tidings, h.registry, Registry.run_append, List.append_assoc]

/-- What comes before an update and is none. -/
theorem after (quiet : Recorded d d' []) (h : Recorded d' e us) : Recorded d e us := quiet.trans h

/-- What comes after an update and is none. -/
theorem before (h : Recorded d d' us) (quiet : Recorded d' e []) : Recorded d e us :=
  List.append_nil us ▸ h.trans quiet

/-- An update, and its event. -/
theorem record (d : Dispatcher) (u : Registry.Update) :
    Recorded d (d.record (d.registry.update u)) [u] where
  registry := rfl
  tidings := by
    have all : (d.registry.update u).2.toList.filter Event.isStateChange =
        (d.registry.update u).2.toList := by
      refine List.filter_eq_self.mpr fun e he => ?_
      rw [(d.registry.update_told u).2.2 e (Option.mem_toList.mp he)]
      rfl
    show ((d.registry.update u).2.toList ++ d.outbox).filter _ = _
    rw [List.filter_append, all]
    rfl

/-! ## What makes no update -/

theorem submit (d : Dispatcher) (c : Command) (origin : Origin) :
    Recorded d (d.submit c origin) [] := by
  rcases submit_cases d c origin with ⟨_, _, _, -, -, -, eq⟩ | ⟨_, -, -, eq⟩ | ⟨-, eq⟩ <;>
    (rw [eq]; exact ⟨rfl, rfl⟩)

theorem submitAll (d : Dispatcher) (ps : List Part) : Recorded d (d.submitAll ps) [] := by
  induction ps generalizing d with
  | nil => exact refl d
  | cons p ps ih => exact (submit d p.command p.origin).after (ih _)

theorem cancelPlan (d : Dispatcher) (a : Address) (successor : CommandId) :
    Recorded d (d.cancelPlan a successor) [] := by
  unfold Dispatcher.cancelPlan
  split <;> exact ⟨rfl, rfl⟩

theorem unsettle (d : Dispatcher) (a : Address) : Recorded d (d.unsettle a) [] := by
  unfold Dispatcher.unsettle
  split <;> exact ⟨rfl, rfl⟩

theorem linkDown (d : Dispatcher) : Recorded d d.onLinkDown [] := by
  unfold onLinkDown
  split
  · dsimp only
    split <;> exact ⟨rfl, rfl⟩
  · exact refl d

theorem linkUp (d : Dispatcher) : Recorded d d.onLinkUp [] := by
  unfold onLinkUp
  split <;> exact ⟨rfl, rfl⟩

/-! ## Taking commands -/

theorem enqueue (d : Dispatcher) (c : Command) (now : Instant) :
    Recorded d (d.enqueue c now) (d.updates (.enqueue c now)) := by
  unfold Dispatcher.enqueue updates
  dsimp only
  cases d.excluded.get c.address with
  | true => exact refl d
  | false =>
      have room : Recorded d (d.makeRoom c) [.aim c.address c.target c.transition] :=
        (cancelPlan d c.address c.id).after (record _ (.aim c.address c.target c.transition))
      have laid : Recorded d (d.lay c now) [.aim c.address c.target c.transition] := by
        unfold lay
        split
        · exact room.before ⟨rfl, rfl⟩
        · exact room
      show Recorded d (d.accept c now) [.aim c.address c.target c.transition]
      rw [accept_eq]
      exact laid.before (submitAll _ _)

/-! ## Answers -/

theorem retryOrFail (d : Dispatcher) (a : Attempt) :
    Recorded d (d.retryOrFail a) (d.updatesOfFailure a) := by
  unfold Dispatcher.retryOrFail updatesOfFailure
  split
  · exact ⟨rfl, rfl⟩
  · have told : Recorded d (d.tell (.resolved a.command.id a.command.address (.failed a.number))) [] :=
      ⟨rfl, rfl⟩
    have assumed := told.after (record _ (.assume a.command.address a.command.target))
    dsimp only
    split
    · exact assumed
    · exact assumed.trans (record _ (.setRamp a.command.address false))

theorem onAccepted (d : Dispatcher) (a : Attempt) (now : Instant) :
    Recorded d (left (d.onAccepted a now)) (updatesOfAnswer a now) := by
  have told : Recorded d (d.tell (.resolved a.command.id a.command.address .confirmed)) [] := ⟨rfl, rfl⟩
  unfold Dispatcher.onAccepted updatesOfAnswer
  dsimp only
  cases a.command.transition.isZero with
  | false =>
      unfold settleAfter
      cases now.add? (busTime a.command.transition) with
      | none => exact told
      | some deadline =>
          have settled : Recorded d ((d.tell (.resolved a.command.id a.command.address .confirmed)).settleAt
              a.command.address deadline) [] := told.after ⟨rfl, rfl⟩
          exact settled.after (record _ (.confirmRamp a.command.address a.command.target true))
  | true =>
      cases a.origin.isIntermediate with
      | true => exact told.after (record _ (.confirmRamp a.command.address a.command.target true))
      | false =>
          exact (told.after (unsettle _ a.command.address)).after
            (record _ (.confirmRamp a.command.address a.command.target false))

/-! ## Reports -/

/-- A report that is taken over, also if the end of its ramp cannot be entered. -/
theorem onReport (d : Dispatcher) (now : Instant) {r : Packet.Report}
    (open? : d.excluded.get r.address = false) :
    Recorded d (left (d.onReport now r)) [.report r.address r.level r.transition r.source] := by
  have taken := record d (.report r.address r.level r.transition r.source)
  unfold Dispatcher.onReport
  rw [if_neg (open? ▸ Bool.false_ne_true)]
  dsimp only
  cases r.transition.isZero with
  | true => exact taken.before (unsettle _ r.address)
  | false =>
      unfold settleAfter
      cases now.add? r.transition with
      | none => exact taken
      | some deadline => exact taken.before ⟨rfl, rfl⟩

/-- Reports go on as long as the ends of their ramps can be entered. -/
theorem onReport_isOk (d : Dispatcher) (now : Instant) {r : Packet.Report}
    (open? : d.excluded.get r.address = false) :
    (d.onReport now r).isOk = (r.transition.isZero || (now.add? r.transition).isSome) := by
  unfold Dispatcher.onReport
  rw [if_neg (open? ▸ Bool.false_ne_true)]
  dsimp only
  cases r.transition.isZero with
  | true => rfl
  | false =>
      unfold settleAfter
      cases now.add? r.transition <;> rfl

theorem onReports (now : Instant) (rs : List Packet.Report) (d : Dispatcher) :
    Recorded d (left (onReports now rs d)) (updatesOfReports d.excluded now rs) := by
  induction rs generalizing d with
  | nil => exact refl d
  | cons r rs ih =>
      unfold Dispatcher.onReports updatesOfReports
      cases open? : d.excluded.get r.address with
      | true =>
          have passed : d.onReport now r = .ok d := if_pos open?
          rw [passed]
          exact ih d
      | false =>
          have first := onReport d now open?
          have goes := onReport_isOk d now open?
          cases out : d.onReport now r with
          | error stop =>
              rw [out] at first goes
              rw [if_neg Bool.false_ne_true, ← goes]
              exact first
          | ok e =>
              rw [out] at first goes
              rw [if_neg Bool.false_ne_true, ← goes, ← (Beside.onReport out).excluded]
              exact first.trans (ih e)

/-! ## Steps -/

theorem frame (d : Dispatcher) (octets : List UInt8) (now : Instant) :
    Recorded d (left (d.onFrame now octets)) (d.updates (.frame octets now)) := by
  unfold onFrame updates
  dsimp only
  cases Packet.decode octets with
  | error e => cases e <;> exact refl d
  | ok news =>
      cases news with
      | unrecognized => exact refl d
      | status reports => exact onReports now reports d
      | confirmation c =>
          unfold onConfirmation
          cases d.inFlight with
          | none => exact refl d
          | some a =>
              have landed : Recorded d (d.land a) [] := ⟨rfl, rfl⟩
              dsimp only
              cases a.key.matches c with
              | false => exact refl d
              | true =>
                  cases c.accepted with
                  | true => exact landed.after (onAccepted _ a now)
                  | false => exact landed.after (retryOrFail _ a)

theorem fire (d : Dispatcher) (e : Agenda.Entry Task) : Recorded d (d.fire e) (d.updatesOfTask e) := by
  unfold Dispatcher.fire updatesOfTask
  cases e.task with
  | confirmation id number =>
      dsimp only
      unfold onTimeout
      cases d.inFlight with
      | none => exact refl d
      | some a =>
          have grounded : Recorded d { d with inFlight := none } [] := ⟨rfl, rfl⟩
          dsimp only
          split
          · exact grounded.after (retryOrFail _ a)
          · exact refl d
  | rampStep plan c last =>
      dsimp only
      unfold onRampStep
      split
      · exact refl d
      · split
        · cases last with
          | true =>
              have gone : Recorded d { d with plans := d.plans.set c.address none } [] := ⟨rfl, rfl⟩
              exact gone.after (submit _ c _)
          | false => exact submit d c _
        · exact refl d
  | settled a =>
      dsimp only
      unfold onSettled
      split
      · have gone : Recorded d { d with settling := d.settling.set a none } [] := ⟨rfl, rfl⟩
        exact gone.after (record _ (.setRamp a false))
      · exact refl d

theorem poll (d : Dispatcher) (now : Instant) : Recorded d (d.after (.poll now)) [] := by
  unfold Dispatcher.after
  cases out : d.step (.poll now) with
  | error stop =>
      show Recorded d stop.dispatcher []
      rcases pollTransmit_eq_error out with same | ⟨rest, same⟩ <;> (rw [same]; exact ⟨rfl, rfl⟩)
  | ok r =>
      obtain ⟨frame, d'⟩ := r
      rcases pollTransmit_eq_ok out with ⟨rfl, rfl⟩ | ⟨line, q, rest, rfl, -, -, -, sent⟩
      · exact refl _
      · obtain ⟨-, deadline, -, rfl⟩ := transmit_eq_ok sent
        exact ⟨rfl, rfl⟩

end Recorded

/-- **A step makes its updates, and tells of them.** -/
theorem recorded (d : Dispatcher) (s : Step) : Recorded d (d.after s) (d.updates s) := by
  cases s with
  | issue => exact ⟨rfl, rfl⟩
  | enqueue c now => exact .enqueue d c now
  | linkUp => exact .linkUp d
  | linkDown => exact .linkDown d
  | buffer rest => exact ⟨rfl, rfl⟩
  | frame octets now => exact after_frame d octets now ▸ .frame d octets now
  | fire now =>
      show Recorded d (d.fireNext now) _
      unfold fireNext updates
      dsimp only
      cases d.agenda.popDue now with
      | none => exact .refl d
      | some due =>
          have taken : Recorded d { d with agenda := due.2 } [] := ⟨rfl, rfl⟩
          exact taken.after (.fire { d with agenda := due.2 } due.1)
  | poll now => exact .poll d now

/-- **So does a row of steps.** -/
theorem recorded_run {steps : List Step} {frames : List (List UInt8)}
    (run : d.run steps = .ok (frames, d')) : Recorded d d' (d.updatesAlong steps) := by
  induction steps generalizing d frames with
  | nil =>
      cases run
      exact .refl _
  | cons s rest ih =>
      obtain ⟨frame, e, frames', first, tail⟩ := run_cons_eq_ok run
      rw [updatesAlong, first]
      exact (after_of_ok first ▸ recorded _ s).trans (ih tail)

/-- The events of a record carry full states: each tells of one of the updates, and its state is that of the
address as this update has left it, which shows something else than before. -/
theorem Recorded.full (h : Recorded d d' us) {told : List Event} (shown : d.registry.Shown told) :
    ∃ news, d'.tidings = news ++ d.tidings ∧
      ∀ e ∈ news, ∃ before u after state, us = before ++ u :: after ∧ e = .stateChanged state ∧
        state = (d.registry.run (before ++ [u])).1.query u.address ∧ state.address = u.address ∧
        state.published ≠ ((d.registry.run before).1.query u.address).published := by
  refine ⟨_, h.tidings, fun e told => ?_⟩
  obtain ⟨before, u, after, split, shows, full⟩ := Registry.of_mem_run told
  exact ⟨before, u, after, _, split, full, rfl, (shown.run (before ++ [u])).own u.address, shows⟩

end Dispatcher

end Lighting
