import Lighting.Proofs.Dispatcher.Answers
import Lighting.Proofs.Dispatcher.Supersession
import Lighting.Proofs.Dispatcher.Tasks

/-!
# One line at a time

A line goes out only while the link is up, not before the interval since the last line has passed,
and not while an attempt is in flight.  So between two lines the first attempt has ended, and `Ends`
lists the causes there are: an answer, its time being up, a later command for its address, the link
going down.

### Exactly one cause

The causes are read off what happens, not off what it leads to: an answer is a frame that is
recognised as one, a later command is one that the step submits.  `flight_step` says that a step
either shows no cause, and the attempt stays in flight, or exactly one, and nothing is in flight
afterwards.  As nothing comes into flight but by a line, one step of the stretch between two lines
ends the attempt, and no other step shows a cause for it (`ends_once`).
-/

namespace Lighting

namespace Dispatcher

/-- What ends an attempt. -/
inductive Cause where
  /-- The interface has answered it. -/
  | answered (accepted : Bool)
  /-- Its time is up. -/
  | expired
  /-- A later command for its address takes its place. -/
  | superseded
  /-- The link has gone down. -/
  | interrupted
deriving DecidableEq

/-- A step shows a cause that ends the attempt in flight. -/
inductive Ends (d : Dispatcher) (a : Attempt) : Step → Cause → Prop where
  /-- A frame comes in that is an answer to the attempt. -/
  | answered {octets : List UInt8} {now : Instant} {c : Packet.Confirmation}
      (decoded : Packet.decode octets = .ok (.confirmation c)) (answer : a.key.matches c = true) :
      Ends d a (.frame octets now) (.answered c.accepted)
  /-- The deadline of the attempt falls due. -/
  | expired {now : Instant} {g : Agenda Task} (due : d.agenda.popDue now = some (a.entry, g))
      (late : a.deadline ≤ now) : Ends d a (.fire now) .expired
  /-- A command for the address of the attempt is submitted. -/
  | superseded {s : Step} {p : Part} (submitted : p ∈ d.submits s)
      (same : p.command.address = a.command.address) : Ends d a s .superseded
  /-- The link goes down. -/
  | interrupted (up : d.linkUp = true) : Ends d a .linkDown .interrupted

variable {d d' : Dispatcher}

theorem Keeps.idle (h : Keeps d d') (idle : d.inFlight = none) : d'.inFlight = none := by
  cases flight : d'.inFlight with
  | none => rfl
  | some a =>
      have := h.inFlight a flight
      rw [idle] at this
      cases this

/-! ## What submission does to the attempt in flight -/

/-- A command ends the attempt in flight exactly if it is for the same address. -/
theorem Orderly.inFlight_submit (h : d.Orderly) {a : Attempt} (flight : d.inFlight = some a)
    (c : Command) (origin : Origin) :
    (d.submit c origin).inFlight = if c.address = a.command.address then none else some a := by
  rcases submit_cases d c origin with
    ⟨before, old, after, waiting, same, -, eq⟩ | ⟨b, flight', same, eq⟩ | ⟨others, eq⟩
  · -- the one that gives way waits, so that the attempt in flight is for another address
    have apart : a.command.address ≠ old.command.address := by
      have nodup := h.places
      rw [Dispatcher.places, line_of_inFlight flight, List.map_cons] at nodup
      intro same
      apply (List.nodup_cons.mp nodup).1
      rw [same, waiting]
      simp
    rw [eq, if_neg (same ▸ Ne.symm apart)]
    exact flight
  · cases flight.symm.trans flight'
    rw [eq, if_pos same.symm]
    rfl
  · rw [eq, if_neg (others a.command (by rw [line_of_inFlight flight]; simp)).symm]
    exact flight

theorem Orderly.inFlight_submitAll (h : d.Orderly) {a : Attempt} (flight : d.inFlight = some a)
    (ps : List Part) :
    (d.submitAll ps).inFlight =
      if ∃ p ∈ ps, p.command.address = a.command.address then none else some a := by
  induction ps generalizing d with
  | nil => simpa using flight
  | cons p ps ih =>
      have first := h.inFlight_submit flight p.command p.origin
      rw [submitAll_cons]
      by_cases mine : p.command.address = a.command.address
      · rw [if_pos mine] at first
        rw [if_pos ⟨p, List.mem_cons_self, mine⟩]
        exact (keeps_submitAll _ ps).idle first
      · rw [if_neg mine] at first
        rw [ih (h.submit p.command p.origin) first]
        simp [mine]

/-! ## One step -/

/-- What a step does to the attempt in flight: it stays and there is no cause, or there is exactly one
cause and nothing is in flight. -/
inductive Fate (d : Dispatcher) (a : Attempt) (s : Step) (d' : Dispatcher) : Prop where
  /-- The attempt stays in flight. -/
  | stays (flight : d'.inFlight = some a) (none : ∀ cause, ¬ d.Ends a s cause)
  /-- The attempt ends. -/
  | ends {cause : Cause} (idle : d'.inFlight = none) (shown : d.Ends a s cause)
      (only : ∀ other, d.Ends a s other → other = cause)

/-- A step that submits parts, and shows nothing else. -/
theorem fate_of_submits {a : Attempt} {s : Step} (submits : ∀ cause, d.Ends a s cause →
      cause = .superseded ∧ ∃ p ∈ d.submits s, p.command.address = a.command.address)
    (flight : d'.inFlight =
      if ∃ p ∈ d.submits s, p.command.address = a.command.address then none else some a) :
    d.Fate a s d' := by
  split at flight
  · rename_i mine
    obtain ⟨p, submitted, same⟩ := mine
    exact .ends flight (.superseded submitted same) fun other shown => (submits other shown).1
  · rename_i none
    exact .stays flight fun cause shown => none (submits cause shown).2

theorem fate_enqueue (h : d.Orderly) {a : Attempt} (flight : d.inFlight = some a) (c : Command)
    (now : Instant) : d.Fate a (.enqueue c now) (d.enqueue c now) := by
  refine fate_of_submits (fun cause shown => ?_) ?_
  · cases shown with
    | superseded submitted same => exact ⟨rfl, _, submitted, same⟩
  · unfold enqueue
    cases closed : d.excluded.get c.address with
    | true => simpa [submits, closed] using flight
    | false =>
        rw [submits_take closed, if_neg Bool.false_ne_true, accept_eq]
        exact (h.lay c now).inFlight_submitAll ((lay_frame d c now).1.trans flight) _

/-- The only cause a frame can show is an answer. -/
theorem Ends.answer {a : Attempt} {octets : List UInt8} {now : Instant} {cause : Cause}
    (shown : d.Ends a (.frame octets now) cause) :
    ∃ c, Packet.decode octets = .ok (.confirmation c) ∧ a.key.matches c = true ∧
      cause = .answered c.accepted := by
  cases shown with
  | answered decoded answer => exact ⟨_, decoded, answer, rfl⟩
  | superseded submitted same => cases submitted

/-- An answer ends the attempt, whatever it says; another one does not concern it. -/
theorem fate_confirmation (h : d.Orderly) {a : Attempt} (flight : d.inFlight = some a)
    {octets : List UInt8} {now : Instant} {c : Packet.Confirmation}
    (decoded : Packet.decode octets = .ok (.confirmation c))
    (came : d.onConfirmation c now = .ok d') : d.Fate a (.frame octets now) d' := by
  cases answer : a.key.matches c with
  | false =>
      simp only [onConfirmation, flight, answer, Bool.false_eq_true, if_false] at came
      cases came
      refine .stays flight fun cause shown => ?_
      obtain ⟨c', decoded', answer', -⟩ := shown.answer
      cases decoded.symm.trans decoded'
      rw [answer] at answer'
      cases answer'
  | true =>
      refine .ends ?_ (.answered decoded answer) fun other shown => ?_
      · cases accepted : c.accepted with
        | false =>
            obtain ⟨e, eq, rest⟩ := onConfirmation_rejected h flight answer accepted now
            cases came.symm.trans eq
            split at rest <;> exact rest.flight
        | true =>
            obtain ⟨e, concludes, eq | ⟨eq, -⟩⟩ :=
              onConfirmation_accepted h flight answer accepted now
            · cases came.symm.trans eq
              exact concludes.flight
            · cases came.symm.trans eq
      · obtain ⟨c', decoded', -, rfl⟩ := shown.answer
        cases decoded.symm.trans decoded'
        rfl

theorem fate_frame (h : d.Orderly) {a : Attempt} (flight : d.inFlight = some a)
    {octets : List UInt8} {now : Instant} (came : d.onFrame now octets = .ok d') :
    d.Fate a (.frame octets now) d' := by
  have quiet {inbound : Except Packet.DecodeError Packet.Inbound}
      (decoded : Packet.decode octets = inbound) (other : ∀ c, inbound ≠ .ok (.confirmation c))
      (cause : Cause) : ¬ d.Ends a (.frame octets now) cause := by
    intro shown
    obtain ⟨c, confirmed, -⟩ := shown.answer
    exact other c (decoded.symm.trans confirmed)
  cases decoded : Packet.decode octets with
  | error e =>
      have same : d' = d := by
        cases e <;> simp only [onFrame, decoded] at came <;> cases came <;> rfl
      exact .stays (same ▸ flight) (quiet decoded fun c h => by cases h)
  | ok inbound =>
      simp only [onFrame, decoded] at came
      cases inbound with
      | status reports =>
          exact .stays ((Beside.onReports came).inFlight.trans flight)
            (quiet decoded fun c h => by cases h)
      | unrecognized =>
          cases came
          exact .stays flight (quiet decoded fun c h => by cases h)
      | confirmation c => exact fate_confirmation h flight decoded came

theorem fate_fire (h : d.Orderly) {a : Attempt} (flight : d.inFlight = some a) (now : Instant) :
    d.Fate a (.fire now) (d.fireNext now) := by
  cases due : d.agenda.popDue now with
  | none =>
      have same : d.fireNext now = d := by rw [fireNext, due]
      rw [same]
      refine .stays flight fun cause shown => ?_
      cases shown with
      | expired due' late => cases due.symm.trans due'
      | superseded submitted _ => simp [submits, due] at submitted
  | some p =>
      obtain ⟨e, g⟩ := p
      obtain ⟨there, rfl, -⟩ := h.timely.ordered.popDue_eq_some due
      rw [h.timely.fireNext_eq due]
      cases task : e.task with
      | confirmation id number =>
          obtain ⟨b, flight', rfl⟩ := h.timely.awaits.owned e there id number task
          cases flight.symm.trans flight'
          have late : a.deadline ≤ now := (Agenda.popDue_eq_some_iff.mp due).2.2
          refine .ends ?_ (.expired due late) fun other shown => ?_
          · simp only [obey, Attempt.entry, flight, (retryOrFail_apart _ _).1]
          · cases shown with
            | expired => rfl
            | superseded submitted _ =>
                simp [submits, due, Dispatcher.due, Attempt.entry] at submitted
      | rampStep number c last =>
          refine fate_of_submits (fun cause shown => ?_) ?_
          · cases shown with
            | expired due' late =>
                cases due.symm.trans due'
                cases task
            | superseded submitted same => exact ⟨rfl, _, submitted, same⟩
          · rw [submits_release h.timely due task]
            have eq : ({ d with agenda := d.agenda.erase e.token } : Dispatcher).obey e =
                (d.withdraw e c.address last).submit c (.rampStep number last) := by
              simp only [obey, task]
              rfl
            rw [eq]
            simpa using (h.withdraw due task).inFlight_submit flight c (.rampStep number last)
      | settled b =>
          refine .stays ?_ fun cause shown => ?_
          · simp only [obey, task]
            exact flight
          · cases shown with
            | expired due' late =>
                cases due.symm.trans due'
                cases task
            | superseded submitted _ => simp [submits, due, Dispatcher.due, task] at submitted

theorem fate_linkDown (h : d.Orderly) {a : Attempt} (flight : d.inFlight = some a) :
    d.Fate a .linkDown d.onLinkDown := by
  have up : d.linkUp = true := by
    cases link : d.linkUp with
    | true => rfl
    | false =>
        rw [h.link link] at flight
        cases flight
  refine .ends ?_ (.interrupted up) fun other shown => ?_
  · simp only [onLinkDown, up, if_true, flight]
    rfl
  · cases shown with
    | superseded submitted _ => cases submitted
    | interrupted => rfl

/-- **A step ends the attempt in flight for exactly one cause, or not at all.**  It sends nothing. -/
theorem flight_step (h : d.Orderly) {a : Attempt} (flight : d.inFlight = some a) {s : Step}
    {frame : Option (List UInt8)} (step : d.step s = .ok (frame, d')) :
    frame = none ∧ d.Fate a s d' := by
  -- steps that are no cause and leave the attempt alone
  have nothing {s : Step} {d' : Dispatcher} (same : d'.inFlight = d.inFlight)
      (quiet : ∀ cause, ¬ d.Ends a s cause) : d.Fate a s d' := .stays (same.trans flight) quiet
  cases s with
  | issue =>
      cases step
      exact ⟨rfl, nothing rfl fun cause shown => by cases shown with | superseded h => cases h⟩
  | enqueue c now => cases step; exact ⟨rfl, fate_enqueue h flight c now⟩
  | linkUp =>
      cases step
      refine ⟨rfl, nothing ?_ fun cause shown => by cases shown with | superseded h => cases h⟩
      unfold onLinkUp
      split <;> rfl
  | linkDown => cases step; exact ⟨rfl, fate_linkDown h flight⟩
  | buffer rest =>
      cases step
      exact ⟨rfl, nothing rfl fun cause shown => by cases shown with | superseded h => cases h⟩
  | frame octets now =>
      simp only [Dispatcher.step] at step
      cases came : d.onFrame now octets with
      | error stop => rw [came] at step; cases step
      | ok e =>
          rw [came] at step
          cases step
          exact ⟨rfl, fate_frame h flight came⟩
  | fire now => cases step; exact ⟨rfl, fate_fire h flight now⟩
  | poll now =>
      rcases pollTransmit_eq_ok step with ⟨rfl, rfl⟩ | ⟨_, _, _, -, -, free, -⟩
      · exact ⟨rfl, nothing rfl fun cause shown => by cases shown with | superseded h => cases h⟩
      · rw [free] at flight
        cases flight

/-! ## Sending -/

/-- A step that sends nothing leaves the pacing alone. -/
theorem lastSend_of_silent {s : Step} (step : d.step s = .ok (none, d')) : d'.lastSend = d.lastSend := by
  have course := after_of_ok step ▸ d.course s
  cases course with
  | quiet known changes => exact changes.fixed.lastSend
  | turn news other changes => exact changes.fixed.lastSend
  | launch sent reach => cases step.symm.trans sent

/-- A line goes out when the interval since the last one has passed. -/
theorem paced_of_sent {now : Instant} {line : List UInt8}
    (sent : d.pollTransmit now = .ok (some line, d')) {last : Instant} (before : d.lastSend = some last) :
    last.nanos + d.settings.sendInterval.nanos ≤ now.nanos := by
  unfold pollTransmit at sent
  split at sent
  · cases sent
  · cases reach : last.add? d.settings.sendInterval with
    | none => simp only [pacedUntil, before, reach] at sent; cases sent
    | some until? =>
        simp only [pacedUntil, before, reach, Option.any_some, decide_eq_true_eq] at sent
        split at sent
        · cases sent
        · rename_i early
          rw [← Instant.add?_eq_some_iff.mp reach]
          exact Nat.le_of_not_lt early

end Dispatcher

namespace World

open Dispatcher

variable {w w' : World}

/-- The lines of the history stay where they are. -/
theorem lines_run {steps : List Step} (run : w.run steps = .ok w') :
    w.history.lines <+: w'.history.lines := by
  refine run_induction (P := fun v => w.history.lines <+: v.history.lines)
    (fun {v s v'} grown step => ?_) List.prefix_rfl run
  obtain ⟨frame, -, note⟩ := step_eq_ok step
  exact note ▸ grown.trans (List.prefix_append _ _)

/-- A stretch in which no line is sent has none in its parts either. -/
theorem silent_append {v : World} {xs ys : List Step} (front : w.run xs = .ok v)
    (back : v.run ys = .ok w') (silent : w'.history.lines = w.history.lines) :
    v.history.lines = w.history.lines ∧ w'.history.lines = v.history.lines := by
  have grown := (lines_run front).length_le
  have grown' := (lines_run back).length_le
  have length : w.history.lines.length = v.history.lines.length := by
    rw [silent] at grown'
    omega
  have same := (lines_run front).eq_of_length length
  exact ⟨same.symm, silent.trans same⟩

/-- A step after which there is no new line has sent none. -/
theorem silent_step {s : Step} (step : w.step s = .ok w')
    (silent : w'.history.lines = w.history.lines) :
    w.dispatcher.step s = .ok (none, w'.dispatcher) := by
  obtain ⟨frame, stepped, note⟩ := step_eq_ok step
  cases frame with
  | none => exact stepped
  | some line =>
      obtain ⟨a, flight⟩ := inFlight_of_step stepped
      rw [note] at silent
      simp [History.note, transmission?, flight] at silent

/-- While no line is sent nothing comes into flight, and the pacing stays. -/
theorem silent_run {steps : List Step} (orderly : w.dispatcher.Orderly) (run : w.run steps = .ok w')
    (silent : w'.history.lines = w.history.lines) :
    w.dispatcher.Keeps w'.dispatcher ∧ w'.dispatcher.lastSend = w.dispatcher.lastSend := by
  induction steps generalizing w with
  | nil =>
      cases run
      exact ⟨.refl _, rfl⟩
  | cons s rest ih =>
      obtain ⟨v, first, tail⟩ := run_cons_eq_ok.mp run
      have front : w.run [s] = .ok v := run_cons_eq_ok.mpr ⟨v, first, rfl⟩
      obtain ⟨same, same'⟩ := silent_append front tail silent
      have stepped := silent_step first same
      obtain ⟨keeps, lastSend⟩ := ih (orderly.step stepped) tail same'
      exact ⟨(turn orderly.timely stepped).keeps.trans keeps,
        lastSend.trans (lastSend_of_silent stepped)⟩

/-- The link is as the last news of it says. -/
theorem linkUp_run {steps : List Step} (run : w.run steps = .ok w') :
    w'.dispatcher.linkUp = (steps.filterMap Step.link?).getLast?.getD w.dispatcher.linkUp := by
  induction steps generalizing w with
  | nil =>
      cases run
      rfl
  | cons s rest ih =>
      obtain ⟨v, first, tail⟩ := run_cons_eq_ok.mp run
      obtain ⟨frame, stepped, -⟩ := step_eq_ok first
      have link : v.dispatcher.linkUp = s.link?.getD w.dispatcher.linkUp :=
        (after_of_ok stepped ▸ w.dispatcher.course s).linkUp
      rw [ih tail, link]
      cases news : s.link? with
      | none => rw [List.filterMap_cons_none news]; rfl
      | some up =>
          rw [List.filterMap_cons_some news, List.getLast?_cons]
          cases (rest.filterMap Step.link?).getLast? <;> rfl

theorem settings_run {steps : List Step} (run : w.run steps = .ok w') :
    w'.dispatcher.settings = w.dispatcher.settings := by
  refine run_induction (P := fun v => v.dispatcher.settings = w.dispatcher.settings)
    (fun {v s v'} same step => ?_) rfl run
  obtain ⟨frame, stepped, -⟩ := step_eq_ok step
  exact ((after_of_ok stepped ▸ v.dispatcher.course s).settings).trans same

theorem orderly_run {settings : Settings} {excluded : List Address} {steps : List Step}
    (run : (start settings excluded).run steps = .ok w) : w.dispatcher.Orderly :=
  ((numbered_start settings excluded).run (orderly_create settings excluded) run).2

/-- What a line that is sent tells of the dispatcher before and after it. -/
structure Sends (w : World) (now : Instant) (x : Transmission) (w' : World) : Prop where
  /-- The link was up. -/
  up : w.dispatcher.linkUp = true
  /-- Nothing was in flight. -/
  free : w.dispatcher.inFlight = none
  /-- The interval since the last line had passed. -/
  paced : ∀ last, w.dispatcher.lastSend = some last →
    last.nanos + w.dispatcher.settings.sendInterval.nanos ≤ now.nanos
  /-- The attempt of the line is in flight. -/
  flight : w'.dispatcher.inFlight = some x.attempt
  /-- This is the last line. -/
  lastSend : w'.dispatcher.lastSend = some now
  /-- The attempt was made now. -/
  sentAt : x.attempt.sentAt = now
  /-- It is given up when the time of its number is up. -/
  deadline : x.attempt.deadline.nanos =
    now.nanos + (w.dispatcher.settings.retry.timeoutFor x.attempt.number).nanos

theorem sends_of_line {now : Instant} {x : Transmission} (step : w.step (.poll now) = .ok w')
    (line : w'.history.lines = w.history.lines ++ [x]) : w.Sends now x w' := by
  obtain ⟨frame, stepped, note⟩ := step_eq_ok step
  rw [note] at line
  have line := List.append_cancel_left line
  cases frame with
  | none => cases line
  | some frame =>
      rcases pollTransmit_eq_ok stepped with ⟨none, -⟩ | ⟨_, q, rest, -, up, free, head, sent⟩
      · cases none
      · obtain ⟨-, deadline, reach, eq⟩ := transmit_eq_ok sent
        have flight : w'.dispatcher.inFlight =
            some ⟨q.command, q.origin, q.attempts + 1, now, deadline,
              Packet.matchKey q.command w.dispatcher.nonce, w.dispatcher.agenda.next⟩ := by
          rw [eq]
          rfl
        simp only [transmission?, flight, Option.map_some, Option.bind_some, Option.toList_some,
          List.cons.injEq, and_true] at line
        subst line
        exact ⟨up, free, fun last => paced_of_sent stepped, flight, by rw [eq]; rfl, rfl,
          Instant.add?_eq_some_iff.mp reach⟩

/-! ## Between two lines -/

/-- In a row of steps, after some of them, a step shows a cause that ends the attempt in flight. -/
def EndsAt (w : World) (a : Attempt) (steps before : List Step) (s : Step) (cause : Cause) : Prop :=
  ∃ after v, steps = before ++ s :: after ∧ w.run before = .ok v ∧
    v.dispatcher.inFlight = some a ∧ v.dispatcher.Ends a s cause

/-- **An attempt ends once.**  Where an attempt is in flight at first and nothing at last, and no line
was sent meanwhile, one step has shown one cause, and no other step any. -/
theorem ends_once {a : Attempt} {mid : List Step} (orderly : w.dispatcher.Orderly)
    (flight : w.dispatcher.inFlight = some a) (run : w.run mid = .ok w')
    (silent : w'.history.lines = w.history.lines) (gone : w'.dispatcher.inFlight = none) :
    ∃ before s cause, w.EndsAt a mid before s cause ∧ ∀ before' s' cause',
      w.EndsAt a mid before' s' cause' → before' = before ∧ s' = s ∧ cause' = cause := by
  induction mid generalizing w with
  | nil =>
      cases run
      rw [gone] at flight
      cases flight
  | cons s rest ih =>
      obtain ⟨v, first, tail⟩ := run_cons_eq_ok.mp run
      have front : w.run [s] = .ok v := run_cons_eq_ok.mpr ⟨v, first, rfl⟩
      obtain ⟨same, same'⟩ := silent_append front tail silent
      have stepped := silent_step first same
      have orderly' := orderly.step stepped
      rcases (flight_step orderly flight stepped).2 with ⟨flight', none⟩ | ⟨idle, shown, only⟩
      · -- the attempt stays in flight, so that a cause is shown later
        obtain ⟨before, s', cause, ⟨after, u, split, ran, there, shown⟩, only⟩ :=
          ih orderly' flight' tail same'
        refine ⟨s :: before, s', cause,
          ⟨after, u, by rw [split]; rfl, run_cons_eq_ok.mpr ⟨v, first, ran⟩, there, shown⟩, ?_⟩
        rintro before' s'' cause' ⟨after', u', split', ran', there', shown'⟩
        cases before' with
        | nil =>
            cases ran'
            obtain ⟨rfl, -⟩ := List.cons.inj split'
            exact absurd shown' (none cause')
        | cons s₀ before' =>
            obtain ⟨rfl, others⟩ := List.cons.inj split'
            obtain ⟨v', first', ran'⟩ := run_cons_eq_ok.mp ran'
            cases first.symm.trans first'
            obtain ⟨rfl, rfl, rfl⟩ := only before' s'' cause' ⟨after', u', others, ran', there', shown'⟩
            exact ⟨rfl, rfl, rfl⟩
      · -- the attempt ends here, and nothing comes into flight after it
        refine ⟨[], s, _, ⟨rest, w, rfl, rfl, flight, shown⟩, ?_⟩
        rintro before' s'' cause' ⟨after', u', split', ran', there', shown'⟩
        cases before' with
        | nil =>
            cases ran'
            obtain ⟨rfl, -⟩ := List.cons.inj split'
            exact ⟨rfl, rfl, only cause' shown'⟩
        | cons s₀ before' =>
            obtain ⟨rfl, rfl⟩ := List.cons.inj split'
            obtain ⟨v', first', ran'⟩ := run_cons_eq_ok.mp ran'
            cases first.symm.trans first'
            obtain ⟨u, front, back⟩ := run_append_eq_ok.mp tail
            cases ran'.symm.trans front
            obtain ⟨same'', -⟩ := silent_append front back same'
            have idle' := (silent_run orderly' front same'').1.idle idle
            rw [idle'] at there'
            cases there'

/-- A command that is submitted while another one for its address is in flight is meant later. -/
theorem later_of_submits {settings : Settings} {excluded : List Address} {steps : List Step}
    (reached : (start settings excluded).run steps = .ok w) {a : Attempt}
    (flight : w.dispatcher.inFlight = some a) {s : Step} (step : w.step s = .ok w') {p : Part}
    (submitted : p ∈ w.dispatcher.submits s) (same : p.command.address = a.command.address) :
    ∃ σ τ : Slot, σ.Of w'.history.intents ∧ τ.Of w'.history.intents ∧ σ.Before τ ∧
      σ.command = a.command ∧ τ.command = p.command := by
  obtain ⟨order, -⟩ := order_of_run reached
  obtain ⟨sent, held, due, chain⟩ := order.climbs a.command.address
  obtain ⟨frame, stepped, note⟩ := step_eq_ok step
  have intents : w'.history.intents = w.history.intents ++ (w.dispatcher.intent? s).toList := by
    rw [note]
    rfl
  -- the command in flight has its slot among those on the line
  have member : a.command ∈ w.ledger.line.filter (·.address = a.command.address) := by
    refine List.mem_filter.mpr ⟨?_, by simp⟩
    show a.command ∈ w.dispatcher.line
    rw [line_of_inFlight flight]
    exact List.mem_cons_self
  rw [← chain.held_commands] at member
  obtain ⟨σ, there, command⟩ := List.mem_map.mp member
  have slot : σ.Of w.history.intents := chain.slots σ (by simp [there])
  have slot' : σ.Of w'.history.intents := intents ▸ slot.append _
  cases s with
  | enqueue c now =>
      -- the new row comes after all that was there
      cases closed : w.dispatcher.excluded.get c.address with
      | true => simp [submits, closed] at submitted
      | false =>
          rw [submits_take closed] at submitted
          obtain ⟨i, there⟩ := List.getElem?_of_mem (List.mem_filter.mp submitted).1
          refine ⟨σ, ⟨w.history.intents.length, i, p.command⟩, slot', ?_, Or.inl slot.lt, command, rfl⟩
          simp only [intents, intent?, closed, Bool.false_eq_true, if_false, Option.toList_some]
          exact w.ledger.slot_enter c there
  | fire now =>
      cases pop : w.dispatcher.agenda.popDue now with
      | none => simp [submits, pop] at submitted
      | some r =>
          obtain ⟨e, g⟩ := r
          have orderly := orderly_run reached
          cases task : e.task with
          | confirmation id number => simp [submits, pop, Dispatcher.due, task] at submitted
          | settled b => simp [submits, pop, Dispatcher.due, task] at submitted
          | rampStep number c last =>
              rw [submits_release orderly.timely pop task] at submitted
              obtain rfl := List.mem_singleton.mp submitted
              obtain ⟨plan, -, -, next, -⟩ := orderly.timely.step_due pop task
              -- the step that falls due is the first of those to come
              have first : due.map Slot.command =
                  c :: (stepsFor g c.address).map Part.command := by
                rw [chain.due_commands, ← same]
                exact congrArg (List.map Part.command) next
              cases due with
              | nil => cases first
              | cons τ due =>
                  obtain ⟨rfl, -⟩ := List.cons.inj first
                  refine ⟨σ, τ, slot', intents ▸ (chain.slots τ (by simp)).append _, ?_, command, rfl⟩
                  exact (List.pairwise_append.mp chain.order).2.2 σ there τ List.mem_cons_self
  | _ => cases submitted

/-- **One line at a time.**  A line goes out only while the link is up by its last news, and its
attempt is then in flight.  If another line follows it, at least the interval has passed, the link is
up again, and in between the attempt has ended at one step, for one cause: an answer to it, its time
being up, the link going down, or a command for its address that is meant later. -/
theorem one_at_a_time {settings : Settings} {excluded : List Address} {steps : List Step}
    {w w₁ : World} {t : Instant} {x : Transmission}
    (reached : (start settings excluded).run steps = .ok w) (sent : w.step (.poll t) = .ok w₁)
    (line : w₁.history.lines = w.history.lines ++ [x]) :
    (steps.filterMap Step.link?).getLast? = some true ∧ x.attempt.sentAt = t ∧
      w₁.dispatcher.inFlight = some x.attempt ∧
      ∀ mid w₂ u w₃ y, w₁.run mid = .ok w₂ → w₂.history.lines = w₁.history.lines →
        w₂.step (.poll u) = .ok w₃ → w₃.history.lines = w₂.history.lines ++ [y] →
        t.nanos + settings.sendInterval.nanos ≤ u.nanos ∧
        ((steps ++ .poll t :: mid).filterMap Step.link?).getLast? = some true ∧
        ∃ before s cause, w₁.EndsAt x.attempt mid before s cause ∧
          (∀ before' s' cause', w₁.EndsAt x.attempt mid before' s' cause' →
            before' = before ∧ s' = s ∧ cause' = cause) ∧
          (cause = .expired → ∃ now, s = .fire now ∧
            t.nanos + (settings.retry.timeoutFor x.attempt.number).nanos ≤ now.nanos) ∧
          (cause = .superseded → ∃ v v', w₁.run before = .ok v ∧ v.step s = .ok v' ∧
            ∃ p ∈ v.dispatcher.submits s, p.command.address = x.attempt.command.address ∧
              ∃ σ τ : Slot, σ.Of v'.history.intents ∧ τ.Of v'.history.intents ∧ σ.Before τ ∧
                σ.command = x.attempt.command ∧ τ.command = p.command) := by
  have sends := sends_of_line sent line
  have same : w.dispatcher.settings = settings := settings_run reached
  -- the link is up, and it was down before any news of it
  have news {steps : List Step} {w : World} (run : (start settings excluded).run steps = .ok w)
      (up : w.dispatcher.linkUp = true) : (steps.filterMap Step.link?).getLast? = some true := by
    rw [linkUp_run run] at up
    cases last : (steps.filterMap Step.link?).getLast? with
    | none => rw [last] at up; cases up
    | some up' => rw [last] at up; exact congrArg some up
  have orderly := orderly_run reached
  refine ⟨news reached sends.up, sends.sentAt, sends.flight, fun mid w₂ u w₃ y run silent sent' line' => ?_⟩
  have sends' := sends_of_line sent' line'
  obtain ⟨frame, stepped, -⟩ := step_eq_ok sent
  have orderly₁ := orderly.step stepped
  have whole : (start settings excluded).run (steps ++ .poll t :: mid) = .ok w₂ :=
    run_append_eq_ok.mpr ⟨w, reached, run_cons_eq_ok.mpr ⟨w₁, sent, run⟩⟩
  obtain ⟨keeps, lastSend⟩ := silent_run orderly₁ run silent
  obtain ⟨before, s, cause, ⟨after, v, split, ran, there, shown⟩, only⟩ :=
    ends_once orderly₁ sends.flight run silent sends'.free
  refine ⟨?_, news whole sends'.up, before, s, cause, ⟨after, v, split, ran, there, shown⟩, only,
    fun expired => ?_, fun superseded => ?_⟩
  · have paced := sends'.paced t (lastSend.trans sends.lastSend)
    rwa [settings_run whole] at paced
  · subst expired
    cases shown with
    | @expired now g due late =>
        refine ⟨now, rfl, ?_⟩
        have deadline := sends.deadline
        rw [same] at deadline
        rw [← deadline]
        exact late
  · subst superseded
    cases shown with
    | superseded submitted same =>
        rw [split] at run
        obtain ⟨v₀, ran', back⟩ := run_append_eq_ok.mp run
        cases ran.symm.trans ran'
        obtain ⟨v', first, -⟩ := run_cons_eq_ok.mp back
        exact ⟨v, v', ran, first, _, submitted, same,
          later_of_submits
            (run_append_eq_ok.mpr ⟨w, reached, run_cons_eq_ok.mpr ⟨w₁, sent, ran⟩⟩) there first submitted
            same⟩

/-- Two commands come in; the line of the first goes out and is answered, and the line of the second
goes out when the interval has passed.  It was the answer that ended the first attempt. -/
theorem one_at_a_time_of_answer :
    ∃ w w₁ x w₂ w₃ y, (start .standard []).run
        [.linkUp, .enqueue ⟨⟨1⟩, ⟨6⟩, .setLevel ⟨40⟩, .start⟩ .start,
          .enqueue ⟨⟨2⟩, ⟨7⟩, .off, .start⟩ .start] = .ok w ∧
      w.step (.poll .start) = .ok w₁ ∧ w₁.history.lines = w.history.lines ++ [x] ∧
      w₁.run [.frame [0x68, 0x2E] .start] = .ok w₂ ∧ w₂.history.lines = w₁.history.lines ∧
      w₂.step (.poll (.ofMillis 100)) = .ok w₃ ∧ w₃.history.lines = w₂.history.lines ++ [y] ∧
      ∃ before s cause, w₁.EndsAt x.attempt [.frame [0x68, 0x2E] .start] before s cause := by
  obtain ⟨w, reached, seen⟩ := exists_ok
    (x := (start .standard []).run
      [.linkUp, .enqueue ⟨⟨1⟩, ⟨6⟩, .setLevel ⟨40⟩, .start⟩ .start,
        .enqueue ⟨⟨2⟩, ⟨7⟩, .off, .start⟩ .start])
    (f := fun w => (w.history.lines.length, (w.step (.poll .start)).toOption.map fun w₁ =>
      (w₁.history.lines.length, (w₁.run [.frame [0x68, 0x2E] .start]).toOption.map fun w₂ =>
        (w₂.history.lines.length, (w₂.step (.poll (.ofMillis 100))).toOption.map fun w₃ =>
          w₃.history.lines.length))))
    (b := (0, some (1, some (1, some 2)))) (by decide +kernel)
  obtain ⟨none, seen⟩ := Prod.mk.inj seen
  obtain ⟨w₁, sent, seen⟩ := exists_ok seen
  obtain ⟨one, seen⟩ := Prod.mk.inj seen
  obtain ⟨w₂, run, seen⟩ := exists_ok seen
  obtain ⟨still, seen⟩ := Prod.mk.inj seen
  obtain ⟨w₃, sent', two⟩ := exists_ok seen
  have more {v v' : World} {s : Step} (step : v.step s = .ok v')
      (length : v'.history.lines.length = v.history.lines.length + 1) :
      ∃ x, v'.history.lines = v.history.lines ++ [x] := by
    obtain ⟨new, eq⟩ := lines_run (run_cons_eq_ok.mpr ⟨v', step, rfl⟩ : v.run [s] = .ok v')
    rw [← eq, List.length_append] at length
    obtain ⟨x, rfl⟩ := List.length_eq_one_iff.mp (by omega : new.length = 1)
    exact ⟨x, eq.symm⟩
  have silent := ((lines_run run).eq_of_length (one.trans still.symm)).symm
  obtain ⟨x, line⟩ := more sent (by rw [one, none])
  obtain ⟨y, line'⟩ := more sent' (by rw [two, still])
  obtain ⟨-, -, -, rest⟩ := one_at_a_time reached sent line
  obtain ⟨-, -, before, s, cause, shown, -⟩ := rest _ _ _ _ _ run silent sent' line'
  exact ⟨w, w₁, x, w₂, w₃, y, reached, sent, line, run, silent, sent', line', before, s, cause, shown⟩

end World

end Lighting
