import Lighting.Proofs.Dispatcher.History
import Lighting.Proofs.Dispatcher.Timetable

/-!
# Turns

Of all that a step may do, few things concern the commands: one is taken, a step of a ramp goes on
the line, a line goes out, an attempt ends for good, an attempt comes back.  The rest happens beside
them.  `turn` says that a step of a dispatcher with its timetable in order is one of these six, and
gives the dispatcher afterwards; what is proved of runs is proved for the six turns and carried along
the run.

### No task is out of date

An expired deadline is that of the attempt in flight, and a step that falls due is one of the running
ramp.  The dispatcher looks anyway, because a task might be left over from a command that has given
way; a timetable in order leaves no such task behind, and so none of these checks ever fails.
-/

namespace Lighting

namespace Dispatcher

/-! ## What happens beside the commands -/

/-- Nothing has happened to the commands: not to the line, the attempt, the ramps, or to what was
told of them. -/
structure Beside (d d' : Dispatcher) : Prop where
  inFlight : d'.inFlight = d.inFlight
  waiting : d'.waiting = d.waiting
  plans : d'.plans = d.plans
  excluded : d'.excluded = d.excluded
  settings : d'.settings = d.settings
  nonce : d'.nonce = d.nonce
  resolutions : d'.resolutions = d.resolutions
  /-- Identifiers are given out, and never taken back. -/
  nextId : d.nextId.number ≤ d'.nextId.number
  /-- The link goes down only while nothing is in flight. -/
  link : d'.linkUp = false → d.linkUp = false ∨ d.inFlight = none
  timely : d.Timely → d'.Timely
  upcoming : d.Timely → ∀ a, d'.upcoming a = d.upcoming a

namespace Beside

theorem refl (d : Dispatcher) : Beside d d :=
  ⟨rfl, rfl, rfl, rfl, rfl, rfl, rfl, Nat.le_refl _, Or.inl, id, fun _ _ => rfl⟩

theorem trans {d e f : Dispatcher} (h : Beside d e) (h' : Beside e f) : Beside d f where
  inFlight := h'.inFlight.trans h.inFlight
  waiting := h'.waiting.trans h.waiting
  plans := h'.plans.trans h.plans
  excluded := h'.excluded.trans h.excluded
  settings := h'.settings.trans h.settings
  nonce := h'.nonce.trans h.nonce
  resolutions := h'.resolutions.trans h.resolutions
  nextId := Nat.le_trans h.nextId h'.nextId
  link := fun down => by
    rcases h'.link down with down | idle
    · exact h.link down
    · exact Or.inr (h.inFlight.symm.trans idle)
  timely := h'.timely ∘ h.timely
  upcoming := fun timely a => (h'.upcoming (h.timely timely) a).trans (h.upcoming timely a)

/-- A change of what is known of the devices, and the news of it. -/
theorem record (d : Dispatcher) (r : Registry) (a : Address) (f : DeviceState → DeviceState) :
    Beside d (d.record (r.modify a f)) := by
  refine ⟨rfl, rfl, rfl, rfl, rfl, rfl, ?_, Nat.le_refl _, Or.inl,
    fun h => h.of_same rfl rfl rfl rfl, fun _ _ => rfl⟩
  show ((r.modify a f).2.toList ++ d.outbox).filterMap Event.resolution? = _
  unfold Registry.modify
  dsimp only
  split <;> rfl

theorem settleAt (d : Dispatcher) (a : Address) (deadline : Instant) :
    Beside d (d.settleAt a deadline) :=
  ⟨rfl, rfl, rfl, rfl, rfl, rfl, rfl, Nat.le_refl _, Or.inl, fun h => h.settleAt a deadline,
    fun h => h.upcoming_settleAt a deadline⟩

theorem unsettle (d : Dispatcher) (a : Address) : Beside d (d.unsettle a) := by
  have timely : d.Timely → (d.unsettle a).Timely := fun h => h.unsettle a
  have upcoming : d.Timely → ∀ b, (d.unsettle a).upcoming b = d.upcoming b :=
    fun h => h.upcoming_unsettle a
  unfold Dispatcher.unsettle at *
  split
  · exact ⟨rfl, rfl, rfl, rfl, rfl, rfl, rfl, Nat.le_refl _, Or.inl, by simpa [*] using timely,
      by simpa [*] using upcoming⟩
  · exact refl d

theorem of_same {d d' : Dispatcher} (inFlight : d'.inFlight = d.inFlight)
    (waiting : d'.waiting = d.waiting) (agenda : d'.agenda = d.agenda)
    (settling : d'.settling = d.settling) (plans : d'.plans = d.plans)
    (excluded : d'.excluded = d.excluded) (settings : d'.settings = d.settings)
    (nonce : d'.nonce = d.nonce) (resolutions : d'.resolutions = d.resolutions)
    (nextId : d.nextId.number ≤ d'.nextId.number)
    (link : d'.linkUp = false → d.linkUp = false ∨ d.inFlight = none) : Beside d d' :=
  ⟨inFlight, waiting, plans, excluded, settings, nonce, resolutions, nextId, link,
    fun h => h.of_same agenda inFlight settling plans,
    fun _ a => by rw [Dispatcher.upcoming, agenda]; rfl⟩

theorem settleAfter {d d' : Dispatcher} {a : Address} {now : Instant} {span : Duration}
    (h : d.settleAfter a now span = .ok d') : Beside d d' := by
  unfold Dispatcher.settleAfter at h
  split at h
  · cases h
    exact settleAt d a _
  · cases h

theorem onReport {d d' : Dispatcher} {now : Instant} {r : Packet.Report}
    (h : d.onReport now r = .ok d') : Beside d d' := by
  unfold Dispatcher.onReport at h
  split at h
  · cases h
    exact refl d
  · dsimp only at h
    split at h
    · cases h
      exact (record d _ _ _).trans (unsettle _ _)
    · exact (record d _ _ _).trans (settleAfter h)

theorem onReports {d d' : Dispatcher} {now : Instant} {rs : List Packet.Report}
    (h : onReports now rs d = .ok d') : Beside d d' := by
  induction rs generalizing d with
  | nil => cases h; exact refl _
  | cons r rs ih =>
      unfold Dispatcher.onReports at h
      cases first : d.onReport now r with
      | error stop => rw [first] at h; cases h
      | ok e =>
          rw [first] at h
          exact (onReport first).trans (ih h)

end Beside

/-! ## The six turns -/

/-- How a step ends the attempt in flight for good. -/
inductive Ending (d : Dispatcher) (a : Attempt) : Step → Outcome → Prop where
  /-- The interface has accepted it. -/
  | accepted {octets : List UInt8} {now : Instant} {c : Packet.Confirmation}
      (decoded : Packet.decode octets = .ok (.confirmation c)) (answer : a.key.matches c = true)
      (accepted : c.accepted = true) : Ending d a (.frame octets now) .confirmed
  /-- The interface has rejected it, and there is no further attempt. -/
  | rejected {octets : List UInt8} {now : Instant} {c : Packet.Confirmation}
      (decoded : Packet.decode octets = .ok (.confirmation c)) (answer : a.key.matches c = true)
      (rejected : c.accepted = false) (last : d.settings.retry.retries a.number = false) :
      Ending d a (.frame octets now) (.failed a.number)
  /-- Its time is up, and there is no further attempt. -/
  | expired {now : Instant} {g : Agenda Task} (due : d.agenda.popDue now = some (a.entry, g))
      (last : d.settings.retry.retries a.number = false) :
      Ending d a (.fire now) (.failed a.number)

/-- How a step brings the attempt in flight back to the head of the line, and how many attempts then
count. -/
inductive Return (d : Dispatcher) (a : Attempt) : Step → Nat → Prop where
  /-- The interface has rejected it. -/
  | rejected {octets : List UInt8} {now : Instant} {c : Packet.Confirmation}
      (decoded : Packet.decode octets = .ok (.confirmation c)) (answer : a.key.matches c = true)
      (rejected : c.accepted = false) (more : d.settings.retry.retries a.number = true) :
      Return d a (.frame octets now) a.number
  /-- Its time is up. -/
  | expired {now : Instant} {g : Agenda Task} (due : d.agenda.popDue now = some (a.entry, g))
      (more : d.settings.retry.retries a.number = true) : Return d a (.fire now) a.number
  /-- The link has gone down. -/
  | linkDown : Return d a .linkDown (a.number - 1)

/-- The attempt in flight ends, and its end is told. -/
def finish (d : Dispatcher) (a : Attempt) (outcome : Outcome) : Dispatcher :=
  (d.land a).tell (.resolved a.command.id a.command.address outcome)

/-- The attempt in flight comes back to the head of the line. -/
def putBack (d : Dispatcher) (a : Attempt) (attempts : Nat) : Dispatcher :=
  { d.land a with waiting := ⟨a.command, a.origin, attempts⟩ :: d.waiting }

/-- What a step does to a dispatcher: one of six things, and what happens beside. -/
inductive Turn (d : Dispatcher) : Step → Option (List UInt8) → Dispatcher → Prop where
  /-- Nothing that concerns the commands. -/
  | idle {s : Step} {d' : Dispatcher} (intent : d.intent? s = none) (submits : d.submits s = [])
      (rest : Beside d d') : Turn d s none d'
  /-- A command is taken. -/
  | take {c : Command} {now : Instant} (open? : d.excluded.get c.address = false) :
      Turn d (.enqueue c now) none (d.accept c now)
  /-- A step of a ramp goes on the line. -/
  | release {now : Instant} {e : Agenda.Entry Task} {g : Agenda Task} {number : Nat} {c : Command}
      {last : Bool} (due : d.agenda.popDue now = some (e, g))
      (task : e.task = .rampStep number c last) :
      Turn d (.fire now) none ((d.withdraw e c.address last).submit c (.rampStep number last))
  /-- A line goes out. -/
  | send {now deadline : Instant} {q : Queued} {rest : List Queued} (up : d.linkUp = true)
      (free : d.inFlight = none) (head : d.waiting = q :: rest) :
      Turn d (.poll now) (some (Packet.encode q.command d.nonce)) (d.launch now deadline q rest)
  /-- The attempt in flight ends for good. -/
  | finish {s : Step} {a : Attempt} {outcome : Outcome} {d' : Dispatcher}
      (flight : d.inFlight = some a) (ending : d.Ending a s outcome)
      (rest : Beside (d.finish a outcome) d') : Turn d s none d'
  /-- The attempt in flight comes back. -/
  | putBack {s : Step} {a : Attempt} {attempts : Nat} {d' : Dispatcher}
      (flight : d.inFlight = some a) (return? : d.Return a s attempts)
      (rest : Beside (d.putBack a attempts) d') : Turn d s none d'

theorem beside_retryOrFail (d : Dispatcher) (a : Attempt) :
    (d.settings.retry.retries a.number = true ∧
        (d.land a).retryOrFail a = d.putBack a a.number) ∨
      (d.settings.retry.retries a.number = false ∧
        Beside (d.finish a (.failed a.number)) ((d.land a).retryOrFail a)) := by
  cases more : d.settings.retry.retries a.number with
  | true =>
      refine Or.inl ⟨rfl, ?_⟩
      unfold retryOrFail
      rw [if_pos (show (d.land a).settings.retry.retries a.number = true from more)]
      rfl
  | false =>
      refine Or.inr ⟨rfl, ?_⟩
      unfold retryOrFail
      rw [if_neg (by rw [show (d.land a).settings = d.settings from rfl, more]; simp)]
      dsimp only
      split
      · exact Beside.record _ _ _ _
      · exact (Beside.record _ _ _ _).trans (Beside.record _ _ _ _)

theorem beside_onAccepted {d d' : Dispatcher} {a : Attempt} {now : Instant}
    (h : (d.land a).onAccepted a now = .ok d') : Beside (d.finish a .confirmed) d' := by
  unfold onAccepted at h
  dsimp only at h
  split at h
  · cases settled : (d.finish a .confirmed).settleAfter a.command.address now
      (busTime a.command.transition) with
    | error stop =>
        rw [show (d.land a).tell _ = d.finish a .confirmed from rfl, settled] at h
        cases h
    | ok e =>
        rw [show (d.land a).tell _ = d.finish a .confirmed from rfl, settled] at h
        cases h
        exact (Beside.settleAfter settled).trans (Beside.record _ _ _ _)
  · split at h
    · cases h
      exact Beside.record _ _ _ _
    · cases h
      exact (Beside.unsettle _ _).trans (Beside.record _ _ _ _)

theorem turn_linkDown (d : Dispatcher) : d.Turn .linkDown none d.onLinkDown := by
  unfold onLinkDown
  split
  · dsimp only
    cases flight : d.inFlight with
    | none =>
        exact .idle rfl rfl (Beside.of_same flight.symm rfl rfl rfl rfl rfl rfl rfl rfl
          (Nat.le_refl _) fun _ => Or.inr flight)
    | some a =>
        exact .putBack flight .linkDown (Beside.of_same rfl rfl rfl rfl rfl rfl rfl rfl rfl
          (Nat.le_refl _) fun _ => Or.inr rfl)
  · exact .idle rfl rfl (Beside.refl d)

theorem turn_confirmation {d d' : Dispatcher} {now : Instant} {octets : List UInt8}
    {c : Packet.Confirmation} (decoded : Packet.decode octets = .ok (.confirmation c))
    (h : d.onConfirmation c now = .ok d') : d.Turn (.frame octets now) none d' := by
  unfold onConfirmation at h
  split at h
  · cases h
    exact .idle rfl rfl (Beside.refl d)
  · rename_i a flight
    split at h
    · rename_i answer
      have h : (if c.accepted then (d.land a).onAccepted a now
          else .ok ((d.land a).retryOrFail a)) = .ok d' := h
      split at h
      · rename_i accepted
        exact .finish flight (.accepted decoded answer accepted) (beside_onAccepted h)
      · rename_i rejected
        cases h
        rcases d.beside_retryOrFail a with ⟨more, eq⟩ | ⟨last, rest⟩
        · rw [eq]
          exact .putBack flight (.rejected decoded answer (Bool.eq_false_iff.mpr rejected) more)
            (Beside.refl _)
        · exact .finish flight (.rejected decoded answer (Bool.eq_false_iff.mpr rejected) last) rest
    · cases h
      exact .idle rfl rfl (Beside.refl d)

theorem turn_frame {d d' : Dispatcher} {now : Instant} {octets : List UInt8}
    (h : d.onFrame now octets = .ok d') : d.Turn (.frame octets now) none d' := by
  unfold onFrame at h
  split at h
  · rename_i c decoded
    exact turn_confirmation decoded h
  · exact .idle rfl rfl (Beside.onReports h)
  · cases h
    exact .idle rfl rfl (Beside.refl d)
  · cases h
  · cases h
    exact .idle rfl rfl (Beside.refl d)

theorem turn_fire {d : Dispatcher} (timely : d.Timely) (now : Instant) :
    d.Turn (.fire now) none (d.fireNext now) := by
  unfold fireNext
  cases due : d.agenda.popDue now with
  | none => exact .idle rfl (by simp [submits, due]) (Beside.refl d)
  | some p =>
      obtain ⟨e, g⟩ := p
      obtain ⟨he, rfl, -⟩ := timely.ordered.popDue_eq_some due
      show d.Turn (.fire now) none (({ d with agenda := d.agenda.erase e.token } : Dispatcher).fire e)
      have quiet (h : ∀ number c last, e.task ≠ .rampStep number c last) :
          d.submits (.fire now) = [] := by
        simp only [submits, due, Dispatcher.due]
      unfold fire
      split
      · rename_i id attempt task
        obtain ⟨a, flight, rfl⟩ := timely.awaits.owned e he id attempt task
        cases task
        have eq : ({ d with agenda := d.agenda.erase a.entry.token } : Dispatcher).onTimeout
            a.command.id a.number = (d.land a).retryOrFail a := by
          simp only [onTimeout, flight, and_self, if_true]
          rfl
        rw [eq]
        rcases d.beside_retryOrFail a with ⟨more, eq⟩ | ⟨last, rest⟩
        · rw [eq]
          exact .putBack flight (.expired due more) (Beside.refl _)
        · exact .finish flight (.expired due last) rest
      · rename_i number c last task
        obtain ⟨plan, running, same, -⟩ := timely.step_due due task
        have eq : ({ d with agenda := d.agenda.erase e.token } : Dispatcher).onRampStep number c
            last = (d.withdraw e c.address last).submit c (.rampStep number last) := by
          simp only [onRampStep, running, same, if_true]
          cases last <;> rfl
        rw [eq]
        exact .release due task
      · rename_i a task
        have known := timely.settles.owned e he a task
        have eq : ({ d with agenda := d.agenda.erase e.token } : Dispatcher).onSettled e.token a =
            (d.unsettle a).record ((d.unsettle a).registry.setRamp a false) := by
          simp only [onSettled, unsettle, known, if_true]
          rfl
        rw [eq]
        exact .idle rfl (quiet fun number c last h => by rw [task] at h; cases h)
          ((Beside.unsettle d a).trans (Beside.record _ _ _ _))

/-- **A step is one of the six turns.** -/
theorem turn {d d' : Dispatcher} {s : Step} {frame : Option (List UInt8)} (timely : d.Timely)
    (h : d.step s = .ok (frame, d')) : d.Turn s frame d' := by
  cases s with
  | issue =>
      cases h
      exact .idle rfl rfl (Beside.of_same rfl rfl rfl rfl rfl rfl rfl rfl rfl (Nat.le_succ _) Or.inl)
  | enqueue c now =>
      cases h
      unfold enqueue
      cases excluded : d.excluded.get c.address with
      | true => exact .idle (by simp [intent?, excluded]) (by simp [submits, excluded]) (Beside.refl d)
      | false => exact .take excluded
  | linkUp =>
      cases h
      unfold onLinkUp
      split
      · exact .idle rfl rfl (Beside.refl d)
      · exact .idle rfl rfl
          (Beside.of_same rfl rfl rfl rfl rfl rfl rfl rfl rfl (Nat.le_refl _) nofun)
  | linkDown =>
      cases h
      exact turn_linkDown d
  | buffer rest =>
      cases h
      exact .idle rfl rfl (Beside.of_same rfl rfl rfl rfl rfl rfl rfl rfl rfl (Nat.le_refl _) Or.inl)
  | frame octets now =>
      simp only [step] at h
      cases came : d.onFrame now octets with
      | error stop => rw [came] at h; cases h
      | ok e =>
          rw [came] at h
          cases h
          exact turn_frame came
  | fire now =>
      cases h
      exact turn_fire timely now
  | poll now =>
      rcases pollTransmit_eq_ok h with ⟨rfl, rfl⟩ | ⟨line, q, rest, rfl, up, free, head, sent⟩
      · exact .idle rfl rfl (Beside.refl _)
      · obtain ⟨rfl, deadline, -, rfl⟩ := transmit_eq_ok sent
        exact .send up free head

end Dispatcher

end Lighting
