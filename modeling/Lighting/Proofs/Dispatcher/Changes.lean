import Mathlib.Logic.Relation
import Lighting.Proofs.Dispatcher.Provenance
import Lighting.Proofs.Registry

/-!
# What a step is made of

An operation of a dispatcher is long, but what it is made of is not: an update of the registry and its
event, the end of a command, another line of waiting commands, an entry made or struck.  `Change`
lists these; and every operation is a row of them (`Changes`), also one that stops halfway.

### The course of a step

`course` says what a whole step comes to.  It is a row of changes; or the link turns, after changes
and with its own event; or a line goes out.  Whatever can be read off the single changes, what they
leave alone or how far they may go, is so carried to every step without opening an operation again.
-/

namespace Lighting

namespace Dispatcher

/-- The smallest changes of a dispatcher. -/
inductive Change (d : Dispatcher) : Dispatcher → Prop where
  /-- What is known of a device is updated, and it is told if it shows. -/
  | record (u : Registry.Update) : Change d (d.record (d.registry.update u))
  /-- A command has ended. -/
  | resolve (id : CommandId) (a : Address) (outcome : Outcome) :
      Change d (d.tell (.resolved id a outcome))
  /-- Other commands wait, or in another order. -/
  | queue (waiting : List Queued) : Change d { d with waiting }
  /-- Nothing is in flight any more. -/
  | ground : Change d { d with inFlight := none }
  /-- Entries are gone from the agenda. -/
  | cross {g : Agenda Task} (fewer : ∀ e ∈ g.entries, e ∈ d.agenda.entries)
      (next : g.next = d.agenda.next) : Change d { d with agenda := g }
  /-- The stepped ramp of an address is over. -/
  | unplan (a : Address) : Change d { d with plans := d.plans.set a none }
  /-- A row of parts is laid out. -/
  | install (c : Command) (ps : List Part) : Change d (d.install c ps)
  /-- No end of a ramp of the bus units is awaited for an address. -/
  | unsettle (a : Address) : Change d { d with settling := d.settling.set a none }
  /-- The end of a ramp of the bus units is entered. -/
  | settle (a : Address) (deadline : Instant) : Change d (d.settleAt a deadline)
  /-- Numbers are used up, and octets are put aside. -/
  | count (nextId : CommandId) (nonce : UInt64) (buffer : List UInt8) :
      Change d { d with nextId, nonce, buffer }

/-- Rows of changes. -/
abbrev Changes : Dispatcher → Dispatcher → Prop := Relation.ReflTransGen Change

theorem Change.strike (d : Dispatcher) (t : Agenda.Token) : Change d (d.strike t) :=
  .cross (fun _ he => (Agenda.mem_entries_erase.mp he).1) rfl

namespace Changes

variable {d d' : Dispatcher}

theorem record (d : Dispatcher) (u : Registry.Update) : Changes d (d.record (d.registry.update u)) :=
  .single (.record u)

theorem land (d : Dispatcher) (a : Attempt) : Changes d (d.land a) :=
  .tail (.single .ground) (.strike _ a.timer)

theorem submit (d : Dispatcher) (c : Command) (origin : Origin) : Changes d (d.submit c origin) := by
  rcases submit_cases d c origin with ⟨_, _, _, -, -, -, eq⟩ | ⟨a, -, -, eq⟩ | ⟨-, eq⟩
  · rw [eq]
    exact .tail (.single (.queue _)) (.resolve _ _ _)
  · rw [eq]
    exact .tail (.tail (land d a) (.queue _)) (.resolve _ _ _)
  · rw [eq]
    exact .single (.queue _)

theorem submitAll (d : Dispatcher) (ps : List Part) : Changes d (d.submitAll ps) := by
  induction ps generalizing d with
  | nil => exact .refl
  | cons p ps ih => exact (submit d p.command p.origin).trans (ih _)

theorem unsettle (d : Dispatcher) (a : Address) : Changes d (d.unsettle a) := by
  unfold Dispatcher.unsettle
  split
  · exact .tail (.single (.unsettle a)) (.strike _ _)
  · exact .refl

theorem settleAfter (d : Dispatcher) (a : Address) (now : Instant) (span : Duration) :
    Changes d (left (d.settleAfter a now span)) := by
  unfold Dispatcher.settleAfter
  split
  · exact .single (.settle a _)
  · exact .refl

/-! ## Taking commands -/

theorem cancelPlan (d : Dispatcher) (a : Address) (successor : CommandId) :
    Changes d (d.cancelPlan a successor) := by
  unfold Dispatcher.cancelPlan
  split
  · exact .refl
  · rename_i plan running
    have struck : Change { d with plans := d.plans.set a none }
        { d with plans := d.plans.set a none, agenda := d.agenda.eraseAll plan.timers } :=
      .cross (fun _ he => (Agenda.mem_entries_eraseAll.mp he).1) (Agenda.next_eraseAll _ _)
    exact .tail (.tail (.single (.unplan a)) struck) (.resolve _ _ _)

theorem enqueue (d : Dispatcher) (c : Command) (now : Instant) : Changes d (d.enqueue c now) := by
  unfold Dispatcher.enqueue
  split
  · exact .refl
  · have room : Changes d (d.makeRoom c) :=
      (cancelPlan d c.address c.id).tail (.record (.aim c.address c.target c.transition))
    have laid : Changes d (d.lay c now) := by
      unfold lay
      split
      · exact room.tail (.install c _)
      · exact room
    rw [accept_eq]
    exact laid.trans (submitAll _ _)

/-! ## What comes in and what falls due -/

theorem retryOrFail (d : Dispatcher) (a : Attempt) : Changes d (d.retryOrFail a) := by
  unfold Dispatcher.retryOrFail
  split
  · exact .single (.queue _)
  · have failed : Changes d ((d.tell (.resolved a.command.id a.command.address
        (.failed a.number))).record (d.registry.assume a.command.address a.command.target)) :=
      .tail (.single (.resolve _ _ _)) (.record (.assume _ _))
    dsimp only
    split
    · exact failed
    · exact failed.tail (.record (.setRamp _ false))

theorem onAccepted (d : Dispatcher) (a : Attempt) (now : Instant) :
    Changes d (left (d.onAccepted a now)) := by
  have told : Changes d (d.tell (.resolved a.command.id a.command.address .confirmed)) :=
    .single (.resolve _ _ _)
  unfold Dispatcher.onAccepted
  dsimp only
  split
  · have settled := told.trans (settleAfter _ a.command.address now (busTime a.command.transition))
    generalize (d.tell _).settleAfter _ _ _ = out at settled
    cases out with
    | error stop => exact settled
    | ok e => exact settled.tail (.record (.confirmRamp _ _ true))
  · split
    · exact told.tail (.record (.confirmRamp _ _ true))
    · exact (told.trans (unsettle _ _)).tail (.record (.confirmRamp _ _ false))

theorem onConfirmation (d : Dispatcher) (c : Packet.Confirmation) (now : Instant) :
    Changes d (left (d.onConfirmation c now)) := by
  unfold Dispatcher.onConfirmation
  split
  · exact .refl
  · rename_i a flight
    split
    · split
      · exact (land d a).trans (onAccepted _ a now)
      · exact (land d a).trans (retryOrFail _ a)
    · exact .refl

theorem onReport (d : Dispatcher) (now : Instant) (r : Packet.Report) :
    Changes d (left (d.onReport now r)) := by
  unfold Dispatcher.onReport
  split
  · exact .refl
  · have recorded := record d (.report r.address r.level r.transition r.source)
    dsimp only
    split
    · exact recorded.trans (unsettle _ _)
    · exact recorded.trans (settleAfter _ _ _ _)

theorem onReports (now : Instant) (rs : List Packet.Report) (d : Dispatcher) :
    Changes d (left (onReports now rs d)) := by
  induction rs generalizing d with
  | nil => exact .refl
  | cons r rs ih =>
      have first := onReport d now r
      unfold Dispatcher.onReports
      cases out : d.onReport now r with
      | error stop => rwa [out] at first
      | ok e =>
          rw [out] at first
          exact first.trans (ih e)

theorem onFrame (d : Dispatcher) (now : Instant) (octets : List UInt8) :
    Changes d (left (d.onFrame now octets)) := by
  unfold Dispatcher.onFrame
  split
  · exact onConfirmation d _ now
  · exact onReports now _ d
  · exact .refl
  · exact .refl
  · exact .refl

theorem fire (d : Dispatcher) (e : Agenda.Entry Task) : Changes d (d.fire e) := by
  unfold Dispatcher.fire
  split
  · unfold onTimeout
    split
    · exact .refl
    · split
      · exact .head .ground (retryOrFail _ _)
      · exact .refl
  · rename_i number c last task
    unfold onRampStep
    split
    · exact .refl
    · split
      · cases last with
        | true => exact .head (.unplan c.address) (submit _ c _)
        | false => exact submit d c _
      · exact .refl
  · unfold onSettled
    split
    · exact .tail (.single (.unsettle _)) (.record (.setRamp _ false))
    · exact .refl

theorem fireNext (d : Dispatcher) (now : Instant) : Changes d (d.fireNext now) := by
  unfold Dispatcher.fireNext
  split
  · exact .refl
  · rename_i e g due
    obtain ⟨entries, next, -⟩ := Agenda.popDue_eq_some_iff.mp due
    have taken : Change d { d with agenda := g } :=
      .cross (fun x hx => entries ▸ List.mem_cons_of_mem e hx) next
    exact .head taken (fire _ e)

end Changes
/-! ## The course of a step -/

/-- What a step says of the link. -/
def Step.link? : Step → Option Bool
  | .linkUp => some true
  | .linkDown => some false
  | _ => none

variable {d d' : Dispatcher}

/-- What a whole step comes to. -/
inductive Course (d : Dispatcher) : Step → Dispatcher → Prop where
  /-- A row of changes, and no news of the link. -/
  | quiet {s : Step} {d' : Dispatcher} (known : ∀ up, s.link? = some up → d.linkUp = up)
      (changes : Changes d d') : Course d s d'
  /-- The link goes up or down, and it is told. -/
  | turn {s : Step} {e : Dispatcher} {up : Bool} (news : s.link? = some up)
      (other : d.linkUp = !up) (changes : Changes d e) :
      Course d s (({ e with linkUp := up } : Dispatcher).tell (.linkChanged up))
  /-- A line goes out. -/
  | launch {now deadline : Instant} {q : Queued} {rest : List Queued} {line : List UInt8}
      (sent : d.step (.poll now) = .ok (some line, d.launch now deadline q rest))
      (reach : now.add? (d.settings.retry.timeoutFor (q.attempts + 1)) = some deadline) :
      Course d (.poll now) (d.launch now deadline q rest)

/-- What is left where sending has stopped: the dispatcher, or the one without the command it could
not send. -/
theorem pollTransmit_eq_error {now : Instant} {stop : Stop} (h : d.pollTransmit now = .error stop) :
    stop.dispatcher = d ∨ ∃ rest, stop.dispatcher = { d with waiting := rest, nonce := d.nonce + 1 } := by
  unfold pollTransmit at h
  split at h
  · cases h
  · cases paced : d.pacedUntil with
    | error stop' =>
        rw [paced] at h
        cases h
        unfold pacedUntil at paced
        split at paced
        · cases paced
        · split at paced <;> cases paced
          exact Or.inl rfl
    | ok until? =>
        simp only [paced] at h
        split at h
        · cases h
        · cases head : d.waiting with
          | nil => rw [head] at h; cases h
          | cons q rest =>
              simp only [head, transmit] at h
              cases reach : now.add? (d.settings.retry.timeoutFor (q.attempts + 1)) with
              | none =>
                  rw [reach] at h
                  cases h
                  exact Or.inr ⟨rest, rfl⟩
              | some deadline => rw [reach] at h; cases h

theorem course_linkDown (d : Dispatcher) : d.Course .linkDown d.onLinkDown := by
  unfold onLinkDown
  split
  · rename_i up
    dsimp only
    split
    · rename_i a flight
      have back : Changes d ({ d.land a with
          waiting := ⟨a.command, a.origin, a.number - 1⟩ :: d.waiting
          buffer := [] } : Dispatcher) :=
        ((Changes.land d a).tail (.queue (⟨a.command, a.origin, a.number - 1⟩ :: d.waiting))).tail
          (.count d.nextId d.nonce [])
      exact .turn rfl up back
    · exact .turn rfl up (.single (.count d.nextId d.nonce []))
  · rename_i down
    refine .quiet (fun up news => ?_) .refl
    cases news
    exact Bool.eq_false_iff.mpr down

theorem course_linkUp (d : Dispatcher) : d.Course .linkUp d.onLinkUp := by
  unfold onLinkUp
  split
  · rename_i up
    refine .quiet (fun up' news => ?_) .refl
    cases news
    exact up
  · rename_i down
    exact .turn rfl (Bool.eq_false_iff.mpr down) .refl

theorem course_poll (d : Dispatcher) (now : Instant) : d.Course (.poll now) (d.after (.poll now)) := by
  unfold after
  cases out : d.step (.poll now) with
  | error stop =>
      show d.Course _ stop.dispatcher
      rcases pollTransmit_eq_error out with same | ⟨rest, same⟩
      · exact .quiet nofun (same ▸ .refl)
      · rw [same]
        exact .quiet nofun (.tail (.single (.queue rest)) (.count d.nextId (d.nonce + 1) d.buffer))
  | ok r =>
      obtain ⟨frame, d'⟩ := r
      rcases pollTransmit_eq_ok out with ⟨rfl, rfl⟩ | ⟨line, q, rest, rfl, -, -, -, sent⟩
      · exact .quiet nofun .refl
      · obtain ⟨-, deadline, reach, rfl⟩ := transmit_eq_ok sent
        exact .launch out reach

theorem after_frame (d : Dispatcher) (octets : List UInt8) (now : Instant) :
    d.after (.frame octets now) = left (d.onFrame now octets) := by
  show left (((d.onFrame now octets).map _).map _) = _
  cases d.onFrame now octets <;> rfl

/-- **A step is a row of changes, a turn of the link, or a line going out.** -/
theorem course (d : Dispatcher) (s : Step) : d.Course s (d.after s) := by
  cases s with
  | issue => exact .quiet nofun (.single (.count d.nextId.next d.nonce d.buffer))
  | enqueue c now => exact .quiet nofun (.enqueue d c now)
  | linkUp => exact course_linkUp d
  | linkDown => exact course_linkDown d
  | buffer rest => exact .quiet nofun (.single (.count d.nextId d.nonce rest))
  | frame octets now => exact .quiet nofun (after_frame d octets now ▸ .onFrame d now octets)
  | fire now => exact .quiet nofun (.fireNext d now)
  | poll now => exact course_poll d now

/-! ## What changes leave alone -/

/-- No change concerns the link, the pacing or the settings. -/
structure Fixed (d d' : Dispatcher) : Prop where
  linkUp : d'.linkUp = d.linkUp
  lastSend : d'.lastSend = d.lastSend
  settings : d'.settings = d.settings

theorem Change.fixed (h : Change d d') : Fixed d d' := by
  cases h <;> exact ⟨rfl, rfl, rfl⟩

theorem Changes.fixed (h : Changes d d') : Fixed d d' := by
  induction h with
  | refl => exact ⟨rfl, rfl, rfl⟩
  | tail _ change ih =>
      have last := change.fixed
      exact ⟨last.linkUp.trans ih.linkUp, last.lastSend.trans ih.lastSend,
        last.settings.trans ih.settings⟩

/-- After a step the link is as the step says, or as it was. -/
theorem Course.linkUp {s : Step} (h : d.Course s d') : d'.linkUp = s.link?.getD d.linkUp := by
  cases h with
  | quiet known changes =>
      rw [changes.fixed.linkUp]
      cases news : s.link? with
      | none => rfl
      | some up => exact known up news
  | turn news other changes =>
      rw [news]
      rfl
  | launch sent reach => rfl

theorem Course.settings {s : Step} (h : d.Course s d') : d'.settings = d.settings := by
  cases h with
  | quiet known changes => exact changes.fixed.settings
  | turn news other changes => exact changes.fixed.settings
  | launch sent reach => rfl

end Dispatcher

end Lighting
