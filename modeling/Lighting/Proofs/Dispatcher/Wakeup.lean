import Lighting.Dispatcher.Serve
import Lighting.Proofs.Agenda
import Lighting.Proofs.Dispatcher.Line
import Lighting.Proofs.Dispatcher.Step

/-!
# Waking up

Whoever serves a dispatcher does what is due, asks for a line, and then sleeps until the moment the
dispatcher names.  `Exact` says that this moment is right: if nothing comes from outside, there is
nothing to do before it, and something to do at it; and where there is no such moment, there is never
anything to do.

### Why the loop leaves nothing due

The agenda is emptied of what is due in as many rounds as it has entries.  That is enough because a
task makes no new entry (`size_fire_le`), so that each round leaves one entry less.

### Two clocks in one

A moment to wake up comes from the agenda or from the pacing.  The pacing counts only while a command
could go out but for it (`isReady`), which is when asking for a line gets as far as the pacing.
-/

namespace Lighting.Dispatcher

variable {d : Dispatcher}

/-! ## What is due is done -/

theorem size_submit_le (d : Dispatcher) (c : Command) (origin : Origin) :
    (d.submit c origin).agenda.size ≤ d.agenda.size := by
  have size {e : Dispatcher} (eq : d.submit c origin = e) :
      (d.submit c origin).agenda.size ≤ e.agenda.size := Nat.le_of_eq (by rw [eq])
  rcases submit_cases d c origin with ⟨_, _, _, -, -, -, eq⟩ | ⟨a, -, -, eq⟩ | ⟨-, eq⟩
  · exact Nat.le_trans (size eq) (Nat.le_refl _)
  · exact Nat.le_trans (size eq) (Agenda.size_erase_le _ _)
  · exact Nat.le_trans (size eq) (Nat.le_refl _)

/-- A task makes no new entry. -/
theorem size_fire_le (d : Dispatcher) (e : Agenda.Entry Task) :
    (d.fire e).agenda.size ≤ d.agenda.size := by
  unfold fire
  split
  · unfold onTimeout
    split
    · exact Nat.le_refl _
    · split
      · exact Nat.le_of_eq (congrArg Agenda.size (retryOrFail_apart _ _).2)
      · exact Nat.le_refl _
  · unfold onRampStep
    split
    · exact Nat.le_refl _
    · split
      · refine Nat.le_trans (size_submit_le _ _ _) ?_
        split <;> exact Nat.le_refl _
      · exact Nat.le_refl _
  · unfold onSettled
    split <;> exact Nat.le_refl _

/-- As many rounds as there are entries leave nothing due. -/
theorem popDue_expireUpTo {fuel : Nat} (enough : d.agenda.size ≤ fuel) (now : Instant) :
    (expireUpTo fuel d now).agenda.popDue now = none := by
  induction fuel generalizing d with
  | zero =>
      have none : d.agenda.entries = [] := List.eq_nil_of_length_eq_zero (Nat.le_zero.mp enough)
      simp [expireUpTo, Agenda.popDue, none]
  | succ fuel ih =>
      unfold expireUpTo
      split
      · rename_i nothing
        exact nothing
      · rename_i e g due
        obtain ⟨entries, -, -⟩ := Agenda.popDue_eq_some_iff.mp due
        refine ih (Nat.le_trans (size_fire_le _ e) ?_)
        rw [Agenda.size, entries, List.length_cons] at enough
        exact Nat.le_of_succ_le_succ enough

theorem popDue_expire (d : Dispatcher) (now : Instant) : (d.expire now).agenda.popDue now = none :=
  popDue_expireUpTo (Nat.le_refl _) now

/-- Where nothing is due nothing is done. -/
theorem expire_of_early {t : Instant} (early : d.agenda.popDue t = none) : d.expire t = d := by
  unfold expire
  cases d.agenda.size <;> simp [expireUpTo, early]

/-! ## Asking for a line -/

/-- A command could go out but for the pacing. -/
def isReady (d : Dispatcher) : Bool := d.linkUp && d.inFlight.isNone && !d.waiting.isEmpty

theorem isReady_iff : d.isReady = true ↔
    d.linkUp = true ∧ d.inFlight = none ∧ ∃ q rest, d.waiting = q :: rest := by
  unfold isReady
  cases d.waiting <;> simp

/-- Where no command could go out none does. -/
theorem pollTransmit_of_not_ready {until? : Option Instant} (closed : d.isReady = false)
    (paced : d.pacedUntil = .ok until?) (t : Instant) : d.pollTransmit t = .ok (none, d) := by
  unfold pollTransmit
  split
  · rfl
  · rename_i open?
    rw [paced]
    dsimp only
    split
    · rfl
    · cases head : d.waiting with
      | nil => rfl
      | cons q rest =>
          simp only [Bool.not_eq_true, Bool.or_eq_false_iff, Bool.not_eq_false',
            Option.isSome_eq_false_iff, Option.isNone_iff_eq_none] at open?
          rw [isReady_iff.mpr ⟨open?.1, open?.2, q, rest, head⟩] at closed
          cases closed

/-- Before the interval has passed no line goes out. -/
theorem pollTransmit_of_early {reopens : Instant} (paced : d.pacedUntil = .ok (some reopens))
    {t : Instant} (early : t < reopens) : d.pollTransmit t = .ok (none, d) := by
  unfold pollTransmit
  split
  · rfl
  · rw [paced]
    simp [early]

/-- Once it has passed, the head of the line is to be sent. -/
theorem pollTransmit_of_passed {q : Queued} {rest : List Queued} {until? : Option Instant}
    (up : d.linkUp = true) (free : d.inFlight = none) (head : d.waiting = q :: rest)
    (paced : d.pacedUntil = .ok until?) {t : Instant} (late : ∀ u, until? = some u → u ≤ t) :
    d.pollTransmit t = (d.transmit t q rest).map fun (frame, d) => (some frame, d) := by
  have passed : until?.any (t < ·) = false := by
    cases until? with
    | none => rfl
    | some u => exact decide_eq_false (Nat.not_lt.mpr (late u rfl))
  unfold pollTransmit
  rw [if_neg (by simp [up, free]), paced]
  dsimp only
  rw [if_neg (by simp [passed]), head]

/-- If the clock holds the moment it is given up, it goes out. -/
theorem pollTransmit_of_late {q : Queued} {rest : List Queued} {until? : Option Instant}
    (up : d.linkUp = true) (free : d.inFlight = none) (head : d.waiting = q :: rest)
    (paced : d.pacedUntil = .ok until?) {t deadline : Instant} (late : ∀ u, until? = some u → u ≤ t)
    (reach : t.add? (d.settings.retry.timeoutFor (q.attempts + 1)) = some deadline) :
    d.pollTransmit t = .ok (some (Packet.encode q.command d.nonce), d.launch t deadline q rest) := by
  rw [pollTransmit_of_passed up free head paced late, transmit, reach]
  rfl

/-! ## The moment to wake up -/

/-- The clock holds the deadlines of the commands that wait, if they are sent at this moment. -/
def Fits (d : Dispatcher) (t : Instant) : Prop :=
  ∀ q ∈ d.waiting, (t.add? (d.settings.retry.timeoutFor (q.attempts + 1))).isSome

instance (d : Dispatcher) (t : Instant) : Decidable (d.Fits t) :=
  inferInstanceAs (Decidable (∀ q ∈ d.waiting, _))

/-- The clock holds the moments that sending reckons with. -/
structure OnClock (d : Dispatcher) (now : Instant) : Prop where
  /-- What waits may be sent now. -/
  now : d.Fits now
  /-- What waits may be sent when the interval since the last line has passed. -/
  paced : ∀ last, d.lastSend = some last →
    ∃ t, last.add? d.settings.sendInterval = some t ∧ d.Fits t

/-- A moment to wake up is right, seen from now: before it there is nothing to do, at it there is. -/
structure Exact (d : Dispatcher) (now : Instant) (wake : Option Instant) : Prop where
  /-- Before the moment, and for ever if there is none, no task is done and no line goes out. -/
  idle : ∀ t, now ≤ t → (∀ u, wake = some u → t < u) →
    d.agenda.popDue t = none ∧ d.expire t = d ∧ d.pollTransmit t = .ok (none, d)
  /-- The moment does not lie in the past. -/
  ahead : ∀ u, wake = some u → now ≤ u
  /-- At the moment a task is due or a line goes out. -/
  due : ∀ u, wake = some u →
    (d.agenda.popDue u).isSome ∨ ∃ line d', d.pollTransmit u = .ok (some line, d')

/-- The pacing names a moment, or none if no line was sent yet. -/
theorem OnClock.pacedUntil_eq {now : Instant} (h : d.OnClock now) :
    ∃ until?, d.pacedUntil = .ok until? ∧ ∀ t, until? = some t → d.Fits t := by
  unfold pacedUntil
  cases before : d.lastSend with
  | none => exact ⟨none, rfl, nofun⟩
  | some last =>
      obtain ⟨t, reach, fits⟩ := h.paced last before
      exact ⟨some t, by simp only [reach], fun u same => Option.some.inj same ▸ fits⟩

theorem nextWakeup_of_not_ready (closed : d.isReady = false) :
    d.nextWakeup = .ok d.agenda.nextDeadline := by
  unfold nextWakeup
  rw [show (d.linkUp && d.inFlight.isNone && !d.waiting.isEmpty) = d.isReady from rfl, closed]
  rfl

/-- While no command could go out the agenda alone decides. -/
theorem exact_of_not_ready {now : Instant} (closed : ∀ t, d.pollTransmit t = .ok (none, d))
    (ahead : ∀ t, d.agenda.nextDeadline = some t → now ≤ t) : d.Exact now d.agenda.nextDeadline where
  idle := fun t _ early =>
    have none := Agenda.popDue_eq_none_iff.mpr early
    ⟨none, expire_of_early none, closed t⟩
  ahead := ahead
  due := fun _ wake => Or.inl (Agenda.isSome_popDue wake)

/-- Where a line waits for the pacing alone, the earlier of the two moments is right. -/
theorem exact_of_paced {now reopens u : Instant} (paced : d.pacedUntil = .ok (some reopens))
    (sends : ∃ line d', d.pollTransmit reopens = .ok (some line, d')) (ahead : now ≤ u)
    (pacing : u ≤ reopens) (agenda : ∀ t, d.agenda.nextDeadline = some t → u ≤ t)
    (due : d.agenda.nextDeadline = some u ∨ u = reopens) : d.Exact now (some u) where
  idle := fun t _ early => by
    have early := early u rfl
    have nothing : d.agenda.popDue t = none := Agenda.popDue_eq_none_iff.mpr fun t' next =>
      Nat.lt_of_lt_of_le early (agenda t' next)
    exact ⟨nothing, expire_of_early nothing,
      pollTransmit_of_early paced (Nat.lt_of_lt_of_le early pacing)⟩
  ahead := fun u' same => by
    cases same
    exact ahead
  due := fun u' same => by
    cases same
    rcases due with next | rfl
    · exact Or.inl (Agenda.isSome_popDue next)
    · exact Or.inr sends

/-- While a command waits for the pacing alone, the agenda or the pacing decides, whichever is
earlier. -/
theorem exact_of_ready {now reopens : Instant} (ready : d.isReady = true)
    (paced : d.pacedUntil = .ok (some reopens)) (early : now < reopens) (fits : d.Fits reopens)
    (done : d.agenda.popDue now = none) :
    ∃ u, d.nextWakeup = .ok (some u) ∧ d.Exact now (some u) := by
  obtain ⟨up, free, q, rest, head⟩ := isReady_iff.mp ready
  have ahead := Agenda.popDue_eq_none_iff.mp done
  -- the line that waits for the pacing goes out when the interval has passed
  have sends : ∃ line d', d.pollTransmit reopens = .ok (some line, d') := by
    obtain ⟨deadline, reach⟩ := Option.isSome_iff_exists.mp
      (fits q (by rw [head]; exact List.mem_cons_self))
    exact ⟨_, _, pollTransmit_of_late up free head paced (fun u h => by cases h; exact Nat.le_refl _)
      reach⟩
  have asks : (d.linkUp && d.inFlight.isNone && !d.waiting.isEmpty) = true := ready
  cases next : d.agenda.nextDeadline with
  | none =>
      have wake : d.nextWakeup = .ok (some reopens) := by
        simp only [nextWakeup, asks, if_true, paced, next]
        rfl
      exact ⟨reopens, wake, exact_of_paced paced sends (Nat.le_of_lt early) (Nat.le_refl _)
        (fun t h => by rw [next] at h; cases h) (Or.inr rfl)⟩
  | some t =>
      have wake : d.nextWakeup = .ok (some (t.min reopens)) := by
        simp only [nextWakeup, asks, if_true, paced, next]
        rfl
      have later : now < t := ahead t next
      by_cases first : t ≤ reopens
      · have least : t.min reopens = t := if_pos first
        rw [least] at wake
        exact ⟨t, wake, exact_of_paced paced sends (Nat.le_of_lt later) first
          (fun t' h => by rw [next] at h; cases h; exact Nat.le_refl _) (Or.inl next)⟩
      · have least : t.min reopens = reopens := if_neg first
        rw [least] at wake
        exact ⟨reopens, wake, exact_of_paced paced sends (Nat.le_of_lt early) (Nat.le_refl _)
          (fun t' h => by rw [next] at h; cases h; exact Nat.le_of_lt (Nat.lt_of_not_le first))
          (Or.inr rfl)⟩

/-- **The dispatcher is woken exactly when there is something to do.**  Provided that the clock holds
the moments that sending reckons with, a dispatcher that was served has a moment to wake up, or none;
until then there is nothing to do, and then there is. -/
theorem wakeup_exact {now : Instant} (clock : (d.expire now).OnClock now) :
    ∃ frame d' wake, d.serveOnce now = .ok (frame, d') ∧ d'.nextWakeup = .ok wake ∧
      d'.Exact now wake := by
  have done := popDue_expire d now
  have ahead : ∀ t, (d.expire now).agenda.nextDeadline = some t → now ≤ t := fun t next =>
    Nat.le_of_lt (Agenda.popDue_eq_none_iff.mp done t next)
  unfold serveOnce
  generalize d.expire now = e at *
  obtain ⟨until?, paced, fits⟩ := clock.pacedUntil_eq
  cases ready : e.isReady with
  | false =>
      have closed := pollTransmit_of_not_ready ready paced
      exact ⟨_, e, _, closed now, nextWakeup_of_not_ready ready, exact_of_not_ready closed ahead⟩
  | true =>
      by_cases early : ∃ u, until? = some u ∧ now < u
      · obtain ⟨u, rfl, early⟩ := early
        obtain ⟨wake, next, exact⟩ := exact_of_ready ready paced early (fits u rfl) done
        exact ⟨_, e, _, pollTransmit_of_early paced early, next, exact⟩
      · obtain ⟨up, free, q, rest, head⟩ := isReady_iff.mp ready
        obtain ⟨deadline, reach⟩ := Option.isSome_iff_exists.mp
          (clock.now q (by rw [head]; exact List.mem_cons_self))
        have late (u : Instant) (h : until? = some u) : u ≤ now :=
          Nat.le_of_not_lt fun before => early ⟨u, h, before⟩
        -- the line is in flight, and the moment it is given up may be the next one
        have closed (t : Instant) : (e.launch now deadline q rest).pollTransmit t =
            .ok (none, e.launch now deadline q rest) := by
          unfold pollTransmit
          rw [if_pos (by simp [launch])]
        have given : now ≤ deadline := by
          rw [Instant.le_def, Instant.add?_eq_some_iff.mp reach]
          exact Nat.le_add_right _ _
        refine ⟨_, _, _, pollTransmit_of_late up free head paced late reach,
          nextWakeup_of_not_ready (by simp [isReady, launch]), exact_of_not_ready closed ?_⟩
        intro t next
        rcases Agenda.nextDeadline_schedule next with rfl | old
        · exact given
        · exact ahead t old

/-- Two commands come in, and the line of the first is sent and answered.  The second waits for the
pacing, and the dispatcher is to be woken when the interval has passed. -/
theorem wakeup_exact_of_pacing :
    ∃ frames d d', (create .standard []).run
        [.linkUp, .enqueue ⟨⟨1⟩, ⟨6⟩, .setLevel ⟨40⟩, .start⟩ .start,
          .enqueue ⟨⟨2⟩, ⟨7⟩, .off, .start⟩ .start, .poll .start, .frame [0x68, 0x2E] .start] =
          .ok (frames, d) ∧
      d.serveOnce .start = .ok (none, d') ∧ d'.nextWakeup = .ok (some (.ofMillis 100)) ∧
      d'.Exact .start (some (.ofMillis 100)) := by
  obtain ⟨⟨frames, d⟩, reached, seen⟩ := exists_ok
    (x := (create .standard []).run
      [.linkUp, .enqueue ⟨⟨1⟩, ⟨6⟩, .setLevel ⟨40⟩, .start⟩ .start,
        .enqueue ⟨⟨2⟩, ⟨7⟩, .off, .start⟩ .start, .poll .start, .frame [0x68, 0x2E] .start])
    (f := fun r => (decide ((r.2.expire .start).Fits .start ∧ (r.2.expire .start).Fits (.ofMillis 100)),
      (r.2.expire .start).lastSend, (r.2.expire .start).settings.sendInterval,
      (r.2.serveOnce .start).toOption.map fun (s : Option (List UInt8) × Dispatcher) =>
        decide (s.1 = none ∧ s.2.nextWakeup.toOption = some (some (.ofMillis 100)))))
    (b := (true, some .start, .ofMillis 100, some true))
    (by decide +kernel)
  obtain ⟨fits, seen⟩ := Prod.mk.inj seen
  obtain ⟨lastSend, seen⟩ := Prod.mk.inj seen
  obtain ⟨interval, seen⟩ := Prod.mk.inj seen
  obtain ⟨now, later⟩ := of_decide_eq_true fits
  have clock : (d.expire .start).OnClock .start := by
    refine ⟨now, fun last before => ⟨.ofMillis 100, ?_, later⟩⟩
    cases lastSend.symm.trans before
    rw [show (d.expire .start).settings.sendInterval = _ from interval]
    decide
  obtain ⟨frame, d', wake, served, woken, exact⟩ := wakeup_exact clock
  rw [show d.serveOnce .start = _ from served] at seen
  obtain ⟨rfl, seen⟩ := of_decide_eq_true (Option.some.inj seen)
  rw [show d'.nextWakeup = _ from woken] at seen
  cases Option.some.inj seen
  exact ⟨frames, d, d', reached, served, woken, exact⟩

end Lighting.Dispatcher
