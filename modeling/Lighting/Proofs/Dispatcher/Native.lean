import Lighting.Proofs.Dispatcher.Answers
import Lighting.Proofs.Dispatcher.Attempts
import Lighting.Proofs.Dispatcher.BusTime
import Lighting.Proofs.Dispatcher.Hearing
import Lighting.Proofs.Packet.RoundTrip

/-!
# Ramps that are left to the bus units

Three places decide on their own what becomes of the length of a ramp.  When a command is taken its
ramp is left to the bus units if a rate covers it; when its line is made the rate is looked up
again, and the slowest is taken if there is none; when the line is accepted the time that the units
need is that of the rate, or the length that was asked for if there is none.  `Settings.LeavesAt`
says that for one ramp the three come to the same rate, so that neither makeshift is ever used.

### What is kept

A command comes down to a ramp only if the ramp takes time, is covered by a rate, and may be left to
the bus units at all (`leaves_parts`).  Whatever is on the line or was sent once came out of such a
row, so that no repetition, supersession or outage needs a word of its own: what the rows meet,
every turn keeps (`Turn.meets`).

### When the line is accepted

The end of the ramp is entered at the moment of the answer plus the time of the rate, and it is the
only entry of its kind for the address (`RunsUntil`).
-/

namespace Lighting

/-- The line carries a ramp of an address to a level at a rate. -/
def Packet.CarriesRamp (line : List UInt8) (rate : Rate) (a : Address) (level : Level) : Prop :=
  ∃ check character, line =
    0x5C :: octets (Text.hexUpper [0x05, 0x38, 0x00, rate.code, a.octet, level.octet, check]) ++
      [character, 0x0D]

/-- A ramp is left to the bus units, and all that is done about its length comes to one rate. -/
structure Settings.LeavesAt (settings : Settings) (c : Command) (level : Level) (span : Duration)
    (rate : Rate) : Prop where
  /-- Ramps are left to the bus units. -/
  enabled : settings.nativeRamps = true
  /-- The ramp takes time. -/
  long : 0 < span.nanos
  /-- The ramp takes no longer than the slowest rate. -/
  short : span ≤ .ofSeconds 1020
  /-- The rate is the shortest that lasts long enough. -/
  shortest : rate.IsShortestFor span
  /-- Comparing rounded seconds gives the same rate. -/
  rounded : Rate.coveringSeconds? span = some rate
  /-- The line is made with this rate, and with the level that was asked for. -/
  entry : Packet.entry c.action c.address = .ramp rate c.address.octet level.octet
  /-- The units are given the time of this rate. -/
  busTime : Dispatcher.busTime span = rate.duration

/-- Whether a command that is a ramp is left to the bus units: such ramps are, it takes time and a
rate covers it. -/
def Settings.Leaves (settings : Settings) (c : Command) : Prop :=
  ∀ level span, c.action = .ramp level span →
    settings.nativeRamps = true ∧ span.isZero = false ∧ (Rate.covering? span).isSome = true

namespace Settings

variable {settings : Settings} {c : Command} {level : Level} {span : Duration}

theorem leaves_of_not_ramp (other : ∀ level span, c.action ≠ .ramp level span) :
    settings.Leaves c :=
  fun level span ramp => absurd ramp (other level span)

/-- **All that is done about the length of a ramp comes to one rate.** -/
theorem Leaves.exists_rate (h : settings.Leaves c) (ramp : c.action = .ramp level span) :
    ∃ rate, settings.LeavesAt c level span rate := by
  obtain ⟨enabled, long, covered⟩ := h level span ramp
  obtain ⟨rate, found⟩ := Option.isSome_iff_exists.mp covered
  refine ⟨rate, enabled, ?_, Rate.isSome_covering?_iff.mp covered,
    Rate.covering?_eq_some_iff.mp found, (Rate.coveringSeconds?_eq span).trans found, ?_, ?_⟩
  · exact Nat.pos_of_ne_zero fun zero => by simp [Duration.isZero, zero] at long
  · rw [ramp, Packet.entry, found]
    rfl
  · rw [Dispatcher.busTime, found]
    rfl

theorem LeavesAt.carriesRamp {rate : Rate} (h : settings.LeavesAt c level span rate)
    (nonce : UInt64) : Packet.CarriesRamp (Packet.encode c nonce) rate c.address level := by
  obtain ⟨check, line, -⟩ := Packet.encode_eq c nonce
  rw [Packet.carried, h.entry] at line
  exact ⟨check, _, line⟩

end Settings

namespace Ramp

variable {n : Nat} {asked action : Action} {current : Level} {native : Bool}

/-- What is done at once is no ramp. -/
theorem plan_eq_immediate (h : plan n asked current native = .immediate action) (level : Level)
    (span : Duration) : action ≠ .ramp level span := by
  have direct (target : Level) : directAction target ≠ .ramp level span := by
    unfold directAction
    split
    · nofun
    · split <;> nofun
  cases asked with
  | ramp target duration =>
      simp only [plan] at h
      split at h
      · cases h
        exact direct target
      · split at h <;> cases h
  | _ =>
      cases h
      nofun

/-- What is left to the bus units is the ramp that was asked for, if it takes time. -/
theorem plan_eq_native (h : plan n asked current native = .native action) :
    action = asked ∧ asked.transition.isZero = false ∧ native = true := by
  cases asked with
  | ramp target duration =>
      simp only [plan] at h
      split at h
      · cases h
      · rename_i long
        split at h
        · rename_i native
          cases h
          exact ⟨rfl, eq_false_of_ne_true long, native⟩
        · cases h
  | _ => cases h

end Ramp

namespace Dispatcher

variable {d d' : Dispatcher} {a : Attempt} {now deadline : Instant} {c : Command}

/-- **A command comes down to a ramp only if the ramp is left to the bus units.** -/
theorem leaves_parts {p : Part} (h : p ∈ d.parts c now) : d.settings.Leaves p.command := by
  unfold parts at h
  split at h
  · rename_i action plan
    rw [List.mem_singleton.mp h]
    exact Settings.leaves_of_not_ramp (Ramp.plan_eq_immediate plan)
  · rename_i action plan
    rw [List.mem_singleton.mp h]
    obtain ⟨rfl, long, native⟩ := Ramp.plan_eq_native plan
    obtain ⟨enabled, covered⟩ := Bool.and_eq_true_iff.mp native
    intro level span ramp
    have same : c.transition = span := congrArg Action.transition ramp
    exact ⟨enabled, same ▸ long, same ▸ covered⟩
  · obtain ⟨id, step, -, last, rfl⟩ := mem_stepParts h
    exact Settings.leaves_of_not_ramp nofun

/-- The bus units run a ramp, and its end is awaited at a moment, and at no other. -/
structure RunsUntil (d : Dispatcher) (a : Address) (deadline : Instant) : Prop where
  /-- A ramp is running. -/
  flag : (d.query a).rampActive = true
  /-- The one entry for the end of a ramp of this address is the one that is awaited. -/
  awaited : ∃ token, d.settling.get a = some token ∧
    ∀ e, e ∈ d.agenda.entries ∧ e.task = .settled a ↔ e = ⟨token, deadline, .settled a⟩

/-- News of a ramp leaves its end as the one that is awaited. -/
theorem Taken.runsUntil {h : Hearing} {token : Agenda.Token} (taken : Taken d h d')
    (timely : d'.Timely) (whole : h.isStep = false)
    (settles : h.settles = some ⟨token, deadline, .settled h.address⟩) :
    d'.RunsUntil h.address deadline := by
  have awaited : d'.settling.get h.address = some token := by
    rw [taken.awaited, whole, settles]
    rfl
  obtain ⟨-, entered⟩ := taken.entered _ settles
  refine ⟨by rw [taken.flag, settles]; simp, token, awaited, fun e => ⟨?_, ?_⟩⟩
  · rintro ⟨there, task⟩
    have known := timely.settles.owned e there h.address task
    exact timely.ordered.unique e there _ entered (Option.some.inj (known.symm.trans awaited))
  · rintro rfl
    exact ⟨entered, rfl⟩

/-- What an answer that accepts the attempt in flight comes to. -/
theorem onFrame_accepted {frame : List UInt8} {answer : Packet.Confirmation}
    (flight : d.inFlight = some a) (decoded : Packet.decode frame = .ok (.confirmation answer))
    (mine : a.key.matches answer = true) (accepted : answer.accepted = true) :
    d.onFrame now frame = (d.land a).onAccepted a now := by
  simp only [onFrame, decoded, onConfirmation, flight, mine, accepted, if_true]
  rfl

/-- **When a ramp is accepted, its end is awaited when the bus units are done with it**; if the
clock does not reach that far, handling stops. -/
theorem onAccepted_ramp (orderly : d.Orderly) (flight : d.inFlight = some a)
    (long : a.command.transition.isZero = false) (now : Instant) :
    match now.add? (busTime a.command.transition) with
    | some deadline => ∃ d', (d.land a).onAccepted a now = .ok d' ∧
        d'.RunsUntil a.command.address deadline
    | none => ∃ d', (d.land a).onAccepted a now = .error ⟨.endOfClock, d'⟩ := by
  cases reach : now.add? (busTime a.command.transition) with
  | none =>
      simp only [onAccepted, long, settleAfter, reach, Bool.not_false, if_true]
      exact ⟨_, rfl⟩
  | some deadline =>
      obtain ⟨d', accepted⟩ : ∃ d', (d.land a).onAccepted a now = .ok d' := by
        simp only [onAccepted, long, settleAfter, reach, Bool.not_false, if_true]
        exact ⟨_, rfl⟩
      have ends : (d.answer now a).settles =
          some ⟨d.agenda.next, deadline, .settled a.command.address⟩ := by
        simp only [answer, long, endOf, reach, Bool.false_eq_true, if_false, Option.map_some]
      have timely : d'.Timely :=
        ((beside_onAccepted accepted).orderly (orderly.finish flight .confirmed)).timely
      exact ⟨d', accepted, (taken_onAccepted orderly.timely flight accepted).runsUntil timely
        (by simp [answer, long]) ends⟩

end Dispatcher

namespace World

open Dispatcher

variable {w w' : World} {settings : Settings}

/-- Every ramp that is on the line, still to come or was ever sent is left to the bus units. -/
structure LeavesRamps (settings : Settings) (w : World) : Prop where
  /-- The settings stay the same. -/
  same : w.dispatcher.settings = settings
  /-- On the line and still to come. -/
  meets : w.dispatcher.Meets settings.Leaves
  /-- All lines that were sent. -/
  lines : ∀ t ∈ w.history.lines, settings.Leaves t.attempt.command

theorem leavesRamps_start (settings : Settings) (excluded : List Address) :
    (start settings excluded).LeavesRamps settings :=
  ⟨rfl, meets_create _ settings excluded, nofun⟩

/-- **Every step leaves all ramps to the bus units.** -/
theorem LeavesRamps.step {s : Step} (h : w.LeavesRamps settings) (orderly : w.dispatcher.Orderly)
    (step : w.step s = .ok w') : w'.LeavesRamps settings := by
  obtain ⟨frame, stepped, -⟩ := step_eq_ok step
  have turn := turn orderly.timely stepped
  have meets : w'.dispatcher.Meets settings.Leaves :=
    turn.meets orderly (fun c now p hp => h.same ▸ leaves_parts hp) h.meets
  refine ⟨turn.settings.trans h.same, meets, ?_⟩
  rcases lines_step orderly step with ⟨lines, -⟩ | ⟨t, lines, flight, -⟩
  · rw [lines]
    exact h.lines
  · -- the line that was sent last is in flight
    have sent : settings.Leaves t.attempt.command :=
      meets.line _ (line_of_inFlight flight ▸ List.mem_cons_self)
    rw [lines]
    exact fun u hu => (List.mem_append.mp hu).elim (h.lines u)
      fun last => List.mem_singleton.mp last ▸ sent

theorem LeavesRamps.run {steps : List Step} (h : w.LeavesRamps settings)
    (orderly : w.dispatcher.Orderly) (run : w.run steps = .ok w') : w'.LeavesRamps settings :=
  (orderly_induction (fun orderly h step => h.step orderly step) orderly h run).1

/-- **What the bridge takes a ramp for is what it has sent.**  Every ramp that is queued or in
flight was asked for with a length that takes time and that a rate covers, so that the rate is the
same wherever it is looked up.  Every line that was sent for a ramp carries the code of the shortest
rate that lasts long enough, and the exact level.  When such a line is accepted, the end of the ramp
is awaited exactly when the rate in the line is done, and at no other moment, and a ramp is running.
Where ramps are not left to the bus units, none is ever queued. -/
theorem native_ramps_match {settings : Settings} {excluded : List Address} {steps : List Step}
    (run : (start settings excluded).run steps = .ok w) :
    (∀ c ∈ w.dispatcher.line, ∀ level span, c.action = .ramp level span →
      ∃ rate, settings.LeavesAt c level span rate) ∧
    (∀ t ∈ w.history.lines, ∀ level span, t.attempt.command.action = .ramp level span →
      ∃ rate, settings.LeavesAt t.attempt.command level span rate ∧
        Packet.CarriesRamp t.frame rate t.attempt.command.address level) ∧
    (∀ a, w.dispatcher.inFlight = some a → ∀ level span, a.command.action = .ramp level span →
      ∃ (t : Transmission) (rate : Rate), w.history.lines.getLast? = some t ∧ t.attempt = a ∧
        settings.LeavesAt a.command level span rate ∧
        Packet.CarriesRamp t.frame rate a.command.address level ∧
        ∀ (frame : List UInt8) (answer : Packet.Confirmation) (now : Instant),
          Packet.decode frame = .ok (.confirmation answer) → a.key.matches answer = true →
          answer.accepted = true →
          match now.add? rate.duration with
          | some deadline => ∃ d', w.dispatcher.onFrame now frame = .ok d' ∧
              d'.RunsUntil a.command.address deadline
          | none => ∃ d', w.dispatcher.onFrame now frame = .error ⟨.endOfClock, d'⟩) ∧
    (settings.nativeRamps = false →
      ∀ c ∈ w.dispatcher.line, ∀ level span, c.action ≠ .ramp level span) := by
  have orderly₀ := orderly_create settings excluded
  obtain ⟨numbered, orderly⟩ := (numbered_start settings excluded).run orderly₀ run
  have leaves := (leavesRamps_start settings excluded).run orderly₀ run
  refine ⟨fun c hc level span ramp => (leaves.meets.line c hc).exists_rate ramp,
    fun t ht level span ramp => ?_, fun a flight level span ramp => ?_,
    fun disabled c hc level span ramp => ?_⟩
  · obtain ⟨rate, leaves⟩ := (leaves.lines t ht).exists_rate ramp
    obtain ⟨nonce, line⟩ := numbered.frame_of_mem ht
    exact ⟨rate, leaves, line ▸ leaves.carriesRamp nonce⟩
  · obtain ⟨t, last, rfl⟩ := Option.map_eq_some_iff.mp (numbered.flight a flight)
    obtain ⟨rate, leaves⟩ := (leaves.lines t (List.mem_of_getLast? last)).exists_rate ramp
    obtain ⟨nonce, line⟩ := numbered.frame_of_mem (List.mem_of_getLast? last)
    refine ⟨t, rate, last, rfl, leaves, line ▸ leaves.carriesRamp nonce,
      fun frame answer now decoded mine accepted => ?_⟩
    have same : t.attempt.command.transition = span := congrArg Action.transition ramp
    have long : t.attempt.command.transition.isZero = false := by
      rw [same]
      exact beq_eq_false_iff_ne.mpr (Nat.pos_iff_ne_zero.mp leaves.long)
    have ends := onAccepted_ramp orderly flight long now
    rw [same, leaves.busTime] at ends
    rw [onFrame_accepted flight decoded mine accepted]
    exact ends
  · have enabled := (leaves.meets.line c hc level span ramp).1
    rw [disabled] at enabled
    cases enabled

/-- A ramp of ten seconds goes out at the rate of twelve.  It is accepted thirty milliseconds later,
and its end is awaited twelve seconds after that. -/
theorem native_ramps_match_of_ten_seconds :
    ∃ w, (start .standard []).run
        [.linkUp, .enqueue ⟨⟨1⟩, ⟨6⟩, .ramp ⟨200⟩ (.ofSeconds 10), .start⟩ .start,
          .poll .start] = .ok w ∧
      ∃ t d', w.history.lines.getLast? = some t ∧
        Packet.CarriesRamp t.frame ⟨0x1A, 12⟩ ⟨6⟩ ⟨200⟩ ∧
        w.dispatcher.onFrame (.ofMillis 30) [0x68, 0x2E] = .ok d' ∧
        d'.RunsUntil ⟨6⟩ (.ofMillis 12030) := by
  obtain ⟨w, run, seen⟩ := Dispatcher.exists_ok
    (x := (start .standard []).run
      [.linkUp, .enqueue ⟨⟨1⟩, ⟨6⟩, .ramp ⟨200⟩ (.ofSeconds 10), .start⟩ .start, .poll .start])
    (f := fun w => w.dispatcher.inFlight.map fun a =>
      (a.command.action, a.command.address, a.key.token))
    (b := some (.ramp ⟨200⟩ (.ofSeconds 10), ⟨6⟩, 0x68)) (by decide +kernel)
  obtain ⟨a, flight, seen⟩ := Option.map_eq_some_iff.mp seen
  obtain ⟨ramp, rest⟩ := Prod.mk.inj seen
  obtain ⟨address, character⟩ := Prod.mk.inj rest
  obtain ⟨t, rate, last, -, leaves, line, accepted⟩ :=
    (native_ramps_match run).2.2.1 a flight _ _ ramp
  -- of all rates the one of twelve seconds is the shortest
  obtain rfl : rate = ⟨0x1A, 12⟩ :=
    Option.some.inj ((Rate.covering?_eq_some_iff.mpr leaves.shortest).symm.trans (by decide))
  have mine : a.key.matches ⟨0x68, none, none, true⟩ = true := by
    simp [Packet.MatchKey.matches, character]
  have ends := accepted [0x68, 0x2E] _ (.ofMillis 30) rfl mine rfl
  rw [show Instant.add? (.ofMillis 30) (Rate.duration ⟨0x1A, 12⟩) = some (.ofMillis 12030) by
    decide, address] at ends
  obtain ⟨d', frame, runs⟩ := ends
  exact ⟨w, run, t, d', last, address ▸ line, frame, runs⟩

end World

end Lighting
