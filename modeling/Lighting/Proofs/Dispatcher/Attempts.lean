import Lighting.Proofs.Dispatcher.Numbering
import Lighting.Proofs.Dispatcher.Provenance

/-!
# Attempts are counted

A command may be sent many times before it ends, and the dispatcher counts its attempts while it is
on the line.  A `Stay` notes what befalls one command from the moment it is put on the line: the
lines that were sent for it, the outages that interrupted it, and the number of attempts that the
dispatcher last counted.

### Stays and commands

Nothing here asks that commands bear different identifiers.  An address has at most one command on
the line, so that the stays at an address follow one another, and whatever befalls the address
befalls the latest of them.

### How attempts count

An attempt counts as soon as its line is sent, and an outage takes it back.  So the log of a stay is
`Regular`: each line bears the number after the last one that counts, and an outage comes right after
a line, whose number the next line bears again.
-/

namespace Lighting

/-- What can befall a command on the line. -/
inductive Incident where
  /-- A line is sent for it. -/
  | sent (t : Transmission)
  /-- The link goes down while it is in flight. -/
  | interrupted

namespace Incident

/-- The line that was sent. -/
def line? : Incident → Option Transmission
  | sent t => some t
  | interrupted => none

/-- Whether the command was interrupted. -/
def isInterruption : Incident → Bool
  | sent _ => false
  | interrupted => true

end Incident

/-- What befalls a command from the moment it is put on the line. -/
structure Stay where
  /-- The command. -/
  command : Command
  /-- What has befallen it, the latest first. -/
  log : List Incident
  /-- The number of attempts that the dispatcher last counted for it. -/
  charged : Nat

namespace Stay

/-- A command is put on the line. -/
def fresh (c : Command) : Stay := ⟨c, [], 0⟩

/-- Something befalls the command. -/
def meet (x : Stay) (i : Incident) : Stay := { x with log := i :: x.log }

/-- The dispatcher counts the command's attempts. -/
def charge (x : Stay) (n : Nat) : Stay := { x with charged := n }

/-- The lines that were sent for the command, the latest first. -/
def lines (x : Stay) : List Transmission := x.log.filterMap Incident.line?

/-- How often the command was interrupted. -/
def interruptions (x : Stay) : Nat := x.log.countP Incident.isInterruption

end Stay

/-! ## Regular logs -/

/-- A log after which `n` attempts count. -/
inductive Regular : List Incident → Nat → Prop where
  /-- Nothing has happened. -/
  | nil : Regular [] 0
  /-- The next line is sent. -/
  | sent {t : Transmission} {log : List Incident} {n : Nat} (before : Regular log n)
      (number : t.attempt.number = n + 1) : Regular (.sent t :: log) (n + 1)
  /-- An outage takes the last line back. -/
  | interrupted {t : Transmission} {log : List Incident} {n : Nat}
      (before : Regular (.sent t :: log) n) : Regular (.interrupted :: .sent t :: log) (n - 1)

namespace Regular

variable {log older : List Incident} {n : Nat} {t : Transmission}

/-- The last line that counts bears the number of the attempts that count. -/
theorem number_eq (h : Regular (.sent t :: log) n) : t.attempt.number = n ∧ 0 < n := by
  cases h with
  | sent before number => exact ⟨number, Nat.succ_pos _⟩

/-- **Lines are attempts that count or were interrupted.** -/
theorem length_lines (h : Regular log n) :
    (log.filterMap Incident.line?).length = n + log.countP Incident.isInterruption := by
  induction h with
  | nil => rfl
  | sent before number ih =>
      simp only [List.filterMap_cons, Incident.line?, List.length_cons, ih, List.countP_cons,
        Incident.isInterruption, Bool.false_eq_true, if_false]
      omega
  | @interrupted t log n before ih =>
      have := before.number_eq.2
      rw [List.countP_cons_of_pos (a := Incident.interrupted) rfl]
      refine Eq.trans ih ?_
      omega

theorem of_cons {i : Incident} (h : Regular (i :: older) n) : ∃ m, Regular older m := by
  cases h with
  | sent before => exact ⟨_, before⟩
  | interrupted before => exact ⟨_, before⟩

/-- What comes before is regular as well. -/
theorem of_append {newer : List Incident} (h : Regular (newer ++ older) n) :
    ∃ m, Regular older m := by
  induction newer generalizing n with
  | nil => exact ⟨n, h⟩
  | cons i newer ih =>
      obtain ⟨m, before⟩ := of_cons h
      exact ih before

/-- A command that was interrupted was sent right before. -/
theorem sent_of_interrupted (h : Regular (.interrupted :: older) n) :
    ∃ t rest, older = .sent t :: rest := by
  cases h with
  | interrupted before => exact ⟨_, _, rfl⟩

/-- After an outage the number that was interrupted comes again. -/
theorem number_again {u : Transmission}
    (h : Regular (.sent u :: .interrupted :: .sent t :: older) n) :
    u.attempt.number = t.attempt.number := by
  cases h with
  | sent before number =>
      cases before with
      | interrupted before =>
          have := before.number_eq
          omega

/-- Without an outage the next number comes. -/
theorem number_next {u : Transmission} (h : Regular (.sent u :: .sent t :: older) n) :
    u.attempt.number = t.attempt.number + 1 := by
  cases h with
  | sent before number => rw [number, before.number_eq.1]

/-- Numbers begin with one. -/
theorem number_first (h : Regular [.sent t] n) : t.attempt.number = 1 := by
  cases h with
  | sent before number =>
      cases before
      exact number

end Regular

/-! ## Watching an address -/

namespace Dispatcher

/-- The attempts that a dispatcher counts for the command of an address that is on the line. -/
def charged? (d : Dispatcher) (a : Address) : Option Nat :=
  match d.inFlight.filter (·.command.address = a) with
  | some t => some t.number
  | none => (d.waiting.find? (·.command.address = a)).map Queued.attempts

/-- Whether a step interrupts the attempt in flight, and it is for this address. -/
def interrupts (d : Dispatcher) (a : Address) : Step → Bool
  | .linkDown => d.inFlight.any (·.command.address = a)
  | _ => false

end Dispatcher

/-- The stays at an address once a part is put on the line. -/
def Stay.enter (a : Address) (stays : List Stay) (p : Part) : List Stay :=
  if p.command.address = a then .fresh p.command :: stays else stays

/-- The stays at an address once a line is sent. -/
def Stay.send (a : Address) (stays : List Stay) (t : Transmission) : List Stay :=
  if t.attempt.command.address = a then stays.modifyHead (·.meet (.sent t)) else stays

/-- The stays at an address once its attempts are counted. -/
def Stay.count (d : Dispatcher) (a : Address) (stays : List Stay) : List Stay :=
  match d.charged? a with
  | some n => stays.modifyHead (·.charge n)
  | none => stays

namespace Dispatcher

/-- The stays at an address after a step that sent `line?` and left the dispatcher as `after`, the
latest first: every part that is put on the line begins one, the line and an outage befall the latest
one, and its attempts are those the dispatcher counts. -/
def follow (a : Address) (d : Dispatcher) (s : Step) (line? : Option Transmission)
    (after : Dispatcher) (stays : List Stay) : List Stay :=
  let stays := (d.submits s).foldl (Stay.enter a) stays
  let stays := line?.toList.foldl (Stay.send a) stays
  let stays := if d.interrupts a s then stays.modifyHead (·.meet .interrupted) else stays
  Stay.count after a stays

/-- The stays at an address after a row of steps. -/
def stays (a : Address) (d : Dispatcher) (stays : List Stay) : List Step → List Stay
  | [] => stays
  | s :: rest =>
    match d.step s with
    | .ok (frame, after) =>
      after.stays a (d.follow a s (after.transmission? frame) after stays) rest
    | .error _ => stays

/-- The parts that a row of steps puts on the line, in order. -/
def submitted (d : Dispatcher) : List Step → List Part
  | [] => []
  | s :: rest =>
    match d.step s with
    | .ok (_, after) => d.submits s ++ after.submitted rest
    | .error _ => []

end Dispatcher

/-! ## Stays agree with the dispatcher -/

/-- A stay is as it should be: at most `limit` attempts count. -/
structure Stay.Fair (limit : Nat) (a : Address) (x : Stay) : Prop where
  /-- The command is for the address. -/
  address : x.command.address = a
  /-- Its attempts are counted right. -/
  regular : Regular x.log x.charged
  /-- No more attempts count than there may be. -/
  bound : x.charged ≤ limit
  /-- The lines carry the command. -/
  own : ∀ t ∈ x.lines, t.attempt.command = x.command

theorem Stay.fair_fresh (limit : Nat) {a : Address} {c : Command} (mine : c.address = a) :
    (Stay.fresh c).Fair limit a :=
  ⟨mine, .nil, Nat.zero_le _, nofun⟩

namespace Dispatcher

variable {limit : Nat} {a : Address} {d d' : Dispatcher} {stays : List Stay}

/-- The command of an address that is on the line is that of the latest stay, and its attempts are
counted there. -/
structure Tallied (limit : Nat) (a : Address) (d : Dispatcher) (stays : List Stay) : Prop where
  /-- All stays are as they should be. -/
  fair : ∀ x ∈ stays, x.Fair limit a
  /-- The attempt in flight was made by the last line of the latest stay. -/
  flight : ∀ t, d.inFlight = some t → t.command.address = a → ∃ x rest frame log,
    stays = x :: rest ∧ x.command = t.command ∧ x.charged = t.number ∧
      x.log = .sent ⟨frame, t⟩ :: log
  /-- The command that waits is that of the latest stay, and has an attempt left. -/
  waiting : ∀ q ∈ d.waiting, q.command.address = a → q.attempts < limit ∧ ∃ x rest,
    stays = x :: rest ∧ x.command = q.command ∧ x.charged = q.attempts

theorem Tallied.of_same (h : Tallied limit a d stays) (inFlight : d'.inFlight = d.inFlight)
    (waiting : d'.waiting = d.waiting) : Tallied limit a d' stays :=
  ⟨h.fair, inFlight ▸ h.flight, waiting ▸ h.waiting⟩

/-- Attempts that are counted already are not changed by counting them. -/
theorem Tallied.count (h : Tallied limit a d stays) : Stay.count d a stays = stays := by
  have same {n : Nat} (latest : ∃ x rest, stays = x :: rest ∧ x.charged = n) :
      stays.modifyHead (·.charge n) = stays := by
    obtain ⟨x, rest, rfl, rfl⟩ := latest
    rfl
  unfold Stay.count charged?
  cases flying : d.inFlight.filter (·.command.address = a) with
  | some t =>
      obtain ⟨flight, mine⟩ := Option.filter_eq_some_iff.mp flying
      obtain ⟨x, rest, -, -, stays, -, charged, -⟩ := h.flight t flight (by simpa using mine)
      exact same ⟨x, rest, stays, charged⟩
  | none =>
      dsimp only
      cases waits : d.waiting.find? (·.command.address = a) with
      | none => rfl
      | some q =>
          obtain ⟨-, x, rest, stays, -, charged⟩ := h.waiting q (List.mem_of_find?_eq_some waits)
            (by simpa using List.find?_some waits)
          exact same ⟨x, rest, stays, charged⟩

/-! ### Submission -/

theorem nodup_waiting (nodup : d.places.Nodup) :
    (d.waiting.map (·.command.address)).Nodup := by
  rw [places, line, List.map_append, List.map_map] at nodup
  exact (List.nodup_append.mp nodup).2.1

theorem apart_of_flight (nodup : d.places.Nodup) {t : Attempt} (flight : d.inFlight = some t)
    {q : Queued} (hq : q ∈ d.waiting) : q.command.address ≠ t.command.address := by
  rw [places, line_of_inFlight flight, List.map_cons, List.map_map] at nodup
  intro same
  exact (List.nodup_cons.mp nodup).1 (same ▸ List.mem_map_of_mem hq)

/-- Once a command is submitted, no other one of its address is on the line. -/
theorem alone_of_submit (nodup : d.places.Nodup) (c : Command) (origin : Origin) :
    (∀ t, (d.submit c origin).inFlight = some t →
      d.inFlight = some t ∧ t.command.address ≠ c.address) ∧
    ∀ q ∈ (d.submit c origin).waiting,
      q = ⟨c, origin, 0⟩ ∨ q ∈ d.waiting ∧ q.command.address ≠ c.address := by
  rcases d.submit_cases c origin with
    ⟨before, old, after, waiting, same, others, eq⟩ | ⟨a, flight, same, eq⟩ | ⟨others, eq⟩
  · have behind := nodup_waiting nodup
    rw [waiting, List.map_append, List.map_cons] at behind
    have behind := (List.nodup_cons.mp (List.nodup_append.mp behind).2.1).1
    rw [eq]
    refine ⟨fun t flight => ⟨flight, ?_⟩, fun q hq => ?_⟩
    · have there : old ∈ d.waiting := waiting ▸ List.mem_append_right _ List.mem_cons_self
      exact same ▸ (apart_of_flight nodup flight there).symm
    · rcases List.mem_append.mp hq with hq | hq
      · exact Or.inr ⟨waiting ▸ List.mem_append_left _ hq, others q hq⟩
      · rcases List.mem_cons.mp hq with rfl | hq
        · exact Or.inl rfl
        · refine Or.inr ⟨waiting ▸ List.mem_append_right _ (List.mem_cons_of_mem _ hq), fun mine => ?_⟩
          exact behind (same.trans mine.symm ▸ List.mem_map_of_mem hq)
  · rw [eq]
    refine ⟨nofun, fun q hq => ?_⟩
    rcases List.mem_cons.mp hq with rfl | hq
    · exact Or.inl rfl
    · exact Or.inr ⟨hq, same ▸ apart_of_flight nodup flight hq⟩
  · rw [eq]
    refine ⟨fun t flight => ⟨flight, others _ ?_⟩, fun q hq => ?_⟩
    · have flight : d.inFlight = some t := flight
      rw [line_of_inFlight flight]
      exact List.mem_cons_self
    · rcases List.mem_append.mp hq with hq | hq
      · exact Or.inr ⟨hq, others _ (List.mem_append_right _ (List.mem_map_of_mem hq))⟩
      · exact Or.inl (List.mem_singleton.mp hq)

theorem Tallied.submit (h : Tallied limit a d stays) (positive : 0 < limit)
    (nodup : d.places.Nodup) (p : Part) :
    Tallied limit a (d.submit p.command p.origin) (Stay.enter a stays p) := by
  obtain ⟨flying, waits⟩ := alone_of_submit nodup p.command p.origin
  unfold Stay.enter
  split
  · rename_i mine
    refine ⟨List.forall_mem_cons.mpr ⟨Stay.fair_fresh limit mine, h.fair⟩, fun t flight other => ?_,
      fun q hq same => ?_⟩
    · exact absurd (other.trans mine.symm) (flying t flight).2
    · rcases waits q hq with rfl | ⟨-, other⟩
      · exact ⟨positive, _, stays, rfl, rfl, rfl⟩
      · exact absurd (same.trans mine.symm) other
  · rename_i other
    refine ⟨h.fair, fun t flight mine => h.flight t (flying t flight).1 mine, fun q hq mine => ?_⟩
    rcases waits q hq with rfl | ⟨old, -⟩
    · exact absurd mine other
    · exact h.waiting q old mine

theorem Tallied.submitAll (h : Tallied limit a d stays) (positive : 0 < limit) (orderly : d.Orderly)
    (ps : List Part) : Tallied limit a (d.submitAll ps) (ps.foldl (Stay.enter a) stays) := by
  induction ps generalizing d stays with
  | nil => exact h
  | cons p ps ih => exact ih (h.submit positive orderly.places p) (orderly.submit p.command p.origin)

/-! ### The other turns -/

/-- The attempt in flight is gone. -/
theorem Tallied.land (h : Tallied limit a d stays) (idle : d'.inFlight = none)
    (waiting : d'.waiting = d.waiting) : Tallied limit a d' stays :=
  ⟨h.fair, fun _ flight => absurd (idle.symm.trans flight) nofun, waiting ▸ h.waiting⟩

/-- The head of the line is sent, and its attempt counts. -/
theorem Tallied.send (h : Tallied limit a d stays) (nodup : d.places.Nodup) {q : Queued}
    {rest : List Queued} (head : d.waiting = q :: rest) {t : Attempt}
    (flight : d'.inFlight = some t) (waiting : d'.waiting = rest) (command : t.command = q.command)
    (number : t.number = q.attempts + 1) (frame : List UInt8) :
    Tallied limit a d' (Stay.count d' a (Stay.send a stays ⟨frame, t⟩)) := by
  have first : q ∈ d.waiting := head ▸ List.mem_cons_self
  by_cases mine : q.command.address = a
  · obtain ⟨more, x, older, rfl, same, charged⟩ := h.waiting q first mine
    obtain ⟨fair, others⟩ := List.forall_mem_cons.mp h.fair
    have counted : Stay.count d' a (Stay.send a (x :: older) ⟨frame, t⟩) =
        (x.meet (.sent ⟨frame, t⟩)).charge t.number :: older := by
      simp [Stay.count, charged?, flight, Option.filter, Stay.send, command, mine]
    rw [counted]
    refine ⟨List.forall_mem_cons.mpr ⟨⟨fair.address, ?_, ?_, ?_⟩, others⟩, fun u flying _ => ?_,
      fun r hr also => ?_⟩
    · show Regular (.sent ⟨frame, t⟩ :: x.log) t.number
      rw [number]
      exact .sent (charged ▸ fair.regular) number
    · show t.number ≤ limit
      omega
    · exact List.forall_mem_cons.mpr ⟨command.trans same.symm, fair.own⟩
    · obtain rfl := Option.some.inj (flight.symm.trans flying)
      exact ⟨_, older, frame, x.log, rfl, same.trans command.symm, rfl, rfl⟩
    · have places := nodup_waiting nodup
      rw [head, List.map_cons] at places
      refine absurd ?_ (List.nodup_cons.mp places).1
      rw [mine, ← also]
      exact List.mem_map_of_mem (waiting ▸ hr)
  · have unseen : Tallied limit a d' stays := by
      refine ⟨h.fair, fun u flying also => ?_, fun r hr => h.waiting r ?_⟩
      · obtain rfl := Option.some.inj (flight.symm.trans flying)
        exact absurd (command ▸ also) mine
      · rw [head]
        exact List.mem_cons_of_mem _ (waiting ▸ hr)
    rw [Stay.send, if_neg (by simpa [command] using mine), unseen.count]
    exact unseen

/-- The attempt in flight comes back, and still counts. -/
theorem Tallied.retry (h : Tallied limit a d stays) {t : Attempt} (flight : d.inFlight = some t)
    (idle : d'.inFlight = none) {n : Nat}
    (waiting : d'.waiting = ⟨t.command, t.origin, n⟩ :: d.waiting)
    (counts : t.command.address = a → n = t.number ∧ n < limit) : Tallied limit a d' stays := by
  refine ⟨h.fair, fun _ flying => absurd (idle.symm.trans flying) nofun, fun q hq mine => ?_⟩
  rw [waiting] at hq
  rcases List.mem_cons.mp hq with rfl | hq
  · obtain ⟨rfl, more⟩ := counts mine
    obtain ⟨x, rest, -, -, stays, command, charged, -⟩ := h.flight t flight mine
    exact ⟨more, x, rest, stays, command, charged⟩
  · exact h.waiting q hq mine

/-- The attempt in flight comes back from an outage, and counts no more. -/
theorem Tallied.interrupt (h : Tallied limit a d stays) (nodup : d.places.Nodup) {t : Attempt}
    (flight : d.inFlight = some t) (mine : t.command.address = a) (idle : d'.inFlight = none)
    (waiting : d'.waiting = ⟨t.command, t.origin, t.number - 1⟩ :: d.waiting) :
    Tallied limit a d' (Stay.count d' a (stays.modifyHead (·.meet .interrupted))) := by
  obtain ⟨x, older, frame, log, rfl, same, charged, last⟩ := h.flight t flight mine
  obtain ⟨fair, others⟩ := List.forall_mem_cons.mp h.fair
  have regular : Regular (.sent ⟨frame, t⟩ :: log) t.number := last ▸ charged ▸ fair.regular
  have bound : t.number ≤ limit := charged ▸ fair.bound
  have positive := regular.number_eq.2
  have counted : Stay.count d' a ((x :: older).modifyHead (·.meet .interrupted)) =
      (x.meet .interrupted).charge (t.number - 1) :: older := by
    simp [Stay.count, charged?, idle, waiting, mine]
  rw [counted]
  refine ⟨List.forall_mem_cons.mpr ⟨⟨fair.address, ?_, ?_, fair.own⟩, others⟩,
    fun _ flying => absurd (idle.symm.trans flying) nofun, fun q hq also => ?_⟩
  · show Regular (.interrupted :: x.log) (t.number - 1)
    rw [last]
    exact .interrupted regular
  · show t.number - 1 ≤ limit
    omega
  · rw [waiting] at hq
    rcases List.mem_cons.mp hq with rfl | hq
    · exact ⟨by show t.number - 1 < limit; omega, _, older, rfl, same, rfl⟩
    · exact absurd (also.trans mine.symm) (apart_of_flight nodup flight hq)

/-! ### What a turn leaves alone -/

theorem settings_submit (d : Dispatcher) (c : Command) (origin : Origin) :
    (d.submit c origin).settings = d.settings := by
  rcases d.submit_cases c origin with ⟨_, _, _, -, -, -, eq⟩ | ⟨_, -, -, eq⟩ | ⟨-, eq⟩ <;> rw [eq] <;> rfl

theorem settings_submitAll (d : Dispatcher) (ps : List Part) :
    (d.submitAll ps).settings = d.settings := by
  induction ps generalizing d with
  | nil => rfl
  | cons p ps ih => exact (ih _).trans (settings_submit d p.command p.origin)

theorem Turn.settings {s : Step} {frame : Option (List UInt8)} (turn : d.Turn s frame d') :
    d'.settings = d.settings := by
  cases turn with
  | idle intent submits rest => exact rest.settings
  | take open? =>
      rw [accept_eq, settings_submitAll]
      unfold lay makeRoom
      split <;> exact settings_cancelPlan d _ _
  | release due task => exact settings_submit _ _ _
  | send up free head => rfl
  | finish flight ending rest => exact rest.settings
  | putBack flight return? rest => exact rest.settings

theorem Ending.not_interrupts {t : Attempt} {s : Step} {outcome : Outcome}
    (h : d.Ending t s outcome) (a : Address) : d.interrupts a s = false := by
  cases h <;> rfl

/-- A step of the link that interrupts an attempt takes it out of flight. -/
theorem idle_of_interrupts (orderly : d.Orderly) (down : d.interrupts a .linkDown = true) :
    d.onLinkDown.inFlight = none := by
  cases flight : d.inFlight with
  | none => simp [interrupts, flight] at down
  | some t =>
      have up : d.linkUp = true := by
        by_contra down
        have idle := orderly.link (by simpa using down)
        rw [idle] at flight
        cases flight
      unfold onLinkDown
      rw [if_pos up, flight]
      rfl

/-! ### Every turn -/

/-- **Every turn is followed rightly.** -/
theorem Turn.tallied {s : Step} {frame : Option (List UInt8)} (turn : d.Turn s frame d')
    (step : d.step s = .ok (frame, d')) (orderly : d.Orderly)
    (settings : max 1 d.settings.retry.maxRetries = limit) (h : Tallied limit a d stays) :
    Tallied limit a d' (d.follow a s (d'.transmission? frame) d' stays) := by
  have submitted {s : Step} {ps : List Part} (submits : d.submits s = ps)
      (through : d.interrupts a s = false)
      (after : Tallied limit a d' (ps.foldl (Stay.enter a) stays)) :
      Tallied limit a d' (d.follow a s none d' stays) := by
    unfold follow
    rw [submits, through]
    exact after.count.symm ▸ after
  have quiet {s : Step} (submits : d.submits s = []) (through : d.interrupts a s = false)
      (after : Tallied limit a d' stays) : Tallied limit a d' (d.follow a s none d' stays) :=
    submitted submits through after
  have positive : 0 < limit := by omega
  -- an attempt that is repeated is not the last one
  have more {t : Attempt} (retries : d.settings.retry.retries t.number = true) : t.number < limit := by
    have : t.number < d.settings.retry.maxRetries := by simpa [RetryPolicy.retries] using retries
    omega
  cases turn with
  | idle intent submits rest =>
      refine quiet submits ?_ (h.of_same rest.inFlight rest.waiting)
      cases s with
      | linkDown =>
          cases through : d.interrupts a .linkDown with
          | false => rfl
          | true =>
              -- an interruption is no idle turn
              cases step
              have idle := rest.inFlight.symm.trans (idle_of_interrupts orderly through)
              rw [interrupts, idle] at through
              cases through
      | _ => rfl
  | @take c now open? =>
      refine submitted (submits_take open? now) rfl ?_
      rw [accept_eq]
      obtain ⟨inFlight, waiting, -, -⟩ := lay_frame d c now
      exact (h.of_same inFlight waiting).submitAll positive (orderly.lay c now) _
  | @release now e g number c last due task =>
      refine submitted (submits_release orderly.timely due task) rfl ?_
      have withdrawn : Tallied limit a (d.withdraw e c.address last) stays := h.of_same rfl rfl
      exact withdrawn.submit positive orderly.places ⟨c, .rampStep number last, none⟩
  | @send now deadline q rest up free head =>
      exact h.send orderly.places head rfl rfl rfl rfl _
  | @finish _ t outcome _ flight ending rest =>
      exact quiet ending.quiet.2 (ending.not_interrupts a) (h.land rest.inFlight rest.waiting)
  | @putBack _ t attempts _ flight return? rest =>
      have back (counts : t.command.address = a → attempts = t.number ∧ attempts < limit) :
          Tallied limit a d' stays := h.retry flight rest.inFlight rest.waiting counts
      cases return? with
      | rejected decoded answer rejected again =>
          exact quiet rfl rfl (back fun _ => ⟨rfl, more again⟩)
      | expired due again =>
          exact quiet (Return.expired due again).quiet.2 rfl (back fun _ => ⟨rfl, more again⟩)
      | linkDown =>
          by_cases mine : t.command.address = a
          · have through : d.interrupts a .linkDown = true := by simp [interrupts, flight, mine]
            unfold follow
            rw [through]
            exact h.interrupt orderly.places flight mine rest.inFlight rest.waiting
          · exact quiet rfl (by simp [interrupts, flight, mine])
              (back fun same => absurd same mine)

end Dispatcher

/-! ## Stays agree with the history -/

namespace Stay

/-- What a change leaves alone in a stay it leaves alone in all stays. -/
theorem map_modifyHead {β : Type} {f : Stay → Stay} {g : Stay → β} (keeps : ∀ x, g (f x) = g x)
    (stays : List Stay) : (stays.modifyHead f).map g = stays.map g := by
  cases stays with
  | nil => rfl
  | cons x rest => rw [List.modifyHead_cons, List.map_cons, keeps, List.map_cons]

theorem map_count {β : Type} {g : Stay → β} (keeps : ∀ x n, g (charge x n) = g x)
    (d : Dispatcher) (a : Address) (stays : List Stay) : (count d a stays).map g = stays.map g := by
  unfold count
  split
  · exact map_modifyHead (fun x => keeps x _) stays
  · rfl

/-- A stay begins for every part that is for the address. -/
theorem commands_enter (a : Address) (ps : List Part) (stays : List Stay) :
    (ps.foldl (enter a) stays).map command =
      ((ps.map Part.command).filter (·.address = a)).reverse ++ stays.map command := by
  induction ps generalizing stays with
  | nil => rfl
  | cons p ps ih =>
      rw [List.foldl_cons, ih, List.map_cons]
      unfold enter
      split
      · rename_i mine
        rw [List.filter_cons_of_pos (by simpa using mine), List.reverse_cons, List.append_assoc]
        rfl
      · rename_i other
        rw [List.filter_cons_of_neg (by simpa using other)]

theorem commands_send (a : Address) (stays : List Stay) (t : Transmission) :
    (send a stays t).map command = stays.map command := by
  unfold send
  split
  · exact map_modifyHead (f := (·.meet (.sent t))) (fun _ => rfl) stays
  · rfl

theorem lines_enter (a : Address) (ps : List Part) (stays : List Stay) :
    (ps.foldl (enter a) stays).flatMap lines = stays.flatMap lines := by
  induction ps generalizing stays with
  | nil => rfl
  | cons p ps ih =>
      rw [List.foldl_cons, ih]
      unfold enter
      split
      · rfl
      · rfl

theorem lines_send {a : Address} {stays : List Stay} {t : Transmission}
    (latest : t.attempt.command.address = a → stays ≠ []) :
    (send a stays t).flatMap lines =
      [t].filter (·.attempt.command.address = a) ++ stays.flatMap lines := by
  unfold send
  split
  · rename_i mine
    obtain ⟨x, rest, rfl⟩ := List.exists_cons_of_ne_nil (latest mine)
    rw [List.filter_cons_of_pos (by simpa using mine)]
    rfl
  · rename_i other
    rw [List.filter_cons_of_neg (by simpa using other)]
    rfl

end Stay

namespace Dispatcher

variable {limit : Nat} {a : Address} {d d' : Dispatcher} {stays : List Stay}

/-- The commands of the stays after a step. -/
theorem commands_follow (d : Dispatcher) (a : Address) (s : Step) (line? : Option Transmission)
    (after : Dispatcher) (stays : List Stay) :
    (d.follow a s line? after stays).map Stay.command =
      (((d.submits s).map Part.command).filter (·.address = a)).reverse ++
        stays.map Stay.command := by
  unfold follow
  dsimp only
  rw [Stay.map_count (fun _ _ => rfl), ← Stay.commands_enter]
  have sent : (line?.toList.foldl (Stay.send a)
        ((d.submits s).foldl (Stay.enter a) stays)).map Stay.command =
      ((d.submits s).foldl (Stay.enter a) stays).map Stay.command := by
    cases line? with
    | none => rfl
    | some t => exact Stay.commands_send a _ t
  split
  · rw [Stay.map_modifyHead (f := (·.meet .interrupted)) fun _ => rfl]
    exact sent
  · exact sent

/-- A stay begins for every part that is put on the line for the address. -/
theorem commands_stays (d : Dispatcher) (a : Address) (stays : List Stay) (steps : List Step) :
    (d.stays a stays steps).map Stay.command =
      (((d.submitted steps).map Part.command).filter (·.address = a)).reverse ++
        stays.map Stay.command := by
  induction steps generalizing d stays with
  | nil => rfl
  | cons s rest ih =>
      unfold Dispatcher.stays submitted
      cases d.step s with
      | error stop => rfl
      | ok r =>
          dsimp only
          rw [ih, commands_follow, List.map_append, List.filter_append, List.reverse_append,
            List.append_assoc]

/-- The lines of the stays after a step: the line that was sent comes first. -/
theorem lines_follow {s : Step} {line? : Option Transmission}
    (latest : ∀ t, line? = some t → t.attempt.command.address = a →
      d.submits s = [] ∧ stays ≠ []) (after : Dispatcher) :
    (d.follow a s line? after stays).flatMap Stay.lines =
      line?.toList.filter (·.attempt.command.address = a) ++ stays.flatMap Stay.lines := by
  unfold follow
  dsimp only
  rw [List.flatMap_def, Stay.map_count fun _ _ => rfl, ← List.flatMap_def]
  have sent : (line?.toList.foldl (Stay.send a)
        ((d.submits s).foldl (Stay.enter a) stays)).flatMap Stay.lines =
      line?.toList.filter (·.attempt.command.address = a) ++ stays.flatMap Stay.lines := by
    rw [← Stay.lines_enter a (d.submits s) stays]
    cases line? with
    | none => rfl
    | some t =>
        refine Stay.lines_send fun mine => ?_
        obtain ⟨submits, some⟩ := latest t rfl mine
        rwa [submits]
  split
  · rw [List.flatMap_def, Stay.map_modifyHead (f := (·.meet .interrupted)) fun _ => rfl,
      ← List.flatMap_def]
    exact sent
  · exact sent

/-- A line is sent for the command of the latest stay. -/
theorem Turn.latest {s : Step} {frame : Option (List UInt8)} (turn : d.Turn s frame d')
    (h : Tallied limit a d stays) (t : Transmission) (line : d'.transmission? frame = some t)
    (mine : t.attempt.command.address = a) : d.submits s = [] ∧ stays ≠ [] := by
  cases turn with
  | @send now deadline q rest up free head =>
      cases line
      obtain ⟨-, x, older, rfl, -⟩ := h.waiting q (head ▸ List.mem_cons_self) mine
      exact ⟨rfl, nofun⟩
  | _ => cases line

/-- A failure is told of the latest stay, when all its attempts are counted. -/
theorem Tallied.failed (h : Tallied limit a d stays)
    (settings : max 1 d.settings.retry.maxRetries = limit) {s : Step}
    {frame : Option (List UInt8)} (step : d.step s = .ok (frame, d')) :
    d'.failures a = d.failures a ∨ ∃ x rest, stays = x :: rest ∧ x.charged = limit ∧
      d'.failures a = ⟨x.command.id, a, .failed x.charged⟩ :: d.failures a := by
  have heard := (d.heard a s).1
  rw [after_of_ok step] at heard
  cases heard with
  | nothing silent => exact Or.inl silent.failures
  | level source known failures => exact Or.inl failures
  | @failure t flight mine last told known asked =>
      obtain ⟨x, rest, frame, log, rfl, command, charged, sent⟩ := h.flight t flight mine
      have fair := h.fair x List.mem_cons_self
      have positive := (sent ▸ fair.regular).number_eq.2
      have bound := fair.bound
      have spent : d.settings.retry.maxRetries ≤ t.number := by
        simpa [RetryPolicy.retries] using last
      refine Or.inr ⟨x, rest, rfl, by omega, ?_⟩
      rw [failures, told, List.filter_cons_of_pos (by simp [Resolution.isFailure]), command,
        charged]
      rfl

end Dispatcher

namespace World

open Dispatcher

variable {limit : Nat} {a : Address} {w w' : World} {stays : List Stay}

/-- The stays at an address agree with a dispatcher and with its history. -/
structure Audited (limit : Nat) (a : Address) (w : World) (stays : List Stay) : Prop where
  /-- As many attempts count as there may be, and at least one. -/
  settings : max 1 w.dispatcher.settings.retry.maxRetries = limit
  /-- The stays agree with the dispatcher. -/
  tallied : Tallied limit a w.dispatcher stays
  /-- The lines of the stays are those that were sent to the address. -/
  lines : stays.flatMap Stay.lines =
    (w.history.lines.filter (·.attempt.command.address = a)).reverse
  /-- Commands fail when all attempts are counted. -/
  failures : ∀ r ∈ w.dispatcher.failures a, r.outcome = .failed limit

theorem audited_start (settings : Settings) (excluded : List Address) (a : Address) :
    (start settings excluded).Audited (max 1 settings.retry.maxRetries) a [] :=
  ⟨rfl, ⟨nofun, nofun, nofun⟩, rfl, nofun⟩

/-- **Every step is followed rightly.** -/
theorem Audited.step (h : w.Audited limit a stays) (orderly : w.dispatcher.Orderly) {s : Step}
    {frame : Option (List UInt8)} (step : w.dispatcher.step s = .ok (frame, w'.dispatcher))
    (note : w'.history = w.history.note w.dispatcher s frame w'.dispatcher) :
    w'.Audited limit a
      (w.dispatcher.follow a s (w'.dispatcher.transmission? frame) w'.dispatcher stays) := by
  have turn := turn orderly.timely step
  refine ⟨turn.settings ▸ h.settings, turn.tallied step orderly h.settings h.tallied, ?_, ?_⟩
  · rw [lines_follow (turn.latest h.tallied), h.lines, note, History.note, List.filter_append,
      List.reverse_append]
    cases w'.dispatcher.transmission? frame with
    | none => rfl
    | some t =>
        by_cases mine : t.attempt.command.address = a <;> simp [mine]
  · rcases h.tallied.failed h.settings step with same | ⟨x, rest, -, all, more⟩
    · exact same ▸ h.failures
    · rw [more]
      exact List.forall_mem_cons.mpr ⟨by rw [all], h.failures⟩

theorem Audited.run (h : w.Audited limit a stays) (orderly : w.dispatcher.Orderly)
    {steps : List Step} (run : w.run steps = .ok w') :
    w'.Audited limit a (w.dispatcher.stays a stays steps) := by
  induction steps generalizing w stays with
  | nil =>
      cases run
      exact h
  | cons s rest ih =>
      obtain ⟨v, first, tail⟩ := run_cons_eq_ok.mp run
      obtain ⟨frame, step, note⟩ := step_eq_ok first
      unfold Dispatcher.stays
      rw [step]
      exact ih (h.step orderly step note) (orderly.step step) tail

/-- **Attempts are counted.**  For every command that was put on the line: the lines that were sent
for it are as many as the attempts that count and the outages that interrupted it, and no more than
the settings allow count.  Its lines are numbered from one on, and after an outage the number that was
interrupted comes again.  A command fails when as many attempts count as the settings allow, or one if
they allow none, and that is the number it is told to have failed with. -/
theorem attempts_accounted {settings : Settings} {excluded : List Address} {steps : List Step}
    (run : (start settings excluded).run steps = .ok w) {a : Address}
    (followed : (create settings excluded).stays a [] steps = stays)
    (most : max 1 settings.retry.maxRetries = limit) :
    (∀ x ∈ stays, x.command.address = a ∧ (∀ t ∈ x.lines, t.attempt.command = x.command) ∧
      x.lines.length = x.charged + x.interruptions ∧ x.charged ≤ limit ∧
      (∀ newer older t u, x.log = newer ++ .sent u :: .interrupted :: .sent t :: older →
        u.attempt.number = t.attempt.number) ∧
      (∀ newer older t u, x.log = newer ++ .sent u :: .sent t :: older →
        u.attempt.number = t.attempt.number + 1) ∧
      (∀ newer older, x.log = newer ++ .interrupted :: older → ∃ t rest, older = .sent t :: rest) ∧
      (∀ newer t, x.log = newer ++ [.sent t] → t.attempt.number = 1)) ∧
    stays.map Stay.command =
      ((((create settings excluded).submitted steps).map Part.command).filter
        (·.address = a)).reverse ∧
    stays.flatMap Stay.lines =
      (w.history.lines.filter (·.attempt.command.address = a)).reverse ∧
    (∀ t, w.dispatcher.inFlight = some t → t.command.address = a →
      ∃ x rest, stays = x :: rest ∧ x.command = t.command ∧ x.charged = t.number) ∧
    (∀ q ∈ w.dispatcher.waiting, q.command.address = a →
      ∃ x rest, stays = x :: rest ∧ x.command = q.command ∧ x.charged = q.attempts) ∧
    (∀ r ∈ w.dispatcher.failures a, r.outcome = .failed limit) ∧
    (∀ s frame d', w.dispatcher.step s = .ok (frame, d') →
      d'.failures a ≠ w.dispatcher.failures a → ∃ x rest, stays = x :: rest ∧ x.charged = limit ∧
        d'.failures a = ⟨x.command.id, a, .failed x.charged⟩ :: w.dispatcher.failures a) := by
  have audited := (audited_start settings excluded a).run (orderly_create settings excluded) run
  rw [most, show (start settings excluded).dispatcher.stays a [] steps = stays from followed]
    at audited
  obtain ⟨allowed, tallied, lines, failures⟩ := audited
  have commands := commands_stays (create settings excluded) a [] steps
  rw [followed, List.map_nil, List.append_nil] at commands
  refine ⟨fun x hx => ?_, commands, lines, fun t flight mine => ?_, fun q hq mine => ?_, failures,
    fun s frame d' step other => (tallied.failed allowed step).resolve_left other⟩
  · obtain ⟨address, regular, bound, own⟩ := tallied.fair x hx
    refine ⟨address, own, regular.length_lines, bound, fun newer older t u log => ?_,
      fun newer older t u log => ?_, fun newer older log => ?_, fun newer t log => ?_⟩
    · obtain ⟨_, before⟩ := (log ▸ regular).of_append
      exact before.number_again
    · obtain ⟨_, before⟩ := (log ▸ regular).of_append
      exact before.number_next
    · obtain ⟨_, before⟩ := (log ▸ regular).of_append
      exact before.sent_of_interrupted
    · obtain ⟨_, before⟩ := (log ▸ regular).of_append
      exact before.number_first
  · obtain ⟨x, rest, -, -, eq, command, charged, -⟩ := tallied.flight t flight mine
    exact ⟨x, rest, eq, command, charged⟩
  · obtain ⟨-, x, rest, eq, command, charged⟩ := tallied.waiting q hq mine
    exact ⟨x, rest, eq, command, charged⟩

/-- An outage in the last attempt: the line goes out twice under one number, and one attempt
counts. -/
theorem attempts_accounted_of_outage :
    ∃ w x, (start { Settings.standard with retry.maxRetries := 1 } []).run
        [.linkUp, .issue, .enqueue ⟨⟨1⟩, ⟨6⟩, .setLevel ⟨40⟩, .start⟩ .start, .poll .start,
          .linkDown, .linkUp, .poll (.ofMillis 1000)] = .ok w ∧
      (create { Settings.standard with retry.maxRetries := 1 } []).stays ⟨6⟩ []
        [.linkUp, .issue, .enqueue ⟨⟨1⟩, ⟨6⟩, .setLevel ⟨40⟩, .start⟩ .start, .poll .start,
          .linkDown, .linkUp, .poll (.ofMillis 1000)] = [x] ∧
      x.lines.length = 2 ∧ x.charged = 1 ∧ x.interruptions = 1 ∧
      (w.history.lines.filter (·.attempt.command.address = ⟨6⟩)).length = 2 := by
  obtain ⟨w, run, -⟩ := Dispatcher.exists_ok
    (x := (start { Settings.standard with retry.maxRetries := 1 } []).run
      [.linkUp, .issue, .enqueue ⟨⟨1⟩, ⟨6⟩, .setLevel ⟨40⟩, .start⟩ .start, .poll .start,
        .linkDown, .linkUp, .poll (.ofMillis 1000)])
    (f := fun _ => ()) (b := ()) (by decide +kernel)
  have counted : ((create { Settings.standard with retry.maxRetries := 1 } []).stays ⟨6⟩ []
      [.linkUp, .issue, .enqueue ⟨⟨1⟩, ⟨6⟩, .setLevel ⟨40⟩, .start⟩ .start, .poll .start,
        .linkDown, .linkUp, .poll (.ofMillis 1000)]).map (fun x => (x.charged, x.interruptions)) =
      [(1, 1)] := by decide +kernel
  obtain ⟨x, one, numbers⟩ := List.map_eq_singleton_iff.mp counted
  obtain ⟨charged, interruptions⟩ := Prod.mk.inj numbers
  obtain ⟨each, -, lines, -⟩ := attempts_accounted run one (by rfl)
  have sent : x.lines.length = 2 := by
    rw [(each x List.mem_cons_self).2.2.1, charged, interruptions]
  refine ⟨w, x, run, one, sent, charged, interruptions, ?_⟩
  rw [← List.length_reverse, ← lines, List.flatMap_singleton, sent]

end World

end Lighting
