import Lighting.Proofs.Dispatcher.Turn

/-!
# The line is a queue of addresses

A command that is replaced, repeated or interrupted keeps its place, so the addresses on the line
form a queue: an address joins at the end when a command for it is submitted and none is there, it
leaves at the head when the attempt in flight ends for good, and nothing else ever moves (`Moves`).

What makes this an invariant is `Orderly`: the timetable is in order, no address stands on the line
twice, and nothing is in flight while the link is down.  The last two need each other: an attempt
that is left in flight would be overtaken by the command that takes its place.
-/

namespace Lighting

namespace Command

theorem map_address_put (c : Command) (line : List Command) :
    (c.put line).map address =
      if c.address ∈ line.map address then line.map address else line.map address ++ [c.address] := by
  induction line with
  | nil => simp [put]
  | cons x xs ih =>
      unfold put
      by_cases same : x.address = c.address
      · simp [same]
      · rw [if_neg same, List.map_cons, ih]
        by_cases there : c.address ∈ xs.map address <;> simp [there, Ne.symm same]

theorem nodup_put {line : List Command} (nodup : (line.map address).Nodup) (c : Command) :
    ((c.put line).map address).Nodup := by
  rw [map_address_put]
  split
  · exact nodup
  · rename_i fresh
    exact List.nodup_append.mpr ⟨nodup, List.pairwise_singleton _ _, fun a ha b hb same =>
      fresh (List.mem_singleton.mp hb ▸ same ▸ ha)⟩

end Command

namespace Dispatcher

/-- What keeps the line a queue. -/
structure Orderly (d : Dispatcher) : Prop where
  /-- The timetable is in order. -/
  timely : d.Timely
  /-- No address stands on the line twice. -/
  places : d.places.Nodup
  /-- Nothing is in flight while the link is down. -/
  link : d.linkUp = false → d.inFlight = none

variable {d d' : Dispatcher}

/-! ## What the operations do to the line -/

theorem Beside.line (h : Beside d d') : d'.line = d.line := by
  simp only [Dispatcher.line, h.inFlight, h.waiting]

theorem Beside.orderly (h : Beside d d') (orderly : d.Orderly) : d'.Orderly where
  timely := h.timely orderly.timely
  places := by
    rw [places, h.line]
    exact orderly.places
  link := fun down => by
    rw [h.inFlight]
    rcases h.link down with down | idle
    · exact orderly.link down
    · exact idle

/-- Laying a command out touches neither the line nor the link. -/
theorem lay_frame (d : Dispatcher) (c : Command) (now : Instant) :
    (d.lay c now).inFlight = d.inFlight ∧ (d.lay c now).waiting = d.waiting ∧
      (d.lay c now).linkUp = d.linkUp ∧ (d.lay c now).nonce = d.nonce := by
  unfold lay makeRoom cancelPlan
  split <;> split <;> exact ⟨rfl, rfl, rfl, rfl⟩

theorem line_lay (d : Dispatcher) (c : Command) (now : Instant) : (d.lay c now).line = d.line := by
  obtain ⟨inFlight, waiting, -, -⟩ := lay_frame d c now
  rw [line, line, inFlight, waiting]

theorem linkUp_submit (d : Dispatcher) (c : Command) (origin : Origin) :
    (d.submit c origin).linkUp = d.linkUp ∧
      (d.inFlight = none → (d.submit c origin).inFlight = none) := by
  rcases submit_cases d c origin with ⟨_, _, _, -, -, -, eq⟩ | ⟨a, -, -, eq⟩ | ⟨-, eq⟩ <;> rw [eq]
  · exact ⟨rfl, id⟩
  · exact ⟨rfl, fun _ => rfl⟩
  · exact ⟨rfl, id⟩

namespace Orderly

theorem submit (h : d.Orderly) (c : Command) (origin : Origin) : (d.submit c origin).Orderly where
  timely := h.timely.submit c origin
  places := by
    rw [Dispatcher.places, line_submit h.places]
    exact Command.nodup_put h.places c
  link := fun down => (linkUp_submit d c origin).2 (h.link ((linkUp_submit d c origin).1 ▸ down))

theorem submitAll (h : d.Orderly) (ps : List Part) : (d.submitAll ps).Orderly := by
  induction ps generalizing d with
  | nil => exact h
  | cons p ps ih => exact ih (h.submit p.command p.origin)

theorem line_submitAll (h : d.Orderly) (ps : List Part) :
    (d.submitAll ps).line = ps.foldl (fun line p => p.command.put line) d.line := by
  induction ps generalizing d with
  | nil => rfl
  | cons p ps ih =>
      rw [submitAll_cons, ih (h.submit p.command p.origin), line_submit h.places]
      rfl

theorem lay (h : d.Orderly) (c : Command) (now : Instant) : (d.lay c now).Orderly where
  timely := h.timely.lay c now
  places := by
    rw [Dispatcher.places, line_lay]
    exact h.places
  link := by
    obtain ⟨inFlight, -, linkUp, -⟩ := lay_frame d c now
    rw [linkUp, inFlight]
    exact h.link

theorem withdraw (h : d.Orderly) {now : Instant} {e : Agenda.Entry Task} {g : Agenda Task}
    (pop : d.agenda.popDue now = some (e, g)) {number : Nat} {c : Command} {last : Bool}
    (task : e.task = .rampStep number c last) : (d.withdraw e c.address last).Orderly :=
  ⟨h.timely.withdraw pop task, h.places, h.link⟩

theorem launch (h : d.Orderly) (up : d.linkUp = true) (free : d.inFlight = none) {q : Queued}
    {rest : List Queued} (head : d.waiting = q :: rest) (now deadline : Instant) :
    (d.launch now deadline q rest).Orderly where
  timely := h.timely.launch free now deadline q rest
  places := by
    have := h.places
    rwa [Dispatcher.places, line_of_idle free, head] at this
  link := fun down => absurd (up.symm.trans down) nofun

theorem finish (h : d.Orderly) {a : Attempt} (flight : d.inFlight = some a) (outcome : Outcome) :
    (d.finish a outcome).Orderly where
  timely := (h.timely.land flight).of_same rfl rfl rfl rfl
  places := by
    have := h.places
    rw [Dispatcher.places, line_of_inFlight flight] at this
    exact (List.nodup_cons.mp this).2
  link := fun _ => rfl

theorem putBack (h : d.Orderly) {a : Attempt} (flight : d.inFlight = some a) (attempts : Nat) :
    (d.putBack a attempts).Orderly where
  timely := (h.timely.land flight).of_same rfl rfl rfl rfl
  places := by
    have := h.places
    rwa [Dispatcher.places, line_of_inFlight flight] at this
  link := fun _ => rfl

end Orderly

/-- **Every turn keeps the line a queue.** -/
theorem Turn.orderly {s : Step} {frame : Option (List UInt8)} (turn : d.Turn s frame d')
    (h : d.Orderly) : d'.Orderly := by
  cases turn with
  | idle intent submits rest => exact rest.orderly h
  | take open? =>
      rw [accept_eq]
      exact (h.lay _ _).submitAll _
  | release due task => exact (h.withdraw due task).submit _ _
  | send up free head => exact h.launch up free head _ _
  | finish flight ending rest => exact rest.orderly (h.finish flight _)
  | putBack flight return? rest => exact rest.orderly (h.putBack flight _)

theorem orderly_create (settings : Settings) (excluded : List Address) :
    (create settings excluded).Orderly :=
  ⟨timely_create settings excluded, List.Pairwise.nil, fun _ => rfl⟩

theorem Orderly.step (h : d.Orderly) {s : Step} {frame : Option (List UInt8)}
    (step : d.step s = .ok (frame, d')) : d'.Orderly :=
  (turn h.timely step).orderly h

theorem Orderly.run (h : d.Orderly) {steps : List Step} {frames : List (List UInt8)}
    (run : d.run steps = .ok (frames, d')) : d'.Orderly :=
  run_induction (fun h step => h.step step) h run

/-! ## The queue -/

/-- Several commands for one address are put on the line where one of them would be. -/
theorem map_address_puts {a : Address} {ps : List Part} (mine : ∀ p ∈ ps, p.command.address = a)
    (line : List Command) :
    (ps.foldl (fun line p => p.command.put line) line).map Command.address =
      if ps = [] ∨ a ∈ line.map Command.address then line.map Command.address
      else line.map Command.address ++ [a] := by
  induction ps generalizing line with
  | nil => simp
  | cons p ps ih =>
      obtain ⟨rfl, mine⟩ := List.forall_mem_cons.mp mine
      rw [List.foldl_cons, ih mine, Command.map_address_put]
      by_cases there : p.command.address ∈ line.map Command.address <;> simp [there]

theorem address_parts {c : Command} {now : Instant} {p : Part} (h : p ∈ d.parts c now) :
    p.command.address = c.address := by
  rcases parts_cases d c now with ⟨q, row, -, -, address, -⟩ | ⟨front, last, row, spread⟩
  · rw [row] at h
    rw [List.mem_singleton.mp h, address]
  · exact spread.address p (row ▸ h)

theorem submits_take {c : Command} (open? : d.excluded.get c.address = false) (now : Instant) :
    d.submits (.enqueue c now) = (d.parts c now).filter Part.isAtOnce := by
  simp [submits, open?]

theorem submits_release (h : d.Timely) {now : Instant} {e : Agenda.Entry Task} {g : Agenda Task}
    (due : d.agenda.popDue now = some (e, g)) {number : Nat} {c : Command} {last : Bool}
    (task : e.task = .rampStep number c last) :
    d.submits (.fire now) = [⟨c, .rampStep number last, none⟩] := by
  obtain ⟨plan, running, same, -⟩ := h.step_due due task
  simp [submits, Dispatcher.due, due, task, running, same]

/-- What a step does to the addresses on the line. -/
inductive Moves (d : Dispatcher) (s : Step) (d' : Dispatcher) : Prop where
  /-- All of them stay. -/
  | stay (same : d'.places = d.places)
  /-- A command is submitted for an address that is not there, and the address joins at the end. -/
  | join {p : Part} (submitted : p ∈ d.submits s) (fresh : p.command.address ∉ d.places)
      (more : d'.places = d.places ++ [p.command.address])
  /-- The attempt in flight ends for good, and its address leaves at the head. -/
  | leave {a : Attempt} {outcome : Outcome} (flight : d.inFlight = some a)
      (ending : d.Ending a s outcome) (fewer : d.places = a.command.address :: d'.places)

/-- **The line is a queue of addresses.**  No address is on it twice, nothing is in flight while the
link is down, and a step moves the addresses in one of three ways. -/
theorem places_queue {settings : Settings} {excluded : List Address} {steps : List Step}
    {frames : List (List UInt8)}
    (reached : (create settings excluded).run steps = .ok (frames, d)) :
    d.places.Nodup ∧ (d.linkUp = false → d.inFlight = none) ∧
      ∀ s frame d', d.step s = .ok (frame, d') → d.Moves s d' := by
  have orderly := (orderly_create settings excluded).run reached
  refine ⟨orderly.places, orderly.link, fun s frame d' step => ?_⟩
  cases turn orderly.timely step with
  | idle intent submits rest => exact .stay (by rw [places, rest.line]; rfl)
  | @take c now open? =>
      have mine : ∀ p ∈ (d.parts c now).filter Part.isAtOnce, p.command.address = c.address :=
        fun p hp => address_parts (List.mem_filter.mp hp).1
      have after : (d.accept c now).places =
          if (d.parts c now).filter Part.isAtOnce = [] ∨ c.address ∈ d.places then d.places
          else d.places ++ [c.address] := by
        rw [accept_eq, places, (orderly.lay c now).line_submitAll, line_lay]
        exact map_address_puts mine d.line
      by_cases stay : (d.parts c now).filter Part.isAtOnce = [] ∨ c.address ∈ d.places
      · exact .stay (after.trans (if_pos stay))
      · obtain ⟨some, fresh⟩ := not_or.mp stay
        obtain ⟨p, hp⟩ := List.exists_mem_of_ne_nil _ some
        exact .join (submits_take open? now ▸ hp) (mine p hp ▸ fresh)
          ((after.trans (if_neg stay)).trans (by rw [mine p hp]))
  | @release now e g number c last due task =>
      have after : ((d.withdraw e c.address last).submit c (.rampStep number last)).places =
          if c.address ∈ d.places then d.places else d.places ++ [c.address] := by
        rw [places, line_submit (orderly.withdraw due task).places]
        exact Command.map_address_put c d.line
      by_cases there : c.address ∈ d.places
      · exact .stay (after.trans (if_pos there))
      · exact .join (submits_release orderly.timely due task ▸ List.mem_singleton_self _) there
          (after.trans (if_neg there))
  | send up free head =>
      refine .stay ?_
      rw [places, places, line_of_idle free, head]
      rfl
  | finish flight ending rest =>
      refine .leave flight ending ?_
      rw [places, places, rest.line, line_of_inFlight flight]
      rfl
  | putBack flight return? rest =>
      refine .stay ?_
      rw [places, places, rest.line, line_of_inFlight flight]
      rfl

/-- Two commands come in and a line goes out: the first address is in flight, the second waits. -/
theorem places_queue_of_two :
    ∃ frames d, (create .standard []).run
        [.enqueue ⟨⟨1⟩, ⟨6⟩, .on, .start⟩ .start, .enqueue ⟨⟨2⟩, ⟨7⟩, .off, .start⟩ .start, .linkUp,
          .poll .start] = .ok (frames, d) ∧
      d.places = [⟨6⟩, ⟨7⟩] ∧ d.inFlight.isSome = true ∧
      ∀ s frame d', d.step s = .ok (frame, d') → d.Moves s d' := by
  obtain ⟨⟨frames, d⟩, reached, seen⟩ := exists_ok
    (x := (create .standard []).run
      [.enqueue ⟨⟨1⟩, ⟨6⟩, .on, .start⟩ .start, .enqueue ⟨⟨2⟩, ⟨7⟩, .off, .start⟩ .start, .linkUp,
        .poll .start])
    (f := fun r => (r.2.places, r.2.inFlight.isSome)) (b := ([⟨6⟩, ⟨7⟩], true)) (by decide +kernel)
  obtain ⟨places, flight⟩ := Prod.mk.inj seen
  exact ⟨frames, d, reached, places, flight, (places_queue reached).2.2⟩

end Dispatcher

end Lighting
