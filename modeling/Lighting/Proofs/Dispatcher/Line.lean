import Lighting.Dispatcher.Enqueue

/-!
# The line

The commands a dispatcher has yet to bring to an end stand in one line: the one in flight, then those
that wait.  `line` reads it off a dispatcher, so that a command keeps its place in it while it goes
out, comes back and goes out again.

### What submission does

`submit` looks for the address among those that wait, then at the attempt in flight, and else
appends.  Seen on the line this is one thing, `put`: the command takes the place of the one for its
address, or stands at the end (`line_submit`).  That holds only while no address stands on the line
twice, which is what `places` is about.
-/

namespace Lighting

namespace Queued

theorem replace_eq_some {q old : Queued} {waiting waiting' : List Queued}
    (h : q.replace waiting = some (old, waiting')) :
    ∃ before after, waiting = before ++ old :: after ∧ waiting' = before ++ q :: after ∧
      old.command.address = q.command.address ∧
      ∀ x ∈ before, x.command.address ≠ q.command.address := by
  induction waiting generalizing waiting' with
  | nil => cases h
  | cons x xs ih =>
      unfold replace at h
      split at h
      · rename_i same
        cases h
        exact ⟨[], xs, rfl, rfl, same, by simp⟩
      · rename_i other
        obtain ⟨⟨old', rest⟩, found, eq⟩ := Option.map_eq_some_iff.mp h
        cases eq
        obtain ⟨before, after, rfl, rfl, same, others⟩ := ih found
        exact ⟨x :: before, after, rfl, rfl, same, List.forall_mem_cons.mpr ⟨other, others⟩⟩

theorem replace_eq_none_iff {q : Queued} {waiting : List Queued} :
    q.replace waiting = none ↔ ∀ x ∈ waiting, x.command.address ≠ q.command.address := by
  induction waiting with
  | nil => simp [replace]
  | cons x xs ih =>
      unfold replace
      split
      · rename_i same
        simp [same]
      · rename_i other
        simp [ih, other]

end Queued

/-- How a command has ended, as the dispatcher tells it. -/
structure Resolution where
  /-- The identifier of the command. -/
  id : CommandId
  /-- Its address. -/
  address : Address
  /-- How it has ended. -/
  outcome : Outcome
deriving DecidableEq

/-- The end of a command that an event tells of. -/
def Event.resolution? : Event → Option Resolution
  | .resolved id address outcome => some ⟨id, address, outcome⟩
  | _ => none

/-- Puts a command on a line: in the place of the one for its address, or at the end. -/
def Command.put (c : Command) : List Command → List Command
  | [] => [c]
  | x :: xs => if x.address = c.address then c :: xs else x :: put c xs

/-- The command on a line that has to give way. -/
def Command.displaced (c : Command) (line : List Command) : Option Command :=
  line.find? (·.address = c.address)

/-- What is told of a command that gives way. -/
def Command.givesWay (successor : CommandId) (old : Command) : Resolution :=
  ⟨old.id, old.address, .superseded successor⟩

namespace Command

theorem put_of_mem {c x : Command} {before after : List Command} (same : x.address = c.address)
    (others : ∀ y ∈ before, y.address ≠ c.address) :
    c.put (before ++ x :: after) = before ++ c :: after := by
  induction before with
  | nil => exact if_pos same
  | cons y before ih =>
      obtain ⟨other, others⟩ := List.forall_mem_cons.mp others
      rw [List.cons_append, put, if_neg other, ih others, List.cons_append]

theorem put_of_not_mem {c : Command} {line : List Command}
    (others : ∀ y ∈ line, y.address ≠ c.address) : c.put line = line ++ [c] := by
  induction line with
  | nil => rfl
  | cons y line ih =>
      obtain ⟨other, others⟩ := List.forall_mem_cons.mp others
      rw [put, if_neg other, ih others, List.cons_append]

theorem displaced_of_mem {c x : Command} {before after : List Command}
    (same : x.address = c.address) (others : ∀ y ∈ before, y.address ≠ c.address) :
    c.displaced (before ++ x :: after) = some x := by
  refine List.find?_eq_some_iff_append.mpr ⟨by simpa using same, before, after, rfl, fun y hy => ?_⟩
  simpa using others y hy

theorem displaced_of_not_mem {c : Command} {line : List Command}
    (others : ∀ y ∈ line, y.address ≠ c.address) : c.displaced line = none :=
  List.find?_eq_none.mpr fun y hy => by simpa using others y hy

/-- A command takes the place of the one for its address, or stands at the end. -/
theorem put_cases (c : Command) (line : List Command) :
    (∃ before old after, line = before ++ old :: after ∧ old.address = c.address ∧
        (∀ x ∈ before, x.address ≠ c.address) ∧ c.put line = before ++ c :: after ∧
        c.displaced line = some old) ∨
      (∀ x ∈ line, x.address ≠ c.address) ∧ c.put line = line ++ [c] ∧ c.displaced line = none := by
  cases found : c.displaced line with
  | none =>
      have others : ∀ x ∈ line, x.address ≠ c.address := fun x hx => by
        simpa using List.find?_eq_none.mp found x hx
      exact Or.inr ⟨others, put_of_not_mem others, rfl⟩
  | some old =>
      obtain ⟨same, before, after, rfl, others⟩ := List.find?_eq_some_iff_append.mp found
      have same : old.address = c.address := by simpa using same
      have others : ∀ x ∈ before, x.address ≠ c.address := fun x hx => by simpa using others x hx
      exact Or.inl ⟨before, old, after, rfl, same, others, put_of_mem same others, rfl⟩

/-- Nothing comes on a line but the command that is put there. -/
theorem mem_put {c x : Command} {line : List Command} (hx : x ∈ c.put line) : x = c ∨ x ∈ line := by
  rcases c.put_cases line with ⟨before, old, after, rfl, -, -, put, -⟩ | ⟨-, put, -⟩
  · rw [put] at hx
    rcases List.mem_append.mp hx with hx | hx
    · exact Or.inr (List.mem_append_left _ hx)
    · exact (List.mem_cons.mp hx).imp_right fun hx =>
        List.mem_append_right _ (List.mem_cons_of_mem _ hx)
  · rw [put] at hx
    exact (List.mem_append.mp hx).symm.imp_left List.mem_singleton.mp

end Command

namespace Dispatcher

/-- The commands on the line: the one in flight, then those that wait. -/
def line (d : Dispatcher) : List Command :=
  (d.inFlight.map Attempt.command).toList ++ d.waiting.map Queued.command

/-- The ends of commands that were told, the latest first. -/
def resolutions (d : Dispatcher) : List Resolution := d.outbox.filterMap Event.resolution?

/-- The addresses on the line. -/
def places (d : Dispatcher) : List Address := d.line.map Command.address

/-- Takes an attempt out of flight, and its deadline off the agenda. -/
def land (d : Dispatcher) (a : Attempt) : Dispatcher :=
  ({ d with inFlight := none } : Dispatcher).strike a.timer

theorem line_of_inFlight {d : Dispatcher} {a : Attempt} (flight : d.inFlight = some a) :
    d.line = a.command :: d.waiting.map Queued.command := by
  simp [line, flight]

theorem line_of_idle {d : Dispatcher} (idle : d.inFlight = none) :
    d.line = d.waiting.map Queued.command := by
  simp [line, idle]

/-- **What submission does.**  The command takes the place of one that waits, or of the attempt in
flight, or it stands at the end. -/
theorem submit_cases (d : Dispatcher) (c : Command) (origin : Origin) :
    (∃ before old after, d.waiting = before ++ old :: after ∧ old.command.address = c.address ∧
        (∀ x ∈ before, x.command.address ≠ c.address) ∧
        d.submit c origin =
          ({ d with waiting := before ++ ⟨c, origin, 0⟩ :: after } : Dispatcher).supersede
            old.command c.id) ∨
      (∃ a, d.inFlight = some a ∧ a.command.address = c.address ∧
        d.submit c origin =
          ({ d.land a with waiting := ⟨c, origin, 0⟩ :: d.waiting } : Dispatcher).supersede
            a.command c.id) ∨
      (∀ x ∈ d.line, x.address ≠ c.address) ∧
        d.submit c origin = { d with waiting := d.waiting ++ [⟨c, origin, 0⟩] } := by
  unfold submit
  dsimp only
  split
  · rename_i old waiting found
    obtain ⟨before, after, waiting, rfl, same, others⟩ := Queued.replace_eq_some found
    exact Or.inl ⟨before, old, after, waiting, same, others, rfl⟩
  · rename_i none
    have others := Queued.replace_eq_none_iff.mp none
    split
    · rename_i a flight
      split
      · rename_i same
        exact Or.inr (Or.inl ⟨a, flight, same, rfl⟩)
      · rename_i other
        refine Or.inr (Or.inr ⟨?_, rfl⟩)
        rw [line_of_inFlight flight]
        simpa [other] using others
    · rename_i idle
      refine Or.inr (Or.inr ⟨?_, rfl⟩)
      rw [line_of_idle idle]
      simpa using others

/-- Submission puts the command on the line, and tells of the one that gives way. -/
theorem submit_eq_put {d : Dispatcher} (nodup : d.places.Nodup) (c : Command) (origin : Origin) :
    (d.submit c origin).line = c.put d.line ∧
      (d.submit c origin).resolutions =
        ((c.displaced d.line).map (Command.givesWay c.id)).toList ++ d.resolutions := by
  rcases submit_cases d c origin with
    ⟨before, old, after, waiting, same, others, eq⟩ | ⟨a, flight, same, eq⟩ | ⟨others, eq⟩
  · -- the attempt in flight is for another address, since the one that waits has this one
    rw [places, line, List.map_append] at nodup
    have apart := (List.nodup_append.mp nodup).2.2
    have first : ∀ y ∈ (d.inFlight.map Attempt.command).toList ++ before.map Queued.command,
        y.address ≠ c.address := by
      intro y hy same'
      rcases List.mem_append.mp hy with hy | hy
      · refine apart _ (List.mem_map_of_mem hy) old.command.address ?_ (same'.trans same.symm)
        rw [waiting]
        simp
      · obtain ⟨x, hx, rfl⟩ := List.mem_map.mp hy
        exact others x hx same'
    have line : d.line = ((d.inFlight.map Attempt.command).toList ++ before.map Queued.command) ++
        old.command :: after.map Queued.command := by
      simp [line, waiting]
    rw [eq, line, Command.put_of_mem same first, Command.displaced_of_mem same first]
    exact ⟨by simp [Dispatcher.line, supersede, tell], rfl⟩
  · have gives : c.displaced (a.command :: d.waiting.map Queued.command) = some a.command :=
      List.find?_cons_of_pos (by simpa using same)
    rw [eq, line_of_inFlight flight, Command.put, if_pos same, gives]
    exact ⟨rfl, rfl⟩
  · rw [eq, Command.put_of_not_mem others, Command.displaced_of_not_mem others]
    exact ⟨by simp [line], rfl⟩

theorem line_submit {d : Dispatcher} (nodup : d.places.Nodup) (c : Command) (origin : Origin) :
    (d.submit c origin).line = c.put d.line :=
  (submit_eq_put nodup c origin).1

end Dispatcher

end Lighting
