import Mathlib.Logic.Function.Basic
import Lighting.Proofs.Dispatcher.Places

/-!
# The ledger

What becomes of a command depends on little: the line, the steps still to come, what was told, and
the history.  A `Ledger` holds this and nothing else, and a `Posting` is a change of it.  There are
four kinds: a line goes out, a command ends, a step of a ramp is submitted, a command is taken.

### The bridge

`ledger_step` says that a step of a world changes its ledger by a posting or not at all.  All the
machinery of tokens, timers and attempts ends here: what is proved of postings holds of every run
(`ledger_induction`).
-/

namespace Lighting

/-- What has become of the commands. -/
@[ext] structure Ledger where
  /-- The commands that were taken, the oldest first. -/
  intents : List Intent
  /-- The steps before the last of a ramp that have gone on the line, the oldest first. -/
  stepped : List Command
  /-- The commands that were sent, the oldest first; one that was sent again stands there again. -/
  sent : List Command
  /-- The commands on the line, the one in flight first. -/
  line : List Command
  /-- The steps still to come for each address, the next one first. -/
  upcoming : Address → List Part
  /-- How commands have ended, the latest first. -/
  resolutions : List Resolution

/-- The ledger of a world. -/
def World.ledger (w : World) : Ledger where
  intents := w.history.intents
  stepped := w.history.stepped
  sent := w.history.lines.map (·.attempt.command)
  line := w.dispatcher.line
  upcoming := w.dispatcher.upcoming
  resolutions := w.dispatcher.resolutions

/-- What every row of parts looks like: the command comes last, the steps before it come under
identifiers of their own, and what goes on the line at once comes first. -/
structure IsRow (c : Command) (ps : List Part) : Prop where
  /-- All parts are for the command's address. -/
  address : ∀ p ∈ ps, p.command.address = c.address
  /-- The last part bears the command's identifier, and it goes on the line at once only if it is
  the only one. -/
  last : ∃ front last, ps = front ++ [last] ∧ last.command.id = c.id ∧
    last.origin.isIntermediate = false ∧ (∀ p ∈ front, p.origin.isIntermediate = true) ∧
    (last.moment = none → front = [])
  /-- What goes on the line at once comes first. -/
  early : ps.Pairwise fun p q => q.moment = none → p.moment = none

theorem Dispatcher.isRow_parts (d : Dispatcher) (c : Command) (now : Instant) :
    IsRow c (d.parts c now) := by
  rcases d.parts_cases c now with ⟨p, row, -, id, address, whole⟩ | ⟨front, last, row, spread⟩
  · rw [row]
    exact ⟨by simpa using address, ⟨[], p, rfl, id, whole, by simp, fun _ => rfl⟩,
      List.pairwise_singleton _ _⟩
  · rw [row]
    refine ⟨spread.address, ⟨front, last, rfl, spread.last_id, ?_, fun p hp => ?_, fun none => ?_⟩,
      spread.early⟩
    · rw [spread.last_origin]
      rfl
    · rw [spread.front_origin p hp]
      rfl
    · have some := spread.last_moment
      rw [none] at some
      cases some

namespace Ledger

/-- Puts a command on the line, and tells of the one that gives way. -/
def submit (l : Ledger) (c : Command) : Ledger :=
  { l with
    line := c.put l.line
    resolutions := ((c.displaced l.line).map (Command.givesWay c.id)).toList ++ l.resolutions }

/-- Puts the commands of several parts on the line in order. -/
def submitAll (l : Ledger) (ps : List Part) : Ledger := ps.foldl (fun l p => l.submit p.command) l

theorem submitAll_cons (l : Ledger) (p : Part) (ps : List Part) :
    l.submitAll (p :: ps) = (l.submit p.command).submitAll ps := rfl

/-- Submission concerns the line and what is told, and nothing else. -/
theorem submitAll_frame (l : Ledger) (ps : List Part) :
    l.submitAll ps = { l with
      line := (l.submitAll ps).line
      resolutions := (l.submitAll ps).resolutions } := by
  induction ps generalizing l with
  | nil => rfl
  | cons p ps ih =>
      rw [submitAll_cons, ih]
      rfl

/-- Puts the first of the steps for an address on the line, and leaves `rest` to come. -/
def release (l : Ledger) (p : Part) (rest : List Part) : Ledger :=
  ({ l with
    upcoming := Function.update l.upcoming p.command.address rest
    stepped := l.stepped ++ if p.origin.isIntermediate then [p.command] else [] } : Ledger).submit
      p.command

/-- What is told of the ramp that gives way to a command. -/
def cancelled (l : Ledger) (c : Command) : Option Resolution :=
  (l.upcoming c.address).getLast?.map fun p => ⟨p.command.id, c.address, .superseded c.id⟩

/-- Enters a command and its row, the steps still to come in the place of the earlier ones. -/
def enter (l : Ledger) (c : Command) (ps : List Part) : Ledger :=
  { l with
    intents := l.intents ++ [⟨c, ps.map Part.command⟩]
    stepped := l.stepped ++
      ((ps.filter Part.isAtOnce).filter (·.origin.isIntermediate)).map Part.command
    upcoming := Function.update l.upcoming c.address (ps.filter (·.moment.isSome))
    resolutions := (l.cancelled c).toList ++ l.resolutions }

/-- A change of a ledger. -/
inductive Posting (l : Ledger) : Ledger → Prop where
  /-- The head of the line is sent. -/
  | send {c : Command} {rest : List Command} (head : l.line = c :: rest) :
      Posting l { l with sent := l.sent ++ [c] }
  /-- The head of the line ends, and not because another command takes its place. -/
  | finish {c : Command} {rest : List Command} {outcome : Outcome} (head : l.line = c :: rest)
      (own : ∀ id, outcome ≠ .superseded id) :
      Posting l { l with
        line := rest
        resolutions := ⟨c.id, c.address, outcome⟩ :: l.resolutions }
  /-- A step of a ramp goes on the line. -/
  | release {p : Part} {rest : List Part} (next : l.upcoming p.command.address = p :: rest) :
      Posting l (l.release p rest)
  /-- A command is taken. -/
  | take {c : Command} {ps : List Part} (row : IsRow c ps) :
      Posting l ((l.enter c ps).submitAll (ps.filter Part.isAtOnce))

/-- What is true of the ledger of every dispatcher in order. -/
structure Tidy (l : Ledger) : Prop where
  /-- No address stands on the line twice. -/
  places : (l.line.map Command.address).Nodup
  /-- The steps of a ramp end with the last one. -/
  ramps : ∀ a, l.upcoming a = [] ∨ ∃ front last, l.upcoming a = front ++ [last] ∧
    last.origin.isIntermediate = false ∧ ∀ p ∈ front, p.origin.isIntermediate = true
  /-- The steps for an address are for this address. -/
  address : ∀ a, ∀ p ∈ l.upcoming a, p.command.address = a

end Ledger

namespace Dispatcher

variable {d : Dispatcher}

theorem Orderly.tidy {w : World} (h : w.dispatcher.Orderly) : w.ledger.Tidy where
  places := h.places
  ramps := fun a => by
    cases running : w.dispatcher.plans.get a with
    | none => exact Or.inl (h.timely.follows.unplanned a running)
    | some plan =>
        obtain ⟨front, last, row, -, origin, early⟩ := h.timely.follows.planned a plan running
        refine Or.inr ⟨front, last, row, by rw [origin]; rfl, fun p hp => by rw [early p hp]; rfl⟩
  address := fun a p hp => by
    obtain ⟨e, -, step⟩ := List.mem_filterMap.mp hp
    obtain ⟨_, _, -, address, -⟩ := stepFor_eq_some step
    exact address

/-- What is told of the ramp that gives way to a command. -/
theorem resolutions_lay (h : d.Timely) (c : Command) (now : Instant) :
    (d.lay c now).resolutions =
      ((d.upcoming c.address).getLast?.map fun p =>
        (⟨p.command.id, c.address, .superseded c.id⟩ : Resolution)).toList ++ d.resolutions := by
  have room : (d.makeRoom c).resolutions =
      ((d.upcoming c.address).getLast?.map fun p =>
        (⟨p.command.id, c.address, .superseded c.id⟩ : Resolution)).toList ++ d.resolutions := by
    refine (Beside.record (d.cancelPlan c.address c.id) _ _ _).resolutions.trans ?_
    unfold cancelPlan
    cases running : d.plans.get c.address with
    | none =>
        rw [upcoming, h.follows.unplanned _ running]
        rfl
    | some plan =>
        obtain ⟨front, last, row, id, -⟩ := h.follows.planned _ plan running
        rw [upcoming, row, List.getLast?_append]
        simp only [List.getLast?_singleton, Option.some_or, Option.map_some, Option.toList_some, id]
        rfl
  rw [← room]
  unfold lay
  split <;> rfl

theorem Orderly.submitAll_ledger (h : d.Orderly) (ps : List Part) (l : Ledger)
    (line : l.line = d.line) (resolutions : l.resolutions = d.resolutions) :
    (l.submitAll ps).line = (d.submitAll ps).line ∧
      (l.submitAll ps).resolutions = (d.submitAll ps).resolutions := by
  induction ps generalizing d l with
  | nil => exact ⟨line, resolutions⟩
  | cons p ps ih =>
      obtain ⟨line', resolutions'⟩ := submit_eq_put h.places p.command p.origin
      refine ih (h.submit p.command p.origin) (l.submit p.command) ?_ ?_
      · rw [line', ← line]
        rfl
      · rw [resolutions', ← line, ← resolutions]
        rfl

theorem Ending.quiet {a : Attempt} {s : Step} {outcome : Outcome} (h : d.Ending a s outcome) :
    d.intent? s = none ∧ d.submits s = [] := by
  cases h with
  | accepted => exact ⟨rfl, rfl⟩
  | rejected => exact ⟨rfl, rfl⟩
  | expired due => exact ⟨rfl, by simp [submits, due, Dispatcher.due, Attempt.entry]⟩

theorem Ending.own {a : Attempt} {s : Step} {outcome : Outcome} (h : d.Ending a s outcome)
    (id : CommandId) : outcome ≠ .superseded id := by
  cases h <;> nofun

theorem Return.quiet {a : Attempt} {s : Step} {attempts : Nat} (h : d.Return a s attempts) :
    d.intent? s = none ∧ d.submits s = [] := by
  cases h with
  | rejected => exact ⟨rfl, rfl⟩
  | expired due => exact ⟨rfl, by simp [submits, due, Dispatcher.due, Attempt.entry]⟩
  | linkDown => exact ⟨rfl, rfl⟩

end Dispatcher

namespace World

open Dispatcher

variable {d d' : Dispatcher} (h : History)

/-- A step that shows nothing changes the ledger by what it does to the dispatcher only. -/
theorem ledger_quiet {s : Step} (intent : d.intent? s = none) (submits : d.submits s = []) :
    (World.mk d' (h.note d s none d')).ledger =
      { (World.mk d h).ledger with
        line := d'.line
        upcoming := d'.upcoming
        resolutions := d'.resolutions } := by
  simp [ledger, History.note, intent, submits, transmission?]

theorem ledger_send (now deadline : Instant) {q : Queued} {rest : List Queued}
    (free : d.inFlight = none) (head : d.waiting = q :: rest) (frame : List UInt8) :
    (World.mk (d.launch now deadline q rest)
        (h.note d (.poll now) (some frame) (d.launch now deadline q rest))).ledger =
      { (World.mk d h).ledger with sent := (World.mk d h).ledger.sent ++ [q.command] } := by
  ext1
  · exact List.append_nil _
  · exact List.append_nil _
  · exact List.map_append
  · show _ = d.line
    rw [line_of_idle free, head]
    rfl
  · exact funext (Timely.upcoming_launch now deadline q rest)
  · rfl

theorem ledger_take (orderly : d.Orderly) {c : Command} (now : Instant)
    (open? : d.excluded.get c.address = false) :
    (World.mk (d.accept c now) (h.note d (.enqueue c now) none (d.accept c now))).ledger =
      ((World.mk d h).ledger.enter c (d.parts c now)).submitAll
        ((d.parts c now).filter Part.isAtOnce) := by
  obtain ⟨line, told⟩ := (orderly.lay c now).submitAll_ledger
    ((d.parts c now).filter Part.isAtOnce) ((World.mk d h).ledger.enter c (d.parts c now))
    (line_lay d c now).symm (resolutions_lay orderly.timely c now).symm
  rw [Ledger.submitAll_frame, line, told, ← accept_eq]
  ext1
  · simp [ledger, History.note, intent?, open?, Ledger.enter]
  · simp [ledger, History.note, submits_take open?, Ledger.enter]
  · exact congrArg (List.map _) (List.append_nil _)
  · rfl
  · funext b
    show (d.accept c now).upcoming b = Function.update d.upcoming c.address _ b
    rw [orderly.timely.upcoming_accept, Function.update_apply]
  · rfl

theorem ledger_release (orderly : d.Orderly) {now : Instant} {e : Agenda.Entry Task}
    {g : Agenda Task} (due : d.agenda.popDue now = some (e, g)) {number : Nat} {c : Command}
    {last : Bool} (task : e.task = .rampStep number c last) :
    (World.mk ((d.withdraw e c.address last).submit c (.rampStep number last))
        (h.note d (.fire now) none
          ((d.withdraw e c.address last).submit c (.rampStep number last)))).ledger =
      (World.mk d h).ledger.release ⟨c, .rampStep number last, some e.deadline⟩
        (stepsFor g c.address) := by
  have withdrawn := orderly.withdraw due task
  obtain ⟨line, told⟩ := submit_eq_put withdrawn.places c (.rampStep number last)
  ext1
  · exact List.append_nil _
  · show h.stepped ++ _ = h.stepped ++ _
    rw [submits_release orderly.timely due task]
    cases last <;> rfl
  · exact congrArg (List.map _) (List.append_nil _)
  · exact line
  · funext b
    obtain ⟨-, rfl, -⟩ := orderly.timely.ordered.popDue_eq_some due
    show Dispatcher.upcoming _ b = Function.update d.upcoming c.address _ b
    rw [withdrawn.timely.upcoming_submit, Function.update_apply]
    split
    · rename_i same
      rw [same]
      rfl
    · rename_i other
      exact orderly.timely.stepsFor_pop due task other
  · exact told

/-- **A turn changes the ledger by a posting, or not at all.** -/
theorem ledger_turn (orderly : d.Orderly) {s : Step} {frame : Option (List UInt8)}
    (turn : d.Turn s frame d') :
    (World.mk d' (h.note d s frame d')).ledger = (World.mk d h).ledger ∨
      (World.mk d h).ledger.Posting (World.mk d' (h.note d s frame d')).ledger := by
  cases turn with
  | idle intent submits rest =>
      refine Or.inl ((ledger_quiet h intent submits).trans ?_)
      rw [rest.line, rest.resolutions, funext (rest.upcoming orderly.timely)]
      rfl
  | @finish _ a outcome _ flight ending rest =>
      obtain ⟨intent, submits⟩ := ending.quiet
      refine Or.inr ?_
      rw [ledger_quiet h intent submits, rest.line, rest.resolutions,
        funext (rest.upcoming (orderly.finish flight outcome).timely),
        show (d.finish a outcome).upcoming = d.upcoming from
          funext (orderly.timely.upcoming_land flight)]
      exact .finish (line_of_inFlight flight) ending.own
  | @putBack _ a attempts _ flight return? rest =>
      obtain ⟨intent, submits⟩ := return?.quiet
      refine Or.inl ?_
      rw [ledger_quiet h intent submits, rest.line, rest.resolutions,
        funext (rest.upcoming (orderly.putBack flight attempts).timely),
        show (d.putBack a attempts).upcoming = d.upcoming from
          funext (orderly.timely.upcoming_land flight),
        show (d.putBack a attempts).line = d.line from (line_of_inFlight flight).symm]
      rfl
  | @send now deadline q rest up free head =>
      have line : d.line = q.command :: rest.map Queued.command := by
        rw [line_of_idle free, head, List.map_cons]
      rw [ledger_send h now deadline free head]
      exact Or.inr (.send line)
  | take open? =>
      rw [ledger_take h orderly _ open?]
      exact Or.inr (.take (d.isRow_parts _ _))
  | release due task =>
      obtain ⟨plan, -, -, next, -⟩ := orderly.timely.step_due due task
      rw [ledger_release h orderly due task]
      exact Or.inr (.release next)

/-- **A step changes the ledger by a posting, or not at all.** -/
theorem ledger_step {w w' : World} {s : Step} (orderly : w.dispatcher.Orderly)
    (step : w.step s = .ok w') : w'.ledger = w.ledger ∨ w.ledger.Posting w'.ledger := by
  obtain ⟨frame, stepped, note⟩ := step_eq_ok step
  have := ledger_turn w.history orderly (turn orderly.timely stepped)
  rwa [← note] at this

/-- What every step of a dispatcher in order keeps, every run keeps. -/
theorem orderly_induction {P : World → Prop}
    (step : ∀ {w w' : World} {s : Step}, w.dispatcher.Orderly → P w → w.step s = .ok w' → P w')
    {w w' : World} {steps : List Step} (orderly : w.dispatcher.Orderly) (start : P w)
    (run : w.run steps = .ok w') : P w' ∧ w'.dispatcher.Orderly := by
  refine run_induction (P := fun w => P w ∧ w.dispatcher.Orderly) ?_ ⟨start, orderly⟩ run
  intro v s v' ⟨hP, h⟩ stepped
  obtain ⟨frame, same, -⟩ := step_eq_ok stepped
  exact ⟨step h hP stepped, h.step same⟩

/-- **What every posting keeps, every run keeps.** -/
theorem ledger_induction {P : Ledger → Prop}
    (post : ∀ {l l' : Ledger}, l.Tidy → P l → l.Posting l' → P l')
    {w w' : World} {steps : List Step} (orderly : w.dispatcher.Orderly) (start : P w.ledger)
    (run : w.run steps = .ok w') : P w'.ledger ∧ w'.dispatcher.Orderly := by
  refine orderly_induction (P := fun w => P w.ledger) ?_ orderly start run
  intro v v' s h hP step
  rcases ledger_step h step with same | posting
  · exact same ▸ hP
  · exact post h.tidy hP posting

end World

end Lighting
