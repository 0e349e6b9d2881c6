import Lighting.Proofs.Dispatcher.Precedence

/-!
# What a command leaves of those before it

A command takes the place of whatever its address still has to do: the ramp that runs is given up,
and the command that waits or is in flight gives way.  From then on nothing of the earlier commands
is on the line or on the agenda, no line is sent for them, and no answer to a line of theirs is taken
for an answer to another (`Forgotten`).

### The command that waits may stay

The dispatcher puts the parts of a command on the line, and a part is what the earlier command gives
way to.  A ramp all of whose steps lie ahead puts nothing on the line.  Then the command that waits
stays there, is sent and repeated as if no other had come, and gives way only to the first step of
the ramp.  So an earlier command is gone at once only if the new one has a part that goes on the line
(`Orderly.accept_alone`), and else it stays (`accept_of_later`).

### What is old

Identifiers may be used again, so what is old is told by positions: `n` commands were taken and `m`
lines were sent before.  What is on the line later must be of a row from the `n`-th on.
-/

namespace Lighting

namespace Ledger

/-- What is on the line for an address, what is to come for it and what was sent for it after the
first `m` lines is of the rows from the `n`-th on. -/
structure Since (l : Ledger) (a : Address) (n m : Nat) : Prop where
  /-- What is on the line. -/
  line : ∀ c ∈ l.line, c.address = a → c ∈ (l.intents.drop n).flatMap Intent.row
  /-- What is to come. -/
  upcoming : ∀ p ∈ l.upcoming a, p.command ∈ (l.intents.drop n).flatMap Intent.row
  /-- What was sent. -/
  sent : ∀ c ∈ l.sent.drop m, c.address = a → c ∈ (l.intents.drop n).flatMap Intent.row
  /-- The first `n` rows are there. -/
  taken : n ≤ l.intents.length

theorem mem_line_of_submitAll {l : Ledger} {ps : List Part} {x : Command}
    (hx : x ∈ (l.submitAll ps).line) : x ∈ l.line ∨ ∃ p ∈ ps, x = p.command := by
  induction ps generalizing l with
  | nil => exact Or.inl hx
  | cons p ps ih =>
      rcases ih hx with hx | ⟨q, hq, rfl⟩
      · rcases Command.mem_put hx with rfl | hx
        · exact Or.inr ⟨p, List.mem_cons_self, rfl⟩
        · exact Or.inl hx
      · exact Or.inr ⟨q, List.mem_cons_of_mem _ hq, rfl⟩

theorem since_send {l : Ledger} {a : Address} {n m : Nat} (h : l.Since a n m) {c : Command}
    {rest : List Command} (head : l.line = c :: rest) :
    Since { l with sent := l.sent ++ [c] } a n m := by
  refine ⟨h.line, h.upcoming, ?_, h.taken⟩
  intro x hx address
  rw [List.drop_append] at hx
  rcases List.mem_append.mp hx with hx | hx
  · exact h.sent x hx address
  · rw [List.mem_singleton.mp (List.mem_of_mem_drop hx)] at address ⊢
    exact h.line c (head ▸ List.mem_cons_self) address

theorem since_release {l : Ledger} {a : Address} {n m : Nat} (h : l.Since a n m) {p : Part}
    {rest : List Part} (next : l.upcoming p.command.address = p :: rest) :
    (l.release p rest).Since a n m := by
  refine ⟨?_, ?_, h.sent, h.taken⟩
  · intro x hx address
    rcases Command.mem_put hx with rfl | hx
    · exact h.upcoming p (by rw [← address, next]; exact List.mem_cons_self)
    · exact h.line x hx address
  · intro q hq
    apply h.upcoming
    by_cases same : a = p.command.address
    · subst same
      rw [show (l.release p rest).upcoming p.command.address = rest from
        Function.update_self _ _ _] at hq
      rw [next]
      exact List.mem_cons_of_mem _ hq
    · rwa [show (l.release p rest).upcoming a = l.upcoming a from
        Function.update_of_ne same _ _] at hq

theorem since_take {l : Ledger} {a : Address} {n m : Nat} (h : l.Since a n m) (c : Command)
    (ps : List Part) : ((l.enter c ps).submitAll (ps.filter Part.isAtOnce)).Since a n m := by
  have frame := submitAll_frame (l.enter c ps) (ps.filter Part.isAtOnce)
  have intents : ((l.enter c ps).submitAll (ps.filter Part.isAtOnce)).intents =
      l.intents ++ [⟨c, ps.map Part.command⟩] := by
    rw [frame]
    rfl
  have drop : (l.intents ++ [(⟨c, ps.map Part.command⟩ : Intent)]).drop n =
      l.intents.drop n ++ [⟨c, ps.map Part.command⟩] := List.drop_append_of_le_length h.taken
  -- the row is the last one, and what was of the rows before still is
  have new {p : Part} (hp : p ∈ ps) : p.command ∈ (l.intents.drop n ++
      [(⟨c, ps.map Part.command⟩ : Intent)]).flatMap Intent.row := by
    rw [List.flatMap_append]
    exact List.mem_append_right _ (by simpa using ⟨p, hp, rfl⟩)
  have old {x : Command} (hx : x ∈ (l.intents.drop n).flatMap Intent.row) :
      x ∈ (l.intents.drop n ++ [(⟨c, ps.map Part.command⟩ : Intent)]).flatMap Intent.row := by
    rw [List.flatMap_append]
    exact List.mem_append_left _ hx
  refine ⟨?_, ?_, ?_, ?_⟩
  · intro x hx address
    rw [intents, drop]
    rcases mem_line_of_submitAll hx with hx | ⟨p, hp, rfl⟩
    · exact old (h.line x hx address)
    · exact new (List.mem_filter.mp hp).1
  · intro p hp
    rw [intents, drop]
    rw [frame] at hp
    change p ∈ Function.update l.upcoming c.address (ps.filter (·.moment.isSome)) a at hp
    by_cases same : a = c.address
    · subst same
      rw [Function.update_self] at hp
      exact new (List.mem_filter.mp hp).1
    · rw [Function.update_of_ne same] at hp
      exact old (h.upcoming p hp)
  · intro x hx address
    rw [frame] at hx
    rw [intents, drop]
    exact old (h.sent x hx address)
  · rw [intents, List.length_append]
    exact Nat.le_add_right_of_le h.taken

/-- **What is old stays away.** -/
theorem Posting.since {l l' : Ledger} (post : l.Posting l') {a : Address} {n m : Nat}
    (h : l.Since a n m) : l'.Since a n m := by
  cases post with
  | send head => exact since_send h head
  | finish head own =>
      refine ⟨?_, h.upcoming, h.sent, h.taken⟩
      intro x hx address
      exact h.line x (head ▸ List.mem_cons_of_mem _ hx) address
  | release next => exact since_release h next
  | take row => exact since_take h _ _

end Ledger

namespace Dispatcher

variable {d : Dispatcher}

theorem mem_waiting_submit (d : Dispatcher) (c : Command) (origin : Origin) :
    ⟨c, origin, 0⟩ ∈ (d.submit c origin).waiting := by
  rcases d.submit_cases c origin with ⟨before, _, after, -, -, -, eq⟩ | ⟨a, -, -, eq⟩ | ⟨-, eq⟩
  · rw [eq]
    exact List.mem_append_right before List.mem_cons_self
  · rw [eq]
    exact List.mem_cons_self
  · rw [eq]
    exact List.mem_append_right d.waiting (List.mem_singleton_self _)

theorem submitAll_concat (d : Dispatcher) (ps : List Part) (p : Part) :
    d.submitAll (ps ++ [p]) = (d.submitAll ps).submit p.command p.origin :=
  List.foldl_concat _ _ _ _

/-- The command that was submitted last stands on the line for its address, alone. -/
theorem Orderly.alone (h : d.Orderly) (c : Command) (origin : Origin) :
    (d.submit c origin).line.filter (·.address = c.address) = [c] ∧
      ∀ t, (d.submit c origin).inFlight = some t → t.command.address ≠ c.address := by
  have line := line_submit h.places c origin
  refine ⟨line ▸ Command.filter_put_self h.places, ?_⟩
  intro t flight same
  -- the command waits, so that another one for its address is not in flight
  have places := (h.submit c origin).places
  rw [Dispatcher.places, line_of_inFlight flight, List.map_cons] at places
  apply (List.nodup_cons.mp places).1
  rw [same, List.map_map]
  exact List.mem_map_of_mem (f := Command.address ∘ Queued.command) (mem_waiting_submit d c origin)

/-- What was told stays told. -/
theorem Orderly.told_submitAll (h : d.Orderly) (ps : List Part) :
    d.resolutions <:+ (d.submitAll ps).resolutions := by
  let l : Ledger := ⟨[], [], [], d.line, fun _ => [], d.resolutions⟩
  rw [← (h.submitAll_ledger ps l rfl rfl).2]
  exact (Ledger.extends_submitAll l ps).resolutions

/-- Whoever stands on the line for an address gives way to the first part that is submitted. -/
theorem Orderly.givesWay (h : d.Orderly) {ps : List Part} {told : List Resolution}
    (resolutions : (d.submitAll ps).resolutions = told ++ d.resolutions) {old : Command}
    (there : old ∈ d.line) (some : ps ≠ []) (mine : ∀ p ∈ ps, p.command.address = old.address) :
    ∃ p ∈ ps, Command.givesWay p.command.id old ∈ told := by
  obtain ⟨p, ps, rfl⟩ := List.exists_cons_of_ne_nil some
  have same := mine p List.mem_cons_self
  have displaced : p.command.displaced d.line = .some old := by
    cases found : p.command.displaced d.line with
    | none => exact absurd same.symm (by simpa using List.find?_eq_none.mp found old there)
    | some x =>
        -- two commands for one address do not stand on the line
        have address : x.address = p.command.address := by simpa using List.find?_some found
        exact congrArg Option.some (List.inj_on_of_nodup_map h.places
          (List.mem_of_find?_eq_some found) there (address.trans same))
  have submitted := (submit_eq_put h.places p.command p.origin).2
  rw [displaced] at submitted
  obtain ⟨later, eq⟩ := (h.submit p.command p.origin).told_submitAll ps
  have all : told = later ++ [Command.givesWay p.command.id old] := by
    refine List.append_cancel_right (?_ : told ++ d.resolutions = _ ++ d.resolutions)
    rw [← resolutions, submitAll_cons, ← eq, submitted, List.append_assoc]
    rfl
  exact ⟨p, List.mem_cons_self, by simp [all]⟩

/-- What a command puts on the line at once. -/
def atOnce (d : Dispatcher) (c : Command) (now : Instant) : List Part :=
  (d.parts c now).filter Part.isAtOnce

theorem address_atOnce {c : Command} {now : Instant} {p : Part} (h : p ∈ d.atOnce c now) :
    p.command.address = c.address :=
  address_parts (List.mem_filter.mp h).1

/-- A command that puts nothing on the line leaves the line as it is. -/
theorem accept_of_later {c : Command} {now : Instant} (none : d.atOnce c now = []) :
    d.accept c now = d.lay c now := by
  rw [accept_eq, show (d.parts c now).filter Part.isAtOnce = [] from none]
  rfl

/-- A command that puts something on the line, or for whose address nothing is there, is alone on the
line for its address, and nothing is in flight for it. -/
theorem Orderly.accept_alone (h : d.Orderly) {c : Command} {now : Instant}
    (gone : d.atOnce c now ≠ [] ∨ c.address ∉ d.places) :
    (d.accept c now).line.filter (·.address = c.address) =
        ((d.atOnce c now).getLast?.map Part.command).toList ∧
      ∀ t, (d.accept c now).inFlight = some t → t.command.address ≠ c.address := by
  rcases List.eq_nil_or_concat (d.atOnce c now) with none | ⟨front, last, eq⟩
  · have absent := gone.resolve_left fun some => some none
    rw [accept_of_later none, line_lay, none]
    constructor
    · apply List.filter_eq_nil_iff.mpr
      intro x hx
      simpa using fun same : x.address = c.address => absent (same ▸ List.mem_map_of_mem hx)
    · intro t flight same
      apply absent
      rw [(lay_frame d c now).1] at flight
      rw [Dispatcher.places, line_of_inFlight flight, ← same]
      exact List.mem_cons_self
  · have member : last ∈ d.atOnce c now := by
      rw [eq]
      simp
    have address := address_atOnce member
    rw [accept_eq, show (d.parts c now).filter Part.isAtOnce = d.atOnce c now from rfl, eq,
      List.concat_eq_append, submitAll_concat, ← address, List.getLast?_concat]
    exact ((h.lay c now).submitAll front).alone last.command last.origin

/-- What is told when a command is taken: of the ramp that is given up, and of the command that gives
way to the first part. -/
theorem Orderly.told_accept (h : d.Orderly) (c : Command) (now : Instant) :
    ∃ told, (d.accept c now).resolutions = told ++ d.resolutions ∧
      (∀ plan, d.plans.get c.address = some plan →
        ⟨plan.final, c.address, .superseded c.id⟩ ∈ told) ∧
      ∀ old ∈ d.line, old.address = c.address → d.atOnce c now ≠ [] →
        ∃ p ∈ d.atOnce c now, Command.givesWay p.command.id old ∈ told := by
  obtain ⟨told, eq⟩ := (h.lay c now).told_submitAll (d.atOnce c now)
  have laid := resolutions_lay h.timely c now
  generalize cancelled_eq : ((d.upcoming c.address).getLast?.map fun p =>
    (⟨p.command.id, c.address, .superseded c.id⟩ : Resolution)).toList = cancelled at laid
  refine ⟨told ++ cancelled, ?_, ?_, ?_⟩
  · rw [accept_eq, List.append_assoc, ← laid]
    exact eq.symm
  · intro plan running
    obtain ⟨front, last, row, id, -⟩ := h.timely.follows.planned _ plan running
    apply List.mem_append_right
    rw [← cancelled_eq, upcoming, row, List.getLast?_concat, ← id]
    exact List.mem_singleton_self _
  · intro old there same some
    obtain ⟨p, hp, gone⟩ := (h.lay c now).givesWay eq.symm (line_lay d c now ▸ there) some
      fun p hp => (address_atOnce hp).trans same.symm
    exact ⟨p, hp, List.mem_append_left _ gone⟩

end Dispatcher

namespace World

/-- What was for an address before the `n`-th command and the `m`-th line is forgotten. -/
structure Forgotten (w : World) (a : Address) (n m : Nat) : Prop where
  /-- It is not on the line. -/
  line : ∀ c ∈ w.dispatcher.line, c.address = a →
    c ∈ (w.history.intents.drop n).flatMap Intent.row
  /-- It is not to come. -/
  upcoming : ∀ p ∈ w.dispatcher.upcoming a,
    p.command ∈ (w.history.intents.drop n).flatMap Intent.row
  /-- It is not sent any more. -/
  lines : ∀ t ∈ w.history.lines.drop m, t.attempt.command.address = a →
    t.attempt.command ∈ (w.history.intents.drop n).flatMap Intent.row
  /-- Its deadline does not expire: the only one that runs is that of the attempt in flight, and this
  is another one. -/
  deadline : ∀ e ∈ w.dispatcher.agenda.entries, ∀ id number, e.task = .confirmation id number →
    ∃ t, w.dispatcher.inFlight = some t ∧ e = t.entry ∧
      (t.command.address = a → t.command ∈ (w.history.intents.drop n).flatMap Intent.row)
  /-- An answer to one of its lines changes nothing, unless the line in flight bears the confirmation
  character of that line again, being a multiple of nineteen lines later. -/
  answer : ∀ i t, i < m → w.history.lines[i]? = some t → t.attempt.command.address = a →
    (∀ k, 0 < k → w.history.lines.length ≠ i + 1 + 19 * k) →
    w.history.lines.length ≤ UInt64.size → ∀ c now, t.attempt.key.matches c = true →
      w.dispatcher.onConfirmation c now = .ok w.dispatcher

/-- An attempt in flight for the address was made by a line after the first `m`. -/
structure Recent (w : World) (a : Address) (m : Nat) : Prop where
  /-- The first `m` lines were sent. -/
  sent : m ≤ w.history.lines.length
  /-- An attempt in flight is not one of theirs. -/
  flight : ∀ t, w.dispatcher.inFlight = some t → t.command.address = a →
    m < w.history.lines.length

theorem Recent.step {w w' : World} {s : Dispatcher.Step} {a : Address} {m : Nat}
    (h : w.Recent a m) (orderly : w.dispatcher.Orderly) (step : w.step s = .ok w') :
    w'.Recent a m := by
  have sent := h.sent
  rcases lines_step orderly step with ⟨lines, keeps⟩ | ⟨t, lines, -⟩
  · refine ⟨lines ▸ sent, ?_⟩
    intro t flight address
    rw [lines]
    exact h.flight t (keeps.inFlight t flight) address
  · have length : w'.history.lines.length = w.history.lines.length + 1 := by
      rw [lines, List.length_append, List.length_singleton]
    exact ⟨by omega, fun _ _ _ => by omega⟩

/-- An answer to a line before the `m`-th for the address is not one to the attempt in flight. -/
theorem Recent.answer {w : World} {a : Address} {m : Nat} (h : w.Recent a m)
    (numbered : w.Numbered) {i : Nat} {t : Transmission} (old : i < m)
    (there : w.history.lines[i]? = some t) (address : t.attempt.command.address = a)
    (turn : ∀ k, 0 < k → w.history.lines.length ≠ i + 1 + 19 * k)
    (bound : w.history.lines.length ≤ UInt64.size)
    {c : Packet.Confirmation} (now : Instant) (answer : t.attempt.key.matches c = true) :
    w.dispatcher.onConfirmation c now = .ok w.dispatcher := by
  unfold Dispatcher.onConfirmation
  cases flight : w.dispatcher.inFlight with
  | none => rfl
  | some u =>
      obtain ⟨last, made, rfl⟩ := Option.map_eq_some_iff.mp (numbered.flight u flight)
      rw [List.getLast?_eq_getElem?] at made
      -- the line in flight comes after the old one
      have bound' := (List.getElem?_eq_some_iff.mp made).1
      have later : i < w.history.lines.length - 1 := by
        by_contra not
        have same : i = w.history.lines.length - 1 := by
          have := h.sent
          omega
        rw [same, made] at there
        cases there
        have := h.flight _ flight address
        omega
      have apart := Packet.token_ne (Nat.le_of_lt later) (by
        rintro ⟨k, eq⟩
        exact turn k (by omega) (by omega)) (Nat.lt_of_lt_of_le bound' bound)
      have differ : last.attempt.key.matches c = false := by
        rw [(numbered.line _ _ there).2] at answer
        rw [(numbered.line _ _ made).2]
        simp only [Packet.MatchKey.matches, Packet.matchKey, Bool.and_eq_true, beq_iff_eq] at answer
        simp [Packet.MatchKey.matches, Packet.matchKey, answer.1.1, apart]
      simp [differ]

/-- What the run of a world keeps, so that what is old stays forgotten. -/
structure Past (w : World) (a : Address) (n m : Nat) : Prop where
  orderly : w.dispatcher.Orderly
  numbered : w.Numbered
  since : w.ledger.Since a n m
  recent : w.Recent a m

theorem Past.run {w w' : World} {steps : List Dispatcher.Step} {a : Address} {n m : Nat}
    (h : w.Past a n m) (run : w.run steps = .ok w') : w'.Past a n m := by
  refine run_induction (P := fun w => w.Past a n m) ?_ h run
  intro v s v' h step
  obtain ⟨frame, stepped, -⟩ := step_eq_ok step
  refine ⟨h.orderly.step stepped, h.numbered.step h.orderly step, ?_, h.recent.step h.orderly step⟩
  rcases ledger_step h.orderly step with same | post
  · exact same ▸ h.since
  · exact post.since h.since

theorem Past.forgotten {w : World} {a : Address} {n m : Nat} (h : w.Past a n m) :
    w.Forgotten a n m where
  line := h.since.line
  upcoming := h.since.upcoming
  lines := by
    intro t ht
    apply h.since.sent
    show t.attempt.command ∈ (w.history.lines.map (·.attempt.command)).drop m
    rw [← List.map_drop]
    exact List.mem_map_of_mem ht
  deadline := by
    intro e he id number task
    obtain ⟨t, flight, same⟩ := h.orderly.timely.awaits.owned e he id number task
    refine ⟨t, flight, same, ?_⟩
    apply h.since.line
    show t.command ∈ w.dispatcher.line
    rw [Dispatcher.line_of_inFlight flight]
    exact List.mem_cons_self
  answer := fun _ _ old there address turn bound _ now answer =>
    h.recent.answer h.numbered old there address turn bound now answer

/-- A command that is taken: the world afterwards. -/
theorem step_take (w : World) {c : Command} (now : Instant)
    (open? : w.dispatcher.excluded.get c.address = false) :
    ∃ w', w.step (.enqueue c now) = .ok w' ∧ w'.dispatcher = w.dispatcher.accept c now ∧
      w'.history.intents = w.history.intents ++ [⟨c, (w.dispatcher.parts c now).map Part.command⟩] ∧
      w'.history.lines = w.history.lines := by
  have taken : w.dispatcher.enqueue c now = w.dispatcher.accept c now := by
    rw [Dispatcher.enqueue, open?]
    rfl
  refine ⟨⟨w.dispatcher.accept c now, w.history.note w.dispatcher (.enqueue c now) none
    (w.dispatcher.accept c now)⟩, ?_, rfl, ?_, List.append_nil _⟩
  · rw [← taken]
    rfl
  · simp [History.note, Dispatcher.intent?, open?]

/-- What is old when a command is taken. -/
theorem past_take {w w' : World} (orderly : w.dispatcher.Orderly) (numbered : w.Numbered)
    {c : Command} {now : Instant} (step : w.step (.enqueue c now) = .ok w')
    (dispatcher : w'.dispatcher = w.dispatcher.accept c now)
    (intents : w'.history.intents =
      w.history.intents ++ [⟨c, (w.dispatcher.parts c now).map Part.command⟩])
    (lines : w'.history.lines = w.history.lines)
    (gone : w.dispatcher.atOnce c now ≠ [] ∨ c.address ∉ w.dispatcher.places) :
    w'.Past c.address w.history.intents.length w.history.lines.length := by
  obtain ⟨frame, stepped, -⟩ := step_eq_ok step
  obtain ⟨line, flight⟩ := orderly.accept_alone gone
  have row : (w'.history.intents.drop w.history.intents.length).flatMap Intent.row =
      (w.dispatcher.parts c now).map Part.command := by
    rw [intents, List.drop_left]
    exact List.append_nil _
  refine ⟨orderly.step stepped, numbered.step orderly step, ⟨?_, ?_, ?_, ?_⟩, ⟨?_, ?_⟩⟩
  · intro x hx address
    show x ∈ (w'.history.intents.drop _).flatMap Intent.row
    rw [row]
    have there : x ∈ (w.dispatcher.accept c now).line.filter (·.address = c.address) :=
      List.mem_filter.mpr ⟨dispatcher ▸ hx, by simpa using address⟩
    rw [line, Option.mem_toList] at there
    obtain ⟨p, last, rfl⟩ := Option.map_eq_some_iff.mp there
    exact List.mem_map_of_mem (List.mem_filter.mp (List.mem_of_getLast? last)).1
  · intro p hp
    show p.command ∈ (w'.history.intents.drop _).flatMap Intent.row
    rw [row]
    have hp : p ∈ (w.dispatcher.accept c now).upcoming c.address := dispatcher ▸ hp
    rw [orderly.timely.upcoming_accept, if_pos rfl] at hp
    exact List.mem_map_of_mem (List.mem_filter.mp hp).1
  · intro x hx
    have none : w'.ledger.sent.drop w.history.lines.length = [] := by
      show (w'.history.lines.map (·.attempt.command)).drop _ = []
      rw [lines, ← List.map_drop, List.drop_length]
      rfl
    rw [none] at hx
    cases hx
  · show _ ≤ w'.history.intents.length
    rw [intents, List.length_append]
    exact Nat.le_add_right _ _
  · exact Nat.le_of_eq (congrArg List.length lines.symm)
  · intro t flight' address
    exact absurd address (flight t (dispatcher ▸ flight'))

/-- **A command supersedes those before it at once**, if it puts something on the line or nothing for
its address is there.  After it is taken, what is on the line and on the agenda for its address is
its own; the command that was on the line and the ramp that was running are told to have given way;
the deadline of an attempt in flight is struck; and what came before stays forgotten.  Otherwise the
command that was on the line stays there. -/
theorem superseded_at_once {settings : Settings} {excluded : List Address}
    {steps : List Dispatcher.Step} {w : World} (run : (start settings excluded).run steps = .ok w)
    {c : Command} (now : Instant) (open? : w.dispatcher.excluded.get c.address = false) :
    ∃ w', w.step (.enqueue c now) = .ok w' ∧
      w'.dispatcher.upcoming c.address =
        (w.dispatcher.parts c now).filter (·.moment.isSome) ∧
      (∃ told, w'.dispatcher.resolutions = told ++ w.dispatcher.resolutions ∧
        (∀ plan, w.dispatcher.plans.get c.address = some plan →
          ⟨plan.final, c.address, .superseded c.id⟩ ∈ told) ∧
        ∀ old ∈ w.dispatcher.line, old.address = c.address → w.dispatcher.atOnce c now ≠ [] →
          ∃ p ∈ w.dispatcher.atOnce c now, Command.givesWay p.command.id old ∈ told) ∧
      (w.dispatcher.atOnce c now ≠ [] ∨ c.address ∉ w.dispatcher.places →
        w'.dispatcher.line.filter (·.address = c.address) =
            ((w.dispatcher.atOnce c now).getLast?.map Part.command).toList ∧
          (∀ t, w'.dispatcher.inFlight = some t → t.command.address ≠ c.address) ∧
          (∀ t, w.dispatcher.inFlight = some t → t.command.address = c.address →
            t.entry ∉ w'.dispatcher.agenda.entries) ∧
          ∀ more w'', w'.run more = .ok w'' →
            w''.Forgotten c.address w.history.intents.length w.history.lines.length) ∧
      (w.dispatcher.atOnce c now = [] →
        w'.dispatcher.inFlight = w.dispatcher.inFlight ∧
          w'.dispatcher.waiting = w.dispatcher.waiting) := by
  obtain ⟨numbered, orderly⟩ := (numbered_start settings excluded).run
    (Dispatcher.orderly_create settings excluded) run
  obtain ⟨w', step, dispatcher, intents, lines⟩ := w.step_take now open?
  obtain ⟨frame, stepped, -⟩ := step_eq_ok step
  refine ⟨w', step, ?_, ?_, ?_, ?_⟩
  · rw [dispatcher, orderly.timely.upcoming_accept, if_pos rfl]
  · rw [dispatcher]
    exact orderly.told_accept c now
  · intro gone
    have alone := orderly.accept_alone gone
    rw [← dispatcher] at alone
    refine ⟨alone.1, alone.2, ?_, ?_⟩
    · intro t flight address there
      -- only the attempt in flight has its deadline on the agenda
      obtain ⟨u, flight', -⟩ := (orderly.step stepped).timely.awaits.owned _ there _ _ rfl
      have kept := (Dispatcher.keeps_accept w.dispatcher c now).inFlight u (dispatcher ▸ flight')
      cases flight.symm.trans kept
      exact alone.2 t flight' address
    · intro more w'' run'
      exact ((past_take orderly numbered step dispatcher intents lines gone).run run').forgotten
  · intro none
    obtain ⟨inFlight, waiting, -⟩ := Dispatcher.lay_frame w.dispatcher c now
    rw [dispatcher, Dispatcher.accept_of_later none]
    exact ⟨inFlight, waiting⟩

/-- A line is in flight when darkness is asked for: the command gives way, and when its line is answered
after all nothing changes. -/
theorem superseded_at_once_in_flight :
    ∃ w w', (start .standard []).run
        [.linkUp, .issue, .enqueue ⟨⟨1⟩, ⟨6⟩, .setLevel ⟨40⟩, .start⟩ .start, .poll .start,
          .issue] = .ok w ∧
      w.step (.enqueue ⟨⟨2⟩, ⟨6⟩, .off, .start⟩ .start) = .ok w' ∧
      w.dispatcher.inFlight.isSome = true ∧
      w'.dispatcher.line.filter (·.address = ⟨6⟩) =
        ((w.dispatcher.atOnce ⟨⟨2⟩, ⟨6⟩, .off, .start⟩ .start).getLast?.map Part.command).toList ∧
      ∀ more w'', w'.run more = .ok w'' →
        w''.Forgotten ⟨6⟩ w.history.intents.length w.history.lines.length := by
  obtain ⟨w, run, seen⟩ := Dispatcher.exists_ok
    (x := (start .standard []).run
      [.linkUp, .issue, .enqueue ⟨⟨1⟩, ⟨6⟩, .setLevel ⟨40⟩, .start⟩ .start, .poll .start, .issue])
    (f := fun w => (w.dispatcher.inFlight.isSome, w.dispatcher.excluded.get ⟨6⟩,
      (w.dispatcher.atOnce ⟨⟨2⟩, ⟨6⟩, .off, .start⟩ .start).isEmpty))
    (b := (true, false, false)) (by decide +kernel)
  obtain ⟨flight, rest⟩ := Prod.mk.inj seen
  obtain ⟨open?, some⟩ := Prod.mk.inj rest
  obtain ⟨w', step, -, -, gone, -⟩ :=
    superseded_at_once run (c := ⟨⟨2⟩, ⟨6⟩, .off, .start⟩) .start open?
  obtain ⟨line, -, -, forgotten⟩ := gone (Or.inl (by simpa using some))
  exact ⟨w, w', run, step, flight, line, forgotten⟩

/-- A level is asked for and then a ramp all of whose steps lie ahead: the command for the level still
waits, nothing is told of it, and it is what the next line carries. -/
theorem left_on_the_line :
    ∃ w w', (start { Settings.standard with nativeRamps := false, rampSteps := 2 } []).run
        [.enqueue ⟨⟨1⟩, ⟨6⟩, .setLevel ⟨40⟩, .start⟩ .start,
          .enqueue ⟨⟨2⟩, ⟨6⟩, .ramp .full (.ofSeconds 8), .start⟩ .start] = .ok w ∧
      w.dispatcher.waiting.map (·.command.id) = [⟨1⟩] ∧ w.dispatcher.resolutions = [] ∧
      (start { Settings.standard with nativeRamps := false, rampSteps := 2 } []).run
        [.enqueue ⟨⟨1⟩, ⟨6⟩, .setLevel ⟨40⟩, .start⟩ .start,
          .enqueue ⟨⟨2⟩, ⟨6⟩, .ramp .full (.ofSeconds 8), .start⟩ .start, .linkUp,
          .poll .start] = .ok w' ∧
      w'.history.lines.map (·.attempt.command.id) = [⟨1⟩] := by
  obtain ⟨w, run, seen⟩ := Dispatcher.exists_ok
    (x := (start { Settings.standard with nativeRamps := false, rampSteps := 2 } []).run
      [.enqueue ⟨⟨1⟩, ⟨6⟩, .setLevel ⟨40⟩, .start⟩ .start,
        .enqueue ⟨⟨2⟩, ⟨6⟩, .ramp .full (.ofSeconds 8), .start⟩ .start])
    (f := fun w => (w.dispatcher.waiting.map (·.command.id), w.dispatcher.resolutions))
    (b := ([⟨1⟩], [])) (by decide +kernel)
  obtain ⟨w', run', sent⟩ := Dispatcher.exists_ok
    (x := (start { Settings.standard with nativeRamps := false, rampSteps := 2 } []).run
      [.enqueue ⟨⟨1⟩, ⟨6⟩, .setLevel ⟨40⟩, .start⟩ .start,
        .enqueue ⟨⟨2⟩, ⟨6⟩, .ramp .full (.ofSeconds 8), .start⟩ .start, .linkUp, .poll .start])
    (f := fun w => w.history.lines.map (·.attempt.command.id)) (b := [⟨1⟩]) (by decide +kernel)
  obtain ⟨waiting, told⟩ := Prod.mk.inj seen
  exact ⟨w, w', run, waiting, told, run', sent⟩

end World

end Lighting
