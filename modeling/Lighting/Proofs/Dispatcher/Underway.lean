import Lighting.Proofs.Dispatcher.Pending
import Lighting.Proofs.Dispatcher.Wakeup

/-!
# A row on its way

While no other command comes for an address, its line is a matter of one row.  The parts of the row go
on the line in order, some at once and the others as they fall due, and each of them takes the place of
the one before.  `Underway` splits the row into the parts that have gone on the line and those that are
still to come: only the last of the former may be there now, whatever becomes of the link, of the lines
that were sent and of the commands for other addresses.

### What falls due

When its moment has come a part goes on the line and waits there, and no other task takes it away again.
So once the agenda is worked off up to the end of a row, the last part of the row waits.

### What is sent

A line can carry only what stands on the line.  So the lines for the address carry parts of the row,
and in the order of the row, each of them as often as it takes.  Whatever relates each part of the row to
those behind it therefore relates each line to those sent later, unless they carry the same part.
-/

namespace Lighting

/-- The step takes no command for an address. -/
def Dispatcher.Step.Spares (a : Address) (s : Step) : Prop :=
  ∀ c now, s = .enqueue c now → c.address ≠ a

namespace Dispatcher

variable {d d' : Dispatcher} {a : Address}

/-- A command for an address waits. -/
def Waits (d : Dispatcher) (a : Address) : Prop := ∃ q ∈ d.waiting, q.command.address = a

theorem Waits.mem_places (h : d.Waits a) : a ∈ d.places := by
  obtain ⟨q, hq, mine⟩ := h
  exact mem_places_iff.mpr ⟨q.part, List.mem_append_right _ (List.mem_map_of_mem hq), mine⟩

theorem waits_submit (d : Dispatcher) (c : Command) (origin : Origin) :
    (d.submit c origin).Waits c.address :=
  ⟨_, mem_waiting_submit d c origin, rfl⟩

/-- A command that waits gives way only to one that waits for the same address. -/
theorem Waits.submit (h : d.Waits a) (c : Command) (origin : Origin) :
    (d.submit c origin).Waits a := by
  obtain ⟨q, hq, mine⟩ := h
  rcases submit_cases d c origin with
    ⟨before, old, after, waiting, same, -, eq⟩ | ⟨_, -, -, eq⟩ | ⟨-, eq⟩
  · rw [waiting] at hq
    rw [eq]
    rcases List.mem_append.mp hq with hq | hq
    · exact ⟨q, List.mem_append_left _ hq, mine⟩
    · rcases List.mem_cons.mp hq with rfl | hq
      · exact ⟨_, List.mem_append_right before List.mem_cons_self, same.symm.trans mine⟩
      · exact ⟨q, List.mem_append_right before (List.mem_cons_of_mem _ hq), mine⟩
  · rw [eq]
    exact ⟨q, List.mem_cons_of_mem _ hq, mine⟩
  · rw [eq]
    exact ⟨q, List.mem_append_left _ hq, mine⟩

/-- A task that falls due leaves the steps to come for an address and what waits for it, or a command for
the address waits afterwards. -/
theorem Turn.waits {now : Instant} {frame : Option (List UInt8)} (turn : d.Turn (.fire now) frame d')
    (h : d.Orderly) (a : Address) :
    d'.upcoming a = d.upcoming a ∧ (d.Waits a → d'.Waits a) ∨ d'.Waits a := by
  cases turn with
  | idle intent submits rest =>
      refine Or.inl ⟨rest.upcoming h.timely a, fun waits => ?_⟩
      rwa [Waits, rest.waiting]
  | @release now e g number c last due task =>
      by_cases mine : c.address = a
      · exact Or.inr (mine ▸ waits_submit _ c (.rampStep number last))
      · have withdrawn := h.withdraw due task
        have elsewhere := h.timely.stepsFor_pop due task (Ne.symm mine)
        obtain ⟨-, rfl, -⟩ := h.timely.ordered.popDue_eq_some due
        refine Or.inl ⟨(withdrawn.timely.upcoming_submit c _ a).trans elsewhere, fun waits => ?_⟩
        have kept : (d.withdraw e c.address last).Waits a := waits
        exact kept.submit c _
  | @finish s t outcome d' flight ending rest =>
      refine Or.inl ⟨?_, fun waits => ?_⟩
      · exact (rest.upcoming (h.finish flight outcome).timely a).trans (h.timely.upcoming_land flight a)
      · rwa [Waits, rest.waiting]
  | @putBack s t attempts d' flight return? rest =>
      refine Or.inl ⟨?_, fun ⟨q, hq, mine⟩ => ⟨q, ?_, mine⟩⟩
      · exact (rest.upcoming (h.putBack flight attempts).timely a).trans
          (h.timely.upcoming_land flight a)
      · rw [rest.waiting]
        exact List.mem_cons_of_mem _ hq

/-- Where steps were to come and are not any more, because they have fallen due, a command waits. -/
theorem waits_of_fires (h : d.Orderly) {now : Instant} {n : Nat} {frames : List (List UInt8)}
    (run : d.run (List.replicate n (.fire now)) = .ok (frames, d')) (a : Address) :
    d'.upcoming a = d.upcoming a ∧ (d.Waits a → d'.Waits a) ∨ d'.Waits a := by
  induction n generalizing d frames with
  | zero =>
      cases run
      exact Or.inl ⟨rfl, id⟩
  | succ n ih =>
      obtain ⟨frame, e, frames', first, tail⟩ := run_cons_eq_ok run
      rcases ih (h.step first) tail with ⟨same, kept⟩ | waits
      · rcases (turn h.timely first).waits h a with ⟨same', kept'⟩ | waits
        · exact Or.inl ⟨same.trans same', kept ∘ kept'⟩
        · exact Or.inr (kept waits)
      · exact Or.inr waits

end Dispatcher

namespace World

/-- The lines for an address after the first `m` lines. -/
def sentSince (w : World) (a : Address) (m : Nat) : List Transmission :=
  (w.history.lines.drop m).filter (·.attempt.command.address = a)

/-- Of the row of an address `gone` has gone on the line and `rest` is still to come. -/
structure Underway (w : World) (a : Address) (m : Nat) (gone rest : List Part) : Prop where
  orderly : w.dispatcher.Orderly
  numbered : w.Numbered
  /-- The first `m` lines were sent. -/
  before : m ≤ w.history.lines.length
  /-- What is to come. -/
  upcoming : w.dispatcher.upcoming a = rest
  /-- Only the part that went on the line last is on it. -/
  held : ∀ p ∈ w.dispatcher.held, p.command.address = a → gone.getLast?.map Part.held = some p
  /-- The lines carry parts that have gone on the line. -/
  sent : ∀ t ∈ w.sentSince a m, t.attempt.part ∈ gone.map Part.held
  /-- The lines carry them in order. -/
  order : ∀ R : Part → Part → Prop, (gone.map Part.held).Pairwise R →
    (w.sentSince a m).Pairwise fun t u =>
      t.attempt.part = u.attempt.part ∨ R t.attempt.part u.attempt.part

variable {w w' : World} {a : Address} {m : Nat} {gone rest : List Part} {s : Dispatcher.Step}

theorem lines_of_quiet {d' : Dispatcher} (note : w'.history = w.history.note w.dispatcher s none d') :
    w'.history.lines = w.history.lines := by
  rw [note]
  exact List.append_nil _

/-- Where nothing is on the line and nothing is to come, an empty row is on its way. -/
theorem underway_nil (orderly : w.dispatcher.Orderly) (numbered : w.Numbered)
    (absent : a ∉ w.dispatcher.places) (idle : w.dispatcher.upcoming a = []) :
    w.Underway a w.history.lines.length [] [] := by
  have none : w.sentSince a w.history.lines.length = [] := by
    rw [sentSince, List.drop_length, List.filter_nil]
  refine ⟨orderly, numbered, Nat.le_refl _, idle, fun p hp mine => ?_, fun t ht => ?_, fun R _ => ?_⟩
  · exact absurd (Dispatcher.mem_places_iff.mpr ⟨p, hp, mine⟩) absent
  · rw [none] at ht
    cases ht
  · rw [none]
    exact List.Pairwise.nil

/-- **A command that is taken starts its row on its way**, if it puts something on the line or nothing
for its address is there. -/
theorem underway_take (orderly : w.dispatcher.Orderly) (numbered : w.Numbered) {c : Command}
    {now : Instant} (open? : w.dispatcher.excluded.get c.address = false)
    (step : w.step (.enqueue c now) = .ok w')
    (alone : w.dispatcher.atOnce c now ≠ [] ∨ c.address ∉ w.dispatcher.places) :
    w'.Underway c.address w.history.lines.length (w.dispatcher.atOnce c now)
      ((w.dispatcher.parts c now).filter (·.moment.isSome)) := by
  obtain ⟨v, taken, dispatcher, -, lines⟩ := w.step_take now open?
  obtain rfl : v = w' := Except.ok.inj (taken.symm.trans step)
  obtain ⟨frame, stepped, -⟩ := step_eq_ok step
  have none : v.sentSince c.address w.history.lines.length = [] := by
    rw [sentSince, lines, List.drop_length, List.filter_nil]
  refine ⟨orderly.step stepped, numbered.step orderly step, Nat.le_of_eq (congrArg _ lines.symm),
    ?_, fun p hp mine => ?_, fun t ht => ?_, fun R _ => ?_⟩
  · rw [dispatcher, orderly.timely.upcoming_accept, if_pos rfl]
  · rw [dispatcher] at hp
    rcases List.eq_nil_or_concat (w.dispatcher.atOnce c now) with later | ⟨front, last, row⟩
    · rw [Dispatcher.accept_of_later later, Dispatcher.held_lay] at hp
      exact absurd (Dispatcher.mem_places_iff.mpr ⟨p, hp, mine⟩)
        (alone.resolve_left fun some => some later)
    · rw [List.concat_eq_append] at row
      have address : last.command.address = c.address :=
        Dispatcher.address_atOnce (row ▸ List.mem_append_right front (List.mem_singleton_self last))
      rw [Dispatcher.accept_eq, show (w.dispatcher.parts c now).filter Part.isAtOnce = _ from row,
        Dispatcher.submitAll_concat] at hp
      rcases Dispatcher.mem_held_submit ((orderly.lay c now).submitAll front).places hp with
        rfl | ⟨-, other⟩
      · rw [row, List.getLast?_concat]
        rfl
      · exact absurd (mine.trans address.symm) other
  · rw [none] at ht
    cases ht
  · rw [none]
    exact List.Pairwise.nil

/-- Nothing more has gone on the line, and nothing was sent. -/
theorem Underway.still (h : w.Underway a m gone rest) (orderly : w'.dispatcher.Orderly)
    (numbered : w'.Numbered) (lines : w'.history.lines = w.history.lines)
    (upcoming : w'.dispatcher.upcoming a = w.dispatcher.upcoming a)
    (held : ∀ p ∈ w'.dispatcher.held, p.command.address = a → p ∈ w.dispatcher.held) :
    w'.Underway a m gone rest := by
  have same : w'.sentSince a m = w.sentSince a m := by rw [sentSince, lines]; rfl
  exact ⟨orderly, numbered, lines ▸ h.before, upcoming.trans h.upcoming,
    fun p hp mine => h.held p (held p hp mine) mine, same ▸ h.sent, same ▸ h.order⟩

/-- The next part has gone on the line. -/
theorem Underway.release {p : Part} (h : w.Underway a m gone (p :: rest))
    (orderly : w'.dispatcher.Orderly) (numbered : w'.Numbered)
    (lines : w'.history.lines = w.history.lines) (upcoming : w'.dispatcher.upcoming a = rest)
    (held : ∀ q ∈ w'.dispatcher.held, q.command.address = a → q = p.held) :
    w'.Underway a m (gone ++ [p]) rest := by
  have same : w'.sentSince a m = w.sentSince a m := by rw [sentSince, lines]; rfl
  refine ⟨orderly, numbered, lines ▸ h.before, upcoming, fun q hq mine => ?_, fun t ht => ?_,
    fun R row => ?_⟩
  · rw [List.getLast?_concat, held q hq mine]
    rfl
  · rw [List.map_append]
    exact List.mem_append_left _ (h.sent t (same ▸ ht))
  · rw [List.map_append] at row
    exact same ▸ h.order R (List.pairwise_append.mp row).1

/-- A line was sent. -/
theorem Underway.send (h : w.Underway a m gone rest) (orderly : w'.dispatcher.Orderly)
    (numbered : w'.Numbered) {t : Attempt} (flight : w'.dispatcher.inFlight = some t)
    {frame : List UInt8} (lines : w'.history.lines = w.history.lines ++ [⟨frame, t⟩])
    (upcoming : w'.dispatcher.upcoming a = w.dispatcher.upcoming a)
    (held : w'.dispatcher.held = w.dispatcher.held) : w'.Underway a m gone rest := by
  have carried : t.part ∈ w.dispatcher.held := by
    rw [← held, Dispatcher.held_of_inFlight flight]
    exact List.mem_cons_self
  have sent : w'.sentSince a m =
      w.sentSince a m ++ if t.command.address = a then [⟨frame, t⟩] else [] := by
    rw [sentSince, lines, List.drop_append_of_le_length h.before, List.filter_append, sentSince,
      List.filter_singleton]
    simp
  refine ⟨orderly, numbered, ?_, upcoming.trans h.upcoming, held ▸ h.held, ?_, ?_⟩
  · rw [lines, List.length_append]
    exact Nat.le_add_right_of_le h.before
  all_goals
    rw [sent]
    split
  · rename_i mine
    obtain ⟨last, final, same⟩ := Option.map_eq_some_iff.mp (h.held _ carried mine)
    intro u hu
    rcases List.mem_append.mp hu with hu | hu
    · exact h.sent u hu
    · rw [List.mem_singleton.mp hu, ← same]
      exact List.mem_map_of_mem (List.mem_of_getLast? final)
  · rw [List.append_nil]
    exact h.sent
  · rename_i mine
    obtain ⟨last, final, same⟩ := Option.map_eq_some_iff.mp (h.held _ carried mine)
    obtain ⟨front, rfl⟩ := List.getLast?_eq_some_iff.mp final
    intro R row
    refine List.pairwise_append.mpr ⟨h.order R row, List.pairwise_singleton _ _, fun u hu v hv => ?_⟩
    -- what was sent before is the part that is sent now, or one that stands before it in the row
    have there := h.sent u hu
    rw [List.map_append] at there row
    rw [List.mem_singleton.mp hv, ← same]
    rcases List.mem_append.mp there with earlier | again
    · exact Or.inr ((List.pairwise_append.mp row).2.2 _ earlier _ (List.mem_singleton_self _))
    · exact Or.inl (List.mem_singleton.mp again)
  · rw [List.append_nil]
    exact h.order

/-- **A step leaves the row where it is, or puts its next part on the line**, unless it takes a command
for the address. -/
theorem Underway.step (h : w.Underway a m gone rest) (spares : s.Spares a) (step : w.step s = .ok w') :
    w'.Underway a m gone rest ∨
      ∃ p rest', rest = p :: rest' ∧ w'.Underway a m (gone ++ [p]) rest' := by
  obtain ⟨frame, stepped, note⟩ := step_eq_ok step
  have orderly' := h.orderly.step stepped
  have numbered' := h.numbered.step h.orderly step
  have turn := Dispatcher.turn h.orderly.timely stepped
  have still := h.still orderly' numbered'
  obtain ⟨d', history'⟩ := w'
  cases turn with
  | idle intent submits rest =>
      exact Or.inl (still (lines_of_quiet note) (rest.upcoming h.orderly.timely a)
        fun p hp _ => rest.held ▸ hp)
  | @take c now open? =>
      have other := spares c now rfl
      refine Or.inl (still (lines_of_quiet note) ?_ fun p hp mine => ?_)
      · exact (h.orderly.timely.upcoming_accept c now a).trans (if_neg (Ne.symm other))
      · have hp : p ∈ (w.dispatcher.accept c now).held := hp
        rw [Dispatcher.accept_eq] at hp
        rcases (h.orderly.lay c now).mem_held_submitAll hp with ⟨q, hq, rfl⟩ | ⟨there, -⟩
        · exact absurd ((Dispatcher.address_atOnce hq).symm.trans mine) other
        · exact Dispatcher.held_lay w.dispatcher c now ▸ there
  | @release now e g number c last due task =>
      have withdrawn := h.orderly.withdraw due task
      have elsewhere {b : Address} := h.orderly.timely.stepsFor_pop due task (b := b)
      obtain ⟨-, -, -, row, -⟩ := h.orderly.timely.step_due due task
      obtain ⟨-, rfl, -⟩ := h.orderly.timely.ordered.popDue_eq_some due
      have upcoming := withdrawn.timely.upcoming_submit c (.rampStep number last) a
      by_cases mine : c.address = a
      · subst mine
        rw [h.upcoming] at row
        subst row
        refine Or.inr ⟨_, _, rfl, h.release orderly' numbered' (lines_of_quiet note) upcoming
          fun p hp mine => ?_⟩
        rcases Dispatcher.mem_held_submit withdrawn.places hp with rfl | ⟨-, other⟩
        · rfl
        · exact absurd mine other
      · refine Or.inl (still (lines_of_quiet note) (upcoming.trans (elsewhere (Ne.symm mine)))
          fun p hp own => ?_)
        rcases Dispatcher.mem_held_submit withdrawn.places hp with rfl | ⟨there, -⟩
        · exact absurd own mine
        · exact there
  | @send now deadline q rest up free head =>
      exact Or.inl (h.send orderly' numbered' rfl (congrArg History.lines note)
        (Dispatcher.Timely.upcoming_launch ..) (Dispatcher.held_launch free head _ _))
  | @finish s t outcome d' flight ending beside =>
      refine Or.inl (still (lines_of_quiet note) ?_ fun p hp _ => ?_)
      · exact (beside.upcoming (h.orderly.finish flight outcome).timely a).trans
          (h.orderly.timely.upcoming_land flight a)
      · rw [Dispatcher.held_finish flight outcome]
        exact List.mem_cons_of_mem _ (beside.held ▸ hp)
  | @putBack s t attempts d' flight return? beside =>
      refine Or.inl (still (lines_of_quiet note) ?_ fun p hp _ => ?_)
      · exact (beside.upcoming (h.orderly.putBack flight attempts).timely a).trans
          (h.orderly.timely.upcoming_land flight a)
      · rw [← Dispatcher.held_putBack flight attempts]
        exact beside.held ▸ hp

/-- **A run puts a front part of what is to come on the line**, if it takes no command for the address. -/
theorem Underway.run (h : w.Underway a m gone rest) {steps : List Dispatcher.Step}
    (spares : ∀ s ∈ steps, s.Spares a) (run : w.run steps = .ok w') :
    ∃ released rest', rest = released ++ rest' ∧ w'.Underway a m (gone ++ released) rest' := by
  induction steps generalizing w gone rest with
  | nil =>
      cases run
      exact ⟨[], rest, rfl, (List.append_nil gone).symm ▸ h⟩
  | cons s steps ih =>
      obtain ⟨v, first, tail⟩ := run_cons_eq_ok.mp run
      obtain ⟨spare, spares⟩ := List.forall_mem_cons.mp spares
      rcases h.step spare first with still | ⟨p, rest', rfl, next⟩
      · exact ih still spares tail
      · obtain ⟨released, rest'', rfl, after⟩ := ih next spares tail
        refine ⟨p :: released, rest'', rfl, ?_⟩
        rwa [List.append_assoc] at after

/-- **Once the agenda is worked off up to a moment, nothing is to come that falls due by then**, and if
something was, a command for the address waits. -/
theorem Underway.expire (h : w.Underway a m gone rest) {now : Instant}
    (due : ∀ p ∈ rest, ∀ t ∈ p.moment, t.nanos ≤ now.nanos)
    (run : w.run ((Dispatcher.Call.expire now).steps w.dispatcher) = .ok w') :
    w'.Underway a m (gone ++ rest) [] ∧ (rest ≠ [] → w'.dispatcher.Waits a) := by
  obtain ⟨released, later, rfl, after⟩ := h.run (fun s hs c t taken => by
    rw [List.eq_of_mem_replicate hs] at taken
    cases taken) run
  have worked : w'.dispatcher = w.dispatcher.expire now := by
    have same := (w.run_dispatcher ((Dispatcher.Call.expire now).steps w.dispatcher)).symm.trans
      (w.dispatcher.run_steps (.expire now))
    rw [run] at same
    exact congrArg Prod.snd (Except.ok.inj same)
  have none : later = [] := by
    by_contra some
    obtain ⟨p, hp⟩ := List.exists_mem_of_ne_nil _ some
    have coming : p ∈ w'.dispatcher.upcoming a := after.upcoming ▸ hp
    obtain ⟨e, he, booked⟩ := List.mem_filterMap.mp coming
    obtain ⟨_, _, -, -, eq⟩ := Dispatcher.stepFor_eq_some booked
    have ahead : now.nanos < e.deadline.nanos := after.orderly.timely.ordered.lt_of_popDue_eq_none
      (worked ▸ Dispatcher.popDue_expire w.dispatcher now) he
    have := due p (List.mem_append_right _ hp) e.deadline (by rw [eq]; rfl)
    omega
  subst none
  rw [List.append_nil]
  refine ⟨after, fun some => ?_⟩
  have fired := w.run_dispatcher ((Dispatcher.Call.expire now).steps w.dispatcher)
  rw [run] at fired
  rcases Dispatcher.waits_of_fires h.orderly fired a with ⟨same, -⟩ | waits
  · rw [after.upcoming, h.upcoming, List.append_nil] at same
    exact absurd same.symm some
  · exact waits

end World

end Lighting
