import Lighting.Proofs.Dispatcher.Places
import Lighting.Proofs.Dispatcher.Wakeup

/-!
# Working off the agenda

When a moment has come, the dispatcher does what is due, one task after the other.  It always does
the task that comes first by then, on the agenda as the tasks before have left it; `InTurn` says this
of a row of tasks.  The loop does such a row and leaves nothing due, and there is only one row that
does.

### Lateness

A task does not know the moment at which it is done, and it makes no new entry.  So a row that is done
in turn at one moment would be done in turn at every later one, and whoever asks late gets the same as
whoever asked in time: the row of the earlier moment is the beginning of the row of the later one.

### What is left out

Of the entries that are due only one kind may never be done.  A step of a ramp takes the place of the
attempt in flight, and so strikes its deadline, which may be due as well by then (`StruckAmid`).
-/

namespace Lighting.Dispatcher

variable {d : Dispatcher} {now : Instant}

/-! ## What a task strikes -/

/-- Submission strikes nothing but the deadline of the attempt in flight. -/
theorem agenda_submit (d : Dispatcher) (c : Command) (origin : Origin) :
    (d.submit c origin).agenda = d.agenda ∨
      ∃ a, d.inFlight = some a ∧ (d.submit c origin).agenda = d.agenda.erase a.timer := by
  rcases submit_cases d c origin with ⟨_, _, _, -, -, -, eq⟩ | ⟨a, flight, -, eq⟩ | ⟨-, eq⟩
  · exact Or.inl (by rw [eq]; rfl)
  · exact Or.inr ⟨a, flight, by rw [eq]; rfl⟩
  · exact Or.inl (by rw [eq])

/-- A task strikes nothing but the deadline of the attempt in flight. -/
theorem agenda_fire (d : Dispatcher) (e : Agenda.Entry Task) :
    (d.fire e).agenda = d.agenda ∨
      ∃ a, d.inFlight = some a ∧ (d.fire e).agenda = d.agenda.erase a.timer := by
  unfold fire
  split
  · refine Or.inl ?_
    unfold onTimeout
    split
    · rfl
    · split
      · exact (retryOrFail_apart _ _).2
      · rfl
  · unfold onRampStep
    split
    · exact Or.inl rfl
    · split
      · split <;> exact agenda_submit _ _ _
      · exact Or.inl rfl
  · refine Or.inl ?_
    unfold onSettled
    split <;> rfl

/-- Takes an entry off the agenda and does its task. -/
def complete (d : Dispatcher) (e : Agenda.Entry Task) : Dispatcher :=
  ({ d with agenda := d.agenda.erase e.token } : Dispatcher).fire e

theorem agenda_complete (d : Dispatcher) (e : Agenda.Entry Task) :
    (d.complete e).agenda = d.agenda.erase e.token ∨
      ∃ a, d.inFlight = some a ∧ (d.complete e).agenda = (d.agenda.erase e.token).erase a.timer :=
  agenda_fire _ e

/-- A task makes no new entry, and its own is gone. -/
theorem mem_entries_complete {e x : Agenda.Entry Task} (hx : x ∈ (d.complete e).agenda.entries) :
    x ∈ d.agenda.entries ∧ x.token ≠ e.token := by
  rcases agenda_complete d e with same | ⟨a, -, less⟩
  · rw [same] at hx
    exact Agenda.mem_entries_erase.mp hx
  · rw [less] at hx
    exact Agenda.mem_entries_erase.mp (Agenda.mem_entries_erase.mp hx).1

theorem wellFormed_complete (wf : d.agenda.WellFormed) (e : Agenda.Entry Task) :
    (d.complete e).agenda.WellFormed := by
  rcases agenda_complete d e with same | ⟨a, -, less⟩
  · rw [same]
    exact wf.erase _
  · rw [less]
    exact (wf.erase _).erase _

/-! ## Tasks in turn -/

/-- The entry that is done next: it is due, and it comes before all others. -/
structure IsNext (d : Dispatcher) (now : Instant) (e : Agenda.Entry Task) : Prop where
  /-- The entry is on the agenda. -/
  there : e ∈ d.agenda.entries
  /-- Its moment has come. -/
  due : e.deadline ≤ now
  /-- No other entry falls due earlier, or at the same moment and was made earlier. -/
  first : ∀ x ∈ d.agenda.entries, x ≠ e → e.Before x

/-- Several entries are done, one after the other. -/
def completeAll (d : Dispatcher) (es : List (Agenda.Entry Task)) : Dispatcher := es.foldl complete d

/-- Each entry of a row is the next one when its turn comes. -/
def InTurn (now : Instant) : Dispatcher → List (Agenda.Entry Task) → Prop
  | _, [] => True
  | d, e :: es => d.IsNext now e ∧ InTurn now (d.complete e) es

/-- All deadlines are still ahead. -/
def IsDone (d : Dispatcher) (now : Instant) : Prop := ∀ e ∈ d.agenda.entries, now < e.deadline

theorem completeAll_append (d : Dispatcher) (es fs : List (Agenda.Entry Task)) :
    d.completeAll (es ++ fs) = (d.completeAll es).completeAll fs := List.foldl_append

theorem IsNext.unique {e f : Agenda.Entry Task} (h : d.IsNext now e) (h' : d.IsNext now f) :
    e = f := by
  by_contra other
  exact (h.first f h'.there (Ne.symm other)).asymm (h'.first e h.there other)

theorem isNext_of_popDue (wf : d.agenda.WellFormed) {e : Agenda.Entry Task} {g : Agenda Task}
    (pop : d.agenda.popDue now = some (e, g)) : d.IsNext now e ∧ g = d.agenda.erase e.token := by
  obtain ⟨there, rfl, first⟩ := wf.popDue_eq_some pop
  refine ⟨⟨there, (Agenda.popDue_eq_some_iff.mp pop).2.2, fun x hx other => ?_⟩, rfl⟩
  exact first x ((wf.mem_entries_erase_token there).mpr ⟨hx, other⟩)

namespace InTurn

/-- What is done in turn at one moment is done in turn at every later one. -/
theorem mono {later : Instant} (le : now ≤ later) {es : List (Agenda.Entry Task)}
    (h : InTurn now d es) : InTurn later d es := by
  induction es generalizing d with
  | nil => trivial
  | cons e es ih => exact ⟨⟨h.1.there, Nat.le_trans h.1.due le, h.1.first⟩, ih h.2⟩

theorem append {es fs : List (Agenda.Entry Task)} (h : InTurn now d es)
    (h' : InTurn now (d.completeAll es) fs) : InTurn now d (es ++ fs) := by
  induction es generalizing d with
  | nil => exact h'
  | cons e es ih => exact ⟨h.1, ih h.2 h'⟩

/-- The rest of a row is done in turn after its beginning. -/
theorem rest {es fs : List (Agenda.Entry Task)} (h : InTurn now d (es ++ fs)) :
    InTurn now (d.completeAll es) fs := by
  induction es generalizing d with
  | nil => exact h
  | cons e es ih => exact ih h.2

/-- What is done was on the agenda, and it was due. -/
theorem of_mem {es : List (Agenda.Entry Task)} (h : InTurn now d es) {e : Agenda.Entry Task}
    (he : e ∈ es) : e ∈ d.agenda.entries ∧ e.deadline ≤ now := by
  induction es generalizing d with
  | nil => cases he
  | cons f es ih =>
      rcases List.mem_cons.mp he with rfl | he
      · exact ⟨h.1.there, h.1.due⟩
      · obtain ⟨there, due⟩ := ih h.2 he
        exact ⟨(mem_entries_complete there).1, due⟩

/-- **Tasks are done in the order of the agenda.** -/
theorem pairwise {es : List (Agenda.Entry Task)} (h : InTurn now d es) :
    es.Pairwise Agenda.Entry.Before := by
  induction es generalizing d with
  | nil => exact List.Pairwise.nil
  | cons e es ih =>
      refine List.pairwise_cons.mpr ⟨fun x hx => ?_, ih h.2⟩
      obtain ⟨there, other⟩ := mem_entries_complete (h.2.of_mem hx).1
      exact h.1.first x there fun same => other (congrArg Agenda.Entry.token same)

/-- There is one row that is done in turn and leaves nothing due. -/
theorem unique {es fs : List (Agenda.Entry Task)} (h : InTurn now d es) (h' : InTurn now d fs)
    (done : (d.completeAll es).IsDone now) (done' : (d.completeAll fs).IsDone now) : es = fs := by
  induction es generalizing d fs with
  | nil =>
      cases fs with
      | nil => rfl
      | cons f fs => exact absurd (done f h'.1.there) (Nat.not_lt.mpr h'.1.due)
  | cons e es ih =>
      cases fs with
      | nil => exact absurd (done' e h.1.there) (Nat.not_lt.mpr h.1.due)
      | cons f fs =>
          obtain rfl := h.1.unique h'.1
          rw [ih h.2 h'.2 done done']

end InTurn

/-- What is on the agenda afterwards was there before, and it is none of what was done. -/
theorem mem_entries_completeAll {es : List (Agenda.Entry Task)} {x : Agenda.Entry Task}
    (hx : x ∈ (d.completeAll es).agenda.entries) : x ∈ d.agenda.entries ∧ x ∉ es := by
  induction es generalizing d with
  | nil => exact ⟨hx, List.not_mem_nil⟩
  | cons e es ih =>
      obtain ⟨there, others⟩ := ih hx
      obtain ⟨there, other⟩ := mem_entries_complete there
      refine ⟨there, fun among => ?_⟩
      rcases List.mem_cons.mp among with rfl | among
      · exact other rfl
      · exact others among

/-! ## What the loop does -/

theorem inTurn_expireUpTo (wf : d.agenda.WellFormed) (now : Instant) (fuel : Nat) :
    ∃ es, InTurn now d es ∧ expireUpTo fuel d now = d.completeAll es := by
  induction fuel generalizing d with
  | zero => exact ⟨[], trivial, rfl⟩
  | succ fuel ih =>
      unfold expireUpTo
      cases pop : d.agenda.popDue now with
      | none => exact ⟨[], trivial, rfl⟩
      | some p =>
          obtain ⟨next, rest⟩ := isNext_of_popDue wf pop
          obtain ⟨es, turn, eq⟩ := ih (wellFormed_complete wf p.1)
          refine ⟨p.1 :: es, ⟨next, turn⟩, ?_⟩
          dsimp only
          rw [rest]
          exact eq

theorem wellFormed_completeAll (wf : d.agenda.WellFormed) (es : List (Agenda.Entry Task)) :
    (d.completeAll es).agenda.WellFormed := by
  induction es generalizing d with
  | nil => exact wf
  | cons e es ih => exact ih (wellFormed_complete wf e)

/-- The loop does tasks in turn, and leaves nothing due. -/
theorem inTurn_expire (wf : d.agenda.WellFormed) (now : Instant) :
    ∃ es, InTurn now d es ∧ d.expire now = d.completeAll es ∧ (d.expire now).IsDone now := by
  obtain ⟨es, turn, eq⟩ := inTurn_expireUpTo wf now d.agenda.size
  have after : (d.expire now).agenda.WellFormed := by
    rw [expire, eq]
    exact wellFormed_completeAll wf es
  exact ⟨es, turn, eq, fun e he => after.lt_of_popDue_eq_none (popDue_expire d now) he⟩

/-- **Lateness is made up for.** -/
theorem expire_expire (wf : d.agenda.WellFormed) {early late : Instant} (le : early ≤ late) :
    (d.expire early).expire late = d.expire late := by
  obtain ⟨es, first, eq, -⟩ := inTurn_expire wf early
  have between : (d.expire early).agenda.WellFormed := eq ▸ wellFormed_completeAll wf es
  obtain ⟨fs, second, eq', done⟩ := inTurn_expire between late
  obtain ⟨gs, once, eq'', done'⟩ := inTurn_expire wf late
  rw [eq] at second eq' done
  rw [eq', ← completeAll_append] at done
  rw [eq''] at done' ⊢
  rw [eq, eq', ← completeAll_append, ((first.mono le).append second).unique once done done']

/-! ## What is left out -/

/-- An entry is struck while a row of tasks is done: one of them comes before it and strikes it, since
it is the deadline of the attempt that is in flight by then. -/
def StruckAmid (d : Dispatcher) (es : List (Agenda.Entry Task)) (e : Agenda.Entry Task) : Prop :=
  ∃ front x back, es = front ++ x :: back ∧ x.Before e ∧
    e ∈ (d.completeAll front).agenda.entries ∧
    e ∉ ((d.completeAll front).complete x).agenda.entries ∧
    ∃ a, (d.completeAll front).inFlight = some a ∧ a.timer = e.token

/-- What was on the agenda and is gone was done or struck. -/
theorem InTurn.struck {es : List (Agenda.Entry Task)} (h : InTurn now d es)
    (wf : d.agenda.WellFormed) {e : Agenda.Entry Task} (there : e ∈ d.agenda.entries)
    (gone : e ∉ (d.completeAll es).agenda.entries) (undone : e ∉ es) : d.StruckAmid es e := by
  induction es generalizing d with
  | nil => exact absurd there gone
  | cons x es ih =>
      obtain ⟨other, undone⟩ := not_or.mp (mt List.mem_cons.mpr undone)
      by_cases stays : e ∈ (d.complete x).agenda.entries
      · obtain ⟨front, y, back, rfl, before, struck⟩ :=
          ih h.2 (wellFormed_complete wf x) stays gone undone
        exact ⟨x :: front, y, back, rfl, before, struck⟩
      · refine ⟨[], x, es, rfl, h.1.first e there other, there, stays, ?_⟩
        have kept : e ∈ (d.agenda.erase x.token).entries :=
          (wf.mem_entries_erase_token h.1.there).mpr ⟨there, other⟩
        rcases agenda_complete d x with same | ⟨a, flight, less⟩
        · rw [same] at stays
          exact absurd kept stays
        · rw [less, Agenda.mem_entries_erase, not_and, not_not] at stays
          exact ⟨a, flight, (stays kept).symm⟩

/-- What was struck was not done. -/
theorem StruckAmid.undone {es : List (Agenda.Entry Task)} {e : Agenda.Entry Task}
    (h : d.StruckAmid es e) (turn : InTurn now d es) : e ∉ es := by
  obtain ⟨front, x, back, rfl, before, there, gone, -⟩ := h
  intro done
  rcases List.mem_append.mp done with early | later
  · exact (mem_entries_completeAll there).2 early
  · rcases List.mem_cons.mp later with rfl | later
    · exact before.asymm before
    · exact gone (turn.rest.2.of_mem later).1

/-- **Asking late is asking in time.**  Whatever a dispatcher has been through: asked at an early
moment and again at a late one, it is what it would be if it had been asked at the late one alone,
with all it had to tell.  Asked once, it does a row of tasks in turn, in the order of the agenda; the
row leaves out what is due only if a task before it has struck it, and nothing that is due is left. -/
theorem late_expiry_timely {settings : Settings} {excluded : List Address} {steps : List Step}
    {frames : List (List UInt8)}
    (reached : (create settings excluded).run steps = .ok (frames, d)) :
    (∀ early late, early ≤ late → (d.expire early).expire late = d.expire late) ∧
      ∀ now, ∃ done, InTurn now d done ∧ d.expire now = d.completeAll done ∧
        done.Pairwise Agenda.Entry.Before ∧
        (∀ e ∈ done, e ∈ d.agenda.entries ∧ e.deadline ≤ now) ∧
        (∀ e ∈ d.agenda.entries, e.deadline ≤ now → (e ∉ done ↔ d.StruckAmid done e)) ∧
        (d.expire now).IsDone now := by
  have wf : d.agenda.WellFormed :=
    ((orderly_create settings excluded).run reached).timely.ordered
  refine ⟨fun early late le => expire_expire wf le, fun now => ?_⟩
  obtain ⟨done, turn, eq, nothing⟩ := inTurn_expire wf now
  refine ⟨done, turn, eq, turn.pairwise, fun e he => turn.of_mem he, fun e there due => ?_, nothing⟩
  refine ⟨fun undone => turn.struck wf there (fun left => ?_) undone, fun h => h.undone turn⟩
  exact Nat.not_lt.mpr due (nothing e (eq ▸ left))

/-- A ramp is sent in two steps.  The first is in flight when the second falls due, and its deadline
lies a little later.  Whoever asks only then finds both due; the step is done, and it strikes the
deadline. -/
theorem late_expiry_timely_of_ramp :
    ∃ frames d, (create { Settings.standard with nativeRamps := false, rampSteps := 2 } []).run
        [.linkUp, .enqueue ⟨⟨1⟩, ⟨6⟩, .ramp ⟨255⟩ (.ofMillis 8000), .start⟩ .start,
          .fire (.ofMillis 4000), .poll (.ofMillis 7900)] = .ok (frames, d) ∧
      (d.expire (.ofMillis 8050)).expire (.ofMillis 9000) = d.expire (.ofMillis 9000) ∧
      ∃ step late, d.agenda.entries = [step, late] ∧ late.deadline ≤ .ofMillis 9000 ∧
        d.expire (.ofMillis 9000) = d.completeAll [step] ∧ d.StruckAmid [step] late := by
  obtain ⟨⟨frames, d⟩, reached, seen⟩ := exists_ok
    (x := (create { Settings.standard with nativeRamps := false, rampSteps := 2 } []).run
      [.linkUp, .enqueue ⟨⟨1⟩, ⟨6⟩, .ramp ⟨255⟩ (.ofMillis 8000), .start⟩ .start,
        .fire (.ofMillis 4000), .poll (.ofMillis 7900)])
    (f := fun r => (r.2.agenda.entries,
      r.2.agenda.entries.head?.map fun step => (r.2.complete step).agenda.entries))
    (b := ([⟨⟨1⟩, .ofMillis 8000, .rampStep 0 ⟨⟨1⟩, ⟨6⟩, .setLevel ⟨255⟩, .start⟩ true⟩,
        ⟨⟨2⟩, .ofMillis 8150, .confirmation .first 1⟩], some []))
    (by decide +kernel)
  obtain ⟨entries, after⟩ := Prod.mk.inj seen
  rw [entries] at after
  obtain ⟨timely, once⟩ := late_expiry_timely reached
  obtain ⟨done, turn, eq, -, -, leftOut, nothing⟩ := once (.ofMillis 9000)
  generalize stepEq : (⟨⟨1⟩, .ofMillis 8000,
    .rampStep 0 ⟨⟨1⟩, ⟨6⟩, .setLevel ⟨255⟩, .start⟩ true⟩ : Agenda.Entry Task) = step at entries after
  generalize lateEq : (⟨⟨2⟩, .ofMillis 8150, .confirmation .first 1⟩ : Agenda.Entry Task) = late
    at entries
  have there : late ∈ d.agenda.entries := by
    rw [show d.agenda.entries = _ from entries]
    exact List.mem_cons_of_mem _ List.mem_cons_self
  have due : late.deadline ≤ .ofMillis 9000 := by
    rw [← lateEq]
    decide
  have next : d.IsNext (.ofMillis 9000) step := by
    refine ⟨?_, by rw [← stepEq]; decide, fun x hx other => ?_⟩
    · rw [show d.agenda.entries = _ from entries]
      exact List.mem_cons_self
    · rw [show d.agenda.entries = _ from entries, List.mem_cons, List.mem_singleton] at hx
      rw [hx.resolve_left other, ← stepEq, ← lateEq]
      exact Or.inl (by decide)
  have row : InTurn (.ofMillis 9000) d [step] := ⟨next, trivial⟩
  have all : (d.completeAll [step]).IsDone (.ofMillis 9000) := fun e he => by
    rw [show (d.completeAll [step]).agenda.entries = [] from Option.some.inj after] at he
    cases he
  obtain rfl := turn.unique row (eq ▸ nothing) all
  have undone : late ∉ [step] := by
    rw [← stepEq, ← lateEq]
    decide
  exact ⟨frames, d, reached, timely _ _ (by decide), step, late, entries, due, eq,
    (leftOut late there due).mp undone⟩

end Lighting.Dispatcher
