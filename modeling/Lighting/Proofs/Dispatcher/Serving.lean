import Mathlib.Algebra.Order.BigOperators.Group.List
import Mathlib.Algebra.Order.Group.Nat
import Mathlib.Tactic.Ring
import Lighting.Proofs.Dispatcher.Changes
import Lighting.Proofs.Dispatcher.Wakeup

/-!
# The service loop

A dispatcher is served in rounds: what is due is done, a line goes out if one may, and the next round
takes place when the dispatcher has something to do again.  `Serves` is this loop without a bound on its
rounds.  `serve` has one, and `serves_serve` says that it is never reached: serving always ends because
nothing is left to do in time, because a line finds nobody to take it, or because the dispatcher stops.

### Why the loop ends

Nothing comes from outside while the loop runs, so all there is to do is laid down when it starts:
`workLeft` counts the tasks on the agenda and twice the lines that the commands on the line, in flight and
on the agenda may still come to.  A task that is done is gone, and the step of a ramp brings no more lines
than were counted for it.  A line that is sent brings one new task, its deadline, and is itself counted
twice.  So what is left grows less in every round that does something, and a round that was woken for has
something to do, as a dispatcher names no moment but one that it waits for (`waitsFor_of_nextWakeup`).

### What the loop does

It does nothing but steps (`Serves.run`), between now and the limit (`Serves.timely`), and when it is
done there is nothing to do at any moment it would have been woken for (`Serves.rests`).
-/

namespace Lighting

/-! ## The work that is left -/

/-- How many lines a command may still come to that waits after a number of attempts. -/
def RetryPolicy.linesLeft (p : RetryPolicy) (attempts : Nat) : Nat := max (p.maxRetries - attempts) 1

/-- What a task may come to: itself, and for the step of a ramp its lines, each with its deadline. -/
def Task.workLeft (p : RetryPolicy) : Task → Nat
  | .rampStep _ _ _ => 1 + 2 * p.linesLeft 0
  | .confirmation _ _ => 1
  | .settled _ => 1

/-- What the tasks of an agenda may come to. -/
def Agenda.workLeft (p : RetryPolicy) (g : Agenda Task) : Nat :=
  (g.entries.map fun e => e.task.workLeft p).sum

/-- What the commands that wait may come to. -/
def Queued.workLeft (p : RetryPolicy) (waiting : List Queued) : Nat :=
  (waiting.map fun q => 2 * p.linesLeft q.attempts).sum

/-- What the attempt in flight may come to when it has failed. -/
def Attempt.workLeft (p : RetryPolicy) (flight : Option Attempt) : Nat :=
  (flight.map fun a => 2 * (p.maxRetries - a.number)).getD 0

variable {p : RetryPolicy}

theorem Agenda.workLeft_insert (e : Agenda.Entry Task) (es : List (Agenda.Entry Task)) :
    ((Agenda.insert e es).map fun x => x.task.workLeft p).sum =
      e.task.workLeft p + (es.map fun x => x.task.workLeft p).sum := by
  induction es with
  | nil => rfl
  | cons x es ih =>
      unfold Agenda.insert
      split
      · rw [List.map_cons, List.sum_cons, ih, List.map_cons, List.sum_cons]
        omega
      · rfl

theorem Agenda.workLeft_schedule (g : Agenda Task) (deadline : Instant) (task : Task) :
    (g.schedule deadline task).2.workLeft p = task.workLeft p + g.workLeft p :=
  Agenda.workLeft_insert _ _

theorem Agenda.workLeft_erase_le (g : Agenda Task) (t : Agenda.Token) :
    (g.erase t).workLeft p ≤ g.workLeft p := by
  have kept : (g.erase t).entries.Sublist g.entries := List.filter_sublist
  exact (kept.map fun e => e.task.workLeft p).sum_le_sum fun _ _ => Nat.zero_le _

theorem Agenda.workLeft_popDue {g h : Agenda Task} {now : Instant} {e : Agenda.Entry Task}
    (due : g.popDue now = some (e, h)) : g.workLeft p = e.task.workLeft p + h.workLeft p := by
  rw [Agenda.workLeft, (Agenda.popDue_eq_some_iff.mp due).1, List.map_cons, List.sum_cons]
  rfl

theorem Task.workLeft_pos (task : Task) : 0 < task.workLeft p := by
  cases task with
  | rampStep => exact Nat.lt_of_lt_of_le Nat.one_pos (Nat.le_add_right 1 _)
  | confirmation => exact Nat.one_pos
  | settled => exact Nat.one_pos

theorem Queued.workLeft_cons (q : Queued) (waiting : List Queued) :
    Queued.workLeft p (q :: waiting) = 2 * p.linesLeft q.attempts + Queued.workLeft p waiting := by
  rw [Queued.workLeft, List.map_cons, List.sum_cons]
  rfl

theorem Queued.workLeft_append (front back : List Queued) :
    Queued.workLeft p (front ++ back) = Queued.workLeft p front + Queued.workLeft p back := by
  rw [Queued.workLeft, List.map_append, List.sum_append]
  rfl

namespace Dispatcher

variable {d d' : Dispatcher} {now : Instant}

/-- All that a dispatcher may come to do on its own. -/
def workLeft (p : RetryPolicy) (d : Dispatcher) : Nat :=
  d.agenda.workLeft p + Queued.workLeft p d.waiting + Attempt.workLeft p d.inFlight

/-- A command that is put on the line brings its own lines. -/
theorem workLeft_submit_le (d : Dispatcher) (c : Command) (origin : Origin) :
    (d.submit c origin).workLeft p ≤ d.workLeft p + 2 * p.linesLeft 0 := by
  have single : Queued.workLeft p [⟨c, origin, 0⟩] = 2 * p.linesLeft 0 := rfl
  rcases submit_cases d c origin with ⟨before, old, after, waiting, -, -, eq⟩ | ⟨a, -, -, eq⟩ | ⟨-, eq⟩
  · rw [eq]
    simp only [workLeft, supersede, tell, waiting, Queued.workLeft_append, Queued.workLeft_cons]
    omega
  · rw [eq]
    have fewer := Agenda.workLeft_erase_le (p := p) d.agenda a.timer
    have grounded : Attempt.workLeft p none = 0 := rfl
    simp only [workLeft, supersede, tell, land, strike, Queued.workLeft_cons, grounded]
    omega
  · rw [eq]
    simp only [workLeft, Queued.workLeft_append, single]
    omega

/-- An attempt that has failed brings no more than was counted for it. -/
theorem workLeft_retryOrFail_le (same : d.settings.retry = p) (a : Attempt) :
    (d.retryOrFail a).workLeft p ≤ d.workLeft p + 2 * (p.maxRetries - a.number) := by
  unfold retryOrFail
  split
  · rename_i again
    have more : a.number < p.maxRetries := by
      rw [same] at again
      exact of_decide_eq_true again
    have lines : p.linesLeft a.number = p.maxRetries - a.number := Nat.max_eq_left (by omega)
    simp only [workLeft, Queued.workLeft_cons, lines]
    omega
  · dsimp only
    split <;> exact Nat.le_add_right _ _

/-- A task that is done is gone, and brings no more than was counted for it. -/
theorem workLeft_fire_lt (same : d.settings.retry = p) (e : Agenda.Entry Task) :
    (d.fire e).workLeft p < d.workLeft p + e.task.workLeft p := by
  have some := e.task.workLeft_pos (p := p)
  unfold fire
  split
  · unfold onTimeout
    split
    · omega
    · rename_i a flight
      split
      · have kept : ({ d with inFlight := none } : Dispatcher).settings.retry = p := same
        refine Nat.lt_of_le_of_lt (workLeft_retryOrFail_le kept a) ?_
        simp only [workLeft, flight, Attempt.workLeft, Option.map_none, Option.map_some,
          Option.getD_none, Option.getD_some]
        omega
      · omega
  · rename_i number c last task
    have lines : e.task.workLeft p = 1 + 2 * p.linesLeft 0 := by
      rw [task]
      rfl
    unfold onRampStep
    split
    · omega
    · split
      · have freed : (if last then ({ d with plans := d.plans.set c.address none } : Dispatcher)
            else d).workLeft p = d.workLeft p := by
          cases last <;> rfl
        refine Nat.lt_of_le_of_lt (workLeft_submit_le _ _ _) ?_
        rw [freed]
        omega
      · omega
  · unfold onSettled
    split
    · exact Nat.lt_add_of_pos_right some
    · omega

/-- To do what is due leaves less to do, if anything is due. -/
theorem workLeft_expireUpTo (same : d.settings.retry = p) (fuel : Nat) (now : Instant) :
    (expireUpTo fuel d now).workLeft p ≤ d.workLeft p ∧
      (0 < fuel → (d.agenda.popDue now).isSome → (expireUpTo fuel d now).workLeft p < d.workLeft p) := by
  induction fuel generalizing d with
  | zero => exact ⟨Nat.le_refl _, fun none => absurd none (Nat.lt_irrefl 0)⟩
  | succ fuel ih =>
      unfold expireUpTo
      cases due : d.agenda.popDue now with
      | none => exact ⟨Nat.le_refl _, fun _ none => by cases none⟩
      | some next =>
          obtain ⟨e, g⟩ := next
          have kept : ({ d with agenda := g } : Dispatcher).settings.retry = p := same
          have fixed := (Changes.fire { d with agenda := g } e).fixed.settings
          have rest := (ih (d := { d with agenda := g }.fire e) (by rw [fixed]; exact same)).1
          have done := workLeft_fire_lt kept e
          have split := Agenda.workLeft_popDue (p := p) due
          have less : (expireUpTo fuel ({ d with agenda := g }.fire e) now).workLeft p < d.workLeft p := by
            simp only [workLeft] at *
            omega
          exact ⟨Nat.le_of_lt less, fun _ _ => less⟩

theorem workLeft_expire_le (same : d.settings.retry = p) (now : Instant) :
    (d.expire now).workLeft p ≤ d.workLeft p :=
  (workLeft_expireUpTo same d.agenda.size now).1

theorem workLeft_expire_lt (same : d.settings.retry = p) (due : (d.agenda.popDue now).isSome) :
    (d.expire now).workLeft p < d.workLeft p := by
  refine (workLeft_expireUpTo same d.agenda.size now).2 ?_ due
  obtain ⟨next, pop⟩ := Option.isSome_iff_exists.mp due
  rw [Agenda.size, (Agenda.popDue_eq_some_iff.mp pop).1]
  exact Nat.succ_pos _

/-- A line that is sent leaves less to do. -/
theorem workLeft_launch_lt (now deadline : Instant) {q : Queued} {rest : List Queued}
    (head : d.waiting = q :: rest) :
    (d.launch now deadline q rest).workLeft p < d.workLeft p := by
  have timer (id : CommandId) (number : Nat) : (Task.confirmation id number).workLeft p = 1 := rfl
  simp only [workLeft, launch, head, Agenda.workLeft_schedule, timer, Queued.workLeft_cons,
    Attempt.workLeft, Option.map_some, Option.getD_some, RetryPolicy.linesLeft]
  omega

theorem workLeft_pollTransmit {frame : Option (List UInt8)}
    (h : d.pollTransmit now = .ok (frame, d')) :
    d'.workLeft p ≤ d.workLeft p ∧ (frame.isSome → d'.workLeft p < d.workLeft p) := by
  rcases pollTransmit_eq_ok h with ⟨rfl, rfl⟩ | ⟨line, q, rest, rfl, -, -, head, sent⟩
  · exact ⟨Nat.le_refl _, nofun⟩
  · obtain ⟨-, deadline, -, rfl⟩ := transmit_eq_ok sent
    have less := workLeft_launch_lt (p := p) now deadline head
    exact ⟨Nat.le_of_lt less, fun _ => less⟩

/-! ## Rounds -/

/-- Once the pacing allows a line and one waits, it goes out. -/
theorem isSome_of_pollTransmit {frame : Option (List UInt8)} {until? : Option Instant}
    (ready : d.isReady = true) (paced : d.pacedUntil = .ok until?) (late : ∀ u, until? = some u → u ≤ now)
    (h : d.pollTransmit now = .ok (frame, d')) : frame.isSome := by
  obtain ⟨up, free, q, rest, head⟩ := isReady_iff.mp ready
  rw [pollTransmit_of_passed up free head paced late] at h
  cases sent : d.transmit now q rest with
  | error stop => rw [sent] at h; cases h
  | ok r => rw [sent] at h; cases h; rfl

theorem workLeft_serveOnce_le (same : d.settings.retry = p) {frame : Option (List UInt8)}
    (h : d.serveOnce now = .ok (frame, d')) : d'.workLeft p ≤ d.workLeft p :=
  Nat.le_trans (workLeft_pollTransmit h).1 (workLeft_expire_le same now)

/-- A moment that a dispatcher waits for: that of a task, or the end of the pacing while a command waits for
it alone. -/
def WaitsFor (d : Dispatcher) (t : Instant) : Prop :=
  d.agenda.nextDeadline = some t ∨ d.isReady = true ∧ d.pacedUntil = .ok (some t)

/-- The next moment is the first one that the dispatcher waits for. -/
theorem waitsFor_of_nextWakeup {next : Option Instant} (wake : d.nextWakeup = .ok next) :
    (∀ w, next = some w → d.WaitsFor w) ∧ ∀ t, d.WaitsFor t → ∃ w, next = some w ∧ w ≤ t := by
  cases ready : d.isReady with
  | false =>
      rw [nextWakeup_of_not_ready ready] at wake
      obtain rfl := Except.ok.inj wake
      refine ⟨fun w task => .inl task, ?_⟩
      rintro t (task | ⟨open?, -⟩)
      · exact ⟨t, task, Nat.le_refl _⟩
      · exact absurd (ready.symm.trans open?) Bool.false_ne_true
  | true =>
      have asks : (d.linkUp && d.inFlight.isNone && !d.waiting.isEmpty) = true := ready
      unfold nextWakeup at wake
      dsimp only at wake
      rw [if_pos asks] at wake
      -- either clock may name no moment; where both do, the earlier one counts
      cases paced : d.pacedUntil with
      | error stop => rw [paced] at wake; cases wake
      | ok until? =>
          rw [paced] at wake
          obtain rfl := Except.ok.inj wake
          have pacing (u : Instant) (h : until? = some u) : d.WaitsFor u :=
            .inr ⟨ready, paced.trans (congrArg Except.ok h)⟩
          cases task : d.agenda.nextDeadline with
          | none =>
              refine ⟨pacing, ?_⟩
              rintro t (contra | ⟨-, same⟩)
              · cases task.symm.trans contra
              · exact ⟨t, Except.ok.inj (paced.symm.trans same), Nat.le_refl _⟩
          | some a =>
              cases until? with
              | none =>
                  refine ⟨fun w same => .inl (task.trans same), ?_⟩
                  rintro t (same | ⟨-, contra⟩)
                  · exact ⟨t, task.symm.trans same, Nat.le_refl _⟩
                  · cases paced.symm.trans contra
              | some b =>
                  refine ⟨?_, ?_⟩
                  · rintro w ⟨⟩
                    rcases Instant.min_choice a b with first | first
                    · exact .inl (task.trans (congrArg some first.symm))
                    · exact pacing _ (congrArg some first.symm)
                  · rintro t (same | ⟨-, same⟩)
                    · cases task.symm.trans same
                      exact ⟨_, rfl, Instant.min_le_left a b⟩
                    · cases paced.symm.trans same
                      exact ⟨_, rfl, Instant.min_le_right a b⟩

/-- **A round that was woken for leaves less to do.** -/
theorem workLeft_serveOnce_lt (same : d.settings.retry = p) {w : Instant}
    (wake : d.nextWakeup = .ok (some w)) (late : w ≤ now) {frame : Option (List UInt8)}
    (h : d.serveOnce now = .ok (frame, d')) : d'.workLeft p < d.workLeft p := by
  cases due : d.agenda.popDue now with
  | some next =>
      exact Nat.lt_of_le_of_lt (workLeft_pollTransmit h).1
        (workLeft_expire_lt same (Option.isSome_of_eq_some due))
  | none =>
      rw [serveOnce, expire_of_early due] at h
      rcases (waitsFor_of_nextWakeup wake).1 w rfl with next | ⟨ready, paced⟩
      · exact absurd late (Nat.not_le.mpr (Agenda.popDue_eq_none_iff.mp due w next))
      · refine (workLeft_pollTransmit h).2 (isSome_of_pollTransmit ready paced ?_ h)
        rintro u ⟨⟩
        exact late

/-! ## A round is a row of steps -/

theorem run_append {e : Dispatcher} {xs ys : List Step} {front back : List (List UInt8)}
    (first : d.run xs = .ok (front, e)) (second : e.run ys = .ok (back, d')) :
    d.run (xs ++ ys) = .ok (front ++ back, d') := by
  induction xs generalizing d front with
  | nil =>
      cases first
      exact second
  | cons s xs ih =>
      rw [run_cons] at first
      rw [List.cons_append, run_cons]
      cases step : d.step s with
      | error stop => rw [step] at first; cases first
      | ok r =>
          simp only [step, Except.bind] at first
          cases tail : r.2.run xs with
          | error stop => rw [tail] at first; cases first
          | ok q =>
              rw [tail] at first
              cases first
              simp only [Except.bind, ih tail, Except.map, List.append_assoc]

theorem run_expire (d : Dispatcher) (now : Instant) :
    d.run (List.replicate d.agenda.size (.fire now)) = .ok ([], d.expire now) :=
  run_fires now d.agenda.size d

/-- A round that does not stop is a row of steps. -/
theorem exists_run_serveOnce {frame : Option (List UInt8)} (h : d.serveOnce now = .ok (frame, d')) :
    ∃ steps, d.run steps = .ok (frame.toList, d') := by
  have polled : (d.expire now).run [.poll now] = .ok (frame.toList, d') := by
    rw [run_singleton]
    show ((d.expire now).pollTransmit now).map _ = _
    rw [show (d.expire now).pollTransmit now = .ok (frame, d') from h]
    rfl
  exact ⟨_, run_append (run_expire d now) polled⟩

theorem settings_serveOnce {frame : Option (List UInt8)} (h : d.serveOnce now = .ok (frame, d')) :
    d'.settings = d.settings := by
  obtain ⟨steps, run⟩ := exists_run_serveOnce h
  exact run_induction (P := fun e => e.settings = d.settings)
    (fun {e s _ _} kept step => (after_of_ok step ▸ (e.course s).settings).trans kept) rfl run

/-! ## The loop -/

/-- The lines after a round, the last first. -/
def afterRound (now : Instant) (frame : Option (List UInt8)) (sent : List Sent) : List Sent :=
  (frame.map (Sent.mk now)).toList ++ sent

/-- Serving without a bound on the rounds. -/
inductive Serves (terms : Terms) : List Sent → Instant → Dispatcher → Served → Prop where
  /-- The dispatcher stops in a round. -/
  | stop {sent : List Sent} {now : Instant} {d : Dispatcher} {stop : Stop}
      (round : d.serveOnce now = .error stop) : Serves terms sent now d ⟨sent, now, .error stop⟩
  /-- A line finds nobody to take it. -/
  | lost {sent : List Sent} {now : Instant} {d d' : Dispatcher} {line : List UInt8}
      (round : d.serveOnce now = .ok (some line, d')) (untaken : terms.taken = false) :
      Serves terms sent now d ⟨afterRound now (some line) sent, now, .ok d'⟩
  /-- The moment of the next round lies beyond the clock. -/
  | overrun {sent : List Sent} {now : Instant} {d d' : Dispatcher} {frame : Option (List UInt8)}
      {stop : Stop} (round : d.serveOnce now = .ok (frame, d'))
      (taken : frame = none ∨ terms.taken = true) (wake : d'.nextWakeup = .error stop) :
      Serves terms sent now d ⟨afterRound now frame sent, now, .error stop⟩
  /-- There is nothing more to do in time. -/
  | rest {sent : List Sent} {now : Instant} {d d' : Dispatcher} {frame : Option (List UInt8)}
      {next : Option Instant} (round : d.serveOnce now = .ok (frame, d'))
      (taken : frame = none ∨ terms.taken = true) (wake : d'.nextWakeup = .ok next)
      (late : ∀ w, next = some w → ¬ terms.wake w ≤ terms.limit) :
      Serves terms sent now d ⟨afterRound now frame sent, now, .ok d'⟩
  /-- The next round follows. -/
  | again {sent : List Sent} {now w : Instant} {d d' : Dispatcher} {frame : Option (List UInt8)}
      {served : Served} (round : d.serveOnce now = .ok (frame, d'))
      (taken : frame = none ∨ terms.taken = true) (wake : d'.nextWakeup = .ok (some w))
      (due : terms.wake w ≤ terms.limit)
      (rest : Serves terms (afterRound now frame sent) (now.max (terms.wake w)) d' served) :
      Serves terms sent now d served

/-- With one round more than a first round leaves to do, the bound is not reached. -/
theorem serves_serve_succ {terms : Terms} (punctual : ∀ t, t ≤ terms.wake t)
    (same : d.settings.retry = p) (rounds : Nat) (sent : List Sent)
    (enough : ∀ frame d', d.serveOnce now = .ok (frame, d') → d'.workLeft p < rounds) :
    Serves terms sent now d (serve terms (rounds + 1) sent now d) := by
  induction rounds generalizing d now sent with
  | zero =>
      cases round : d.serveOnce now with
      | error stop =>
          simp only [serve, round]
          exact .stop round
      | ok r => exact absurd (enough _ _ round) (Nat.not_lt_zero _)
  | succ rounds ih =>
      rw [serve]
      cases round : d.serveOnce now with
      | error stop => exact .stop round
      | ok r =>
          obtain ⟨frame, d'⟩ := r
          have less := enough _ _ round
          dsimp only
          split
          · rename_i untaken
            obtain ⟨line, rfl⟩ := Option.isSome_iff_exists.mp (Bool.and_elim_left untaken)
            exact .lost round (by simpa using untaken)
          · rename_i accepted
            have taken : frame = none ∨ terms.taken = true := by
              cases frame with
              | none => exact .inl rfl
              | some line => exact .inr (by simpa using accepted)
            cases wake : d'.nextWakeup with
            | error stop => exact .overrun round taken wake
            | ok next =>
                cases next with
                | none => exact .rest round taken wake nofun
                | some w =>
                    dsimp only
                    split
                    · rename_i due
                      have kept : d'.settings.retry = p := by rw [settings_serveOnce round, same]
                      have late : w ≤ now.max (terms.wake w) :=
                        Nat.le_trans (punctual w) (Instant.le_max_right now _)
                      refine .again round taken wake due (ih kept _ fun frame' e round' => ?_)
                      have := workLeft_serveOnce_lt kept wake late round'
                      omega
                    · rename_i early
                      exact .rest round taken wake fun w' same => by cases same; exact early

/-- The bound that a dispatcher is served with leaves a round for everything it may come to. -/
theorem workLeft_lt_workBound (d : Dispatcher) :
    d.workLeft d.settings.retry + 1 < d.workBound := by
  let most := d.settings.retry.maxRetries + 1
  have lines (attempts : Nat) : d.settings.retry.linesLeft attempts ≤ most := by
    simp only [RetryPolicy.linesLeft, most]
    omega
  have tasks : d.agenda.workLeft d.settings.retry ≤ d.agenda.size * (1 + 2 * most) := by
    rw [Agenda.size, ← List.length_map (f := fun e => e.task.workLeft d.settings.retry)]
    refine List.sum_le_card_nsmul _ _ fun n counted => ?_
    obtain ⟨e, -, rfl⟩ := List.mem_map.mp counted
    have := lines 0
    cases e.task <;> simp only [Task.workLeft] <;> omega
  have waiting : Queued.workLeft d.settings.retry d.waiting ≤ d.waiting.length * (2 * most) := by
    rw [← List.length_map (f := fun q : Queued => 2 * d.settings.retry.linesLeft q.attempts)]
    refine List.sum_le_card_nsmul _ _ fun n counted => ?_
    obtain ⟨q, -, rfl⟩ := List.mem_map.mp counted
    exact Nat.mul_le_mul_left 2 (lines q.attempts)
  have flight : Attempt.workLeft d.settings.retry d.inFlight ≤ 2 * most := by
    cases d.inFlight with
    | none => exact Nat.zero_le _
    | some a =>
        show 2 * (d.settings.retry.maxRetries - a.number) ≤ 2 * most
        omega
  have bound : d.workBound = d.agenda.size * (1 + 2 * most) + d.waiting.length * (2 * most) +
      2 * most + 2 := by
    simp only [workBound, most]
    ring
  rw [bound, workLeft]
  omega

/-- **The bound on the rounds is never reached.** -/
theorem serves_serve {terms : Terms} (punctual : ∀ t, t ≤ terms.wake t) (sent : List Sent)
    (now : Instant) (d : Dispatcher) : Serves terms sent now d (serve terms d.workBound sent now d) := by
  have bound := workLeft_lt_workBound d
  obtain ⟨rounds, eq⟩ : ∃ rounds, d.workBound = rounds + 1 := ⟨d.workBound - 1, by omega⟩
  rw [eq] at bound ⊢
  refine serves_serve_succ punctual rfl rounds sent fun frame d' round => ?_
  exact Nat.lt_of_le_of_lt (workLeft_serveOnce_le rfl round) (Nat.lt_of_succ_lt_succ bound)

/-! ## What the loop does -/

/-- Where the next moment lies beyond the clock the dispatcher is as it was. -/
theorem nextWakeup_eq_error {stop : Stop} (h : d.nextWakeup = .error stop) : stop.dispatcher = d := by
  unfold nextWakeup at h
  dsimp only at h
  split at h
  · cases paced : d.pacedUntil with
    | ok until? => rw [paced] at h; cases h
    | error stop' =>
        rw [paced] at h
        cases h
        unfold pacedUntil at paced
        split at paced
        · cases paced
        · split at paced <;> cases paced
          rfl
  · cases h

theorem frames_afterRound (now : Instant) (frame : Option (List UInt8)) :
    ((frame.map (Sent.mk now)).toList.map Sent.frame).reverse = frame.toList := by
  cases frame <;> rfl

variable {terms : Terms} {sent : List Sent} {served : Served}

/-- **Serving is a row of steps.**  The lines that went out are those of the row; where the dispatcher
stops it is left as the row leaves it, or as the step does that stops. -/
theorem Serves.run (h : Serves terms sent now d served) :
    ∃ new steps e, served.sent = new ++ sent ∧ d.run steps = .ok ((new.map Sent.frame).reverse, e) ∧
      (∀ d', served.outcome = .ok d' → d' = e) ∧
      (left served.outcome = e ∨ ∃ s, left served.outcome = e.after s) := by
  induction h with
  | @stop sent now d stop round =>
      refine ⟨[], _, d.expire now, rfl, run_expire d now, fun _ same => (by cases same),
        .inr ⟨.poll now, ?_⟩⟩
      rw [after, step, show (d.expire now).pollTransmit now = .error stop from round]
      rfl
  | @lost sent now d d' line round untaken =>
      obtain ⟨steps, run⟩ := exists_run_serveOnce round
      exact ⟨_, steps, d', rfl, run, fun _ same => (Except.ok.inj same).symm, .inl rfl⟩
  | @overrun sent now d d' frame stop round taken wake =>
      obtain ⟨steps, run⟩ := exists_run_serveOnce round
      refine ⟨_, steps, d', rfl, ?_, fun _ same => (by cases same),
        .inl (nextWakeup_eq_error wake)⟩
      rwa [frames_afterRound]
  | @rest sent now d d' frame next round taken wake late =>
      obtain ⟨steps, run⟩ := exists_run_serveOnce round
      refine ⟨_, steps, d', rfl, ?_, fun _ same => (Except.ok.inj same).symm, .inl rfl⟩
      rwa [frames_afterRound]
  | @again sent now w d d' frame served round taken wake due rest ih =>
      obtain ⟨steps, run⟩ := exists_run_serveOnce round
      obtain ⟨new, steps', e, lines, run', ends⟩ := ih
      refine ⟨new ++ (frame.map (Sent.mk now)).toList, steps ++ steps', e, ?_, ?_, ends⟩
      · rw [lines, afterRound, List.append_assoc]
      · rw [List.map_append, List.reverse_append, frames_afterRound]
        exact run_append run run'

theorem mem_afterRound {frame : Option (List UInt8)} {s : Sent} (h : s ∈ afterRound now frame sent) :
    s.moment = now ∨ s ∈ sent := by
  rcases List.mem_append.mp h with new | old
  · obtain ⟨line, -, rfl⟩ := Option.map_eq_some_iff.mp (Option.mem_toList.mp new)
    exact .inl rfl
  · exact .inr old

/-- Serving takes place from now until the limit, and so does the sending of every line. -/
theorem Serves.timely (h : Serves terms sent now d served) :
    now ≤ served.now ∧ served.now ≤ now.max terms.limit ∧
      ∀ s ∈ served.sent, s ∈ sent ∨ now ≤ s.moment ∧ s.moment ≤ served.now := by
  -- in a last round all happens now
  have last {now : Instant} {sent : List Sent} (frame : Option (List UInt8)) :
      now ≤ now ∧ now ≤ now.max terms.limit ∧
        ∀ s ∈ afterRound now frame sent, s ∈ sent ∨ now ≤ s.moment ∧ s.moment ≤ now := by
    refine ⟨Nat.le_refl _, Instant.le_max_left _ _, fun s mem => ?_⟩
    rcases mem_afterRound mem with rfl | old
    · exact .inr ⟨Nat.le_refl _, Nat.le_refl _⟩
    · exact .inl old
  induction h with
  | stop => exact last none
  | lost => exact last _
  | overrun => exact last _
  | rest => exact last _
  | @again sent now w d d' frame served round taken wake due rest ih =>
      obtain ⟨from_, until_, lines⟩ := ih
      have onward : now ≤ served.now := Nat.le_trans (Instant.le_max_left now (terms.wake w)) from_
      refine ⟨onward, Nat.le_trans until_ ?_, fun s mem => ?_⟩
      · refine Instant.max_le (Instant.max_le (Instant.le_max_left _ _) ?_) (Instant.le_max_right _ _)
        exact Nat.le_trans due (Instant.le_max_right now terms.limit)
      · rcases lines s mem with old | ⟨after, before⟩
        · rcases mem_afterRound old with rfl | old
          · exact .inr ⟨Nat.le_refl _, onward⟩
          · exact .inl old
        · exact .inr ⟨Nat.le_trans (Instant.le_max_left now (terms.wake w)) after, before⟩

/-- Where no line goes out now none does later either, unless one waits for the pacing alone and the
interval passes. -/
theorem pollTransmit_of_idle {t : Instant} (idle : d.pollTransmit now = .ok (none, d))
    (pacing : d.isReady = true → ∀ u, d.pacedUntil = .ok (some u) → t < u) :
    d.pollTransmit t = .ok (none, d) := by
  by_cases shut : (!d.linkUp || d.inFlight.isSome) = true
  · unfold pollTransmit
    rw [if_pos shut]
  · cases paced : d.pacedUntil with
    | error stop =>
        unfold pollTransmit at idle
        rw [if_neg shut, paced] at idle
        cases idle
    | ok until? =>
        cases ready : d.isReady with
        | false => exact pollTransmit_of_not_ready ready paced t
        | true =>
            by_cases early : ∃ u, until? = some u ∧ now < u
            · obtain ⟨u, rfl, -⟩ := early
              exact pollTransmit_of_early paced (pacing ready u paced)
            · have late (u : Instant) (h : until? = some u) : u ≤ now :=
                Nat.le_of_not_lt fun before => early ⟨u, h, before⟩
              cases isSome_of_pollTransmit ready paced late idle

/-- After a round the dispatcher does nothing before its next moment. -/
theorem idle_of_serveOnce {frame : Option (List UInt8)} {next : Option Instant} {t : Instant}
    (round : d.serveOnce now = .ok (frame, d')) (wake : d'.nextWakeup = .ok next)
    (early : ∀ w, next = some w → t < w) :
    d'.agenda.popDue t = none ∧ d'.pollTransmit t = .ok (none, d') := by
  have later (u : Instant) (awaited : d'.WaitsFor u) : t < u := by
    obtain ⟨w, next, le⟩ := (waitsFor_of_nextWakeup wake).2 u awaited
    exact Nat.lt_of_lt_of_le (early w next) le
  refine ⟨Agenda.popDue_eq_none_iff.mpr fun u task => later u (.inl task), ?_⟩
  · rcases pollTransmit_eq_ok round with ⟨rfl, rfl⟩ | ⟨line, q, rest, -, -, -, -, sent⟩
    · exact pollTransmit_of_idle round fun ready u paced => later u (.inr ⟨ready, paced⟩)
    · obtain ⟨-, deadline, -, rfl⟩ := transmit_eq_ok sent
      unfold pollTransmit
      rw [if_pos (by simp [launch])]

/-- **What is left is not due.**  When serving has ended, and not because of a line that nobody took,
nothing is to be done at any moment that the dispatcher would have been woken for by now. -/
theorem Serves.rests (ordered : ∀ t u, t ≤ u → terms.wake t ≤ terms.wake u)
    (h : Serves terms sent now d served) (ok : served.outcome = .ok d')
    (accepted : terms.taken = true ∨ served.sent = []) {t : Instant}
    (woken : terms.wake t ≤ terms.limit) :
    d'.agenda.popDue t = none ∧ d'.pollTransmit t = .ok (none, d') := by
  induction h with
  | stop => cases ok
  | lost round untaken =>
      rcases accepted with taken | none
      · exact absurd (taken.symm.trans untaken) (by decide)
      · cases none
  | overrun => cases ok
  | rest round taken wake late =>
      cases ok
      refine idle_of_serveOnce round wake fun w same => ?_
      refine Nat.lt_of_not_le fun past => late w same ?_
      exact Nat.le_trans (ordered w t past) woken
  | again round taken wake due rest ih => exact ih ok accepted

end Dispatcher

end Lighting
