import Lighting.Engine
import Lighting.Proofs.Dispatcher.Announcements
import Lighting.Proofs.Dispatcher.Serving
import Lighting.Proofs.Feed

/-!
# The engine and its audience

Whatever happens to an engine, its dispatcher goes through steps and nothing else (`reaches_after`), so
that what every step keeps holds of the engine, also of one that has stopped.  `Sound` says more of an
engine that runs: the lines it has sent are those of a run of its dispatcher, and it is at rest, that is,
nothing is left to do at the present moment.

A subscriber of an engine has its events by way of a feed, which keeps only so many.  `subscriber_knows`
puts the two together: who takes the events before more of them come than the feed was asked to keep has
them all, and with them knows the link and the devices.
-/

namespace Lighting

namespace Dispatcher

variable {d d' : Dispatcher}

/-- A dispatcher comes to be another one by steps, any of which may have stopped halfway. -/
abbrev Reaches : Dispatcher → Dispatcher → Prop :=
  Relation.ReflTransGen fun d d' => ∃ s, d' = d.after s

/-- What every step keeps, also one that stops halfway, is kept on the way. -/
theorem Reaches.keeps {P : Dispatcher → Prop} (step : ∀ {d : Dispatcher} (s : Step), P d → P (d.after s))
    (reaches : d.Reaches d') (start : P d) : P d' := by
  induction reaches with
  | refl => exact start
  | tail _ last ih =>
      obtain ⟨s, rfl⟩ := last
      exact step s ih

theorem reaches_run (d : Dispatcher) (steps : List Step) :
    d.Reaches (left ((d.run steps).map (·.2))) := by
  induction steps generalizing d with
  | nil => exact .refl
  | cons s rest ih =>
      rw [run_cons]
      cases step : d.step s with
      | error stop =>
          refine .single ⟨s, ?_⟩
          rw [after, step]
          rfl
      | ok r =>
          have first : d.Reaches r.2 := .single ⟨s, (after_of_ok step).symm⟩
          have more := first.trans (ih r.2)
          simp only [Except.bind]
          cases tail : r.2.run rest <;> rw [tail] at more <;> exact more

theorem reaches_perform (d : Dispatcher) (call : Call) :
    d.Reaches (left ((d.perform call).map (·.2))) := by
  have reaches := reaches_run d (call.steps d)
  rw [run_steps] at reaches
  cases done : d.perform call <;> rw [done] at reaches <;> exact reaches

theorem Serves.reaches {terms : Terms} {sent : List Sent} {now : Instant} {served : Served}
    (h : Serves terms sent now d served) : d.Reaches (left served.outcome) := by
  obtain ⟨new, steps, e, -, run, -, ends⟩ := h.run
  have whole := reaches_run d steps
  rw [run] at whole
  rcases ends with same | ⟨s, stopped⟩
  · rw [same]
    exact whole
  · rw [stopped]
    exact whole.tail ⟨s, rfl⟩

theorem Reaches.mirrored (reaches : d.Reaches d') (h : d.Mirrored) : d'.Mirrored :=
  reaches.keeps (fun {d} s h => (d.course s).mirrored h) h

/-! ## What is told stays told -/

theorem Change.outbox (h : Change d d') : ∃ news, d'.outbox = news ++ d.outbox := by
  cases h with
  | record u => exact ⟨_, rfl⟩
  | resolve id a outcome => exact ⟨[_], rfl⟩
  | _ => exact ⟨[], rfl⟩

theorem Changes.outbox (h : Changes d d') : ∃ news, d'.outbox = news ++ d.outbox := by
  induction h with
  | refl => exact ⟨[], rfl⟩
  | tail _ change ih =>
      obtain ⟨first, eq⟩ := ih
      obtain ⟨second, eq'⟩ := change.outbox
      exact ⟨second ++ first, by rw [eq', eq, List.append_assoc]⟩

theorem Course.outbox {s : Step} (h : d.Course s d') : ∃ news, d'.outbox = news ++ d.outbox := by
  cases h with
  | quiet known changes => exact changes.outbox
  | @turn _ e up news other changes =>
      obtain ⟨first, eq⟩ := changes.outbox
      exact ⟨.linkChanged up :: first, congrArg (List.cons _) eq⟩
  | launch sent reach => exact ⟨[], rfl⟩

theorem Reaches.outbox (reaches : d.Reaches d') : ∃ news, d'.outbox = news ++ d.outbox := by
  refine reaches.keeps (P := fun e => ∃ news, e.outbox = news ++ d.outbox) (fun {e} s before => ?_)
    ⟨[], rfl⟩
  obtain ⟨first, eq⟩ := before
  obtain ⟨second, eq'⟩ := (e.course s).outbox
  exact ⟨second ++ first, by rw [eq', eq, List.append_assoc]⟩

end Dispatcher

namespace Engine

/-! ## Whole milliseconds -/

theorem le_wholeMillis (t : Instant) : t ≤ wholeMillis t := by
  have horizon := t.lt_horizon
  simp only [Instant.le_def, wholeMillis, Instant.ofMillis, Instant.horizon, nanosPerMilli] at *
  omega

theorem wholeMillis_mono (t u : Instant) (le : t ≤ u) : wholeMillis t ≤ wholeMillis u := by
  simp only [Instant.le_def, wholeMillis, Instant.ofMillis, nanosPerMilli] at *
  omega

/-- A moment that an engine may be at: a whole number of milliseconds, or the end of the clock. -/
def IsWhole (t : Instant) : Prop := wholeMillis t = t

theorem isWhole_ofMillis (n : Nat) : IsWhole (.ofMillis n) := by
  have ticks : Instant.horizon % nanosPerMilli = 0 := by decide
  refine Instant.ext ?_
  simp only [wholeMillis, Instant.ofMillis]
  generalize Instant.horizon = horizon at ticks
  simp only [nanosPerMilli] at *
  omega

theorem isWhole_start : IsWhole .start := by
  have first : Instant.ofMillis 0 = .start := Instant.ext (by simp [Instant.ofMillis, Instant.start])
  exact first ▸ isWhole_ofMillis 0

theorem IsWhole.max {t u : Instant} (h : IsWhole t) (h' : IsWhole u) : IsWhole (t.max u) := by
  unfold Instant.max
  split
  · exact h'
  · exact h

/-! ## What can happen to an engine -/

/-- What can happen to an engine. -/
inductive Operation where
  /-- An address is asked for an action. -/
  | request (a : Address) (action : Action)
  /-- The link brings news. -/
  | link (event : LinkEvent)
  /-- The clock runs. -/
  | sleep (millis : Nat)
  /-- The engine is told to stop. -/
  | shutdown
  /-- The link will bring no more news. -/
  | closeLink
  /-- Nobody takes lines any more. -/
  | closeOutput

/-- What an operation leaves. -/
def after (e : Engine) : Operation → Engine
  | .request a action => (e.request a action).2
  | .link event => (e.link event).2
  | .sleep millis => e.sleep millis
  | .shutdown => e.shutdown
  | .closeLink => e.closeLink
  | .closeOutput => e.closeOutput

/-- An engine to which a row of operations has happened. -/
def session (e : Engine) (ops : List Operation) : Engine := ops.foldl after e

variable {d : Dispatcher} {e : Engine}

/-- The conditions on which an engine serves its dispatcher. -/
def terms (e : Engine) (limit : Instant) : Dispatcher.Terms :=
  ⟨wholeMillis, e.now.max limit, e.outputOpen⟩

/-- A running engine takes over what serving without a bound on the rounds comes to. -/
theorem workUntil_cases (e : Engine) (limit : Instant) :
    (e.running = false ∧ e.workUntil limit = { e with now := e.now.max limit }) ∨
      ∃ served, Dispatcher.Serves (e.terms limit) [] e.now e.dispatcher served ∧
        e.running = true ∧ e.workUntil limit = { e with now := e.now.max limit }.resume served := by
  unfold workUntil
  dsimp only
  split
  · rename_i running
    exact .inr ⟨_, Dispatcher.serves_serve le_wholeMillis [] e.now e.dispatcher, running, rfl⟩
  · rename_i stopped
    exact .inl ⟨Bool.eq_false_iff.mpr stopped, rfl⟩

@[simp] theorem dispatcher_resume (e : Engine) (served : Dispatcher.Served) :
    (e.resume served).dispatcher = Dispatcher.left served.outcome := by
  unfold resume
  cases served.outcome <;> rfl

@[simp] theorem now_resume (e : Engine) (served : Dispatcher.Served) :
    (e.resume served).now = e.now := by
  unfold resume
  cases served.outcome <;> rfl

theorem reaches_workUntil (e : Engine) (limit : Instant) :
    e.dispatcher.Reaches (e.workUntil limit).dispatcher := by
  rcases e.workUntil_cases limit with ⟨-, same⟩ | ⟨served, serves, -, same⟩
  · rw [same]
  · rw [same, dispatcher_resume]
    exact serves.reaches

theorem sent_resume (e : Engine) (served : Dispatcher.Served) : (e.resume served).sent =
    if e.outputOpen then served.sent.map Dispatcher.Sent.frame ++ e.sent else e.sent := by
  unfold resume
  cases served.outcome <;> rfl

/-- An engine runs on if its dispatcher does, and if it has sent no line that nobody took. -/
theorem running_resume {served : Dispatcher.Served} (h : (e.resume served).running = true) :
    ∃ d, served.outcome = .ok d ∧ (e.outputOpen = true ∨ served.sent = []) := by
  unfold resume at h
  cases outcome : served.outcome with
  | error stop => rw [outcome] at h; cases h
  | ok d =>
      rw [outcome] at h
      have runs : (e.outputOpen || served.sent.isEmpty) = true := h
      rw [Bool.or_eq_true, List.isEmpty_iff] at runs
      exact ⟨d, rfl, runs⟩

/-! ## Steps, and only steps -/

theorem reaches_enqueue (d : Dispatcher) (c : Command) (now : Instant) :
    d.Reaches (d.enqueue c now) :=
  Dispatcher.reaches_perform d (.enqueue c now)

theorem reaches_issueId (d : Dispatcher) : d.Reaches d.issueId.2 :=
  Dispatcher.reaches_perform d .issue

theorem reaches_onLink (d : Dispatcher) (event : LinkEvent) (now : Instant) :
    d.Reaches (Dispatcher.left (d.onLink event now)) := by
  have reaches := Dispatcher.reaches_perform d (.link event now)
  rw [show d.perform (.link event now) = (d.onLink event now).map fun d => (none, d) from rfl] at reaches
  cases news : d.onLink event now <;> rw [news] at reaches <;> exact reaches

/-- **Whatever happens to an engine is steps of its dispatcher.** -/
theorem reaches_after (e : Engine) (op : Operation) :
    e.dispatcher.Reaches (e.after op).dispatcher := by
  cases op with
  | request a action =>
      have issued := reaches_issueId e.dispatcher
      simp only [after, request]
      split
      · exact (issued.trans (reaches_enqueue _ _ _)).trans (reaches_workUntil
          { e with dispatcher := _ } e.now)
      · exact issued
  | link event =>
      have heard := reaches_onLink e.dispatcher event e.now
      simp only [after, link]
      split
      · exact .refl
      · split
        · split
          · rename_i d news
            rw [news] at heard
            exact heard.trans (reaches_workUntil { e with dispatcher := d } _)
          · rename_i stop news
            rw [news] at heard
            exact heard
        · exact .refl
  | sleep millis => exact reaches_workUntil e _
  | shutdown => exact .refl
  | closeLink => exact .refl
  | closeOutput => exact .refl

theorem reaches_session (e : Engine) (ops : List Operation) :
    e.dispatcher.Reaches (e.session ops).dispatcher := by
  induction ops generalizing e with
  | nil => exact .refl
  | cons op ops ih => exact (reaches_after e op).trans (ih _)

/-! ## Running engines -/

/-- The lines an engine has sent are those of a run that has led to its dispatcher. -/
def Ran (d : Dispatcher) (e : Engine) : Prop := ∃ steps, d.run steps = .ok (e.sent.reverse, e.dispatcher)

/-- Nothing is left to do at the present moment. -/
structure AtRest (e : Engine) : Prop where
  /-- No task is due. -/
  tasks : e.dispatcher.agenda.popDue e.now = none
  /-- No line may go out. -/
  lines : e.dispatcher.pollTransmit e.now = .ok (none, e.dispatcher)

/-- What holds of every engine that was started with a dispatcher. -/
structure Sound (d : Dispatcher) (e : Engine) : Prop where
  /-- While the engine runs all it has sent comes from a run. -/
  ran : e.running = true → e.Ran d
  /-- While the engine runs it is at rest. -/
  rests : e.running = true → e.AtRest
  /-- The engine wakes on whole milliseconds. -/
  whole : IsWhole e.now

theorem now_workUntil (e : Engine) (limit : Instant) : (e.workUntil limit).now = e.now.max limit := by
  rcases e.workUntil_cases limit with ⟨-, same⟩ | ⟨served, -, -, same⟩
  · rw [same]
  · rw [same, now_resume]

theorem ran_workUntil (h : e.running = true → e.Ran d) (limit : Instant)
    (runs : (e.workUntil limit).running = true) : (e.workUntil limit).Ran d := by
  rcases e.workUntil_cases limit with ⟨stopped, same⟩ | ⟨served, serves, running, same⟩
  · rw [same] at runs
    exact absurd (runs.symm.trans stopped) (by decide)
  · rw [same] at runs ⊢
    obtain ⟨d', ok, accepted⟩ := running_resume runs
    obtain ⟨steps, run⟩ := h running
    obtain ⟨new, steps', last, lines, run', ends, -⟩ := serves.run
    have sent : served.sent = new := by rw [lines, List.append_nil]
    obtain rfl := ends d' ok
    refine ⟨steps ++ steps', ?_⟩
    have frames : (({ e with now := e.now.max limit } : Engine).resume served).sent.reverse =
        e.sent.reverse ++ (new.map Dispatcher.Sent.frame).reverse := by
      rw [sent_resume]
      split
      · rw [sent, List.reverse_append]
      · rename_i untaken
        rcases accepted with taken | none
        · exact absurd taken untaken
        · rw [← sent, none]
          exact (List.append_nil _).symm
    rw [frames, dispatcher_resume, ok]
    exact Dispatcher.run_append run run'

theorem atRest_workUntil (whole : IsWhole e.now) {limit : Instant} (whole' : IsWhole limit)
    (runs : (e.workUntil limit).running = true) : (e.workUntil limit).AtRest := by
  rcases e.workUntil_cases limit with ⟨stopped, same⟩ | ⟨served, serves, running, same⟩
  · rw [same] at runs
    exact absurd (runs.symm.trans stopped) (by decide)
  · rw [same] at runs ⊢
    obtain ⟨d', ok, accepted⟩ := running_resume runs
    have now : wholeMillis (e.now.max limit) ≤ e.now.max limit := by
      rw [whole.max whole']
      exact Nat.le_refl _
    obtain ⟨tasks, lines⟩ := serves.rests wholeMillis_mono ok accepted now
    constructor
    · rw [dispatcher_resume, now_resume, ok]
      exact tasks
    · rw [dispatcher_resume, now_resume, ok]
      exact lines

/-- Working up to a whole millisecond leaves an engine sound, even if it was not at rest. -/
theorem sound_workUntil (ran : e.running = true → e.Ran d) (whole : IsWhole e.now) {limit : Instant}
    (whole' : IsWhole limit) : (e.workUntil limit).Sound d where
  ran := ran_workUntil ran limit
  rests := atRest_workUntil whole whole'
  whole := by
    rw [now_workUntil]
    exact whole.max whole'

theorem sound_start (d : Dispatcher) : (start d).Sound d :=
  let asleep : Engine := ⟨d, .start, true, true, true, []⟩
  sound_workUntil (e := asleep) (fun _ => ⟨[], rfl⟩) isWhole_start isWhole_start

theorem Ran.call (h : e.Ran d) (call : Dispatcher.Call) {d' : Dispatcher}
    (done : e.dispatcher.perform call = .ok (none, d')) : ({ e with dispatcher := d' } : Engine).Ran d := by
  obtain ⟨steps, run⟩ := h
  have more := Dispatcher.run_steps e.dispatcher call
  rw [done] at more
  refine ⟨_, (Dispatcher.run_append run more).trans ?_⟩
  exact congrArg (fun lines => Except.ok (lines, d')) (List.append_nil _)

/-- An engine that has stopped is sound wherever it stands. -/
theorem sound_of_stopped (stopped : e.running = false) (whole : IsWhole e.now) : e.Sound d where
  ran := fun runs => absurd (stopped.symm.trans runs) Bool.false_ne_true
  rests := fun runs => absurd (stopped.symm.trans runs) Bool.false_ne_true
  whole := whole

theorem Sound.after (h : e.Sound d) (op : Operation) : (e.after op).Sound d := by
  cases op with
  | request a action =>
      simp only [Engine.after, request]
      split
      · rename_i running
        have issued := (h.ran running).call .issue rfl
        have taken := issued.call (.enqueue ⟨e.dispatcher.nextId, a, action, e.now⟩ e.now) rfl
        exact sound_workUntil (fun _ => taken) h.whole h.whole
      · rename_i stopped
        exact sound_of_stopped (Bool.eq_false_iff.mpr stopped) h.whole
  | link event =>
      simp only [Engine.after, link]
      split
      · exact h
      · split
        · rename_i running
          split
          · rename_i d' news
            have heard : e.dispatcher.perform (.link event e.now) = .ok (none, d') := by
              rw [Dispatcher.perform, news]
              rfl
            exact sound_workUntil (fun _ => (h.ran running).call _ heard) h.whole h.whole
          · exact sound_of_stopped rfl h.whole
        · exact h
  | sleep millis => exact sound_workUntil h.ran h.whole (isWhole_ofMillis _)
  | shutdown => exact sound_of_stopped rfl h.whole
  | closeLink => exact sound_of_stopped rfl h.whole
  | closeOutput => exact ⟨h.ran, fun runs => ⟨(h.rests runs).tasks, (h.rests runs).lines⟩, h.whole⟩

/-- **An engine that runs is at rest, and its lines come from a run.** -/
theorem sound_session (d : Dispatcher) (ops : List Operation) :
    ((start d).session ops).Sound d := by
  have all {e : Engine} (h : e.Sound d) : (e.session ops).Sound d := by
    induction ops generalizing e with
    | nil => exact h
    | cons op ops ih => exact ih (h.after op)
  exact all (sound_start d)

/-! ## The audience -/

/-- What was told between two states of a dispatcher, the oldest first. -/
def told (before after : Dispatcher) : List Event :=
  (after.outbox.take (after.outbox.length - before.outbox.length)).reverse

theorem outbox_eq_told {d d' : Dispatcher} (reaches : d.Reaches d') :
    d'.outbox = (told d d').reverse ++ d.outbox := by
  obtain ⟨news, eq⟩ := reaches.outbox
  rw [told, List.reverse_reverse, eq, List.length_append, Nat.add_sub_cancel, List.take_left]

/-- What each of a row of operations tells. -/
def toldAlong (e : Engine) : List Operation → List (List Event)
  | [] => []
  | op :: rest => told e.dispatcher (e.after op).dispatcher :: (e.after op).toldAlong rest

/-- What an engine tells, when it starts and then at each operation. -/
def batches (d : Dispatcher) (ops : List Operation) : List (List Event) :=
  told d (start d).dispatcher :: (start d).toldAlong ops

theorem outbox_session (e : Engine) (ops : List Operation) :
    (e.session ops).dispatcher.outbox = (e.toldAlong ops).flatten.reverse ++ e.dispatcher.outbox := by
  induction ops generalizing e with
  | nil => rfl
  | cons op ops ih =>
      show ((e.after op).session ops).dispatcher.outbox = _
      rw [ih, outbox_eq_told (reaches_after e op), toldAlong, List.flatten_cons, List.reverse_append,
        List.append_assoc]

theorem reaches_start (d : Dispatcher) : d.Reaches (start d).dispatcher :=
  reaches_workUntil ⟨d, .start, true, true, true, []⟩ .start

theorem outbox_start (d : Dispatcher) (ops : List Operation) :
    ((start d).session ops).dispatcher.outbox = (batches d ops).flatten.reverse ++ d.outbox := by
  rw [outbox_session, outbox_eq_told (reaches_start d), batches, List.flatten_cons, List.reverse_append,
    List.append_assoc]

/-- **Who keeps up with an engine knows everything.**  A subscriber that was there from the start, and
takes the events after each operation, has them all in order if no operation tells more of them than the
feed was asked to keep; and they tell how the link is and what is published of every device. -/
theorem subscriber_knows (settings : Settings) (excluded : List Address) (ops : List Operation)
    {n : Nat} (short : ∀ batch ∈ batches (.create settings excluded) ops, batch.length ≤ max n 1) :
    let feed : Feed Event := .ofCapacity n
    let e := (start (.create settings excluded)).session ops
    feed.follow feed.subscribe (batches (.create settings excluded) ops) =
        e.dispatcher.outbox.reverse.map .item ∧
      e.dispatcher.Mirrored := by
  dsimp only
  have all : ((start (.create settings excluded)).session ops).dispatcher.outbox.reverse =
      (batches (.create settings excluded) ops).flatten := by
    rw [outbox_start, List.reverse_append, List.reverse_reverse]
    rfl
  have reaches := (reaches_start (.create settings excluded)).trans
    (reaches_session (start (.create settings excluded)) ops)
  rw [all]
  exact ⟨Feed.follow_ofCapacity n [] short,
    Dispatcher.Reaches.mirrored reaches (Dispatcher.mirrored_create settings excluded)⟩

end Engine

end Lighting
