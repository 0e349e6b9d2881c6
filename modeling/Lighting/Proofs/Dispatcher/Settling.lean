import Lighting.Proofs.Dispatcher.Hearing

/-!
# Whose end it is

When the bus units run a ramp, the dispatcher enters the end of it on the agenda, and clears the ramp
flag when that moment has come.  In between there may be other news of the address.  News of a ramp
brings an end of its own in the place of the earlier one, and news of a level that is reached at once
strikes it.  So an end that comes is that of the last news, with one exception: the answer to a step of
a stepped ramp that goes on leaves the entry there (`Traced`).

### What the exception costs

The entry of the earlier ramp then comes in the middle of the stepped ramp and clears its flag, while
steps are still to come (`settled_while_stepping`).  What is true of all runs is that nothing but such
answers may lie between an end and the news it was entered for (`settled_by_its_ramp`).
-/

namespace Lighting

namespace Dispatcher

variable {d d' : Dispatcher} {a : Address} {before after : List Hearing}

/-- The end of a ramp on the agenda was entered for news after which only steps that go on were
accepted for the address. -/
def Traced (d : Dispatcher) (a : Address) (heard : List Hearing) : Prop :=
  ∀ e ∈ d.agenda.entries, e.task = .settled a → ∃ before h after, heard = before ++ h :: after ∧
    h.address = a ∧ h.settles = some e ∧ ∀ x ∈ after, x.address = a → x.isStep = true

/-- An end that is still awaited was on the agenda already. -/
theorem mem_entries_of_awaited (timely : d.Timely) (timely' : d'.Timely) (grows : Grows d d')
    (awaited : d'.settling.get a = d.settling.get a) {e : Agenda.Entry Task}
    (there : e ∈ d'.agenda.entries) (task : e.task = .settled a) : e ∈ d.agenda.entries := by
  have known := awaited.symm.trans (timely'.settles.owned e there a task)
  obtain ⟨deadline, live⟩ := timely.settles.live a e.token known
  have issued : e.token.number < d.agenda.next.number := timely.ordered.issued ⟨_, deadline, _⟩ live
  rcases grows.entries e there with old | young
  · exact old
  · omega

/-- Nothing heard, nothing entered. -/
theorem Traced.calm {heard : List Hearing} (h : d.Traced a heard) (timely : d.Timely)
    (timely' : d'.Timely) (grows : Grows d d') (calm : Calm a d d') : d'.Traced a heard := by
  intro e there task
  exact h e (mem_entries_of_awaited timely timely' grows calm.awaited there task) task

/-- News of other addresses, and steps that go on, may follow the news that an end was entered for. -/
theorem Traced.append {heard : List Hearing} (h : d.Traced a heard) {x : Hearing}
    (step : x.address = a → x.isStep = true) : d.Traced a (heard ++ [x]) := by
  intro e there task
  obtain ⟨before, y, after, rfl, mine, settles, steps⟩ := h e there task
  refine ⟨before, y, after ++ [x], by simp, mine, settles, fun z hz => ?_⟩
  rcases List.mem_append.mp hz with hz | hz
  · exact steps z hz
  · exact List.mem_singleton.mp hz ▸ step

/-- **News is followed by the end that was entered for it**, or leaves the earlier one there. -/
theorem Traced.taken {heard : List Hearing} (h : d.Traced a heard) (timely : d.Timely)
    (timely' : d'.Timely) (grows : Grows d d') {x : Hearing} (taken : Taken d x d') :
    d'.Traced a (heard ++ [x]) := by
  by_cases mine : a = x.address
  · subst mine
    cases step : x.isStep with
    | true =>
        intro e there task
        have awaited : d'.settling.get x.address = d.settling.get x.address := by
          rw [taken.awaited, step, if_pos rfl]
        have old := mem_entries_of_awaited timely timely' grows awaited there task
        exact h.append (fun _ => step) e old task
    | false =>
        intro e there task
        -- the one end that is awaited now is that of the news
        have known := timely'.settles.owned e there x.address task
        rw [taken.awaited, step, if_neg nofun] at known
        obtain ⟨e', settles, same⟩ := Option.map_eq_some_iff.mp known
        obtain ⟨-, there'⟩ := taken.entered e' settles
        obtain rfl := timely'.ordered.unique e' there' e there same
        exact ⟨heard, x, [], rfl, rfl, settles, nofun⟩
  · have calm := h.calm timely timely' grows (taken.others a mine)
    exact calm.append fun same => absurd same.symm mine

theorem Traced.takenAll {heard xs : List Hearing} (h : d.Traced a heard) (timely : d.Timely)
    (taken : TakenAll d xs d') : d'.Traced a (heard ++ xs) := by
  induction taken generalizing heard with
  | nil => exact (List.append_nil heard).symm ▸ h
  | @cons d e d' x xs first beside grows rest ih =>
      have timely' := beside.timely timely
      rw [List.append_cons]
      exact ih (h.taken timely timely' grows first) timely'

/-- **Every step keeps the ends with their news.** -/
theorem Traced.step {heard : List Hearing} (h : d.Traced a heard) (orderly : d.Orderly) {s : Step}
    {frame : Option (List UInt8)} (step : d.step s = .ok (frame, d')) :
    d'.Traced a (heard ++ d.hears s) := by
  have timely := orderly.timely
  have timely' := (orderly.step step).timely
  have grows : Grows d d' := after_of_ok step ▸ (d.course s).grows
  -- a step in which nothing is heard enters no end, whether it leaves the flags alone or clears one
  have quiet (none : d.hears s = [])
      (kept : ∀ e ∈ d'.agenda.entries, e.task = .settled a → e ∈ d.agenda.entries) :
      d'.Traced a (heard ++ d.hears s) := by
    rw [none, List.append_nil]
    exact fun e there task => h e (kept e there task) task
  have still (calm : Calm a d d') : ∀ e ∈ d'.agenda.entries, e.task = .settled a →
      e ∈ d.agenda.entries :=
    fun e => mem_entries_of_awaited timely timely' grows calm.awaited
  cases swing orderly step with
  | apart none calm busy => exact quiet none (still (calm a))
  | @accepted t now flight one taken rest =>
      rw [one]
      exact h.taken timely timely' grows taken
  | @failed t flight none awaited others flag rest =>
      exact quiet none fun e => mem_entries_of_awaited timely timely' grows (by rw [awaited])
  | reported whole taken => exact h.takenAll timely taken
  | @settled b none awaited flag others rest =>
      by_cases mine : a = b
      · subst mine
        refine quiet none fun e there task => ?_
        have known := timely'.settles.owned e there a task
        rw [awaited] at known
        cases known
      · exact quiet none (still (others a mine))

theorem Traced.run {heard : List Hearing} (h : d.Traced a heard) (orderly : d.Orderly)
    {steps : List Step} {frames : List (List UInt8)} (run : d.run steps = .ok (frames, d')) :
    d'.Traced a (heard ++ d.hearings steps) := by
  induction steps generalizing d heard frames with
  | nil =>
      cases run
      exact (List.append_nil heard).symm ▸ h
  | cons s rest ih =>
      obtain ⟨frame, e, frames', first, tail⟩ := run_cons_eq_ok run
      have traced := ih (h.step orderly first) (orderly.step first) tail
      rwa [List.append_assoc, ← hearings_cons first] at traced

/-- **An end clears the flag of the ramp it was entered for**, unless a stepped ramp has come on.  When
the end of a ramp of the bus units comes, it is found among the news of the address, and after that news
none came but answers to steps of stepped ramps that go on.  So if the last news is not such an answer,
it is the news of the very ramp whose end has come. -/
theorem settled_by_its_ramp {settings : Settings} {excluded : List Address} {steps : List Step}
    {frames : List (List UInt8)}
    (reached : (create settings excluded).run steps = .ok (frames, d)) {now : Instant}
    {e : Agenda.Entry Task} {g : Agenda Task} (due : d.agenda.popDue now = some (e, g))
    (task : e.task = .settled a) :
    ((d.fireNext now).query a).rampActive = false ∧
      (∃ before h after,
        ((create settings excluded).hearings steps).filter (·.address = a) = before ++ h :: after ∧
          h.settles = some e ∧ ∀ x ∈ after, x.isStep = true) ∧
      ∀ last, (((create settings excluded).hearings steps).filter (·.address = a)).getLast? = some last →
        last.isStep = false → last.settles = some e := by
  have orderly := (orderly_create settings excluded).run reached
  have there := (orderly.timely.ordered.popDue_eq_some due).1
  have empty : (create settings excluded).Traced a [] := fun _ he => absurd he List.not_mem_nil
  obtain ⟨before, h, after, heard, mine, settles, steps'⟩ :=
    empty.run (orderly_create settings excluded) reached e there task
  rw [List.nil_append] at heard
  have own : ((create settings excluded).hearings steps).filter (·.address = a) =
      before.filter (·.address = a) ++ h :: after.filter (·.address = a) := by
    rw [heard, List.filter_append, List.filter_cons_of_pos (by simpa using mine)]
  have later : ∀ x ∈ after.filter (·.address = a), x.isStep = true := by
    intro x hx
    obtain ⟨hx, address⟩ := List.mem_filter.mp hx
    exact steps' x hx (by simpa using address)
  refine ⟨?_, ⟨_, h, _, own, settles, later⟩, fun last final whole => ?_⟩
  · rw [orderly.timely.fireNext_eq due, obey, task]
    exact rampActive_update _ (.setRamp a false)
  · rw [own, List.getLast?_append, List.getLast?_cons] at final
    cases back : (after.filter (·.address = a)).getLast? with
    | none =>
        rw [back] at final
        cases final
        exact settles
    | some x =>
        rw [back] at final
        cases final
        exact absurd ((later _ (List.mem_of_getLast? back)).symm.trans whole) (by decide)

/-- A ramp of eight seconds is reported, and its end comes. -/
theorem settled_by_its_ramp_of_report :
    ∃ frames d e g h, (create .standard []).run
        [.linkUp, .frame (Packet.octets "050138001206802A".toList) .start] = .ok (frames, d) ∧
      d.agenda.popDue (.ofMillis 8000) = some (e, g) ∧ (d.query ⟨6⟩).rampActive = true ∧
      ((d.fireNext (.ofMillis 8000)).query ⟨6⟩).rampActive = false ∧
      (((create .standard []).hearings
        [.linkUp, .frame (Packet.octets "050138001206802A".toList) .start]).filter
          (·.address = ⟨6⟩)).getLast? = some h ∧ h.settles = some e := by
  obtain ⟨⟨frames, d⟩, reached, seen⟩ := exists_ok
    (x := (create .standard []).run
      [.linkUp, .frame (Packet.octets "050138001206802A".toList) .start])
    (f := fun r => ((r.2.query ⟨6⟩).rampActive,
      (r.2.agenda.popDue (.ofMillis 8000)).map fun p => p.1.task))
    (b := (true, some (.settled ⟨6⟩))) (by decide +kernel)
  obtain ⟨active, due⟩ := Prod.mk.inj seen
  obtain ⟨⟨e, g⟩, due, task⟩ := Option.map_eq_some_iff.mp due
  have whole : ((((create .standard []).hearings
      [.linkUp, .frame (Packet.octets "050138001206802A".toList) .start]).filter
        (·.address = ⟨6⟩)).getLast?).map Hearing.isStep = some false := by decide +kernel
  obtain ⟨h, last, step⟩ := Option.map_eq_some_iff.mp whole
  obtain ⟨clear, -, own⟩ := settled_by_its_ramp reached due task
  exact ⟨frames, d, e, g, h, reached, due, active, clear, last, own h last step⟩

/-- A ramp of eight seconds is reported, and a stepped ramp of twelve is asked for.  The first of its
two steps is accepted after six seconds.  After eight the end of the reported ramp comes and clears the
flag, though the last news is the answer to the step and the last step is still to come. -/
theorem settled_while_stepping :
    ∃ frames d e g h,
      (create { Settings.standard with nativeRamps := false, rampSteps := 2 } []).run
        [.linkUp, .frame (Packet.octets "050138001206802A".toList) .start, .issue,
          .enqueue ⟨⟨1⟩, ⟨6⟩, .ramp .full (.ofSeconds 12), .start⟩ .start, .fire (.ofMillis 6000),
          .poll (.ofMillis 6000), .frame [0x68, 0x2E] (.ofMillis 6000)] = .ok (frames, d) ∧
      d.agenda.popDue (.ofMillis 8000) = some (e, g) ∧ e.task = .settled ⟨6⟩ ∧
      (d.query ⟨6⟩).rampActive = true ∧
      ((d.fireNext (.ofMillis 8000)).query ⟨6⟩).rampActive = false ∧
      ((d.fireNext (.ofMillis 8000)).plans.get ⟨6⟩).isSome = true ∧
      (((create { Settings.standard with nativeRamps := false, rampSteps := 2 } []).hearings
        [.linkUp, .frame (Packet.octets "050138001206802A".toList) .start, .issue,
          .enqueue ⟨⟨1⟩, ⟨6⟩, .ramp .full (.ofSeconds 12), .start⟩ .start, .fire (.ofMillis 6000),
          .poll (.ofMillis 6000), .frame [0x68, 0x2E] (.ofMillis 6000)]).filter
            (·.address = ⟨6⟩)).getLast? = some h ∧
      h.isStep = true ∧ h.settles ≠ some e := by
  obtain ⟨⟨frames, d⟩, reached, seen⟩ := exists_ok
    (x := (create { Settings.standard with nativeRamps := false, rampSteps := 2 } []).run
      [.linkUp, .frame (Packet.octets "050138001206802A".toList) .start, .issue,
        .enqueue ⟨⟨1⟩, ⟨6⟩, .ramp .full (.ofSeconds 12), .start⟩ .start, .fire (.ofMillis 6000),
        .poll (.ofMillis 6000), .frame [0x68, 0x2E] (.ofMillis 6000)])
    (f := fun r => ((r.2.agenda.popDue (.ofMillis 8000)).map fun p => p.1.task,
      (r.2.query ⟨6⟩).rampActive, ((r.2.fireNext (.ofMillis 8000)).query ⟨6⟩).rampActive,
      ((r.2.fireNext (.ofMillis 8000)).plans.get ⟨6⟩).isSome))
    (b := (some (.settled ⟨6⟩), true, false, true)) (by decide +kernel)
  obtain ⟨due, seen⟩ := Prod.mk.inj seen
  obtain ⟨active, seen⟩ := Prod.mk.inj seen
  obtain ⟨clear, planned⟩ := Prod.mk.inj seen
  obtain ⟨⟨e, g⟩, due, task⟩ := Option.map_eq_some_iff.mp due
  have step : ((((create { Settings.standard with nativeRamps := false, rampSteps := 2 } []).hearings
      [.linkUp, .frame (Packet.octets "050138001206802A".toList) .start, .issue,
        .enqueue ⟨⟨1⟩, ⟨6⟩, .ramp .full (.ofSeconds 12), .start⟩ .start, .fire (.ofMillis 6000),
        .poll (.ofMillis 6000), .frame [0x68, 0x2E] (.ofMillis 6000)]).filter
          (·.address = ⟨6⟩)).getLast?).map (fun h => (h.isStep, h.settles)) = some (true, none) := by
    decide +kernel
  obtain ⟨h, last, step⟩ := Option.map_eq_some_iff.mp step
  obtain ⟨step, none⟩ := Prod.mk.inj step
  exact ⟨frames, d, e, g, h, reached, due, task, active, clear, planned, last, step,
    by rw [none]; nofun⟩

end Dispatcher

end Lighting
