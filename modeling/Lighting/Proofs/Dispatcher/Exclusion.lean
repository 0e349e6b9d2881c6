import Lighting.Home.Route
import Lighting.Proofs.Device.Map
import Lighting.Proofs.Dispatcher.Pacing
import Lighting.Proofs.Dispatcher.Pending
import Lighting.Proofs.Dispatcher.Tasks
import Lighting.Proofs.Packet.Encoding

/-!
# Addresses to leave alone

A command and a report are the only ways by which an address comes into a dispatcher, and both stop at
the addresses that are to be left alone.  Whatever else happens concerns addresses that are there
already: attempts and steps of ramps are of commands, ends of ramps are of commands and reports, and
events tell of all these.  So everything that a dispatcher holds or tells stays within the addresses
that were named to it and are not to be left alone (`Within`), and everything in there has a state.

### What a snapshot lists

The registry keeps a state for an address from its first command or report on.  Together this says
exactly which states a snapshot lists, and in which order (`snapshot_eq`).
-/

namespace Lighting

/-- A command is routed to devices that take commands only. -/
theorem Home.acceptsCommands_of_route {topic : String} {payload : List UInt8} {kinds : DeviceMap}
    {a : Address} {action : Action} (routed : route topic payload kinds = .ok (some (a, action))) :
    (kinds.get a).acceptsCommands = true := by
  unfold route at routed
  split at routed
  · cases routed
  · split at routed
    · rename_i accepts
      split at routed
      · cases routed
      · cases routed
        exact accepts
    · cases routed

namespace Registry

theorem contains_update (r : Registry) (u : Update) (a : Address) :
    (r.update u).1.contains a = true ↔ a = u.address ∨ r.contains a = true := by
  rw [update_eq, contains, modify, Address.Table.get_set]
  split
  · rename_i same
    simp [same]
  · rename_i other
    simp [other, contains]

end Registry

namespace Dispatcher

/-- The addresses that a step names: those of a command and of reports. -/
def Step.names : Step → List Address
  | .enqueue c _ => [c.address]
  | .frame octets _ =>
    match Packet.decode octets with
    | .ok (.status reports) => reports.map (·.address)
    | _ => []
  | _ => []

/-- The address that a task concerns. -/
def concerns (d : Dispatcher) : Task → Option Address
  | .confirmation _ _ => d.inFlight.map (·.command.address)
  | .rampStep _ c _ => some c.address
  | .settled a => some a

variable {K : Address → Prop} {d d' : Dispatcher} {a : Address}

/-! ## What is known, awaited and told -/

/-- All that is known, awaited and told is of addresses in `K`. -/
structure Confined (K : Address → Prop) (d : Dispatcher) : Prop where
  /-- The state of an address is a state of this address. -/
  own : ∀ a, (d.query a).address = a
  /-- The registry knows of no other addresses. -/
  known : ∀ a, d.registry.contains a = true → K a
  /-- No end of a ramp is awaited for another address. -/
  awaited : ∀ a t, d.settling.get a = some t → K a
  /-- No event is about another address. -/
  told : ∀ e ∈ d.outbox, ∀ a, e.address? = some a → K a

namespace Confined

theorem of_same (h : Confined K d) (registry : d'.registry = d.registry)
    (settling : d'.settling = d.settling) (outbox : d'.outbox = d.outbox) : Confined K d' :=
  ⟨fun a => by rw [query, registry]; exact h.own a, registry ▸ h.known, settling ▸ h.awaited,
    outbox ▸ h.told⟩

theorem tell (h : Confined K d) {e : Event} (mine : ∀ a, e.address? = some a → K a) :
    Confined K (d.tell e) :=
  ⟨h.own, h.known, h.awaited, List.forall_mem_cons.mpr ⟨mine, h.told⟩⟩

theorem resolve (h : Confined K d) (id : CommandId) {a : Address} (mine : K a) (outcome : Outcome) :
    Confined K (d.tell (.resolved id a outcome)) :=
  h.tell fun b same => by
    cases same
    exact mine

theorem record (h : Confined K d) (u : Registry.Update) (mine : K u.address) :
    Confined K (d.record (d.registry.update u)) := by
  have own (a : Address) : ((d.registry.update u).1.query a).address = a := by
    by_cases same : a = u.address
    · rw [same, Registry.query_update_self, Registry.Update.address_change]
      exact h.own _
    · rw [Registry.query_update_of_ne _ same]
      exact h.own a
  refine ⟨own, fun a there => ?_, h.awaited, fun e told a about => ?_⟩
  · rcases (Registry.contains_update _ _ _).mp there with rfl | there
    · exact mine
    · exact h.known a there
  · rcases List.mem_append.mp told with news | old
    · obtain ⟨-, -, full⟩ := d.registry.update_told u
      rw [full e (Option.mem_toList.mp news), Event.address?, own] at about
      cases about
      exact mine
    · exact h.told e old a about

theorem unsettle (h : Confined K d) (a : Address) : Confined K (d.unsettle a) := by
  unfold Dispatcher.unsettle
  split
  · refine ⟨h.own, h.known, fun b t known => ?_, h.told⟩
    have known : (d.settling.set a none).get b = some t := known
    rw [Address.Table.get_set] at known
    split at known
    · cases known
    · exact h.awaited b t known
  · exact h

theorem settleAfter (h : Confined K d) (mine : K a) {now : Instant} {span : Duration}
    (settled : d.settleAfter a now span = .ok d') : Confined K d' := by
  unfold Dispatcher.settleAfter at settled
  split at settled
  · cases settled
    refine ⟨h.own, h.known, fun b t known => ?_, h.told⟩
    have known : (d.settling.set a (some d.agenda.next)).get b = some t := known
    rw [Address.Table.get_set] at known
    split at known
    · rename_i same
      exact same ▸ mine
    · exact h.awaited b t known
  · cases settled

theorem submit (h : Confined K d) {c : Command} (mine : K c.address) (origin : Origin) :
    Confined K (d.submit c origin) := by
  rcases submit_cases d c origin with ⟨_, old, _, -, same, -, eq⟩ | ⟨t, -, same, eq⟩ | ⟨-, eq⟩
  · rw [eq]
    refine resolve ?_ _ (same ▸ mine) _
    exact h.of_same rfl rfl rfl
  · rw [eq]
    refine resolve ?_ _ (same ▸ mine) _
    exact h.of_same rfl rfl rfl
  · rw [eq]
    exact h.of_same rfl rfl rfl

theorem submitAll (h : Confined K d) {ps : List Part} (mine : ∀ p ∈ ps, K p.command.address) :
    Confined K (d.submitAll ps) := by
  induction ps generalizing d with
  | nil => exact h
  | cons p ps ih =>
      obtain ⟨first, rest⟩ := List.forall_mem_cons.mp mine
      exact ih (h.submit first p.origin) rest

theorem accept (h : Confined K d) {c : Command} (mine : K c.address) (now : Instant) :
    Confined K (d.accept c now) := by
  have cancelled : Confined K (d.cancelPlan c.address c.id) := by
    unfold cancelPlan
    split
    · exact h
    · refine resolve ?_ _ mine _
      exact h.of_same rfl rfl rfl
  have room : Confined K (d.makeRoom c) :=
    cancelled.record (.aim c.address c.target c.transition) mine
  have laid : Confined K (d.lay c now) := by
    unfold lay
    split
    · exact room.of_same rfl rfl rfl
    · exact room
  rw [accept_eq]
  exact laid.submitAll fun p hp => address_atOnce hp ▸ mine

theorem retryOrFail (h : Confined K d) {t : Attempt} (mine : K t.command.address) :
    Confined K (d.retryOrFail t) := by
  unfold Dispatcher.retryOrFail
  split
  · exact h.of_same rfl rfl rfl
  · have failed := (h.resolve t.command.id mine (.failed t.number)).record
      (.assume t.command.address t.command.target) mine
    dsimp only
    split
    · exact failed
    · exact failed.record (.setRamp t.command.address false) mine

theorem onAccepted (h : Confined K d) {t : Attempt} (mine : K t.command.address) {now : Instant}
    (accepted : d.onAccepted t now = .ok d') : Confined K d' := by
  have told := h.resolve t.command.id mine .confirmed
  unfold Dispatcher.onAccepted at accepted
  dsimp only at accepted
  split at accepted
  · cases settled : (d.tell (.resolved t.command.id t.command.address .confirmed)).settleAfter
      t.command.address now (busTime t.command.transition) with
    | error stop => rw [settled] at accepted; cases accepted
    | ok e =>
        rw [settled] at accepted
        cases accepted
        exact (told.settleAfter mine settled).record
          (.confirmRamp t.command.address t.command.target true) mine
  · split at accepted
    · cases accepted
      exact told.record (.confirmRamp t.command.address t.command.target true) mine
    · cases accepted
      exact (told.unsettle _).record (.confirmRamp t.command.address t.command.target false) mine

theorem onReport (h : Confined K d) {now : Instant} {r : Packet.Report}
    (mine : d.excluded.get r.address = false → K r.address) (came : d.onReport now r = .ok d') :
    Confined K d' := by
  unfold Dispatcher.onReport at came
  split at came
  · cases came
    exact h
  · rename_i open?
    have mine := mine (by simpa using open?)
    have seen := h.record (.report r.address r.level r.transition r.source) mine
    dsimp only at came
    split at came
    · cases came
      exact seen.unsettle _
    · exact seen.settleAfter mine came

theorem onReports (h : Confined K d) {now : Instant} {rs : List Packet.Report}
    (mine : ∀ r ∈ rs, d.excluded.get r.address = false → K r.address)
    (came : onReports now rs d = .ok d') : Confined K d' := by
  induction rs generalizing d with
  | nil =>
      cases came
      exact h
  | cons r rs ih =>
      obtain ⟨own, others⟩ := List.forall_mem_cons.mp mine
      unfold Dispatcher.onReports at came
      cases first : d.onReport now r with
      | error stop => rw [first] at came; cases came
      | ok e =>
          rw [first] at came
          refine ih (h.onReport own first) (fun s hs open? => others s hs ?_) came
          rwa [(Beside.onReport first).excluded] at open?

end Confined

/-- All that a dispatcher holds or tells is of addresses in `K`. -/
structure Within (K : Address → Prop) (d : Dispatcher) : Prop where
  /-- What is known, awaited and told is. -/
  confined : Confined K d
  /-- What is left to do is. -/
  busy : ∀ a, d.Busy a → K a

theorem Within.flight (h : Within K d) {t : Attempt} (flight : d.inFlight = some t) :
    K t.command.address := by
  refine h.busy _ (Or.inl ?_)
  rw [places, line_of_inFlight flight]
  exact List.mem_cons_self

theorem Within.frame (h : Within K d) {octets : List UInt8} {now : Instant}
    (named : ∀ a ∈ (Step.frame octets now).names, d.excluded.get a = false → K a)
    (came : d.onFrame now octets = .ok d') : Confined K d' := by
  unfold onFrame at came
  split at came
  · unfold onConfirmation at came
    split at came
    · cases came
      exact h.confined
    · rename_i t flight
      have landed : Confined K (d.land t) := h.confined.of_same rfl rfl rfl
      split at came
      · split at came
        · exact landed.onAccepted (h.flight flight) came
        · cases came
          exact landed.retryOrFail (h.flight flight)
      · cases came
        exact h.confined
  · rename_i reports decoded
    refine h.confined.onReports (fun r hr => named r.address ?_) came
    rw [Step.names, decoded]
    exact List.mem_map_of_mem hr
  · cases came
    exact h.confined
  · cases came
  · cases came
    exact h.confined

theorem Within.fire (h : Within K d) (orderly : d.Orderly) (now : Instant) :
    Confined K (d.fireNext now) := by
  cases due : d.agenda.popDue now with
  | none =>
      rw [fireNext, due]
      exact h.confined
  | some p =>
      obtain ⟨e, g⟩ := p
      have there := (orderly.timely.ordered.popDue_eq_some due).1
      rw [orderly.timely.fireNext_eq due, obey]
      split
      · rename_i id number task
        obtain ⟨t, flight, -⟩ := orderly.timely.awaits.owned e there id number task
        simp only [flight]
        refine Confined.retryOrFail ?_ (h.flight flight)
        exact h.confined.of_same rfl rfl rfl
      · rename_i number c last task
        obtain ⟨plan, -, -, row, -⟩ := orderly.timely.step_due due task
        have mine : K c.address := h.busy _ (Or.inr (by rw [row]; exact List.cons_ne_nil _ _))
        refine Confined.submit ?_ mine _
        exact h.confined.of_same rfl rfl rfl
      · rename_i a task
        have known := orderly.timely.settles.owned e there a task
        refine Confined.record ?_ (.setRamp a false) (h.confined.awaited a _ known)
        refine ⟨h.confined.own, h.confined.known, fun b t awaited => ?_, h.confined.told⟩
        have awaited : (d.settling.set a none).get b = some t := awaited
        rw [Address.Table.get_set] at awaited
        split at awaited
        · cases awaited
        · exact h.confined.awaited b t awaited

/-- **Every step stays within the addresses that it names**, apart from those to leave alone, and those
that were there. -/
theorem Within.step (h : Within K d) (orderly : d.Orderly) {s : Step}
    (named : ∀ a ∈ s.names, d.excluded.get a = false → K a) {frame : Option (List UInt8)}
    (step : d.step s = .ok (frame, d')) : Within K d' := by
  refine ⟨?_, fun b busy => ?_⟩
  · cases s with
    | issue =>
        cases step
        exact h.confined.of_same rfl rfl rfl
    | enqueue c now =>
        cases step
        unfold enqueue
        split
        · exact h.confined
        · rename_i open?
          exact h.confined.accept (named _ List.mem_cons_self (by simpa using open?)) now
    | linkUp =>
        cases step
        unfold onLinkUp
        split
        · exact h.confined
        · refine Confined.tell ?_ nofun
          exact h.confined.of_same rfl rfl rfl
    | linkDown =>
        cases step
        unfold onLinkDown
        split
        · refine Confined.tell ?_ nofun
          dsimp only
          split <;> exact h.confined.of_same rfl rfl rfl
        · exact h.confined
    | buffer rest =>
        cases step
        exact h.confined.of_same rfl rfl rfl
    | frame octets now =>
        simp only [Dispatcher.step] at step
        cases came : d.onFrame now octets with
        | error stop => rw [came] at step; cases step
        | ok e =>
            rw [came] at step
            cases step
            exact h.frame named came
    | fire now =>
        cases step
        exact h.fire orderly now
    | poll now =>
        rcases pollTransmit_eq_ok step with ⟨-, rfl⟩ | ⟨line, q, rest, -, -, -, -, sent⟩
        · exact h.confined
        · obtain ⟨-, deadline, -, rfl⟩ := transmit_eq_ok sent
          exact h.confined.of_same rfl rfl rfl
  · rcases (turn orderly.timely step).busy_of orderly busy with before | ⟨c, now, rfl, open?, rfl⟩
    · exact h.busy b before
    · exact named _ List.mem_cons_self open?

/-! ## What has been heard of stays known -/

theorem Change.contains (h : Change d d') (there : d.registry.contains a = true) :
    d'.registry.contains a = true := by
  cases h with
  | record u => exact (Registry.contains_update _ _ _).mpr (Or.inr there)
  | _ => exact there

theorem Changes.contains (h : Changes d d') (there : d.registry.contains a = true) :
    d'.registry.contains a = true := by
  induction h with
  | refl => exact there
  | tail _ change ih => exact change.contains ih

theorem Changes.excluded (h : Changes d d') : d'.excluded = d.excluded := by
  induction h with
  | refl => rfl
  | tail _ change ih =>
      refine Eq.trans ?_ ih
      cases change <;> rfl

theorem Course.contains {s : Step} (h : d.Course s d') (there : d.registry.contains a = true) :
    d'.registry.contains a = true := by
  cases h with
  | quiet known changes => exact changes.contains there
  | turn news other changes => exact changes.contains there
  | launch sent reach => exact there

theorem Course.excluded {s : Step} (h : d.Course s d') : d'.excluded = d.excluded := by
  cases h with
  | quiet known changes => exact changes.excluded
  | turn news other changes => exact changes.excluded
  | launch sent reach => rfl

/-- The address of a command that is taken is known. -/
theorem contains_accept (d : Dispatcher) (c : Command) (now : Instant) :
    (d.accept c now).registry.contains c.address = true := by
  have room : (d.makeRoom c).registry.contains c.address = true :=
    (Registry.contains_update _ (.aim c.address c.target c.transition) _).mpr (Or.inl rfl)
  have laid : (d.lay c now).registry.contains c.address = true := by
    unfold lay
    split <;> exact room
  rw [accept_eq]
  exact (Changes.submitAll _ _).contains laid

/-- The address of a report is known, unless it is to be left alone. -/
theorem contains_onReport {now : Instant} {r : Packet.Report}
    (open? : d.excluded.get r.address = false) (came : d.onReport now r = .ok d') :
    d'.registry.contains r.address = true := by
  let seen := d.record (d.registry.report r.address r.level r.transition r.source)
  have known : seen.registry.contains r.address = true :=
    (Registry.contains_update _ (.report r.address r.level r.transition r.source) _).mpr (Or.inl rfl)
  unfold onReport at came
  rw [if_neg (by simp [open?])] at came
  dsimp only at came
  split at came
  · cases came
    exact (Changes.unsettle seen _).contains known
  · have changes := Changes.settleAfter seen r.address now r.transition
    rw [show seen.settleAfter r.address now r.transition = _ from came] at changes
    exact changes.contains known

theorem contains_onReports {now : Instant} {rs : List Packet.Report}
    (came : onReports now rs d = .ok d') {r : Packet.Report} (hr : r ∈ rs)
    (open? : d.excluded.get r.address = false) : d'.registry.contains r.address = true := by
  induction rs generalizing d with
  | nil => cases hr
  | cons x rs ih =>
      unfold onReports at came
      cases first : d.onReport now x with
      | error stop => rw [first] at came; cases came
      | ok e =>
          rw [first] at came
          rcases List.mem_cons.mp hr with rfl | hr
          · have rest := Changes.onReports now rs e
            rw [show onReports now rs e = _ from came] at rest
            exact rest.contains (contains_onReport open? first)
          · exact ih came hr (by rwa [(Beside.onReport first).excluded])

/-- **What a step names is known afterwards**, unless it is to be left alone. -/
theorem contains_of_names {s : Step} {frame : Option (List UInt8)} (named : a ∈ s.names)
    (open? : d.excluded.get a = false) (step : d.step s = .ok (frame, d')) :
    d'.registry.contains a = true := by
  cases s with
  | enqueue c now =>
      cases step
      obtain rfl := List.mem_singleton.mp named
      rw [enqueue, if_neg (by simp [open?])]
      exact contains_accept d c now
  | frame octets now =>
      simp only [Step.names] at named
      split at named
      · rename_i reports decoded
        obtain ⟨r, hr, rfl⟩ := List.mem_map.mp named
        simp only [Dispatcher.step, onFrame, decoded] at step
        cases came : onReports now reports d with
        | error stop => rw [came] at step; cases step
        | ok e =>
            rw [came] at step
            cases step
            exact contains_onReports came hr open?
      · cases named
  | _ => cases named

end Dispatcher

/-! ## Snapshots -/

/-- A snapshot lists what is known of the addresses that something was heard of, in order. -/
theorem Registry.snapshot_eq (r : Registry) :
    r.snapshot = (Address.all.filter (r.contains ·)).map r.query := by
  rw [snapshot, Address.Table.values]
  induction Address.all with
  | nil => rfl
  | cons a as ih =>
      cases state : r.states.get a with
      | none =>
          rw [List.filterMap_cons_none state, ih, List.filter_cons_of_neg (by simp [contains, state])]
      | some s =>
          rw [List.filterMap_cons_some state, ih, List.filter_cons_of_pos (by simp [contains, state]),
            List.map_cons]
          congr 1
          simp [query, state]

namespace World

variable {w w' : World} {K : Address → Prop}

/-- All that a world holds or has told is of addresses in `K`. -/
structure Within (K : Address → Prop) (w : World) : Prop where
  /-- What the dispatcher holds is. -/
  held : Dispatcher.Within K w.dispatcher
  /-- What was sent was. -/
  lines : ∀ t ∈ w.history.lines, K t.attempt.command.address

theorem Within.step (h : w.Within K) (orderly : w.dispatcher.Orderly) {s : Dispatcher.Step}
    (named : ∀ a ∈ s.names, w.dispatcher.excluded.get a = false → K a) (step : w.step s = .ok w') :
    w'.Within K := by
  obtain ⟨frame, stepped, -⟩ := step_eq_ok step
  have held := h.held.step orderly named stepped
  refine ⟨held, fun t ht => ?_⟩
  rcases lines_step orderly step with ⟨lines, -⟩ | ⟨u, lines, flight, -⟩
  · exact h.lines t (lines ▸ ht)
  · rw [lines] at ht
    rcases List.mem_append.mp ht with ht | ht
    · exact h.lines t ht
    · obtain rfl := List.mem_singleton.mp ht
      exact held.flight flight

/-- What a run does to the addresses: it stays within those that it names, and those it names are
known afterwards. -/
theorem Within.run (h : w.Within K) (orderly : w.dispatcher.Orderly) {steps : List Dispatcher.Step}
    (named : ∀ a ∈ steps.flatMap Dispatcher.Step.names, w.dispatcher.excluded.get a = false → K a)
    (run : w.run steps = .ok w') :
    w'.Within K ∧ (∀ a, w.dispatcher.registry.contains a = true →
        w'.dispatcher.registry.contains a = true) ∧
      ∀ a ∈ steps.flatMap Dispatcher.Step.names, w.dispatcher.excluded.get a = false →
        w'.dispatcher.registry.contains a = true := by
  induction steps generalizing w with
  | nil =>
      cases run
      exact ⟨h, fun _ => id, nofun⟩
  | cons s rest ih =>
      rw [List.flatMap_cons] at named ⊢
      obtain ⟨v, first, rest⟩ := run_cons_eq_ok.mp run
      obtain ⟨frame, stepped, -⟩ := step_eq_ok first
      have course : w.dispatcher.Course s v.dispatcher :=
        Dispatcher.after_of_ok stepped ▸ w.dispatcher.course s
      obtain ⟨within, grown, later⟩ := ih
        (h.step orderly (fun a ha => named a (List.mem_append_left _ ha)) first)
        (orderly.step stepped)
        (fun a ha open? => named a (List.mem_append_right _ ha) (course.excluded ▸ open?)) rest
      refine ⟨within, fun a there => grown a (course.contains there), fun a ha open? => ?_⟩
      rcases List.mem_append.mp ha with ha | ha
      · exact grown a (Dispatcher.contains_of_names ha open? stepped)
      · exact later a ha (course.excluded ▸ open?)

/-- Nothing of an address is found in a world. -/
structure Absent (w : World) (a : Address) : Prop where
  /-- No line was sent for it: none that was sent is the line of a command for this address. -/
  lines : ∀ t ∈ w.history.lines, ∀ c nonce, c.address = a → t.frame ≠ Packet.encode c nonce
  /-- No event tells of it. -/
  told : ∀ e ∈ w.dispatcher.outbox, e.address? ≠ some a
  /-- No command for it waits or is in flight. -/
  places : a ∉ w.dispatcher.places
  /-- No task concerns it. -/
  tasks : ∀ e ∈ w.dispatcher.agenda.entries, w.dispatcher.concerns e.task ≠ some a
  /-- No stepped ramp is running for it. -/
  plans : w.dispatcher.plans.get a = none
  /-- Nothing is known of it. -/
  unknown : w.dispatcher.query a = .unknown a

theorem Within.absent (h : w.Within K) (orderly : w.dispatcher.Orderly) (numbered : w.Numbered)
    {a : Address} (outside : ¬ K a) : w.Absent a where
  lines := fun t ht c nonce mine same => by
    obtain ⟨i, there⟩ := List.getElem?_of_mem ht
    have address := Packet.address_of_encode_eq (same.symm.trans (numbered.line i t there).1)
    exact outside (mine ▸ address ▸ h.lines t ht)
  told := fun e he about => outside (h.held.confined.told e he a about)
  places := fun there => outside (h.held.busy a (Or.inl there))
  tasks := fun e he about => by
    unfold Dispatcher.concerns at about
    split at about
    · obtain ⟨t, flight, rfl⟩ := Option.map_eq_some_iff.mp about
      exact outside (h.held.flight flight)
    · rename_i number c last task
      obtain ⟨plan, running, -⟩ := orderly.timely.step_of_mem he task
      cases about
      refine outside (h.held.busy _ (Or.inr (orderly.timely.planned_iff.mp ?_)))
      rw [running]
      rfl
    · rename_i b task
      cases about
      exact outside (h.held.confined.awaited _ _ (orderly.timely.settles.owned e he _ task))
  plans := by
    by_contra running
    exact outside (h.held.busy a (Or.inr (orderly.timely.planned_iff.mp
      (Option.isSome_iff_ne_none.mpr running))))
  unknown := by
    have none : ¬ w.dispatcher.registry.contains a = true :=
      fun there => outside (h.held.confined.known a there)
    rw [Registry.contains, Option.not_isSome_iff_eq_none] at none
    rw [Dispatcher.query, Registry.query, none]
    rfl

/-- **Addresses to leave alone are left alone.**  Take any map of devices, and any run of a dispatcher
that leaves alone what the map says.  No command from the home is routed to an address to leave alone,
or to a sensor.  Whatever was taken and whatever came in, nothing of an address to leave alone is found:
no line, no event, no command, no task, no ramp, no state.  And a snapshot lists the states of exactly
those other addresses that a command or a report has named, each as a query gives it, in strictly
ascending order. -/
theorem ignored_are_absent {settings : Settings} (kinds : DeviceMap) {steps : List Dispatcher.Step}
    {w : World} (reached : (start settings kinds.excluded).run steps = .ok w) :
    (∀ topic payload a action, Home.route topic payload kinds = .ok (some (a, action)) →
      kinds.get a ≠ .ignore ∧ kinds.get a ≠ .binarySensor) ∧
    (∀ a, kinds.get a = .ignore → w.Absent a) ∧
    (w.dispatcher.snapshot.map (·.address)).Pairwise (fun a b => a.toNat < b.toNat) ∧
    w.dispatcher.snapshot = (Address.all.filter fun a =>
      kinds.get a ≠ .ignore ∧ a ∈ steps.flatMap Dispatcher.Step.names).map w.dispatcher.query := by
  have excluded (a : Address) : (start settings kinds.excluded).dispatcher.excluded.get a =
      decide (kinds.get a = .ignore) := by
    show ((Address.Table.fill false).setAll kinds.excluded true).get a = _
    rw [Address.Table.get_setAll, Address.Table.get_fill]
    simp [DeviceMap.mem_excluded]
  have orderly := Dispatcher.orderly_create settings kinds.excluded
  let K (a : Address) : Prop :=
    kinds.get a ≠ .ignore ∧ a ∈ steps.flatMap Dispatcher.Step.names
  have empty : (start settings kinds.excluded).Within K := by
    refine ⟨⟨⟨fun a => ?_, fun a there => ?_, fun a t known => ?_,
      fun e he => absurd he List.not_mem_nil⟩, fun a busy => ?_⟩,
      fun t ht => absurd ht List.not_mem_nil⟩
    · show (Registry.empty.query a).address = a
      rw [Registry.query_empty]
      rfl
    · simp [start, Dispatcher.create, Registry.empty, Registry.contains] at there
    · simp [start, Dispatcher.create] at known
    · exact absurd busy (by simp [Dispatcher.Busy, start, Dispatcher.create, Dispatcher.places,
        Dispatcher.line, Dispatcher.upcoming, Dispatcher.stepsFor, Agenda.empty])
  obtain ⟨within, -, known⟩ := empty.run orderly
    (fun a ha open? => ⟨by simpa [excluded] using open?, ha⟩) reached
  obtain ⟨numbered, orderly'⟩ := (numbered_start settings kinds.excluded).run orderly reached
  have contains (a : Address) : w.dispatcher.registry.contains a = decide (K a) := by
    rw [Bool.eq_iff_iff, decide_eq_true_iff]
    exact ⟨within.held.confined.known a, fun mine =>
      known a mine.2 (by simpa [excluded] using mine.1)⟩
  have snapshot : w.dispatcher.snapshot =
      (Address.all.filter fun a => decide (K a)).map w.dispatcher.query := by
    rw [Dispatcher.snapshot, Registry.snapshot_eq]
    simp only [contains]
    rfl
  refine ⟨fun topic payload a action routed => ?_, fun a ignored =>
    within.absent orderly' numbered fun mine => mine.1 ignored, ?_, snapshot⟩
  · have accepts := Home.acceptsCommands_of_route routed
    constructor <;> intro kind <;> rw [kind] at accepts <;> cases accepts
  · have own : DeviceState.address ∘ w.dispatcher.query = id := funext within.held.confined.own
    rw [snapshot, List.map_map, own, List.map_id]
    exact Address.pairwise_all.sublist List.filter_sublist

/-- Address 7 is to be left alone.  It is commanded, and a packet reports it together with address 6;
then address 4 is commanded.  The snapshot lists 4 and 6. -/
theorem ignored_are_absent_of_mixed_packet :
    ∃ w, (start .standard (DeviceMap.excluded (DeviceMap.allLights.set ⟨7⟩ .ignore))).run
        [.linkUp, .enqueue ⟨⟨1⟩, ⟨7⟩, .on, .start⟩ .start, .poll .start,
          .frame (Packet.octets "0501380079067907C3".toList) .start,
          .enqueue ⟨⟨2⟩, ⟨4⟩, .on, .start⟩ .start] = .ok w ∧
      w.Absent ⟨7⟩ ∧ w.dispatcher.snapshot = [w.dispatcher.query ⟨4⟩, w.dispatcher.query ⟨6⟩] ∧
      (w.dispatcher.query ⟨6⟩).confirmed = some .full := by
  obtain ⟨w, reached, seen⟩ := Dispatcher.exists_ok
    (x := (start .standard (DeviceMap.excluded (DeviceMap.allLights.set ⟨7⟩ .ignore))).run
      [.linkUp, .enqueue ⟨⟨1⟩, ⟨7⟩, .on, .start⟩ .start, .poll .start,
        .frame (Packet.octets "0501380079067907C3".toList) .start,
        .enqueue ⟨⟨2⟩, ⟨4⟩, .on, .start⟩ .start])
    (f := fun w => (w.dispatcher.query ⟨6⟩).confirmed) (b := some .full) (by decide +kernel)
  obtain ⟨-, absent, -, snapshot⟩ := ignored_are_absent (DeviceMap.allLights.set ⟨7⟩ .ignore) reached
  have named : (Address.all.filter fun a => (DeviceMap.allLights.set ⟨7⟩ .ignore).get a ≠ .ignore ∧
      a ∈ ([.linkUp, .enqueue ⟨⟨1⟩, ⟨7⟩, .on, .start⟩ .start, .poll .start,
        .frame (Packet.octets "0501380079067907C3".toList) .start,
        .enqueue ⟨⟨2⟩, ⟨4⟩, .on, .start⟩ .start] : List Dispatcher.Step).flatMap
          Dispatcher.Step.names) = [⟨4⟩, ⟨6⟩] := by decide +kernel
  rw [named] at snapshot
  exact ⟨w, reached, absent ⟨7⟩ (by decide +kernel), snapshot, seen⟩

end World

end Lighting
