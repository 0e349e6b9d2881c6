import Lighting.Proofs.Dispatcher.Pending
import Lighting.Proofs.Dispatcher.Tasks

/-!
# Ramps and the news of them

Whether a ramp is running is no more than a flag in the state of a device, and the end of a ramp that
the bus units run is no more than an entry on the agenda.  The two are kept apart, and it takes news of
the address to change them: an attempt that is accepted, or a report from the bus (`Hearing`).

### Three ways to take the news

The news of a ramp that takes time sets the flag and enters the end of the ramp in the place of an
earlier one.  News of a level that is reached at once clears the flag and strikes the entry.  The third
way is that of a step of a ramp that goes on: it sets the flag and leaves the entry alone, whatever
ramp it was made for.  `Taken` says this once, for answers and for reports.

### Without news

Besides, the flag is cleared where an attempt has failed for good, unless it was a step of a ramp that
goes on, and where the end of a ramp of the bus units has come.  `swing` lists all that a step may do
to flags and ends.
-/

namespace Lighting

/-- News of the level of an address: an attempt that was accepted, or a report that was taken over. -/
structure Hearing where
  /-- The address. -/
  address : Address
  /-- Whether a step of a stepped ramp was accepted that goes on. -/
  isStep : Bool
  /-- The end of the ramp that the bus units run, as it is entered on the agenda. -/
  settles : Option (Agenda.Entry Task)

namespace Dispatcher

/-! ## What is heard -/

/-- The entry for the end of a ramp of the bus units that lasts `span` from now on. -/
def endOf (d : Dispatcher) (a : Address) (now : Instant) (span : Duration) :
    Option (Agenda.Entry Task) :=
  (now.add? span).map fun deadline => ⟨d.agenda.next, deadline, .settled a⟩

/-- The news that an attempt was accepted. -/
def answer (d : Dispatcher) (now : Instant) (t : Attempt) : Hearing where
  address := t.command.address
  isStep := t.command.transition.isZero && t.origin.isIntermediate
  settles := if t.command.transition.isZero then none
    else d.endOf t.command.address now (busTime t.command.transition)

/-- The news of a report. -/
def notice (d : Dispatcher) (now : Instant) (r : Packet.Report) : Hearing where
  address := r.address
  isStep := false
  settles := if r.transition.isZero then none else d.endOf r.address now r.transition

/-- What is heard from a row of reports, in order. -/
def hearsReports (now : Instant) : List Packet.Report → Dispatcher → List Hearing
  | [], _ => []
  | r :: rs, d =>
    (if d.excluded.get r.address then [] else [d.notice now r]) ++
      match d.onReport now r with
      | .ok e => hearsReports now rs e
      | .error _ => []

/-- What is heard in a step, in order. -/
def hears (d : Dispatcher) : Step → List Hearing
  | .frame octets now =>
    match Packet.decode octets with
    | .ok (.confirmation c) =>
      match d.inFlight with
      | some t => if t.key.matches c && c.accepted then [d.answer now t] else []
      | none => []
    | .ok (.status reports) => hearsReports now reports d
    | _ => []
  | _ => []

/-- All that is heard in a row of steps, in order. -/
def hearings (d : Dispatcher) : List Step → List Hearing
  | [] => []
  | s :: rest =>
    match d.step s with
    | .ok (_, after) => d.hears s ++ after.hearings rest
    | .error _ => []

theorem hearings_cons {d e : Dispatcher} {s : Step} {frame : Option (List UInt8)}
    (first : d.step s = .ok (frame, e)) (rest : List Step) :
    d.hearings (s :: rest) = d.hears s ++ e.hearings rest := by
  rw [hearings, first]

/-! ## What leaves flag and end alone -/

/-- Neither the ramp flag of an address nor the end that is awaited for it has changed. -/
structure Calm (a : Address) (d d' : Dispatcher) : Prop where
  flag : (d'.query a).rampActive = (d.query a).rampActive
  awaited : d'.settling.get a = d.settling.get a

variable {d d' : Dispatcher} {a b : Address}

namespace Calm

theorem refl (a : Address) (d : Dispatcher) : Calm a d d := ⟨rfl, rfl⟩

theorem trans {e : Dispatcher} (h : Calm a d d') (h' : Calm a d' e) : Calm a d e :=
  ⟨h'.flag.trans h.flag, h'.awaited.trans h.awaited⟩

theorem of_same (registry : d'.registry = d.registry) (settling : d'.settling = d.settling) :
    Calm a d d' :=
  ⟨by rw [query, registry]; rfl, by rw [settling]⟩

/-- A change that is not about ramps. -/
theorem record (a : Address) (d : Dispatcher) (b : Address) {f : DeviceState → DeviceState}
    (keeps : ∀ s, (f s).rampActive = s.rampActive) : Calm a d (d.record (d.registry.modify b f)) :=
  ⟨Registry.query_modify_keeps keeps d.registry b a, rfl⟩

/-- A change of another address. -/
theorem record_of_ne (other : a ≠ b) (d : Dispatcher) (f : DeviceState → DeviceState) :
    Calm a d (d.record (d.registry.modify b f)) :=
  ⟨by rw [query, Dispatcher.record, Registry.query_modify_of_ne _ other]; rfl, rfl⟩

theorem settleAt_of_ne (other : a ≠ b) (d : Dispatcher) (deadline : Instant) :
    Calm a d (d.settleAt b deadline) :=
  ⟨rfl, Address.Table.get_set_of_ne _ other _⟩

theorem unsettle_of_ne (other : a ≠ b) (d : Dispatcher) : Calm a d (d.unsettle b) := by
  unfold Dispatcher.unsettle
  split
  · exact ⟨rfl, Address.Table.get_set_of_ne _ other _⟩
  · exact refl a d

theorem submit (a : Address) (d : Dispatcher) (c : Command) (origin : Origin) :
    Calm a d (d.submit c origin) := by
  rcases submit_cases d c origin with ⟨_, _, _, -, -, -, eq⟩ | ⟨_, -, -, eq⟩ | ⟨-, eq⟩ <;>
    (rw [eq]; exact of_same rfl rfl)

theorem submitAll (a : Address) (d : Dispatcher) (ps : List Part) : Calm a d (d.submitAll ps) := by
  induction ps generalizing d with
  | nil => exact refl a d
  | cons p ps ih => exact (submit a d p.command p.origin).trans (ih _)

/-- To take a command notes its level, and says nothing of ramps. -/
theorem accept (a : Address) (d : Dispatcher) (c : Command) (now : Instant) :
    Calm a d (d.accept c now) := by
  have cancelled : Calm a d (d.cancelPlan c.address c.id) := by
    unfold cancelPlan
    split <;> exact of_same rfl rfl
  have room : Calm a d (d.makeRoom c) := cancelled.trans (record a _ c.address fun _ => rfl)
  have laid : Calm a d (d.lay c now) := by
    unfold lay
    split
    · exact room.trans (of_same rfl rfl)
    · exact room
  rw [accept_eq]
  exact laid.trans (submitAll a _ _)

theorem linkDown (a : Address) (d : Dispatcher) : Calm a d d.onLinkDown := by
  unfold onLinkDown
  split
  · dsimp only
    split <;> exact of_same rfl rfl
  · exact refl a d

theorem linkUp (a : Address) (d : Dispatcher) : Calm a d d.onLinkUp := by
  unfold onLinkUp
  split
  · exact refl a d
  · exact of_same rfl rfl

end Calm

/-! ## How the news is taken -/

/-- After an update the flag of its address is as the update has left it. -/
theorem rampActive_update (d : Dispatcher) (u : Registry.Update) :
    ((d.record (d.registry.update u)).query u.address).rampActive =
      (u.change (d.query u.address)).rampActive :=
  congrArg DeviceState.rampActive (Registry.query_update_self d.registry u)

theorem settling_unsettle (d : Dispatcher) (a : Address) : (d.unsettle a).settling.get a = none := by
  unfold unsettle
  split
  · exact Address.Table.get_set_self _ _ _
  · rename_i unknown
    exact unknown

@[simp] theorem registry_unsettle (d : Dispatcher) (a : Address) :
    (d.unsettle a).registry = d.registry := by
  unfold unsettle
  split <;> rfl

theorem settleAfter_eq_some {now : Instant} {span : Duration}
    (h : d.settleAfter a now span = .ok d') :
    ∃ deadline, d.endOf a now span = some ⟨d.agenda.next, deadline, .settled a⟩ ∧
      d' = d.settleAt a deadline := by
  unfold settleAfter at h
  split at h
  · rename_i deadline reach
    cases h
    exact ⟨deadline, by rw [endOf, reach]; rfl, rfl⟩
  · cases h

/-- The end that is entered is on the agenda. -/
theorem Timely.mem_entries_settleAt (h : d.Timely) (a : Address) (deadline : Instant) :
    ⟨d.agenda.next, deadline, .settled a⟩ ∈ (d.settleAt a deadline).agenda.entries := by
  have next : (d.unsettle a).agenda.next = d.agenda.next := by
    unfold Dispatcher.unsettle
    split <;> rfl
  rw [h.settleAt_eq, ← next]
  exact Agenda.mem_entries_schedule.mpr (Or.inl rfl)

/-- What news does to the address it is for, and that it leaves all others alone. -/
structure Taken (d : Dispatcher) (h : Hearing) (d' : Dispatcher) : Prop where
  /-- The flag says whether a ramp is running. -/
  flag : (d'.query h.address).rampActive = (h.isStep || h.settles.isSome)
  /-- The end of the ramp is awaited, and that of no other; but a step leaves this as it is. -/
  awaited : d'.settling.get h.address =
    if h.isStep then d.settling.get h.address else h.settles.map (·.token)
  /-- The end of the ramp is on the agenda. -/
  entered : ∀ e, h.settles = some e → e.task = .settled h.address ∧ e ∈ d'.agenda.entries
  /-- The other addresses are left alone. -/
  others : ∀ b, b ≠ h.address → Calm b d d'

theorem Taken.of_settleAt (timely : d.Timely) {h : Hearing} {deadline : Instant}
    (step : h.isStep = false)
    (settles : h.settles = some ⟨d.agenda.next, deadline, .settled h.address⟩)
    (flag : (d'.query h.address).rampActive = true)
    (settling : d'.settling = (d.settleAt h.address deadline).settling)
    (agenda : d'.agenda = (d.settleAt h.address deadline).agenda)
    (others : ∀ b, b ≠ h.address → Calm b d d') : Taken d h d' where
  flag := by simp [flag, settles]
  awaited := by
    rw [settling, step, settles]
    exact Address.Table.get_set_self _ _ _
  entered := fun e settled => by
    cases settles.symm.trans settled
    exact ⟨rfl, agenda ▸ timely.mem_entries_settleAt _ _⟩
  others := others

/-- **An answer is taken.** -/
theorem taken_onAccepted (timely : d.Timely) {t : Attempt} (flight : d.inFlight = some t)
    {now : Instant} (h : (d.land t).onAccepted t now = .ok d') : Taken d (d.answer now t) d' := by
  let told := (d.land t).tell (.resolved t.command.id t.command.address .confirmed)
  have landed : told.Timely := (timely.land flight).of_same rfl rfl rfl rfl
  have before (b : Address) : Calm b d told := .of_same rfl rfl
  unfold onAccepted at h
  dsimp only at h
  split at h
  · rename_i long
    have long : t.command.transition.isZero = false := by simpa using long
    cases settled : told.settleAfter t.command.address now (busTime t.command.transition) with
    | error stop =>
        rw [show (d.land t).tell _ = told from rfl, settled] at h
        cases h
    | ok e =>
        rw [show (d.land t).tell _ = told from rfl, settled] at h
        cases h
        obtain ⟨deadline, ends, rfl⟩ := settleAfter_eq_some settled
        have step : (d.answer now t).isStep = false := by simp [answer, long]
        have settles : (d.answer now t).settles =
            some ⟨told.agenda.next, deadline, .settled (d.answer now t).address⟩ := by
          simp only [answer, long]
          exact ends
        have taken := Taken.of_settleAt landed step settles
          (rampActive_update (told.settleAt t.command.address deadline)
            (.confirmRamp t.command.address t.command.target true)) rfl rfl
          fun b other => (Calm.settleAt_of_ne other told deadline).trans (.record_of_ne other _ _)
        exact ⟨taken.flag, taken.awaited, taken.entered, fun b other =>
          (before b).trans (taken.others b other)⟩
  · rename_i short
    have short : t.command.transition.isZero = true := by simpa using short
    split at h
    · rename_i goesOn
      cases h
      refine ⟨?_, ?_, fun e settles => by simp [answer, short] at settles, fun b other =>
        (before b).trans (.record_of_ne other _ _)⟩
      · have flag := rampActive_update told
          (.confirmRamp t.command.address t.command.target true)
        exact flag.trans (by simp [answer, short, goesOn]; rfl)
      · simp only [answer, short, goesOn, Bool.and_self, if_true]
        rfl
    · rename_i ends
      have ends : t.origin.isIntermediate = false := by simpa using ends
      cases h
      refine ⟨?_, ?_, fun e settles => by simp [answer, short] at settles, fun b other =>
        (before b).trans ((Calm.unsettle_of_ne other told).trans (.record_of_ne other _ _))⟩
      · have flag := rampActive_update (told.unsettle t.command.address)
          (.confirmRamp t.command.address t.command.target false)
        exact flag.trans (by simp [answer, short, ends]; rfl)
      · simp only [answer, short, ends, Bool.and_false, Bool.false_eq_true, if_false]
        exact settling_unsettle _ _

/-- **A report is taken**, unless its address is to be left alone. -/
theorem taken_onReport (timely : d.Timely) {now : Instant} {r : Packet.Report}
    (open? : d.excluded.get r.address = false) (h : d.onReport now r = .ok d') :
    Taken d (d.notice now r) d' := by
  let seen := d.record (d.registry.report r.address r.level r.transition r.source)
  have recorded : seen.Timely := timely.of_same rfl rfl rfl rfl
  unfold onReport at h
  rw [if_neg (by simp [open?])] at h
  dsimp only at h
  split at h
  · rename_i short
    cases h
    refine ⟨?_, ?_, fun e settles => by simp [notice, short] at settles, fun b other =>
      (Calm.record_of_ne other d _).trans (Calm.unsettle_of_ne other _)⟩
    · have flag := rampActive_update d (.report r.address r.level r.transition r.source)
      rw [query, registry_unsettle]
      exact flag.trans (by simp [notice, short, Registry.Update.change, DeviceState.setRamp])
    · simp only [notice, short, Bool.false_eq_true, if_false, if_true]
      exact settling_unsettle _ _
  · rename_i long
    have long : r.transition.isZero = false := Bool.eq_false_iff.mpr long
    obtain ⟨deadline, ends, rfl⟩ := settleAfter_eq_some h
    have settles : (d.notice now r).settles =
        some ⟨seen.agenda.next, deadline, .settled (d.notice now r).address⟩ := by
      simp only [notice, long]
      exact ends
    have flag : (seen.query r.address).rampActive = true :=
      (rampActive_update d (.report r.address r.level r.transition r.source)).trans
        (by simp [long, Registry.Update.change, DeviceState.setRamp])
    have taken : Taken seen (d.notice now r) (seen.settleAt r.address deadline) :=
      .of_settleAt recorded rfl settles flag rfl rfl fun b other =>
        Calm.settleAt_of_ne other seen deadline
    exact ⟨taken.flag, taken.awaited, taken.entered, fun b other =>
      (Calm.record_of_ne other d _).trans (taken.others b other)⟩

/-- A row of news is taken, one after the other. -/
inductive TakenAll : Dispatcher → List Hearing → Dispatcher → Prop where
  /-- No news. -/
  | nil (d : Dispatcher) : TakenAll d [] d
  /-- The first of the news, and then the others. -/
  | cons {d e d' : Dispatcher} {h : Hearing} {hs : List Hearing} (first : Taken d h e)
      (beside : Beside d e) (grows : Grows d e) (rest : TakenAll e hs d') : TakenAll d (h :: hs) d'

/-- **A row of reports is taken**, without those of addresses to be left alone. -/
theorem takenAll_onReports (timely : d.Timely) {now : Instant} {rs : List Packet.Report}
    (h : onReports now rs d = .ok d') : TakenAll d (hearsReports now rs d) d' := by
  induction rs generalizing d with
  | nil =>
      cases h
      exact .nil _
  | cons r rs ih =>
      unfold onReports at h
      have changes := Changes.onReport d now r
      cases first : d.onReport now r with
      | error stop => rw [first] at h; cases h
      | ok e =>
          rw [first] at h changes
          have beside := Beside.onReport first
          have rest := ih (beside.timely timely) h
          rw [hearsReports, first]
          dsimp only
          split
          · rename_i excluded
            unfold onReport at first
            rw [if_pos excluded] at first
            cases first
            exact rest
          · rename_i open?
            exact .cons (taken_onReport timely (by simpa using open?) first) beside changes.grows rest

/-- A report is no answer to a step of a ramp. -/
theorem isStep_of_mem_hearsReports {now : Instant} {rs : List Packet.Report} {h : Hearing}
    (heard : h ∈ hearsReports now rs d) : h.isStep = false := by
  induction rs generalizing d with
  | nil => cases heard
  | cons r rs ih =>
      rcases List.mem_append.mp heard with first | rest
      · split at first
        · cases first
        · rw [List.mem_singleton.mp first]
          rfl
      · split at rest
        · exact ih rest
        · cases rest

/-! ## What a step does to flags and ends -/

/-- What a step does to the ramp flags and to the ends that are awaited. -/
inductive Swing (d : Dispatcher) (s : Step) (d' : Dispatcher) : Prop where
  /-- Nothing, and what was left to do still is. -/
  | apart (quiet : d.hears s = []) (calm : ∀ a, Calm a d d') (busy : ∀ a, d.Busy a → d'.Busy a)
  /-- The attempt in flight was accepted. -/
  | accepted {t : Attempt} {now : Instant} (flight : d.inFlight = some t)
      (heard : d.hears s = [d.answer now t]) (taken : Taken d (d.answer now t) d')
      (rest : Beside (d.finish t .confirmed) d')
  /-- The attempt in flight has failed for good. -/
  | failed {t : Attempt} (flight : d.inFlight = some t) (quiet : d.hears s = [])
      (awaited : d'.settling = d.settling) (others : ∀ b, b ≠ t.command.address → Calm b d d')
      (flag : t.origin.isIntermediate = false → (d'.query t.command.address).rampActive = false)
      (rest : Beside (d.finish t (.failed t.number)) d')
  /-- Reports have come in. -/
  | reported (whole : ∀ h ∈ d.hears s, h.isStep = false) (taken : TakenAll d (d.hears s) d')
  /-- The end of a ramp of the bus units has come. -/
  | settled {a : Address} (quiet : d.hears s = []) (awaited : d'.settling.get a = none)
      (flag : (d'.query a).rampActive = false) (others : ∀ b, b ≠ a → Calm b d d')
      (rest : Beside d d')

/-- Nothing has happened. -/
theorem Swing.idle {s : Step} (quiet : d.hears s = []) : d.Swing s d :=
  .apart quiet (Calm.refl · d) fun _ => id

/-- An attempt that was not accepted is repeated, or it has failed for good. -/
theorem swing_retryOrFail (timely : d.Timely) {t : Attempt} (flight : d.inFlight = some t) {s : Step}
    (quiet : d.hears s = []) : d.Swing s ((d.land t).retryOrFail t) := by
  rcases d.beside_retryOrFail t with ⟨more, eq⟩ | ⟨last, rest⟩
  · rw [eq]
    exact .apart quiet (fun a => .of_same rfl rfl) fun a busy => busy.putBack timely flight _
  · have other {b : Address} (other : b ≠ t.command.address) :
        Calm b d ((d.land t).retryOrFail t) := by
      unfold retryOrFail
      split
      · exact .of_same rfl rfl
      · have assumed := Calm.record_of_ne other
          ((d.land t).tell (.resolved t.command.id t.command.address (.failed t.number)))
          (·.assume t.command.target)
        have landed : Calm b d ((d.land t).tell
          (.resolved t.command.id t.command.address (.failed t.number))) := .of_same rfl rfl
        dsimp only
        split
        · exact landed.trans assumed
        · exact (landed.trans assumed).trans (.record_of_ne other _ _)
    refine .failed flight quiet ?_ (fun b => other) (fun ends => ?_) rest
    · unfold retryOrFail
      split
      · rfl
      · dsimp only
        split <;> rfl
    · unfold retryOrFail
      rw [if_neg (by rw [show (d.land t).settings = d.settings from rfl, last]; simp)]
      dsimp only
      rw [if_neg (by simp [ends])]
      exact rampActive_update _ (.setRamp t.command.address false)

theorem swing_frame (timely : d.Timely) {now : Instant} {octets : List UInt8}
    (h : d.onFrame now octets = .ok d') : d.Swing (.frame octets now) d' := by
  unfold onFrame at h
  split at h
  · rename_i c decoded
    unfold onConfirmation at h
    split at h
    · rename_i idle
      cases h
      exact .idle (by simp [hears, decoded, idle])
    · rename_i t flight
      split at h
      · rename_i answers
        have h : (if c.accepted then (d.land t).onAccepted t now
            else .ok ((d.land t).retryOrFail t)) = .ok d' := h
        split at h
        · rename_i accepted
          exact .accepted flight (by simp [hears, decoded, flight, answers, accepted])
            (taken_onAccepted timely flight h) (beside_onAccepted h)
        · rename_i rejected
          cases h
          exact swing_retryOrFail timely flight (by simp [hears, decoded, flight, rejected])
      · rename_i other
        cases h
        exact .idle (by simp [hears, decoded, flight, other])
  · rename_i reports decoded
    have heard : d.hears (.frame octets now) = hearsReports now reports d := by rw [hears, decoded]
    exact .reported (heard ▸ fun _ => isStep_of_mem_hearsReports)
      (heard ▸ takenAll_onReports timely h)
  · rename_i decoded
    cases h
    exact .idle (by simp [hears, decoded])
  · cases h
  · rename_i bad decoded
    cases h
    exact .idle (by simp [hears, decoded])

theorem swing_fire (orderly : d.Orderly) (now : Instant) : d.Swing (.fire now) (d.fireNext now) := by
  have timely := orderly.timely
  unfold fireNext
  cases due : d.agenda.popDue now with
  | none => exact .idle rfl
  | some p =>
      obtain ⟨e, g⟩ := p
      obtain ⟨he, rfl, -⟩ := timely.ordered.popDue_eq_some due
      show d.Swing _ (({ d with agenda := d.agenda.erase e.token } : Dispatcher).fire e)
      have current : ({ d with agenda := d.agenda.erase e.token } : Dispatcher).IsCurrent e :=
        timely.isCurrent he
      rw [current.fire_eq]
      unfold obey
      split
      · rename_i id number task
        obtain ⟨t, flight, rfl⟩ := timely.awaits.owned e he id number task
        simp only [flight]
        exact swing_retryOrFail timely flight rfl
      · rename_i number c last task
        have eq : ({ d with
            agenda := d.agenda.erase e.token
            plans := if last then d.plans.set c.address none else d.plans } : Dispatcher) =
              d.withdraw e c.address last := rfl
        rw [eq]
        have withdrawn (a : Address) : Calm a d (d.withdraw e c.address last) := .of_same rfl rfl
        exact .apart rfl (fun a => (withdrawn a).trans (.submit a _ _ _)) fun a busy =>
          busy.release orderly due task
      · rename_i a task
        have known := timely.settles.owned e he a task
        have eq : ({ d with
            agenda := d.agenda.erase e.token
            settling := d.settling.set a none } : Dispatcher) = d.unsettle a := by
          simp only [unsettle, known]
          rfl
        show d.Swing _ (record _ (Registry.setRamp (Dispatcher.registry _) a false))
        rw [eq]
        refine .settled rfl (settling_unsettle d a) ?_ (fun b other => ?_) ?_
        · exact rampActive_update (d.unsettle a) (.setRamp a false)
        · exact (Calm.unsettle_of_ne other d).trans (.record_of_ne other _ _)
        · exact (Beside.unsettle d a).trans (.record _ _ _ _)

theorem swing_poll {now : Instant} {frame : Option (List UInt8)}
    (h : d.pollTransmit now = .ok (frame, d')) : d.Swing (.poll now) d' := by
  rcases pollTransmit_eq_ok h with ⟨-, rfl⟩ | ⟨line, q, rest, -, -, free, head, sent⟩
  · exact .idle rfl
  · obtain ⟨-, deadline, -, rfl⟩ := transmit_eq_ok sent
    exact .apart rfl (fun a => .of_same rfl rfl) fun a busy => busy.launch free head _ _

theorem swing_linkDown (timely : d.Timely) : d.Swing .linkDown d.onLinkDown := by
  refine .apart rfl (Calm.linkDown · d) fun a busy => ?_
  unfold onLinkDown
  split
  · dsimp only
    cases flight : d.inFlight with
    | none =>
        rw [Busy, places, line_of_idle flight] at busy
        exact busy
    | some t => exact busy.putBack timely flight (t.number - 1)
  · exact busy

/-- **What a step does to flags and ends.** -/
theorem swing (orderly : d.Orderly) {s : Step} {frame : Option (List UInt8)}
    (h : d.step s = .ok (frame, d')) : d.Swing s d' := by
  cases s with
  | issue =>
      cases h
      exact .apart rfl (fun a => .of_same rfl rfl) fun a => id
  | enqueue c now =>
      cases h
      unfold enqueue
      split
      · exact .idle rfl
      · exact .apart rfl (Calm.accept · d c now) fun a busy => busy.accept orderly c now
  | linkUp =>
      cases h
      refine .apart rfl (Calm.linkUp · d) fun a busy => ?_
      unfold onLinkUp
      split <;> exact busy
  | linkDown =>
      cases h
      exact swing_linkDown orderly.timely
  | buffer rest =>
      cases h
      exact .apart rfl (fun a => .of_same rfl rfl) fun a => id
  | frame octets now =>
      simp only [step] at h
      cases came : d.onFrame now octets with
      | error stop => rw [came] at h; cases h
      | ok e =>
          rw [came] at h
          cases h
          exact swing_frame orderly.timely came
  | fire now =>
      cases h
      exact swing_fire orderly now
  | poll now => exact swing_poll h

end Dispatcher

end Lighting
