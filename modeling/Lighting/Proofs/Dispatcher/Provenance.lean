import Lighting.Proofs.Dispatcher.Turn

/-!
# Where what is known comes from

The registry keeps two levels of a device apart: the one the bus has confirmed and the one that was
asked for.  Which of them counts is the certainty.  The confirmed level and the certainty are never
made up: an address comes by them through an answer to its line or through a report from the bus, and
it loses its certainty only by an attempt that was its last.

### Every way to hear of an address

`Heard` lists what one step can do to an address: nothing, a level that comes from a `Source`, or a
failure.  It is said of every step, also of one that stops halfway, because what was recorded before
it stopped has been recorded.  Reports are the only loop: those that were taken before a stop are a
front part of them, and the last one that concerns the address decides.
-/

namespace Lighting

/-- What the bus answers for: the level it confirmed, and whether that level counts. -/
def DeviceState.authority (s : DeviceState) : Option Level × Certainty := (s.confirmed, s.certainty)

namespace DeviceState

@[simp] theorem authority_aim (s : DeviceState) (level : Level) (transition : Duration)
    (source : Option UInt8) : (s.aim level transition source).authority = s.authority := rfl

@[simp] theorem authority_setRamp (s : DeviceState) (active : Bool) :
    (s.setRamp active).authority = s.authority := rfl

@[simp] theorem authority_confirm (s : DeviceState) (level : Level) :
    (s.confirm level).authority = (some level, .confirmed) := rfl

@[simp] theorem authority_assume (s : DeviceState) (level : Level) :
    (s.assume level).authority = (s.confirmed, .assumed) := rfl

end DeviceState

/-- What an update keeps of a state is kept everywhere. -/
theorem Registry.query_modify_keeps {β : Type} {p : DeviceState → β} {f : DeviceState → DeviceState}
    (keeps : ∀ s, p (f s) = p s) (r : Registry) (a b : Address) :
    p ((r.modify a f).1.query b) = p (r.query b) := by
  by_cases same : b = a
  · rw [same, query_modify_self, keeps]
  · rw [query_modify_of_ne r same]

/-- Whether a command has failed. -/
def Resolution.isFailure (r : Resolution) : Bool :=
  match r.outcome with
  | .failed _ => true
  | _ => false

namespace Dispatcher

/-- What an operation leaves, also if it stopped. -/
def left : Except Stop Dispatcher → Dispatcher
  | .ok d => d
  | .error stop => stop.dispatcher

/-- What a step leaves, also if it stopped. -/
def after (d : Dispatcher) (s : Step) : Dispatcher := left ((d.step s).map (·.2))

/-- The failures that were told of an address, the latest first. -/
def failures (d : Dispatcher) (a : Address) : List Resolution :=
  d.resolutions.filter fun r => r.address = a ∧ r.isFailure

/-- Where a level comes from that is taken for the level of an address. -/
inductive Source (d : Dispatcher) (a : Address) (level : Level) : Step → Prop where
  /-- An answer has accepted the attempt in flight, which is for this address and this level. -/
  | answer {octets : List UInt8} {now : Instant} {c : Packet.Confirmation} {t : Attempt}
      (decoded : Packet.decode octets = .ok (.confirmation c)) (flight : d.inFlight = some t)
      (answers : t.key.matches c = true) (accepted : c.accepted = true)
      (mine : t.command.address = a) (target : t.command.target = level) :
      Source d a level (.frame octets now)
  /-- Reports have come in, and the last one of this address among those that were taken, which are
  all of them unless the step stopped, shows this level. -/
  | report {octets : List UInt8} {now : Instant} {reports taken : List Packet.Report}
      {r : Packet.Report} (decoded : Packet.decode octets = .ok (.status reports))
      (open? : d.excluded.get a = false) (front : taken <+: reports)
      (whole : ∀ e, d.onFrame now octets = .ok e → taken = reports)
      (last : (taken.filter (·.address = a)).getLast? = some r) (shown : r.level = level) :
      Source d a level (.frame octets now)

/-- A step that can make something known: a frame comes in, or a deadline passes. -/
def listens (d : Dispatcher) : Step → Bool
  | .frame _ _ => true
  | .fire now => (d.agenda.popDue now).any fun p =>
    match p.1.task with
    | .confirmation _ _ => true
    | _ => false
  | _ => false

/-! ## What nothing is heard from -/

/-- Nothing has been heard of an address. -/
structure Silent (a : Address) (d d' : Dispatcher) : Prop where
  /-- The confirmed level and the certainty are as they were. -/
  authority : (d'.query a).authority = (d.query a).authority
  /-- No failure was told. -/
  failures : d'.failures a = d.failures a

variable {d d' : Dispatcher} {a : Address}

namespace Silent

theorem refl (d : Dispatcher) (a : Address) : Silent a d d := ⟨rfl, rfl⟩

theorem trans {e : Dispatcher} (h : Silent a d d') (h' : Silent a d' e) : Silent a d e :=
  ⟨h'.authority.trans h.authority, h'.failures.trans h.failures⟩

theorem of_same (registry : d'.registry = d.registry) (resolutions : d'.resolutions = d.resolutions) :
    Silent a d d' :=
  ⟨by rw [query, registry]; rfl, by rw [Dispatcher.failures, resolutions]; rfl⟩

/-- A change that leaves the confirmed level and the certainty alone. -/
theorem record (d : Dispatcher) (a b : Address) {f : DeviceState → DeviceState}
    (keeps : ∀ s, (f s).authority = s.authority) : Silent a d (d.record (d.registry.modify b f)) where
  authority := Registry.query_modify_keeps keeps d.registry b a
  failures := by rw [Dispatcher.failures, (Beside.record d _ _ _).resolutions]; rfl

theorem setRamp (d : Dispatcher) (a b : Address) (active : Bool) :
    Silent a d (d.record (d.registry.setRamp b active)) :=
  record d a b fun s => s.authority_setRamp active

/-- A change of another address. -/
theorem record_of_ne (d : Dispatcher) {b : Address} (other : a ≠ b)
    (f : DeviceState → DeviceState) : Silent a d (d.record (d.registry.modify b f)) where
  authority := by rw [query, Dispatcher.record, Registry.query_modify_of_ne _ other]; rfl
  failures := by rw [Dispatcher.failures, (Beside.record d _ _ _).resolutions]; rfl

/-- An end is told that is no failure of the address. -/
theorem of_told {r : Resolution} (registry : d'.registry = d.registry)
    (told : d'.resolutions = r :: d.resolutions) (other : ¬ (r.address = a ∧ r.isFailure)) :
    Silent a d d' where
  authority := by rw [query, registry]; rfl
  failures := by
    rw [Dispatcher.failures, told, List.filter_cons_of_neg (by simpa using other)]
    rfl

theorem unsettle (d : Dispatcher) (a b : Address) : Silent a d (d.unsettle b) :=
  of_same (by unfold Dispatcher.unsettle; split <;> rfl) (Beside.unsettle d b).resolutions

theorem settleAfter (d : Dispatcher) (a b : Address) (now : Instant) (span : Duration) :
    Silent a d (left (d.settleAfter b now span)) := by
  unfold Dispatcher.settleAfter
  split
  · exact of_same rfl (Beside.settleAt d b _).resolutions
  · exact refl d a

theorem cancelPlan (d : Dispatcher) (a b : Address) (successor : CommandId) :
    Silent a d (d.cancelPlan b successor) := by
  unfold Dispatcher.cancelPlan
  split
  · exact refl d a
  · exact of_told rfl rfl (by simp [Resolution.isFailure])

theorem submit (d : Dispatcher) (a : Address) (c : Command) (origin : Origin) :
    Silent a d (d.submit c origin) := by
  rcases submit_cases d c origin with ⟨_, _, _, -, -, -, eq⟩ | ⟨_, -, -, eq⟩ | ⟨-, eq⟩
  · rw [eq]
    exact of_told rfl rfl (by simp [Resolution.isFailure])
  · rw [eq]
    exact of_told rfl rfl (by simp [Resolution.isFailure])
  · rw [eq]
    exact of_same rfl rfl

theorem submitAll (d : Dispatcher) (a : Address) (ps : List Part) : Silent a d (d.submitAll ps) := by
  induction ps generalizing d with
  | nil => exact refl d a
  | cons p ps ih => exact (submit d a p.command p.origin).trans (ih _)

/-- Taking a command notes what is asked for, and nothing more. -/
theorem enqueue (d : Dispatcher) (a : Address) (c : Command) (now : Instant) :
    Silent a d (d.enqueue c now) := by
  unfold Dispatcher.enqueue
  split
  · exact refl d a
  · have room : Silent a d (d.makeRoom c) :=
      (cancelPlan d a c.address c.id).trans (record _ a c.address fun s => s.authority_aim _ _ _)
    have laid : Silent a d (d.lay c now) := by
      unfold lay
      split
      · exact room.trans (of_same rfl rfl)
      · exact room
    rw [accept_eq]
    exact laid.trans (submitAll _ a _)

theorem linkDown (d : Dispatcher) (a : Address) : Silent a d d.onLinkDown :=
  of_same (by unfold onLinkDown; cases d.linkUp <;> cases d.inFlight <;> rfl)
    (by unfold onLinkDown; cases d.linkUp <;> cases d.inFlight <;> rfl)

theorem linkUp (d : Dispatcher) (a : Address) : Silent a d d.onLinkUp := by
  unfold onLinkUp
  split
  · exact refl d a
  · exact of_same rfl rfl

theorem transmit (d : Dispatcher) (a : Address) (now : Instant) (q : Queued) (rest : List Queued) :
    Silent a d (left ((d.transmit now q rest).map (·.2))) := by
  unfold Dispatcher.transmit
  cases now.add? (d.settings.retry.timeoutFor (q.attempts + 1)) with
  | none => exact of_same rfl rfl
  | some deadline => exact of_same rfl rfl

theorem pollTransmit (d : Dispatcher) (a : Address) (now : Instant) :
    Silent a d (left ((d.pollTransmit now).map (·.2))) := by
  have paced {stop : Stop} (h : d.pacedUntil = .error stop) : stop.dispatcher = d := by
    unfold pacedUntil at h
    split at h
    · cases h
    · split at h
      · cases h
      · cases h
        rfl
  unfold Dispatcher.pollTransmit
  split
  · exact refl d a
  · cases pace : d.pacedUntil with
    | error stop => exact paced pace ▸ refl stop.dispatcher a
    | ok until? =>
        dsimp only
        split
        · exact refl d a
        · cases d.waiting with
          | nil => exact refl d a
          | cons q rest =>
              have sent := transmit d a now q rest
              dsimp only
              cases out : d.transmit now q rest with
              | error stop => rwa [out] at sent
              | ok r => rwa [out] at sent

end Silent

/-! ## What is heard -/

/-- What a step lets an address hear. -/
inductive Heard (d : Dispatcher) (a : Address) (s : Step) (d' : Dispatcher) : Prop where
  /-- Nothing. -/
  | nothing (silent : Silent a d d')
  /-- A level, which counts from now on. -/
  | level {level : Level} (source : d.Source a level s)
      (known : (d'.query a).authority = (some level, .confirmed))
      (failures : d'.failures a = d.failures a)
  /-- A failure of the last attempt: the level that was asked for counts from now on. -/
  | failure {t : Attempt} (flight : d.inFlight = some t) (mine : t.command.address = a)
      (last : d.settings.retry.retries t.number = false)
      (told : d'.resolutions = ⟨t.command.id, a, .failed t.number⟩ :: d.resolutions)
      (known : (d'.query a).authority = ((d.query a).confirmed, .assumed))
      (target : (d'.query a).target = t.command.target)

/-- An attempt that failed is repeated, and nothing is heard, or it was the last one. -/
theorem heard_retryOrFail {e : Dispatcher} {t : Attempt} (s : Step) (flight : d.inFlight = some t)
    (registry : e.registry = d.registry) (resolutions : e.resolutions = d.resolutions)
    (settings : e.settings = d.settings) : d.Heard a s (e.retryOrFail t) := by
  unfold retryOrFail
  split
  · exact .nothing (.of_same registry resolutions)
  · rename_i spent
    have last : d.settings.retry.retries t.number = false :=
      Bool.eq_false_iff.mpr (settings ▸ spent)
    dsimp only
    generalize told : e.tell (.resolved t.command.id t.command.address (.failed t.number)) = f
    -- the level is assumed, and perhaps the ramp has ended
    generalize assumed : f.record (f.registry.assume t.command.address t.command.target) = g
    generalize ended : (if t.origin.isIntermediate then g
      else g.record (g.registry.setRamp t.command.address false)) = g'
    have rest : g'.resolutions = g.resolutions ∧ Silent a g g' ∧
        (g'.query a).target = (g.query a).target := by
      rw [← ended]
      split
      · exact ⟨rfl, .refl g a, rfl⟩
      · exact ⟨(Beside.record g _ _ _).resolutions, .setRamp g a _ false,
          Registry.query_modify_keeps (p := DeviceState.target) (f := (·.setRamp false))
            (fun _ => rfl) g.registry _ a⟩
    have tells : f.resolutions =
        ⟨t.command.id, t.command.address, .failed t.number⟩ :: d.resolutions := by
      rw [← told, ← resolutions]
      rfl
    have known : f.registry = d.registry := by
      rw [← told, ← registry]
      rfl
    have ends : g.resolutions = f.resolutions := by
      rw [← assumed]
      exact (Beside.record f _ _ _).resolutions
    by_cases mine : t.command.address = a
    · have level : g.query a = (d.query a).assume t.command.target := by
        rw [← assumed, query, record, Registry.assume, mine, Registry.query_modify_self, known]
        rfl
      refine .failure flight mine last (by rw [rest.1, ends, tells, mine]) ?_ ?_
      · rw [rest.2.1.authority, level, DeviceState.authority_assume]
      · rw [rest.2.2, level]
        rfl
    · have passed : Silent a d f := .of_told known tells fun h => mine h.1
      have other : Silent a f g := by
        rw [← assumed]
        exact .record_of_ne f (Ne.symm mine) _
      exact .nothing ((passed.trans other).trans rest.2.1)

theorem onReport_authority (d : Dispatcher) (a : Address) (now : Instant) (r : Packet.Report) :
    ((left (d.onReport now r)).query a).authority =
        (if r.address = a ∧ d.excluded.get a = false then (some r.level, .confirmed)
        else (d.query a).authority) ∧
      (left (d.onReport now r)).failures a = d.failures a := by
  unfold onReport
  split
  · rename_i closed
    refine ⟨?_, rfl⟩
    rw [if_neg (fun ⟨same, open?⟩ => by rw [← same, closed] at open?; cases open?)]
    rfl
  · rename_i open?
    -- what is recorded, before the end of a ramp is entered or struck
    generalize recorded : d.record (d.registry.report r.address r.level r.transition r.source) = e
    have rest : Silent a e
        (left (if r.transition.isZero then .ok (e.unsettle r.address)
          else e.settleAfter r.address now r.transition)) := by
      split
      · exact Silent.unsettle e a r.address
      · exact Silent.settleAfter e a r.address now r.transition
    show ((left (if r.transition.isZero then .ok (e.unsettle r.address)
      else e.settleAfter r.address now r.transition)).query a).authority = _ ∧ _
    rw [rest.authority, rest.failures, ← recorded]
    by_cases mine : r.address = a
    · subst mine
      refine ⟨?_, ?_⟩
      · rw [if_pos ⟨rfl, by simpa using open?⟩, query, record, Registry.report,
          Registry.query_modify_self, DeviceState.authority_setRamp, DeviceState.authority_confirm]
      · rw [failures, Registry.report, (Beside.record d _ _ _).resolutions]
        rfl
    · rw [if_neg fun h => mine h.1]
      exact ⟨(Silent.record_of_ne d (Ne.symm mine) _).authority,
        (Silent.record_of_ne d (Ne.symm mine) _).failures⟩

/-- The reports that were taken are a front part, and the last one of an address decides. -/
theorem onReports_authority (now : Instant) (rs : List Packet.Report) (d : Dispatcher)
    (a : Address) :
    (left (onReports now rs d)).failures a = d.failures a ∧
      ∃ taken, taken <+: rs ∧ (∀ e, onReports now rs d = .ok e → taken = rs) ∧
        ((left (onReports now rs d)).query a).authority =
          if d.excluded.get a then (d.query a).authority
          else (taken.filter (·.address = a)).getLast?.elim (d.query a).authority
            fun r => (some r.level, .confirmed) := by
  induction rs generalizing d with
  | nil => exact ⟨rfl, [], List.prefix_rfl, fun _ _ => rfl, by simp [onReports, left]⟩
  | cons r rs ih =>
      obtain ⟨authority, failures⟩ := onReport_authority d a now r
      unfold onReports
      cases first : d.onReport now r with
      | error stop =>
          -- the report was recorded, and then the end of its ramp lay beyond the clock
          rw [first] at authority failures
          simp only [Except.bind]
          refine ⟨failures, [r], ⟨rs, rfl⟩, (fun e h => by cases h), ?_⟩
          rw [authority]
          by_cases mine : r.address = a <;> cases d.excluded.get a <;> simp [mine]
      | ok e =>
          rw [first] at authority failures
          obtain ⟨failures', taken, front, whole, authority'⟩ := ih e
          simp only [Except.bind]
          refine ⟨failures'.trans failures, r :: taken, (List.prefix_cons_inj r).mpr front,
            fun f h => congrArg _ (whole f h), ?_⟩
          rw [authority', show (e.query a).authority = _ from authority,
            (Beside.onReport first).excluded]
          by_cases mine : r.address = a
          · rw [List.filter_cons_of_pos (by simpa using mine), List.getLast?_cons]
            cases d.excluded.get a <;> cases (taken.filter (·.address = a)).getLast? <;> simp [mine]
          · rw [List.filter_cons_of_neg (by simpa using mine)]
            simp [mine]

theorem heard_confirmRamp {e : Dispatcher} {t : Attempt} {octets : List UInt8} {now : Instant}
    {c : Packet.Confirmation} (silent : Silent a d e)
    (decoded : Packet.decode octets = .ok (.confirmation c)) (flight : d.inFlight = some t)
    (answers : t.key.matches c = true) (accepted : c.accepted = true) (active : Bool) :
    d.Heard a (.frame octets now)
      (e.record (e.registry.confirmRamp t.command.address t.command.target active)) := by
  by_cases mine : t.command.address = a
  · refine .level (.answer decoded flight answers accepted mine rfl) ?_ ?_
    · rw [query, record, Registry.confirmRamp, mine, Registry.query_modify_self,
        DeviceState.authority_setRamp, DeviceState.authority_confirm]
    · rw [failures, Registry.confirmRamp, (Beside.record e _ _ _).resolutions]
      exact silent.failures
  · exact .nothing (silent.trans (.record_of_ne e (Ne.symm mine) _))

theorem heard_onConfirmation {octets : List UInt8} {c : Packet.Confirmation}
    (decoded : Packet.decode octets = .ok (.confirmation c)) (now : Instant) :
    d.Heard a (.frame octets now) (left (d.onConfirmation c now)) := by
  unfold onConfirmation
  cases flight : d.inFlight with
  | none => exact .nothing (.refl d a)
  | some t =>
      dsimp only
      split
      · rename_i answers
        split
        · rename_i accepted
          show d.Heard a _ (left ((d.land t).onAccepted t now))
          have told : Silent a d ((d.land t).tell
              (.resolved t.command.id t.command.address .confirmed)) :=
            .of_told rfl rfl (by simp [Resolution.isFailure])
          unfold onAccepted
          dsimp only
          split
          · have settled := told.trans (.settleAfter _ a t.command.address now
              (busTime t.command.transition))
            generalize ((d.land t).tell _).settleAfter _ _ _ = out at settled
            cases out with
            | error stop => exact .nothing settled
            | ok e => exact heard_confirmRamp settled decoded flight answers accepted true
          · split
            · exact heard_confirmRamp told decoded flight answers accepted true
            · exact heard_confirmRamp (told.trans (.unsettle _ a _)) decoded flight answers accepted
                false
        · exact heard_retryOrFail _ flight rfl rfl rfl
      · exact .nothing (.refl d a)

theorem heard_onFrame (d : Dispatcher) (a : Address) (octets : List UInt8) (now : Instant) :
    d.Heard a (.frame octets now) (left (d.onFrame now octets)) := by
  cases decoded : Packet.decode octets with
  | error e =>
      have passed : left (d.onFrame now octets) = d := by
        cases e <;> simp only [onFrame, decoded, left]
      exact passed.symm ▸ .nothing (.refl d a)
  | ok inbound =>
      cases inbound with
      | confirmation c =>
          simp only [onFrame, decoded]
          exact heard_onConfirmation decoded now
      | unrecognized =>
          simp only [onFrame, decoded]
          exact .nothing (.refl d a)
      | status reports =>
          have frame : d.onFrame now octets = onReports now reports d := by
            simp only [onFrame, decoded]
          obtain ⟨failures, taken, front, whole, authority⟩ := onReports_authority now reports d a
          rw [frame]
          cases open? : d.excluded.get a with
          | true => exact .nothing ⟨by rw [authority, if_pos open?], failures⟩
          | false =>
              rw [open?, if_neg Bool.false_ne_true] at authority
              cases last : (taken.filter (·.address = a)).getLast? with
              | none => exact .nothing ⟨by rw [authority, last]; rfl, failures⟩
              | some r =>
                  exact .level (.report decoded open? front (fun e h => whole e (frame ▸ h)) last rfl)
                    (by rw [authority, last]; rfl) failures

/-- What a task that falls due lets an address hear: nothing, unless it is a deadline. -/
theorem heard_fireNext (d : Dispatcher) (a : Address) (now : Instant) :
    d.Heard a (.fire now) (d.fireNext now) ∧
      (d.listens (.fire now) = false → Silent a d (d.fireNext now)) := by
  unfold fireNext listens
  cases due : d.agenda.popDue now with
  | none => exact ⟨.nothing (.refl d a), fun _ => .refl d a⟩
  | some p =>
      obtain ⟨e, g⟩ := p
      dsimp only [Option.any_some]
      unfold fire
      split
      · rename_i id number task
        refine ⟨?_, fun deaf => by simp [due, task] at deaf⟩
        unfold onTimeout
        cases flight : d.inFlight with
        | none => exact .nothing (.of_same rfl rfl)
        | some t =>
            dsimp only
            split
            · exact heard_retryOrFail _ flight rfl rfl rfl
            · exact .nothing (.of_same rfl rfl)
      · rename_i number c last task
        have silent : Silent a d (({ d with agenda := g } : Dispatcher).onRampStep number c last) := by
          unfold onRampStep
          split
          · exact .of_same rfl rfl
          · split
            · have submitted (d' : Dispatcher) (same : Silent a d d') :=
                same.trans (.submit d' a c (.rampStep number last))
              cases last with
              | true => exact submitted _ (.of_same rfl rfl)
              | false => exact submitted _ (.of_same rfl rfl)
            · exact .of_same rfl rfl
        exact ⟨.nothing silent, fun _ => silent⟩
      · rename_i b task
        have silent : Silent a d (({ d with agenda := g } : Dispatcher).onSettled e.token b) := by
          unfold onSettled
          split
          · have struck : Silent a d
                ({ d with agenda := g, settling := d.settling.set b none } : Dispatcher) :=
              .of_same rfl rfl
            exact struck.trans (.setRamp _ a b false)
          · exact .of_same rfl rfl
        exact ⟨.nothing silent, fun _ => silent⟩

/-- **A step lets an address hear nothing, a level that has a source, or a failure.**  Only frames
and deadlines let it hear anything. -/
theorem heard (d : Dispatcher) (a : Address) (s : Step) :
    d.Heard a s (d.after s) ∧ (d.listens s = false → Silent a d (d.after s)) := by
  have nothing {s : Step} (silent : Silent a d (d.after s)) :
      d.Heard a s (d.after s) ∧ (d.listens s = false → Silent a d (d.after s)) :=
    ⟨.nothing silent, fun _ => silent⟩
  cases s with
  | issue => exact nothing (.of_same rfl rfl)
  | enqueue c now => exact nothing (.enqueue d a c now)
  | linkUp => exact nothing (.linkUp d a)
  | linkDown => exact nothing (.linkDown d a)
  | buffer rest => exact nothing (.of_same rfl rfl)
  | frame octets now =>
      refine ⟨?_, nofun⟩
      have left : d.after (.frame octets now) = left (d.onFrame now octets) := by
        show Dispatcher.left (((d.onFrame now octets).map _).map _) = _
        cases d.onFrame now octets <;> rfl
      rw [left]
      exact heard_onFrame d a octets now
  | fire now => exact heard_fireNext d a now
  | poll now => exact nothing (.pollTransmit d a now)

/-- A confirmed level is there wherever it counts. -/
def Backed (d : Dispatcher) : Prop :=
  ∀ a, (d.query a).certainty = .confirmed → (d.query a).confirmed.isSome

theorem backed_create (settings : Settings) (excluded : List Address) :
    (create settings excluded).Backed := by
  intro a sure
  rw [show (create settings excluded).query a = .unknown a from Registry.query_empty a] at sure
  cases sure

theorem Backed.after (h : d.Backed) (s : Step) : (d.after s).Backed := by
  intro a sure
  rcases (d.heard a s).1 with ⟨silent⟩ | ⟨-, known, -⟩ | ⟨-, -, -, -, known, -⟩
  · obtain ⟨level, certainty⟩ := Prod.mk.inj silent.authority
    rw [level]
    exact h a (certainty ▸ sure)
  · rw [(Prod.mk.inj known).1]
    rfl
  · rw [(Prod.mk.inj known).2] at sure
    cases sure

theorem after_of_ok {s : Step} {frame : Option (List UInt8)} (step : d.step s = .ok (frame, d')) :
    d.after s = d' := by
  rw [after, step]
  rfl

theorem Backed.run (h : d.Backed) {steps : List Step} {frames : List (List UInt8)}
    (run : d.run steps = .ok (frames, d')) : d'.Backed :=
  run_induction (fun {_ s _ _} h step => after_of_ok step ▸ h.after s) h run

/-- **What counts as confirmed comes from the bus.**  A step gives an address another confirmed level,
or makes its level certain, only if it takes the level from an answer or a report.  It takes the
certainty away, or tells of a failure, only if the attempt in flight was for this address and the
last one; then the confirmed level stays and the level asked for counts.  All steps but frames and
deadlines leave both alone, and a level that counts as confirmed is there. -/
theorem authority_provenance {settings : Settings} {excluded : List Address} {steps : List Step}
    {frames : List (List UInt8)}
    (reached : (create settings excluded).run steps = .ok (frames, d)) (s : Step) (a : Address) :
    (((d.after s).query a).confirmed ≠ (d.query a).confirmed ∨
        (d.query a).certainty = .assumed ∧ ((d.after s).query a).certainty = .confirmed →
      ∃ level, d.Source a level s ∧ ((d.after s).query a).confirmed = some level ∧
        ((d.after s).query a).certainty = .confirmed) ∧
    ((d.query a).certainty = .confirmed ∧ ((d.after s).query a).certainty = .assumed ∨
        (d.after s).failures a ≠ d.failures a →
      ∃ t, d.inFlight = some t ∧ t.command.address = a ∧
        (d.after s).resolutions = ⟨t.command.id, a, .failed t.number⟩ :: d.resolutions ∧
        ((d.after s).query a).confirmed = (d.query a).confirmed ∧
        ((d.after s).query a).certainty = .assumed ∧
        ((d.after s).query a).target = t.command.target ∧
        ((d.after s).query a).best = t.command.target) ∧
    (d.listens s = false → ∀ b, ((d.after s).query b).confirmed = (d.query b).confirmed ∧
      ((d.after s).query b).certainty = (d.query b).certainty) ∧
    (∀ b, (d.query b).certainty = .confirmed → (d.query b).confirmed.isSome) ∧
    (∀ b, ((d.after s).query b).certainty = .confirmed →
      ((d.after s).query b).confirmed.isSome) := by
  have backed := (backed_create settings excluded).run reached
  refine ⟨fun learns => ?_, fun loses => ?_, fun deaf b => ?_, backed, backed.after s⟩
  · rcases (d.heard a s).1 with ⟨silent⟩ | ⟨source, known, -⟩ | ⟨-, -, -, -, known, -⟩
    · obtain ⟨level, certainty⟩ := Prod.mk.inj silent.authority
      rcases learns with other | ⟨unsure, sure⟩
      · exact absurd level other
      · rw [← certainty, sure] at unsure
        cases unsure
    · obtain ⟨level, certainty⟩ := Prod.mk.inj known
      exact ⟨_, source, level, certainty⟩
    · obtain ⟨level, certainty⟩ := Prod.mk.inj known
      rcases learns with other | ⟨-, sure⟩
      · exact absurd level other
      · rw [certainty] at sure
        cases sure
  · rcases (d.heard a s).1 with ⟨silent⟩ | ⟨-, known, failures⟩ | ⟨flight, mine, -, told, known, target⟩
    · obtain ⟨-, certainty⟩ := Prod.mk.inj silent.authority
      rcases loses with ⟨sure, unsure⟩ | other
      · rw [certainty, sure] at unsure
        cases unsure
      · exact absurd silent.failures other
    · obtain ⟨-, certainty⟩ := Prod.mk.inj known
      rcases loses with ⟨-, unsure⟩ | other
      · rw [certainty] at unsure
        cases unsure
      · exact absurd failures other
    · obtain ⟨level, certainty⟩ := Prod.mk.inj known
      refine ⟨_, flight, mine, told, level, certainty, target, ?_⟩
      rw [DeviceState.best, certainty]
      exact target
  · exact Prod.mk.inj ((d.heard b s).2 deaf).authority

/-- A command is sent, and its answer makes its level the confirmed one. -/
theorem authority_provenance_of_answer :
    ∃ frames d, (create .standard []).run
        [.linkUp, .issue, .enqueue ⟨⟨1⟩, ⟨6⟩, .setLevel ⟨40⟩, .start⟩ .start, .poll .start] =
          .ok (frames, d) ∧
      (d.query ⟨6⟩).confirmed = none ∧
      ((d.after (.frame [0x68, 0x2E] .start)).query ⟨6⟩).confirmed = some ⟨40⟩ ∧
      d.Source ⟨6⟩ ⟨40⟩ (.frame [0x68, 0x2E] .start) := by
  obtain ⟨⟨frames, d⟩, reached, seen⟩ := exists_ok
    (x := (create .standard []).run
      [.linkUp, .issue, .enqueue ⟨⟨1⟩, ⟨6⟩, .setLevel ⟨40⟩, .start⟩ .start, .poll .start])
    (f := fun r => ((r.2.query ⟨6⟩).confirmed,
      ((r.2.after (.frame [0x68, 0x2E] .start)).query ⟨6⟩).confirmed))
    (b := (none, some ⟨40⟩)) (by decide +kernel)
  obtain ⟨before, after⟩ := Prod.mk.inj seen
  obtain ⟨learns, -⟩ := authority_provenance reached (.frame [0x68, 0x2E] .start) ⟨6⟩
  obtain ⟨level, source, known, -⟩ := learns (Or.inl (by rw [before, after]; nofun))
  obtain rfl := Option.some.inj (known.symm.trans after)
  exact ⟨frames, d, reached, before, after, source⟩

end Dispatcher

end Lighting
