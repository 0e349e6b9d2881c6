import Lighting.Proofs.Dispatcher.Hearing
import Lighting.Proofs.Dispatcher.Underway

/-!
# A stepped ramp converges

A stepped ramp is a row of levels on the way from the level that counts when the ramp is asked for to the
level that was asked for.  Each level of the row is nearer to the target than those before it, and only
the last one is the target (`Approach`).  While no other command comes for the address, the lines follow
the row, so what is sent never turns back: a line repeats the level sent before, or comes nearer.

### The end

The last step falls due at the end of the ramp.  Once the agenda is worked off up to that moment no step
is to come, and the only command that can still be on the line is the last one.  Its answer confirms the
target and clears the ramp flag, and nothing else can be confirmed for the address any more.
-/

namespace Lighting

/-- A row of levels between `start` and the level of `final`, each of them nearer to that level than those
before; the last one is `final`, unless the row is empty. -/
structure Approach (start : Level) (final : Command) (ps : List Part) : Prop where
  /-- Every part is for a level. -/
  action : ∀ p ∈ ps, p.command.action = .setLevel p.command.target
  /-- The levels lie between the start and the target. -/
  toward : ∀ p ∈ ps, Level.Toward final.target start p.command.target
  /-- They come nearer and nearer to the target. -/
  nearer : ps.Pairwise fun p q =>
    Level.Nearer final.target p.command.target q.command.target
  /-- Only the last part is no step that goes on, and it is the final command. -/
  ends : ps = [] ∨ ∃ front last, ps = front ++ [last] ∧ last.command = final ∧
    last.origin.isIntermediate = false ∧ ∀ p ∈ front, p.origin.isIntermediate = true

theorem approach_nil (start : Level) (final : Command) : Approach start final [] :=
  ⟨nofun, nofun, List.Pairwise.nil, Or.inl rfl⟩

/-- A part at the target, or one that is no step that goes on, is the final command. -/
theorem Approach.final {start : Level} {final : Command} {ps : List Part}
    (h : Approach start final ps) {p : Part} (hp : p ∈ ps)
    (there : p.command.target = final.target ∨ p.origin.isIntermediate = false) :
    p.command = final ∧ p.origin.isIntermediate = false := by
  rcases h.ends with rfl | ⟨front, last, rfl, command, whole, steps⟩
  · cases hp
  · rcases List.mem_append.mp hp with before | final
    · exfalso
      rcases there with there | direct
      · have ahead := (List.pairwise_append.mp h.nearer).2.2 p before last (List.mem_singleton_self _)
        exact Level.not_nearer_of_target (there ▸ ahead)
      · exact absurd ((steps p before).symm.trans direct) nofun
    · exact List.mem_singleton.mp final ▸ ⟨command, whole⟩

namespace Dispatcher

variable {d d' : Dispatcher} {a : Address}

/-! ## The row of a stepped ramp -/

/-- The steps that fit on the clock are the whole row or its last step. -/
theorem fitting_steps (now : Instant) (n : Nat) (start target : Level) (duration : Duration) :
    (fitting now (Ramp.steps n start target duration)).Sublist (Ramp.steps n start target duration) ∧
      ∃ front, fitting now (Ramp.steps n start target duration) = front ++ [⟨duration, target⟩] := by
  unfold fitting
  split
  · exact ⟨List.Sublist.refl _, _, rfl⟩
  · rw [Ramp.getLast?_steps]
    exact ⟨List.singleton_sublist.mpr (List.mem_of_getLast? (Ramp.getLast?_steps _ _ _ _)), [], rfl⟩

theorem map_target_stepParts (plan : Nat) (c : Command) (now : Instant) (id : CommandId)
    (steps : List Ramp.Step) :
    (stepParts plan c now id steps).map (·.command.target) = steps.map Ramp.Step.level := by
  induction steps generalizing id with
  | nil => rfl
  | cons step rest ih => exact congrArg (List.cons step.level) (ih id.next)

/-- **The row of a stepped ramp approaches the level that was asked for**, and none of it falls due after
the end of the ramp. -/
theorem approach_parts {c : Command} (stepped : (d.treatment c).isStepped = true) (now : Instant) :
    Approach (d.query c.address).best (c.withAction (.setLevel c.target)) (d.parts c now) ∧
      ∀ p ∈ d.parts c now, ∀ t ∈ p.moment, t.nanos ≤ now.nanos + c.transition.nanos := by
  cases treatment : d.treatment c with
  | immediate action => rw [treatment] at stepped; cases stepped
  | native action => rw [treatment] at stepped; cases stepped
  | stepped steps =>
      obtain ⟨level, duration, action, -, -, rfl⟩ := Ramp.plan_eq_stepped treatment
      have target : c.target = level := congrArg Action.target action
      have transition : c.transition = duration := congrArg Action.transition action
      have row : d.parts c now = stepParts d.nextPlan c now d.nextId (fitting now (Ramp.steps
          (Ramp.stepCount d.settings.rampSteps) (d.query c.address).best level duration)) := by
        rw [parts, treatment]
        rfl
      obtain ⟨part, front, whole⟩ := fitting_steps now (Ramp.stepCount d.settings.rampSteps)
        (d.query c.address).best level duration
      have order := (Ramp.pairwise_level_steps (Ramp.stepCount d.settings.rampSteps)
        (d.query c.address).best level duration).sublist (part.map Ramp.Step.level)
      rw [← map_target_stepParts d.nextPlan c now d.nextId, ← row, List.pairwise_map] at order
      rw [target, transition]
      refine ⟨⟨fun p hp => ?_, fun p hp => ?_, order, Or.inr ?_⟩, fun p hp t ht => ?_⟩
      · rw [row] at hp
        obtain ⟨id, step, -, last, rfl⟩ := mem_stepParts hp
        rfl
      · rw [row] at hp
        obtain ⟨id, step, member, last, rfl⟩ := mem_stepParts hp
        exact Ramp.toward_of_mem_steps (part.subset member)
      · obtain ⟨parts, id, eq, origin, -⟩ := stepParts_concat d.nextPlan c now d.nextId front
          ⟨duration, level⟩
        refine ⟨parts, stepPart d.nextPlan c now id ⟨duration, level⟩ true, ?_, rfl, rfl, fun p hp => ?_⟩
        · rw [row, whole, eq]
        · rw [origin p hp]
          rfl
      · rw [row] at hp
        obtain ⟨id, step, member, last, rfl⟩ := mem_stepParts hp
        have inside := Ramp.offset_le_of_mem_steps (Ramp.one_le_stepCount _) (part.subset member)
        have due : t.nanos = now.nanos + step.offset.nanos := by
          have ht : moment now step.offset = some t := ht
          unfold moment at ht
          split at ht
          · cases ht
          · exact Instant.add?_eq_some_iff.mp ht
        omega

/-! ## Confirmations -/

/-- The confirmations that were told for an address, the latest first. -/
def confirmations (d : Dispatcher) (a : Address) : List Resolution :=
  d.resolutions.filter fun r => r.address = a ∧ r.outcome = .confirmed

theorem confirmations_of_told {r : Resolution} (told : d'.resolutions = r :: d.resolutions)
    (other : ¬ (r.address = a ∧ r.outcome = .confirmed)) :
    d'.confirmations a = d.confirmations a := by
  rw [confirmations, told, List.filter_cons_of_neg (by simpa using other)]
  rfl

theorem confirmations_of_same (same : d'.resolutions = d.resolutions) :
    d'.confirmations a = d.confirmations a := by
  rw [confirmations, same]
  rfl

theorem confirmations_submit (d : Dispatcher) (a : Address) (c : Command) (origin : Origin) :
    (d.submit c origin).confirmations a = d.confirmations a := by
  rcases submit_cases d c origin with ⟨_, _, _, -, -, -, eq⟩ | ⟨_, -, -, eq⟩ | ⟨-, eq⟩
  · rw [eq]
    exact confirmations_of_told rfl nofun
  · rw [eq]
    exact confirmations_of_told rfl nofun
  · rw [eq]
    exact confirmations_of_same rfl

theorem confirmations_submitAll (d : Dispatcher) (a : Address) (ps : List Part) :
    (d.submitAll ps).confirmations a = d.confirmations a := by
  induction ps generalizing d with
  | nil => rfl
  | cons p ps ih => exact (ih _).trans (confirmations_submit d a p.command p.origin)

theorem confirmations_accept (h : d.Timely) (a : Address) (c : Command) (now : Instant) :
    (d.accept c now).confirmations a = d.confirmations a := by
  have laid := resolutions_lay h c now
  rw [accept_eq, confirmations_submitAll]
  cases running : (d.upcoming c.address).getLast? with
  | none =>
      rw [running] at laid
      exact confirmations_of_same laid
  | some last =>
      rw [running] at laid
      exact confirmations_of_told laid nofun

/-- **Only the answer to the attempt in flight confirms anything.** -/
theorem Turn.confirmations {s : Step} {frame : Option (List UInt8)} (turn : d.Turn s frame d')
    (timely : d.Timely) (a : Address) :
    d'.confirmations a = d.confirmations a ∨
      ∃ octets now k t, s = .frame octets now ∧ Packet.decode octets = .ok (.confirmation k) ∧
        d.inFlight = some t ∧ t.command.address = a ∧ t.key.matches k = true ∧ k.accepted = true ∧
        d'.resolutions = ⟨t.command.id, a, .confirmed⟩ :: d.resolutions := by
  cases turn with
  | idle intent submits rest => exact Or.inl (confirmations_of_same rest.resolutions)
  | take open? => exact Or.inl (confirmations_accept timely a _ _)
  | release due task => exact Or.inl (confirmations_submit _ a _ _)
  | send up free head => exact Or.inl (confirmations_of_same rfl)
  | @finish s t outcome d' flight ending rest =>
      have told := rest.resolutions
      cases ending with
      | @accepted octets now k decoded answer accepted =>
          by_cases mine : t.command.address = a
          · subst mine
            exact Or.inr ⟨octets, now, k, t, rfl, decoded, flight, rfl, answer, accepted, told⟩
          · exact Or.inl (confirmations_of_told told fun same => mine same.1)
      | rejected decoded answer rejected last => exact Or.inl (confirmations_of_told told nofun)
      | expired due last => exact Or.inl (confirmations_of_told told nofun)
  | putBack flight return? rest => exact Or.inl (confirmations_of_same rest.resolutions)

/-- **The answer to a command that takes no time and is no step that goes on** is told, its level is
confirmed, and no ramp is running. -/
theorem step_of_answer {octets : List UInt8} {now : Instant} {k : Packet.Confirmation} {t : Attempt}
    (decoded : Packet.decode octets = .ok (.confirmation k)) (flight : d.inFlight = some t)
    (answers : t.key.matches k = true) (accepted : k.accepted = true)
    (quick : t.command.transition.isZero = true) (whole : t.origin.isIntermediate = false) :
    ∃ d', d.step (.frame octets now) = .ok (none, d') ∧
      d'.resolutions = ⟨t.command.id, t.command.address, .confirmed⟩ :: d.resolutions ∧
      d'.query t.command.address =
        ((d.query t.command.address).confirm t.command.target).setRamp false := by
  let settled := ((d.land t).tell
    (.resolved t.command.id t.command.address .confirmed)).unsettle t.command.address
  have told : Beside (d.finish t .confirmed) settled := Beside.unsettle _ _
  refine ⟨settled.record (settled.registry.confirmRamp t.command.address t.command.target false),
    ?_, ?_, ?_⟩
  · simp only [Dispatcher.step, onFrame, decoded, onConfirmation, flight, answers, accepted, if_true,
      onAccepted, quick, whole, Bool.not_true, Bool.false_eq_true, if_false]
    rfl
  · exact (Beside.record settled _ _ _).resolutions.trans told.resolutions
  · rw [query, record, Registry.confirmRamp, Registry.query_modify_self, registry_unsettle]
    rfl

end Dispatcher

namespace World

variable {w w' : World} {a : Address} {m : Nat} {gone rest : List Part} {start : Level}
  {final : Command}

/-! ## The ramp starts -/

/-- **A stepped ramp is on its way once it is asked for**, where nothing was left to do; one for an address
to leave alone is an empty row. -/
theorem underway_ramp (orderly : w.dispatcher.Orderly) (numbered : w.Numbered) {c : Command}
    {now : Instant} (stepped : (w.dispatcher.treatment c).isStepped = true)
    (absent : c.address ∉ w.dispatcher.places) (unplanned : w.dispatcher.plans.get c.address = none)
    (step : w.step (.enqueue c now) = .ok w') :
    ∃ gone rest, w'.Underway c.address w.history.lines.length gone rest ∧
      Approach (w.dispatcher.query c.address).best (c.withAction (.setLevel c.target)) (gone ++ rest) ∧
      ∀ p ∈ gone ++ rest, ∀ t ∈ p.moment, t.nanos ≤ now.nanos + c.transition.nanos := by
  cases open? : w.dispatcher.excluded.get c.address with
  | true =>
      obtain ⟨frame, taken, note⟩ := step_eq_ok step
      have dropped : w.dispatcher.enqueue c now = w.dispatcher := by
        rw [Dispatcher.enqueue, if_pos open?]
      obtain ⟨rfl, same⟩ := Prod.mk.inj (Except.ok.inj taken)
      rw [dropped] at same
      have lines := lines_of_quiet note
      have idle : w.dispatcher.upcoming c.address = [] := by
        by_contra some
        have planned := orderly.timely.planned_iff.mpr some
        rw [unplanned] at planned
        cases planned
      have nothing := underway_nil (orderly.step taken) (numbered.step orderly step) (same ▸ absent)
        (same ▸ idle)
      rw [lines] at nothing
      exact ⟨[], [], nothing, approach_nil _ _, fun _ hp => absurd hp List.not_mem_nil⟩
  | false =>
      obtain ⟨row, due⟩ := Dispatcher.approach_parts stepped now
      have eq := (w.dispatcher.isRow_parts c now).eq_append
      exact ⟨_, _, underway_take orderly numbered open? step (Or.inr absent), eq ▸ row, eq ▸ due⟩

/-! ## What is sent -/

/-- A line carries a part of the row. -/
theorem Underway.carried (h : w.Underway a m gone rest) {t : Transmission} (ht : t ∈ w.sentSince a m) :
    ∃ p ∈ gone ++ rest, t.attempt.command = p.command ∧ t.attempt.origin = p.origin := by
  obtain ⟨p, hp, same⟩ := List.mem_map.mp (h.sent t ht)
  exact ⟨p, List.mem_append_left rest hp, congrArg Part.command same.symm,
    congrArg Part.origin same.symm⟩

/-- **What is sent never turns back.** -/
theorem Underway.approaches (h : w.Underway a m gone rest) (row : Approach start final (gone ++ rest)) :
    (w.sentSince a m).Pairwise fun t u => t.attempt.command = u.attempt.command ∨
      Level.Nearer final.target t.attempt.command.target u.attempt.command.target := by
  have nearer := (List.pairwise_append.mp row.nearer).1
  have order := h.order
    (fun p q => Level.Nearer final.target p.command.target q.command.target)
    (List.pairwise_map.mpr nearer)
  exact order.imp fun related => related.imp_left fun same => congrArg Part.command same

/-- After a line that carries the target, or the last step, all lines carry the final command. -/
theorem Underway.closes (h : w.Underway a m gone rest) (row : Approach start final (gone ++ rest))
    {before after : List Transmission} {t : Transmission} (sent : w.sentSince a m = before ++ t :: after)
    (there : t.attempt.command.target = final.target ∨ t.attempt.origin.isIntermediate = false) :
    t.attempt.command = final ∧ t.attempt.origin.isIntermediate = false ∧
      ∀ u ∈ after, u.attempt.command = final := by
  obtain ⟨p, hp, command, origin⟩ := h.carried (sent ▸ List.mem_append_right before List.mem_cons_self)
  rw [command, origin] at there
  obtain ⟨last, whole⟩ := row.final hp there
  have same : t.attempt.command = final := command.trans last
  refine ⟨same, origin ▸ whole, fun u hu => ?_⟩
  have order := h.approaches row
  rw [sent] at order
  rcases (List.pairwise_cons.mp (List.pairwise_append.mp order).2.1).1 u hu with again | nearer
  · exact again.symm.trans same
  · rw [same] at nearer
    exact absurd nearer Level.not_nearer_of_target

/-! ## The end of the ramp -/

/-- Of a ramp that `final` ends nothing but `final` is left. -/
structure Closing (w : World) (final : Command) : Prop where
  /-- No step is to come. -/
  upcoming : w.dispatcher.upcoming final.address = []
  /-- At most one command is on the line, and it is the last step. -/
  line : w.dispatcher.line.filter (·.address = final.address) = [] ∨
    w.dispatcher.line.filter (·.address = final.address) = [final]
  /-- Whatever accepts the attempt in flight for the address confirms the ramp. -/
  answered : ∀ t octets now k, w.dispatcher.inFlight = some t → t.command.address = final.address →
    Packet.decode octets = .ok (.confirmation k) → t.key.matches k = true → k.accepted = true →
      ∃ w', w.step (.frame octets now) = .ok w' ∧ w'.dispatcher.resolutions =
        ⟨final.id, final.address, .confirmed⟩ :: w.dispatcher.resolutions
  /-- A confirmation is that of the last line, which carries the last step; then the target is confirmed
  and no ramp is running. -/
  confirmed : ∀ s w', w.step s = .ok w' →
    w'.dispatcher.confirmations final.address ≠ w.dispatcher.confirmations final.address →
      (∃ t n, w.history.lines.getLast? = some t ∧ t.attempt.command = final ∧
        t.frame = Packet.encode final n) ∧
      w'.dispatcher.resolutions =
        ⟨final.id, final.address, .confirmed⟩ :: w.dispatcher.resolutions ∧
      (w'.dispatcher.query final.address).confirmed = some final.target ∧
      (w'.dispatcher.query final.address).certainty = .confirmed ∧
      (w'.dispatcher.query final.address).rampActive = false

/-- Once all of the row has gone on the line, only the final command can be there. -/
theorem Underway.held_final (h : w.Underway a m gone []) (row : Approach start final gone) {p : Part}
    (hp : p ∈ w.dispatcher.held) (mine : p.command.address = a) :
    p.command = final ∧ p.origin.isIntermediate = false := by
  obtain ⟨last, final, rfl⟩ := Option.map_eq_some_iff.mp (h.held p hp mine)
  rcases row.ends with rfl | ⟨front, last', rfl, command, whole, -⟩
  · cases final
  · rw [List.getLast?_concat] at final
    cases final
    exact ⟨command, whole⟩

/-- An attempt in flight then is that of the final command. -/
theorem Underway.flight_final (h : w.Underway a m gone []) (row : Approach start final gone)
    {t : Attempt} (flight : w.dispatcher.inFlight = some t) (mine : t.command.address = a) :
    t.command = final ∧ t.origin.isIntermediate = false := by
  have held : t.part ∈ w.dispatcher.held := by
    rw [Dispatcher.held_of_inFlight flight]
    exact List.mem_cons_self
  exact h.held_final row held mine

/-- At most one command is on the line then, and it is the final one. -/
theorem Underway.line_final (h : w.Underway a m gone []) (row : Approach start final gone) :
    w.dispatcher.line.filter (·.address = a) = [] ∨
      w.dispatcher.line.filter (·.address = a) = [final] := by
  have only : ∀ c ∈ w.dispatcher.line.filter (·.address = a), c = final := by
    intro c hc
    obtain ⟨there, mine⟩ := List.mem_filter.mp hc
    rw [Dispatcher.line_eq_held] at there
    obtain ⟨p, hp, rfl⟩ := List.mem_map.mp there
    exact (h.held_final row hp (by simpa using mine)).1
  have nodup := (List.Nodup.of_map _ h.orderly.places).filter (·.address = a)
  generalize w.dispatcher.line.filter _ = own at only nodup
  cases own with
  | nil => exact Or.inl rfl
  | cons c cs =>
      obtain ⟨rfl, others⟩ := List.forall_mem_cons.mp only
      cases cs with
      | nil => exact Or.inr rfl
      | cons c' cs =>
          obtain rfl := others c' List.mem_cons_self
          exact absurd List.mem_cons_self (List.nodup_cons.mp nodup).1

/-- **Of a row all of which has gone on the line nothing but the final command is left.** -/
theorem Underway.closing (h : w.Underway final.address m gone []) (row : Approach start final gone)
    (quick : final.transition.isZero = true) : w.Closing final := by
  refine ⟨h.upcoming, h.line_final row, fun t octets now k flight mine decoded answers accepted => ?_,
    fun s w' step changed => ?_⟩
  · obtain ⟨command, whole⟩ := h.flight_final row flight mine
    obtain ⟨d', step, told, -⟩ := Dispatcher.step_of_answer decoded flight answers accepted
      (command ▸ quick) whole
    refine ⟨⟨d', w.history.note w.dispatcher (.frame octets now) none d'⟩, ?_, command ▸ told⟩
    rw [World.step, step]
    rfl
  · obtain ⟨frame, stepped, -⟩ := step_eq_ok step
    have turn := Dispatcher.turn h.orderly.timely stepped
    rcases turn.confirmations h.orderly.timely final.address with
      same | ⟨octets, now, k, t, rfl, decoded, flight, mine, answers, accepted, -⟩
    · exact absurd same changed
    · obtain ⟨command, whole⟩ := h.flight_final row flight mine
      obtain ⟨d', stepped', told, state⟩ := Dispatcher.step_of_answer decoded flight answers
        accepted (command ▸ quick) whole
      obtain rfl : d' = w'.dispatcher :=
        congrArg Prod.snd (Except.ok.inj (stepped'.symm.trans stepped))
      obtain ⟨line, last, rfl⟩ := Option.map_eq_some_iff.mp (h.numbered.flight t flight)
      obtain ⟨n, carries⟩ := h.numbered.frame_of_mem (List.mem_of_getLast? last)
      rw [command] at carries told state
      exact ⟨⟨line, n, last, command, carries⟩, told, by rw [state]; rfl, by rw [state]; rfl,
        by rw [state]; rfl⟩

/-- **A stepped ramp converges and never turns back.**  Where nothing is left to do for an address, a
stepped ramp is asked for, and then whatever happens but another command for the address.  The lines sent
for the address carry levels between the one that counted when the ramp was asked for and its target; each
line repeats the command of the one before or comes nearer to the target.  A line of the last step carries
the target, no other line does, and after it only the last step is sent.  Once the agenda is worked off at
the end of the ramp or later, the last step is on the line if the ramp was still running, and from then on
nothing but the last step, under the identifier of the ramp, is left of it.  It is confirmed by the answer
to a line that carries it and by nothing else, and then the target is confirmed and no ramp is running. -/
theorem ramp_converges {settings : Settings} {excluded : List Address} {steps : List Dispatcher.Step}
    (reached : (World.start settings excluded).run steps = .ok w) {c : Command} {now : Instant}
    (stepped : (w.dispatcher.treatment c).isStepped = true)
    (absent : c.address ∉ w.dispatcher.places) (unplanned : w.dispatcher.plans.get c.address = none)
    {more : List Dispatcher.Step} (spares : ∀ s ∈ more, s.Spares c.address) {v : World}
    (run : w.run (.enqueue c now :: more) = .ok v) :
    (∀ t ∈ v.sentSince c.address w.history.lines.length,
      (∃ n, t.frame = Packet.encode t.attempt.command n) ∧
        t.attempt.command.action = .setLevel t.attempt.command.target ∧
        Level.Toward c.target (w.dispatcher.query c.address).best t.attempt.command.target) ∧
    (v.sentSince c.address w.history.lines.length).Pairwise (fun t u =>
      t.attempt.command = u.attempt.command ∨
        Level.Nearer c.target t.attempt.command.target u.attempt.command.target) ∧
    (∀ before t after, v.sentSince c.address w.history.lines.length = before ++ t :: after →
      (t.attempt.command.target = c.target ∨ t.attempt.origin.isIntermediate = false) →
      t.attempt.command = c.withAction (.setLevel c.target) ∧
        t.attempt.origin.isIntermediate = false ∧
        ∀ u ∈ after, u.attempt.command = c.withAction (.setLevel c.target)) ∧
    ∀ now' e, now.nanos + c.transition.nanos ≤ now'.nanos →
      v.run ((Dispatcher.Call.expire now').steps v.dispatcher) = .ok e →
      ((v.dispatcher.plans.get c.address).isSome →
        e.dispatcher.line.filter (·.address = c.address) = [c.withAction (.setLevel c.target)]) ∧
      ∀ later u, (∀ s ∈ later, s.Spares c.address) → e.run later = .ok u →
        u.Closing (c.withAction (.setLevel c.target)) := by
  obtain ⟨numbered, orderly⟩ := (numbered_start settings excluded).run
    (Dispatcher.orderly_create settings excluded) reached
  obtain ⟨taken, first, tail⟩ := run_cons_eq_ok.mp run
  obtain ⟨gone, rest, begun, row, due⟩ := underway_ramp orderly numbered stepped absent unplanned first
  obtain ⟨released, rest, rfl, h⟩ := begun.run spares tail
  rw [← List.append_assoc] at row due
  have order := h.approaches row
  refine ⟨fun t ht => ⟨h.numbered.frame_of_mem (List.mem_of_mem_drop (List.mem_filter.mp ht).1), ?_⟩,
    order, fun before t after sent => h.closes row sent, fun now' e late expired => ?_⟩
  · obtain ⟨p, hp, command, -⟩ := h.carried ht
    rw [command]
    exact ⟨row.action p hp, row.toward p hp⟩
  · obtain ⟨worked, waits⟩ := h.expire (fun p hp t ht =>
      Nat.le_trans (due p (List.mem_append_right _ hp) t ht) late) expired
    refine ⟨fun running => ?_, fun later u spares' run' => ?_⟩
    · have there := (waits (h.upcoming ▸ h.orderly.timely.planned_iff.mp running)).mem_places
      obtain ⟨x, hx, mine⟩ := List.mem_map.mp there
      refine (worked.line_final row).resolve_left fun none => ?_
      exact absurd (decide_eq_true mine) (List.filter_eq_nil_iff.mp none x hx)
    · obtain ⟨more, rest', eq, after⟩ := worked.run spares' run'
      obtain ⟨rfl, rfl⟩ := List.nil_eq_append_iff.mp eq
      rw [List.append_nil] at after
      have after : u.Underway (c.withAction (.setLevel c.target)).address w.history.lines.length
          (gone ++ released ++ rest) [] := after
      exact after.closing row rfl

/-- A ramp of eight seconds in two steps.  The line of the first step is lost with the link and sent again;
at the end of the ramp the second step is on the line, alone, and is sent; its answer confirms full
brightness. -/
theorem ramp_converges_of_two_steps :
    ∃ v e u u', (World.start { Settings.standard with nativeRamps := false, rampSteps := 2 } []).run
        (.enqueue ⟨⟨9⟩, ⟨6⟩, .ramp .full (.ofSeconds 8), .start⟩ .start ::
          [.linkUp, .fire (.ofMillis 4000), .poll (.ofMillis 4000), .linkDown, .linkUp,
            .poll (.ofMillis 5000), .frame [0x69, 0x2E] (.ofMillis 5000)]) = .ok v ∧
      v.run ((Dispatcher.Call.expire (.ofMillis 8000)).steps v.dispatcher) = .ok e ∧
      e.dispatcher.line.filter (·.address = ⟨6⟩) = [⟨⟨9⟩, ⟨6⟩, .setLevel .full, .start⟩] ∧
      e.run [.poll (.ofMillis 8000)] = .ok u ∧
      u.Closing ⟨⟨9⟩, ⟨6⟩, .setLevel .full, .start⟩ ∧
      (u.sentSince ⟨6⟩ 0).map (·.attempt.command.target) = [⟨127⟩, ⟨127⟩, .full] ∧
      u.step (.frame [0x6A, 0x2E] (.ofMillis 8000)) = .ok u' ∧
      (u'.dispatcher.query ⟨6⟩).confirmed = some .full ∧
      (u'.dispatcher.query ⟨6⟩).rampActive = false := by
  obtain ⟨v, run, seen⟩ := Dispatcher.exists_ok
    (x := (World.start { Settings.standard with nativeRamps := false, rampSteps := 2 } []).run
      (.enqueue ⟨⟨9⟩, ⟨6⟩, .ramp .full (.ofSeconds 8), .start⟩ .start ::
        [.linkUp, .fire (.ofMillis 4000), .poll (.ofMillis 4000), .linkDown, .linkUp,
          .poll (.ofMillis 5000), .frame [0x69, 0x2E] (.ofMillis 5000)]))
    (f := fun v => (v.dispatcher.agenda.size, (v.dispatcher.plans.get ⟨6⟩).isSome))
    (b := (1, true)) (by decide +kernel)
  obtain ⟨u, whole, seen'⟩ := Dispatcher.exists_ok
    (x := (World.start { Settings.standard with nativeRamps := false, rampSteps := 2 } []).run
      ((.enqueue ⟨⟨9⟩, ⟨6⟩, .ramp .full (.ofSeconds 8), .start⟩ .start ::
        [.linkUp, .fire (.ofMillis 4000), .poll (.ofMillis 4000), .linkDown, .linkUp,
          .poll (.ofMillis 5000), .frame [0x69, 0x2E] (.ofMillis 5000)]) ++
        ([.fire (.ofMillis 8000)] ++ [.poll (.ofMillis 8000)])))
    (f := fun u => ((u.sentSince ⟨6⟩ 0).map (·.attempt.command.target),
      (u.dispatcher.confirmations ⟨6⟩).length,
      ((u.step (.frame [0x6A, 0x2E] (.ofMillis 8000))).toOption.map fun u' =>
        (u'.dispatcher.confirmations ⟨6⟩).length)))
    (b := ([⟨127⟩, ⟨127⟩, .full], 1, some 2)) (by decide +kernel)
  obtain ⟨size, running⟩ := Prod.mk.inj seen
  obtain ⟨levels, seen'⟩ := Prod.mk.inj seen'
  obtain ⟨one, two⟩ := Prod.mk.inj seen'
  obtain ⟨u', step, two⟩ := Dispatcher.exists_ok two
  obtain ⟨v', run', rest⟩ := run_append_eq_ok.mp whole
  obtain rfl : v = v' := Except.ok.inj (run.symm.trans run')
  obtain ⟨e, fired, polled⟩ := run_append_eq_ok.mp rest
  have expired : v.run ((Dispatcher.Call.expire (.ofMillis 8000)).steps v.dispatcher) = .ok e := by
    rw [Dispatcher.Call.steps, size]
    exact fired
  have reached : (World.start { Settings.standard with nativeRamps := false, rampSteps := 2 } []).run
      [] = .ok (.start { Settings.standard with nativeRamps := false, rampSteps := 2 } []) := rfl
  obtain ⟨-, -, -, ends⟩ := ramp_converges reached
    (c := ⟨⟨9⟩, ⟨6⟩, .ramp .full (.ofSeconds 8), .start⟩) (by decide +kernel) (by decide +kernel)
    (by decide +kernel) (by simp [Dispatcher.Step.Spares]) run
  obtain ⟨left, closes⟩ := ends (.ofMillis 8000) e (by decide +kernel) expired
  have closing := closes [.poll (.ofMillis 8000)] u (by simp [Dispatcher.Step.Spares]) polled
  obtain ⟨-, -, confirmed, -, clear⟩ := closing.confirmed _ u' step fun same => by
    have same := congrArg List.length same
    exact absurd (two.symm.trans (same.trans one)) (by decide)
  exact ⟨v, e, u, u', run, expired, left running, polled, closing, levels, step, confirmed, clear⟩

end World

end Lighting
