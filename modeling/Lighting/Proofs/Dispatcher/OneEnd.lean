import Mathlib.Data.List.Nodup
import Mathlib.Data.List.Pairwise
import Lighting.Proofs.Dispatcher.Accounts
import Lighting.Proofs.Dispatcher.Identifiers

/-!
# Every command comes to one end

A command that was taken is found in exactly one place at every moment: as the last step of the ramp
that runs for its address, among those that wait, in flight, or in exactly one event that tells of
its end.  The same holds of a step before the last of a ramp from the moment it goes on the line; a
step whose ramp gives way before that is never found anywhere.

The accounts of the ledger say this of labels and without any assumption.  Here identifiers come in:
while they are fresh, a label is entered once, and an identifier is as good as a label.
-/

namespace Lighting

namespace Dispatcher

/-- Whether the command is the last step of the ramp that runs for its address. -/
def isPlanned (d : Dispatcher) (c : Command) : Bool :=
  (d.plans.get c.address).any (·.final == c.id)

/-- In how many places a command is found: as the last step of the running ramp of its address, among
the commands that wait, in flight, and in the events that tell how a command has ended. -/
def sightings (d : Dispatcher) (c : Command) : Nat :=
  (d.isPlanned c).toNat + d.waiting.countP (·.command.id == c.id) +
    d.inFlight.toList.countP (·.command.id == c.id) + d.resolutions.countP (·.id == c.id)

/-- A command is not on the line, and no event names it. -/
structure Unseen (d : Dispatcher) (id : CommandId) : Prop where
  /-- It does not wait. -/
  waiting : ∀ q ∈ d.waiting, q.command.id ≠ id
  /-- It is not in flight. -/
  inFlight : ∀ a, d.inFlight = some a → a.command.id ≠ id
  /-- No event tells of its end, or that another command gave way to it. -/
  told : ∀ r ∈ d.resolutions, r.id ≠ id ∧ r.outcome ≠ .superseded id

/-- A command that is found in one place only and whose end was told is found nowhere else, and told
of once. -/
theorem only_told {d : Dispatcher} {c : Command} {r : Resolution} (once : d.sightings c = 1)
    (hr : r ∈ d.resolutions) (same : r.id = c.id) :
    d.resolutions.filter (·.id == c.id) = [r] ∧ d.isPlanned c = false ∧
      (∀ q ∈ d.waiting, q.command.id ≠ c.id) ∧
      ∀ a, d.inFlight = some a → a.command.id ≠ c.id := by
  have told : r ∈ d.resolutions.filter (·.id == c.id) :=
    List.mem_filter.mpr ⟨hr, beq_iff_eq.mpr same⟩
  have some := List.length_pos_of_mem told
  unfold sightings at once
  rw [List.countP_eq_length_filter (l := d.resolutions)] at once
  have planned : (d.isPlanned c).toNat = 0 := by omega
  have waiting : d.waiting.countP (·.command.id == c.id) = 0 := by omega
  have flight : d.inFlight.toList.countP (·.command.id == c.id) = 0 := by omega
  have one : (d.resolutions.filter (·.id == c.id)).length = 1 := by omega
  refine ⟨?_, Bool.toNat_eq_zero.mp planned, fun q hq => ?_, fun a inFlight => ?_⟩
  · obtain ⟨r', eq⟩ := List.length_eq_one_iff.mp one
    rw [eq] at told ⊢
    rw [List.mem_singleton.mp told]
  · simpa using List.countP_eq_zero.mp waiting q hq
  · simpa using List.countP_eq_zero.mp flight a (by simp [inFlight])

end Dispatcher

namespace World

/-- All that the accounts of a world with fresh identifiers rest on. -/
structure Accounted (w : World) : Prop where
  orderly : w.dispatcher.Orderly
  balanced : w.ledger.Balanced
  named : w.ledger.Named
  rooted : w.ledger.Rooted
  stocked : ∀ x, w.ledger.stock x ≤ w.ledger.taken.count x
  distinct : w.Distinct

theorem accounted_start (settings : Settings) (excluded : List Address) :
    (start settings excluded).Accounted where
  orderly := Dispatcher.orderly_create settings excluded
  balanced := fun _ => rfl
  named := fun _ hr => absurd hr List.not_mem_nil
  rooted := ⟨fun _ hx => absurd hx List.not_mem_nil, fun _ hx => absurd hx List.not_mem_nil,
    fun _ some => absurd rfl some⟩
  stocked := fun _ => Nat.le_refl _
  distinct := distinct_start settings excluded

theorem Accounted.run {w w' : World} {steps : List Dispatcher.Step} (h : w.Accounted)
    (fresh : w.FreshRun steps) (run : w.run steps = .ok w') :
    w'.Accounted ∧ w.ledger.Extends w'.ledger ∧
      ∀ x, w'.ledger.stock x + w.ledger.taken.count x ≤
        w.ledger.stock x + w'.ledger.taken.count x := by
  have kept := ledger_induction (P := fun l => l.Balanced ∧ l.Named ∧ l.Rooted ∧
      w.ledger.Extends l ∧ ∀ x, l.stock x + w.ledger.taken.count x ≤
        w.ledger.stock x + l.taken.count x)
    (fun {l l'} tidy ⟨balanced, named, rooted, grown, stock⟩ post =>
      ⟨post.balanced tidy balanced, post.named balanced named, post.rooted rooted,
        grown.trans post.extends, fun x => by
          have := post.stock x
          have := stock x
          omega⟩)
    h.orderly ⟨h.balanced, h.named, h.rooted, Ledger.Extends.refl _, fun _ => Nat.le_refl _⟩ run
  obtain ⟨⟨balanced, named, rooted, grown, stock⟩, orderly⟩ := kept
  refine ⟨⟨orderly, balanced, named, rooted, fun x => ?_, distinct_run h.distinct h.orderly fresh run⟩,
    grown, stock⟩
  have := stock x
  have := h.stocked x
  omega

namespace Accounted

variable {w : World}

/-! ## Identifiers are as good as labels -/

theorem taken_id (h : w.Accounted) : (w.ledger.taken.map Label.id).Nodup := by
  have := h.distinct.nodup
  rwa [show w.history.rows.map Command.id = w.ledger.taken.map Label.id from
    (List.map_map (g := Label.id) (f := Command.label)).symm] at this

theorem label_eq (h : w.Accounted) {x y : Label} (hx : x ∈ w.ledger.taken)
    (hy : y ∈ w.ledger.taken) (same : x.id = y.id) : x = y :=
  List.inj_on_of_nodup_map h.taken_id hx hy same

theorem taken_of_entered (h : w.Accounted) {x : Label} (hx : x ∈ w.ledger.entered) :
    x ∈ w.ledger.taken := by
  have := List.count_pos_iff.mpr hx
  have := h.stocked x
  unfold Ledger.stock at this
  exact List.count_pos_iff.mp (by omega)

theorem count_entered (h : w.Accounted) {x : Label} (hx : x ∈ w.ledger.entered) :
    w.ledger.entered.count x = 1 := by
  have := List.count_pos_iff.mpr hx
  have := h.stocked x
  have := List.nodup_iff_count_le_one.mp h.taken_id.of_map x
  unfold Ledger.stock at *
  omega

/-- What was met was entered. -/
theorem entered_of_met (h : w.Accounted) {x : Label} (hx : 0 < w.ledger.met x) :
    x ∈ w.ledger.entered := by
  have := h.balanced x
  exact List.count_pos_iff.mp (by omega)

theorem entered_of_line (h : w.Accounted) {c : Command} (hc : c ∈ w.dispatcher.line) :
    c.label ∈ w.ledger.entered := by
  refine h.entered_of_met ?_
  have : 0 < (w.ledger.line.map Command.label).count c.label :=
    List.count_pos_iff.mpr (List.mem_map_of_mem hc)
  unfold Ledger.met
  omega

theorem entered_of_told (h : w.Accounted) {r : Resolution} (hr : r ∈ w.dispatcher.resolutions) :
    r.label ∈ w.ledger.entered := by
  refine h.entered_of_met ?_
  have : 0 < (w.ledger.resolutions.map Resolution.label).count r.label :=
    List.count_pos_iff.mpr (List.mem_map_of_mem hr)
  unfold Ledger.met
  omega

/-- A row is found by the identifier of one of its commands. -/
theorem intent_eq (h : w.Accounted) {x y : Intent} (hx : x ∈ w.history.intents)
    (hy : y ∈ w.history.intents) {c e : Command} (hc : c ∈ x.row) (he : e ∈ y.row)
    (same : c.id = e.id) : x = y := by
  by_contra ne
  have nodup := h.distinct.nodup
  rw [History.rows, List.map_flatMap] at nodup
  have symm : Std.Symm (Function.onFun List.Disjoint fun x : Intent => x.row.map Command.id) :=
    ⟨fun _ _ h _ hb ha => h ha hb⟩
  have apart := (List.nodup_flatMap.mp nodup).2.forall hx hy ne
  exact apart (List.mem_map_of_mem hc) (same ▸ List.mem_map_of_mem he)

/-! ## Where a command is found -/

theorem count_finals (h : w.Accounted) (c : Command) :
    ((w.ledger.finals c.label.address).map Part.label).count c.label =
      (w.dispatcher.isPlanned c).toNat := by
  show (((w.dispatcher.upcoming c.address).filter _).map Part.label).count c.label = _
  unfold Dispatcher.isPlanned
  cases running : w.dispatcher.plans.get c.address with
  | none =>
      rw [Dispatcher.upcoming, h.orderly.timely.follows.unplanned _ running]
      rfl
  | some plan =>
      obtain ⟨front, last, row, id, origin, early⟩ :=
        h.orderly.timely.follows.planned _ plan running
      have address : last.command.address = c.address :=
        h.orderly.tidy.address c.address last (by
          show last ∈ w.dispatcher.upcoming c.address
          rw [Dispatcher.upcoming, row]
          simp)
      have front : front.filter (!·.origin.isIntermediate) = [] :=
        List.filter_eq_nil_iff.mpr fun p hp => by simp [early p hp, Origin.isIntermediate]
      rw [Dispatcher.upcoming, row, List.filter_append, front, List.filter_cons_of_pos (by
        simp [origin, Origin.isIntermediate])]
      by_cases same : last.command.id = c.id
      · simp [Part.label, Command.label, address, ← id, same]
      · simp [Part.label, Command.label, address, ← id, same, beq_eq_false_iff_ne.mpr same]

/-- Counting identifiers is counting labels. -/
theorem countP_id (h : w.Accounted) {c : Command} (hc : c.label ∈ w.ledger.entered)
    {ls : List Label} (hls : ∀ x ∈ ls, x ∈ w.ledger.entered) :
    ls.countP (·.id == c.id) = ls.count c.label := by
  rw [List.count_eq_countP]
  refine List.countP_congr fun x hx => ?_
  simp only [beq_iff_eq]
  exact ⟨fun same => h.label_eq (h.taken_of_entered (hls x hx)) (h.taken_of_entered hc) same,
    fun same => congrArg Label.id same⟩

theorem sightings_eq (h : w.Accounted) {c : Command} (hc : c.label ∈ w.ledger.entered) :
    w.dispatcher.sightings c = 1 := by
  have line : (w.dispatcher.line.map Command.label).countP (·.id == c.id) =
      (w.dispatcher.line.map Command.label).count c.label := h.countP_id hc fun x hx => by
    obtain ⟨y, hy, rfl⟩ := List.mem_map.mp hx
    exact h.entered_of_line hy
  have told : (w.dispatcher.resolutions.map Resolution.label).countP (·.id == c.id) =
      (w.dispatcher.resolutions.map Resolution.label).count c.label := h.countP_id hc fun x hx => by
    obtain ⟨r, hr, rfl⟩ := List.mem_map.mp hx
    exact h.entered_of_told hr
  have balance := h.balanced c.label
  have flight : w.dispatcher.inFlight.toList.map Attempt.command =
      (w.dispatcher.inFlight.map Attempt.command).toList := by
    cases w.dispatcher.inFlight <;> rfl
  rw [h.count_finals, h.count_entered hc] at balance
  unfold Ledger.met at balance
  rw [show w.ledger.line = w.dispatcher.line from rfl, ← line,
    show w.ledger.resolutions = w.dispatcher.resolutions from rfl, ← told] at balance
  rw [← balance, Dispatcher.line, ← flight]
  simp only [Dispatcher.sightings, List.countP_map, List.countP_append, List.map_append,
    List.map_map, Function.comp_def, Command.label, Resolution.label]
  omega

/-- A step before the last whose ramp has given way is neither entered nor held for later. -/
theorem stock_of_cancelled (h : w.Accounted) {x : Intent} (hx : x ∈ w.history.intents)
    {c : Command} (hc : c ∈ x.row) (early : c.id ≠ x.command.id)
    (waits : c.id ∉ w.history.stepped.map Command.id)
    (ended : (w.dispatcher.plans.get x.command.address).all (·.final ≠ x.command.id)) :
    w.ledger.stock c.label = 0 := by
  have entered : w.ledger.entered.count c.label = 0 := by
    refine List.count_eq_zero.mpr fun hl => ?_
    rcases List.mem_append.mp hl with hl | hl
    · -- the identifier of a command is that of the end of its row, and `c` is in the row of `x`
      obtain ⟨y, hy, same⟩ := List.mem_map.mp hl
      obtain ⟨last, hlast, id⟩ := h.rooted.last y hy
      have same : y.command.id = c.id := congrArg Label.id same
      obtain rfl := h.intent_eq hy hx hlast hc (id.trans same)
      exact early same.symm
    · obtain ⟨y, hy, same⟩ := List.mem_map.mp hl
      exact waits (List.mem_map.mpr ⟨y, hy, congrArg Label.id same⟩)
  have steps : ((w.ledger.steps c.label.address).map Part.label).count c.label = 0 := by
    refine List.count_eq_zero.mpr fun hl => ?_
    obtain ⟨p, hp, same⟩ := List.mem_map.mp hl
    have hp := (List.mem_filter.mp hp).1
    have address : c.label.address = x.command.address := h.rooted.address x hx c hc
    rw [address] at hp
    obtain ⟨y, hy, row, last⟩ := h.rooted.upcoming _ (List.ne_nil_of_mem hp)
    obtain rfl := h.intent_eq hy hx (row p hp) hc (congrArg Label.id same)
    -- so the ramp of `x` is the one that runs
    cases running : w.dispatcher.plans.get y.command.address with
    | none =>
        have none : w.ledger.upcoming y.command.address = [] :=
          h.orderly.timely.follows.unplanned _ running
        rw [none] at hp
        cases hp
    | some plan =>
        obtain ⟨front, final, steps, id, -⟩ := h.orderly.timely.follows.planned _ plan running
        have final : final.command.id = y.command.id := last final (by
          show (Dispatcher.stepsFor _ _).getLast? = _
          rw [steps, List.getLast?_concat])
        simp [running, ← id, final] at ended
  unfold Ledger.stock
  omega

/-- A step before the last is not what a ramp runs for. -/
theorem not_planned_of_stepped (h : w.Accounted) {c : Command} (hc : c ∈ w.history.stepped) :
    w.dispatcher.isPlanned c = false := by
  by_contra planned
  obtain ⟨plan, running, final⟩ :=
    (Option.any_eq_true _ _).mp (Bool.of_not_eq_false planned)
  have final : plan.final = c.id := by simpa using final
  obtain ⟨front, last, row, id, -⟩ := h.orderly.timely.follows.planned _ plan running
  have steps : w.ledger.upcoming c.address = front ++ [last] := row
  -- the plan is that of a command with the label of the step, which would be entered twice
  obtain ⟨x, hx, inside, ends⟩ := h.rooted.upcoming c.address (by simp [steps])
  have same := ends last (by rw [steps, List.getLast?_concat])
  have member : last ∈ w.ledger.upcoming c.address := by simp [steps]
  have label : x.command.label = c.label := by
    rw [Command.label, Command.label, ← same, id, final, ← h.rooted.address x hx _ (inside _ member),
      h.orderly.tidy.address _ _ member]
  have command := List.count_pos_iff.mpr
    (label ▸ List.mem_map_of_mem (f := fun x : Intent => x.command.label) hx)
  have step := List.count_pos_iff.mpr (List.mem_map_of_mem (f := Command.label) hc)
  have once := h.count_entered (List.mem_append_right _ (List.mem_map_of_mem hc))
  rw [Ledger.entered, List.count_append] at once
  have command : 0 < (w.ledger.intents.map (·.command.label)).count c.label := command
  have step : 0 < (w.ledger.stepped.map Command.label).count c.label := step
  omega

/-- What is neither entered nor held for later is never seen again. -/
theorem unseen (h : w.Accounted) {c : Command} (taken : c.label ∈ w.ledger.taken)
    (none : w.ledger.stock c.label = 0) : w.dispatcher.Unseen c.id := by
  have out {x : Label} (hx : x ∈ w.ledger.entered) : x.id ≠ c.id := by
    intro same
    obtain rfl := h.label_eq (h.taken_of_entered hx) taken same
    have := List.count_pos_iff.mpr hx
    unfold Ledger.stock at none
    omega
  refine ⟨fun q hq => out (h.entered_of_line ?_), fun a flight => out (h.entered_of_line ?_),
    fun r hr => ⟨out (h.entered_of_told hr), fun gone => out (h.named r hr _ gone) rfl⟩⟩
  · exact List.mem_append_right _ (List.mem_map_of_mem hq)
  · rw [Dispatcher.line_of_inFlight flight]
    exact List.mem_cons_self

end Accounted

/-! ## The law -/

/-- **Every command comes to one end.**  In every run in which the commands that come in bear fresh
identifiers: a command that was taken is found in exactly one place; so is a step before the last of a
ramp once it has gone on the line, and that place is not among the plans; what was told of the end of
either is all that is ever told of it, and it is found nowhere else again; and a step before the last
whose ramp was given up before it went on the line is never seen. -/
theorem one_end {settings : Settings} {excluded : List Address} {steps : List Dispatcher.Step}
    {w : World} (run : (start settings excluded).run steps = .ok w)
    (fresh : (start settings excluded).FreshRun steps) :
    (∀ x ∈ w.history.intents, w.dispatcher.sightings x.command = 1) ∧
    (∀ c ∈ w.history.stepped,
      w.dispatcher.sightings c = 1 ∧ w.dispatcher.isPlanned c = false) ∧
    ∀ more w', w.run more = .ok w' → w.FreshRun more →
      (∀ c ∈ w.history.intents.map Intent.command ++ w.history.stepped,
        ∀ r ∈ w.dispatcher.resolutions, r.id = c.id →
          w'.dispatcher.resolutions.filter (·.id == c.id) = [r] ∧
          w'.dispatcher.isPlanned c = false ∧ (∀ q ∈ w'.dispatcher.waiting, q.command.id ≠ c.id) ∧
          ∀ a, w'.dispatcher.inFlight = some a → a.command.id ≠ c.id) ∧
      ∀ x ∈ w.history.intents, ∀ c ∈ x.row, c.id ≠ x.command.id →
        c.id ∉ w.history.stepped.map Command.id →
        (w.dispatcher.plans.get x.command.address).all (·.final ≠ x.command.id) →
        w'.dispatcher.Unseen c.id := by
  have h := ((accounted_start settings excluded).run fresh run).1
  have ofIntent {w : World} {x : Intent} (hx : x ∈ w.history.intents) :
      x.command.label ∈ w.ledger.entered :=
    List.mem_append_left _ (List.mem_map_of_mem (f := fun x : Intent => x.command.label) hx)
  have ofStep {w : World} {c : Command} (hc : c ∈ w.history.stepped) : c.label ∈ w.ledger.entered :=
    List.mem_append_right _ (List.mem_map_of_mem hc)
  refine ⟨fun x hx => h.sightings_eq (ofIntent hx),
    fun c hc => ⟨h.sightings_eq (ofStep hc), h.not_planned_of_stepped hc⟩, ?_⟩
  intro more w' run' fresh'
  obtain ⟨h', grown, stock⟩ := h.run fresh' run'
  constructor
  · intro c hc r hr same
    have entered : c.label ∈ w'.ledger.entered := by
      rcases List.mem_append.mp hc with hc | hc
      · obtain ⟨x, hx, rfl⟩ := List.mem_map.mp hc
        exact ofIntent (grown.intents.subset hx)
      · exact ofStep (grown.stepped.subset hc)
    exact Dispatcher.only_told (h'.sightings_eq entered) (grown.resolutions.subset hr) same
  · intro x hx c hc early waits ended
    have taken : c.label ∈ w.ledger.taken :=
      List.mem_map_of_mem (List.mem_flatMap.mpr ⟨x, hx, hc⟩)
    have taken' : c.label ∈ w'.ledger.taken :=
      List.mem_map_of_mem (List.mem_flatMap.mpr ⟨x, grown.intents.subset hx, hc⟩)
    have none := h.stock_of_cancelled hx hc early waits ended
    have later := stock c.label
    have once := List.nodup_iff_count_le_one.mp h'.taken_id.of_map c.label
    have there := List.count_pos_iff.mpr taken
    exact h'.unseen taken' (by omega)

/-- A level, a ramp of two steps and darkness are asked for one after the other: the level, and the
ramp with its last step, have given way, and all three are found once. -/
theorem one_end_of_a_ramp :
    ∃ w, (start { Settings.standard with nativeRamps := false, rampSteps := 2 } []).run
        [.issue, .enqueue ⟨⟨1⟩, ⟨6⟩, .setLevel ⟨40⟩, .start⟩ .start,
          .issue, .enqueue ⟨⟨2⟩, ⟨6⟩, .ramp .full (.ofSeconds 8), .start⟩ .start,
          .issue, .enqueue ⟨⟨4⟩, ⟨6⟩, .off, .start⟩ .start] = .ok w ∧
      w.dispatcher.resolutions =
        [⟨⟨1⟩, ⟨6⟩, .superseded ⟨4⟩⟩, ⟨⟨2⟩, ⟨6⟩, .superseded ⟨4⟩⟩] ∧
      ∀ x ∈ w.history.intents, w.dispatcher.sightings x.command = 1 := by
  obtain ⟨w, run, told⟩ := Dispatcher.exists_ok
    (x := (start { Settings.standard with nativeRamps := false, rampSteps := 2 } []).run
      [.issue, .enqueue ⟨⟨1⟩, ⟨6⟩, .setLevel ⟨40⟩, .start⟩ .start,
        .issue, .enqueue ⟨⟨2⟩, ⟨6⟩, .ramp .full (.ofSeconds 8), .start⟩ .start,
        .issue, .enqueue ⟨⟨4⟩, ⟨6⟩, .off, .start⟩ .start])
    (f := fun w => w.dispatcher.resolutions)
    (b := [⟨⟨1⟩, ⟨6⟩, .superseded ⟨4⟩⟩, ⟨⟨2⟩, ⟨6⟩, .superseded ⟨4⟩⟩]) (by decide +kernel)
  exact ⟨w, run, told, (one_end run (by decide +kernel)).1⟩

end World

end Lighting
