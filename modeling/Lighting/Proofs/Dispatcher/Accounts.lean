import Lighting.Proofs.Dispatcher.Ledger

/-!
# The accounts of a ledger

A command that was taken is somewhere: it is the last step of a running ramp, it stands on the line,
or its end was told.  `Balanced` says so in numbers, for all that bears one `Label`: what is in these
three places is what was entered, neither more nor less.  It needs no assumption on identifiers.  Two
commands of one label are simply counted twice.

### Steps before the last

A step before the last of a ramp is entered when it goes on the line, not when it is laid out.  Until
then it is held in `stock`, from which it may also disappear, because its ramp gives way.  The stock
never grows by more than the rows that are taken (`Posting.stock`), which is how a step that was struck
once is known to be gone for good.
-/

namespace Lighting

/-- What a command is told by: its address and its identifier. -/
structure Label where
  /-- The address. -/
  address : Address
  /-- The identifier. -/
  id : CommandId
deriving DecidableEq

/-- The label of a command. -/
def Command.label (c : Command) : Label := ⟨c.address, c.id⟩

/-- The label of the command that has ended. -/
def Resolution.label (r : Resolution) : Label := ⟨r.address, r.id⟩

/-- The label of the command in a part. -/
def Part.label (p : Part) : Label := p.command.label

namespace IsRow

variable {c : Command} {ps : List Part}

/-- The last part of a row and the steps before it, each at once or later, are the row. -/
theorem split (row : IsRow c ps) : ∃ front last, ps = front ++ [last] ∧ last.label = c.label ∧
    last.origin.isIntermediate = false ∧ (∀ p ∈ front, p.origin.isIntermediate = true) := by
  obtain ⟨front, last, rfl, id, whole, steps, -⟩ := row.last
  refine ⟨front, last, rfl, ?_, whole, steps⟩
  simp [Part.label, Command.label, id, row.address last (by simp)]

/-- The parts of a row that are not steps before the last are the command, at once or later. -/
theorem count_whole (row : IsRow c ps) (x : Label) :
    (((ps.filter (·.moment.isSome)).filter (!·.origin.isIntermediate)).map Part.label).count x +
        ((ps.filter Part.isAtOnce).map Part.label).count x =
      [c.label].count x +
        (((ps.filter Part.isAtOnce).filter (·.origin.isIntermediate)).map Part.label).count x := by
  obtain ⟨front, last, rfl, label, whole, steps⟩ := row.split
  have none : (front.filter (·.moment.isSome)).filter (!·.origin.isIntermediate) = [] :=
    List.filter_eq_nil_iff.mpr fun p hp => by simp [steps p (List.mem_filter.mp hp).1]
  have all : (front.filter Part.isAtOnce).filter (·.origin.isIntermediate) =
      front.filter Part.isAtOnce :=
    List.filter_eq_self.mpr fun p hp => steps p (List.mem_filter.mp hp).1
  cases moment : last.moment with
  | none =>
      simp [List.filter_append, none, all, moment, Part.isAtOnce, whole, label, List.count_append]
      omega
  | some t =>
      simp [List.filter_append, none, all, moment, Part.isAtOnce, whole, label]

/-- The command and the steps before the last, at once or later, are the row. -/
theorem count_row (row : IsRow c ps) (x : Label) :
    [c.label].count x +
        (((ps.filter Part.isAtOnce).filter (·.origin.isIntermediate)).map Part.label).count x +
        (((ps.filter (·.moment.isSome)).filter (·.origin.isIntermediate)).map Part.label).count x =
      (ps.map Part.label).count x := by
  obtain ⟨front, last, rfl, label, whole, steps⟩ := row.split
  have atOnce : (front.filter Part.isAtOnce).filter (·.origin.isIntermediate) =
      front.filter Part.isAtOnce :=
    List.filter_eq_self.mpr fun p hp => steps p (List.mem_filter.mp hp).1
  have later : (front.filter (·.moment.isSome)).filter (·.origin.isIntermediate) =
      front.filter (·.moment.isSome) :=
    List.filter_eq_self.mpr fun p hp => steps p (List.mem_filter.mp hp).1
  have both : ((front.filter Part.isAtOnce).map Part.label).count x +
      ((front.filter (·.moment.isSome)).map Part.label).count x =
        (front.map Part.label).count x := by
    clear atOnce later steps row
    induction front with
    | nil => rfl
    | cons p front ih =>
        cases moment : p.moment <;>
          simp [Part.isAtOnce, moment, List.count_cons] at ih ⊢ <;> omega
  have last : (([last].filter Part.isAtOnce).filter (·.origin.isIntermediate)) = [] ∧
      (([last].filter (·.moment.isSome)).filter (·.origin.isIntermediate)) = [] := by
    constructor <;>
      exact List.filter_eq_nil_iff.mpr fun p hp => by
        rw [List.mem_singleton.mp (List.mem_filter.mp hp).1, whole]
        simp
  simp only [List.filter_append, List.map_append, List.count_append, atOnce, later, last.1, last.2,
    ← both, List.map_nil, List.count_nil, List.map_cons, label]
  omega

end IsRow

namespace Ledger

/-- The labels of all commands and of all steps before the last that have gone on the line. -/
def entered (l : Ledger) : List Label :=
  l.intents.map (·.command.label) ++ l.stepped.map Command.label

/-- The labels of all rows. -/
def taken (l : Ledger) : List Label := (l.intents.flatMap Intent.row).map Command.label

/-- The last step of the ramp that runs for an address. -/
def finals (l : Ledger) (a : Address) : List Part :=
  (l.upcoming a).filter (!·.origin.isIntermediate)

/-- The steps before the last that are still to come for an address. -/
def steps (l : Ledger) (a : Address) : List Part := (l.upcoming a).filter (·.origin.isIntermediate)

/-- How often a label stands on the line or has been told of. -/
def met (l : Ledger) (x : Label) : Nat :=
  (l.line.map Command.label).count x + (l.resolutions.map Resolution.label).count x

/-- What was entered is the last step of a running ramp, stands on the line, or its end was told. -/
def Balanced (l : Ledger) : Prop :=
  ∀ x, ((l.finals x.address).map Part.label).count x + l.met x = l.entered.count x

/-- How often a label was entered or is held for later. -/
def stock (l : Ledger) (x : Label) : Nat :=
  l.entered.count x + ((l.steps x.address).map Part.label).count x

/-! ## What submission adds -/

theorem met_submit (l : Ledger) (c : Command) (x : Label) :
    (l.submit c).met x = l.met x + [c.label].count x := by
  unfold met submit
  rcases c.put_cases l.line with ⟨before, old, after, line, -, -, put, gone⟩ | ⟨-, put, none⟩
  · have told : (Command.givesWay c.id old).label = old.label := rfl
    dsimp only
    rw [put, gone, line]
    simp only [Option.map_some, Option.toList_some, List.map_append, List.map_cons,
      List.map_nil, List.count_append, List.count_cons, List.count_nil, told]
    omega
  · dsimp only
    rw [put, none]
    simp only [Option.map_none, Option.toList_none, List.nil_append, List.map_append,
      List.map_cons, List.map_nil, List.count_append]
    omega

theorem met_submitAll (l : Ledger) (ps : List Part) (x : Label) :
    (l.submitAll ps).met x = l.met x + (ps.map Part.label).count x := by
  induction ps generalizing l with
  | nil => rfl
  | cons p ps ih =>
      rw [submitAll_cons, ih, met_submit, List.map_cons, List.count_cons]
      simp only [Part.label, List.count_cons, List.count_nil]
      omega

/-! ## The law of the whole -/

/-- The ramp that gives way to a command is told of by its last step. -/
theorem count_cancelled {l : Ledger} (tidy : l.Tidy) (c : Command) {x : Label}
    (same : x.address = c.address) :
    ((l.cancelled c).toList.map Resolution.label).count x =
      ((l.finals x.address).map Part.label).count x := by
  rw [same]
  unfold cancelled finals
  rcases tidy.ramps c.address with none | ⟨front, last, row, whole, steps⟩
  · simp [none]
  · have front : front.filter (!·.origin.isIntermediate) = [] :=
      List.filter_eq_nil_iff.mpr fun p hp => by simp [steps p hp]
    have address := tidy.address c.address last (by simp [row])
    simp [row, List.filter_append, front, whole, Resolution.label, Part.label, Command.label,
      address]

/-- What concerns another address does not count. -/
theorem count_label_of_ne {ps : List Part} {a : Address} (mine : ∀ p ∈ ps, p.command.address = a)
    {x : Label} (other : x.address ≠ a) : (ps.map Part.label).count x = 0 := by
  refine List.count_eq_zero.mpr fun hx => ?_
  obtain ⟨p, hp, rfl⟩ := List.mem_map.mp hx
  exact other (mine p hp)

theorem balanced_send {l : Ledger} (h : l.Balanced) (sent : List Command) :
    Balanced { l with sent } := h

theorem balanced_finish {l : Ledger} (h : l.Balanced) {c : Command} {rest : List Command}
    (head : l.line = c :: rest) (outcome : Outcome) :
    Balanced { l with line := rest, resolutions := ⟨c.id, c.address, outcome⟩ :: l.resolutions } := by
  intro x
  have := h x
  unfold met at this ⊢
  rw [head, List.map_cons, List.count_cons] at this
  have told : (⟨c.id, c.address, outcome⟩ : Resolution).label = c.label := rfl
  show _ + ((rest.map Command.label).count x +
    ((⟨c.id, c.address, outcome⟩ :: l.resolutions).map Resolution.label).count x) = l.entered.count x
  rw [List.map_cons, List.count_cons, told, ← this]
  show ((l.finals x.address).map Part.label).count x + _ = _
  omega

/-- A step before the last is entered when it goes on the line, the last one was entered before. -/
theorem entered_release (l : Ledger) (p : Part) (rest : List Part) (x : Label) :
    (l.release p rest).entered.count x =
      l.entered.count x + if p.origin.isIntermediate then [p.label].count x else 0 := by
  unfold release submit entered
  cases p.origin.isIntermediate <;> simp [Part.label, List.count_append, Nat.add_assoc]

/-- Of the steps still to come, the one that goes on the line is missing afterwards. -/
theorem count_upcoming_release {l : Ledger} {p : Part} {rest : List Part}
    (next : l.upcoming p.command.address = p :: rest) (keep : Part → Bool) (x : Label) :
    ((((l.release p rest).upcoming x.address).filter keep).map Part.label).count x +
        (if keep p then [p.label].count x else 0) =
      (((l.upcoming x.address).filter keep).map Part.label).count x := by
  show (((Function.update l.upcoming p.command.address rest x.address).filter keep).map
    Part.label).count x + _ = _
  by_cases same : x.address = p.command.address
  · rw [same, Function.update_self, next]
    cases kept : keep p <;> simp [kept, List.count_cons]
  · have : ([p].map Part.label).count x = 0 :=
      count_label_of_ne (a := p.command.address) (by simp) same
    have : [p.label].count x = 0 := this
    rw [Function.update_of_ne same, this]
    simp

theorem balanced_release {l : Ledger} (h : l.Balanced) {p : Part} {rest : List Part}
    (next : l.upcoming p.command.address = p :: rest) : (l.release p rest).Balanced := by
  intro x
  have before := h x
  have entered := entered_release l p rest x
  have finals := count_upcoming_release next (!·.origin.isIntermediate) x
  have met : (l.release p rest).met x = l.met x + [p.label].count x := met_submit _ _ x
  unfold Ledger.finals at *
  cases whole : p.origin.isIntermediate <;>
    simp only [whole, Bool.not_true, Bool.not_false, Bool.false_eq_true, if_true, if_false] at * <;>
    omega

theorem entered_enter (l : Ledger) (c : Command) (ps : List Part) (x : Label) :
    (l.enter c ps).entered.count x = l.entered.count x + [c.label].count x +
      (((ps.filter Part.isAtOnce).filter (·.origin.isIntermediate)).map Part.label).count x := by
  unfold enter entered
  simp only [List.map_append, List.map_cons, List.map_nil, List.map_map, List.count_append]
  have same : Command.label ∘ Part.command = Part.label := rfl
  rw [same]
  omega

theorem met_enter (l : Ledger) (c : Command) (ps : List Part) (x : Label) :
    (l.enter c ps).met x =
      l.met x + ((l.cancelled c).toList.map Resolution.label).count x := by
  unfold enter met
  simp only [List.map_append, List.count_append]
  omega

theorem count_cancelled_of_ne (l : Ledger) (c : Command) {x : Label} (other : x.address ≠ c.address) :
    ((l.cancelled c).toList.map Resolution.label).count x = 0 := by
  refine List.count_eq_zero.mpr fun hx => ?_
  obtain ⟨r, hr, rfl⟩ := List.mem_map.mp hx
  obtain ⟨p, -, rfl⟩ := Option.map_eq_some_iff.mp (Option.mem_toList.mp hr)
  exact other rfl

theorem balanced_take {l : Ledger} (h : l.Balanced) (tidy : l.Tidy) {c : Command} {ps : List Part}
    (row : IsRow c ps) : ((l.enter c ps).submitAll (ps.filter Part.isAtOnce)).Balanced := by
  intro x
  have before := h x
  have frame := submitAll_frame (l.enter c ps) (ps.filter Part.isAtOnce)
  rw [met_submitAll, met_enter]
  have entered : ((l.enter c ps).submitAll (ps.filter Part.isAtOnce)).entered =
      (l.enter c ps).entered := by rw [frame]; rfl
  have finals : ((l.enter c ps).submitAll (ps.filter Part.isAtOnce)).finals x.address =
      (Function.update l.upcoming c.address (ps.filter (·.moment.isSome)) x.address).filter
        (!·.origin.isIntermediate) := by
    rw [frame]
    rfl
  rw [entered, entered_enter, finals]
  by_cases same : x.address = c.address
  · have gone := count_cancelled tidy c same
    have whole := row.count_whole x
    rw [same, Function.update_self]
    omega
  · have mine : ∀ p ∈ ps.filter Part.isAtOnce, p.command.address = c.address :=
      fun p hp => row.address p (List.mem_filter.mp hp).1
    have gone := count_cancelled_of_ne l c same
    have now := count_label_of_ne mine same
    have early : ∀ p ∈ (ps.filter Part.isAtOnce).filter (·.origin.isIntermediate),
        p.command.address = c.address := fun p hp => mine p (List.mem_filter.mp hp).1
    have steps := count_label_of_ne early same
    have own : [c.label].count x = 0 := List.count_eq_zero.mpr fun hx =>
      same (congrArg Label.address (List.mem_singleton.mp hx))
    rw [Function.update_of_ne same]
    unfold Ledger.finals at before
    omega

/-- **Every posting keeps the balance.** -/
theorem Posting.balanced {l l' : Ledger} (post : l.Posting l') (tidy : l.Tidy) (h : l.Balanced) :
    l'.Balanced := by
  cases post with
  | send head => exact balanced_send h _
  | finish head own => exact balanced_finish h head _
  | release next => exact balanced_release h next
  | take row => exact balanced_take h tidy row

/-! ## The steps before the last -/

theorem stock_release (l : Ledger) {p : Part} {rest : List Part}
    (next : l.upcoming p.command.address = p :: rest) (x : Label) :
    (l.release p rest).stock x = l.stock x := by
  have entered := entered_release l p rest x
  have steps := count_upcoming_release next (·.origin.isIntermediate) x
  unfold stock Ledger.steps
  omega

theorem stock_take (l : Ledger) {c : Command} {ps : List Part} (row : IsRow c ps) (x : Label) :
    ((l.enter c ps).submitAll (ps.filter Part.isAtOnce)).stock x ≤
      l.stock x + (ps.map Part.label).count x := by
  have frame := submitAll_frame (l.enter c ps) (ps.filter Part.isAtOnce)
  have stock : ((l.enter c ps).submitAll (ps.filter Part.isAtOnce)).stock x =
      (l.enter c ps).stock x := by rw [frame]; rfl
  have parts := row.count_row x
  rw [stock]
  unfold Ledger.stock
  rw [entered_enter]
  show _ + ((Function.update l.upcoming c.address _ x.address).filter _ |>.map _).count x ≤
    _ + ((l.upcoming x.address).filter _ |>.map _).count x + _
  by_cases same : x.address = c.address
  · rw [same, Function.update_self]
    omega
  · rw [Function.update_of_ne same]
    omega

/-- **The stock grows by no more than the rows that are taken.** -/
theorem Posting.stock {l l' : Ledger} (post : l.Posting l') (x : Label) :
    l'.stock x + l.taken.count x ≤ l.stock x + l'.taken.count x := by
  cases post with
  | send head => exact Nat.le_refl _
  | finish head own => exact Nat.le_refl _
  | release next =>
      rw [stock_release l next]
      exact Nat.le_refl _
  | @take c ps row =>
      have stock := stock_take l row x
      have taken : ((l.enter c ps).submitAll (ps.filter Part.isAtOnce)).taken.count x =
          l.taken.count x + (ps.map Part.label).count x := by
        have same : Command.label ∘ Part.command = Part.label := rfl
        rw [submitAll_frame]
        simp [Ledger.taken, enter, List.flatMap_append, same]
      omega

/-! ## Names and rows -/

/-- A command that another one gave way to was entered. -/
def Named (l : Ledger) : Prop :=
  ∀ r ∈ l.resolutions, ∀ id, r.outcome = .superseded id → ⟨r.address, id⟩ ∈ l.entered

/-- The rows are those of their commands, and the steps still to come for an address belong to one
of them. -/
structure Rooted (l : Ledger) : Prop where
  /-- A row is for its command's address. -/
  address : ∀ x ∈ l.intents, ∀ c ∈ x.row, c.address = x.command.address
  /-- A row ends with its command's identifier. -/
  last : ∀ x ∈ l.intents, ∃ c ∈ x.row, c.id = x.command.id
  /-- The steps still to come belong to one row, and end with its end. -/
  upcoming : ∀ a, l.upcoming a ≠ [] → ∃ x ∈ l.intents, (∀ p ∈ l.upcoming a, p.command ∈ x.row) ∧
    ∀ p, (l.upcoming a).getLast? = some p → p.command.id = x.command.id

theorem named_submit {l : Ledger} (h : l.Named) {c : Command} (entered : c.label ∈ l.entered) :
    (l.submit c).Named := by
  intro r hr id gone
  show _ ∈ l.entered
  rcases List.mem_append.mp hr with hr | hr
  · obtain ⟨old, displaced, rfl⟩ := Option.map_eq_some_iff.mp (Option.mem_toList.mp hr)
    cases gone
    have same : old.address = c.address := by simpa using List.find?_some displaced
    show (⟨old.address, c.id⟩ : Label) ∈ _
    rw [same]
    exact entered
  · exact h r hr id gone

theorem named_submitAll {l : Ledger} (h : l.Named) {ps : List Part}
    (entered : ∀ p ∈ ps, p.label ∈ l.entered) : (l.submitAll ps).Named := by
  induction ps generalizing l with
  | nil => exact h
  | cons p ps ih =>
      obtain ⟨first, rest⟩ := List.forall_mem_cons.mp entered
      exact ih (named_submit h first) rest

theorem named_release {l : Ledger} (h : l.Named) (balanced : l.Balanced) {p : Part}
    {rest : List Part} (next : l.upcoming p.command.address = p :: rest) :
    (l.release p rest).Named := by
  have more {x : Label} (hx : x ∈ l.entered) : x ∈ (l.release p rest).entered := by
    refine List.count_pos_iff.mp ?_
    have := List.count_pos_iff.mpr hx
    rw [entered_release]
    omega
  have mine : p.label ∈ (l.release p rest).entered := by
    refine List.count_pos_iff.mp ?_
    rw [entered_release]
    have balance := balanced p.label
    have next : l.upcoming p.label.address = p :: rest := next
    unfold finals at balance
    rw [next] at balance
    cases whole : p.origin.isIntermediate with
    | true => simp
    | false =>
        rw [List.filter_cons_of_pos (by simp [whole]), List.map_cons, List.count_cons_self]
          at balance
        omega
  have before : Ledger.Named { l with
      upcoming := Function.update l.upcoming p.command.address rest
      stepped := l.stepped ++ if p.origin.isIntermediate then [p.command] else [] } := by
    intro r hr id gone
    exact more (h r hr id gone)
  exact named_submit before mine

theorem named_take {l : Ledger} (h : l.Named) {c : Command} {ps : List Part} (row : IsRow c ps) :
    ((l.enter c ps).submitAll (ps.filter Part.isAtOnce)).Named := by
  have own : c.label ∈ (l.enter c ps).entered := by simp [entered, enter]
  apply named_submitAll
  · intro r hr id gone
    rcases List.mem_append.mp hr with hr | hr
    · obtain ⟨q, -, rfl⟩ := Option.map_eq_some_iff.mp (Option.mem_toList.mp hr)
      cases gone
      exact own
    · refine List.count_pos_iff.mp ?_
      have := List.count_pos_iff.mpr (h r hr id gone)
      rw [entered_enter]
      omega
  · intro p hp
    obtain ⟨front, last, rfl, label, -, steps⟩ := row.split
    have hp' := List.mem_filter.mp hp
    rcases List.mem_append.mp hp'.1 with early | final
    · refine List.mem_append_right _ (List.mem_map.mpr ⟨p.command, ?_, rfl⟩)
      exact List.mem_append_right _
        (List.mem_map_of_mem (List.mem_filter.mpr ⟨hp, steps p early⟩))
    · rw [List.mem_singleton.mp final, label]
      exact own

theorem Posting.named {l l' : Ledger} (post : l.Posting l') (balanced : l.Balanced) (h : l.Named) :
    l'.Named := by
  cases post with
  | send head => exact h
  | finish head own =>
      intro r hr id gone
      rcases List.mem_cons.mp hr with rfl | hr
      · exact absurd gone (own id)
      · exact h r hr id gone
  | release next => exact named_release h balanced next
  | take row => exact named_take h row

theorem rooted_release {l : Ledger} (h : l.Rooted) {p : Part} {rest : List Part}
    (next : l.upcoming p.command.address = p :: rest) : (l.release p rest).Rooted := by
  refine ⟨h.address, h.last, fun a some => ?_⟩
  show ∃ x ∈ l.intents,
    (∀ q ∈ Function.update l.upcoming p.command.address rest a, q.command ∈ x.row) ∧
      ∀ q, (Function.update l.upcoming p.command.address rest a).getLast? = _ → _
  have some : Function.update l.upcoming p.command.address rest a ≠ [] := some
  by_cases same : a = p.command.address
  · subst same
    rw [Function.update_self] at some ⊢
    obtain ⟨x, hx, row, last⟩ := h.upcoming _ (next ▸ List.cons_ne_nil _ _)
    rw [next] at row last
    refine ⟨x, hx, fun q hq => row q (List.mem_cons_of_mem _ hq), fun q hq => last q ?_⟩
    obtain ⟨init, rfl⟩ := List.getLast?_eq_some_iff.mp hq
    exact List.getLast?_concat (l := p :: init)
  · rw [Function.update_of_ne same] at some ⊢
    exact h.upcoming a some

theorem rooted_take {l : Ledger} (h : l.Rooted) {c : Command} {ps : List Part} (row : IsRow c ps) :
    ((l.enter c ps).submitAll (ps.filter Part.isAtOnce)).Rooted := by
  obtain ⟨front, last, rfl, id, -, -, alone⟩ := row.last
  rw [submitAll_frame]
  constructor
  · intro x hx
    rcases List.mem_append.mp hx with hx | hx
    · exact h.address x hx
    · obtain rfl := List.mem_singleton.mp hx
      intro y hy
      obtain ⟨p, hp, rfl⟩ := List.mem_map.mp hy
      exact row.address p hp
  · intro x hx
    rcases List.mem_append.mp hx with hx | hx
    · exact h.last x hx
    · obtain rfl := List.mem_singleton.mp hx
      exact ⟨last.command, by simp, id⟩
  · intro a some
    have some : Function.update l.upcoming c.address
        ((front ++ [last]).filter (·.moment.isSome)) a ≠ [] := some
    show ∃ x ∈ l.intents ++ [_],
      (∀ q ∈ Function.update l.upcoming c.address _ a, q.command ∈ x.row) ∧
        ∀ q, (Function.update l.upcoming c.address _ a).getLast? = _ → _
    by_cases same : a = c.address
    · subst same
      rw [Function.update_self] at some ⊢
      refine ⟨_, List.mem_append_right _ (List.mem_singleton_self _), fun q hq =>
        List.mem_map_of_mem (List.mem_filter.mp hq).1, fun q hq => ?_⟩
      -- the last part is still to come, or the row was empty but for it
      cases moment : last.moment with
      | none => simp [alone moment, moment] at some
      | some t =>
          rw [List.filter_append, List.filter_cons_of_pos (by simp [moment]), List.filter_nil,
            List.getLast?_append] at hq
          cases hq
          exact id
    · rw [Function.update_of_ne same] at some ⊢
      obtain ⟨x, hx, inside, last⟩ := h.upcoming a some
      exact ⟨x, List.mem_append_left _ hx, inside, last⟩

theorem Posting.rooted {l l' : Ledger} (post : l.Posting l') (h : l.Rooted) : l'.Rooted := by
  cases post with
  | send head => exact ⟨h.address, h.last, h.upcoming⟩
  | finish head own => exact ⟨h.address, h.last, h.upcoming⟩
  | release next => exact rooted_release h next
  | take row => exact rooted_take h row

/-! ## What is told stays told -/

/-- The ledger goes on from an earlier one. -/
structure Extends (l l' : Ledger) : Prop where
  intents : l.intents <+: l'.intents
  stepped : l.stepped <+: l'.stepped
  sent : l.sent <+: l'.sent
  resolutions : l.resolutions <:+ l'.resolutions

theorem Extends.refl (l : Ledger) : l.Extends l :=
  ⟨List.prefix_refl _, List.prefix_refl _, List.prefix_refl _, List.suffix_refl _⟩

theorem Extends.trans {l l' l'' : Ledger} (h : l.Extends l') (h' : l'.Extends l'') : l.Extends l'' :=
  ⟨h.intents.trans h'.intents, h.stepped.trans h'.stepped, h.sent.trans h'.sent,
    h.resolutions.trans h'.resolutions⟩

theorem extends_submit (l : Ledger) (c : Command) : l.Extends (l.submit c) :=
  ⟨List.prefix_refl _, List.prefix_refl _, List.prefix_refl _, List.suffix_append _ _⟩

theorem extends_submitAll (l : Ledger) (ps : List Part) : l.Extends (l.submitAll ps) := by
  induction ps generalizing l with
  | nil => exact Extends.refl l
  | cons p ps ih => exact (extends_submit l p.command).trans (ih _)

theorem Posting.extends {l l' : Ledger} (post : l.Posting l') : l.Extends l' := by
  cases post with
  | send head =>
      exact ⟨List.prefix_refl _, List.prefix_refl _, List.prefix_append _ _, List.suffix_refl _⟩
  | finish head own =>
      exact ⟨List.prefix_refl _, List.prefix_refl _, List.prefix_refl _, List.suffix_cons _ _⟩
  | @release p rest next =>
      refine Extends.trans ?_ (extends_submit _ p.command)
      exact ⟨List.prefix_refl _, List.prefix_append _ _, List.prefix_refl _, List.suffix_refl _⟩
  | @take c ps row =>
      refine Extends.trans ?_ (extends_submitAll _ _)
      exact ⟨List.prefix_append _ _, List.prefix_append _ _, List.prefix_refl _,
        List.suffix_append _ _⟩

end Ledger

end Lighting
