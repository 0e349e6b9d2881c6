import Lighting.Proofs.Dispatcher.Numbering
import Lighting.Proofs.Dispatcher.OneEnd

/-!
# The latest command wins

The commands for an address are meant in an order: by the command that was taken, and within its ramp
by the step.  A `Slot` is a place in this order.  Lines may be repeated, interrupted and sent again,
and steps of a ramp come long after the ramp was asked for; still the lines for an address never go
back in the order, and a command only gives way to a later one.

### One chain for each address

What was sent for an address, what stands on the line for it, and what is still to come for it form
one chain of slots (`Chain`): the lines sent may repeat a slot, all else goes strictly up.  A posting
takes slots off the front of what is to come or adds a new row at the end, so the chain is kept.

Identifiers play no part in this.  Two commands may bear the same one; a slot says which is which.
-/

namespace Lighting

/-- A place in the order of all commands. -/
structure Slot where
  /-- The position among the commands that were taken. -/
  intent : Nat
  /-- The position in the row. -/
  step : Nat
  /-- What stands there. -/
  command : Command

namespace Slot

/-- The slot comes before the other one: its command was taken earlier, or it is an earlier step of
the same. -/
def Before (s t : Slot) : Prop := s.intent < t.intent ∨ s.intent = t.intent ∧ s.step < t.step

/-- The slot is one of these rows. -/
def Of (s : Slot) (intents : List Intent) : Prop :=
  ∃ x, intents[s.intent]? = some x ∧ x.row[s.step]? = some s.command

theorem Before.asymm {s t : Slot} (h : s.Before t) : ¬ t.Before s := by
  unfold Before at *
  omega

theorem Before.irrefl (s : Slot) : ¬ s.Before s := by
  unfold Before
  omega

theorem Of.lt {s : Slot} {intents : List Intent} (h : s.Of intents) : s.intent < intents.length := by
  obtain ⟨x, hx, -⟩ := h
  exact (List.getElem?_eq_some_iff.mp hx).1

theorem Of.append {s : Slot} {intents : List Intent} (h : s.Of intents) (more : List Intent) :
    s.Of (intents ++ more) := by
  have bound := h.lt
  obtain ⟨x, hx, row⟩ := h
  exact ⟨x, by rw [List.getElem?_append_left bound, hx], row⟩

/-- While no identifier occurs twice, a command tells its slot. -/
theorem Of.ext {s t : Slot} {intents : List Intent}
    (nodup : ((intents.flatMap Intent.row).map Command.id).Nodup) (hs : s.Of intents)
    (ht : t.Of intents) (same : s.command.id = t.command.id) : s = t := by
  obtain ⟨i, k, c⟩ := s
  obtain ⟨j, m, e⟩ := t
  obtain ⟨x, hx, hc⟩ := hs
  obtain ⟨y, hy, he⟩ := ht
  dsimp only at hx hy hc he same
  rw [List.map_flatMap, List.nodup_flatMap] at nodup
  obtain ⟨inner, apart⟩ := nodup
  have member {z : Intent} {n : Nat} {u : Command} (there : z.row[n]? = some u) :
      u.id ∈ z.row.map Command.id :=
    List.mem_map_of_mem (List.mem_of_getElem? there)
  -- two rows have no identifier in common
  have different {i j : Nat} {x y : Intent} (hx : intents[i]? = some x) (hy : intents[j]? = some y)
      (lt : i < j) (hc : c.id ∈ x.row.map Command.id) : c.id ∉ y.row.map Command.id := by
    obtain ⟨hi, rfl⟩ := List.getElem?_eq_some_iff.mp hx
    obtain ⟨hj, rfl⟩ := List.getElem?_eq_some_iff.mp hy
    exact List.pairwise_iff_getElem.mp apart i j hi hj lt hc
  obtain lt | rfl | lt := Nat.lt_trichotomy i j
  · exact absurd (same ▸ member he) (different hx hy lt (member hc))
  · cases hx.symm.trans hy
    have hk : k < (x.row.map Command.id).length := by
      rw [List.length_map]
      exact (List.getElem?_eq_some_iff.mp hc).1
    obtain rfl : k = m := by
      refine (List.getElem?_inj hk (inner x (List.mem_of_getElem? hx))).mp ?_
      rw [List.getElem?_map, List.getElem?_map, hc, he, Option.map_some, Option.map_some, same]
    cases hc.symm.trans he
    rfl
  · exact absurd (member hc) (different hy hx lt (same ▸ member he))

/-- The slots of a row of parts, from the `k`-th on. -/
def row (n : Nat) : (k : Nat) → List Part → List Slot
  | _, [] => []
  | k, p :: ps => ⟨n, k, p.command⟩ :: row n (k + 1) ps

theorem map_command_row (n k : Nat) (ps : List Part) :
    (row n k ps).map Slot.command = ps.map Part.command := by
  induction ps generalizing k with
  | nil => rfl
  | cons p ps ih => rw [row, List.map_cons, List.map_cons, ih]

theorem mem_row {n k : Nat} {ps : List Part} {s : Slot} (h : s ∈ row n k ps) :
    s.intent = n ∧ ∃ i p, s.step = k + i ∧ ps[i]? = some p ∧ s.command = p.command := by
  induction ps generalizing k with
  | nil => cases h
  | cons p ps ih =>
      rcases List.mem_cons.mp h with rfl | h
      · exact ⟨rfl, 0, p, rfl, rfl, rfl⟩
      · obtain ⟨intent, i, q, step, there, command⟩ := ih h
        exact ⟨intent, i + 1, q, by omega, by simpa using there, command⟩

theorem pairwise_row (n k : Nat) (ps : List Part) : (row n k ps).Pairwise Before := by
  induction ps generalizing k with
  | nil => exact List.Pairwise.nil
  | cons p ps ih =>
      refine List.pairwise_cons.mpr ⟨?_, ih (k + 1)⟩
      intro s hs
      obtain ⟨intent, i, q, step, -⟩ := mem_row hs
      exact Or.inr ⟨intent.symm, by simp only; omega⟩

end Slot

namespace Command

theorem filter_put_of_ne {c : Command} {a : Address} (other : c.address ≠ a) (line : List Command) :
    (c.put line).filter (·.address = a) = line.filter (·.address = a) := by
  rcases c.put_cases line with ⟨before, old, after, rfl, same, -, put, -⟩ | ⟨-, put, -⟩
  · have apart : old.address ≠ a := by
      intro same'
      exact other (same ▸ same')
    rw [put]
    simp [List.filter_append, other, apart]
  · rw [put]
    simp [List.filter_append, other]

theorem filter_put_self {c : Command} {line : List Command}
    (nodup : (line.map Command.address).Nodup) :
    (c.put line).filter (·.address = c.address) = [c] := by
  have none {cs : List Command} (h : ∀ x ∈ cs, x.address ≠ c.address) :
      cs.filter (·.address = c.address) = [] :=
    List.filter_eq_nil_iff.mpr fun x hx => by simpa using h x hx
  rcases c.put_cases line with ⟨before, old, after, rfl, same, others, put, -⟩ | ⟨others, put, -⟩
  · -- whoever else stands on the line stands there for another address
    have rest : ∀ x ∈ after, x.address ≠ c.address := by
      intro x hx same'
      rw [List.map_append, List.map_cons] at nodup
      have apart := (List.nodup_cons.mp (List.nodup_append.mp nodup).2.1).1
      exact apart (same.trans same'.symm ▸ List.mem_map_of_mem hx)
    rw [put, List.filter_append, none others, List.filter_cons_of_pos (by simp), none rest,
      List.nil_append]
  · rw [put, List.filter_append, none others, List.filter_cons_of_pos (by simp), List.filter_nil,
      List.nil_append]

theorem mem_put_self (c : Command) (line : List Command) : c ∈ c.put line := by
  rcases c.put_cases line with ⟨_, _, _, -, -, -, put, -⟩ | ⟨-, put, -⟩ <;> simp [put]

theorem mem_put_of_ne {c x : Command} {line : List Command} (hx : x ∈ line)
    (other : x.address ≠ c.address) : x ∈ c.put line := by
  rcases c.put_cases line with ⟨before, old, after, rfl, same, -, put, -⟩ | ⟨-, put, -⟩
  · have apart : x ≠ old := by
      rintro rfl
      exact other same
    simp only [put, List.mem_append, List.mem_cons, apart, false_or] at hx ⊢
    tauto
  · rw [put]
    exact List.mem_append_left _ hx

theorem mem_of_displaced {c old : Command} {line : List Command} (h : c.displaced line = some old) :
    old ∈ line.filter (·.address = c.address) := by
  have same : old.address = c.address := by simpa using List.find?_some h
  exact List.mem_filter.mpr ⟨List.mem_of_find?_eq_some h, by simpa using same⟩

end Command

/-- A row is what goes on the line at once, followed by what comes later. -/
theorem IsRow.eq_append {c : Command} {ps : List Part} (row : IsRow c ps) :
    ps = ps.filter Part.isAtOnce ++ ps.filter (·.moment.isSome) := by
  have early := row.early
  clear row
  induction ps with
  | nil => rfl
  | cons p ps ih =>
      obtain ⟨first, rest⟩ := List.pairwise_cons.mp early
      cases moment : p.moment with
      | none =>
          rw [List.filter_cons_of_pos (by simp [Part.isAtOnce, moment]),
            List.filter_cons_of_neg (by simp [moment]), List.cons_append, ← ih rest]
      | some t =>
          -- after a part that comes later all parts come later
          have later : ∀ q ∈ ps, q.moment.isSome = true := by
            intro q hq
            by_contra none
            have := first q hq (by simpa using none)
            rw [moment] at this
            cases this
          have all : ps.filter (·.moment.isSome) = ps := List.filter_eq_self.mpr later
          have none : ps.filter Part.isAtOnce = [] := by
            apply List.filter_eq_nil_iff.mpr
            intro q hq
            simpa [Part.isAtOnce, Option.isSome_iff_ne_none] using later q hq
          rw [List.filter_cons_of_neg (by simp [Part.isAtOnce, moment]),
            List.filter_cons_of_pos (by simp [moment]), all, none, List.nil_append]

namespace Ledger

/-- What was sent for an address, what stands on the line for it and what is still to come for it, as
slots in order. -/
structure Chain (l : Ledger) (a : Address) (sent held due : List Slot) : Prop where
  /-- The commands that were sent. -/
  sent_commands : sent.map Slot.command = l.sent.filter (·.address = a)
  /-- The commands on the line. -/
  held_commands : held.map Slot.command = l.line.filter (·.address = a)
  /-- The commands to come. -/
  due_commands : due.map Slot.command = (l.upcoming a).map Part.command
  /-- All of them are slots of the rows. -/
  slots : ∀ s ∈ sent ++ (held ++ due), s.Of l.intents
  /-- What was sent never went back. -/
  climbs : sent.Pairwise fun s t => ¬ t.Before s
  /-- What is on the line or to come is no earlier than what was sent. -/
  past : ∀ s ∈ sent, ∀ t ∈ held ++ due, ¬ t.Before s
  /-- What is on the line comes before what is to come, and that is in order. -/
  order : (held ++ due).Pairwise Slot.Before

/-- What was sent for an address is part of a chain. -/
def Climbs (l : Ledger) (a : Address) : Prop := ∃ sent held due, l.Chain a sent held due

/-- Whoever gave way gave way to a later command for the same address. -/
def Yields (l : Ledger) : Prop :=
  ∀ r ∈ l.resolutions, ∀ heir, r.outcome = .superseded heir →
    ∃ s t : Slot, s.Of l.intents ∧ t.Of l.intents ∧ s.Before t ∧ s.command.label = r.label ∧
      t.command.label = ⟨r.address, heir⟩

/-- A ledger that shows the same of an address has the same chain. -/
theorem Chain.congr {l l' : Ledger} {a : Address} {sent held due : List Slot}
    (h : l.Chain a sent held due) (sent' : l'.sent.filter (·.address = a) =
      l.sent.filter (·.address = a))
    (line : l'.line.filter (·.address = a) = l.line.filter (·.address = a))
    (upcoming : l'.upcoming a = l.upcoming a) (intents : ∃ more, l'.intents = l.intents ++ more) :
    l'.Chain a sent held due where
  sent_commands := h.sent_commands.trans sent'.symm
  held_commands := h.held_commands.trans line.symm
  due_commands := upcoming ▸ h.due_commands
  slots := by
    obtain ⟨more, eq⟩ := intents
    intro s hs
    exact eq ▸ (h.slots s hs).append more
  climbs := h.climbs
  past := h.past
  order := h.order

/-- A command is submitted whose slot lies between what is on the line and what is to come. -/
theorem Chain.submit {l : Ledger} {c : Command} {sent held due : List Slot}
    (h : l.Chain c.address sent held due) (nodup : (l.line.map Command.address).Nodup) {s : Slot}
    (slot : s.Of l.intents) (command : s.command = c) (past : ∀ x ∈ sent, ¬ s.Before x)
    (next : ∀ t ∈ due, s.Before t) : (l.submit c).Chain c.address sent [s] due where
  sent_commands := h.sent_commands
  held_commands := by
    show _ = (c.put l.line).filter _
    rw [Command.filter_put_self nodup, List.map_singleton, command]
  due_commands := h.due_commands
  slots := by
    intro x hx
    rcases List.mem_append.mp hx with hx | hx
    · exact h.slots x (List.mem_append_left _ hx)
    · rcases List.mem_cons.mp hx with rfl | hx
      · exact slot
      · exact h.slots x (List.mem_append_right _ (List.mem_append_right _ hx))
  climbs := h.climbs
  past := by
    intro x hx t ht
    rcases List.mem_cons.mp ht with rfl | ht
    · exact past x hx
    · exact h.past x hx t (List.mem_append_right _ ht)
  order := List.pairwise_cons.mpr ⟨next, (List.pairwise_append.mp h.order).2.1⟩

/-- Whoever gives way to a later command did so rightly. -/
theorem Yields.submit {l : Ledger} (h : l.Yields) {c : Command} {sent held due : List Slot}
    (chain : l.Chain c.address sent held due) {s : Slot} (slot : s.Of l.intents)
    (command : s.command = c) (later : ∀ x ∈ held, x.Before s) : (l.submit c).Yields := by
  intro r hr heir gone
  rcases List.mem_append.mp hr with hr | hr
  · obtain ⟨old, displaced, rfl⟩ := Option.map_eq_some_iff.mp (Option.mem_toList.mp hr)
    cases gone
    have member := Command.mem_of_displaced displaced
    rw [← chain.held_commands] at member
    obtain ⟨x, hx, rfl⟩ := List.mem_map.mp member
    have same : x.command.address = c.address := by simpa using List.find?_some displaced
    refine ⟨x, s, chain.slots x (List.mem_append_right _ (List.mem_append_left _ hx)), slot,
      later x hx, rfl, ?_⟩
    show (⟨s.command.address, s.command.id⟩ : Label) = ⟨x.command.address, c.id⟩
    rw [command, same]
  · exact h r hr heir gone

/-- The lines for every address climb, and everyone gives way to a later command. -/
structure InOrder (l : Ledger) : Prop where
  climbs : ∀ a, l.Climbs a
  yields : l.Yields

/-! ## Postings keep the order -/

theorem inOrder_send {l : Ledger} (h : l.InOrder) {c : Command} {rest : List Command}
    (head : l.line = c :: rest) : InOrder { l with sent := l.sent ++ [c] } := by
  refine ⟨?_, h.yields⟩
  intro a
  obtain ⟨sent, held, due, chain⟩ := h.climbs a
  by_cases same : c.address = a
  · -- the head of the line is the first slot that is held
    have first := chain.held_commands
    rw [head, List.filter_cons_of_pos (by simpa using same)] at first
    obtain ⟨s, held, rfl, rfl, others⟩ := List.map_eq_cons_iff.mp first
    have order := chain.order
    rw [List.cons_append, List.pairwise_cons] at order
    refine ⟨sent ++ [s], s :: held, due, ?_, chain.held_commands, chain.due_commands, ?_, ?_, ?_,
      chain.order⟩
    · rw [List.map_append, chain.sent_commands]
      simp [same]
    · intro x hx
      apply chain.slots
      simp only [List.mem_append, List.mem_cons, List.not_mem_nil] at hx ⊢
      tauto
    · refine List.pairwise_append.mpr ⟨chain.climbs, List.pairwise_singleton _ _, ?_⟩
      intro x hx t ht
      rw [List.mem_singleton.mp ht]
      exact chain.past x hx s List.mem_cons_self
    · intro x hx t ht
      rcases List.mem_append.mp hx with hx | hx
      · exact chain.past x hx t ht
      · rw [List.mem_singleton.mp hx]
        rcases List.mem_cons.mp ht with rfl | ht
        · exact Slot.Before.irrefl t
        · exact (order.1 t ht).asymm
  · refine ⟨sent, held, due, chain.congr ?_ rfl rfl ⟨[], (List.append_nil _).symm⟩⟩
    simp [List.filter_append, same]

theorem inOrder_finish {l : Ledger} (h : l.InOrder) {c : Command} {rest : List Command}
    (head : l.line = c :: rest) {outcome : Outcome} (own : ∀ id, outcome ≠ .superseded id) :
    InOrder { l with
      line := rest
      resolutions := ⟨c.id, c.address, outcome⟩ :: l.resolutions } := by
  constructor
  · intro a
    obtain ⟨sent, held, due, chain⟩ := h.climbs a
    by_cases same : c.address = a
    · have first := chain.held_commands
      rw [head, List.filter_cons_of_pos (by simpa using same)] at first
      obtain ⟨s, held, rfl, rfl, others⟩ := List.map_eq_cons_iff.mp first
      refine ⟨sent, held, due, chain.sent_commands, others, chain.due_commands, ?_, chain.climbs, ?_,
        (List.pairwise_cons.mp chain.order).2⟩
      · intro x hx
        apply chain.slots
        simp only [List.mem_append, List.mem_cons] at hx ⊢
        tauto
      · intro x hx t ht
        exact chain.past x hx t (List.mem_cons_of_mem _ ht)
    · refine ⟨sent, held, due, chain.congr rfl ?_ rfl ⟨[], (List.append_nil _).symm⟩⟩
      show rest.filter _ = _
      rw [head, List.filter_cons_of_neg (by simpa using same)]
  · intro r hr heir gone
    rcases List.mem_cons.mp hr with rfl | hr
    · exact absurd gone (own heir)
    · exact h.yields r hr heir gone

theorem inOrder_release {l : Ledger} (h : l.InOrder) (nodup : (l.line.map Command.address).Nodup)
    {p : Part} {rest : List Part} (next : l.upcoming p.command.address = p :: rest) :
    (l.release p rest).InOrder := by
  obtain ⟨sent, held, due, chain⟩ := h.climbs p.command.address
  have first := chain.due_commands
  rw [next, List.map_cons] at first
  obtain ⟨s, due, rfl, command, others⟩ := List.map_eq_cons_iff.mp first
  obtain ⟨inner, order, apart⟩ := List.pairwise_append.mp chain.order
  have slot : s.Of l.intents := chain.slots s (by simp)
  -- the step that falls due is taken off the front of what is to come
  have before : Chain { l with
      upcoming := Function.update l.upcoming p.command.address rest
      stepped := l.stepped ++ if p.origin.isIntermediate then [p.command] else [] }
      p.command.address sent held due := by
    refine ⟨chain.sent_commands, chain.held_commands, ?_, ?_, chain.climbs, ?_, ?_⟩
    · show _ = (Function.update l.upcoming p.command.address rest p.command.address).map _
      rw [Function.update_self, others]
    · intro x hx
      apply chain.slots
      simp only [List.mem_append, List.mem_cons] at hx ⊢
      tauto
    · intro x hx t ht
      apply chain.past x hx
      simp only [List.mem_append, List.mem_cons] at ht ⊢
      tauto
    · refine List.pairwise_append.mpr ⟨inner, (List.pairwise_cons.mp order).2, ?_⟩
      intro x hx t ht
      exact apart x hx t (List.mem_cons_of_mem _ ht)
  have yields : Yields { l with
      upcoming := Function.update l.upcoming p.command.address rest
      stepped := l.stepped ++ if p.origin.isIntermediate then [p.command] else [] } := h.yields
  constructor
  · intro a
    by_cases same : p.command.address = a
    · subst same
      refine ⟨sent, [s], due, before.submit nodup slot command ?_ (List.pairwise_cons.mp order).1⟩
      intro x hx
      exact chain.past x hx s (by simp)
    · obtain ⟨sent, held, due, chain⟩ := h.climbs a
      refine ⟨sent, held, due, chain.congr rfl (Command.filter_put_of_ne same l.line) ?_
        ⟨[], (List.append_nil _).symm⟩⟩
      exact Function.update_of_ne (Ne.symm same) _ _
  · exact yields.submit before slot command fun x hx => apart x hx s List.mem_cons_self

/-- The parts of a row that go on the line at once are submitted in order. -/
theorem inOrder_submits {n k : Nat} {a : Address} {now : List Part} {l : Ledger}
    {sent held due : List Slot} (nodup : (l.line.map Command.address).Nodup)
    (chain : l.Chain a sent held due) (yields : l.Yields) (others : ∀ b, b ≠ a → l.Climbs b)
    (address : ∀ p ∈ now, p.command.address = a)
    (slot : ∀ i p, now[i]? = some p → Slot.Of ⟨n, k + i, p.command⟩ l.intents)
    (sent_old : ∀ x ∈ sent, x.intent < n)
    (held_old : ∀ x ∈ held, x.intent < n ∨ x.intent = n ∧ x.step < k)
    (due_new : ∀ x ∈ due, x.intent = n ∧ k + now.length ≤ x.step) :
    (l.submitAll now).InOrder := by
  induction now generalizing l k held with
  | nil =>
      refine ⟨fun b => ?_, yields⟩
      by_cases same : b = a
      · subst same
        exact ⟨sent, held, due, chain⟩
      · exact others b same
  | cons p now ih =>
      obtain ⟨rfl, address⟩ := List.forall_mem_cons.mp address
      have here : Slot.Of ⟨n, k, p.command⟩ l.intents := slot 0 p rfl
      have submitted : (l.submit p.command).Chain p.command.address sent [⟨n, k, p.command⟩] due := by
        apply chain.submit nodup here rfl
        · intro x hx
          have := sent_old x hx
          unfold Slot.Before
          simp only
          omega
        · intro t ht
          have := due_new t ht
          rw [List.length_cons] at this
          exact Or.inr ⟨this.1.symm, by simp only; omega⟩
      rw [submitAll_cons]
      refine ih (k := k + 1) (Command.nodup_put nodup p.command) submitted
        (yields.submit chain here rfl fun x hx => held_old x hx) ?_ address ?_ ?_ ?_
      · intro b other
        obtain ⟨sent, held, due, chain⟩ := others b other
        exact ⟨sent, held, due, chain.congr rfl (Command.filter_put_of_ne (Ne.symm other) l.line) rfl
          ⟨[], (List.append_nil _).symm⟩⟩
      · intro i q there
        have := slot (i + 1) q (by simpa using there)
        rwa [show k + (i + 1) = k + 1 + i by omega] at this
      · intro x hx
        rw [List.mem_singleton.mp hx]
        exact Or.inr ⟨rfl, Nat.lt_succ_self k⟩
      · intro x hx
        have := due_new x hx
        rw [List.length_cons] at this
        omega

/-- The parts of a row that is entered are slots. -/
theorem slot_enter (l : Ledger) (c : Command) {ps : List Part} {i : Nat} {p : Part}
    (there : ps[i]? = some p) :
    Slot.Of ⟨l.intents.length, i, p.command⟩ (l.enter c ps).intents := by
  refine ⟨⟨c, ps.map Part.command⟩, ?_, ?_⟩
  · show (l.intents ++ [(⟨c, ps.map Part.command⟩ : Intent)])[l.intents.length]? = _
    rw [List.getElem?_concat_length]
  · simp [there]

/-- The steps still to come are those of the new row, and what is on the line is older. -/
theorem Chain.enter {l : Ledger} {c : Command} {now later : List Part} {sent held due : List Slot}
    (chain : l.Chain c.address sent held due) (all : (now ++ later).filter (·.moment.isSome) = later) :
    (l.enter c (now ++ later)).Chain c.address sent held
      (Slot.row l.intents.length now.length later) := by
  have old (x : Slot) (hx : x ∈ sent ++ (held ++ due)) : x.intent < l.intents.length :=
    (chain.slots x hx).lt
  have new (x : Slot) (hx : x ∈ Slot.row l.intents.length now.length later) :
      x.intent = l.intents.length ∧ x.Of (l.enter c (now ++ later)).intents := by
    obtain ⟨intent, i, p, step, there, command⟩ := Slot.mem_row hx
    have place : (now ++ later)[now.length + i]? = some p := by
      rw [List.getElem?_append_right (Nat.le_add_right _ _)]
      simpa using there
    have slot := l.slot_enter c place
    rw [← step, ← intent, ← command] at slot
    exact ⟨intent, slot⟩
  refine ⟨chain.sent_commands, chain.held_commands, ?_, ?_, chain.climbs, ?_, ?_⟩
  · show _ = (Function.update l.upcoming c.address _ c.address).map _
    rw [Function.update_self, Slot.map_command_row, all]
  · intro x hx
    simp only [List.mem_append] at hx
    rcases hx with hx | hx | hx
    · exact (chain.slots x (by simp [hx])).append _
    · exact (chain.slots x (by simp [hx])).append _
    · exact (new x hx).2
  · intro x hx t ht
    rcases List.mem_append.mp ht with ht | ht
    · exact chain.past x hx t (List.mem_append_left _ ht)
    · have := old x (List.mem_append_left _ hx)
      have := (new t ht).1
      unfold Slot.Before
      omega
  · refine List.pairwise_append.mpr
      ⟨(List.pairwise_append.mp chain.order).1, Slot.pairwise_row _ _ _, ?_⟩
    intro x hx t ht
    have := old x (by simp [hx])
    have := (new t ht).1
    exact Or.inl (by omega)

/-- A ramp that is running gives way to the command that is entered. -/
theorem Yields.enter {l : Ledger} (h : l.Yields) (tidy : l.Tidy) {c : Command} {ps : List Part}
    (row : IsRow c ps) {sent held due : List Slot} (chain : l.Chain c.address sent held due) :
    (l.enter c ps).Yields := by
  intro r hr heir gone
  rcases List.mem_append.mp hr with hr | hr
  · -- the ramp is known by its last step, the last of what was to come
    obtain ⟨p, last, rfl⟩ := Option.map_eq_some_iff.mp (Option.mem_toList.mp hr)
    cases gone
    have member := List.mem_of_getLast? last
    obtain ⟨s, hs, command⟩ := List.mem_map.mp
      (chain.due_commands ▸ List.mem_map_of_mem (f := Part.command) member)
    have slot : s.Of l.intents := chain.slots s (by simp [hs])
    obtain ⟨front, final, eq, label, -⟩ := row.split
    have there : ps[front.length]? = some final := by simp [eq]
    refine ⟨s, _, slot.append _, l.slot_enter c there, Or.inl slot.lt, ?_, label⟩
    show s.command.label = ⟨c.address, p.command.id⟩
    rw [command, Command.label, tidy.address c.address p member]
  · obtain ⟨s, t, hs, ht, rest⟩ := h r hr heir gone
    exact ⟨s, t, hs.append _, ht.append _, rest⟩

theorem inOrder_take {l : Ledger} (h : l.InOrder) (tidy : l.Tidy) {c : Command} {ps : List Part}
    (row : IsRow c ps) : ((l.enter c ps).submitAll (ps.filter Part.isAtOnce)).InOrder := by
  obtain ⟨sent, held, due, chain⟩ := h.climbs c.address
  have yields := h.yields.enter tidy row chain
  have parts := row.eq_append
  generalize now_eq : ps.filter Part.isAtOnce = now at parts ⊢
  generalize later_eq : ps.filter (·.moment.isSome) = later at parts
  subst parts
  have others (b : Address) (other : b ≠ c.address) : (l.enter c (now ++ later)).Climbs b := by
    obtain ⟨sent, held, due, chain⟩ := h.climbs b
    exact ⟨sent, held, due, chain.congr rfl rfl (Function.update_of_ne other _ _) ⟨_, rfl⟩⟩
  refine inOrder_submits (n := l.intents.length) (k := 0) tidy.places (chain.enter later_eq) yields
    others ?_ ?_ ?_ ?_ ?_
  · intro p hp
    exact row.address p (List.mem_append_left _ hp)
  · intro i p there
    rw [Nat.zero_add]
    apply slot_enter
    rw [List.getElem?_append_left (List.getElem?_eq_some_iff.mp there).1, there]
  · intro x hx
    exact (chain.slots x (List.mem_append_left _ hx)).lt
  · intro x hx
    exact Or.inl (chain.slots x (by simp [hx])).lt
  · intro x hx
    obtain ⟨intent, i, p, step, -⟩ := Slot.mem_row hx
    exact ⟨intent, by omega⟩

/-- **Every posting keeps the order.** -/
theorem Posting.inOrder {l l' : Ledger} (post : l.Posting l') (tidy : l.Tidy) (h : l.InOrder) :
    l'.InOrder := by
  cases post with
  | send head => exact inOrder_send h head
  | finish head own => exact inOrder_finish h head own
  | release next => exact inOrder_release h tidy.places next
  | take row => exact inOrder_take h tidy row

/-! ## The most recent command -/

end Ledger

/-- Whether another command has taken the place of this one. -/
def Resolution.gaveWay (r : Resolution) : Bool :=
  match r.outcome with
  | .superseded _ => true
  | _ => false

theorem Resolution.gaveWay_of_own {r : Resolution} (own : ∀ heir, r.outcome ≠ .superseded heir) :
    r.gaveWay = false := by
  unfold gaveWay
  split
  · rename_i heir gone
    exact absurd gone (own heir)
  · rfl

namespace Ledger

/-- The command that was taken last for an address. -/
def latest (l : Ledger) (a : Address) : Option Intent :=
  (l.intents.filter (·.command.address = a)).getLast?

theorem address_of_latest {l : Ledger} {a : Address} {x : Intent} (h : l.latest a = some x) :
    x ∈ l.intents ∧ x.command.address = a := by
  have := List.mem_filter.mp (List.mem_of_getLast? h)
  exact ⟨this.1, by simpa using this.2⟩

/-- A command is what the running ramp of an address ends with, or no ramp is running there and the
command stands on the line or has ended of its own. -/
def Present (l : Ledger) (a : Address) (c : Command) : Prop :=
  (∃ p, (l.upcoming a).getLast? = some p ∧ p.command.id = c.id) ∨
    l.upcoming a = [] ∧
      ((∃ x ∈ l.line, x.label = c.label) ∨
        ∃ r ∈ l.resolutions, r.label = c.label ∧ r.gaveWay = false)

/-- The command that was taken last for an address is present. -/
def Stands (l : Ledger) : Prop := ∀ a x, l.latest a = some x → l.Present a x.command

/-- What happens for other addresses leaves a command where it is. -/
theorem Present.frame {l l' : Ledger} {a : Address} {c : Command} (h : l.Present a c)
    (address : c.address = a) (upcoming : l'.upcoming a = l.upcoming a)
    (line : ∀ x ∈ l.line, x.address = a → x ∈ l'.line)
    (told : l.resolutions ⊆ l'.resolutions) : l'.Present a c := by
  unfold Present
  rw [upcoming]
  rcases h with ramp | ⟨none, ⟨x, hx, label⟩ | ⟨r, hr, label, own⟩⟩
  · exact Or.inl ramp
  · have same : x.address = a := (congrArg Label.address label).trans address
    exact Or.inr ⟨none, Or.inl ⟨x, line x hx same, label⟩⟩
  · exact Or.inr ⟨none, Or.inr ⟨r, told hr, label, own⟩⟩

theorem stands_finish {l : Ledger} (h : l.Stands) {c : Command} {rest : List Command}
    (head : l.line = c :: rest) {outcome : Outcome} (own : ∀ id, outcome ≠ .superseded id) :
    Stands { l with
      line := rest
      resolutions := ⟨c.id, c.address, outcome⟩ :: l.resolutions } := by
  intro a x latest
  rcases h a x latest with ramp | ⟨none, ⟨y, hy, label⟩ | ⟨r, hr, rest⟩⟩
  · exact Or.inl ramp
  · refine Or.inr ⟨none, ?_⟩
    rw [head] at hy
    rcases List.mem_cons.mp hy with rfl | hy
    · exact Or.inr ⟨_, List.mem_cons_self, label, Resolution.gaveWay_of_own own⟩
    · exact Or.inl ⟨y, hy, label⟩
  · exact Or.inr ⟨none, Or.inr ⟨r, List.mem_cons_of_mem _ hr, rest⟩⟩

theorem stands_release {l : Ledger} (h : l.Stands) {p : Part} {rest : List Part}
    (next : l.upcoming p.command.address = p :: rest) : (l.release p rest).Stands := by
  intro a x latest
  have address := (address_of_latest latest).2
  have old := h a x latest
  by_cases same : a = p.command.address
  · subst same
    have steps : (l.release p rest).upcoming p.command.address = rest := Function.update_self _ _ _
    rcases old with ⟨q, last, id⟩ | ⟨none, -⟩
    · rw [next] at last
      unfold Present
      rw [steps]
      cases rest with
      | nil =>
          -- the last step goes on the line
          obtain rfl : p = q := by simpa using last
          refine Or.inr ⟨rfl, Or.inl ⟨p.command, Command.mem_put_self _ _, ?_⟩⟩
          rw [Command.label, Command.label, id, address]
      | cons q' rest => exact Or.inl ⟨q, by rwa [List.getLast?_cons_cons] at last, id⟩
    · rw [next] at none
      cases none
  · refine old.frame address (Function.update_of_ne same _ _) ?_ (List.subset_append_right _ _)
    intro y hy here
    exact Command.mem_put_of_ne hy fun there => same (here.symm.trans there)

theorem mem_line_submitAll {l : Ledger} {x : Command} (hx : x ∈ l.line) {ps : List Part}
    (others : ∀ p ∈ ps, x.address ≠ p.command.address) : x ∈ (l.submitAll ps).line := by
  induction ps generalizing l with
  | nil => exact hx
  | cons p ps ih =>
      obtain ⟨other, others⟩ := List.forall_mem_cons.mp others
      exact ih (l := l.submit p.command) (Command.mem_put_of_ne hx other) others

/-- A command that was just taken is present. -/
theorem present_take (l : Ledger) {c : Command} {ps : List Part} (row : IsRow c ps) :
    ((l.enter c ps).submitAll (ps.filter Part.isAtOnce)).Present c.address c := by
  obtain ⟨front, last, rfl, id, -, -, alone⟩ := row.last
  have steps : ((l.enter c (front ++ [last])).submitAll
      ((front ++ [last]).filter Part.isAtOnce)).upcoming c.address =
        (front ++ [last]).filter (·.moment.isSome) := by
    rw [submitAll_frame]
    exact Function.update_self _ _ _
  unfold Present
  rw [steps]
  cases moment : last.moment with
  | some t =>
      refine Or.inl ⟨last, ?_, id⟩
      rw [List.filter_append, List.filter_cons_of_pos (by simp [moment]), List.filter_nil,
        List.getLast?_concat]
  | none =>
      -- a command that goes on the line at once is a row of its own
      obtain rfl := alone moment
      refine Or.inr ⟨by simp [moment], Or.inl ⟨last.command, ?_, ?_⟩⟩
      · have now : ([] ++ [last]).filter Part.isAtOnce = [last] := by
          simp [Part.isAtOnce, moment]
        rw [now]
        exact Command.mem_put_self _ _
      · rw [Command.label, Command.label, id, row.address last (by simp)]

theorem stands_take {l : Ledger} (h : l.Stands) {c : Command} {ps : List Part} (row : IsRow c ps) :
    ((l.enter c ps).submitAll (ps.filter Part.isAtOnce)).Stands := by
  intro a x latest
  have frame := submitAll_frame (l.enter c ps) (ps.filter Part.isAtOnce)
  have latest : ((l.intents ++ [(⟨c, ps.map Part.command⟩ : Intent)]).filter
      (fun x : Intent => x.command.address = a)).getLast? = some x := by
    rw [frame] at latest
    exact latest
  rw [List.filter_append] at latest
  by_cases same : c.address = a
  · subst same
    rw [List.filter_cons_of_pos (by simp), List.filter_nil, List.getLast?_concat] at latest
    cases latest
    exact l.present_take row
  · rw [List.filter_cons_of_neg (by simpa using same), List.filter_nil, List.append_nil] at latest
    have grown := (extends_submitAll (l.enter c ps) (ps.filter Part.isAtOnce)).resolutions.subset
    refine (h a x latest).frame (address_of_latest latest).2 ?_ ?_ ?_
    · rw [frame]
      exact Function.update_of_ne (Ne.symm same) _ _
    · intro y hy here
      refine mem_line_submitAll (l := l.enter c ps) hy ?_
      intro p hp there
      rw [row.address p (List.mem_filter.mp hp).1] at there
      exact same (there.symm.trans here)
    · intro r hr
      exact grown (List.mem_append_right _ hr)

theorem Posting.stands {l l' : Ledger} (post : l.Posting l') (h : l.Stands) : l'.Stands := by
  cases post with
  | send head => exact h
  | finish head own => exact stands_finish h head own
  | release next => exact stands_release h next
  | take row => exact stands_take h row

/-- The command that was taken last for an address has not given way: not all commands of its label
have. -/
theorem gaveWay_latest {l : Ledger} (tidy : l.Tidy) (balanced : l.Balanced)
    (stocked : ∀ x, l.stock x ≤ l.taken.count x) (stands : l.Stands) {a : Address} {x : Intent}
    (latest : l.latest a = some x) :
    l.resolutions.countP (fun r => r.gaveWay && decide (r.label = x.command.label)) <
      l.taken.count x.command.label := by
  have address := (address_of_latest latest).2
  have balance := balanced x.command.label
  have stock := stocked x.command.label
  -- what is told of the label, and how much of it tells that another command took its place
  have told : (l.resolutions.map Resolution.label).count x.command.label =
      (l.resolutions.filter fun r => r.label = x.command.label).length := by
    rw [List.count_eq_countP, List.countP_map, List.countP_eq_length_filter]
    rfl
  rw [← List.countP_filter]
  have part := List.countP_le_length (p := Resolution.gaveWay)
    (l := l.resolutions.filter fun r => r.label = x.command.label)
  unfold met at balance
  unfold Ledger.stock at stock
  rcases stands a x latest with ⟨p, last, id⟩ | ⟨-, ⟨c, hc, label⟩ | ⟨r, hr, label, own⟩⟩
  · -- it is still to come, as the last step of the ramp
    have label : p.label = x.command.label := by
      rw [Part.label, Command.label, Command.label, id, address,
        tidy.address a p (List.mem_of_getLast? last)]
    have final : p ∈ l.finals x.command.label.address := by
      rcases tidy.ramps a with none | ⟨front, p', row, whole, -⟩
      · rw [none] at last
        cases last
      · rw [row, List.getLast?_concat] at last
        cases last
        rw [show x.command.label.address = a from address]
        exact List.mem_filter.mpr ⟨by simp [row], by simp [whole]⟩
    have := List.count_pos_iff.mpr (label ▸ List.mem_map_of_mem (f := Part.label) final)
    omega
  · -- it stands on the line
    have := List.count_pos_iff.mpr (label ▸ List.mem_map_of_mem (f := Command.label) hc)
    omega
  · -- it has ended of its own
    have mine : r ∈ l.resolutions.filter fun r => r.label = x.command.label :=
      List.mem_filter.mpr ⟨hr, by simpa using label⟩
    have some : (l.resolutions.filter fun r => r.label = x.command.label).countP
        Resolution.gaveWay ≠ (l.resolutions.filter fun r => r.label = x.command.label).length := by
      intro all
      have := List.countP_eq_length.mp all r mine
      rw [own] at this
      cases this
    omega

end Ledger

namespace World

theorem order_of_run {settings : Settings} {excluded : List Address}
    {steps : List Dispatcher.Step} {w : World} (run : (start settings excluded).run steps = .ok w) :
    w.ledger.InOrder ∧ w.ledger.Stands ∧ w.ledger.Tidy ∧ w.ledger.Balanced ∧
      ∀ x, w.ledger.stock x ≤ w.ledger.taken.count x := by
  have orderly := Dispatcher.orderly_create settings excluded
  have empty : (start settings excluded).ledger.InOrder := by
    refine ⟨?_, fun r hr => absurd hr List.not_mem_nil⟩
    intro a
    exact ⟨[], [], [], rfl, rfl, rfl, by simp, List.Pairwise.nil, by simp, List.Pairwise.nil⟩
  obtain ⟨⟨order, stands, balanced, stocked⟩, orderly'⟩ := ledger_induction
    (P := fun l => l.InOrder ∧ l.Stands ∧ l.Balanced ∧ ∀ x, l.stock x ≤ l.taken.count x)
    (fun {l l'} tidy ⟨order, stands, balanced, stocked⟩ post => by
      refine ⟨post.inOrder tidy order, post.stands stands, post.balanced tidy balanced, ?_⟩
      intro x
      have := post.stock x
      have := stocked x
      omega)
    orderly ⟨empty, nofun, fun _ => rfl, fun _ => Nat.le_refl _⟩ run
  exact ⟨order, stands, orderly'.tidy, balanced, stocked⟩

/-- **The latest command wins.**  The lines for an address carry its commands in the order in which
they are meant, each under its number; whoever gives way gives way to a later command for the same
address; and of the command that was taken last this is never told. -/
theorem latest_wins {settings : Settings} {excluded : List Address} {steps : List Dispatcher.Step}
    {w : World} (run : (start settings excluded).run steps = .ok w) (a : Address) :
    (∃ slots : List Slot,
      slots.map Slot.command =
        (w.history.lines.map (·.attempt.command)).filter (·.address = a) ∧
      (∀ s ∈ slots, s.Of w.history.intents) ∧ slots.Pairwise fun s t => ¬ t.Before s) ∧
    (∀ i t, w.history.lines[i]? = some t →
      t.frame = Packet.encode t.attempt.command (UInt64.ofNat i)) ∧
    (∀ r ∈ w.dispatcher.resolutions, ∀ heir, r.outcome = .superseded heir →
      ∃ s t : Slot, s.Of w.history.intents ∧ t.Of w.history.intents ∧ s.Before t ∧
        s.command.label = r.label ∧ t.command.label = ⟨r.address, heir⟩) ∧
    (∀ x, w.ledger.latest a = some x →
      w.dispatcher.resolutions.countP
          (fun r => r.gaveWay && decide (r.label = x.command.label)) <
        (w.history.rows.map Command.label).count x.command.label) ∧
    ((start settings excluded).FreshRun steps →
      (∀ s t : Slot, s.Of w.history.intents → t.Of w.history.intents →
        s.command.id = t.command.id → s = t) ∧
      ∀ x, w.ledger.latest a = some x → ∀ r ∈ w.dispatcher.resolutions,
        r.id = x.command.id → r.gaveWay = false) := by
  obtain ⟨order, stands, tidy, balanced, stocked⟩ := order_of_run run
  obtain ⟨sent, held, due, chain⟩ := order.climbs a
  have latest {x : Intent} (latest : w.ledger.latest a = some x) :=
    Ledger.gaveWay_latest tidy balanced stocked stands latest
  refine ⟨⟨sent, chain.sent_commands, fun s hs => chain.slots s (List.mem_append_left _ hs),
    chain.climbs⟩, ?_, order.yields, fun x => latest, ?_⟩
  · intro i t there
    have numbered := (numbered_start settings excluded).run
      (Dispatcher.orderly_create settings excluded) run
    exact (numbered.1.line i t there).1
  · intro fresh
    have accounted := ((accounted_start settings excluded).run fresh run).1
    refine ⟨fun s t hs ht => hs.ext accounted.distinct.nodup ht, ?_⟩
    intro x last r hr same
    have taken : x.command.label ∈ w.ledger.taken :=
      accounted.taken_of_entered (List.mem_append_left _
        (List.mem_map_of_mem (f := fun x : Intent => x.command.label)
          (Ledger.address_of_latest last).1))
    have label : r.label = x.command.label :=
      accounted.label_eq (accounted.taken_of_entered (accounted.entered_of_told hr)) taken same
    -- the label was taken once, so that not one command of it has given way
    have once := List.nodup_iff_count_le_one.mp accounted.taken_id.of_map x.command.label
    have few := latest last
    have none := List.countP_eq_zero.mp (show w.ledger.resolutions.countP
      (fun r => r.gaveWay && decide (r.label = x.command.label)) = 0 by omega) r hr
    simpa [label] using none

/-- A line is sent, is lost with the link and is sent again; then another level is asked for, and its
line goes out.  The first command gives way to the second, which does not give way. -/
theorem latest_wins_of_two :
    ∃ w, (start .standard []).run
        [.linkUp, .issue, .enqueue ⟨⟨1⟩, ⟨6⟩, .setLevel ⟨40⟩, .start⟩ .start, .poll .start,
          .linkDown, .linkUp, .poll (.ofMillis 1000), .issue,
          .enqueue ⟨⟨2⟩, ⟨6⟩, .setLevel ⟨80⟩, .start⟩ (.ofMillis 1000),
          .poll (.ofMillis 2000)] = .ok w ∧
      w.history.lines.map (·.attempt.command.id) = [⟨1⟩, ⟨1⟩, ⟨2⟩] ∧
      w.dispatcher.resolutions = [⟨⟨1⟩, ⟨6⟩, .superseded ⟨2⟩⟩] ∧
      ∀ x, w.ledger.latest ⟨6⟩ = some x → ∀ r ∈ w.dispatcher.resolutions,
        r.id = x.command.id → r.gaveWay = false := by
  obtain ⟨w, run, seen⟩ := Dispatcher.exists_ok
    (x := (start .standard []).run
      [.linkUp, .issue, .enqueue ⟨⟨1⟩, ⟨6⟩, .setLevel ⟨40⟩, .start⟩ .start, .poll .start,
        .linkDown, .linkUp, .poll (.ofMillis 1000), .issue,
        .enqueue ⟨⟨2⟩, ⟨6⟩, .setLevel ⟨80⟩, .start⟩ (.ofMillis 1000), .poll (.ofMillis 2000)])
    (f := fun w => (w.history.lines.map (·.attempt.command.id), w.dispatcher.resolutions))
    (b := ([⟨1⟩, ⟨1⟩, ⟨2⟩], [⟨⟨1⟩, ⟨6⟩, .superseded ⟨2⟩⟩])) (by decide +kernel)
  obtain ⟨lines, told⟩ := Prod.mk.inj seen
  exact ⟨w, run, lines, told, ((latest_wins run ⟨6⟩).2.2.2.2 (by decide +kernel)).2⟩

end World

end Lighting
