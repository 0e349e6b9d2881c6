import Lighting.Proofs.Dispatcher.Ledger

/-!
# Fresh identifiers

An identifier names one command only if nobody uses it twice.  The dispatcher does not check this; it
gives out identifiers, and whoever asks for a command takes one of them.  `FreshRun` says that this
is kept to along a row of steps, and then no two commands of a world bear the same identifier, the
steps of its ramps included (`distinct_run`).
-/

namespace Lighting

namespace World

/-- The command bears an identifier that this dispatcher has given out and that nothing it has taken
so far bears. -/
def Fresh (w : World) (c : Command) : Prop :=
  c.id.number < w.dispatcher.nextId.number ∧ ∀ x ∈ w.history.rows, x.id ≠ c.id

instance (w : World) (c : Command) : Decidable (w.Fresh c) :=
  inferInstanceAs (Decidable (_ ∧ _))

/-- A command that comes in bears a fresh identifier. -/
def FreshStep (w : World) : Dispatcher.Step → Prop
  | .enqueue c _ => w.Fresh c
  | _ => True

instance (w : World) : (s : Dispatcher.Step) → Decidable (w.FreshStep s)
  | .enqueue c _ => inferInstanceAs (Decidable (w.Fresh c))
  | .issue | .linkUp | .linkDown | .buffer _ | .frame _ _ | .fire _ | .poll _ => isTrue trivial

/-- Every command that comes in along a row of steps bears a fresh identifier. -/
def FreshRun (w : World) : List Dispatcher.Step → Prop
  | [] => True
  | s :: rest => w.FreshStep s ∧ ∀ v ∈ (w.step s).toOption, v.FreshRun rest

instance decidableFreshRun : (w : World) → (steps : List Dispatcher.Step) →
    Decidable (w.FreshRun steps)
  | _, [] => isTrue trivial
  | w, s :: rest =>
    have := fun v => decidableFreshRun v rest
    inferInstanceAs (Decidable (w.FreshStep s ∧ ∀ v ∈ (w.step s).toOption, v.FreshRun rest))

/-- No two commands of the rows bear the same identifier, and all of them have been given out. -/
structure Distinct (w : World) : Prop where
  /-- No identifier occurs twice. -/
  nodup : (w.history.rows.map Command.id).Nodup
  /-- Every identifier was given out. -/
  issued : ∀ c ∈ w.history.rows, c.id.number < w.dispatcher.nextId.number

end World

namespace Dispatcher

theorem nextId_submit (d : Dispatcher) (c : Command) (origin : Origin) :
    (d.submit c origin).nextId = d.nextId := by
  rcases submit_cases d c origin with ⟨_, _, _, -, -, -, eq⟩ | ⟨_, -, -, eq⟩ | ⟨-, eq⟩ <;> rw [eq]
  · rfl
  · rfl

theorem nextId_submitAll (d : Dispatcher) (ps : List Part) : (d.submitAll ps).nextId = d.nextId := by
  induction ps generalizing d with
  | nil => rfl
  | cons p ps ih => exact (ih _).trans (nextId_submit d _ _)

/-- A command that is taken uses up an identifier for each step before the last of its ramp. -/
theorem ids_accept (d : Dispatcher) (c : Command) (now : Instant) :
    ∃ n, (d.accept c now).nextId.number = d.nextId.number + n ∧
      (d.parts c now).map (·.command.id) =
        (List.range n).map (⟨d.nextId.number + ·⟩) ++ [c.id] := by
  rw [accept_eq, nextId_submitAll]
  rcases parts_cases d c now with ⟨p, row, atOnce, id, -⟩ | ⟨front, last, row, spread⟩
  · refine ⟨0, ?_, by simp [row, id]⟩
    rcases Timely.lay_of_atOnce row atOnce with eq | eq <;> rw [eq, ← nextId_makeRoom d c]
    · rfl
    · rfl
  · refine ⟨front.length, ?_, ?_⟩
    · rw [Timely.lay_of_spread row spread]
      show (d.makeRoom c).nextId.number + ((front ++ [last]).length - 1) = _
      rw [nextId_makeRoom, List.length_append, List.length_singleton, Nat.add_sub_cancel]
    · rw [row, List.map_append, spread.front_id, List.map_singleton, spread.last_id]

theorem nextId_turn {d d' : Dispatcher} {s : Step} {frame : Option (List UInt8)}
    (turn : d.Turn s frame d') : d.nextId.number ≤ d'.nextId.number := by
  cases turn with
  | idle intent submits rest => exact rest.nextId
  | take open? =>
      obtain ⟨n, next, -⟩ := ids_accept d _ _
      rw [next]
      exact Nat.le_add_right _ _
  | release due task =>
      rw [nextId_submit]
      exact Nat.le_refl _
  | send up free head => exact Nat.le_refl _
  | finish flight ending rest => exact rest.nextId
  | putBack flight return? rest => exact rest.nextId

end Dispatcher

namespace World

theorem distinct_start (settings : Settings) (excluded : List Address) :
    (start settings excluded).Distinct :=
  ⟨List.Pairwise.nil, fun _ hc => absurd hc List.not_mem_nil⟩

/-- A row that is taken brings identifiers that occur nowhere else. -/
theorem Distinct.take {w : World} (h : w.Distinct) {c : Command} (fresh : w.Fresh c) {now : Instant}
    {history : History}
    (rows : history.rows = w.history.rows ++ (w.dispatcher.parts c now).map Part.command) :
    Distinct ⟨w.dispatcher.accept c now, history⟩ := by
  obtain ⟨n, next, ids⟩ := Dispatcher.ids_accept w.dispatcher c now
  obtain ⟨issued, unused⟩ := fresh
  have ids : ((w.dispatcher.parts c now).map Part.command).map Command.id = _ :=
    (List.map_map).trans ids
  have old {id : CommandId} (hid : id ∈ w.history.rows.map Command.id) :
      id.number < w.dispatcher.nextId.number ∧ id ≠ c.id := by
    obtain ⟨x, hx, rfl⟩ := List.mem_map.mp hid
    exact ⟨h.issued x hx, unused x hx⟩
  have new {id : CommandId} (hid : id ∈ (List.range n).map
      (fun i => (⟨w.dispatcher.nextId.number + i⟩ : CommandId))) :
      w.dispatcher.nextId.number ≤ id.number ∧ id.number < w.dispatcher.nextId.number + n := by
    obtain ⟨i, hi, rfl⟩ := List.mem_map.mp hid
    have := List.mem_range.mp hi
    exact ⟨Nat.le_add_right _ _, Nat.add_lt_add_left this _⟩
  refine ⟨?_, fun x hx => ?_⟩
  · show (history.rows.map Command.id).Nodup
    rw [rows, List.map_append, ids]
    refine List.nodup_append.mpr ⟨h.nodup, List.nodup_append.mpr ⟨?_, List.pairwise_singleton _ _,
      fun a ha b hb same => ?_⟩, fun a ha b hb same => ?_⟩
    · refine List.Pairwise.map _ (fun i j ne same => ne ?_) List.nodup_range
      exact Nat.add_left_cancel (congrArg CommandId.number same)
    · rw [List.mem_singleton.mp hb] at same
      have := (new ha).1
      rw [same] at this
      omega
    · rcases List.mem_append.mp hb with hb | hb
      · have := (old ha).1
        have := (new hb).1
        rw [same] at *
        omega
      · exact (old ha).2 (same.trans (List.mem_singleton.mp hb))
  · show x.id.number < (w.dispatcher.accept c now).nextId.number
    have hx : x ∈ history.rows := hx
    rw [rows] at hx
    rw [next]
    rcases List.mem_append.mp hx with hx | hx
    · exact Nat.lt_of_lt_of_le (h.issued x hx) (Nat.le_add_right _ _)
    · have hx := List.mem_map_of_mem (f := Command.id) hx
      rw [ids] at hx
      rcases List.mem_append.mp hx with hx | hx
      · exact (new hx).2
      · rw [List.mem_singleton.mp hx]
        exact Nat.lt_of_lt_of_le issued (Nat.le_add_right _ _)

theorem Distinct.step {w w' : World} {s : Dispatcher.Step} (h : w.Distinct)
    (orderly : w.dispatcher.Orderly) (fresh : w.FreshStep s) (step : w.step s = .ok w') :
    w'.Distinct := by
  obtain ⟨frame, stepped, note⟩ := step_eq_ok step
  have turn := Dispatcher.turn orderly.timely stepped
  have grows := Dispatcher.nextId_turn turn
  have rows : w'.history.rows =
      w.history.rows ++ ((w.dispatcher.intent? s).map Intent.row).getD [] := by
    rw [note, History.rows, History.note, List.flatMap_append]
    cases w.dispatcher.intent? s <;> simp [History.rows]
  -- but for a command that is taken no row is added
  have keep (none : w.dispatcher.intent? s = none) : w'.Distinct := by
    rw [none] at rows
    have rows : w'.history.rows = w.history.rows := rows.trans (List.append_nil _)
    exact ⟨rows ▸ h.nodup, fun c hc => Nat.lt_of_lt_of_le (h.issued c (rows ▸ hc)) grows⟩
  obtain ⟨d', history⟩ := w'
  cases turn with
  | idle intent submits rest => exact keep intent
  | @take c now open? =>
      refine h.take fresh (rows.trans ?_)
      simp [Dispatcher.intent?, open?]
  | release due task => exact keep rfl
  | send up free head => exact keep rfl
  | finish flight ending rest => exact keep ending.quiet.1
  | putBack flight return? rest => exact keep return?.quiet.1

/-- **If every command that comes in bears a fresh identifier, no identifier occurs twice.** -/
theorem distinct_run {w w' : World} {steps : List Dispatcher.Step} (h : w.Distinct)
    (orderly : w.dispatcher.Orderly) (fresh : w.FreshRun steps) (run : w.run steps = .ok w') :
    w'.Distinct := by
  induction steps generalizing w with
  | nil => cases run; exact h
  | cons s rest ih =>
      obtain ⟨v, first, tail⟩ := run_cons_eq_ok.mp run
      obtain ⟨frame, stepped, -⟩ := step_eq_ok first
      exact ih (h.step orderly fresh.1 first) (orderly.step stepped)
        (fresh.2 v (by rw [first]; rfl)) tail

end World

end Lighting
