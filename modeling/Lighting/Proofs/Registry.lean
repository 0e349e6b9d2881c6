import Lighting.Registry
import Mathlib.Data.List.Basic

/-!
# What is told of the registry

A subscriber never sees the registry.  All it has are the events, and it takes the last one of an
address for what is known of it (`lastTold`).  `Shown` says that it is right to do so: the published
part of every state is that of the last event of its address, or of a device nothing was heard of.

### Why nothing is missed, and nothing told twice

Every way to change the registry is an `Update` of one address, and all of them go through the same
door, which compares the published part before and after (`update_told`).  So an update that shows is
told once, one that does not is not told, and the event carries the state as the update has left it.
A row of updates (`run`) tells the events of its updates in order.
-/

namespace Lighting

/-- The state of an address that an event tells of. -/
def Event.stateOf? (a : Address) : Event → Option DeviceState
  | .stateChanged s => if s.address = a then some s else none
  | _ => none

/-- The state of an address as the news has it, the latest first: that of the last event of the
address, and before any event that of a device nothing was heard of. -/
def lastTold (told : List Event) (a : Address) : DeviceState :=
  (told.findSome? (Event.stateOf? a)).getD (.unknown a)

theorem lastTold_stateChanged (s : DeviceState) (told : List Event) (a : Address) :
    lastTold (.stateChanged s :: told) a = if s.address = a then s else lastTold told a := by
  unfold lastTold
  by_cases mine : s.address = a <;> simp [Event.stateOf?, mine]

theorem lastTold_of_not_stateChange {e : Event} (other : e.isStateChange = false)
    (told : List Event) (a : Address) : lastTold (e :: told) a = lastTold told a := by
  cases e with
  | stateChanged s => cases other
  | resolved id address outcome => rfl
  | linkChanged up => rfl

namespace Registry

/-! ## Updates -/

/-- A way to change what is known of an address. -/
inductive Update where
  /-- The bus has confirmed a level. -/
  | confirm (a : Address) (level : Level)
  /-- The bus has confirmed a level, and a ramp runs or does not. -/
  | confirmRamp (a : Address) (level : Level) (active : Bool)
  /-- A level is assumed. -/
  | assume (a : Address) (level : Level)
  /-- The bus has shown a level that nobody here asked for. -/
  | report (a : Address) (level : Level) (transition : Duration) (source : Option UInt8)
  /-- The device is asked for a level from here. -/
  | aim (a : Address) (level : Level) (transition : Duration)
  /-- A ramp starts or ends. -/
  | setRamp (a : Address) (active : Bool)
deriving DecidableEq

namespace Update

/-- The address that is updated. -/
def address : Update → Address
  | confirm a _ | confirmRamp a _ _ | assume a _ | report a _ _ _ | aim a _ _ | setRamp a _ => a

/-- What the update does to the state of its address. -/
def change : Update → DeviceState → DeviceState
  | confirm _ level => fun s => s.confirm level
  | confirmRamp _ level active => fun s => (s.confirm level).setRamp active
  | assume _ level => fun s => s.assume level
  | report _ level transition source => fun s =>
    ((s.aim level transition source).confirm level).setRamp !transition.isZero
  | aim _ level transition => fun s => s.aim level transition none
  | setRamp _ active => fun s => s.setRamp active

@[simp] theorem address_change (u : Update) (s : DeviceState) : (u.change s).address = s.address := by
  cases u <;> rfl

end Update

/-- Carries out an update: the registry afterwards, and the event that tells of it. -/
def update (r : Registry) : Update → Registry × Option Event
  | .confirm a level => r.confirm a level
  | .confirmRamp a level active => r.confirmRamp a level active
  | .assume a level => r.assume a level
  | .report a level transition source => r.report a level transition source
  | .aim a level transition => r.aim a level transition
  | .setRamp a active => r.setRamp a active

/-- All updates go through one door. -/
theorem update_eq (r : Registry) (u : Update) : r.update u = r.modify u.address u.change := by
  cases u <;> rfl

/-- **An update changes one address, and is told of once if it shows.**  The states kept for all other
addresses are untouched; there is an event exactly if the published part of the state is another one;
and the event carries the state as it is afterwards. -/
theorem update_told (r : Registry) (u : Update) :
    (∀ b, b ≠ u.address → (r.update u).1.states.get b = r.states.get b) ∧
      ((r.update u).2.isSome ↔
        ((r.update u).1.query u.address).published ≠ (r.query u.address).published) ∧
      ∀ e, (r.update u).2 = some e → e = .stateChanged ((r.update u).1.query u.address) := by
  rw [update_eq]
  refine ⟨fun b other => Address.Table.get_set_of_ne _ other _, ?_, fun e => modify_snd_eq_some⟩
  rw [query_modify_self, Option.isSome_iff_ne_none, ne_eq, modify_snd_eq_none_iff]

theorem query_update_of_ne (r : Registry) {u : Update} {b : Address} (other : b ≠ u.address) :
    (r.update u).1.query b = r.query b := by
  rw [update_eq, query_modify_of_ne r other]

theorem query_update_self (r : Registry) (u : Update) :
    (r.update u).1.query u.address = u.change (r.query u.address) := by
  rw [update_eq, query_modify_self]

/-! ## Rows of updates -/

/-- Carries out a row of updates: the registry afterwards, and the events that tell of them, the
latest first. -/
def run (r : Registry) : List Update → Registry × List Event
  | [] => (r, [])
  | u :: us =>
    let next := r.update u
    let rest := next.1.run us
    (rest.1, rest.2 ++ next.2.toList)

theorem run_cons (r : Registry) (u : Update) (us : List Update) :
    r.run (u :: us) =
      (((r.update u).1.run us).1, ((r.update u).1.run us).2 ++ (r.update u).2.toList) := rfl

/-- A row that goes on tells what the rest tells after what was told. -/
theorem run_append (r : Registry) (us vs : List Update) :
    r.run (us ++ vs) = (((r.run us).1.run vs).1, ((r.run us).1.run vs).2 ++ (r.run us).2) := by
  induction us generalizing r with
  | nil => simp [run]
  | cons u us ih => rw [List.cons_append, run_cons, run_cons, ih, List.append_assoc]

/-- An event of a row tells of one of its updates, and carries the full state as this update has left
it. -/
theorem of_mem_run {r : Registry} {us : List Update} {e : Event} (told : e ∈ (r.run us).2) :
    ∃ before u after, us = before ++ u :: after ∧
      (((r.run (before ++ [u])).1.query u.address).published ≠
        ((r.run before).1.query u.address).published) ∧
      e = .stateChanged ((r.run (before ++ [u])).1.query u.address) := by
  induction us generalizing r with
  | nil => cases told
  | cons u us ih =>
      rcases List.mem_append.mp told with later | now
      · obtain ⟨before, v, after, rfl, shows, rfl⟩ := ih later
        exact ⟨u :: before, v, after, rfl, shows, rfl⟩
      · obtain ⟨-, shows, full⟩ := r.update_told u
        have told := Option.mem_toList.mp now
        exact ⟨[], u, us, rfl, shows.mp (Option.isSome_of_mem told), full e told⟩

/-! ## What the news has is what is published -/

/-- The news agrees with the registry. -/
structure Shown (r : Registry) (told : List Event) : Prop where
  /-- The state of an address is a state of this address. -/
  own : ∀ a, (r.query a).address = a
  /-- The published part of a state is that of the last event. -/
  published : ∀ a, (lastTold told a).published = (r.query a).published
  /-- No event repeats what was known before it. -/
  fresh : ∀ later s earlier, told = later ++ .stateChanged s :: earlier →
    s.published ≠ (lastTold earlier s.address).published

theorem shown_empty : empty.Shown [] where
  own := fun a => by rw [query_empty]; rfl
  published := fun a => by rw [query_empty]; rfl
  fresh := fun later s earlier split => by simp at split

namespace Shown

variable {r : Registry} {told : List Event}

/-- News of other things does not concern the registry. -/
theorem tell (h : r.Shown told) {e : Event} (other : e.isStateChange = false) :
    r.Shown (e :: told) where
  own := h.own
  published := fun a => by
    rw [lastTold_of_not_stateChange other]
    exact h.published a
  fresh := fun later s earlier split => by
    rcases List.cons_eq_append_iff.mp split with ⟨rfl, first⟩ | ⟨later', rfl, rest⟩
    · obtain ⟨rfl, -⟩ := List.cons.inj first
      cases other
    · exact h.fresh later' s earlier rest

/-- **An update and its event keep the news right.** -/
theorem update (h : r.Shown told) (u : Update) :
    (r.update u).1.Shown ((r.update u).2.toList ++ told) := by
  obtain ⟨-, shows, full⟩ := r.update_told u
  have own (a : Address) : ((r.update u).1.query a).address = a := by
    by_cases mine : a = u.address
    · rw [mine, query_update_self, Update.address_change, h.own]
    · rw [query_update_of_ne r mine, h.own]
  cases news : (r.update u).2 with
  | none =>
      rw [news, Option.isSome_none, Bool.false_eq_true, false_iff, not_not] at shows
      refine ⟨own, fun a => ?_, h.fresh⟩
      by_cases mine : a = u.address
      · rw [mine, shows]
        exact h.published _
      · rw [query_update_of_ne r mine]
        exact h.published a
  | some e =>
      obtain rfl := full e news
      have shows := shows.mp (by rw [news]; rfl)
      refine ⟨own, fun a => ?_, fun later s earlier split => ?_⟩
      · rw [Option.toList_some, List.singleton_append, lastTold_stateChanged, own]
        split
        · rename_i mine
          rw [mine]
        · rename_i other
          rw [query_update_of_ne r (Ne.symm other)]
          exact h.published a
      · rcases List.cons_eq_append_iff.mp split with ⟨rfl, first⟩ | ⟨later', rfl, rest⟩
        · obtain ⟨same, rfl⟩ := List.cons.inj first
          cases same
          rw [own, h.published]
          exact shows
        · exact h.fresh later' s earlier rest

theorem run (h : r.Shown told) (us : List Update) : (r.run us).1.Shown ((r.run us).2 ++ told) := by
  induction us generalizing r told with
  | nil => exact h
  | cons u us ih =>
      rw [run_cons, List.append_assoc]
      exact ih (h.update u)

end Shown

end Registry

end Lighting
