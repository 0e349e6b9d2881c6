import Lighting.Clock

/-!
# Agendas

An `Agenda` holds the tasks that are to be done at a later moment.  `schedule` enters a task and
gives the token it is known by, `cancel` strikes it, and `popDue` takes out the task that is due
first, tasks of one moment in the order they were entered.

An entry that is struck is gone at once, and the entries are kept in the order they fall due.  So the
first entry is always the next one, and an agenda is seen whole through its list of entries: each
operation has one lemma that says what it does to their members.
-/

namespace Lighting

/-- The name of an agenda entry; later entries have larger numbers. -/
structure Agenda.Token where
  /-- The number of the entry.  Entries are counted one by one in 64 bits; 2^64 entries are out of
  reach, so the number is not bounded here. -/
  number : Nat
deriving DecidableEq

/-- A task and when it is to be done. -/
structure Agenda.Entry (α : Type) where
  /-- What the entry is known by. -/
  token : Agenda.Token
  /-- When the task is to be done. -/
  deadline : Instant
  /-- The task. -/
  task : α
deriving DecidableEq

/-- The tasks that are to be done, the next one first. -/
structure Agenda (α : Type) where
  /-- The entries by deadline, and those of one deadline by token. -/
  entries : List (Agenda.Entry α)
  /-- The token of the entry made next. -/
  next : Agenda.Token
deriving DecidableEq

namespace Agenda

variable {α : Type}

/-- The agenda without entries. -/
def empty : Agenda α := ⟨[], ⟨0⟩⟩

/-- Puts an entry after all entries that are due no later. -/
def insert (e : Entry α) : List (Entry α) → List (Entry α)
  | [] => [e]
  | x :: xs => if x.deadline ≤ e.deadline then x :: insert e xs else e :: x :: xs

/-- Enters a task. -/
def schedule (g : Agenda α) (deadline : Instant) (task : α) : Token × Agenda α :=
  (g.next, ⟨insert ⟨g.next, deadline, task⟩ g.entries, ⟨g.next.number + 1⟩⟩)

/-- Whether an entry is still there. -/
def isLive (g : Agenda α) (t : Token) : Bool := g.entries.any (·.token == t)

/-- Strikes an entry; nothing happens if it is no longer there. -/
def erase (g : Agenda α) (t : Token) : Agenda α :=
  { g with entries := g.entries.filter (·.token != t) }

/-- Strikes an entry, and says whether it was still there. -/
def cancel (g : Agenda α) (t : Token) : Bool × Agenda α := (g.isLive t, g.erase t)

/-- Strikes several entries. -/
def eraseAll (g : Agenda α) (ts : List Token) : Agenda α := ts.foldl erase g

/-- Takes out the first entry, if its deadline has come. -/
def popDue (g : Agenda α) (now : Instant) : Option (Entry α × Agenda α) :=
  match g.entries with
  | [] => none
  | e :: es => if e.deadline ≤ now then some (e, { g with entries := es }) else none

/-- The deadline of the first entry. -/
def nextDeadline (g : Agenda α) : Option Instant := g.entries.head?.map (·.deadline)

/-- The number of entries. -/
def size (g : Agenda α) : Nat := g.entries.length

theorem mem_insert {e x : Entry α} {es : List (Entry α)} :
    x ∈ insert e es ↔ x = e ∨ x ∈ es := by
  induction es with
  | nil => simp [insert]
  | cons y ys ih =>
    unfold insert
    split
    · simp only [List.mem_cons, ih, or_left_comm]
    · simp only [List.mem_cons]

@[simp] theorem mem_entries_schedule {g : Agenda α} {deadline : Instant} {task : α}
    {x : Entry α} :
    x ∈ (g.schedule deadline task).2.entries ↔ x = ⟨g.next, deadline, task⟩ ∨ x ∈ g.entries :=
  mem_insert

@[simp] theorem mem_entries_erase {g : Agenda α} {t : Token} {x : Entry α} :
    x ∈ (g.erase t).entries ↔ x ∈ g.entries ∧ x.token ≠ t := by
  simp [erase]

theorem size_erase_le (g : Agenda α) (t : Token) : (g.erase t).size ≤ g.size :=
  List.length_filter_le _ _

theorem isLive_iff {g : Agenda α} {t : Token} :
    g.isLive t = true ↔ ∃ e ∈ g.entries, e.token = t := by
  simp [isLive]

/-- Striking an entry is final. -/
@[simp] theorem isLive_erase_self (g : Agenda α) (t : Token) : (g.erase t).isLive t = false := by
  simp [isLive, erase]

/-- What is taken out is the first entry, and only if its deadline has come. -/
theorem popDue_eq_some_iff {g h : Agenda α} {now : Instant} {e : Entry α} :
    g.popDue now = some (e, h) ↔
      g.entries = e :: h.entries ∧ h.next = g.next ∧ e.deadline ≤ now := by
  obtain ⟨entries, next⟩ := g
  obtain ⟨entries', next'⟩ := h
  cases entries with
  | nil => simp [popDue]
  | cons x xs =>
    simp only [popDue]
    split
    · rename_i hx
      simp only [Option.some.injEq, Prod.mk.injEq, Agenda.mk.injEq, List.cons.injEq]
      constructor
      · rintro ⟨rfl, rfl, rfl⟩
        exact ⟨⟨rfl, rfl⟩, rfl, hx⟩
      · rintro ⟨⟨rfl, rfl⟩, rfl, -⟩
        exact ⟨rfl, rfl, rfl⟩
    · rename_i hx
      simp only [reduceCtorEq, List.cons.injEq, false_iff, not_and]
      rintro ⟨rfl, -⟩ -
      exact hx

end Agenda

end Lighting
