import Lighting.Agenda

/-!
# Agendas that are tidied late

A `Heap` is an agenda on which an entry is struck without looking for its place.  The places of the
entries lie in one pile, the next one on top, and what is to be done there is written down apart, under
the tokens.  Striking an entry deletes its task and leaves its place behind.  Such an empty place is
thrown away when it comes to the top, by whoever looks for the next entry: `popDue`, which looks no
further than a moment, or `nextDeadline`, which looks until it finds one.
-/

namespace Lighting.Agenda

/-- The place of an entry in a pile. -/
structure Slot where
  /-- When the task is to be done. -/
  deadline : Instant
  /-- What the entry is known by. -/
  token : Token
deriving DecidableEq

namespace Slot

/-- Whether a place lies above another one: it falls due earlier, or at the same moment and was made
earlier. -/
def isAbove (x y : Slot) : Bool :=
  x.deadline.nanos < y.deadline.nanos ||
    (x.deadline.nanos == y.deadline.nanos && x.token.number < y.token.number)

/-- Puts a place where it belongs in a pile. -/
def push (s : Slot) : List Slot → List Slot
  | [] => [s]
  | x :: xs => if s.isAbove x then s :: x :: xs else x :: push s xs

end Slot

/-- The tasks that are to be done, and the places where they are to be found. -/
structure Heap (α : Type) where
  /-- The places, the next one on top; some may be empty. -/
  pile : List Slot
  /-- The tasks that were neither done nor struck. -/
  tasks : List (Token × α)
  /-- The token of the entry made next. -/
  next : Token

namespace Heap

variable {α : Type}

/-- The heap without entries. -/
def empty : Heap α := ⟨[], [], ⟨0⟩⟩

/-- Enters a task. -/
def schedule (h : Heap α) (deadline : Instant) (task : α) : Token × Heap α :=
  (h.next, ⟨Slot.push ⟨deadline, h.next⟩ h.pile, (h.next, task) :: h.tasks, ⟨h.next.number + 1⟩⟩)

/-- Whether an entry is still there. -/
def isLive (h : Heap α) (t : Token) : Bool := (h.tasks.lookup t).isSome

/-- Deletes a task. -/
def delete (tasks : List (Token × α)) (t : Token) : List (Token × α) := tasks.filter (·.1 != t)

/-- Strikes an entry, and says whether it was still there. -/
def cancel (h : Heap α) (t : Token) : Bool × Heap α :=
  (h.isLive t, { h with tasks := delete h.tasks t })

/-- Takes places from the top of a pile, as long as they are due, until one has a task. -/
def dig (now : Instant) (tasks : List (Token × α)) : List Slot → Option (Token × α) × List Slot
  | [] => (none, [])
  | s :: pile =>
    if s.deadline ≤ now then
      match tasks.lookup s.token with
      | some task => (some (s.token, task), pile)
      | none => dig now tasks pile
    else (none, s :: pile)

/-- Takes out the first entry, if its deadline has come. -/
def popDue (h : Heap α) (now : Instant) : Option (Token × α) × Heap α :=
  match dig now h.tasks h.pile with
  | (some (t, task), pile) => (some (t, task), { h with pile, tasks := delete h.tasks t })
  | (none, pile) => (none, { h with pile })

/-- Throws away the empty places on top. -/
def tidy (h : Heap α) : Heap α :=
  { h with pile := h.pile.dropWhile fun s => !h.isLive s.token }

/-- The deadline of the first entry; the empty places above it are thrown away. -/
def nextDeadline (h : Heap α) : Option Instant × Heap α :=
  (h.tidy.pile.head?.map (·.deadline), h.tidy)

/-- The number of entries. -/
def size (h : Heap α) : Nat := h.tasks.length

end Heap

end Lighting.Agenda
