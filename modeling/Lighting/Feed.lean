/-!
# Feeds

A `Feed` hands what is published to any number of subscribers, each at its own pace, and keeps only
so much: a subscriber that falls further behind is told how much it lost and goes on with the oldest
item still kept.  The number of items kept is rounded up to a power of two.
-/

namespace Lighting

/-- What is published, and how much of it is kept. -/
structure Feed (α : Type) where
  /-- How many items are kept. -/
  capacity : Nat
  /-- The items kept, the latest first. -/
  recent : List α
  /-- How many items were published. -/
  published : Nat
  /-- Whether nothing more will be published. -/
  closed : Bool

namespace Feed

variable {α : Type}

/-- The least power of two that is at least `n`. -/
def powerOfTwo (n : Nat) : Nat := if n ≤ 1 then 1 else Nat.pow 2 ((n - 1).log2 + 1)

/-- A feed that keeps at least `n` items, and at least one. -/
def ofCapacity (n : Nat) : Feed α := ⟨powerOfTwo n, [], 0, false⟩

/-- Publishes an item. -/
def publish (f : Feed α) (x : α) : Feed α :=
  { f with recent := (x :: f.recent).take f.capacity, published := f.published + 1 }

/-- Publishes several items, the first one first. -/
def publishAll (f : Feed α) (xs : List α) : Feed α := xs.foldl publish f

/-- Nothing more will be published. -/
def close (f : Feed α) : Feed α := { f with closed := true }

/-- How far a subscriber has come: how many items it has had or lost. -/
structure Cursor where
  /-- The number of items had or lost. -/
  position : Nat
deriving DecidableEq

/-- A subscriber that gets what is published from now on. -/
def subscribe (f : Feed α) : Cursor := ⟨f.published⟩

/-- What a subscriber receives. -/
inductive Receipt (α : Type) where
  /-- The next item. -/
  | item (x : α)
  /-- The number of items it lost. -/
  | lagged (n : Nat)
  /-- Nothing yet. -/
  | empty
  /-- Nothing, and there will be nothing more. -/
  | closed
deriving DecidableEq

/-- What a subscriber receives next, and where it stands then. -/
def receive (f : Feed α) (c : Cursor) : Receipt α × Cursor :=
  let behind := f.published - c.position
  if behind = 0 then (if f.closed then .closed else .empty, c)
  else if f.recent.length < behind then
    (.lagged (behind - f.recent.length), ⟨f.published - f.recent.length⟩)
  else match f.recent[behind - 1]? with
    | some x => (.item x, ⟨c.position + 1⟩)
    | none => (.empty, c)

/-- What a subscriber receives until there is nothing more: at most one note of a loss, and the
items still kept. -/
def drain (f : Feed α) (c : Cursor) : List (Receipt α) × Cursor :=
  let behind := f.published - c.position
  let lost := behind - f.recent.length
  ((if lost = 0 then [] else [.lagged lost]) ++ (f.recent.take behind).reverse.map .item,
   ⟨f.published⟩)

theorem powerOfTwo_pos (n : Nat) : 0 < powerOfTwo n := by
  unfold powerOfTwo
  split
  · exact Nat.one_pos
  · rw [Nat.pow_eq]
    exact Nat.two_pow_pos _

theorem le_powerOfTwo (n : Nat) : n ≤ powerOfTwo n := by
  unfold powerOfTwo
  split
  · assumption
  · rw [Nat.pow_eq]
    have := Nat.lt_log2_self (n := n - 1)
    omega

end Feed

end Lighting
