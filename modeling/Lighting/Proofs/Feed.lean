import Lighting.Feed

/-!
# What a subscriber receives

A feed has published a row of items and keeps the end of it (`Holds`); a subscriber has come past a part
of the row, and the rest is still ahead (`Stands`).  What it receives next is the first item ahead, and if
that is no longer kept, the exact number of items it has missed.

So what a subscriber receives tells all that was published since it came, in order: every item, or in the
place of items that it missed how many they are (`Tells`).  This holds however publishing and receiving
take turns (`tells_run`).  To take all there is comes to receiving until nothing is left
(`exists_run_drain`), and a subscriber that does so before more is published than the feed was asked to
keep receives every item (`follow_ofCapacity`).
-/

namespace Lighting.Feed

variable {α : Type} {f : Feed α} {c : Cursor} {x : α} {xs ys told ahead : List α}
  {rs rs' : List (Receipt α)}

/-! ## What a feed keeps -/

/-- A feed has published a row of items, and keeps the end of it. -/
structure Holds (f : Feed α) (xs : List α) : Prop where
  /-- At least one item is kept. -/
  room : 0 < f.capacity
  /-- The items are counted. -/
  published : f.published = xs.length
  /-- The last ones are kept, the latest first. -/
  recent : f.recent = xs.reverse.take f.capacity

theorem holds_ofCapacity (n : Nat) : (ofCapacity n : Feed α).Holds [] where
  room := powerOfTwo_pos n
  published := rfl
  recent := List.take_nil.symm

theorem Holds.publish (h : f.Holds xs) (x : α) : (f.publish x).Holds (xs ++ [x]) where
  room := h.room
  published := by
    rw [List.length_append, ← h.published]
    rfl
  recent := by
    obtain ⟨k, room⟩ := Nat.exists_eq_succ_of_ne_zero (Nat.ne_of_gt h.room)
    show (x :: f.recent).take f.capacity = (xs ++ [x]).reverse.take f.capacity
    rw [h.recent, List.reverse_concat, room, List.take_succ_cons, List.take_succ_cons, List.take_take,
      Nat.min_eq_left (Nat.le_succ k)]

theorem Holds.publishAll (h : f.Holds xs) (ys : List α) : (f.publishAll ys).Holds (xs ++ ys) := by
  induction ys generalizing f xs with
  | nil => rwa [List.append_nil]
  | cons y ys ih =>
      rw [List.append_cons]
      exact ih (h.publish y)

theorem Holds.close (h : f.Holds xs) : f.close.Holds xs := ⟨h.room, h.published, h.recent⟩

theorem Holds.length_recent (h : f.Holds xs) : f.recent.length = min f.capacity xs.length := by
  rw [h.recent, List.length_take, List.length_reverse]

@[simp] theorem capacity_publishAll (f : Feed α) (ys : List α) :
    (f.publishAll ys).capacity = f.capacity := by
  induction ys generalizing f with
  | nil => rfl
  | cons y ys ih => exact ih (f.publish y)

/-! ## Where a subscriber stands -/

/-- A subscriber has come past a part of what was published, and the rest is still ahead. -/
structure Stands (f : Feed α) (c : Cursor) (told ahead : List α) : Prop where
  /-- This is what was published. -/
  holds : f.Holds (told ++ ahead)
  /-- The part it has come past. -/
  position : c.position = told.length

theorem Holds.stands (h : f.Holds xs) : f.Stands f.subscribe xs [] where
  holds := by rwa [List.append_nil]
  position := h.published

theorem Stands.publishAll (h : f.Stands c told ahead) (ys : List α) :
    (f.publishAll ys).Stands c told (ahead ++ ys) where
  holds := by
    rw [← List.append_assoc]
    exact h.holds.publishAll ys
  position := h.position

theorem Stands.behind (h : f.Stands c told ahead) : f.published - c.position = ahead.length := by
  rw [h.holds.published, h.position, List.length_append, Nat.add_sub_cancel_left]

/-- A subscriber has missed something if more is ahead than is kept. -/
theorem Stands.lost_iff (h : f.Stands c told ahead) :
    f.recent.length < ahead.length ↔ f.capacity < ahead.length := by
  rw [h.holds.length_recent, List.length_append]
  omega

theorem Stands.recent_of_lost (h : f.Stands c told ahead) (lost : f.capacity < ahead.length) :
    f.recent.length = f.capacity := by
  rw [h.holds.length_recent, List.length_append]
  omega

/-- Where nothing is ahead nothing comes; only then is it said that nothing more will come. -/
theorem receive_of_nil (h : f.Stands c told []) :
    f.receive c = (if f.closed then .closed else .empty, c) := by
  unfold receive
  rw [h.behind]
  rfl

/-- The first item ahead, if it is still kept. -/
theorem receive_of_kept (h : f.Stands c told (x :: ahead))
    (kept : (x :: ahead).length ≤ f.capacity) : f.receive c = (.item x, ⟨c.position + 1⟩) := by
  have first : f.recent[ahead.length]? = some x := by
    rw [h.holds.recent, List.getElem?_take_of_lt kept, List.reverse_append, List.reverse_cons,
      List.append_assoc, List.getElem?_append_right (Nat.le_of_eq List.length_reverse),
      List.length_reverse, Nat.sub_self]
    rfl
  have some : (x :: ahead).length ≠ 0 := Nat.succ_ne_zero _
  unfold receive
  rw [h.behind]
  dsimp only
  rw [if_neg some, if_neg (mt h.lost_iff.mp (Nat.not_lt.mpr kept)), List.length_cons,
    Nat.add_sub_cancel, first]

/-- How many items were missed, if the first ones ahead are no longer kept. -/
theorem receive_of_lost (h : f.Stands c told ahead) (lost : f.capacity < ahead.length) :
    f.receive c = (.lagged (ahead.length - f.capacity),
      ⟨told.length + (ahead.length - f.capacity)⟩) := by
  have end_ : f.published - f.capacity = told.length + (ahead.length - f.capacity) := by
    rw [h.holds.published, List.length_append]
    omega
  unfold receive
  rw [h.behind]
  dsimp only
  rw [if_neg (by omega), if_pos (h.lost_iff.mpr lost), h.recent_of_lost lost, end_]

/-- A subscriber that has missed something goes on with the first item that is kept. -/
theorem Stands.skip (h : f.Stands c told ahead) (k : Nat) (inside : k ≤ ahead.length) :
    f.Stands ⟨told.length + k⟩ (told ++ ahead.take k) (ahead.drop k) where
  holds := by
    rw [List.append_assoc, List.take_append_drop]
    exact h.holds
  position := by rw [List.length_append, List.length_take_of_le inside]

/-! ## What receipts tell -/

/-- Receipts tell of a row of items: of each item in its place, or in the place of items that are missing
how many they are. -/
inductive Tells : List (Receipt α) → List α → Prop where
  /-- Nothing. -/
  | nil : Tells [] []
  /-- An item. -/
  | item {x : α} {rs : List (Receipt α)} {xs : List α} (rest : Tells rs xs) :
      Tells (.item x :: rs) (x :: xs)
  /-- The number of items that are missing. -/
  | lagged {lost : List α} {rs : List (Receipt α)} {xs : List α} (some : lost ≠ [])
      (rest : Tells rs xs) : Tells (.lagged lost.length :: rs) (lost ++ xs)
  /-- There was nothing yet. -/
  | empty {rs : List (Receipt α)} {xs : List α} (rest : Tells rs xs) : Tells (.empty :: rs) xs
  /-- There was nothing more. -/
  | closed {rs : List (Receipt α)} {xs : List α} (rest : Tells rs xs) : Tells (.closed :: rs) xs

theorem Tells.append (h : Tells rs xs) (h' : Tells rs' ys) : Tells (rs ++ rs') (xs ++ ys) := by
  induction h with
  | nil => exact h'
  | item _ ih => exact .item ih
  | lagged some _ ih =>
      rw [List.append_assoc]
      exact .lagged some ih
  | empty _ ih => exact .empty ih
  | closed _ ih => exact .closed ih

/-! ## Taking turns -/

/-- What can happen to a feed with a subscriber. -/
inductive Turn (α : Type) where
  /-- An item is published. -/
  | publish (x : α)
  /-- The feed is closed. -/
  | close
  /-- The subscriber receives. -/
  | receive

/-- What a turn publishes. -/
def Turn.published : Turn α → List α
  | publish x => [x]
  | close => []
  | receive => []

/-- One turn: what is received, if anything, and how the feed and the subscriber stand then. -/
def turn (f : Feed α) (c : Cursor) : Turn α → List (Receipt α) × Feed α × Cursor
  | .publish x => ([], f.publish x, c)
  | .close => ([], f.close, c)
  | .receive => ([(f.receive c).1], f, (f.receive c).2)

/-- A row of turns: what is received on the way, and how the feed and the subscriber stand then. -/
def run (f : Feed α) (c : Cursor) : List (Turn α) → List (Receipt α) × Feed α × Cursor
  | [] => ([], f, c)
  | t :: rest =>
    let r := f.turn c t
    let q := r.2.1.run r.2.2 rest
    (r.1 ++ q.1, q.2)

/-- To receive tells of the items the subscriber comes past. -/
theorem Stands.receive (h : f.Stands c told ahead) : ∃ passed rest, ahead = passed ++ rest ∧
    Tells [(f.receive c).1] passed ∧ f.Stands (f.receive c).2 (told ++ passed) rest := by
  by_cases lost : f.capacity < ahead.length
  · have inside := Nat.sub_le ahead.length f.capacity
    have missed : ahead.take (ahead.length - f.capacity) ≠ [] :=
      List.ne_nil_of_length_pos (by rw [List.length_take_of_le inside]; omega)
    have tells := Tells.lagged missed Tells.nil
    rw [List.length_take_of_le inside, List.append_nil] at tells
    rw [receive_of_lost h lost]
    exact ⟨_, _, (List.take_append_drop _ _).symm, tells, h.skip _ inside⟩
  · cases ahead with
    | nil =>
        refine ⟨[], [], rfl, ?_, ?_⟩
        · rw [receive_of_nil h]
          cases f.closed
          · exact .empty .nil
          · exact .closed .nil
        · rw [receive_of_nil h, List.append_nil]
          exact h
    | cons x ahead =>
        rw [receive_of_kept h (Nat.not_lt.mp lost)]
        refine ⟨[x], ahead, rfl, .item .nil, ?_, ?_⟩
        · rw [List.append_assoc]
          exact h.holds
        · rw [List.length_append, ← h.position]
          rfl

/-- One turn tells of the items the subscriber comes past. -/
theorem Stands.turn (h : f.Stands c told ahead) (t : Turn α) :
    ∃ passed rest, ahead ++ t.published = passed ++ rest ∧ Tells (f.turn c t).1 passed ∧
      (f.turn c t).2.1.Stands (f.turn c t).2.2 (told ++ passed) rest := by
  cases t with
  | publish x =>
      refine ⟨[], ahead ++ [x], rfl, .nil, ?_⟩
      rw [List.append_nil]
      exact h.publishAll [x]
  | close =>
      refine ⟨[], ahead, List.append_nil _, .nil, ?_⟩
      rw [List.append_nil]
      exact ⟨h.holds.close, h.position⟩
  | receive =>
      obtain ⟨passed, rest, split, tells, stands⟩ := h.receive
      exact ⟨passed, rest, (List.append_nil _).trans split, tells, stands⟩

theorem Stands.run (h : f.Stands c told ahead) (turns : List (Turn α)) :
    ∃ passed rest, ahead ++ turns.flatMap Turn.published = passed ++ rest ∧
      Tells (f.run c turns).1 passed ∧
      (f.run c turns).2.1.Stands (f.run c turns).2.2 (told ++ passed) rest := by
  induction turns generalizing f c told ahead with
  | nil =>
      refine ⟨[], ahead, List.append_nil _, .nil, ?_⟩
      rw [List.append_nil]
      exact h
  | cons t turns ih =>
      obtain ⟨first, between, split, tells, stands⟩ := h.turn t
      obtain ⟨passed, rest, split', tells', stands'⟩ := ih stands
      refine ⟨first ++ passed, rest, ?_, tells.append tells', ?_⟩
      · rw [List.flatMap_cons, ← List.append_assoc, split, List.append_assoc, split',
          List.append_assoc]
      · rw [← List.append_assoc]
        exact stands'

/-- **A subscriber is told of everything.**  Whatever was published before it came, and however
publishing and receiving take turns then, what it receives tells of the items published since, in order,
up to where it stands at the end. -/
theorem tells_run (n : Nat) (before : List α) (turns : List (Turn α)) :
    let f := (ofCapacity n : Feed α).publishAll before
    ∃ passed rest, turns.flatMap Turn.published = passed ++ rest ∧
      Tells (f.run f.subscribe turns).1 passed ∧
      (f.run f.subscribe turns).2.1.Stands (f.run f.subscribe turns).2.2 (before ++ passed) rest :=
  ((holds_ofCapacity n).publishAll before).stands.run turns

/-! ## Receiving all there is -/

/-- To drain gives a note of what was missed, and then every item that is kept. -/
theorem drain_eq (h : f.Stands c told ahead) :
    f.drain c = ((if f.capacity < ahead.length then [.lagged (ahead.length - f.capacity)] else []) ++
      (ahead.drop (ahead.length - f.capacity)).map .item, ⟨(told ++ ahead).length⟩) := by
  have kept : (f.recent.take ahead.length).reverse = ahead.drop (ahead.length - f.capacity) := by
    have inside : min ahead.length f.capacity ≤ ahead.reverse.length := by
      rw [List.length_reverse]
      exact Nat.min_le_left _ _
    rw [h.holds.recent, List.take_take, List.reverse_append, List.take_append_of_le_length inside,
      List.take_reverse, List.reverse_reverse]
    congr 1
    omega
  have missed : (if ahead.length - f.recent.length = 0 then []
      else [.lagged (ahead.length - f.recent.length)] : List (Receipt α)) =
      if f.capacity < ahead.length then [.lagged (ahead.length - f.capacity)] else [] := by
    by_cases lost : f.capacity < ahead.length
    · rw [if_pos lost, h.recent_of_lost lost, if_neg (by omega)]
    · have whole := mt h.lost_iff.mp lost
      rw [if_neg lost, if_pos (by omega)]
  unfold drain
  rw [h.behind]
  dsimp only
  rw [kept, missed, h.holds.published]

example : ((ofCapacity 2).publishAll [1, 2, 3, 4, 5]).drain ⟨0⟩ =
    ([.lagged 3, .item 4, .item 5], ⟨5⟩) := by decide

/-- Nothing is ahead of a subscriber that has drained. -/
theorem Stands.drain (h : f.Stands c told ahead) : f.Stands (f.drain c).2 (told ++ ahead) [] := by
  rw [drain_eq h]
  exact ⟨by rw [List.append_nil]; exact h.holds, rfl⟩

theorem run_receive (f : Feed α) (c : Cursor) (k : Nat) :
    f.run c (List.replicate (k + 1) .receive) =
      ((f.receive c).1 :: (f.run (f.receive c).2 (List.replicate k .receive)).1,
        (f.run (f.receive c).2 (List.replicate k .receive)).2) := rfl

/-- A subscriber that has missed nothing receives the items one by one. -/
theorem run_items (h : f.Stands c told ahead) (kept : ahead.length ≤ f.capacity) :
    f.run c (List.replicate ahead.length .receive) =
      (ahead.map .item, f, ⟨(told ++ ahead).length⟩) := by
  induction ahead generalizing c told with
  | nil =>
      rw [List.append_nil, ← h.position]
      rfl
  | cons x ahead ih =>
      have next : f.Stands ⟨c.position + 1⟩ (told ++ [x]) ahead := by
        refine ⟨?_, by rw [List.length_append, ← h.position]; rfl⟩
        rw [List.append_assoc]
        exact h.holds
      rw [List.length_cons, run_receive, receive_of_kept h kept,
        ih next (Nat.le_of_succ_le kept), List.append_assoc]
      rfl

/-- **To drain is to receive until nothing is left.** -/
theorem exists_run_drain (h : f.Stands c told ahead) :
    ∃ k, f.run c (List.replicate k .receive) = ((f.drain c).1, f, (f.drain c).2) := by
  rw [drain_eq h]
  by_cases lost : f.capacity < ahead.length
  · have kept : (ahead.drop (ahead.length - f.capacity)).length = f.capacity := by
      rw [List.length_drop]
      omega
    have stands := h.skip _ (Nat.sub_le ahead.length f.capacity)
    have items := run_items stands (Nat.le_of_eq kept)
    refine ⟨(ahead.drop (ahead.length - f.capacity)).length + 1, ?_⟩
    rw [run_receive, receive_of_lost h lost, items, if_pos lost, List.append_assoc,
      List.take_append_drop]
    rfl
  · have all : ahead.length - f.capacity = 0 := Nat.sub_eq_zero_of_le (Nat.not_lt.mp lost)
    rw [if_neg lost, all, List.drop_zero, List.nil_append]
    exact ⟨ahead.length, run_items h (Nat.not_lt.mp lost)⟩

/-! ## Keeping up -/

/-- What a subscriber receives that drains after each batch. -/
def follow (f : Feed α) (c : Cursor) : List (List α) → List (Receipt α)
  | [] => []
  | batch :: rest =>
    let f := f.publishAll batch
    (f.drain c).1 ++ f.follow (f.drain c).2 rest

/-- Where nothing is missed every item is received. -/
theorem follow_eq {batches : List (List α)} (h : f.Stands c told [])
    (short : ∀ batch ∈ batches, batch.length ≤ f.capacity) :
    f.follow c batches = batches.flatten.map .item := by
  induction batches generalizing f c told with
  | nil => rfl
  | cons batch batches ih =>
      obtain ⟨fits, short⟩ := List.forall_mem_cons.mp short
      have ahead := h.publishAll batch
      rw [← capacity_publishAll f batch] at fits short
      have all : batch.length - (f.publishAll batch).capacity = 0 := Nat.sub_eq_zero_of_le fits
      have drained : ((f.publishAll batch).drain c).1 = batch.map .item := by
        rw [drain_eq ahead, List.nil_append, if_neg (Nat.not_lt.mpr fits), all]
        rfl
      rw [follow, drained, ih ahead.drain short, List.flatten_cons, List.map_append]

/-- **A subscriber that keeps up receives every item**, in order, and nothing else.  A feed that was asked
to keep nothing keeps one item. -/
theorem follow_ofCapacity (n : Nat) (before : List α) {batches : List (List α)}
    (short : ∀ batch ∈ batches, batch.length ≤ max n 1) :
    let f := (ofCapacity n : Feed α).publishAll before
    f.follow f.subscribe batches = batches.flatten.map .item := by
  refine follow_eq ((holds_ofCapacity n).publishAll before).stands fun batch mem => ?_
  rw [capacity_publishAll]
  exact Nat.le_trans (short batch mem) (Nat.max_le.mpr ⟨le_powerOfTwo n, powerOfTwo_pos n⟩)

end Lighting.Feed
