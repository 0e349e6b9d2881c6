import Lighting.Agenda.Heap
import Lighting.Proofs.Agenda
import Mathlib.Data.List.Nodup

/-!
# What is on a heap

A heap stands for an agenda: the places that have a task, with their tasks, in the order of the pile
(`toAgenda`).  The empty places do not show.  What each operation does to a heap, the operation of the
same name does to its agenda, and both say the same; throwing empty places away does nothing to the
agenda at all.

This holds as long as the heap is in order (`Ordered`).  In particular every task has a place, and no
two places have the same token, so that a place that has lost its task never gets another one.
-/

namespace Lighting.Agenda

theorem WellFormed.nodup_tokens {α : Type} {g : Agenda α} (wf : g.WellFormed) :
    (g.entries.map Entry.token).Nodup := by
  refine List.pairwise_map.mpr (wf.sorted.imp_of_mem fun hx hy before same => ?_)
  rw [wf.unique _ hx _ hy same] at before
  exact before.asymm before

namespace Slot

theorem isAbove_iff {x y : Slot} :
    x.isAbove y = true ↔ x.deadline.nanos < y.deadline.nanos ∨
      x.deadline.nanos = y.deadline.nanos ∧ x.token.number < y.token.number := by
  simp [isAbove]

theorem perm_push (s : Slot) (pile : List Slot) : (s.push pile).Perm (s :: pile) := by
  induction pile with
  | nil => exact List.Perm.refl _
  | cons y ys ih =>
      unfold push
      split
      · exact List.Perm.refl _
      · exact (ih.cons y).trans (List.Perm.swap s y ys)

theorem mem_push {s x : Slot} {pile : List Slot} : x ∈ s.push pile ↔ x = s ∨ x ∈ pile :=
  (perm_push s pile).mem_iff.trans List.mem_cons

theorem pairwise_push {s : Slot} {pile : List Slot}
    (sorted : pile.Pairwise fun x y => x.isAbove y = true)
    (last : ∀ x ∈ pile, x.token.number < s.token.number) :
    (s.push pile).Pairwise fun x y => x.isAbove y = true := by
  induction pile with
  | nil => exact List.pairwise_singleton _ _
  | cons y ys ih =>
      obtain ⟨first, rest⟩ := List.pairwise_cons.mp sorted
      obtain ⟨older, last⟩ := List.forall_mem_cons.mp last
      unfold push
      split
      · rename_i above
        rw [isAbove_iff] at above
        refine List.pairwise_cons.mpr ⟨fun x hx => ?_, sorted⟩
        rcases List.mem_cons.mp hx with rfl | hx
        · exact isAbove_iff.mpr above
        · have := isAbove_iff.mp (first x hx)
          exact isAbove_iff.mpr (by omega)
      · rename_i below
        rw [isAbove_iff] at below
        refine List.pairwise_cons.mpr ⟨fun x hx => ?_, ih rest last⟩
        rcases mem_push.mp hx with rfl | hx
        · exact isAbove_iff.mpr (by omega)
        · exact first x hx

variable {α : Type}

/-- The entry at a place, if the place is not empty. -/
def shown? (tasks : List (Token × α)) (s : Slot) : Option (Entry α) :=
  (tasks.lookup s.token).map fun task => ⟨s.token, s.deadline, task⟩

theorem shown?_eq_some_iff {tasks : List (Token × α)} {s : Slot} {e : Entry α} :
    s.shown? tasks = some e ↔
      tasks.lookup e.token = some e.task ∧ s = ⟨e.deadline, e.token⟩ := by
  obtain ⟨deadline, token⟩ := s
  obtain ⟨token', deadline', task⟩ := e
  simp only [shown?, Option.map_eq_some_iff, Entry.mk.injEq, Slot.mk.injEq]
  constructor
  · rintro ⟨_, found, rfl, rfl, rfl⟩
    exact ⟨found, rfl, rfl⟩
  · rintro ⟨found, rfl, rfl⟩
    exact ⟨_, found, rfl, rfl, rfl⟩

end Slot

namespace Heap

variable {α : Type} {h : Heap α} {tasks : List (Token × α)}

/-- The agenda a heap stands for. -/
def toAgenda (h : Heap α) : Agenda α := ⟨h.pile.filterMap (Slot.shown? h.tasks), h.next⟩

/-- A heap in order. -/
structure Ordered (h : Heap α) : Prop where
  /-- What is done first lies on top. -/
  sorted : h.pile.Pairwise fun x y => x.isAbove y = true
  /-- The token given out next is larger than all that were given out. -/
  issued : ∀ s ∈ h.pile, s.token.number < h.next.number
  /-- A token has one place. -/
  places : (h.pile.map Slot.token).Nodup
  /-- A token has one task. -/
  names : (h.tasks.map Prod.fst).Nodup
  /-- Every task has a place. -/
  placed : ∀ t ∈ h.tasks.map Prod.fst, t ∈ h.pile.map Slot.token

theorem lookup_delete (tasks : List (Token × α)) (t u : Token) :
    (delete tasks t).lookup u = if u = t then none else tasks.lookup u := by
  induction tasks with
  | nil => simp [delete]
  | cons x xs ih =>
      unfold delete at ih ⊢
      rw [List.filter_cons]
      by_cases same : x.1 = t
      · rw [if_neg (by simp [same]), ih]
        split
        · rfl
        · rename_i other
          have : (u == x.1) = false := by simpa [same] using other
          rw [List.lookup_cons, this]
      · rw [if_pos (by simp [same]), List.lookup_cons, List.lookup_cons, ih]
        by_cases here : u = x.1
        · simp [here, same]
        · have : (u == x.1) = false := by simpa using here
          simp only [this]

/-- Deleting a task is striking its entry. -/
theorem filterMap_delete (tasks : List (Token × α)) (t : Token) (pile : List Slot) :
    pile.filterMap (Slot.shown? (delete tasks t)) =
      (pile.filterMap (Slot.shown? tasks)).filter (·.token != t) := by
  rw [List.filter_filterMap]
  refine List.filterMap_congr fun s _ => ?_
  unfold Slot.shown?
  rw [lookup_delete]
  by_cases same : s.token = t
  · cases tasks.lookup s.token <;> simp [same, Option.filter]
  · cases tasks.lookup s.token <;> simp [same, Option.filter]

theorem toAgenda_delete (h : Heap α) (t : Token) :
    ({ h with tasks := delete h.tasks t } : Heap α).toAgenda = h.toAgenda.erase t := by
  simp only [toAgenda, erase, filterMap_delete]

theorem isSome_lookup_iff {t : Token} : (tasks.lookup t).isSome = true ↔ t ∈ tasks.map Prod.fst := by
  rw [List.lookup_isSome_iff, List.mem_map]
  exact exists_congr fun x => and_congr_right fun _ => by rw [beq_iff_eq, eq_comm]

/-! ## What shows -/

namespace Ordered

/-- No two places have the same token. -/
theorem eq_of_token_eq (o : h.Ordered) {x y : Slot} (hx : x ∈ h.pile) (hy : y ∈ h.pile)
    (same : x.token = y.token) : x = y :=
  List.inj_on_of_nodup_map o.places hx hy same

/-- Every task shows at its place. -/
theorem exists_entry (o : h.Ordered) {t : Token} (live : h.isLive t = true) :
    ∃ e ∈ h.toAgenda.entries, e.token = t := by
  obtain ⟨s, hs, rfl⟩ := List.mem_map.mp (o.placed t (isSome_lookup_iff.mp live))
  obtain ⟨task, found⟩ := Option.isSome_iff_exists.mp live
  exact ⟨⟨s.token, s.deadline, task⟩, List.mem_filterMap.mpr
    ⟨s, hs, Slot.shown?_eq_some_iff.mpr ⟨found, rfl⟩⟩, rfl⟩

theorem wellFormed (o : h.Ordered) : h.toAgenda.WellFormed where
  sorted := by
    refine o.sorted.filterMap _ fun x y above e he e' he' => ?_
    obtain ⟨-, rfl⟩ := Slot.shown?_eq_some_iff.mp he
    obtain ⟨-, rfl⟩ := Slot.shown?_eq_some_iff.mp he'
    exact Slot.isAbove_iff.mp above
  issued := by
    intro e he
    obtain ⟨s, hs, entry⟩ := List.mem_filterMap.mp he
    obtain ⟨-, rfl⟩ := Slot.shown?_eq_some_iff.mp entry
    exact o.issued _ hs
  unique := by
    intro e he e' he' same
    obtain ⟨s, hs, entry⟩ := List.mem_filterMap.mp he
    obtain ⟨s', hs', entry'⟩ := List.mem_filterMap.mp he'
    obtain ⟨-, eq⟩ := Slot.shown?_eq_some_iff.mp entry
    obtain ⟨-, eq'⟩ := Slot.shown?_eq_some_iff.mp entry'
    have place : s = s' := o.eq_of_token_eq hs hs' (by rw [eq, eq', same])
    rw [place] at entry
    exact Option.some.inj (entry.symm.trans entry')

theorem isLive_toAgenda (o : h.Ordered) (t : Token) : h.toAgenda.isLive t = h.isLive t := by
  rw [Bool.eq_iff_iff, isLive_iff]
  refine ⟨fun ⟨e, he, token⟩ => ?_, o.exists_entry⟩
  obtain ⟨s, hs, entry⟩ := List.mem_filterMap.mp he
  rw [isLive, ← token, (Slot.shown?_eq_some_iff.mp entry).1]
  rfl

theorem size_toAgenda (o : h.Ordered) : h.toAgenda.size = h.size := by
  have same : (h.toAgenda.entries.map Entry.token).Perm (h.tasks.map Prod.fst) := by
    refine (List.perm_ext_iff_of_nodup o.wellFormed.nodup_tokens o.names).mpr fun t => ?_
    rw [← isSome_lookup_iff, List.mem_map, ← Agenda.isLive_iff, o.isLive_toAgenda]
    rfl
  have count := same.length_eq
  rwa [List.length_map, List.length_map] at count

/-! ## Making an entry -/

theorem next_not_mem (o : h.Ordered) : h.next ∉ h.tasks.map Prod.fst := by
  intro known
  obtain ⟨s, hs, token⟩ := List.mem_map.mp (o.placed _ known)
  exact Nat.lt_irrefl _ (token ▸ o.issued s hs)

theorem schedule (o : h.Ordered) (deadline : Instant) (task : α) :
    (h.schedule deadline task).2.Ordered where
  sorted := Slot.pairwise_push o.sorted o.issued
  issued := by
    intro s hs
    show s.token.number < h.next.number + 1
    rcases Slot.mem_push.mp hs with rfl | hs
    · exact Nat.lt_succ_self _
    · exact Nat.lt_succ_of_lt (o.issued s hs)
  places := by
    refine ((Slot.perm_push _ _).map Slot.token).nodup_iff.mpr (List.nodup_cons.mpr ⟨?_, o.places⟩)
    intro old
    obtain ⟨s, hs, token⟩ := List.mem_map.mp old
    have := o.issued s hs
    rw [token] at this
    exact Nat.lt_irrefl _ this
  names := List.nodup_cons.mpr ⟨o.next_not_mem, o.names⟩
  placed := by
    intro t ht
    refine ((Slot.perm_push _ _).map Slot.token).mem_iff.mpr (List.mem_cons.mpr ?_)
    exact (List.mem_cons.mp ht).imp_right (o.placed t)

end Ordered

theorem shown?_cons_of_ne {t : Token} {s : Slot} (other : s.token ≠ t) (task : α) :
    s.shown? ((t, task) :: tasks) = s.shown? tasks := by
  have : (s.token == t) = false := by simpa using other
  simp only [Slot.shown?, List.lookup_cons, this]

/-- A place that is put into a pile shows where its entry belongs. -/
theorem filterMap_push (tasks : List (Token × α)) (task : α) (s : Slot) {pile : List Slot}
    (sorted : pile.Pairwise fun x y => x.isAbove y = true)
    (last : ∀ x ∈ pile, x.token.number < s.token.number) :
    (s.push pile).filterMap (Slot.shown? ((s.token, task) :: tasks)) =
      insert ⟨s.token, s.deadline, task⟩ (pile.filterMap (Slot.shown? tasks)) := by
  have here : s.shown? ((s.token, task) :: tasks) = some ⟨s.token, s.deadline, task⟩ :=
    Slot.shown?_eq_some_iff.mpr ⟨by simp, rfl⟩
  have elsewhere : ∀ x ∈ pile, x.shown? ((s.token, task) :: tasks) = x.shown? tasks := fun x hx =>
    shown?_cons_of_ne (fun same => Nat.lt_irrefl _ (same ▸ last x hx)) task
  induction pile with
  | nil => exact List.filterMap_cons_some here
  | cons y ys ih =>
      obtain ⟨first, rest⟩ := List.pairwise_cons.mp sorted
      obtain ⟨older, last⟩ := List.forall_mem_cons.mp last
      unfold Slot.push
      split
      · rename_i above
        rw [Slot.isAbove_iff] at above
        rw [List.filterMap_cons_some here, List.filterMap_congr elsewhere, insert_of_lt]
        intro e he
        obtain ⟨x, hx, entry⟩ := List.mem_filterMap.mp he
        rw [(Slot.shown?_eq_some_iff.mp entry).2] at hx
        show s.deadline.nanos < e.deadline.nanos
        rcases List.mem_cons.mp hx with rfl | hx
        · dsimp only at above older
          omega
        · have := Slot.isAbove_iff.mp (first _ hx)
          dsimp only at this
          omega
      · rename_i below
        rw [Slot.isAbove_iff] at below
        obtain ⟨there, elsewhere⟩ := List.forall_mem_cons.mp elsewhere
        rw [List.filterMap_cons, List.filterMap_cons, there, ih rest last elsewhere]
        cases entry : y.shown? tasks with
        | none => rfl
        | some e =>
            obtain ⟨-, rfl⟩ := Slot.shown?_eq_some_iff.mp entry
            have early : e.deadline ≤ s.deadline := Nat.le_of_not_lt fun late => below (Or.inl late)
            exact (if_pos early).symm

theorem Ordered.toAgenda_schedule (o : h.Ordered) (deadline : Instant) (task : α) :
    (h.schedule deadline task).2.toAgenda = (h.toAgenda.schedule deadline task).2 :=
  congrArg (Agenda.mk · _) (filterMap_push h.tasks task ⟨deadline, h.next⟩ o.sorted o.issued)

/-! ## Striking an entry, and throwing places away -/

theorem Ordered.delete (o : h.Ordered) (t : Token) :
    ({ h with tasks := delete h.tasks t } : Heap α).Ordered where
  sorted := o.sorted
  issued := o.issued
  places := o.places
  names := o.names.sublist (List.filter_sublist.map _)
  placed := fun u hu => o.placed u ((List.filter_sublist.map _).subset hu)

/-- Places that show nothing may be thrown away. -/
theorem Ordered.shed (o : h.Ordered) {pile : List Slot} (less : pile.Sublist h.pile)
    (same : pile.filterMap (Slot.shown? h.tasks) = h.pile.filterMap (Slot.shown? h.tasks)) :
    ({ h with pile } : Heap α).Ordered ∧ ({ h with pile } : Heap α).toAgenda = h.toAgenda := by
  refine ⟨⟨o.sorted.sublist less, fun s hs => o.issued s (less.subset hs),
    o.places.sublist (less.map _), o.names, fun t ht => ?_⟩, congrArg (Agenda.mk · _) same⟩
  obtain ⟨e, he, rfl⟩ := o.exists_entry (isSome_lookup_iff.mpr ht)
  have he : e ∈ h.pile.filterMap (Slot.shown? h.tasks) := he
  rw [← same] at he
  obtain ⟨s, hs, entry⟩ := List.mem_filterMap.mp he
  obtain ⟨-, rfl⟩ := Slot.shown?_eq_some_iff.mp entry
  exact List.mem_map.mpr ⟨_, hs, rfl⟩

theorem dropWhile_empty (tasks : List (Token × α)) (pile : List Slot) :
    (pile.dropWhile fun s => !(tasks.lookup s.token).isSome).filterMap (Slot.shown? tasks) =
        pile.filterMap (Slot.shown? tasks) ∧
      (pile.dropWhile fun s => !(tasks.lookup s.token).isSome).head?.map Slot.deadline =
        (pile.filterMap (Slot.shown? tasks)).head?.map Entry.deadline := by
  induction pile with
  | nil => exact ⟨rfl, rfl⟩
  | cons s pile ih =>
      rw [List.dropWhile_cons]
      cases found : tasks.lookup s.token with
      | none =>
          rw [List.filterMap_cons_none (by simp [Slot.shown?, found])]
          exact ih
      | some task =>
          have shown : s.shown? tasks = some ⟨s.token, s.deadline, task⟩ := by
            simp [Slot.shown?, found]
          rw [List.filterMap_cons_some shown]
          exact ⟨List.filterMap_cons_some shown, rfl⟩

/-- Tidying up does not show. -/
theorem Ordered.tidy (o : h.Ordered) : h.tidy.Ordered ∧ h.tidy.toAgenda = h.toAgenda :=
  o.shed (List.dropWhile_sublist _) (dropWhile_empty h.tasks h.pile).1

theorem nextDeadline_toAgenda (h : Heap α) : h.nextDeadline.1 = h.toAgenda.nextDeadline :=
  (dropWhile_empty h.tasks h.pile).2

/-! ## Taking out the first entry -/

/-- Digging stops at the first place that has a task, or before the first that is not due. -/
theorem dig_cases (now : Instant) (tasks : List (Token × α)) {pile : List Slot}
    (sorted : pile.Pairwise fun x y => x.isAbove y = true) :
    (∃ rest, dig now tasks pile = (none, rest) ∧ rest.Sublist pile ∧
        rest.filterMap (Slot.shown? tasks) = pile.filterMap (Slot.shown? tasks) ∧
        ∀ s ∈ rest, now < s.deadline) ∨
      ∃ e rest, dig now tasks pile = (some (e.token, e.task), rest) ∧ rest.Sublist pile ∧
        pile.filterMap (Slot.shown? tasks) = e :: rest.filterMap (Slot.shown? tasks) ∧
        e.deadline ≤ now := by
  induction pile with
  | nil => exact Or.inl ⟨[], rfl, List.Sublist.refl _, rfl, by simp⟩
  | cons s pile ih =>
      obtain ⟨first, sorted⟩ := List.pairwise_cons.mp sorted
      unfold dig
      split
      · rename_i due
        cases found : tasks.lookup s.token with
        | none =>
            have empty : s.shown? tasks = none := by simp [Slot.shown?, found]
            rw [List.filterMap_cons_none empty]
            rcases ih sorted with ⟨rest, eq, less, same, late⟩ | ⟨e, rest, eq, less, same, early⟩
            · exact Or.inl ⟨rest, eq, less.cons s, same, late⟩
            · exact Or.inr ⟨e, rest, eq, less.cons s, same, early⟩
        | some task =>
            have shown : s.shown? tasks = some ⟨s.token, s.deadline, task⟩ := by
              simp [Slot.shown?, found]
            exact Or.inr ⟨_, pile, rfl, List.sublist_cons_self s pile,
              List.filterMap_cons_some shown, due⟩
      · rename_i late
        have late : now.nanos < s.deadline.nanos := Nat.lt_of_not_le late
        refine Or.inl ⟨s :: pile, rfl, List.Sublist.refl _, rfl, fun x hx => ?_⟩
        show now.nanos < x.deadline.nanos
        rcases List.mem_cons.mp hx with rfl | hx
        · exact late
        · have := Slot.isAbove_iff.mp (first x hx)
          omega

/-- What is taken out of a heap is what is taken out of its agenda, and the rest of it is the heap of
the rest. -/
theorem Ordered.popDue (o : h.Ordered) (now : Instant) :
    (h.popDue now).2.Ordered ∧
      (h.popDue now).1 = (h.toAgenda.popDue now).map (fun p => (p.1.token, p.1.task)) ∧
      (h.popDue now).2.toAgenda = ((h.toAgenda.popDue now).map Prod.snd).getD h.toAgenda := by
  rcases dig_cases now h.tasks o.sorted with
    ⟨rest, eq, less, same, late⟩ | ⟨e, rest, eq, less, same, due⟩
  · obtain ⟨ordered, agenda⟩ := o.shed less same
    have none : h.toAgenda.popDue now = none := by
      refine popDue_eq_none_iff.mpr fun t next => ?_
      rw [← agenda] at next
      obtain ⟨e, head, rfl⟩ := Option.map_eq_some_iff.mp next
      obtain ⟨s, hs, entry⟩ := List.mem_filterMap.mp (List.mem_of_head? head)
      obtain ⟨-, rfl⟩ := Slot.shown?_eq_some_iff.mp entry
      exact late _ hs
    have pop : h.popDue now = (Option.none, { h with pile := rest }) := by
      simp only [Heap.popDue, eq]
    rw [pop, none]
    exact ⟨ordered, rfl, agenda⟩
  · have pop : h.popDue now =
        (some (e.token, e.task), { h with pile := rest, tasks := Heap.delete h.tasks e.token }) := by
      simp only [Heap.popDue, eq]
    have first : h.toAgenda.popDue now =
        some (e, ⟨rest.filterMap (Slot.shown? h.tasks), h.next⟩) :=
      popDue_eq_some_iff.mpr ⟨same, rfl, due⟩
    obtain ⟨-, struck, -⟩ := o.wellFormed.popDue_eq_some first
    -- the place that is thrown away with the task shows nothing any more
    have shed := (o.delete e.token).shed less (by
      rw [filterMap_delete, filterMap_delete, same, List.filter_cons_of_neg (by simp)])
    rw [pop, first]
    exact ⟨shed.1, rfl, (shed.2.trans (toAgenda_delete h e.token)).trans struck.symm⟩

end Heap

end Lighting.Agenda
