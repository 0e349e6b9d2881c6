import Lighting.Agenda
import Mathlib.Data.List.Basic

/-!
# Agendas in order

An agenda is read from its head: the next task is the first entry.  `WellFormed` is what makes that
right.  The entries stand in the order in which they fall due, entries of one moment in the order in
which they were made, and no two of them share a token.  Every operation keeps it, and with it an
operation is fixed by what it does to the *members* of the list; the position of a member never has
to be mentioned.

`bookAll` enters a whole row of tasks, which is how the steps of a ramp come onto the agenda.
-/

namespace Lighting.Agenda

variable {α : Type}

/-- The entry is done before the other one: it falls due earlier, or at the same moment and was made
earlier. -/
def Entry.Before (x y : Entry α) : Prop :=
  x.deadline.nanos < y.deadline.nanos ∨
    x.deadline.nanos = y.deadline.nanos ∧ x.token.number < y.token.number

theorem Entry.Before.asymm {x y : Entry α} (h : x.Before y) : ¬ y.Before x := by
  unfold Entry.Before at *
  omega

/-- The entries stand in the order they are done, tokens are given out in ascending order, and each
token names one entry. -/
structure WellFormed (g : Agenda α) : Prop where
  /-- What is done first stands first. -/
  sorted : g.entries.Pairwise Entry.Before
  /-- The token given out next is larger than all that were given out. -/
  issued : ∀ x ∈ g.entries, x.token.number < g.next.number
  /-- A token names one entry. -/
  unique : ∀ x ∈ g.entries, ∀ y ∈ g.entries, x.token = y.token → x = y

theorem wellFormed_empty : (empty : Agenda α).WellFormed :=
  ⟨List.Pairwise.nil, by simp [empty], by simp [empty]⟩

/-! ## Making an entry -/

theorem pairwise_insert {e : Entry α} {es : List (Entry α)} (sorted : es.Pairwise Entry.Before)
    (last : ∀ x ∈ es, x.token.number < e.token.number) :
    (insert e es).Pairwise Entry.Before := by
  induction es with
  | nil => exact List.pairwise_singleton _ _
  | cons y ys ih =>
      obtain ⟨first, rest⟩ := List.pairwise_cons.mp sorted
      have younger := last y List.mem_cons_self
      unfold insert
      split
      · rename_i earlier
        rw [Instant.le_def] at earlier
        refine List.pairwise_cons.mpr
          ⟨fun x hx => ?_, ih rest fun x hx => last x (List.mem_cons_of_mem _ hx)⟩
        rcases mem_insert.mp hx with rfl | hx
        · unfold Entry.Before
          omega
        · exact first x hx
      · rename_i later
        rw [Instant.le_def] at later
        -- all that stood here falls due after `e`, so `e` comes before all of it
        refine List.pairwise_cons.mpr ⟨fun x hx => Or.inl ?_, sorted⟩
        rcases List.mem_cons.mp hx with rfl | hx
        · omega
        · have := first x hx
          unfold Entry.Before at this
          omega

theorem WellFormed.schedule {g : Agenda α} (wf : g.WellFormed) (deadline : Instant) (task : α) :
    (g.schedule deadline task).2.WellFormed where
  sorted := pairwise_insert wf.sorted wf.issued
  issued := by
    intro x hx
    show x.token.number < g.next.number + 1
    rcases mem_entries_schedule.mp hx with rfl | hx
    · exact Nat.lt_succ_self _
    · exact Nat.lt_succ_of_lt (wf.issued x hx)
  unique := by
    intro x hx y hy same
    rcases mem_entries_schedule.mp hx with rfl | hx <;>
      rcases mem_entries_schedule.mp hy with rfl | hy
    · rfl
    · exact absurd (wf.issued y hy) (by rw [← same]; exact Nat.lt_irrefl _)
    · exact absurd (wf.issued x hx) (by rw [same]; exact Nat.lt_irrefl _)
    · exact wf.unique x hx y hy same

@[simp] theorem next_schedule (g : Agenda α) (deadline : Instant) (task : α) :
    (g.schedule deadline task).2.next = ⟨g.next.number + 1⟩ := rfl

@[simp] theorem schedule_fst (g : Agenda α) (deadline : Instant) (task : α) :
    (g.schedule deadline task).1 = g.next := rfl

/-! ## Striking entries -/

theorem WellFormed.erase {g : Agenda α} (wf : g.WellFormed) (t : Token) :
    (g.erase t).WellFormed where
  sorted := wf.sorted.filter _
  issued := fun x hx => wf.issued x (mem_entries_erase.mp hx).1
  unique := fun x hx y hy =>
    wf.unique x (mem_entries_erase.mp hx).1 y (mem_entries_erase.mp hy).1

@[simp] theorem next_erase (g : Agenda α) (t : Token) : (g.erase t).next = g.next := rfl

theorem WellFormed.eraseAll {g : Agenda α} (wf : g.WellFormed) (ts : List Token) :
    (g.eraseAll ts).WellFormed := by
  induction ts generalizing g with
  | nil => exact wf
  | cons t ts ih => exact ih (wf.erase t)

@[simp] theorem next_eraseAll (g : Agenda α) (ts : List Token) :
    (g.eraseAll ts).next = g.next := by
  induction ts generalizing g with
  | nil => rfl
  | cons t ts ih => exact ih (g.erase t)

@[simp] theorem mem_entries_eraseAll {g : Agenda α} {ts : List Token} {x : Entry α} :
    x ∈ (g.eraseAll ts).entries ↔ x ∈ g.entries ∧ x.token ∉ ts := by
  induction ts generalizing g with
  | nil => simp [eraseAll]
  | cons t ts ih =>
      have := ih (g := g.erase t)
      rw [mem_entries_erase] at this
      rw [show g.eraseAll (t :: ts) = (g.erase t).eraseAll ts from rfl, this, List.mem_cons,
        not_or, and_assoc]

theorem insert_of_lt {e : Entry α} {es : List (Entry α)}
    (h : ∀ x ∈ es, e.deadline.nanos < x.deadline.nanos) : insert e es = e :: es := by
  cases es with
  | nil => rfl
  | cons x xs => exact if_neg (Nat.not_le.mpr (h x List.mem_cons_self))

theorem filter_insert {p : Entry α → Bool} {e : Entry α} {es : List (Entry α)}
    (sorted : es.Pairwise Entry.Before) (keep : p e = true) :
    (insert e es).filter p = insert e (es.filter p) := by
  induction es with
  | nil => simp [insert, keep]
  | cons x xs ih =>
      obtain ⟨first, rest⟩ := List.pairwise_cons.mp sorted
      by_cases earlier : x.deadline.nanos ≤ e.deadline.nanos
      · have step (l : List (Entry α)) : insert e (x :: l) = x :: insert e l := if_pos earlier
        rw [step, List.filter_cons, List.filter_cons, ih rest]
        split
        · rw [step]
        · rfl
      · have after : ∀ z ∈ (x :: xs).filter p, e.deadline.nanos < z.deadline.nanos := by
          intro z hz
          rcases List.mem_cons.mp (List.mem_filter.mp hz).1 with rfl | hz
          · exact Nat.lt_of_not_le earlier
          · have := first z hz
            unfold Entry.Before at this
            omega
        rw [insert_of_lt after, show insert e (x :: xs) = e :: x :: xs from if_neg earlier,
          List.filter_cons_of_pos keep]

/-- Striking an entry and making another one may be done in either order. -/
theorem WellFormed.erase_schedule {g : Agenda α} (wf : g.WellFormed) {t : Token}
    (deadline : Instant) (task : α) (old : t ≠ g.next) :
    (g.schedule deadline task).2.erase t = ((g.erase t).schedule deadline task).2 := by
  have entries := filter_insert (p := (·.token != t)) (e := ⟨g.next, deadline, task⟩) wf.sorted
    (by simpa using Ne.symm old)
  simp only [Agenda.schedule, Agenda.erase, entries]

/-! ## Taking out the first entry -/

/-- Taking out the first entry is striking it. -/
theorem WellFormed.popDue_eq_some {g h : Agenda α} (wf : g.WellFormed) {now : Instant}
    {e : Entry α} (pop : g.popDue now = some (e, h)) :
    e ∈ g.entries ∧ h = g.erase e.token ∧ ∀ x ∈ h.entries, e.Before x := by
  obtain ⟨entries, next, -⟩ := popDue_eq_some_iff.mp pop
  have sorted := wf.sorted
  rw [entries] at sorted
  obtain ⟨first, -⟩ := List.pairwise_cons.mp sorted
  have member : e ∈ g.entries := entries ▸ List.mem_cons_self
  refine ⟨member, ?_, first⟩
  have others : ∀ x ∈ h.entries, x.token ≠ e.token := by
    intro x hx same
    have hx' : x ∈ g.entries := entries ▸ List.mem_cons_of_mem _ hx
    exact (wf.unique x hx' e member same ▸ first x hx).asymm
      (wf.unique x hx' e member same ▸ first x hx)
  have keep : h.entries.filter (·.token != e.token) = h.entries :=
    List.filter_eq_self.mpr fun x hx => by simpa using others x hx
  show h = { g with entries := g.entries.filter (·.token != e.token) }
  rw [entries, List.filter_cons_of_neg (by simp), keep, ← next]

/-! ## Reading part of an agenda

A reader of the agenda cares for some of the entries only: those of one address, say.  What it reads
is `entries.filterMap f`, in the order in which the entries are done. -/

section Reading

variable {β : Type} {f : Entry α → Option β}

/-- An entry the reader does not care for may be made without its noticing. -/
theorem filterMap_schedule_of_none {g : Agenda α} {deadline : Instant} {task : α}
    (h : f ⟨g.next, deadline, task⟩ = none) :
    (g.schedule deadline task).2.entries.filterMap f = g.entries.filterMap f := by
  show (insert ⟨g.next, deadline, task⟩ g.entries).filterMap f = _
  induction g.entries with
  | nil => simp [insert, h]
  | cons x xs ih =>
      unfold insert
      split
      · rw [List.filterMap_cons, List.filterMap_cons, ih]
      · rw [List.filterMap_cons_none h]

/-- An entry that falls due no earlier than all the reader cares for is read last. -/
theorem WellFormed.filterMap_schedule_of_last {g : Agenda α} (wf : g.WellFormed)
    {deadline : Instant} {task : α} {y : β} (h : f ⟨g.next, deadline, task⟩ = some y)
    (last : ∀ x ∈ g.entries, (f x).isSome → x.deadline.nanos ≤ deadline.nanos) :
    (g.schedule deadline task).2.entries.filterMap f = g.entries.filterMap f ++ [y] := by
  show (insert ⟨g.next, deadline, task⟩ g.entries).filterMap f = _
  have sorted := wf.sorted
  revert sorted last
  induction g.entries with
  | nil => simp [insert, h]
  | cons x xs ih =>
      intro last sorted
      obtain ⟨first, rest⟩ := List.pairwise_cons.mp sorted
      unfold insert
      split
      · rw [List.filterMap_cons, List.filterMap_cons,
          ih (fun z hz => last z (List.mem_cons_of_mem _ hz)) rest]
        cases f x <;> rfl
      · rename_i later
        have later : deadline.nanos < x.deadline.nanos := Nat.lt_of_not_le later
        -- what stands from here on falls due later, so the reader does not care for it
        have none : ∀ z ∈ x :: xs, f z = none := by
          intro z hz
          have after : x.deadline.nanos ≤ z.deadline.nanos := by
            rcases List.mem_cons.mp hz with rfl | hz
            · exact Nat.le_refl _
            · have := first z hz
              unfold Entry.Before at this
              omega
          cases care : f z with
          | none => rfl
          | some _ =>
              have := last z hz (Option.isSome_of_eq_some care)
              omega
        rw [List.filterMap_cons_some h, List.filterMap_eq_nil_iff.mpr none]
        rfl

/-- An entry the reader does not care for may be struck without its noticing. -/
theorem filterMap_erase {g : Agenda α} {t : Token}
    (h : ∀ x ∈ g.entries, x.token = t → f x = none) :
    (g.erase t).entries.filterMap f = g.entries.filterMap f := by
  show (g.entries.filter (·.token != t)).filterMap f = _
  rw [List.filterMap_filter]
  refine List.filterMap_congr fun x hx => ?_
  by_cases same : x.token = t
  · simp [same, h x hx same]
  · simp [same]

theorem filterMap_eraseAll {g : Agenda α} {ts : List Token}
    (h : ∀ x ∈ g.entries, x.token ∈ ts → f x = none) :
    (g.eraseAll ts).entries.filterMap f = g.entries.filterMap f := by
  induction ts generalizing g with
  | nil => rfl
  | cons t ts ih =>
      rw [show g.eraseAll (t :: ts) = (g.erase t).eraseAll ts from rfl,
        ih fun x hx member => h x (mem_entries_erase.mp hx).1 (List.mem_cons_of_mem _ member),
        filterMap_erase fun x hx same => h x hx (same ▸ List.mem_cons_self)]

end Reading

/-- Striking an entry by its token takes away this entry and no other. -/
theorem WellFormed.mem_entries_erase_token {g : Agenda α} (wf : g.WellFormed) {e x : Entry α}
    (h : e ∈ g.entries) : x ∈ (g.erase e.token).entries ↔ x ∈ g.entries ∧ x ≠ e := by
  rw [mem_entries_erase]
  refine and_congr_right fun hx => ⟨fun ne => ?_, fun ne same => ne (wf.unique x hx e h same)⟩
  rintro rfl
  exact ne rfl

/-- A test that one entry alone passes finds this entry, once. -/
theorem WellFormed.filter_eq_singleton {g : Agenda α} (wf : g.WellFormed)
    {p : Entry α → Bool} {e : Entry α} (there : e ∈ g.entries) (passes : p e = true)
    (only : ∀ x ∈ g.entries, p x = true → x = e) : g.entries.filter p = [e] := by
  have found : e ∈ g.entries.filter p := List.mem_filter.mpr ⟨there, passes⟩
  have all : ∀ x ∈ g.entries.filter p, x = e := fun x hx =>
    only x (List.mem_filter.mp hx).1 (List.mem_filter.mp hx).2
  have sorted : (g.entries.filter p).Pairwise Entry.Before := wf.sorted.filter p
  cases entries : g.entries.filter p with
  | nil =>
      rw [entries] at found
      cases found
  | cons x xs =>
      rw [entries] at all sorted
      obtain ⟨rfl, rest⟩ := List.forall_mem_cons.mp all
      -- an entry does not come before itself
      cases xs with
      | nil => rfl
      | cons y ys =>
          obtain rfl := rest y List.mem_cons_self
          have before := (List.pairwise_cons.mp sorted).1 y List.mem_cons_self
          exact absurd before before.asymm

/-! ## The next deadline -/

/-- Nothing is due before the next deadline. -/
theorem popDue_eq_none_iff {g : Agenda α} {now : Instant} :
    g.popDue now = none ↔ ∀ t, g.nextDeadline = some t → now < t := by
  obtain ⟨entries, next⟩ := g
  cases entries with
  | nil => simp [popDue, nextDeadline]
  | cons e es =>
      simp only [popDue, nextDeadline, List.head?_cons, Option.map_some, Option.some.injEq,
        forall_eq']
      split
      · rename_i due
        exact iff_of_false (Option.some_ne_none _) (Nat.not_lt.mpr due)
      · rename_i early
        exact iff_of_true rfl (Nat.lt_of_not_le early)

/-- If nothing is due, all deadlines are still ahead. -/
theorem WellFormed.lt_of_popDue_eq_none {g : Agenda α} (wf : g.WellFormed) {now : Instant}
    (none : g.popDue now = none) {e : Entry α} (he : e ∈ g.entries) : now < e.deadline := by
  have first := popDue_eq_none_iff.mp none
  have sorted := wf.sorted
  obtain ⟨entries, next⟩ := g
  cases entries with
  | nil => cases he
  | cons x xs =>
      have early : now < x.deadline := first x.deadline rfl
      rcases List.mem_cons.mp he with rfl | he
      · exact early
      · have before := (List.pairwise_cons.mp sorted).1 e he
        unfold Entry.Before at before
        have early : now.nanos < x.deadline.nanos := early
        show now.nanos < e.deadline.nanos
        omega

/-- At the next deadline something is due. -/
theorem isSome_popDue {g : Agenda α} {t : Instant} (h : g.nextDeadline = some t) :
    (g.popDue t).isSome := by
  cases pop : g.popDue t with
  | some p => rfl
  | none => exact absurd (popDue_eq_none_iff.mp pop t h) (Nat.lt_irrefl _)

/-- The next deadline is that of the entry just made, or it was the next one before. -/
theorem nextDeadline_schedule {g : Agenda α} {deadline t : Instant} {task : α}
    (h : (g.schedule deadline task).2.nextDeadline = some t) :
    t = deadline ∨ g.nextDeadline = some t := by
  obtain ⟨entries, next⟩ := g
  cases entries with
  | nil =>
      cases h
      exact Or.inl rfl
  | cons e es =>
      simp only [schedule, insert, nextDeadline] at h ⊢
      split at h
      · exact Or.inr h
      · cases h
        exact Or.inl rfl

/-! ## Booking a row of tasks -/

/-- Enters several tasks, each with its deadline. -/
def bookAll (g : Agenda α) (bookings : List (Instant × α)) : Agenda α :=
  bookings.foldl (fun g b => (g.schedule b.1 b.2).2) g

/-- The tokens of the `n` entries made next. -/
def upcoming (g : Agenda α) (n : Nat) : List Token :=
  (List.range n).map fun i => ⟨g.next.number + i⟩

theorem mem_upcoming {g : Agenda α} {n : Nat} {t : Token} :
    t ∈ g.upcoming n ↔ ∃ i < n, t = ⟨g.next.number + i⟩ := by
  simp [upcoming, eq_comm]

@[simp] theorem bookAll_nil (g : Agenda α) : g.bookAll [] = g := rfl

theorem bookAll_cons (g : Agenda α) (b : Instant × α) (bs : List (Instant × α)) :
    g.bookAll (b :: bs) = (g.schedule b.1 b.2).2.bookAll bs := rfl

theorem bookAll_append (g : Agenda α) (bs bs' : List (Instant × α)) :
    g.bookAll (bs ++ bs') = (g.bookAll bs).bookAll bs' := List.foldl_append

theorem WellFormed.bookAll {g : Agenda α} (wf : g.WellFormed) (bs : List (Instant × α)) :
    (g.bookAll bs).WellFormed := by
  induction bs generalizing g with
  | nil => exact wf
  | cons b bs ih => exact ih (wf.schedule b.1 b.2)

@[simp] theorem next_bookAll (g : Agenda α) (bs : List (Instant × α)) :
    (g.bookAll bs).next = ⟨g.next.number + bs.length⟩ := by
  induction bs generalizing g with
  | nil => rfl
  | cons b bs ih =>
      rw [bookAll_cons, ih, next_schedule, List.length_cons]
      simp only [Token.mk.injEq]
      omega

theorem upcoming_append (g : Agenda α) (bs : List (Instant × α)) (n : Nat) :
    g.upcoming bs.length ++ (g.bookAll bs).upcoming n = g.upcoming (bs.length + n) := by
  simp [upcoming, List.range_add, Nat.add_assoc]

/-- The members of an agenda after a row of bookings: those before, and one for each booking, with
the tokens in the order of the row. -/
theorem mem_entries_bookAll {g : Agenda α} {bs : List (Instant × α)} {x : Entry α} :
    x ∈ (g.bookAll bs).entries ↔
      x ∈ g.entries ∨
        ∃ (i : Nat) (b : Instant × α), bs[i]? = some b ∧ x = ⟨⟨g.next.number + i⟩, b.1, b.2⟩ := by
  induction bs generalizing g with
  | nil => simp
  | cons b bs ih =>
      rw [bookAll_cons, ih, mem_entries_schedule, next_schedule]
      constructor
      · rintro ((rfl | hx) | ⟨i, b', hb, rfl⟩)
        · exact Or.inr ⟨0, b, rfl, rfl⟩
        · exact Or.inl hx
        · exact Or.inr ⟨i + 1, b', by simpa using hb, by simp; omega⟩
      · rintro (hx | ⟨_ | i, b', hb, rfl⟩)
        · exact Or.inl (Or.inr hx)
        · obtain rfl : b = b' := by simpa using hb
          exact Or.inl (Or.inl rfl)
        · exact Or.inr ⟨i, b', by simpa using hb, by simp; omega⟩

end Lighting.Agenda
