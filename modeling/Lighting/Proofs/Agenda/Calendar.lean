import Lighting.Proofs.Agenda.Heap
import Mathlib.Data.Finmap
import Mathlib.Data.Finset.Card

/-!
# An agenda as a finite map

A `Calendar` is what one would write down without thinking of lists and piles: a finite map from the
tokens to the tasks that were entered and neither done nor struck.  `Serves` says how it answers; which
entry comes first is a matter of deadlines and of the order in which the entries were made, and not of
where anything stands.

### Two refinements

An agenda answers as a calendar does (`Mirrors.serve`), since its entries are in order.  A heap answers
as its agenda does (`Heap.Ordered.serve`), since empty places do not show.  So all three give the same
answers to the same calls, however long the row of calls is, and the calendar leaves no choice: its
answers are fixed (`Serves.unique`).
-/

namespace Lighting.Agenda

variable {α : Type}

/-! ## Calls and answers -/

/-- What an agenda can be asked for. -/
inductive Call (α : Type) where
  /-- A task is to be entered. -/
  | schedule (deadline : Instant) (task : α)
  /-- An entry is to be struck. -/
  | cancel (t : Token)
  /-- Whether an entry is still there. -/
  | isLive (t : Token)
  /-- The first entry is to be taken out, if its deadline has come. -/
  | popDue (now : Instant)
  /-- The deadline of the first entry. -/
  | nextDeadline
  /-- The number of entries. -/
  | size

/-- What an agenda answers. -/
inductive Answer (α : Type) where
  /-- The token of the entry that was made. -/
  | token (t : Token)
  /-- Whether the entry is there, or was there before it was struck. -/
  | live (b : Bool)
  /-- What was taken out. -/
  | taken (entry : Option (Token × α))
  /-- The deadline of the first entry, if there is one. -/
  | deadline (moment : Option Instant)
  /-- How many entries there are. -/
  | count (n : Nat)

/-- Answers a call. -/
def serve (g : Agenda α) : Call α → Answer α × Agenda α
  | .schedule deadline task => (.token (g.schedule deadline task).1, (g.schedule deadline task).2)
  | .cancel t => (.live (g.cancel t).1, (g.cancel t).2)
  | .isLive t => (.live (g.isLive t), g)
  | .popDue now =>
    (.taken ((g.popDue now).map fun p => (p.1.token, p.1.task)),
      ((g.popDue now).map Prod.snd).getD g)
  | .nextDeadline => (.deadline g.nextDeadline, g)
  | .size => (.count g.size, g)

/-- Answers a call. -/
def Heap.serve (h : Heap α) : Call α → Answer α × Heap α
  | .schedule deadline task => (.token (h.schedule deadline task).1, (h.schedule deadline task).2)
  | .cancel t => (.live (h.cancel t).1, (h.cancel t).2)
  | .isLive t => (.live (h.isLive t), h)
  | .popDue now => (.taken (h.popDue now).1, (h.popDue now).2)
  | .nextDeadline => (.deadline h.nextDeadline.1, h.nextDeadline.2)
  | .size => (.count h.size, h)

section Rows

variable {σ τ : Type}

/-- The answers to a row of calls. -/
def answers (serve : σ → Call α → Answer α × σ) : σ → List (Call α) → List (Answer α)
  | _, [] => []
  | s, call :: calls => (serve s call).1 :: answers serve (serve s call).2 calls

/-- What has become of an agenda after a row of calls. -/
def after (serve : σ → Call α → Answer α × σ) (s : σ) (calls : List (Call α)) : σ :=
  calls.foldl (fun s call => (serve s call).2) s

/-- What answers each call as its image does answers every row as its image does. -/
theorem answers_of_image {serve : σ → Call α → Answer α × σ} {serve' : τ → Call α → Answer α × τ}
    (good : σ → Prop) (image : σ → τ)
    (step : ∀ s call, good s → good (serve s call).2 ∧
      serve' (image s) call = ((serve s call).1, image (serve s call).2))
    {s : σ} (start : good s) (calls : List (Call α)) :
    answers serve' (image s) calls = answers serve s calls ∧ good (after serve s calls) := by
  induction calls generalizing s with
  | nil => exact ⟨rfl, start⟩
  | cons call calls ih =>
      obtain ⟨kept, eq⟩ := step s call start
      obtain ⟨rest, last⟩ := ih kept
      refine ⟨?_, last⟩
      rw [answers, eq, rest]
      rfl

end Rows

/-- The token that a call put an end to: its entry was struck, or its task was taken out. -/
def ended : Call α × Answer α → Option Token
  | (.cancel t, .live true) => some t
  | (.popDue _, .taken (some (t, _))) => some t
  | _ => none

/-! ## Calendars -/

/-- The tasks that are to be done, by token. -/
structure Calendar (α : Type) where
  /-- The tasks that were neither done nor struck, with their deadlines. -/
  live : Finmap fun _ : Token => Instant × α
  /-- The token of the entry made next. -/
  next : Token

namespace Calendar

/-- The calendar without entries. -/
def empty : Calendar α := ⟨∅, ⟨0⟩⟩

/-- The entry is on the calendar. -/
def Holds (s : Calendar α) (e : Entry α) : Prop :=
  s.live.lookup e.token = some (e.deadline, e.task)

/-- The entry comes first: no other one falls due earlier, or at the same moment and was made earlier. -/
structure IsFirst (s : Calendar α) (e : Entry α) : Prop where
  /-- The entry is on the calendar. -/
  there : s.Holds e
  /-- All others come after it. -/
  first : ∀ x, s.Holds x → x.token ≠ e.token → e.Before x

/-- How a calendar answers a call, and what becomes of it. -/
inductive Serves : Calendar α → Call α → Answer α → Calendar α → Prop
  /-- A task is entered under the next token. -/
  | schedule (s : Calendar α) (deadline : Instant) (task : α) :
      Serves s (.schedule deadline task) (.token s.next)
        ⟨s.live.insert s.next (deadline, task), ⟨s.next.number + 1⟩⟩
  /-- An entry is struck. -/
  | strike {s : Calendar α} {t : Token} (live : t ∈ s.live) :
      Serves s (.cancel t) (.live true) ⟨s.live.erase t, s.next⟩
  /-- There is nothing to strike. -/
  | miss {s : Calendar α} {t : Token} (gone : t ∉ s.live) : Serves s (.cancel t) (.live false) s
  /-- The entry is there. -/
  | present {s : Calendar α} {t : Token} (live : t ∈ s.live) : Serves s (.isLive t) (.live true) s
  /-- The entry is not there. -/
  | absent {s : Calendar α} {t : Token} (gone : t ∉ s.live) : Serves s (.isLive t) (.live false) s
  /-- The first entry is due and is taken out. -/
  | take {s : Calendar α} {e : Entry α} {now : Instant} (first : s.IsFirst e) (due : e.deadline ≤ now) :
      Serves s (.popDue now) (.taken (some (e.token, e.task))) ⟨s.live.erase e.token, s.next⟩
  /-- The first entry is not due. -/
  | wait {s : Calendar α} {e : Entry α} {now : Instant} (first : s.IsFirst e)
      (early : now < e.deadline) : Serves s (.popDue now) (.taken none) s
  /-- There is nothing to take out. -/
  | rest {s : Calendar α} {now : Instant} (idle : s.live = ∅) : Serves s (.popDue now) (.taken none) s
  /-- The deadline of the first entry. -/
  | deadline {s : Calendar α} {e : Entry α} (first : s.IsFirst e) :
      Serves s .nextDeadline (.deadline (some e.deadline)) s
  /-- There is no deadline. -/
  | never {s : Calendar α} (idle : s.live = ∅) : Serves s .nextDeadline (.deadline none) s
  /-- The entries are counted. -/
  | size (s : Calendar α) : Serves s .size (.count s.live.keys.card) s

/-- How a calendar answers a row of calls. -/
inductive Runs : Calendar α → List (Call α) → List (Answer α) → Prop
  /-- Nothing is asked. -/
  | nil (s : Calendar α) : Runs s [] []
  /-- The first call is answered, then the others. -/
  | cons {s s' : Calendar α} {call : Call α} {a : Answer α} {calls : List (Call α)}
      {as : List (Answer α)} (first : s.Serves call a s') (others : Runs s' calls as) :
      Runs s (call :: calls) (a :: as)

variable {s : Calendar α}

theorem IsFirst.unique {e f : Entry α} (h : s.IsFirst e) (h' : s.IsFirst f) : e = f := by
  obtain ⟨token, deadline, task⟩ := e
  obtain ⟨token', deadline', task'⟩ := f
  by_cases same : token = token'
  · subst same
    obtain ⟨rfl, rfl⟩ := Prod.mk.inj (Option.some.inj (h.there.symm.trans h'.there))
    rfl
  · exact absurd (h'.first _ h.there same) (h.first _ h'.there (Ne.symm same)).asymm

theorem not_isFirst_of_empty (none : s.live = ∅) (e : Entry α) : ¬ s.IsFirst e := by
  intro h
  have there : s.live.lookup e.token = some (e.deadline, e.task) := h.there
  rw [none, Finmap.lookup_empty] at there
  cases there

/-- A calendar has no choice. -/
theorem Serves.unique {call : Call α} {a a' : Answer α} {t t' : Calendar α}
    (h : s.Serves call a t) (h' : s.Serves call a' t') : a = a' ∧ t = t' := by
  cases h with
  | schedule | size => cases h'; exact ⟨rfl, rfl⟩
  | strike live =>
      cases h' with
      | strike => exact ⟨rfl, rfl⟩
      | miss gone => exact absurd live gone
  | miss gone =>
      cases h' with
      | strike live => exact absurd live gone
      | miss => exact ⟨rfl, rfl⟩
  | present live =>
      cases h' with
      | present => exact ⟨rfl, rfl⟩
      | absent gone => exact absurd live gone
  | absent gone =>
      cases h' with
      | present live => exact absurd live gone
      | absent => exact ⟨rfl, rfl⟩
  | take first due =>
      cases h' with
      | take first' =>
          obtain rfl := first.unique first'
          exact ⟨rfl, rfl⟩
      | wait first' early =>
          obtain rfl := first.unique first'
          exact absurd early (Nat.not_lt.mpr due)
      | rest none => exact absurd first (not_isFirst_of_empty none _)
  | wait first early =>
      cases h' with
      | take first' due =>
          obtain rfl := first.unique first'
          exact absurd early (Nat.not_lt.mpr due)
      | wait | rest => exact ⟨rfl, rfl⟩
  | rest none =>
      cases h' with
      | take first => exact absurd first (not_isFirst_of_empty none _)
      | wait | rest => exact ⟨rfl, rfl⟩
  | deadline first =>
      cases h' with
      | deadline first' =>
          obtain rfl := first.unique first'
          exact ⟨rfl, rfl⟩
      | never none => exact absurd first (not_isFirst_of_empty none _)
  | never none =>
      cases h' with
      | deadline first => exact absurd first (not_isFirst_of_empty none _)
      | never => exact ⟨rfl, rfl⟩

end Calendar

/-! ## An agenda answers as a calendar -/

/-- Striking an entry that is not there changes nothing. -/
theorem erase_of_not_live {g : Agenda α} {t : Token} (gone : g.isLive t = false) : g.erase t = g := by
  have others : g.entries.filter (·.token != t) = g.entries := by
    refine List.filter_eq_self.mpr fun e he => ?_
    rw [bne_iff_ne]
    rintro rfl
    exact Bool.eq_false_iff.mp gone (isLive_iff.mpr ⟨e, he, rfl⟩)
  rw [erase, others]

/-- An agenda in order, and a calendar that holds the same entries. -/
structure Mirrors (g : Agenda α) (s : Calendar α) : Prop where
  /-- The agenda is in order. -/
  wellFormed : g.WellFormed
  /-- Both make the next entry under the same token. -/
  next : s.next = g.next
  /-- They hold the same entries. -/
  entries : ∀ e, s.Holds e ↔ e ∈ g.entries

namespace Mirrors

variable {g : Agenda α} {s : Calendar α}

theorem mem_live_iff (m : Mirrors g s) {t : Token} : t ∈ s.live ↔ g.isLive t = true := by
  rw [Finmap.mem_iff, isLive_iff]
  constructor
  · rintro ⟨⟨deadline, task⟩, found⟩
    exact ⟨⟨t, deadline, task⟩, (m.entries ⟨t, deadline, task⟩).mp found, rfl⟩
  · rintro ⟨e, he, rfl⟩
    exact ⟨_, (m.entries e).mpr he⟩

theorem isFirst_of_head (m : Mirrors g s) {e : Entry α} {rest : List (Entry α)}
    (head : g.entries = e :: rest) : s.IsFirst e := by
  have sorted := m.wellFormed.sorted
  refine ⟨(m.entries e).mpr (head ▸ List.mem_cons_self), fun x holds other => ?_⟩
  have hx := (m.entries x).mp holds
  rw [head] at hx sorted
  rcases List.mem_cons.mp hx with rfl | hx
  · exact absurd rfl other
  · exact (List.pairwise_cons.mp sorted).1 x hx

theorem live_eq_empty (m : Mirrors g s) (none : g.entries = []) : s.live = ∅ := by
  refine Finmap.ext_lookup fun t => ?_
  rw [Finmap.lookup_empty, Finmap.lookup_eq_none, m.mem_live_iff, isLive_iff, none]
  rintro ⟨e, he, -⟩
  cases he

theorem card_keys (m : Mirrors g s) : s.live.keys.card = g.size := by
  have tokens : (g.entries.map Entry.token).Nodup := m.wellFormed.nodup_tokens
  have same : s.live.keys = (g.entries.map Entry.token).toFinset := by
    ext t
    rw [Finmap.mem_keys, m.mem_live_iff, isLive_iff, List.mem_toFinset, List.mem_map]
  rw [same, List.toFinset_card_of_nodup tokens, List.length_map, size]

theorem schedule (m : Mirrors g s) (deadline : Instant) (task : α) :
    Mirrors (g.schedule deadline task).2
      ⟨s.live.insert s.next (deadline, task), ⟨s.next.number + 1⟩⟩ where
  wellFormed := m.wellFormed.schedule deadline task
  next := by rw [m.next]; rfl
  entries := by
    intro e
    rw [mem_entries_schedule, ← m.entries, m.next]
    show (s.live.insert g.next (deadline, task)).lookup e.token = _ ↔ _
    by_cases new : e.token = g.next
    · rw [new, Finmap.lookup_insert]
      have old : ¬ s.Holds e := fun holds =>
        Nat.lt_irrefl _ (new ▸ m.wellFormed.issued e ((m.entries e).mp holds))
      rw [or_iff_left old, Option.some.injEq, Prod.mk.injEq]
      obtain ⟨token, deadline', task'⟩ := e
      obtain rfl : token = g.next := new
      simp [eq_comm]
    · rw [Finmap.lookup_insert_of_ne _ new]
      refine (or_iff_right ?_).symm
      rintro rfl
      exact new rfl

theorem erase (m : Mirrors g s) (t : Token) : Mirrors (g.erase t) ⟨s.live.erase t, s.next⟩ where
  wellFormed := m.wellFormed.erase t
  next := m.next
  entries := by
    intro e
    rw [mem_entries_erase, ← m.entries]
    show (s.live.erase t).lookup e.token = _ ↔ _
    by_cases same : e.token = t
    · rw [same, Finmap.lookup_erase]
      simp
    · rw [Finmap.lookup_erase_ne same]
      exact (and_iff_left same).symm

/-- **An agenda answers as a calendar does.** -/
theorem serve (m : Mirrors g s) (call : Call α) :
    ∃ s', s.Serves call (g.serve call).1 s' ∧ Mirrors (g.serve call).2 s' := by
  cases call with
  | schedule deadline task =>
      have served := Calendar.Serves.schedule s deadline task
      have token : Answer.token s.next = (g.serve (.schedule deadline task)).1 := by rw [m.next]; rfl
      exact ⟨_, token ▸ served, m.schedule deadline task⟩
  | cancel t =>
      cases live : g.isLive t with
      | true =>
          have served := Calendar.Serves.strike (m.mem_live_iff.mpr live)
          have answer : Answer.live true = (g.serve (.cancel t)).1 := by rw [← live]; rfl
          exact ⟨_, answer ▸ served, m.erase t⟩
      | false =>
          have served := Calendar.Serves.miss (mt m.mem_live_iff.mp (Bool.eq_false_iff.mp live))
          have answer : Answer.live false = (g.serve (.cancel t)).1 := by rw [← live]; rfl
          refine ⟨s, answer ▸ served, ?_⟩
          show Mirrors (g.erase t) s
          rw [erase_of_not_live live]
          exact m
  | isLive t =>
      cases live : g.isLive t with
      | true =>
          have served := Calendar.Serves.present (m.mem_live_iff.mpr live)
          have answer : Answer.live true = (g.serve (.isLive t)).1 := by rw [← live]; rfl
          exact ⟨s, answer ▸ served, m⟩
      | false =>
          have served := Calendar.Serves.absent (mt m.mem_live_iff.mp (Bool.eq_false_iff.mp live))
          have answer : Answer.live false = (g.serve (.isLive t)).1 := by rw [← live]; rfl
          exact ⟨s, answer ▸ served, m⟩
  | popDue now =>
      cases entries : g.entries with
      | nil =>
          have none : g.popDue now = none := by simp only [popDue, entries]
          rw [Agenda.serve, none]
          exact ⟨s, .rest (m.live_eq_empty entries), m⟩
      | cons e rest =>
          have first := m.isFirst_of_head entries
          by_cases due : e.deadline ≤ now
          · have some : g.popDue now = some (e, { g with entries := rest }) := by
              simp only [popDue, entries, if_pos due]
            have struck := (m.wellFormed.popDue_eq_some some).2.1
            rw [Agenda.serve, some]
            refine ⟨_, .take first due, ?_⟩
            show Mirrors { g with entries := rest } _
            rw [struck]
            exact m.erase e.token
          · have none : g.popDue now = none := by simp only [popDue, entries, if_neg due]
            rw [Agenda.serve, none]
            exact ⟨s, .wait first (Nat.lt_of_not_le due), m⟩
  | nextDeadline =>
      cases entries : g.entries with
      | nil =>
          have none : g.nextDeadline = none := by rw [nextDeadline, entries]; rfl
          rw [Agenda.serve, none]
          exact ⟨s, .never (m.live_eq_empty entries), m⟩
      | cons e rest =>
          have some : g.nextDeadline = some e.deadline := by rw [nextDeadline, entries]; rfl
          rw [Agenda.serve, some]
          exact ⟨s, .deadline (m.isFirst_of_head entries), m⟩
  | size => exact ⟨s, by rw [Agenda.serve, ← m.card_keys]; exact .size s, m⟩

/-- The answers of a calendar are those of its agenda. -/
theorem runs_iff (m : Mirrors g s) (calls : List (Call α)) (as : List (Answer α)) :
    s.Runs calls as ↔ as = answers Agenda.serve g calls := by
  induction calls generalizing g s as with
  | nil =>
      refine ⟨fun run => ?_, fun none => none ▸ .nil s⟩
      cases run
      rfl
  | cons call calls ih =>
      obtain ⟨s', served, m'⟩ := m.serve call
      constructor
      · intro run
        cases run with
        | cons first others =>
            obtain ⟨rfl, rfl⟩ := first.unique served
            rw [(ih m' _).mp others]
            rfl
      · rintro rfl
        exact .cons served ((ih m' _).mpr rfl)

end Mirrors

theorem mirrors_empty : Mirrors (empty : Agenda α) Calendar.empty where
  wellFormed := wellFormed_empty
  next := rfl
  entries := fun e => by simp [Calendar.Holds, Calendar.empty, empty]

/-! ## An entry comes to an end once -/

/-- The token may still come to an end: its entry is there, or is yet to be made. -/
def MayEnd (g : Agenda α) (t : Token) : Prop := g.isLive t = true ∨ g.next.number ≤ t.number

theorem MayEnd.of_erase {g : Agenda α} {t u : Token} (h : (g.erase t).MayEnd u) : g.MayEnd u := by
  refine h.imp_left fun live => ?_
  obtain ⟨e, he, token⟩ := isLive_iff.mp live
  exact isLive_iff.mpr ⟨e, (mem_entries_erase.mp he).1, token⟩

theorem WellFormed.not_mayEnd_erase {g : Agenda α} (wf : g.WellFormed) {t : Token}
    (live : g.isLive t = true) : ¬ (g.erase t).MayEnd t := by
  obtain ⟨e, he, rfl⟩ := isLive_iff.mp live
  rintro (still | later)
  · rw [isLive_erase_self] at still
    cases still
  · exact Nat.not_lt.mpr later (wf.issued e he)

/-- After a call an entry that was not to end before is not to end now; and what the call puts an end to
was there before, and has ended. -/
theorem WellFormed.serve {g : Agenda α} (wf : g.WellFormed) (call : Call α) :
    (g.serve call).2.WellFormed ∧ (∀ t, (g.serve call).2.MayEnd t → g.MayEnd t) ∧
      ∀ t, ended (call, (g.serve call).1) = some t → g.MayEnd t ∧ ¬ (g.serve call).2.MayEnd t := by
  cases call with
  | schedule deadline task =>
      refine ⟨wf.schedule deadline task, fun t may => ?_, nofun⟩
      rcases may with live | later
      · obtain ⟨e, he, rfl⟩ := isLive_iff.mp live
        rcases mem_entries_schedule.mp he with rfl | he
        · exact Or.inr (Nat.le_refl _)
        · exact Or.inl (isLive_iff.mpr ⟨e, he, rfl⟩)
      · exact Or.inr (Nat.le_of_succ_le later)
  | cancel t =>
      refine ⟨wf.erase t, fun u => MayEnd.of_erase, fun u ends => ?_⟩
      cases live : g.isLive t with
      | true =>
          simp only [Agenda.serve, cancel, live, ended, Option.some.injEq] at ends
          exact ends ▸ ⟨Or.inl live, wf.not_mayEnd_erase live⟩
      | false => simp [Agenda.serve, cancel, live, ended] at ends
  | isLive t => exact ⟨wf, fun _ may => may, nofun⟩
  | popDue now =>
      cases pop : g.popDue now with
      | none =>
          simp only [Agenda.serve, pop]
          exact ⟨wf, fun _ may => may, nofun⟩
      | some p =>
          obtain ⟨e, rest⟩ := p
          obtain ⟨there, rfl, -⟩ := wf.popDue_eq_some pop
          have live : g.isLive e.token = true := isLive_iff.mpr ⟨e, there, rfl⟩
          simp only [Agenda.serve, pop]
          refine ⟨wf.erase _, fun u => MayEnd.of_erase, fun u ends => ?_⟩
          obtain rfl : e.token = u := Option.some.inj ends
          exact ⟨Or.inl live, wf.not_mayEnd_erase live⟩
  | nextDeadline => exact ⟨wf, fun _ may => may, nofun⟩
  | size => exact ⟨wf, fun _ may => may, nofun⟩

/-- The tokens that come to an end along a row of calls. -/
def endings (calls : List (Call α)) (as : List (Answer α)) : List Token :=
  (calls.zip as).filterMap ended

/-- **No entry comes to an end twice.** -/
theorem WellFormed.nodup_endings {g : Agenda α} (wf : g.WellFormed) (calls : List (Call α)) :
    (∀ t ∈ endings calls (answers Agenda.serve g calls), g.MayEnd t) ∧
      (endings calls (answers Agenda.serve g calls)).Nodup := by
  induction calls generalizing g with
  | nil => exact ⟨nofun, List.nodup_nil⟩
  | cons call calls ih =>
      obtain ⟨wf', before, closes⟩ := wf.serve call
      obtain ⟨may, nodup⟩ := ih wf'
      cases ends : ended (call, (g.serve call).1) with
      | none =>
          rw [answers, endings, List.zip_cons_cons, List.filterMap_cons_none ends]
          exact ⟨fun t ht => before t (may t ht), nodup⟩
      | some t =>
          obtain ⟨open?, closed⟩ := closes t ends
          rw [answers, endings, List.zip_cons_cons, List.filterMap_cons_some ends]
          refine ⟨fun u hu => ?_, List.nodup_cons.mpr ⟨fun again => closed (may t again), nodup⟩⟩
          rcases List.mem_cons.mp hu with rfl | hu
          · exact open?
          · exact before u (may u hu)

/-! ## A heap answers as its agenda -/

namespace Heap

theorem ordered_empty : (empty : Heap α).Ordered :=
  ⟨List.Pairwise.nil, nofun, List.nodup_nil, List.nodup_nil, nofun⟩

/-- **A heap answers as its agenda does.** -/
theorem Ordered.serve {h : Heap α} (o : h.Ordered) (call : Call α) :
    (h.serve call).2.Ordered ∧
      h.toAgenda.serve call = ((h.serve call).1, (h.serve call).2.toAgenda) := by
  cases call with
  | schedule deadline task =>
      exact ⟨o.schedule deadline task, congrArg (Prod.mk _) (o.toAgenda_schedule deadline task).symm⟩
  | cancel t =>
      refine ⟨o.delete t, ?_⟩
      simp only [Agenda.serve, Heap.serve, Agenda.cancel, Heap.cancel, o.isLive_toAgenda,
        toAgenda_delete]
  | isLive t => exact ⟨o, by simp only [Agenda.serve, Heap.serve, o.isLive_toAgenda]⟩
  | popDue now =>
      obtain ⟨kept, answer, rest⟩ := o.popDue now
      exact ⟨kept, by simp only [Agenda.serve, Heap.serve, answer, rest]⟩
  | nextDeadline =>
      refine ⟨o.tidy.1, ?_⟩
      have rest : h.nextDeadline.2.toAgenda = h.toAgenda := o.tidy.2
      simp only [Agenda.serve, Heap.serve, nextDeadline_toAgenda, rest]
  | size => exact ⟨o, by simp only [Agenda.serve, Heap.serve, o.size_toAgenda]⟩

theorem Ordered.answers {h : Heap α} (o : h.Ordered) (calls : List (Call α)) :
    answers Agenda.serve h.toAgenda calls = answers Heap.serve h calls ∧
      (after Heap.serve h calls).Ordered :=
  answers_of_image Ordered toAgenda (fun _ call o => o.serve call) o calls

/-- Heaps of the same agenda give the same answers. -/
theorem Ordered.answers_congr {h h' : Heap α} (o : h.Ordered) (o' : h'.Ordered)
    (same : h.toAgenda = h'.toAgenda) (calls : List (Call α)) :
    Agenda.answers Heap.serve h calls = Agenda.answers Heap.serve h' calls := by
  rw [← (o.answers calls).1, ← (o'.answers calls).1, same]

/-- **A heap is a finite map in the order of deadlines.**  Whatever is asked of a heap, from the
beginning on, it answers as a calendar must, and as an agenda does.  No entry is taken out or struck
twice, so that none is taken out that was struck before.  And whether empty places were thrown away by
someone who asked for the next deadline, or for an entry when none was due, does not show in any later
answer. -/
theorem refines_calendar (calls : List (Call α)) :
    (∀ as, Calendar.empty.Runs calls as ↔ as = answers Heap.serve empty calls) ∧
      answers Agenda.serve .empty calls = answers Heap.serve empty calls ∧
      (endings calls (answers Heap.serve empty calls)).Nodup ∧
      ∀ later,
        answers Heap.serve (after Heap.serve empty calls).nextDeadline.2 later =
            answers Heap.serve (after Heap.serve empty calls) later ∧
          ∀ now, ((after Heap.serve empty calls).popDue now).1 = none →
            answers Heap.serve ((after Heap.serve empty calls).popDue now).2 later =
              answers Heap.serve (after Heap.serve empty calls) later := by
  obtain ⟨same, o⟩ := (ordered_empty (α := α)).answers calls
  have same : answers Agenda.serve .empty calls = answers Heap.serve empty calls := same
  refine ⟨fun as => same ▸ mirrors_empty.runs_iff calls as, same,
    same ▸ (wellFormed_empty.nodup_endings calls).2, fun later => ?_⟩
  refine ⟨o.tidy.1.answers_congr o o.tidy.2 later, fun now nothing => ?_⟩
  obtain ⟨kept, answer, rest⟩ := o.popDue now
  have none := Option.map_eq_none_iff.mp (answer.symm.trans nothing)
  rw [none] at rest
  exact kept.answers_congr o rest later

end Heap

end Lighting.Agenda
