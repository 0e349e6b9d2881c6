import Mathlib.Data.List.Basic
import Lighting.Packet.Entry

/-!
# Rows of entries

The entries of a packet stand one behind the other, and nothing separates them: where one ends
follows from its command code alone.  So what is taken off a row is an entry whose octets the row
begins with (`Entries.next_eq_entry_iff`), and a row that was written entry by entry reads back as
it was written.  A row that ends inside an entry (`Entries.IsCut`) gives nothing at all, not even
the entries before.
-/

namespace Lighting

namespace Rate

variable {r : Rate} {code : UInt8}

/-- Each rate has a command code of its own. -/
theorem ofCode?_eq_some_iff : ofCode? code = some r ↔ r ∈ all ∧ r.code = code := by
  have own : ∀ r ∈ all, ofCode? r.code = some r := by decide
  constructor
  · intro h
    exact ⟨List.mem_of_find?_eq_some h, by simpa using List.find?_some h⟩
  · rintro ⟨mem, rfl⟩
    exact own r mem

end Rate

namespace Packet

/-- Whether the octets of an entry name it: a ramp has a rate of the bus units. -/
def Entry.IsKnown : Entry → Prop
  | .ramp rate _ _ => rate ∈ Rate.all
  | _ => True

namespace Entries

/-- The row ends inside its first entry. -/
def IsCut (octets : List UInt8) : Prop :=
  octets ≠ [] ∧ ∃ e : Entry, e.IsKnown ∧ octets <+: e.write ∧ octets ≠ e.write

variable {e : Entry} {es : List Entry} {octets rest : List UInt8}

/-! ## The first entry -/

/-- No rate has the command code of another kind of entry. -/
theorem code_ne {r : Rate} (known : r ∈ Rate.all) :
    r.code ≠ onCode ∧ r.code ≠ offCode ∧ r.code ≠ endRampCode := by
  have apart : ∀ r ∈ Rate.all, r.code ≠ onCode ∧ r.code ≠ offCode ∧ r.code ≠ endRampCode := by
    decide
  exact apart r known

/-- An entry that is written is taken off whatever comes after it. -/
theorem next_write_append (known : e.IsKnown) (rest : List UInt8) :
    next (e.write ++ rest) = .entry e rest := by
  cases e with
  | on address => rfl
  | off address => rfl
  | endRamp address => rfl
  | ramp rate address level =>
      obtain ⟨on, off, endRamp⟩ := code_ne known
      simp only [Entry.write, List.cons_append, List.nil_append, next, if_neg on, if_neg off,
        if_neg endRamp, Rate.ofCode?_eq_some_iff.mpr ⟨known, rfl⟩]

/-- How a row goes on: with an entry, with no command code, or inside an entry. -/
inductive Begins (octets : List UInt8) : Next → Prop where
  /-- An entry stands in front. -/
  | entry {e : Entry} {rest : List UInt8} (known : e.IsKnown) (row : octets = e.write ++ rest) :
      Begins octets (.entry e rest)
  /-- There is no command code in front. -/
  | done : Begins octets .done
  /-- The row ends inside an entry. -/
  | truncated (cut : IsCut octets) : Begins octets .truncated

theorem isCut_of_append {missing : List UInt8} (known : e.IsKnown) (row : octets ++ missing = e.write)
    (some : octets ≠ []) (more : missing ≠ []) : IsCut octets := by
  refine ⟨some, e, known, ⟨missing, row⟩, fun same => more ?_⟩
  rw [← same] at row
  exact List.append_right_eq_self.mp row

/-- A code that one address follows, when the address is there and when it is not. -/
theorem begins_address (kind : UInt8 → Entry) {code : UInt8} (known : ∀ a, (kind a).IsKnown)
    (write : ∀ a, [code, a] = (kind a).write) (short : next [code] = .truncated)
    (long : ∀ a rest, next (code :: a :: rest) = .entry (kind a) rest) (rest : List UInt8) :
    Begins (code :: rest) (next (code :: rest)) := by
  cases rest with
  | nil =>
      rw [short]
      exact .truncated (isCut_of_append (known 0) (write 0) (List.cons_ne_nil _ _)
        (List.cons_ne_nil _ _))
  | cons a rest =>
      rw [long]
      exact .entry (known a) (write a ▸ rfl)

/-- **What is taken off a row is what it begins with.** -/
theorem begins_next (octets : List UInt8) : Begins octets (next octets) := by
  cases octets with
  | nil => exact .done
  | cons code rest =>
      by_cases on : code = onCode
      · subst on
        exact begins_address .on (fun _ => trivial) (fun _ => rfl) rfl (fun _ _ => rfl) rest
      by_cases off : code = offCode
      · subst off
        exact begins_address .off (fun _ => trivial) (fun _ => rfl) rfl (fun _ _ => rfl) rest
      by_cases endRamp : code = endRampCode
      · subst endRamp
        exact begins_address .endRamp (fun _ => trivial) (fun _ => rfl) rfl (fun _ _ => rfl) rest
      rw [next.eq_def]
      simp only [if_neg on, if_neg off, if_neg endRamp]
      cases found : Rate.ofCode? code with
      | none => exact .done
      | some rate =>
          obtain ⟨known, rfl⟩ := Rate.ofCode?_eq_some_iff.mp found
          -- a ramp has two more octets, and the row may end before either
          cases rest with
          | nil =>
              exact .truncated (isCut_of_append (e := .ramp rate 0 0) known rfl
                (List.cons_ne_nil _ _) (List.cons_ne_nil 0 [0]))
          | cons a rest =>
              cases rest with
              | nil =>
                  exact .truncated (isCut_of_append (e := .ramp rate a 0) known rfl
                    (List.cons_ne_nil _ _) (List.cons_ne_nil 0 []))
              | cons level rest => exact .entry (e := .ramp rate a level) known rfl

theorem next_eq_entry_iff : next octets = .entry e rest ↔ e.IsKnown ∧ octets = e.write ++ rest := by
  refine ⟨fun h => ?_, fun ⟨known, row⟩ => row ▸ next_write_append known rest⟩
  have begins := begins_next octets
  rw [h] at begins
  cases begins with
  | entry known row => exact ⟨known, row⟩

/-- A command code whose octets are not all there. -/
theorem next_of_short {code : UInt8} {more : List UInt8} (known : e.IsKnown)
    (front : e.write.head? = some code) (short : more.length + 1 < e.write.length) :
    next (code :: more) = .truncated := by
  cases e with
  | ramp rate address level =>
      obtain ⟨on, off, endRamp⟩ := code_ne known
      obtain rfl := Option.some.inj front
      simp only [next, if_neg on, if_neg off, if_neg endRamp,
        Rate.ofCode?_eq_some_iff.mpr ⟨known, rfl⟩]
      match more, short with
      | [], _ => rfl
      | [_], _ => rfl
  | _ =>
      obtain rfl := Option.some.inj front
      obtain rfl := List.length_eq_zero_iff.mp (Nat.lt_one_iff.mp (Nat.lt_of_succ_lt_succ short))
      rfl

theorem next_eq_truncated_iff : next octets = .truncated ↔ IsCut octets := by
  constructor
  · intro h
    have begins := begins_next octets
    rw [h] at begins
    cases begins with
    | truncated cut => exact cut
  · rintro ⟨some, e, known, front, more⟩
    have short : octets.length < e.write.length :=
      Nat.lt_of_le_of_ne front.length_le fun same => more (front.eq_of_length same)
    obtain ⟨code, octets, rfl⟩ := List.exists_cons_of_ne_nil some
    obtain ⟨missing, row⟩ := front
    exact next_of_short known (row ▸ rfl) short

/-! ## All entries -/

theorem length_lt_of_next (h : next octets = .entry e rest) : rest.length < octets.length := by
  have some : 0 < e.write.length := by cases e <;> exact Nat.succ_pos _
  rw [(next_eq_entry_iff.mp h).2, List.length_append]
  omega

/-- No entry is left out for want of fuel. -/
theorem readUpTo_congr {fuel fuel' : Nat} (enough : octets.length ≤ fuel)
    (enough' : octets.length ≤ fuel') : readUpTo fuel octets = readUpTo fuel' octets := by
  induction fuel generalizing octets fuel' with
  | zero =>
      obtain rfl := List.length_eq_zero_iff.mp (Nat.le_zero.mp enough)
      cases fuel' <;> rfl
  | succ fuel ih =>
      cases fuel' with
      | zero =>
          obtain rfl := List.length_eq_zero_iff.mp (Nat.le_zero.mp enough')
          rfl
      | succ fuel' =>
          rw [readUpTo, readUpTo]
          cases first : next octets with
          | done => rfl
          | truncated => rfl
          | entry e rest =>
              have shorter := length_lt_of_next first
              have same : readUpTo fuel rest = readUpTo fuel' rest := ih (by omega) (by omega)
              simp only [same]

/-- The entries of a row are the first one and those of what comes after it. -/
theorem read_eq (octets : List UInt8) : read octets = match next octets with
    | .entry e rest => (read rest).map (e :: ·)
    | .done => some []
    | .truncated => none := by
  rw [read, readUpTo_congr (Nat.le_refl _) (Nat.le_succ octets.length), readUpTo]
  cases first : next octets with
  | done => rfl
  | truncated => rfl
  | entry e rest =>
      have shorter := length_lt_of_next first
      simp only [read, readUpTo_congr (Nat.le_of_lt shorter) (Nat.le_refl rest.length)]

/-- **What is written entry by entry reads back.** -/
theorem read_flatMap_write_append (known : ∀ e ∈ es, e.IsKnown) (rest : List UInt8) :
    read (es.flatMap Entry.write ++ rest) = (read rest).map (es ++ ·) := by
  induction es with
  | nil => simp
  | cons e es ih =>
      obtain ⟨first, known⟩ := List.forall_mem_cons.mp known
      rw [List.flatMap_cons, List.append_assoc, read_eq, next_write_append first]
      simp only [ih known, Option.map_map]
      rfl

theorem read_flatMap_write (known : ∀ e ∈ es, e.IsKnown) :
    read (es.flatMap Entry.write) = some es := by
  simpa [read, readUpTo] using read_flatMap_write_append known []

/-- A row that ends inside an entry is not read, whatever stands before. -/
theorem read_flatMap_write_append_of_isCut (known : ∀ e ∈ es, e.IsKnown) (cut : IsCut rest) :
    read (es.flatMap Entry.write ++ rest) = none := by
  rw [read_flatMap_write_append known, read_eq, next_eq_truncated_iff.mpr cut]
  rfl

/-- An entry that is read is known. -/
theorem isKnown_of_read (h : read octets = some es) : ∀ e ∈ es, e.IsKnown := by
  induction es generalizing octets with
  | nil => nofun
  | cons e es ih =>
      rw [read_eq] at h
      cases first : next octets with
      | done => simp [first] at h
      | truncated => simp [first] at h
      | entry e' rest =>
          simp only [first, Option.map_eq_some_iff] at h
          obtain ⟨es', tail, row⟩ := h
          obtain ⟨rfl, rfl⟩ := List.cons.inj row
          exact List.forall_mem_cons.mpr ⟨(next_eq_entry_iff.mp first).1, ih tail⟩

end Entries

end Packet

end Lighting
