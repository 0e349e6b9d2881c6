/-!
# Spans of time and moments

A `Duration` is a whole number of nanoseconds and a `Instant` is the number of nanoseconds since the
session began.  Both are bounded: a duration holds as many seconds as fit in 64 bits, and the clock
stops where its seconds leave 63 bits.  The bounds are proof fields, so no function of the library
has to ask whether a span or a moment it was handed exists; only `Instant.add?`, which may run off
the clock, has an answer for that case.
-/

namespace Lighting

/-- The nanoseconds of a second. -/
abbrev nanosPerSecond : Nat := 1000000000

/-- The nanoseconds of a millisecond. -/
abbrev nanosPerMilli : Nat := 1000000

/-- A span of time, in whole nanoseconds. -/
structure Duration where
  /-- The length of the span. -/
  nanos : Nat
  /-- The whole seconds of a span fit in 64 bits. -/
  lt_limit : nanos < 0x10000000000000000 * nanosPerSecond
deriving DecidableEq

namespace Duration

/-- The first number of nanoseconds that is too long for a span. -/
abbrev limit : Nat := 0x10000000000000000 * nanosPerSecond

/-- The span of `n` nanoseconds; a number that is too large gives the longest span. -/
def ofNanos (n : Nat) : Duration := ⟨min n (limit - 1), by unfold limit nanosPerSecond; omega⟩

/-- The span of `n` milliseconds. -/
def ofMillis (n : Nat) : Duration := ofNanos (n * nanosPerMilli)

/-- The span of `n` seconds. -/
def ofSeconds (n : Nat) : Duration := ofNanos (n * nanosPerSecond)

/-- The empty span. -/
def zero : Duration := ⟨0, by decide⟩

/-- Whether the span is empty. -/
def isZero (d : Duration) : Bool := d.nanos == 0

/-- The whole seconds of the span. -/
def seconds (d : Duration) : Nat := d.nanos / nanosPerSecond

/-- What is left of the span after its whole seconds, in nanoseconds. -/
def subsecondNanos (d : Duration) : Nat := d.nanos % nanosPerSecond

/-- The whole milliseconds of the span. -/
def millis (d : Duration) : Nat := d.nanos / nanosPerMilli

instance : LE Duration := ⟨fun a b => a.nanos ≤ b.nanos⟩

instance (a b : Duration) : Decidable (a ≤ b) := inferInstanceAs (Decidable (a.nanos ≤ b.nanos))

/-- The shorter of two spans. -/
def min (a b : Duration) : Duration := if a ≤ b then a else b

/-- The longer of two spans. -/
def max (a b : Duration) : Duration := if a ≤ b then b else a

/-- The `n`-th part of the span, rounded down to a nanosecond. -/
def part (d : Duration) (n : Nat) : Duration :=
  ⟨d.nanos / n, Nat.lt_of_le_of_lt (Nat.div_le_self _ _) d.lt_limit⟩

/-- The span `k` times over. -/
def times (d : Duration) (k : Nat) : Duration := ofNanos (d.nanos * k)

theorem le_def {a b : Duration} : a ≤ b ↔ a.nanos ≤ b.nanos := Iff.rfl

@[ext] theorem ext {a b : Duration} (h : a.nanos = b.nanos) : a = b := by
  cases a; cases b; cases h; rfl

@[simp] theorem nanos_zero : zero.nanos = 0 := rfl

theorem nanos_ofNanos {n : Nat} (h : n < limit) : (ofNanos n).nanos = n := by
  show Nat.min n (limit - 1) = n
  exact Nat.min_eq_left (by omega)

theorem nanos_ofNanos_eq (n : Nat) : (ofNanos n).nanos = Nat.min n (limit - 1) := rfl

theorem nanos_min (a b : Duration) : (a.min b).nanos = Nat.min a.nanos b.nanos := by
  unfold min
  split
  · exact (Nat.min_eq_left ‹_›).symm
  · exact (Nat.min_eq_right (Nat.le_of_not_le ‹_›)).symm

theorem nanos_max (a b : Duration) : (a.max b).nanos = Nat.max a.nanos b.nanos := by
  unfold max
  split
  · exact (Nat.max_eq_right ‹_›).symm
  · exact (Nat.max_eq_left (Nat.le_of_not_le ‹_›)).symm

theorem min_self (d : Duration) : d.min d = d := if_pos (Nat.le_refl _)

theorem zero_min (d : Duration) : zero.min d = zero := if_pos (Nat.zero_le _)

theorem min_le_right (a b : Duration) : a.min b ≤ b := by
  rw [le_def, nanos_min]
  exact Nat.min_le_right _ _

theorem min_mono_left {a b : Duration} (le : a ≤ b) (c : Duration) : a.min c ≤ b.min c := by
  rw [le_def, nanos_min, nanos_min]
  exact Nat.le_min.mpr ⟨Nat.le_trans (Nat.min_le_left _ _) le, Nat.min_le_right _ _⟩

@[simp] theorem isZero_iff {d : Duration} : d.isZero = true ↔ d = zero := by
  simp [isZero, Duration.ext_iff]

end Duration

/-- A moment, in nanoseconds since the session began. -/
structure Instant where
  /-- How long after the start of the session the moment lies. -/
  nanos : Nat
  /-- The whole seconds of a moment fit in 63 bits. -/
  lt_horizon : nanos < 0x8000000000000000 * nanosPerSecond
deriving DecidableEq

namespace Instant

/-- The end of the clock: the first number of nanoseconds that is no moment. -/
abbrev horizon : Nat := 0x8000000000000000 * nanosPerSecond

/-- The start of the session. -/
def start : Instant := ⟨0, by decide⟩

/-- The moment `n` milliseconds after the start; past the end of the clock, the last moment. -/
def ofMillis (n : Nat) : Instant := ⟨min (n * nanosPerMilli) (horizon - 1), by unfold horizon nanosPerSecond; omega⟩

instance : LE Instant := ⟨fun a b => a.nanos ≤ b.nanos⟩
instance : LT Instant := ⟨fun a b => a.nanos < b.nanos⟩

instance (a b : Instant) : Decidable (a ≤ b) := inferInstanceAs (Decidable (a.nanos ≤ b.nanos))
instance (a b : Instant) : Decidable (a < b) := inferInstanceAs (Decidable (a.nanos < b.nanos))

/-- The earlier of two moments. -/
def min (a b : Instant) : Instant := if a ≤ b then a else b

/-- The later of two moments. -/
def max (a b : Instant) : Instant := if a ≤ b then b else a

/-- The moment `d` after `t`, if the clock reaches that far. -/
def add? (t : Instant) (d : Duration) : Option Instant :=
  if h : t.nanos + d.nanos < horizon then some ⟨t.nanos + d.nanos, h⟩ else none

/-- The span from the start of the session to the moment. -/
def elapsed (t : Instant) : Duration :=
  ⟨t.nanos, Nat.lt_of_lt_of_le t.lt_horizon (by decide)⟩

theorem le_def {a b : Instant} : a ≤ b ↔ a.nanos ≤ b.nanos := Iff.rfl

@[ext] theorem ext {a b : Instant} (h : a.nanos = b.nanos) : a = b := by
  cases a; cases b; cases h; rfl

theorem add?_eq_some_iff {t u : Instant} {d : Duration} :
    t.add? d = some u ↔ u.nanos = t.nanos + d.nanos := by
  unfold add?
  split
  · rw [Option.some.injEq, Instant.ext_iff]
    exact ⟨Eq.symm, Eq.symm⟩
  · refine ⟨fun h => (nomatch h), fun h => ?_⟩
    have := u.lt_horizon
    simp only [horizon, nanosPerSecond] at *
    omega

/-- If the clock reaches a moment, it reaches every earlier one. -/
theorem add?_of_le {t u : Instant} {d e : Duration} (le : d ≤ e) (reach : t.add? e = some u) :
    ∃ v, t.add? d = some v ∧ v ≤ u := by
  have le : d.nanos ≤ e.nanos := le
  have whole := add?_eq_some_iff.mp reach
  have early : t.nanos + d.nanos ≤ u.nanos := by omega
  exact ⟨⟨t.nanos + d.nanos, Nat.lt_of_le_of_lt early u.lt_horizon⟩, add?_eq_some_iff.mpr rfl, early⟩

theorem min_choice (a b : Instant) : a.min b = a ∨ a.min b = b := by
  unfold min
  split
  · exact .inl rfl
  · exact .inr rfl

theorem min_le_left (a b : Instant) : a.min b ≤ a := by
  unfold min
  split
  · exact Nat.le_refl _
  · exact Nat.le_of_not_le ‹_›

theorem min_le_right (a b : Instant) : a.min b ≤ b := by
  unfold min
  split
  · assumption
  · exact Nat.le_refl _

theorem le_max_left (a b : Instant) : a ≤ a.max b := by
  unfold max
  split
  · assumption
  · exact Nat.le_refl _

theorem le_max_right (a b : Instant) : b ≤ a.max b := by
  unfold max
  split
  · exact Nat.le_refl _
  · exact Nat.le_of_not_le ‹_›

theorem max_le {a b c : Instant} (left : a ≤ c) (right : b ≤ c) : a.max b ≤ c := by
  unfold max
  split
  · exact right
  · exact left

theorem isSome_add?_of_le {t : Instant} {d e : Duration} (le : d ≤ e)
    (room : (t.add? e).isSome) : (t.add? d).isSome := by
  obtain ⟨u, reach⟩ := Option.isSome_iff_exists.mp room
  obtain ⟨v, reach, -⟩ := add?_of_le le reach
  exact Option.isSome_of_eq_some reach

end Instant

end Lighting
