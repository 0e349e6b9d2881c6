import Mathlib.Data.List.Find
import Lighting.Proofs.Binary
import Lighting.Rate

/-!
# The shortest rate

`Rate.covering?` takes the first rate of a list that goes from the shortest to the longest, so that
what it finds is the shortest rate that lasts at least as long as wanted (`Rate.IsShortestFor`), and
it finds one exactly for spans that are no longer than the slowest ramp.  The comparison may as well
be made in rounded seconds (`Rate.coveringSeconds?`): no span is close enough to the length of a
ramp for rounding to take one for the other.
-/

namespace Lighting.Rate

/-- The rate lasts at least as long as wanted, and no other that does is shorter. -/
structure IsShortestFor (r : Rate) (d : Duration) : Prop where
  /-- It is one of the rates. -/
  mem : r ∈ all
  /-- It lasts long enough. -/
  covers : d ≤ r.duration
  /-- All others that last long enough last at least as long. -/
  shortest : ∀ s ∈ all, d ≤ s.duration → r.duration ≤ s.duration

/-- The first rate whose seconds are not below the rounded seconds of a span. -/
def coveringSeconds? (d : Duration) : Option Rate :=
  all.find? fun r => !(Binary.Value.ofNat (f := Binary.double) r.seconds).lt (.ofDuration d)

variable {r : Rate} {d : Duration}

/-- The rates go from the shortest to the longest. -/
theorem pairwise_all : all.Pairwise fun r s => r.duration.nanos < s.duration.nanos := by decide

theorem eq_of_duration_eq {s : Rate} (hr : r ∈ all) (hs : s ∈ all)
    (same : r.duration.nanos = s.duration.nanos) : r = s := by
  have apart : ∀ r ∈ all, ∀ s ∈ all, r.duration.nanos = s.duration.nanos → r = s := by decide
  exact apart r hr s hs same

theorem isShortestFor_of_covering? (h : covering? d = some r) : r.IsShortestFor d := by
  obtain ⟨covers, before, after, row, short⟩ := List.find?_eq_some_iff_append.mp h
  have mem : r ∈ all := List.mem_of_find?_eq_some h
  refine ⟨mem, of_decide_eq_true covers, fun s hs long => ?_⟩
  have order := pairwise_all
  rw [row, List.pairwise_append, List.pairwise_cons] at order
  rw [row, List.mem_append, List.mem_cons] at hs
  rcases hs with front | rfl | back
  · exact absurd long (by simpa using short s front)
  · exact Nat.le_refl _
  · exact Nat.le_of_lt (order.2.1.1 s back)

theorem duration_instant : instant.duration = .zero := Duration.ext (by decide)

theorem duration_le_slowest (h : r ∈ all) : r.duration ≤ slowest.duration := by
  have bound : ∀ r ∈ all, r.duration ≤ slowest.duration := by decide
  exact bound r h

/-- There is a rate for all that takes no longer than the slowest ramp, and for nothing else. -/
theorem isSome_covering?_iff : (covering? d).isSome ↔ d ≤ .ofSeconds 1020 := by
  have slowest_duration : slowest.duration = .ofSeconds 1020 := rfl
  rw [covering?, List.find?_isSome, ← slowest_duration]
  constructor
  · rintro ⟨r, mem, covers⟩
    exact Nat.le_trans (of_decide_eq_true covers) (duration_le_slowest mem)
  · exact fun short => ⟨slowest, by decide, decide_eq_true short⟩

/-- **The rate that is found is the shortest that lasts long enough.** -/
theorem covering?_eq_some_iff : covering? d = some r ↔ r.IsShortestFor d := by
  refine ⟨isShortestFor_of_covering?, fun h => ?_⟩
  obtain ⟨s, found⟩ := Option.isSome_iff_exists.mp
    (List.find?_isSome (p := fun r => decide (d ≤ r.duration)).mpr
      ⟨r, h.mem, decide_eq_true h.covers⟩)
  have other := isShortestFor_of_covering? found
  rw [covering?, found, eq_of_duration_eq other.mem h.mem
    (Nat.le_antisymm (other.shortest r h.mem h.covers) (h.shortest s other.mem other.covers))]

/-- **Rounded seconds find the same rate.** -/
theorem coveringSeconds?_eq (d : Duration) : coveringSeconds? d = covering? d := by
  refine List.find?_congr fun r mem => ?_
  have few : ∀ r ∈ all, r.seconds < 2 ^ 22 ∧ r.duration.nanos = r.seconds * nanosPerSecond := by
    decide
  obtain ⟨few, nanos⟩ := few r mem
  have below := Binary.Value.lt_ofDuration_iff (d := d) Binary.Format.isWide_double few
  rw [Bool.eq_iff_iff, Bool.not_eq_true', ← Bool.not_eq_true, below, decide_eq_true_eq,
    Duration.le_def, nanos, Nat.not_lt]

end Lighting.Rate
