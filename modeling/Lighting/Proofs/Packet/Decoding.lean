import Lighting.Packet.Codec

/-!
# Where decoding breaks off

A line of digits is read two octets at a time.  A pair of octets that are no digits is an error like
any other; a pair that does not end where a character ends cannot even be looked at, and reading
breaks off.  That happens exactly if the text `Splits`: what comes before spells octets, and no
characters of what is left make up the next two.  A frame of octets below 128 never does.
-/

namespace Lighting

namespace Text

namespace Utf8

theorem size_append (cs ds : List Char) : size (cs ++ ds) = size cs + size ds := by
  induction cs with
  | nil => simp [size]
  | cons c cs ih => simp [size, ih, Nat.add_assoc]

/-- Octets below 128 are characters of one octet each. -/
theorem utf8Size_of_decode {octets : List UInt8} (low : ∀ b ∈ octets, b.toNat < 0x80)
    {cs : List Char} (h : decode octets = some cs) : ∀ c ∈ cs, c.utf8Size = 1 := by
  have ascii : ∀ n < 0x80, (Char.ofNat n).utf8Size = 1 := by decide
  induction octets generalizing cs with
  | nil =>
      cases h
      nofun
  | cons b octets ih =>
      obtain ⟨first, low⟩ := List.forall_mem_cons.mp low
      have one : leadLength b = 1 := if_pos first
      rw [decode.eq_def] at h
      simp only [one] at h
      obtain ⟨ds, rest, rfl⟩ := Option.map_eq_some_iff.mp h
      exact List.forall_mem_cons.mpr ⟨ascii _ first, ih low rest⟩

end Utf8

theorem utf8Size_of_hexValue? {c : Char} {n : Nat} (h : hexValue? c = some n) : c.utf8Size = 1 := by
  have ascii {d : Char} (le : c ≤ d) (low : d.val.toNat < 0x80) : c.utf8Size = 1 := by
    rw [Char.utf8Size_eq_one_iff, UInt32.le_iff_toNat_le]
    exact Nat.le_trans le (Nat.le_of_lt_succ low)
  simp only [hexValue?, Bool.and_eq_true, decide_eq_true_eq] at h
  split at h
  · rename_i digit
    exact ascii digit.2 (by decide)
  · split at h
    · rename_i lower
      exact ascii lower.2 (by decide)
    · split at h
      · rename_i upper
        exact ascii upper.2 (by decide)
      · cases h

/-- Trimming takes characters away, and changes none. -/
theorem trim_subset (cs : List Char) : trim cs ⊆ cs := by
  intro c hc
  have := (List.dropWhile_sublist _).subset (List.mem_reverse.mp hc)
  exact (List.dropWhile_sublist _).subset (List.mem_reverse.mp this)

end Text

namespace Packet

open Text

/-! ## Pairs of digits -/

/-- A row of pairs of digits, and the octets they spell. -/
inductive Spells : List Char → List UInt8 → Prop where
  /-- Nothing spells nothing. -/
  | nil : Spells [] []
  /-- A pair spells an octet. -/
  | cons {a b : Char} {octet : UInt8} {cs : List Char} {octets : List UInt8}
      (pair : pairValue? a b = some octet) (rest : Spells cs octets) :
      Spells (a :: b :: cs) (octet :: octets)

/-- Two octets at a time would cut the text inside a character: what comes before spells octets, and
no characters of what is left make up the next two. -/
def Splits (text : List Char) : Prop :=
  ∃ good rest octets, text = good ++ rest ∧ Spells good octets ∧ rest ≠ [] ∧
    ∀ front, front <+: rest → Utf8.size front ≠ 2

theorem utf8Size_of_pairValue? {a b : Char} {octet : UInt8} (h : pairValue? a b = some octet) :
    a.utf8Size = 1 ∧ b.utf8Size = 1 := by
  unfold pairValue? at h
  split at h
  · rename_i plus
    obtain ⟨n, digit, -⟩ := Option.map_eq_some_iff.mp h
    exact ⟨plus ▸ rfl, utf8Size_of_hexValue? digit⟩
  · split at h
    · rename_i high low
      exact ⟨utf8Size_of_hexValue? high, utf8Size_of_hexValue? low⟩
    · cases h

/-- Two octets of text are one octet. -/
theorem Spells.size_eq {cs : List Char} {octets : List UInt8} (h : Spells cs octets) :
    Utf8.size cs = 2 * octets.length := by
  induction h with
  | nil => rfl
  | cons pair rest ih =>
      obtain ⟨first, second⟩ := utf8Size_of_pairValue? pair
      simp only [Utf8.size, first, second, ih, List.length_cons]
      omega

/-- A text splits where it is, or behind a pair that is read. -/
theorem splits_iff {cs : List Char} :
    Splits cs ↔ (cs ≠ [] ∧ ∀ front, front <+: cs → Utf8.size front ≠ 2) ∨
      ∃ a b octet rest, cs = a :: b :: rest ∧ pairValue? a b = some octet ∧ Splits rest := by
  constructor
  · rintro ⟨good, rest, octets, rfl, spelt, more, cut⟩
    cases spelt with
    | nil => exact Or.inl ⟨more, cut⟩
    | cons pair spelt => exact Or.inr ⟨_, _, _, _, rfl, pair, _, rest, _, rfl, spelt, more, cut⟩
  · rintro (⟨more, cut⟩ | ⟨a, b, octet, _, rfl, pair, good, rest, octets, rfl, spelt, more, cut⟩)
    · exact ⟨[], cs, [], rfl, .nil, more, cut⟩
    · exact ⟨a :: b :: good, rest, octet :: octets, rfl, .cons pair spelt, more, cut⟩

/-- A text does not split that begins with a character of two octets. -/
theorem not_splits_of_two {a : Char} {cs : List Char} (two : a.utf8Size = 2) :
    ¬ Splits (a :: cs) := by
  rw [splits_iff]
  rintro (⟨-, cut⟩ | ⟨_, b, octet, rest, row, pair, -⟩)
  · exact cut [a] ⟨cs, rfl⟩ (by simp [Utf8.size, two])
  · obtain ⟨rfl, -⟩ := List.cons.inj row
    rw [(utf8Size_of_pairValue? pair).1] at two
    cases two

/-- A text that begins with two characters of one octet splits exactly if they are a pair and what
comes after them splits. -/
theorem splits_of_one {a b : Char} {cs : List Char} (first : a.utf8Size = 1)
    (second : b.utf8Size = 1) :
    Splits (a :: b :: cs) ↔ (pairValue? a b).isSome ∧ Splits cs := by
  rw [splits_iff]
  constructor
  · rintro (⟨-, cut⟩ | ⟨_, _, octet, _, row, pair, rest⟩)
    · exact absurd (by simp [Utf8.size, first, second]) (cut [a, b] ⟨cs, rfl⟩)
    · cases row
      exact ⟨Option.isSome_iff_exists.mpr ⟨octet, pair⟩, rest⟩
  · rintro ⟨pair, rest⟩
    obtain ⟨octet, pair⟩ := Option.isSome_iff_exists.mp pair
    exact Or.inr ⟨a, b, octet, cs, rfl, pair, rest⟩

/-- A text splits that begins with a character of at least three octets, or with one of one octet and
then a longer one. -/
theorem splits_of_long {a : Char} {cs : List Char}
    (long : a.utf8Size ≠ 1 ∧ a.utf8Size ≠ 2 ∨
      a.utf8Size = 1 ∧ ∃ b rest, cs = b :: rest ∧ b.utf8Size ≠ 1) : Splits (a :: cs) := by
  have positive (c : Char) : 0 < c.utf8Size := c.utf8Size_pos
  refine splits_iff.mpr (Or.inl ⟨nofun, fun front prefix? two => ?_⟩)
  cases front with
  | nil => cases two
  | cons c front =>
      obtain ⟨rfl, front?⟩ := List.cons_prefix_cons.mp prefix?
      rw [Utf8.size] at two
      rcases long with ⟨one, other⟩ | ⟨one, b, rest, rfl, longer⟩
      · have := positive c
        omega
      · cases front with
        | nil =>
            rw [Utf8.size] at two
            omega
        | cons e front =>
            obtain ⟨rfl, -⟩ := List.cons_prefix_cons.mp front?
            rw [Utf8.size] at two
            have := positive e
            omega

/-- **What is read is what the pairs spell.** -/
theorem readPairs_eq_ok_iff {text cs : List Char} {octets : List UInt8} :
    readPairs text cs = .ok octets ↔ Spells cs octets := by
  constructor
  · intro h
    induction cs using readPairs.induct generalizing octets with
    | case1 => cases h; exact .nil
    | case2 a one => simp [readPairs, one] at h
    | case3 a one b cs one' none => simp [readPairs, one, one', none] at h
    | case4 a one b cs one' octet pair ih =>
        simp only [readPairs, one, one', pair, if_true] at h
        cases tail : readPairs text cs with
        | error e => rw [tail] at h; cases h
        | ok rest =>
            rw [tail] at h
            cases h
            exact .cons pair (ih tail)
    | case5 a one b cs long => simp [readPairs, one, long] at h
    | case6 a cs other two =>
        rw [readPairs.eq_def] at h
        simp [two] at h
    | case7 a cs other longer =>
        rw [readPairs.eq_def] at h
        simp [other, longer] at h
  · intro h
    induction h with
    | nil => rfl
    | cons pair rest ih =>
        obtain ⟨first, second⟩ := utf8Size_of_pairValue? pair
        simp only [readPairs, first, second, if_true, pair, ih]
        rfl

/-- **Reading breaks off exactly at a text that splits.** -/
theorem readPairs_eq_split_iff {text cs : List Char} (even : Utf8.size cs % 2 = 0) :
    readPairs text cs = .error .splitCharacter ↔ Splits cs := by
  induction cs using readPairs.induct with
  | case1 =>
      rw [splits_iff]
      simp [readPairs]
  | case2 a one => simp [Utf8.size, one] at even
  | case3 a one b cs one' none => simp [readPairs, one, one', none, splits_of_one]
  | case4 a one b cs one' octet pair ih =>
      rw [splits_of_one one one', pair, ← ih (by simp only [Utf8.size, one, one'] at even; omega)]
      simp only [readPairs, one, one', pair, if_true]
      cases readPairs text cs <;> simp [Except.map]
  | case5 a one b cs long =>
      refine iff_of_true ?_ (splits_of_long (Or.inr ⟨one, b, cs, rfl, long⟩))
      simp [readPairs, one, long]
  | case6 a cs other two =>
      refine iff_of_false ?_ (not_splits_of_two two)
      rw [readPairs.eq_def]
      simp [two]
  | case7 a cs other longer =>
      refine iff_of_true ?_ (splits_of_long (Or.inl ⟨other, longer⟩))
      rw [readPairs.eq_def]
      simp [other, longer]

/-- A text of characters of one octet does not split. -/
theorem not_splits_of_low {cs : List Char} (low : ∀ c ∈ cs, c.utf8Size = 1)
    (even : Utf8.size cs % 2 = 0) : ¬ Splits cs := by
  rintro ⟨good, rest, octets, rfl, spelt, more, cut⟩
  rw [Utf8.size_append, spelt.size_eq] at even
  have low : ∀ c ∈ rest, c.utf8Size = 1 := fun c hc => low c (List.mem_append_right good hc)
  match rest, more, low with
  | [a], _, low => simp [Utf8.size, low a (List.mem_singleton_self a)] at even
  | a :: b :: rest, _, low =>
      exact cut [a, b] ⟨rest, rfl⟩ (by simp [Utf8.size, low a, low b])

/-! ## Frames -/

theorem readPacket_ne_split (text : List Char) (octets : List UInt8) :
    readPacket text octets ≠ .error .splitCharacter := by
  unfold readPacket
  split
  · nofun
  · split
    · split
      · nofun
      · split <;> nofun
    · nofun

/-- **Decoding breaks off exactly at a frame whose text splits.** -/
theorem decode_eq_split_iff {frame : List UInt8} :
    decode frame = .error .splitCharacter ↔ confirmation? frame = none ∧
      ∃ cs, Utf8.decode frame = some cs ∧ Utf8.size (trim cs) % 2 = 0 ∧ Splits (trim cs) := by
  unfold decode
  cases confirmation? frame with
  | some c => simp
  | none =>
      unfold decodeLine
      cases Utf8.decode frame with
      | none => simp
      | some cs =>
          simp only [Option.some.injEq, true_and, exists_eq_left']
          generalize trim cs = text
          by_cases short : Utf8.size text ≤ 1
          · rw [if_pos short]
            refine iff_of_false nofun fun ⟨even, splits⟩ => ?_
            obtain ⟨good, rest, octets, rfl, -, more, -⟩ := splits
            obtain ⟨c, rest, rfl⟩ := List.exists_cons_of_ne_nil more
            have := c.utf8Size_pos
            rw [Utf8.size_append, Utf8.size] at short even
            omega
          · rw [if_neg short]
            unfold readHex
            by_cases odd : Utf8.size text % 2 = 1
            · rw [if_pos odd]
              exact iff_of_false nofun fun ⟨even, _⟩ => by omega
            · have even : Utf8.size text % 2 = 0 := by omega
              have broken : readPairs text text = .error .splitCharacter ↔ Splits text :=
                readPairs_eq_split_iff even
              rw [if_neg odd, ← broken]
              simp only [even, true_and]
              cases readPairs text text with
              | error e => simp [Except.bind]
              | ok octets => exact iff_of_false (readPacket_ne_split text octets) nofun

/-- **Octets below 128 are always decoded.** -/
theorem decode_ne_split_of_low {frame : List UInt8} (low : ∀ b ∈ frame, b.toNat < 0x80) :
    decode frame ≠ .error .splitCharacter := by
  intro h
  obtain ⟨-, cs, text, even, splits⟩ := decode_eq_split_iff.mp h
  have one := Utf8.utf8Size_of_decode low text
  exact not_splits_of_low (fun c hc => one c (trim_subset cs hc)) even splits

end Packet

end Lighting
