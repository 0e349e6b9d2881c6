import Lighting.Proofs.Packet.Digits
import Mathlib.Data.List.InsertIdx

/-!
# Damaged lines

The octets of a packet add up to zero, and each of them is two digits of its line.  So a digit counts
for its value or for sixteen times its value, by its place (`worth_set`), and neither brings the sum
round to zero again when the value is another: a changed digit is a wrong sum.  A digit too many or
too few leaves one without its partner, and that is found before anything is added up.  No packet is
read from a line with one such fault, whatever the packet is.
-/

namespace Lighting.Packet

open Text

/-- Nothing but hexadecimal digits. -/
def AreDigits (cs : List Char) : Prop := ∀ c ∈ cs, IsHexDigit c

/-- The value of a digit. -/
def value (c : Char) : Nat := (hexValue? c).getD 0

variable {cs ds : List Char} {a b c : Char}

/-! ## Rows of digits -/

theorem AreDigits.mono (digits : AreDigits ds) (old : cs ⊆ ds) : AreDigits cs :=
  fun c hc => digits c (old hc)

theorem AreDigits.cons (digit : IsHexDigit c) (digits : AreDigits cs) : AreDigits (c :: cs) :=
  List.forall_mem_cons.mpr ⟨digit, digits⟩

theorem hexValue?_eq_value (digit : IsHexDigit c) : hexValue? c = some (value c) := by
  obtain ⟨n, read⟩ := Option.isSome_iff_exists.mp (isSome_hexValue?_iff.mpr digit)
  rw [value, read, Option.getD_some]

theorem value_lt (digit : IsHexDigit c) : value c < 16 :=
  (upperHex_of_hexValue? (hexValue?_eq_value digit)).1

/-- A digit takes one octet, is no blank and no confirmation character. -/
theorem octet_of_digit (digit : IsHexDigit c) :
    c.utf8Size = 1 ∧ isBlank c = false ∧ isToken (UInt8.ofNat c.toNat) = false := by
  have all : ∀ k < 0x80, (hexValue? (Char.ofNat k)).isSome →
      isBlank (Char.ofNat k) = false ∧ isToken (UInt8.ofNat k) = false := by decide
  have this := all c.toNat (toNat_lt_of_hexValue? (hexValue?_eq_value digit))
  rw [Char.ofNat_toNat] at this
  exact ⟨utf8Size_of_hexValue? (hexValue?_eq_value digit), this (isSome_hexValue?_iff.mpr digit)⟩

/-- A row of digits is text, without blanks, of one octet each. -/
theorem text_of_digits (digits : AreDigits cs) : Utf8.decode (octets cs) = some cs ∧
    trim cs = cs ∧ Utf8.size cs = cs.length := by
  have low : ∀ c ∈ cs, c.utf8Size = 1 := fun c hc => (octet_of_digit (digits c hc)).1
  exact ⟨decode_octets low, trim_of_not_blank fun c hc => (octet_of_digit (digits c hc)).2.1,
    Utf8.size_of_low low⟩

/-- Decoding a row of digits is reading it as digits, if it is no shorter than a pair. -/
theorem decode_of_digits (digits : AreDigits cs) : decode (octets cs) =
    if cs.length ≤ 1 then .ok .unrecognized else (readHex cs).bind (readPacket cs) := by
  obtain ⟨text, solid, size⟩ := text_of_digits digits
  have line : confirmation? (octets cs) = none := by
    match cs, digits with
    | [], _ | [_], _ | _ :: _ :: _ :: _, _ => rfl
    | [code, status], digits =>
        obtain ⟨-, -, free⟩ := octet_of_digit (digits code List.mem_cons_self)
        simp [octets, confirmation?, free]
  simp only [decode, line, decodeLine, text, solid, size]

/-- **A digit without a partner is an error.** -/
theorem decode_of_odd (digits : AreDigits cs) (long : 1 < cs.length) (odd : cs.length % 2 = 1) :
    decode (octets cs) = .error (.oddDigits cs) := by
  obtain ⟨-, -, size⟩ := text_of_digits digits
  rw [decode_of_digits digits, if_neg (Nat.not_le.mpr long), readHex, if_pos (size ▸ odd)]
  rfl

/-! ## What digits are worth -/

/-- What a digit adds to the sum, in the first place of a pair and in the second. -/
def place (i : Nat) : Nat := if i % 2 = 0 then 16 else 1

/-- The sum of the octets that a row of digits spells. -/
def worth : List Char → Nat
  | a :: b :: cs => 16 * value a + value b + worth cs
  | _ => 0

/-- Two digits spell an octet. -/
theorem pairValue?_of_digits (first : IsHexDigit a) (second : IsHexDigit b) :
    ∃ octet, pairValue? a b = some octet ∧ octet.toNat = 16 * value a + value b := by
  have unsigned : a ≠ '+' := by
    rintro rfl
    exact not_isHexDigit_plus first
  have high := value_lt first
  have low := value_lt second
  refine ⟨UInt8.ofNat (16 * value a + value b), ?_, Utf8.toNat_ofNat_of_lt (by omega)⟩
  simp only [pairValue?, if_neg unsigned, hexValue?_eq_value first, hexValue?_eq_value second]

/-- An even row of digits spells octets whose sum is its worth. -/
theorem spells_of_digits (digits : AreDigits cs) (even : cs.length % 2 = 0) :
    ∃ packet, Spells cs packet ∧ (packet.map UInt8.toNat).sum = worth cs := by
  fun_induction worth cs with
  | case1 a b cs ih =>
      obtain ⟨first, digits⟩ := List.forall_mem_cons.mp digits
      obtain ⟨second, digits⟩ := List.forall_mem_cons.mp digits
      obtain ⟨octet, pair, sum⟩ := pairValue?_of_digits first second
      obtain ⟨packet, spells, rest⟩ := ih digits ((Nat.add_mod_right cs.length 2).symm.trans even)
      refine ⟨octet :: packet, .cons pair spells, ?_⟩
      rw [List.map_cons, List.sum_cons, sum, rest]
  | case2 cs short =>
      match cs, short, even with
      | [], _, _ => exact ⟨[], .nil, rfl⟩
      | a :: b :: cs, short, _ => exact absurd rfl (short a b cs)

/-- **A digit counts by its place.** -/
theorem worth_set {i : Nat} (even : cs.length % 2 = 0) (there : cs[i]? = some a) (b : Char) :
    worth (cs.set i b) + place i * value a = worth cs + place i * value b := by
  -- the place is in the first pair, or two places further on in the rest
  fun_induction worth cs generalizing i with
  | case1 first second cs ih =>
      match i, there with
      | 0, rfl =>
          rw [List.set_cons_zero, worth, place, if_pos rfl]
          omega
      | 1, rfl =>
          rw [List.set_cons_succ, List.set_cons_zero, worth, place, if_neg (by decide)]
          omega
      | i + 2, there =>
          have rest := ih ((Nat.add_mod_right cs.length 2).symm.trans even) there
          rw [List.set_cons_succ, List.set_cons_succ, worth, place, Nat.add_mod_right, ← place]
          omega
  | case2 cs short =>
      match cs, short, even, there with
      | first :: second :: cs, short, _, _ => exact absurd rfl (short first second cs)

/-- Another value in the same place is another sum. -/
theorem place_mul_ne {m k i v w : Nat} (small : v < 16) (small' : w < 16) (other : w ≠ v)
    (whole : k % 256 = 0) (same : m + place i * v = k + place i * w) : m % 256 ≠ 0 := by
  -- sixteen times a difference below sixteen stays below 256
  unfold place at same
  split at same <;> omega

/-! ## Lines -/

/-- A packet that reports something adds up to zero, and is longer than its head. -/
theorem sum_of_status {text : List Char} {packet : List UInt8} {reports : List Report}
    (h : readPacket text packet = .ok (.status reports)) : sum packet = 0 ∧ 4 < packet.length := by
  unfold readPacket at h
  split at h
  · cases h
  · rename_i zero
    split at h
    · rename_i first source application routing body octets
      have length := congrArg List.length octets
      simp only [List.length_dropLast, List.length_cons] at length
      exact ⟨not_not.mp zero, by omega⟩
    · cases h

/-- An even row of digits is read as a packet whose octets add up to what the digits are worth. -/
theorem decode_of_even (digits : AreDigits cs) (long : 1 < cs.length) (even : cs.length % 2 = 0) :
    ∃ packet, decode (octets cs) = readPacket cs packet ∧
      cs.length = 2 * packet.length ∧ (sum packet).toNat = worth cs % 256 := by
  obtain ⟨packet, spells, total⟩ := spells_of_digits digits even
  obtain ⟨-, -, size⟩ := text_of_digits digits
  have read : readHex cs = .ok packet := by
    rw [readHex, size, if_neg (by omega)]
    exact readPairs_eq_ok_iff.mpr spells
  refine ⟨packet, ?_, spells.length_eq, ?_⟩
  · rw [decode_of_digits digits, if_neg (Nat.not_le.mpr long), read]
    rfl
  · rw [toNat_sum, total]

/-- **Digits whose worth is no multiple of 256 are a wrong sum.** -/
theorem decode_of_worth (digits : AreDigits cs) (long : 1 < cs.length) (even : cs.length % 2 = 0)
    (off : worth cs % 256 ≠ 0) : ∃ s, decode (octets cs) = .error (.checksum s) := by
  obtain ⟨packet, decoded, -, total⟩ := decode_of_even digits long even
  refine ⟨sum packet, ?_⟩
  rw [decoded, readPacket, if_pos]
  intro zero
  rw [zero] at total
  exact off total.symm

/-- A line of digits that reports something is pairs of digits, more than four of them, and is worth a
multiple of 256. -/
theorem worth_of_status {reports : List Report} (digits : AreDigits cs)
    (status : decode (octets cs) = .ok (.status reports)) :
    8 < cs.length ∧ cs.length % 2 = 0 ∧ worth cs % 256 = 0 := by
  have long : 1 < cs.length := by
    by_contra short
    rw [decode_of_digits digits, if_pos (Nat.not_lt.mp short)] at status
    cases status
  rcases Nat.mod_two_eq_zero_or_one cs.length with even | odd
  · obtain ⟨packet, decoded, length, total⟩ := decode_of_even digits long even
    obtain ⟨zero, more⟩ := sum_of_status (decoded.symm.trans status)
    refine ⟨by omega, even, ?_⟩
    rw [← total, zero]
    rfl
  · rw [decode_of_odd digits long odd] at status
    cases status

/-- **A single fault in a line of digits is found.**  Take any line of digits that reports something.
With one digit replaced by one of another value it has a wrong sum; with one digit taken away, or one
put in, it has an odd number of digits. -/
theorem damage_detected {reports : List Report} (digits : ∀ c ∈ cs, IsHexDigit c)
    (status : decode (octets cs) = .ok (.status reports)) :
    (∀ i a b, cs[i]? = some a → IsHexDigit b → hexValue? b ≠ hexValue? a →
      ∃ s, decode (octets (cs.set i b)) = .error (.checksum s)) ∧
    (∀ i < cs.length, decode (octets (cs.eraseIdx i)) = .error (.oddDigits (cs.eraseIdx i))) ∧
    ∀ i ≤ cs.length, ∀ b, IsHexDigit b →
      decode (octets (cs.insertIdx i b)) = .error (.oddDigits (cs.insertIdx i b)) := by
  obtain ⟨long, even, whole⟩ := worth_of_status digits status
  refine ⟨fun i a b there digit other => ?_, fun i inside => ?_, fun i inside b digit => ?_⟩
  · have old : IsHexDigit a := digits a (List.mem_of_getElem? there)
    have another : value b ≠ value a := fun same => other (by
      rw [hexValue?_eq_value digit, hexValue?_eq_value old, same])
    have damaged : AreDigits (cs.set i b) := (AreDigits.cons digit digits).mono fun c hc =>
      List.mem_cons.mpr (List.mem_or_eq_of_mem_set hc).symm
    have length : (cs.set i b).length = cs.length := List.length_set
    have off := place_mul_ne (value_lt old) (value_lt digit) another whole (worth_set even there b)
    exact decode_of_worth damaged (by omega) (by omega) off
  · have damaged : AreDigits (cs.eraseIdx i) := AreDigits.mono digits List.eraseIdx_subset
    have length := List.length_eraseIdx_add_one inside
    exact decode_of_odd damaged (by omega) (by omega)
  · have damaged : AreDigits (cs.insertIdx i b) := (AreDigits.cons digit digits).mono fun c hc =>
      List.mem_cons.mpr (List.eq_or_mem_of_mem_insertIdx hc)
    have length : (cs.insertIdx i b).length = cs.length + 1 :=
      List.length_insertIdx_of_le_length inside b
    exact decode_of_odd damaged (by omega) (by omega)

/-- The line on which unit 1 reports that address 10 is on: with its ninth digit changed, with its
third digit lost, and with a digit more at its end. -/
theorem damage_detected_of_on :
    let cs := "05013800790A3F".toList
    (∀ c ∈ cs, IsHexDigit c) ∧
      decode (octets cs) = .ok (.status [⟨⟨10⟩, .full, .zero, some 1⟩]) ∧
      (∃ s, decode (octets "05013800190A3F".toList) = .error (.checksum s)) ∧
      decode (octets "0513800790A3F".toList) = .error (.oddDigits "0513800790A3F".toList) ∧
      decode (octets "05013800790A3FF".toList) = .error (.oddDigits "05013800790A3FF".toList) := by
  intro cs
  have digits : ∀ c ∈ cs, IsHexDigit c := by
    have all : (cs.all fun c => (hexValue? c).isSome) = true := by decide
    exact fun c hc => isSome_hexValue?_iff.mp (List.all_eq_true.mp all c hc)
  have status : decode (octets cs) = .ok (.status [⟨⟨10⟩, .full, .zero, some 1⟩]) := by
    decide +kernel
  obtain ⟨changed, lost, added⟩ := damage_detected digits status
  exact ⟨digits, status, changed 8 '7' '1' rfl (isSome_hexValue?_iff.mp rfl) (by decide),
    lost 2 (by decide), added 14 (by decide) 'F' (isSome_hexValue?_iff.mp rfl)⟩

end Lighting.Packet
