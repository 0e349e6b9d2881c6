import Lighting.Proofs.Packet.Reading

/-!
# What passes for digits

A line is read two characters at a time, and a pair that is no octet is an error.  A pair of
hexadecimal digits of either case is an octet; but so is a plus sign with one digit behind it, which
reads as that digit alone.  Hence not only digits are read.  What is read is told exactly: writing the
octets again gives the text in upper case, with a zero for each sign (`Spells.hexUpper_eq`), and a sign
stands only in the first place of a pair (`Spells.digit_or_sign`).  A text without a sign is nothing
but digits.
-/

namespace Lighting

namespace Text

/-- A hexadecimal digit of either case. -/
def IsHexDigit (c : Char) : Prop :=
  '0' ≤ c ∧ c ≤ '9' ∨ 'a' ≤ c ∧ c ≤ 'f' ∨ 'A' ≤ c ∧ c ≤ 'F'

variable {c : Char} {n : Nat}

theorem isSome_hexValue?_iff : (hexValue? c).isSome ↔ IsHexDigit c := by
  unfold hexValue? IsHexDigit
  simp only [Bool.and_eq_true, decide_eq_true_eq]
  split
  · simp [*]
  · split
    · simp [*]
    · split <;> simp [*]

theorem isHexDigit_of_hexValue? (h : hexValue? c = some n) : IsHexDigit c :=
  isSome_hexValue?_iff.mp (Option.isSome_iff_exists.mpr ⟨n, h⟩)

theorem toNat_lt_of_hexValue? (h : hexValue? c = some n) : c.toNat < 0x80 :=
  Nat.lt_succ_of_le (UInt32.le_iff_toNat_le.mp
    (Char.utf8Size_eq_one_iff.mp (utf8Size_of_hexValue? h)))

/-- A digit has a value below sixteen, and is written in upper case as that value. -/
theorem upperHex_of_hexValue? (h : hexValue? c = some n) : n < 16 ∧ upperHex n = c.toUpper := by
  have all : ∀ k < 0x80, ∀ n ∈ hexValue? (Char.ofNat k),
      n < 16 ∧ upperHex n = (Char.ofNat k).toUpper := by decide
  have this := all c.toNat (toNat_lt_of_hexValue? h) n
  rw [Char.ofNat_toNat] at this
  exact this h

theorem not_isHexDigit_plus : ¬ IsHexDigit '+' := by
  rw [← isSome_hexValue?_iff]
  decide

end Text

namespace Packet

open Text

variable {a b : Char} {octet : UInt8} {cs : List Char} {packet : List UInt8}

/-- A digit in upper case, and a sign as a zero. -/
def plain (c : Char) : Char := if c = '+' then '0' else c.toUpper

theorem plain_of_isHexDigit {c : Char} (h : IsHexDigit c) : plain c = c.toUpper :=
  if_neg fun plus : c = '+' => not_isHexDigit_plus (plus ▸ h)

/-! ## Pairs -/

/-- **The pairs that are read.**  The second character is a digit, and the first one is a digit or a
sign. -/
theorem pairValue?_eq_some (h : pairValue? a b = some octet) :
    (IsHexDigit a ∨ a = '+') ∧ IsHexDigit b ∧ octetUpper octet = [plain a, plain b] := by
  unfold pairValue? at h
  split at h
  · rename_i plus
    obtain ⟨n, digit, rfl⟩ := Option.map_eq_some_iff.mp h
    obtain ⟨small, upper⟩ := upperHex_of_hexValue? digit
    have second := isHexDigit_of_hexValue? digit
    refine ⟨Or.inr plus, second, ?_⟩
    rw [octetUpper, Utf8.toNat_ofNat_of_lt (by omega), Nat.div_eq_of_lt small,
      Nat.mod_eq_of_lt small, upper, plain_of_isHexDigit second, plain, if_pos plus]
    rfl
  · split at h
    · rename_i high low first second
      obtain rfl := Option.some.inj h
      obtain ⟨small, upper⟩ := upperHex_of_hexValue? first
      obtain ⟨small', upper'⟩ := upperHex_of_hexValue? second
      have digit := isHexDigit_of_hexValue? first
      have digit' := isHexDigit_of_hexValue? second
      refine ⟨Or.inl digit, digit', ?_⟩
      rw [octetUpper, Utf8.toNat_ofNat_of_lt (by omega), plain_of_isHexDigit digit,
        plain_of_isHexDigit digit', ← upper, ← upper', Nat.mul_add_div (by decide),
        Nat.div_eq_of_lt small', Nat.add_zero, Nat.mul_add_mod, Nat.mod_eq_of_lt small']
    · cases h

/-! ## Rows of pairs -/

/-- **Octets that are read are written as the text they were read from**, in upper case and with a
zero for each sign. -/
theorem Spells.hexUpper_eq (h : Spells cs packet) : hexUpper packet = cs.map plain := by
  induction h with
  | nil => rfl
  | cons pair rest ih =>
      obtain ⟨-, -, upper⟩ := pairValue?_eq_some pair
      rw [hexUpper, List.flatMap_cons, upper, ← hexUpper, ih]
      rfl

/-- A text that is read consists of digits, and of signs in the first place of a pair. -/
theorem Spells.digit_or_sign (h : Spells cs packet) {i : Nat} {c : Char} (there : cs[i]? = some c) :
    IsHexDigit c ∨ i % 2 = 0 ∧ c = '+' := by
  induction h generalizing i with
  | nil => cases there
  | cons pair rest ih =>
      obtain ⟨first, second, -⟩ := pairValue?_eq_some pair
      match i, there with
      | 0, rfl => exact first.imp_right fun plus => ⟨rfl, plus⟩
      | 1, rfl => exact Or.inl second
      | i + 2, there =>
          rw [Nat.add_mod_right]
          exact ih there

/-- **Without a sign, what is read is digits.** -/
theorem Spells.digits_iff (h : Spells cs packet) : (∀ c ∈ cs, IsHexDigit c) ↔ '+' ∉ cs := by
  constructor
  · exact fun digits plus => not_isHexDigit_plus (digits '+' plus)
  · intro unsigned c hc
    obtain ⟨i, there⟩ := List.mem_iff_getElem?.mp hc
    exact (h.digit_or_sign there).resolve_right fun ⟨_, plus⟩ => unsigned (plus ▸ hc)

/-! ## Lines -/

/-- An error tells of a malformed frame. -/
def DecodeError.IsMalformed (e : DecodeError) : Prop :=
  ∃ what, e.message? = some ("malformed frame: " ++ what)

theorem isMalformed_oddDigits (text : List Char) : (DecodeError.oddDigits text).IsMalformed :=
  ⟨"odd number of hex digits in " ++ quoted text, by rw [← String.append_assoc]; rfl⟩

theorem isMalformed_invalidHex (text : List Char) : (DecodeError.invalidHex text).IsMalformed :=
  ⟨"invalid hex in " ++ quoted text, by rw [← String.append_assoc]; rfl⟩

/-- Digits that cannot be read are a malformed frame, or reading breaks off. -/
theorem isMalformed_of_readPairs {text : List Char} {e : DecodeError}
    (h : readPairs text cs = .error e) : e.IsMalformed ∨ e = .splitCharacter := by
  fun_induction readPairs text cs with
  | case1 => cases h
  | case4 a one b cs one' octet pair ih =>
      cases rest : readPairs text cs with
      | ok octets => rw [rest] at h; cases h
      | error e' =>
          rw [rest] at h
          cases h
          exact ih rest
  | case2 =>
      cases h
      exact Or.inl (isMalformed_oddDigits text)
  | case3 | case6 =>
      cases h
      exact Or.inl (isMalformed_invalidHex text)
  | case5 | case7 =>
      cases h
      exact Or.inr rfl

theorem isMalformed_of_readHex {text : List Char} {e : DecodeError}
    (h : readHex text = .error e) : e.IsMalformed ∨ e = .splitCharacter := by
  unfold readHex at h
  split at h
  · cases h
    exact Or.inl (isMalformed_oddDigits text)
  · exact isMalformed_of_readPairs h

theorem spells_of_readHex {text : List Char} (h : readHex text = .ok packet) :
    Spells text packet := by
  unfold readHex at h
  split at h
  · cases h
  · exact readPairs_eq_ok_iff.mp h

/-- **What passes for digits.**  Take a frame that is text of at least two octets between its blanks
and no confirmation.  If decoding it returns anything but a malformed frame, the text was read into
octets, two characters for each.  Written again the octets give the text in upper case, but for a
zero in place of each plus sign; a sign stands only where an octet begins, and all other characters
are digits.  So the text is nothing but digits, and is what its octets are written as, exactly if
there is no sign in it. -/
theorem decoded_digits {frame : List UInt8} (text : Utf8.decode frame = some cs)
    (line : confirmation? frame = none) (long : 2 ≤ Utf8.size (trim cs))
    (returned : decode frame ≠ .error .splitCharacter)
    (formed : ∀ e, decode frame = .error e → ¬ e.IsMalformed) :
    ∃ packet, readHex (trim cs) = .ok packet ∧ decode frame = readPacket (trim cs) packet ∧
      (trim cs).length = 2 * packet.length ∧
      (∀ i c, (trim cs)[i]? = some c → IsHexDigit c ∨ i % 2 = 0 ∧ c = '+') ∧
      hexUpper packet = (trim cs).map plain ∧
      ((∀ c ∈ trim cs, IsHexDigit c) ∧ hexUpper packet = (trim cs).map Char.toUpper ↔
        '+' ∉ trim cs) := by
  have decoded : decode frame = (readHex (trim cs)).bind (readPacket (trim cs)) := by
    simp only [decode, line, decodeLine, text, if_neg (Nat.not_le.mpr long)]
  cases read : readHex (trim cs) with
  | error e =>
      rw [read] at decoded
      rcases isMalformed_of_readHex read with malformed | rfl
      · exact absurd malformed (formed e decoded)
      · exact absurd decoded returned
  | ok packet =>
      rw [read] at decoded
      have spells := spells_of_readHex read
      have upper := spells.hexUpper_eq
      refine ⟨packet, rfl, decoded, spells.length_eq, fun i c => spells.digit_or_sign, upper, ?_⟩
      refine ⟨fun both => spells.digits_iff.mp both.1, fun unsigned => ?_⟩
      have digits := spells.digits_iff.mpr unsigned
      refine ⟨digits, ?_⟩
      rw [upper]
      exact List.map_congr_left fun c hc => plain_of_isHexDigit (digits c hc)

/-- A line of digits of both cases, with a blank in front. -/
theorem decoded_digits_of_both_cases :
    let cs := " 05013800790a3F".toList
    Utf8.decode (octets cs) = some cs ∧ confirmation? (octets cs) = none ∧
      2 ≤ Utf8.size (trim cs) ∧
      decode (octets cs) = .ok (.status [⟨⟨10⟩, .full, .zero, some 1⟩]) ∧
      trim cs = "05013800790a3F".toList ∧ (∀ c ∈ trim cs, IsHexDigit c) ∧
      ∃ packet, readHex (trim cs) = .ok packet ∧ hexUpper packet = "05013800790A3F".toList := by
  intro cs
  have text : Utf8.decode (octets cs) = some cs := by decide +kernel
  have line : confirmation? (octets cs) = none := by decide +kernel
  have long : 2 ≤ Utf8.size (trim cs) := by decide +kernel
  have status : decode (octets cs) = .ok (.status [⟨⟨10⟩, .full, .zero, some 1⟩]) := by
    decide +kernel
  have unsigned : '+' ∉ trim cs := by decide +kernel
  obtain ⟨packet, read, -, -, -, -, digits⟩ := decoded_digits text line long
    (by rw [status]; nofun) (by rw [status]; nofun)
  obtain ⟨digits, upper⟩ := digits.mpr unsigned
  exact ⟨text, line, long, status, by decide +kernel, digits, packet, read,
    upper.trans (by decide +kernel)⟩

/-- A line with a plus sign in it is no line of digits, and it is taken for a packet with a right
sum: it reports that address 10 is on. -/
theorem sign_read_as_digit :
    let cs := "05+13800790A3F".toList
    Utf8.decode (octets cs) = some cs ∧ confirmation? (octets cs) = none ∧
      2 ≤ Utf8.size (trim cs) ∧
      decode (octets cs) = .ok (.status [⟨⟨10⟩, .full, .zero, some 1⟩]) ∧
      ¬ ∀ c ∈ trim cs, IsHexDigit c := by
  intro cs
  refine ⟨by decide +kernel, by decide +kernel, by decide +kernel, by decide +kernel, ?_⟩
  intro digits
  exact not_isHexDigit_plus (digits '+' (by decide +kernel))

end Packet

end Lighting
