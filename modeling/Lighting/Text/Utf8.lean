/-!
# UTF-8

`Utf8.decode` reads the characters of a row of octets.  It accepts exactly the encodings of Unicode
scalar values: no overlong form, no surrogate, nothing above U+10FFFF.  `Utf8.encode` writes them, and
`decode_encode` says that what is written reads back.
-/

namespace Lighting.Text.Utf8

/-- How many octets a character takes that begins with `a`; none if no character does. -/
def leadLength (a : UInt8) : Nat :=
  if a.toNat < 0x80 then 1
  else if a.toNat < 0xC2 then 0
  else if a.toNat < 0xE0 then 2
  else if a.toNat < 0xF0 then 3
  else if a.toNat < 0xF8 then 4
  else 0

/-- Whether an octet continues a character. -/
def isContinuation (b : UInt8) : Bool := 0x80 ≤ b.toNat && b.toNat < 0xC0

/-- Adds the six bits that a continuation octet carries. -/
def extend (n : Nat) (b : UInt8) : Nat := n * 64 + b.toNat % 64

/-- The character of a code point that is at least `least` and no surrogate. -/
def scalar? (least n : Nat) : Option Char :=
  if h : least ≤ n ∧ n.isValidChar then some (Char.ofNatAux n h.2) else none

/-- The character of a lead octet that carries `lead` and of octets that must continue it; shorter
encodings end before `least`. -/
def char? (least lead : Nat) (more : List UInt8) : Option Char :=
  if more.all isContinuation then scalar? least (more.foldl extend lead) else none

/-- Reads a row of octets as characters. -/
def decode : List UInt8 → Option (List Char)
  | [] => some []
  | a :: rest =>
    match leadLength a, rest with
    | 1, rest => (decode rest).map (Char.ofNat a.toNat :: ·)
    | 2, b :: rest =>
      (char? 0x80 (a.toNat % 32) [b]).bind fun ch => (decode rest).map (ch :: ·)
    | 3, b :: c :: rest =>
      (char? 0x800 (a.toNat % 16) [b, c]).bind fun ch => (decode rest).map (ch :: ·)
    | 4, b :: c :: d :: rest =>
      (char? 0x10000 (a.toNat % 8) [b, c, d]).bind fun ch => (decode rest).map (ch :: ·)
    | _, _ => none

/-- The octets of a row of characters. -/
def encode (cs : List Char) : List UInt8 := cs.flatMap String.utf8EncodeChar

/-- The number of octets of a row of characters. -/
def size : List Char → Nat
  | [] => 0
  | c :: cs => c.utf8Size + size cs

theorem toNat_ofNat_of_lt {n : Nat} (h : n < 256) : (UInt8.ofNat n).toNat = n := by
  simp [UInt8.toNat_ofNat', Nat.mod_eq_of_lt h]

theorem isContinuation_ofNat (n : Nat) :
    isContinuation (UInt8.ofNat (n % 0x40 + 0x80)) = true := by
  simp only [isContinuation, toNat_ofNat_of_lt (n := n % 0x40 + 0x80) (by omega),
    Bool.and_eq_true, decide_eq_true_eq]
  omega

theorem extend_ofNat (m n : Nat) : extend m (UInt8.ofNat (n % 0x40 + 0x80)) = m * 64 + n % 64 := by
  rw [extend, toNat_ofNat_of_lt (by omega)]
  omega

theorem scalar?_eq_some {c : Char} {least n : Nat} (h : least ≤ c.toNat) (hn : n = c.toNat) :
    scalar? least n = some c := by
  subst hn
  rw [scalar?, dif_pos ⟨h, c.valid⟩]
  congr 1

/-- A character that is written reads back, whatever follows it. -/
theorem decode_utf8EncodeChar_append (c : Char) (rest : List UInt8) :
    decode (String.utf8EncodeChar c ++ rest) = (decode rest).map (c :: ·) := by
  have hmax : c.toNat < 0x110000 := by
    have h : c.toNat.isValidChar := c.valid
    simp only [Nat.isValidChar] at h
    omega
  have hval : c.val.toNat = c.toNat := rfl
  simp only [String.utf8EncodeChar, hval]
  generalize hn : c.toNat = n at *
  split
  · have hl : leadLength (UInt8.ofNat n) = 1 := by
      rw [leadLength, toNat_ofNat_of_lt (by omega), if_pos (by omega)]
    rw [List.cons_append, List.nil_append, decode.eq_def]
    simp only [hl, toNat_ofNat_of_lt (n := n) (by omega)]
    rw [← hn, Char.ofNat_toNat]
  · split
    · have hb : (UInt8.ofNat (n / 64 % 0x20 + 0xc0)).toNat = n / 64 % 0x20 + 0xc0 :=
        toNat_ofNat_of_lt (by omega)
      have hl : leadLength (UInt8.ofNat (n / 64 % 0x20 + 0xc0)) = 2 := by
        rw [leadLength, hb, if_neg (by omega), if_neg (by omega), if_pos (by omega)]
      have hc : char? 0x80 ((n / 64 % 0x20 + 0xc0) % 32) [UInt8.ofNat (n % 0x40 + 0x80)] = some c := by
        rw [char?, if_pos (by
          simp only [List.all_cons, List.all_nil, isContinuation_ofNat, Bool.and_true])]
        simp only [List.foldl, extend_ofNat]
        exact scalar?_eq_some (by omega) (by omega)
      simp only [List.cons_append, List.nil_append]
      rw [decode.eq_def]
      simp only [hl, hb, hc, Option.bind_some]
    · split
      · have hb : (UInt8.ofNat (n / 4096 % 0x10 + 0xe0)).toNat = n / 4096 % 0x10 + 0xe0 :=
          toNat_ofNat_of_lt (by omega)
        have hl : leadLength (UInt8.ofNat (n / 4096 % 0x10 + 0xe0)) = 3 := by
          rw [leadLength, hb, if_neg (by omega), if_neg (by omega), if_neg (by omega),
            if_pos (by omega)]
        have hc : char? 0x800 ((n / 4096 % 0x10 + 0xe0) % 16)
            [UInt8.ofNat (n / 64 % 0x40 + 0x80), UInt8.ofNat (n % 0x40 + 0x80)] = some c := by
          rw [char?, if_pos (by
          simp only [List.all_cons, List.all_nil, isContinuation_ofNat, Bool.and_true])]
          simp only [List.foldl, extend_ofNat]
          exact scalar?_eq_some (by omega) (by omega)
        simp only [List.cons_append, List.nil_append]
        rw [decode.eq_def]
        simp only [hl, hb, hc, Option.bind_some]
      · have hb : (UInt8.ofNat (n / 262144 % 0x08 + 0xf0)).toNat = n / 262144 % 0x08 + 0xf0 :=
          toNat_ofNat_of_lt (by omega)
        have hl : leadLength (UInt8.ofNat (n / 262144 % 0x08 + 0xf0)) = 4 := by
          rw [leadLength, hb, if_neg (by omega), if_neg (by omega), if_neg (by omega),
            if_neg (by omega), if_pos (by omega)]
        have hc : char? 0x10000 ((n / 262144 % 0x08 + 0xf0) % 8)
            [UInt8.ofNat (n / 4096 % 0x40 + 0x80), UInt8.ofNat (n / 64 % 0x40 + 0x80),
              UInt8.ofNat (n % 0x40 + 0x80)] = some c := by
          rw [char?, if_pos (by
          simp only [List.all_cons, List.all_nil, isContinuation_ofNat, Bool.and_true])]
          simp only [List.foldl, extend_ofNat]
          exact scalar?_eq_some (by omega) (by omega)
        simp only [List.cons_append, List.nil_append]
        rw [decode.eq_def]
        simp only [hl, hb, hc, Option.bind_some]

/-- What is written reads back. -/
theorem decode_encode (cs : List Char) : decode (encode cs) = some cs := by
  induction cs with
  | nil => rfl
  | cons c cs ih =>
    show decode (String.utf8EncodeChar c ++ encode cs) = _
    rw [decode_utf8EncodeChar_append, ih, Option.map_some]

end Lighting.Text.Utf8
