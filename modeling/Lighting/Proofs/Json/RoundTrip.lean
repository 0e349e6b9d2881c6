import Lighting.Json.Document
import Lighting.Json.Record
import Lighting.Proofs.Json.Number
import Lighting.Proofs.Text.Numeral

/-!
# JSON documents that are read back

Writing goes by characters and reading by octets, and in between stands UTF-8.  A character of a string is
written in one of three ways (`Written`), and for each of them scanning passes over what was written and
unescaping gives back the octets of the character.  A number is written in its shortest numeral, which is
what scanning looks for, as long as what follows cannot belong to a number (`Closes`).

So the values of a flat object, those that are no arrays and no objects themselves, come back one by one,
and so does the object (`read_write`).
-/

namespace Lighting.Json

open Text.Utf8 (encode)

variable {c : Char} {octets rest : List UInt8}

theorem encode_nil : encode [] = [] := rfl

theorem encode_cons (c : Char) (cs : List Char) :
    encode (c :: cs) = String.utf8EncodeChar c ++ encode cs := rfl

theorem encode_append (cs ds : List Char) : encode (cs ++ ds) = encode cs ++ encode ds :=
  List.flatMap_append

/-! ## Characters -/

/-- An octet that stands for itself in a string. -/
def IsPlain (b : UInt8) : Prop := 0x20 ≤ b.toNat ∧ b.toNat ≠ 0x22 ∧ b.toNat ≠ 0x5C

/-- How a character of a string is written. -/
inductive Written (c : Char) : List UInt8 → Prop where
  /-- As it is. -/
  | plain (octets : ∀ b ∈ String.utf8EncodeChar c, IsPlain b) : Written c (String.utf8EncodeChar c)
  /-- By a backslash and a letter. -/
  | short (e : UInt8) (known : isEscape e = true) (letter : e ≠ 0x75)
      (means : String.utf8EncodeChar c = [escaped e]) : Written c [0x5C, e]
  /-- By a backslash, the letter `u` and four digits. -/
  | long (h₁ h₂ h₃ h₄ : UInt8) (digits : [h₁, h₂, h₃, h₄].all isHexDigit = true)
      (means : hexUnit [h₁, h₂, h₃, h₄] = c.toNat) : Written c [0x5C, 0x75, h₁, h₂, h₃, h₄]

theorem utf8EncodeChar_of_low (low : c.toNat < 0x80) :
    String.utf8EncodeChar c = [UInt8.ofNat c.toNat] :=
  if_pos (Nat.le_of_lt_succ low)

theorem isPlain_of_le {n : Nat} (high : 0x80 ≤ n) (low : n < 256) : IsPlain (UInt8.ofNat n) := by
  rw [IsPlain, Text.Utf8.toNat_ofNat_of_lt low]
  omega

/-- A character that is neither a control character nor a quote or a backslash is plain. -/
theorem isPlain_of_printable (printable : 0x20 ≤ c.toNat) (quote : c ≠ '"') (slash : c ≠ '\\') :
    ∀ b ∈ String.utf8EncodeChar c, IsPlain b := by
  have noQuote : c.toNat ≠ 0x22 := fun same => quote (Char.toNat_inj.mp same)
  have noSlash : c.toNat ≠ 0x5C := fun same => slash (Char.toNat_inj.mp same)
  have value : c.val.toNat = c.toNat := rfl
  simp only [String.utf8EncodeChar, value]
  intro b hb
  split at hb
  · obtain rfl := List.mem_singleton.mp hb
    rw [IsPlain, Text.Utf8.toNat_ofNat_of_lt (by omega)]
    exact ⟨printable, noQuote, noSlash⟩
  · -- all octets of a longer character lie above the ones that stand for themselves
    split at hb
    · simp only [List.mem_cons, List.not_mem_nil, or_false] at hb
      rcases hb with rfl | rfl <;> exact isPlain_of_le (by omega) (by omega)
    · split at hb
      · simp only [List.mem_cons, List.not_mem_nil, or_false] at hb
        rcases hb with rfl | rfl | rfl <;> exact isPlain_of_le (by omega) (by omega)
      · simp only [List.mem_cons, List.not_mem_nil, or_false] at hb
        rcases hb with rfl | rfl | rfl | rfl <;> exact isPlain_of_le (by omega) (by omega)

/-- The four digits of a control character. -/
def controlDigits (n : Nat) : List UInt8 := encode (['0', '0'] ++ Text.octetLower (UInt8.ofNat n))

theorem controlDigits_eq {n : Nat} (control : n < 0x20) :
    ∃ h₁ h₂ h₃ h₄, controlDigits n = [h₁, h₂, h₃, h₄] ∧
      [h₁, h₂, h₃, h₄].all isHexDigit = true ∧ hexUnit [h₁, h₂, h₃, h₄] = n := by
  have all : ∀ n < 0x20, (controlDigits n).length = 4 ∧ (controlDigits n).all isHexDigit = true ∧
      hexUnit (controlDigits n) = n := by decide
  obtain ⟨length, digits, value⟩ := all n control
  match row : controlDigits n, length with
  | [h₁, h₂, h₃, h₄], _ => exact ⟨h₁, h₂, h₃, h₄, rfl, row ▸ digits, row ▸ value⟩

/-- **A character is written in one of the three ways.** -/
theorem written_escapeChar (c : Char) : Written c (encode (escapeChar c)) := by
  unfold escapeChar
  split
  · subst c
    exact .short 0x22 rfl (by decide) rfl
  split
  · subst c
    exact .short 0x5C rfl (by decide) rfl
  split
  · rename_i backspace
    obtain rfl : c = Char.ofNat 0x08 := Char.toNat_inj.mp backspace
    exact .short 0x62 rfl (by decide) rfl
  split
  · rename_i feed
    obtain rfl : c = Char.ofNat 0x0C := Char.toNat_inj.mp feed
    exact .short 0x66 rfl (by decide) rfl
  split
  · subst c
    exact .short 0x6E rfl (by decide) rfl
  split
  · subst c
    exact .short 0x72 rfl (by decide) rfl
  split
  · subst c
    exact .short 0x74 rfl (by decide) rfl
  split
  · rename_i control
    obtain ⟨h₁, h₂, h₃, h₄, row, digits, value⟩ := controlDigits_eq control
    have octets : encode (['\\', 'u', '0', '0'] ++ Text.octetLower (UInt8.ofNat c.toNat)) =
        [0x5C, 0x75, h₁, h₂, h₃, h₄] := congrArg ([0x5C, 0x75] ++ ·) row
    rw [octets]
    exact .long h₁ h₂ h₃ h₄ digits value
  · rename_i quote slash _ _ _ _ _ printable
    rw [encode_cons, encode_nil, List.append_nil]
    exact .plain (isPlain_of_printable (Nat.not_lt.mp printable) quote slash)

/-! ## Strings -/

/-- What stands between the quotes of a text that is written. -/
def stringBody (text : String) : List UInt8 := encode (text.toList.flatMap escapeChar)

theorem scanString_plain (plain : ∀ b ∈ octets, IsPlain b) (rest : List UInt8) :
    scanString (octets ++ rest) = (scanString rest).map fun p => (octets ++ p.1, p.2) := by
  induction octets with
  | nil => simp
  | cons b octets ih =>
      obtain ⟨⟨control, quote, slash⟩, plain⟩ := List.forall_mem_cons.mp plain
      have noQuote : b ≠ 0x22 := fun same => quote (by rw [same]; rfl)
      have noSlash : b ≠ 0x5C := fun same => slash (by rw [same]; rfl)
      have noControl : ¬ b < 0x20 := by
        rw [UInt8.lt_iff_toNat_lt]
        exact Nat.not_lt.mpr control
      rw [List.cons_append, scanString.eq_def]
      simp only [noQuote, noControl, noSlash, if_false, ih plain, Option.map_map]
      rfl

theorem unescape_plain (plain : ∀ b ∈ octets, IsPlain b) (rest : List UInt8) :
    unescape none (octets ++ rest) = (unescape none rest).map (octets ++ ·) := by
  induction octets with
  | nil => simp
  | cons b octets ih =>
      obtain ⟨⟨-, -, slash⟩, plain⟩ := List.forall_mem_cons.mp plain
      have noSlash : b ≠ 0x5C := fun same => slash (by rw [same]; rfl)
      rw [List.cons_append, unescape.eq_def]
      simp only [noSlash, if_false, Option.isSome_none, Bool.false_eq_true, ih plain, Option.map_map]
      rfl

/-- Scanning passes over a character. -/
theorem scanString_written (h : Written c octets) (rest : List UInt8) :
    scanString (octets ++ rest) = (scanString rest).map fun p => (octets ++ p.1, p.2) := by
  cases h with
  | plain plain => exact scanString_plain plain rest
  | short e known letter means =>
      show scanString (0x5C :: e :: rest) = _
      rw [scanString.eq_def]
      simp only [show (0x5C : UInt8) ≠ 0x22 by decide, show ¬ (0x5C : UInt8) < 0x20 by decide,
        letter, known, if_true, if_false]
      rfl
  | long h₁ h₂ h₃ h₄ digits means =>
      show scanString (0x5C :: 0x75 :: h₁ :: h₂ :: h₃ :: h₄ :: rest) = _
      rw [scanString.eq_def]
      simp only [show (0x5C : UInt8) ≠ 0x22 by decide, show ¬ (0x5C : UInt8) < 0x20 by decide,
        digits, if_true, if_false]
      rfl

/-- Unescaping gives a character back. -/
theorem unescape_written (h : Written c octets) (rest : List UInt8) :
    unescape none (octets ++ rest) = (unescape none rest).map (String.utf8EncodeChar c ++ ·) := by
  cases h with
  | plain plain => exact unescape_plain plain rest
  | short e known letter means =>
      show unescape none (0x5C :: e :: rest) = _
      rw [unescape.eq_def, means]
      simp only [letter, if_true, if_false, Option.isSome_none, Bool.false_eq_true]
      rfl
  | long h₁ h₂ h₃ h₄ digits means =>
      -- the code point of a character is no half of a pair
      have scalar : ¬ (0xD800 ≤ c.toNat ∧ c.toNat < 0xDC00) ∧
          ¬ (0xDC00 ≤ c.toNat ∧ c.toNat < 0xE000) := by
        have valid : c.toNat.isValidChar := c.valid
        simp only [Nat.isValidChar] at valid
        omega
      show unescape none (0x5C :: 0x75 :: h₁ :: h₂ :: h₃ :: h₄ :: rest) = _
      rw [unescape.eq_def]
      simp only [means, scalar, if_true, if_false, Char.ofNat_toNat]

theorem scanString_chars (cs : List Char) (rest : List UInt8) :
    scanString (encode (cs.flatMap escapeChar) ++ 0x22 :: rest) =
      some (encode (cs.flatMap escapeChar), rest) := by
  induction cs with
  | nil => rw [List.flatMap_nil, encode_nil, List.nil_append, scanString.eq_def]; rfl
  | cons c cs ih =>
      rw [List.flatMap_cons, encode_append, List.append_assoc,
        scanString_written (written_escapeChar c), ih]
      rfl

theorem unescape_chars (cs : List Char) :
    unescape none (encode (cs.flatMap escapeChar)) = some (encode cs) := by
  induction cs with
  | nil => rfl
  | cons c cs ih =>
      rw [List.flatMap_cons, encode_append, unescape_written (written_escapeChar c), ih]
      rfl

/-- **A text that is written is scanned up to its closing quote.** -/
theorem scanString_writeString (text : String) (rest : List UInt8) :
    encode (writeString text) ++ rest = 0x22 :: (stringBody text ++ 0x22 :: rest) ∧
      scanString (stringBody text ++ 0x22 :: rest) = some (stringBody text, rest) := by
  refine ⟨?_, scanString_chars _ _⟩
  rw [writeString, encode_append, encode_cons, List.append_assoc, List.append_assoc]
  rfl

/-- **A text that is written reads back.** -/
theorem stringChars?_stringBody (text : String) :
    stringChars? (stringBody text) = some text.toList := by
  rw [stringChars?, stringBody, unescape_chars]
  exact Text.Utf8.decode_encode _

/-! ## Numbers -/

/-- The octets of a number. -/
def numberBody (n : Nat) : List UInt8 := encode (Text.decimal n).toList

/-- What follows closes a value: a comma or a bracket. -/
def Closes (rest : List UInt8) : Prop := ∀ b ∈ rest.head?, b = 0x2C ∨ b = 0x5D ∨ b = 0x7D

/-- The octet of a digit. -/
theorem utf8EncodeChar_of_isDigit (digit : c.isDigit = true) :
    ∃ b, String.utf8EncodeChar c = [b] ∧ isDigit b = true ∧
      Numeral.digitValue b = Text.digitValue c := by
  have range := Text.toNat_of_isDigit digit
  have octet : (UInt8.ofNat c.toNat).toNat = c.toNat := Text.Utf8.toNat_ofNat_of_lt (by omega)
  refine ⟨_, utf8EncodeChar_of_low (by omega), ?_, ?_⟩
  · rw [isDigit, Bool.and_eq_true, decide_eq_true_eq, decide_eq_true_eq, UInt8.le_iff_toNat_le,
      UInt8.le_iff_toNat_le, octet]
    exact range
  · rw [Numeral.digitValue, octet]
    rfl

/-- Digits that are written are digits of the same values. -/
theorem encode_digits {cs : List Char} (digits : ∀ c ∈ cs, c.isDigit = true) :
    (encode cs).length = cs.length ∧ (∀ b ∈ encode cs, isDigit b = true) ∧
      ∀ m, (encode cs).foldl (fun n b => 10 * n + Numeral.digitValue b) m =
        cs.foldl (fun n c => 10 * n + Text.digitValue c) m := by
  induction cs with
  | nil => exact ⟨rfl, nofun, fun _ => rfl⟩
  | cons c cs ih =>
      obtain ⟨first, digits⟩ := List.forall_mem_cons.mp digits
      obtain ⟨b, octet, digit, value⟩ := utf8EncodeChar_of_isDigit first
      obtain ⟨length, all, fold⟩ := ih digits
      rw [encode_cons, octet, List.singleton_append]
      refine ⟨by rw [List.length_cons, length, List.length_cons],
        List.forall_mem_cons.mpr ⟨digit, all⟩, fun m => ?_⟩
      rw [List.foldl_cons, List.foldl_cons, fold, value]

theorem isDigit_numberBody (n : Nat) : ∀ b ∈ numberBody n, isDigit b = true :=
  (encode_digits (Text.isDigit_decimal n)).2.1

theorem exists_numberBody (n : Nat) : ∃ b body, numberBody n = b :: body ∧ isDigit b = true := by
  have filled : numberBody n ≠ [] := by
    refine List.ne_nil_of_length_pos ?_
    rw [numberBody, (encode_digits (Text.isDigit_decimal n)).1, Text.decimal, String.toList_ofList]
    exact List.length_pos_of_ne_nil (by simp)
  obtain ⟨b, body, row⟩ := List.exists_cons_of_ne_nil filled
  exact ⟨b, body, row, isDigit_numberBody n b (row ▸ List.mem_cons_self)⟩

theorem digitsValue_numberBody (n : Nat) : Numeral.digitsValue (numberBody n) = n := by
  have value := (encode_digits (Text.isDigit_decimal n)).2.2 0
  rw [Numeral.digitsValue, numberBody, value, Text.decimal, String.toList_ofList]
  exact Text.digitsValue_toDigits n

theorem not_isDigit_of_closes (closes : Closes rest) : ∀ b ∈ rest.head?, isDigit b = false := by
  intro b first
  rcases closes b first with rfl | rfl | rfl <;> rfl

/-- Scanning takes all digits of a number, and nothing of what closes it. -/
theorem scanDigits_numberBody (n : Nat) (closes : Closes rest) :
    scanDigits (numberBody n ++ rest) = some (numberBody n, rest) := by
  have ends : rest.takeWhile isDigit = [] ∧ rest.dropWhile isDigit = rest := by
    cases rest with
    | nil => exact ⟨rfl, rfl⟩
    | cons b rest => simp [not_isDigit_of_closes closes b rfl]
  have first : (numberBody n ++ rest).head?.any isDigit = true := by
    obtain ⟨b, body, row, digit⟩ := exists_numberBody n
    rw [row]
    exact digit
  rw [scanDigits, if_pos first, List.takeWhile_append_of_pos (isDigit_numberBody n),
    List.dropWhile_append_of_pos (isDigit_numberBody n), ends.1, ends.2, List.append_nil]

/-- A number begins with a zero only if it is zero. -/
theorem length_numberBody (n : Nat) (zero : (numberBody n).head? = some 0x30) :
    (numberBody n).length = 1 := by
  have row : (Text.decimal n).toList = Nat.toDigits 10 n := String.toList_ofList
  have digits := Text.isDigit_decimal n
  rw [numberBody] at *
  rw [(encode_digits digits).1]
  cases text : (Text.decimal n).toList with
  | nil => rw [text] at zero; cases zero
  | cons c cs =>
      rw [text] at digits zero
      obtain ⟨b, octet, -, value⟩ := utf8EncodeChar_of_isDigit (digits c List.mem_cons_self)
      rw [encode_cons, octet] at zero
      obtain rfl := Option.some.inj zero
      have first : c = '0' := by
        rw [← (Text.digitChar_digitValue (digits c List.mem_cons_self)).1, ← value]
        rfl
      have nothing : cs = [] := Text.eq_nil_of_toDigits (n := n) (by rw [← row, text, first])
      rw [nothing]
      rfl

/-- **A number that is written is scanned.** -/
theorem scanNumber_numberBody (n : Nat) (closes : Closes rest) :
    scanNumber (numberBody n ++ rest) = some (.ofDigits (numberBody n), rest) := by
  obtain ⟨b, body, row, digit⟩ := exists_numberBody n
  have plain : b ≠ 0x2D := by
    rintro rfl
    cases digit
  have whole : scanWhole (numberBody n ++ rest) = some (numberBody n, rest) := by
    rw [scanWhole, scanDigits_numberBody n closes, Option.filter_some, if_pos]
    by_cases zero : (numberBody n).head? = some 0x30
    · simp [length_numberBody n zero]
    · simp [zero]
  have fraction : scanFraction rest = some (none, rest) := by
    cases rest with
    | nil => rfl
    | cons d rest => rcases closes d rfl with rfl | rfl | rfl <;> rfl
  have exponent : scanExponent rest = some (none, rest) := by
    cases rest with
    | nil => rfl
    | cons d rest => rcases closes d rfl with rfl | rfl | rfl <;> rfl
  rw [row, List.cons_append] at whole ⊢
  simp only [scanNumber, plain, if_false, whole, Option.bind_some, fraction, exponent, Option.map_some]
  rfl

/-! ## Flat objects -/

/-- A value that is no array and no object. -/
def Document.IsFlat : Document → Prop
  | .array _ => False
  | .object _ => False
  | _ => True

/-- What scanning keeps of a value. -/
def Document.scalar : Document → Scalar
  | .null => .null
  | .bool b => .bool b
  | .number n => .number (.ofDigits (numberBody n))
  | .string text => .string (stringBody text)
  | .array _ => .nested
  | .object _ => .nested

/-- **A flat value that is written is scanned.** -/
theorem scanValue_write {d : Document} (flat : d.IsFlat) (closes : Closes rest) :
    scanValue (encode d.write ++ rest) = some (d.scalar, rest) := by
  cases d with
  | null => rfl
  | bool b => cases b <;> rfl
  | string text =>
      obtain ⟨quoted, scanned⟩ := scanString_writeString text rest
      show scanValue (encode (writeString text) ++ rest) = _
      rw [quoted]
      show (scanString (stringBody text ++ 0x22 :: rest)).map _ = _
      rw [scanned]
      rfl
  | number n =>
      obtain ⟨b, body, row, digit⟩ := exists_numberBody n
      have ne {k : UInt8} (other : isDigit k = false) : b ≠ k := fun same => by
        rw [same, other] at digit
        cases digit
      have solid : isSpace b = false := by
        simp only [isSpace, Bool.or_eq_false_iff, beq_eq_false_iff_ne]
        exact ⟨⟨⟨ne rfl, ne rfl⟩, ne rfl⟩, ne rfl⟩
      have bare : Bracket.ofOpen? b = none := by
        rw [Bracket.ofOpen?, if_neg (ne rfl), if_neg (ne rfl)]
      have scanned := scanNumber_numberBody n closes
      show scanValue (numberBody n ++ rest) = _
      rw [row, List.cons_append] at scanned ⊢
      rw [scanValue, skipSpace, List.dropWhile_cons_of_neg (by simp [solid])]
      simp only [bare, scanSimple, if_neg (ne (k := 0x22) rfl), if_neg (ne (k := 0x6E) rfl),
        if_neg (ne (k := 0x74) rfl), if_neg (ne (k := 0x66) rfl), scanned, Option.map_some]
      rw [Document.scalar, row]
  | array => exact absurd flat id
  | object => exact absurd flat id

theorem scanKey_writeString (key : String) (rest : List UInt8) :
    scanKey (encode (writeString key) ++ 0x3A :: rest) = some (stringBody key, rest) := by
  obtain ⟨quoted, scanned⟩ := scanString_writeString key (0x3A :: rest)
  rw [quoted]
  show (scanString (stringBody key ++ 0x22 :: 0x3A :: rest)).bind _ = _
  rw [scanned]
  rfl

/-- What scanning keeps of the fields of an object. -/
def members (fields : List (String × Document)) : List (List UInt8 × Scalar) :=
  fields.map fun field => (stringBody field.1, field.2.scalar)

/-- The octets of a field, and of what follows it. -/
theorem encode_field (key : String) (value : Document) (more : List Char) (rest : List UInt8) :
    encode (writeString key ++ ':' :: value.write ++ more) ++ rest =
      encode (writeString key) ++ 0x3A :: (encode value.write ++ (encode more ++ rest)) := by
  rw [encode_append, encode_append, encode_cons, List.append_assoc, List.append_assoc]
  rfl

theorem closes_comma (rest : List UInt8) : Closes (0x2C :: rest) := fun _ first =>
  .inl (Option.some.inj first).symm

theorem closes_bracket (rest : List UInt8) : Closes (0x7D :: rest) := fun _ first =>
  .inr (.inr (Option.some.inj first).symm)

/-- The fields of a flat object are scanned one by one. -/
theorem scanFields_write {fields : List (String × Document)} (filled : fields ≠ [])
    (flat : ∀ field ∈ fields, field.2.IsFlat) (rest : List UInt8) {fuel : Nat}
    (enough : fields.length ≤ fuel) :
    scanFields fuel (encode (Document.writeFields fields) ++ 0x7D :: rest) =
      some (members fields, rest) := by
  induction fields generalizing fuel with
  | nil => exact absurd rfl filled
  | cons field fields ih =>
      obtain ⟨key, value⟩ := field
      obtain ⟨first, flat⟩ := List.forall_mem_cons.mp flat
      obtain ⟨fuel, rfl⟩ := Nat.exists_eq_add_one_of_ne_zero (Nat.ne_zero_of_lt enough)
      cases fields with
      | nil =>
          have row := encode_field key value [] (0x7D :: rest)
          rw [List.append_nil, encode_nil, List.nil_append] at row
          have last : scanComma .object (0x7D :: rest) = some (false, rest) := rfl
          rw [Document.writeFields, row, scanFields]
          simp only [scanKey_writeString, scanValue_write first (closes_bracket rest), last,
            Option.bind_some, Bool.false_eq_true, if_false]
          rfl
      | cons next fields =>
          have row := encode_field key value (',' :: Document.writeFields (next :: fields))
            (0x7D :: rest)
          have comma : encode (',' :: Document.writeFields (next :: fields)) ++ 0x7D :: rest =
              0x2C :: (encode (Document.writeFields (next :: fields)) ++ 0x7D :: rest) := rfl
          have more (rest : List UInt8) : scanComma .object (0x2C :: rest) = some (true, rest) := rfl
          rw [Document.writeFields, row, comma, scanFields]
          · simp only [scanKey_writeString, scanValue_write first (closes_comma _), more,
              Option.bind_some, if_true, ih (List.cons_ne_nil _ _) flat (Nat.le_of_succ_le_succ enough)]
            rfl
          · exact List.cons_ne_nil _ _

/-- There are no more fields than octets. -/
theorem length_le_writeFields (fields : List (String × Document)) :
    fields.length ≤ (encode (Document.writeFields fields)).length := by
  induction fields with
  | nil => exact Nat.zero_le _
  | cons field fields ih =>
      obtain ⟨key, value⟩ := field
      have quote : 0 < (encode (writeString key)).length := Nat.succ_pos _
      cases fields with
      | nil =>
          rw [Document.writeFields, encode_append, List.length_append, List.length_singleton]
          omega
      | cons next fields =>
          have comma : (encode (',' :: Document.writeFields (next :: fields))).length =
              (encode (Document.writeFields (next :: fields))).length + 1 := rfl
          rw [Document.writeFields, encode_append, encode_append, List.length_append,
            List.length_append, List.length_cons, comma]
          · omega
          · exact List.cons_ne_nil _ _

/-- **A flat object that is written reads back.** -/
theorem read_write {fields : List (String × Document)} (filled : fields ≠ [])
    (flat : ∀ field ∈ fields, field.2.IsFlat) :
    Record.read (encode (Document.object fields).write) = some (.fields (members fields)) := by
  have row : encode (Document.object fields).write =
      0x7B :: (encode (Document.writeFields fields) ++ [0x7D]) := by
    rw [Document.write, encode_append, encode_cons]
    rfl
  have quote : ∃ body, encode (Document.writeFields fields) = 0x22 :: body := by
    obtain ⟨⟨key, value⟩, fields, rfl⟩ := List.exists_cons_of_ne_nil filled
    cases fields <;> exact ⟨_, rfl⟩
  have notEmpty : scanEmpty .object (encode (Document.writeFields fields) ++ [0x7D]) = none := by
    obtain ⟨body, begins⟩ := quote
    rw [begins]
    rfl
  have enough : fields.length ≤ (encode (Document.writeFields fields) ++ [0x7D]).length := by
    rw [List.length_append]
    exact Nat.le_add_right_of_le (length_le_writeFields fields)
  have scanned : scanRecord (0x7B :: (encode (Document.writeFields fields) ++ [0x7D])) =
      some (.fields (members fields), []) := by
    have opened (bs : List UInt8) : skipSpace (0x7B :: bs) = 0x7B :: bs := rfl
    have object : Bracket.ofOpen? 0x7B = some .object := rfl
    simp only [scanRecord, opened, object, Option.bind_some, notEmpty,
      scanFields_write filled flat [] enough, Option.map_some]
  rw [row, Record.read, scanned]
  rfl

end Lighting.Json
