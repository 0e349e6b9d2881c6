import Mathlib.Data.List.DropRight
import Lighting.Text.Blank
import Lighting.Text.Numeral

/-!
# What is trimmed, and what is read as a number

Trimming leaves the part of a text that is bare at both ends (`trimBoth_eq_iff`): there is one such part
and no other, since the characters that go are told from those that stay by what they are.

A reader of numerals takes more than a writer gives.  The digits of a number are its shortest numeral
behind any row of zeros (`digits?_eq_some_iff`), and a sign may stand before them; a minus sign does no
harm to zero (`signed?_eq_some_iff`).  `IsWord` tells the numerals that fit in 64 bits.
-/

namespace Lighting.Text

variable {p : Char → Bool} {cs core left right : List Char} {n : Nat} {i : Int}

/-! ## Trimming -/

/-- Neither the first nor the last character is of class `p`. -/
def Bare (p : Char → Bool) (cs : List Char) : Prop :=
  (∀ c ∈ cs.head?, p c = false) ∧ ∀ c ∈ cs.getLast?, p c = false

theorem head?_dropWhile_bare (p : Char → Bool) (cs : List Char) :
    ∀ c ∈ (cs.dropWhile p).head?, p c = false := by
  intro c first
  have := List.head?_dropWhile_not p cs
  rwa [Option.mem_def.mp first] at this

theorem dropWhile_of_bare (first : ∀ c ∈ cs.head?, p c = false) : cs.dropWhile p = cs := by
  cases cs with
  | nil => rfl
  | cons c cs => exact List.dropWhile_cons_of_neg (by simp [first c rfl])

/-- What trimming drops in front, what it leaves, and what it drops behind. -/
theorem exists_trimBoth (p : Char → Bool) (cs : List Char) :
    ∃ left right, (∀ c ∈ left, p c = true) ∧ (∀ c ∈ right, p c = true) ∧
      cs = left ++ trimBoth p cs ++ right := by
  have front := List.takeWhile_append_dropWhile (p := p) (l := cs)
  have back := congrArg List.reverse
    (List.takeWhile_append_dropWhile (p := p) (l := (cs.dropWhile p).reverse))
  rw [List.reverse_append, List.reverse_reverse] at back
  refine ⟨cs.takeWhile p, ((cs.dropWhile p).reverse.takeWhile p).reverse,
    List.all_eq_true.mp List.all_takeWhile, fun c hc => ?_, ?_⟩
  · exact List.all_eq_true.mp List.all_takeWhile c (List.mem_reverse.mp hc)
  · rw [List.append_assoc]
    exact front.symm.trans (congrArg (cs.takeWhile p ++ ·) back.symm)

theorem bare_trimBoth (p : Char → Bool) (cs : List Char) : Bare p (trimBoth p cs) := by
  constructor
  · intro c first
    -- what is left begins as what is left after the first step did
    obtain ⟨rest, whole⟩ : trimBoth p cs <+: cs.dropWhile p :=
      List.rdropWhile_prefix p _
    refine head?_dropWhile_bare p cs c ?_
    rw [← whole, List.head?_append, Option.mem_def.mp first]
    rfl
  · intro c last
    rw [trimBoth, List.getLast?_reverse] at last
    exact head?_dropWhile_bare p _ c last

/-- Trimming leaves the part that is bare. -/
theorem trimBoth_append (bare : Bare p core) (front : ∀ c ∈ left, p c = true)
    (back : ∀ c ∈ right, p c = true) : trimBoth p (left ++ core ++ right) = core := by
  have reversed : ∀ c ∈ right.reverse, p c = true := fun c hc => back c (List.mem_reverse.mp hc)
  unfold trimBoth
  rw [List.append_assoc, List.dropWhile_append_of_pos front]
  cases core with
  | nil =>
      rw [List.nil_append, List.dropWhile_eq_nil_iff.mpr back]
      rfl
  | cons c cs =>
      have stays : (c :: cs ++ right).dropWhile p = c :: cs ++ right :=
        dropWhile_of_bare fun _ first => bare.1 _ first
      rw [stays, List.reverse_append, List.dropWhile_append_of_pos reversed,
        dropWhile_of_bare (by rw [List.head?_reverse]; exact bare.2), List.reverse_reverse]

/-- **Trimming finds the part of a text that is bare at both ends.** -/
theorem trimBoth_eq_iff : trimBoth p cs = core ↔ Bare p core ∧
    ∃ left right, (∀ c ∈ left, p c = true) ∧ (∀ c ∈ right, p c = true) ∧
      cs = left ++ core ++ right := by
  constructor
  · rintro rfl
    exact ⟨bare_trimBoth p cs, exists_trimBoth p cs⟩
  · rintro ⟨bare, left, right, front, back, rfl⟩
    exact trimBoth_append bare front back

/-- The part of a text between the blanks around it. -/
def IsCore (core cs : List Char) : Prop :=
  Bare isBlank core ∧ ∃ left right, (∀ c ∈ left, isBlank c = true) ∧
    (∀ c ∈ right, isBlank c = true) ∧ cs = left ++ core ++ right

theorem trim_eq_iff : trim cs = core ↔ IsCore core cs := trimBoth_eq_iff

theorem trim_trim (cs : List Char) : trim (trim cs) = trim cs := by
  rw [trim_eq_iff]
  exact ⟨bare_trimBoth isBlank cs, [], [], nofun, nofun, by simp⟩

/-- Nothing is left of the texts that are blank altogether. -/
theorem trim_eq_nil_iff : trim cs = [] ↔ ∀ c ∈ cs, isBlank c = true := by
  rw [trim_eq_iff]
  constructor
  · rintro ⟨-, left, right, front, back, rfl⟩ c hc
    rw [List.append_nil, List.mem_append] at hc
    exact hc.elim (front c) (back c)
  · intro blank
    exact ⟨⟨nofun, nofun⟩, cs, [], blank, nofun, by simp⟩

/-! ## Digits -/

theorem toNat_of_isDigit {c : Char} (digit : c.isDigit = true) : 48 ≤ c.toNat ∧ c.toNat ≤ 57 := by
  simpa [Char.isDigit, UInt32.le_iff_toNat_le] using digit

/-- A digit of a numeral is the digit of its value. -/
theorem digitChar_digitValue {c : Char} (digit : c.isDigit = true) :
    (digitValue c).digitChar = c ∧ digitValue c < 10 := by
  have range := toNat_of_isDigit digit
  have small : digitValue c < 10 := by
    show c.toNat - 48 < 10
    omega
  refine ⟨Char.toNat_inj.mp ?_, small⟩
  rw [Nat.toNat_digitChar_of_lt_ten small]
  show 48 + (c.toNat - 48) = c.toNat
  omega

/-- The digits of a number, behind zeros, are digits. -/
theorem isDigit_zeros_append (zeros n : Nat) :
    ∀ c ∈ List.replicate zeros '0' ++ Nat.toDigits 10 n, c.isDigit = true := by
  intro c hc
  rcases List.mem_append.mp hc with zero | digit
  · rw [List.eq_of_mem_replicate zero]
    rfl
  · exact Nat.isDigit_of_mem_toDigits (by decide) (by decide) digit

theorem isDigit_decimal (n : Nat) : ∀ c ∈ (decimal n).toList, c.isDigit = true := by
  rw [decimal, String.toList_ofList]
  exact isDigit_zeros_append 0 n

theorem digitsValue_zeros (zeros : Nat) (cs : List Char) :
    digitsValue (List.replicate zeros '0' ++ cs) = digitsValue cs := by
  induction zeros with
  | zero => rfl
  | succ zeros ih => exact ih

/-- A row of digits is the shortest numeral of its value, behind zeros. -/
theorem eq_zeros_append (some : cs ≠ []) (digits : ∀ c ∈ cs, c.isDigit = true) :
    ∃ zeros, cs = List.replicate zeros '0' ++ Nat.toDigits 10 (digitsValue cs) := by
  -- from the last digit, which is the one that the shortest numeral ends with
  induction cs using List.reverseRecOn with
  | nil => exact absurd rfl some
  | append_singleton cs c ih =>
      obtain ⟨same, small⟩ := digitChar_digitValue (digits c (by simp))
      rw [digitsValue_concat]
      by_cases none : digitsValue cs = 0
      · have last : Nat.toDigits 10 (10 * digitsValue cs + digitValue c) = [c] := by
          rw [none, Nat.mul_zero, Nat.zero_add, Nat.toDigits_of_lt_base small, same]
        refine ⟨cs.length, ?_⟩
        rw [last, List.append_cancel_right_eq, List.eq_replicate_iff]
        refine ⟨rfl, fun d hd => ?_⟩
        -- all digits in front are zeros, since they add up to nothing
        obtain ⟨zeros, row⟩ := ih (List.ne_nil_of_mem hd) fun e he => digits e (by simp [he])
        rw [none] at row
        rw [row] at hd
        rcases List.mem_append.mp hd with zero | zero
        · exact List.eq_of_mem_replicate zero
        · simpa using zero
      · have more : cs ≠ [] := fun nil => none (by rw [nil]; rfl)
        obtain ⟨zeros, row⟩ := ih more fun e he => digits e (by simp [he])
        refine ⟨zeros, ?_⟩
        rw [Nat.toDigits_of_base_le (by decide) (by omega), ← List.append_assoc,
          show (10 * digitsValue cs + digitValue c) / 10 = digitsValue cs by omega,
          show (10 * digitsValue cs + digitValue c) % 10 = digitValue c by omega, same, ← row]

/-- The shortest numeral begins with a zero only if there is nothing else. -/
theorem eq_nil_of_toDigits (row : Nat.toDigits 10 n = '0' :: cs) : cs = [] := by
  by_contra more
  have digits : ∀ c ∈ cs, c.isDigit = true := fun c hc =>
    Nat.isDigit_of_mem_toDigits (by decide) (by decide) (row ▸ List.mem_cons_of_mem _ hc)
  have value : digitsValue cs = n := by
    have whole := digitsValue_toDigits n
    rwa [row] at whole
  -- otherwise the rest would be no shorter than the whole
  obtain ⟨zeros, longer⟩ := eq_zeros_append more digits
  have length := congrArg List.length longer
  rw [value, row, List.length_append, List.length_cons] at length
  omega

/-- **A numeral of digits is the shortest one behind zeros.** -/
theorem digits?_eq_some_iff : digits? cs = some n ↔
    ∃ zeros, cs = List.replicate zeros '0' ++ Nat.toDigits 10 n := by
  unfold digits?
  constructor
  · intro read
    split at read
    · cases read
    · rename_i digits
      rw [Bool.or_eq_true, not_or, List.isEmpty_iff, Bool.not_eq_true', Bool.not_eq_false,
        List.all_eq_true] at digits
      cases read
      exact eq_zeros_append digits.1 digits.2
  · rintro ⟨zeros, rfl⟩
    have digits := List.all_eq_true.mpr (isDigit_zeros_append zeros n)
    rw [if_neg (by simp [digits]), digitsValue_zeros, digitsValue_toDigits]

/-! ## Signs -/

/-- The numerals of an integer: its digits behind zeros, and a sign before these. -/
inductive IsNumeral : Int → List Char → Prop where
  /-- Without a sign. -/
  | plain (zeros n : Nat) : IsNumeral n (List.replicate zeros '0' ++ Nat.toDigits 10 n)
  /-- With a plus sign. -/
  | plus (zeros n : Nat) : IsNumeral n ('+' :: (List.replicate zeros '0' ++ Nat.toDigits 10 n))
  /-- With a minus sign. -/
  | minus (zeros n : Nat) : IsNumeral (-n) ('-' :: (List.replicate zeros '0' ++ Nat.toDigits 10 n))

theorem isDigit_head (zeros n : Nat) {c : Char} {rest : List Char}
    (row : List.replicate zeros '0' ++ Nat.toDigits 10 n = c :: rest) : c.isDigit = true :=
  isDigit_zeros_append zeros n c (row ▸ List.mem_cons_self)

/-- **A numeral with a sign is read as the integer it stands for.** -/
theorem signed?_eq_some_iff : signed? cs = some i ↔ IsNumeral i cs := by
  constructor
  · intro read
    unfold signed? at read
    split at read
    · obtain ⟨n, digits, rfl⟩ := Option.map_eq_some_iff.mp read
      obtain ⟨zeros, rfl⟩ := digits?_eq_some_iff.mp digits
      exact .plus zeros n
    · obtain ⟨_, integer, rfl⟩ := Option.map_eq_some_iff.mp read
      obtain ⟨n, digits, same⟩ := Option.bind_eq_some_iff.mp integer
      obtain rfl := Option.some.inj same
      obtain ⟨zeros, rfl⟩ := digits?_eq_some_iff.mp digits
      exact .minus zeros n
    · obtain ⟨n, digits, rfl⟩ := Option.map_eq_some_iff.mp read
      obtain ⟨zeros, rfl⟩ := digits?_eq_some_iff.mp digits
      exact .plain zeros n
  · rintro (⟨zeros, n⟩ | ⟨zeros, n⟩ | ⟨zeros, n⟩)
    · have digits := digits?_eq_some_iff.mpr ⟨zeros, Eq.refl (_ ++ Nat.toDigits 10 n)⟩
      unfold signed?
      split
      · rename_i row
        exact absurd (isDigit_head zeros n row) (by decide)
      · rename_i row
        exact absurd (isDigit_head zeros n row) (by decide)
      · rw [digits]
        rfl
    · rw [signed?, digits?_eq_some_iff.mpr ⟨zeros, rfl⟩]
      rfl
    · rw [signed?, digits?_eq_some_iff.mpr ⟨zeros, rfl⟩]
      rfl

/-- The numerals of an integer that fits in 64 bits, one of them for the sign. -/
def IsWord (i : Int) (cs : List Char) : Prop :=
  IsNumeral i cs ∧ -(signedLimit : Int) ≤ i ∧ i < signedLimit

theorem int64?_eq_some_iff : int64? cs = some i ↔ IsWord i cs := by
  rw [int64?, IsWord, Option.filter_eq_some_iff, signed?_eq_some_iff, Bool.and_eq_true, decide_eq_true_eq,
    decide_eq_true_eq]

theorem not_isBlank_of_isDigit {c : Char} (digit : c.isDigit = true) : isBlank c = false := by
  have range := toNat_of_isDigit digit
  simp only [isBlank, Bool.or_eq_false_iff, Bool.and_eq_false_iff, decide_eq_false_iff_not,
    beq_eq_false_iff_ne]
  omega

/-- There are no blanks around a numeral. -/
theorem IsNumeral.bare (h : IsNumeral i cs) : Bare isBlank cs := by
  have digit (zeros n : Nat) : ∀ c ∈ List.replicate zeros '0' ++ Nat.toDigits 10 n,
      isBlank c = false := fun c hc => not_isBlank_of_isDigit (isDigit_zeros_append zeros n c hc)
  have solid : ∀ c ∈ cs, isBlank c = false := by
    cases h with
    | plain zeros n => exact digit zeros n
    | plus zeros n => exact List.forall_mem_cons.mpr ⟨rfl, digit zeros n⟩
    | minus zeros n => exact List.forall_mem_cons.mpr ⟨rfl, digit zeros n⟩
  exact ⟨fun c first => solid c (List.mem_of_mem_head? first),
    fun c last => solid c (List.mem_of_mem_getLast? last)⟩

end Lighting.Text
