import Lighting.Address.Table
import Lighting.Proofs.Text.Numeral

/-!
# Addresses and their numerals

`Address.all` lists every address once, in ascending order.  An address is read from more texts than it
is written as: its numeral may stand between blanks, carry a sign and begin with zeros (`IsNumeral`), and
nothing else is read as it (`ofText?_eq_ok_iff`).  Of any other text the reader says what is wrong with it
(`IsFault`).

### Lists

What stands between the commas of a list is read in turn, and unless it is blank it gives one address or one
error (`Sorts`).  This determines what the list is read as (`reads_iff`).
-/

namespace Lighting.Address

open Text (isBlank)

variable {a : Address} {e : ReadError} {cs piece : List Char} {pieces : List (List Char)}
  {addresses : List Address} {errors : List ReadError}

theorem mem_all (a : Address) : a ∈ all :=
  List.mem_map.mpr ⟨a.toNat, List.mem_range.mpr a.toNat_lt, ofNat_toNat a⟩

theorem pairwise_all : all.Pairwise fun a b => a.toNat < b.toNat := by
  rw [all, List.pairwise_map]
  refine (List.pairwise_lt_range (n := 256)).imp_of_mem fun {i j} hi hj lt => ?_
  rwa [toNat_ofNat (List.mem_range.mp hi), toNat_ofNat (List.mem_range.mp hj)]

theorem Table.get_setAll {α : Type} (t : Table α) (as : List Address) (x : α) (b : Address) :
    (t.setAll as x).get b = if b ∈ as then x else t.get b := by
  induction as generalizing t with
  | nil => simp [setAll]
  | cons a as ih =>
      show ((t.set a x).setAll as x).get b = _
      rw [ih, get_set]
      by_cases first : b = a <;> by_cases rest : b ∈ as <;> simp [first, rest]

/-! ## Numerals -/

/-- The texts that stand for an address: blanks around a numeral of its number. -/
def IsNumeral (a : Address) (cs : List Char) : Prop :=
  ∃ left numeral right, (∀ c ∈ left, isBlank c = true) ∧ (∀ c ∈ right, isBlank c = true) ∧
    Text.IsNumeral a.toNat numeral ∧ cs = left ++ numeral ++ right

/-- **An address is read from the texts that stand for it, and from no others.** -/
theorem ofText?_eq_ok_iff : ofText? cs = .ok a ↔ a.IsNumeral cs := by
  have small := a.toNat_lt
  have limit : Text.signedLimit = 0x8000000000000000 := rfl
  constructor
  · intro read
    unfold ofText? at read
    split at read
    · cases read
    · rename_i i number
      obtain ⟨signed, -⟩ := Option.filter_eq_some_iff.mp number
      split at read
      · rename_i inside
        obtain rfl := Except.ok.inj read
        obtain ⟨-, left, right, front, back, whole⟩ :=
          Text.trimBoth_eq_iff.mp (Eq.refl (Text.trim cs))
        have same : ((ofNat i.toNat).toNat : Int) = i := by
          rw [toNat_ofNat (by omega)]
          omega
        refine ⟨left, Text.trim cs, right, front, back, ?_, whole⟩
        rw [same]
        exact Text.signed?_eq_some_iff.mp signed
      · cases read
  · rintro ⟨left, numeral, right, front, back, number, rfl⟩
    have core : Text.trim (left ++ numeral ++ right) = numeral :=
      Text.trimBoth_append number.bare front back
    have signed : Text.int64? numeral = some (a.toNat : Int) := by
      refine Option.filter_eq_some_iff.mpr ⟨Text.signed?_eq_some_iff.mpr number, ?_⟩
      rw [Bool.and_eq_true, decide_eq_true_eq, decide_eq_true_eq]
      omega
    rw [ofText?, core, signed]
    dsimp only
    rw [if_pos (by omega), Int.toNat_natCast, ofNat_toNat]

/-- The numeral that an address is written as stands for it. -/
theorem isNumeral_toString (a : Address) : a.IsNumeral (toString a).toList := by
  refine ⟨[], (toString a).toList, [], nofun, nofun, ?_, by simp⟩
  have written : (toString a).toList = List.replicate 0 '0' ++ Nat.toDigits 10 a.toNat :=
    String.toList_ofList
  rw [written]
  exact .plain 0 a.toNat

/-! ## Errors -/

/-- What is wrong with a text that stands for no address: either there is no integer of 64 bits between its
blanks, or there is one that is no number of an address. -/
def IsFault (cs : List Char) : ReadError → Prop
  | .notANumber core => Text.IsCore core cs ∧ ¬ ∃ i, Text.IsWord i core
  | .outOfRange i => ∃ core, Text.IsCore core cs ∧ Text.IsWord i core ∧ ¬ (0 ≤ i ∧ i ≤ 255)

/-- **An error says what is wrong with the text.** -/
theorem ofText?_eq_error_iff : ofText? cs = .error e ↔ IsFault cs e := by
  constructor
  · intro read
    unfold ofText? at read
    split at read
    · rename_i unread
      obtain rfl := Except.error.inj read
      refine ⟨Text.trim_eq_iff.mp rfl, fun ⟨i, number⟩ => ?_⟩
      exact absurd (unread.symm.trans (Text.int64?_eq_some_iff.mpr number)) nofun
    · rename_i i number
      split at read
      · cases read
      · rename_i outside
        obtain rfl := Except.error.inj read
        exact ⟨_, Text.trim_eq_iff.mp rfl, Text.int64?_eq_some_iff.mp number, outside⟩
  · intro fault
    cases e with
    | notANumber core =>
        obtain ⟨part, none⟩ := fault
        have unread : Text.int64? core = Option.none :=
          Option.eq_none_iff_forall_ne_some.mpr fun i number =>
            none ⟨i, Text.int64?_eq_some_iff.mp number⟩
        rw [ofText?, Text.trim_eq_iff.mpr part, unread]
    | outOfRange i =>
        obtain ⟨core, part, number, outside⟩ := fault
        rw [ofText?, Text.trim_eq_iff.mpr part, Text.int64?_eq_some_iff.mpr number]
        exact if_neg outside

theorem ofText?_trim (cs : List Char) : ofText? (Text.trim cs) = ofText? cs := by
  rw [ofText?, ofText?, Text.trim_trim]

/-! ## Lists -/

/-- What becomes of the pieces of a list, in turn: one that is blank is passed over, and any other gives an
address or an error. -/
inductive Sorts : List (List Char) → List Address → List ReadError → Prop where
  /-- There are no pieces. -/
  | nil : Sorts [] [] []
  /-- A piece is blank. -/
  | blank {piece : List Char} {pieces : List (List Char)} {addresses : List Address}
      {errors : List ReadError} (empty : ∀ c ∈ piece, isBlank c = true)
      (rest : Sorts pieces addresses errors) : Sorts (piece :: pieces) addresses errors
  /-- A piece stands for an address. -/
  | address {piece : List Char} {pieces : List (List Char)} {addresses : List Address}
      {errors : List ReadError} {a : Address} (stands : a.IsNumeral piece)
      (rest : Sorts pieces addresses errors) : Sorts (piece :: pieces) (a :: addresses) errors
  /-- Something is wrong with a piece. -/
  | fault {piece : List Char} {pieces : List (List Char)} {addresses : List Address}
      {errors : List ReadError} {e : ReadError} (filled : ¬ ∀ c ∈ piece, isBlank c = true)
      (wrong : IsFault piece e) (rest : Sorts pieces addresses errors) :
      Sorts (piece :: pieces) addresses (e :: errors)

/-- A list is read as the addresses and errors of its pieces, which are what stands between its commas. -/
def Reads (cs : List Char) (read : List Address × List ReadError) : Prop :=
  ∃ pieces, pieces ≠ [] ∧ (∀ piece ∈ pieces, ',' ∉ piece) ∧ cs = [','].intercalate pieces ∧
    Sorts pieces read.1 read.2

/-- The addresses and errors of the pieces of a list. -/
def sortOut (pieces : List (List Char)) : List Address × List ReadError :=
  let read := ((pieces.map Text.trim).filter (!·.isEmpty)).map ofText?
  (read.filterMap Except.toOption, read.filterMap fun
    | .ok _ => none
    | .error e => some e)

theorem ofList_eq (cs : List Char) : ofList cs = sortOut (cs.splitOn ',') := rfl

theorem sortOut_blank (empty : ∀ c ∈ piece, isBlank c = true) :
    sortOut (piece :: pieces) = sortOut pieces := by
  have none := Text.trim_eq_nil_iff.mpr empty
  simp [sortOut, none]

theorem filter_filled (filled : ¬ ∀ c ∈ piece, isBlank c = true) :
    (((piece :: pieces).map Text.trim).filter (!·.isEmpty)).map ofText? =
      ofText? piece :: ((pieces.map Text.trim).filter (!·.isEmpty)).map ofText? := by
  have some : (!(Text.trim piece).isEmpty) = true := by
    simpa [Text.trim_eq_nil_iff] using filled
  rw [List.map_cons, List.filter_cons, if_pos some, List.map_cons, ofText?_trim]

theorem sortOut_ok (filled : ¬ ∀ c ∈ piece, isBlank c = true) (read : ofText? piece = .ok a) :
    sortOut (piece :: pieces) = (a :: (sortOut pieces).1, (sortOut pieces).2) := by
  rw [sortOut, filter_filled filled, read]
  rfl

theorem sortOut_error (filled : ¬ ∀ c ∈ piece, isBlank c = true) (read : ofText? piece = .error e) :
    sortOut (piece :: pieces) = ((sortOut pieces).1, e :: (sortOut pieces).2) := by
  rw [sortOut, filter_filled filled, read]
  rfl

/-- No numeral is blank. -/
theorem IsNumeral.filled (h : a.IsNumeral cs) : ¬ ∀ c ∈ cs, isBlank c = true := by
  intro empty
  have nothing := Text.trim_eq_nil_iff.mpr empty
  have read := ofText?_eq_ok_iff.mpr h
  rw [ofText?, nothing] at read
  cases read

/-- Every piece gives what is told of it. -/
theorem sorts_iff : Sorts pieces addresses errors ↔ sortOut pieces = (addresses, errors) := by
  constructor
  · intro sorts
    induction sorts with
    | nil => rfl
    | blank empty _ ih => rw [sortOut_blank empty, ih]
    | address stands _ ih => rw [sortOut_ok stands.filled (ofText?_eq_ok_iff.mpr stands), ih]
    | fault filled wrong _ ih => rw [sortOut_error filled (ofText?_eq_error_iff.mpr wrong), ih]
  · intro sorted
    induction pieces generalizing addresses errors with
    | nil =>
        cases sorted
        exact .nil
    | cons piece pieces ih =>
        by_cases empty : ∀ c ∈ piece, isBlank c = true
        · rw [sortOut_blank empty] at sorted
          exact .blank empty (ih sorted)
        · cases read : ofText? piece with
          | ok a =>
              rw [sortOut_ok empty read] at sorted
              cases sorted
              exact .address (ofText?_eq_ok_iff.mp read) (ih rfl)
          | error e =>
              rw [sortOut_error empty read] at sorted
              cases sorted
              exact .fault empty (ofText?_eq_error_iff.mp read) (ih rfl)

/-- What stands between separators holds none. -/
theorem not_mem_of_mem_splitOn {separator : Char} (member : piece ∈ cs.splitOn separator) :
    separator ∉ piece := by
  induction cs generalizing piece with
  | nil =>
      rw [List.splitOn_nil, List.mem_singleton] at member
      subst member
      exact List.not_mem_nil
  | cons c cs ih =>
      obtain ⟨first, rest, pieces⟩ := List.exists_cons_of_ne_nil (List.splitOn_ne_nil separator cs)
      have inside : ∀ piece ∈ first :: rest, separator ∉ piece := fun _ member => ih (pieces ▸ member)
      rw [List.splitOn, List.splitOnP_cons_eq_if_modifyHead, ← List.splitOn, pieces] at member
      split at member
      · rcases List.mem_cons.mp member with rfl | member
        · exact List.not_mem_nil
        · exact inside piece member
      · rename_i other
        rcases List.mem_cons.mp member with rfl | member
        · have apart : separator ≠ c := fun same => other (beq_iff_eq.mpr same.symm)
          exact List.not_mem_cons_of_ne_of_not_mem apart (inside first List.mem_cons_self)
        · exact inside piece (List.mem_cons_of_mem _ member)

/-- **A list is read piece by piece.** -/
theorem reads_iff {read : List Address × List ReadError} : Reads cs read ↔ ofList cs = read := by
  rw [ofList_eq]
  constructor
  · rintro ⟨pieces, some, apart, rfl, sorts⟩
    rw [List.splitOn_intercalate ',' apart some]
    exact sorts_iff.mp sorts
  · intro same
    exact ⟨cs.splitOn ',', List.splitOn_ne_nil _ _, fun _ => not_mem_of_mem_splitOn,
      (List.intercalate_splitOn ',').symm, sorts_iff.mpr same⟩

end Lighting.Address
