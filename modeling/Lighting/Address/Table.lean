import Lighting.Address

/-!
# Tables over the address space

Whatever the library keeps per address it keeps in a `Table`: one entry for each of the 256
addresses, so that a lookup always succeeds and two tables are equal exactly when they agree on every
address.
-/

namespace Lighting.Address

/-- One entry for each address. -/
structure Table (α : Type) where
  /-- The entries in address order. -/
  cells : Vector α 256
deriving DecidableEq

namespace Table

variable {α β : Type}

/-- The table with the same entry everywhere. -/
def fill (x : α) : Table α := ⟨Vector.replicate 256 x⟩

/-- The entry of an address. -/
def get (t : Table α) (a : Address) : α :=
  have := a.toNat_lt
  t.cells[a.toNat]

/-- Replaces the entry of an address. -/
def set (t : Table α) (a : Address) (x : α) : Table α := ⟨t.cells.set a.toNat x a.toNat_lt⟩

/-- Replaces the entry of every address in a list. -/
def setAll (t : Table α) (as : List Address) (x : α) : Table α :=
  as.foldl (fun t a => t.set a x) t

/-- The entries that are there, in address order. -/
def values (t : Table (Option α)) : List α := Address.all.filterMap t.get

@[simp] theorem get_fill (x : α) (a : Address) : (fill x).get a = x := by
  simp [fill, get]

theorem get_set (t : Table α) (a b : Address) (x : α) :
    (t.set a x).get b = if b = a then x else t.get b := by
  unfold get set
  rw [Vector.getElem_set]
  by_cases h : b = a
  · subst h; simp
  · have : a.toNat ≠ b.toNat := fun e => h (Address.ext e.symm)
    simp [h, this]

@[simp] theorem get_set_self (t : Table α) (a : Address) (x : α) : (t.set a x).get a = x := by
  simp [get_set]

theorem get_set_of_ne (t : Table α) {a b : Address} (h : b ≠ a) (x : α) :
    (t.set a x).get b = t.get b := by
  simp [get_set, h]

@[ext] theorem ext {s t : Table α} (h : ∀ a, s.get a = t.get a) : s = t := by
  cases s with | mk s => cases t with | mk t =>
  congr
  apply Vector.ext
  intro i hi
  have := h (Address.ofNat i)
  simpa [get, Address.toNat_ofNat hi] using this

end Table

end Lighting.Address
