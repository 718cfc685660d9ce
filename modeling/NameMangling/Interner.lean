/-
# Interning

An interner keeps values without repetition, in the order in which they were first met.  The
place of a value is its slot.  Slots are not searched for: beside the list of the values there
is an index, which gives the slot of a value.

Main operations: `Interner.intern` (the slot of a value, a new one at the first meeting) and
`Interner.value?` (the value in a slot).
-/

namespace NameMangling

/-- The values met so far, in the order of their slots, and the index that gives the slot of
each. -/
structure Interner (α : Type) where
  values : Array α := #[]
  index : List (α × Nat) := []
deriving DecidableEq, Inhabited

namespace Interner

variable {α : Type} [BEq α]

/-- The number of values. -/
def size (t : Interner α) : Nat := t.values.size

/-- The value in a slot. -/
def value? (t : Interner α) (i : Nat) : Option α := t.values[i]?

/-- The slot of a value, if it has been met. -/
def slot? (t : Interner α) (x : α) : Option Nat := t.index.lookup x

/-- The slot of a value, with the interner in which it has one: the slot it has, or the next one
if it has not been met. -/
def intern (t : Interner α) (x : α) : Nat × Interner α :=
  match t.slot? x with
  | some i => (i, t)
  | none => (t.size, ⟨t.values.push x, (x, t.size) :: t.index⟩)

/-- The slots of several values, given to them from left to right. -/
def internAll (t : Interner α) : List α → List Nat × Interner α
  | [] => ([], t)
  | x :: rest =>
    let (i, t) := t.intern x
    let (slots, t) := t.internAll rest
    (i :: slots, t)

end Interner

end NameMangling
