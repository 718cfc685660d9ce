/-
# Names

A name is a slot of a table of texts.  Slot 0 holds the empty text, equal texts
share a slot, and slots are handed out in the order in which texts are first met.

Main operations: `NameTable.intern` (the slot of a text, a new one at the first
meeting) and `NameTable.text` (the text of a slot, empty when there is none).
-/
import NameMangling.Interner

namespace NameMangling

/-- The slot of a text in a table of names. -/
structure Name where
  slot : Nat
deriving DecidableEq, Inhabited

namespace Name

/-- The name of the empty text. -/
def empty : Name := ⟨0⟩

end Name

/-- The texts met so far, of which the empty one is the first. -/
structure NameTable where
  texts : Interner String := (Interner.intern {} "").2
deriving DecidableEq, Inhabited

namespace NameTable

/-- The number of texts, the empty one included. -/
def size (t : NameTable) : Nat := t.texts.size

/-- The text in a slot; a slot never handed out reads as the empty text. -/
def text (t : NameTable) (n : Name) : String := (t.texts.value? n.slot).getD ""

/-- The name of `s`, with the table in which it has a slot. -/
def intern (t : NameTable) (s : String) : Name × NameTable :=
  let (i, texts) := t.texts.intern s
  (⟨i⟩, ⟨texts⟩)

/-- The names of several texts, given their slots from left to right. -/
def internAll (t : NameTable) (ss : List String) : List Name × NameTable :=
  let (slots, texts) := t.texts.internAll ss
  (slots.map Name.mk, ⟨texts⟩)

end NameTable

end NameMangling
