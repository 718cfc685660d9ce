/-
# The type arena

All types of a program live in one arena, in the order in which they were first
built.  Structurally equal types share one position, so equality of types is
equality of positions.  Beside its node a type carries its flags and its canonical
form, the same type with all sugar removed.

Main operations:
* `Arena.construct` builds a type from a node over types of the arena;
* `Arena.node`, `Arena.flags`, `Arena.canonical` read what is stored.

Building never changes what is stored: it only appends.
-/
import NameMangling.Types.Flags

namespace NameMangling

/-- A stored type. -/
structure TypeEntry where
  node : TypeNode := .emptyTuple
  flags : TypeFlags := { isTuple := true }
  canonical : TypeId := .emptyTuple
deriving DecidableEq, Inhabited

/-- The types built so far. -/
structure Arena where
  entries : Array TypeEntry
deriving DecidableEq, Inhabited

namespace Arena

/-! ## Reading -/

/-- The number of types. -/
def size (a : Arena) : Nat := a.entries.size

/-- What is stored for a type; positions not handed out read as the empty tuple. -/
def entry (a : Arena) (t : TypeId) : TypeEntry := a.entries[t.index]?.getD {}

/-- The node of a type. -/
def node (a : Arena) (t : TypeId) : TypeNode := (a.entry t).node

/-- The kind of a type. -/
def kind (a : Arena) (t : TypeId) : TypeKind := (a.node t).kind

/-- The flags of a type. -/
def flags (a : Arena) (t : TypeId) : TypeFlags := (a.entry t).flags

/-- The same type with all sugar removed. -/
def canonical (a : Arena) (t : TypeId) : TypeId := (a.entry t).canonical

/-- Whether a type is its own canonical form. -/
def isCanonical (a : Arena) (t : TypeId) : Bool := a.canonical t == t

/-! ## Building -/

/-- The position of a stored node. -/
def find? (a : Arena) (n : TypeNode) : Option TypeId :=
  (a.entries.findIdx? (·.node == n)).map TypeId.mk

/-- The flags of a node: its own and those it inherits from its parts. -/
def flagsOf (a : Arena) (n : TypeNode) : TypeFlags :=
  n.children.foldl (fun acc t => acc.union (a.flags t).presence) n.kind.ownFlags

/-- The position of a node, which is appended unless it is stored already.  A node given
no canonical form is its own. -/
def intern (a : Arena) (n : TypeNode) (canonical : Option TypeId) : TypeId × Arena :=
  match a.find? n with
  | some t => (t, a)
  | none =>
    let t : TypeId := ⟨a.size⟩
    (t, ⟨a.entries.push ⟨n, a.flagsOf n, canonical.getD t⟩⟩)

/-- Store a node in normal form.  A sugar node shares the canonical form of the type it
stands for; a node with sugar among its parts has its variant over their canonical
forms, which is stored in front of it. -/
def add (a : Arena) (n : TypeNode) : TypeId × Arena :=
  match n.desugared? with
  | some t => a.intern n (some (a.canonical t))
  | none =>
    if (a.flagsOf n).hasSugar then
      let (c, a) := a.intern (n.mapChildren a.canonical) none
      a.intern n (some c)
    else a.intern n none

/-- Build a type.  A tuple of no elements is the empty tuple, and a tuple of one element
given no label is that element. -/
def construct (a : Arena) : TypeNode → TypeId × Arena
  | .tuple [] => (.emptyTuple, a)
  | .tuple [⟨none, t⟩] => (t, a)
  | n => a.add n.normalise

/-- Build several types, from left to right. -/
def constructAll (a : Arena) : List TypeNode → List TypeId × Arena
  | [] => ([], a)
  | n :: rest =>
    let (t, a) := a.construct n
    let (ts, a) := a.constructAll rest
    (t :: ts, a)

/-- The nodes of the types that every arena starts with, in the order of their positions. -/
def builtinNodes : List TypeNode :=
  [.emptyTuple, .builtinInt 8, .builtinInt 16, .builtinInt 32, .builtinInt 64, .builtinWord,
   .builtinFloat 32, .builtinFloat 64, .rawPointer, .nativeObject, .unknownObject,
   .bridgeObject]

/-- The arena of the builtin types. -/
def initial : Arena := ((⟨#[]⟩ : Arena).constructAll builtinNodes).2

end Arena

end NameMangling
