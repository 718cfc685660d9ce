/-
# The type pool

The packed form of a type arena.  An item has a kind and one data word; for the kinds with a
row of words the data word is where the row starts in one array that all items share, its
length in front of it.  A payload that is stored already is not stored again: the keys say
which item has which kind and words.

Main operations:
* `Pool.construct` packs a node over types of the pool;
* `Pool.builtinWidth?` and the other readers unpack one kind of types each and answer `none`
  for all other types; `Pool.view` is what they say together.

Positions and offsets are words, so they are exact as long as a pool is `Pool.Small`.
-/
import NameMangling.Types.Words

namespace NameMangling

/-- A packed type. -/
structure PoolItem where
  kind : TypeKind := .emptyTuple
  data : UInt32 := 0
  flags : TypeFlags := { isTuple := true }
  canonical : TypeId := .emptyTuple
deriving DecidableEq, Inhabited

/-- What types are shared by: their kind and their words. -/
structure PoolKey where
  kind : TypeKind
  words : List UInt32
deriving DecidableEq, Inhabited

/-- The types packed so far, the array of their rows, and their keys. -/
structure Pool where
  items : Array PoolItem := #[]
  rows : Array UInt32 := #[]
  keys : Array PoolKey := #[]
deriving DecidableEq, Inhabited

/-- What can be read off a type, reader by reader. -/
structure TypeView where
  kind : TypeKind
  builtinWidth : Option Nat
  nominal : Option NominalType
  tuple : Option (List TupleElement)
  function : Option FunctionType
  lowered : Option LoweredFunction
  instanceType : Option TypeId
  existential : Option Composition
  genericParam : Option ParamKey
  dependentMember : Option (TypeId × DeclId)
  opaqueResult : Option OpaqueResult
  aliased : Option (DeclId × TypeId)
  desugared : Option TypeId
deriving DecidableEq, Inhabited

namespace TypeNode

/-- The key of a node. -/
def key (n : TypeNode) : PoolKey := ⟨n.kind, n.payload.words⟩

/-- What can be read off a type with the given node. -/
def view (n : TypeNode) : TypeView where
  kind := n.kind
  builtinWidth := n.builtinWidth?
  nominal := n.nominal?
  tuple := n.tuple?
  function := n.function?
  lowered := n.lowered?
  instanceType := n.instance?
  existential := n.existential?
  genericParam := n.genericParam?
  dependentMember := n.dependentMember?
  opaqueResult := n.opaqueResult?
  aliased := n.aliased?
  desugared := n.desugared?

end TypeNode

/-- What can be read off a type of an arena. -/
def Arena.view (a : Arena) (t : TypeId) : TypeView := (a.node t).view

namespace Pool

/-! ## Reading -/

/-- The number of types. -/
def size (p : Pool) : Nat := p.items.size

/-- Whether there is a word for every position and for every offset. -/
def Small (p : Pool) : Prop := p.items.size < UInt32.size ∧ p.rows.size < UInt32.size

instance (p : Pool) : Decidable p.Small := inferInstanceAs (Decidable (_ ∧ _))

/-- The item of a type; positions not handed out read as the empty tuple. -/
def item (p : Pool) (t : TypeId) : PoolItem := p.items[t.index]?.getD {}

/-- The kind of a type. -/
def kind (p : Pool) (t : TypeId) : TypeKind := (p.item t).kind

/-- The flags of a type. -/
def flags (p : Pool) (t : TypeId) : TypeFlags := (p.item t).flags

/-- The same type with all sugar removed. -/
def canonical (p : Pool) (t : TypeId) : TypeId := (p.item t).canonical

/-- Whether a type is its own canonical form. -/
def isCanonical (p : Pool) (t : TypeId) : Bool := p.canonical t == t

/-- The row at an offset; there is none if it would run beyond the array. -/
def rowAt? (rows : Array UInt32) (start : Nat) : Option (List UInt32) := do
  let length ← rows[start]?
  let stop := start + 1 + length.toNat
  if stop ≤ rows.size then some (rows.extract (start + 1) stop).toList else none

/-- The row of a type, if it is of one of the given kinds. -/
def row? (p : Pool) (t : TypeId) (kinds : List TypeKind) : Option (List UInt32) :=
  if p.kind t ∈ kinds then rowAt? p.rows (p.item t).data.toNat else none

/-- The data word of a type, if it is of one of the given kinds. -/
def data? (p : Pool) (t : TypeId) (kinds : List TypeKind) : Option UInt32 :=
  if p.kind t ∈ kinds then some (p.item t).data else none

/-- The bit width of a builtin number. -/
def builtinWidth? (p : Pool) (t : TypeId) : Option Nat :=
  (p.data? t [.builtinInt, .builtinFloat]).map (·.toNat)

/-- A nominal type, with or without arguments. -/
def nominal? (p : Pool) (t : TypeId) : Option NominalType :=
  (p.row? t [.nominal, .boundGeneric]).bind nominalOf?

/-- The elements of a tuple; the empty tuple has none. -/
def tuple? (p : Pool) (t : TypeId) : Option (List TupleElement) :=
  if p.kind t = .emptyTuple then some [] else (p.row? t [.tuple]).map elementsOf

/-- A function type. -/
def function? (p : Pool) (t : TypeId) : Option FunctionType :=
  (p.row? t [.function]).bind functionOf?

/-- A lowered function type. -/
def lowered? (p : Pool) (t : TypeId) : Option LoweredFunction :=
  (p.row? t [.lowered]).bind loweredOf?

/-- The instance type of a metatype. -/
def instance? (p : Pool) (t : TypeId) : Option TypeId :=
  (p.data? t [.metatype, .existentialMetatype]).map TypeId.ofWord

/-- The parts of a protocol composition. -/
def existential? (p : Pool) (t : TypeId) : Option Composition :=
  (p.row? t [.existential]).bind compositionOf?

/-- The position of a generic parameter. -/
def genericParam? (p : Pool) (t : TypeId) : Option ParamKey :=
  (p.data? t [.genericParam]).map ParamKey.ofWord

/-- The base type and the associated type of a dependent member. -/
def dependentMember? (p : Pool) (t : TypeId) : Option (TypeId × DeclId) :=
  (p.row? t [.dependentMember]).bind memberOf?

/-- An opaque result type. -/
def opaqueResult? (p : Pool) (t : TypeId) : Option OpaqueResult :=
  (p.row? t [.opaqueResult]).bind opaqueResultOf?

/-- The alias declaration and the underlying type of an alias reference. -/
def aliased? (p : Pool) (t : TypeId) : Option (DeclId × TypeId) :=
  (p.row? t [.aliased]).bind aliasOf?

/-- The type a sugar type stands for. -/
def desugared? (p : Pool) (t : TypeId) : Option TypeId :=
  (p.row? t [.aliased, .paren, .optionalSugar, .arraySugar, .dictionarySugar]).bind fun ws =>
    ws.head?.map TypeId.ofWord

/-- What can be read off a type. -/
def view (p : Pool) (t : TypeId) : TypeView where
  kind := p.kind t
  builtinWidth := p.builtinWidth? t
  nominal := p.nominal? t
  tuple := p.tuple? t
  function := p.function? t
  lowered := p.lowered? t
  instanceType := p.instance? t
  existential := p.existential? t
  genericParam := p.genericParam? t
  dependentMember := p.dependentMember? t
  opaqueResult := p.opaqueResult? t
  aliased := p.aliased? t
  desugared := p.desugared? t

/-- Whether a type is a function type with the given representation. -/
def hasRepr (p : Pool) (t : TypeId) (r : FunctionRepr) : Bool :=
  (p.function? t).any (·.repr == r)

/-! ## Packing -/

/-- The type with a number, which has to fit a word. -/
def typeAt (i : Nat) : TypeId := .ofWord (.ofNat i)

/-- The type with a key. -/
def find? (p : Pool) (k : PoolKey) : Option TypeId := (p.keys.findIdx? (· == k)).map typeAt

/-- The flags of a node: its own and those it inherits from its parts. -/
def flagsOf (p : Pool) (n : TypeNode) : TypeFlags :=
  n.children.foldl (fun acc t => acc.union (p.flags t).presence) n.kind.ownFlags

/-- The data word of a payload, and the rows with its own row at the end. -/
def store (rows : Array UInt32) : Payload → UInt32 × Array UInt32
  | .word w => (w, rows)
  | .row ws => (.ofNat rows.size, rows ++ (.ofNat ws.length :: ws).toArray)

/-- The type with the words of a node, which are stored unless they are there already.  A
node given no canonical form is its own. -/
def intern (p : Pool) (n : TypeNode) (canonical : Option TypeId) : TypeId × Pool :=
  match p.find? n.key with
  | some t => (t, p)
  | none =>
    let t := typeAt p.size
    let (data, rows) := store p.rows n.payload
    let item : PoolItem := ⟨n.kind, data, p.flagsOf n, canonical.getD t⟩
    (t, { items := p.items.push item, rows, keys := p.keys.push n.key })

/-- Pack a node.  A sugar node shares the canonical form of the type it stands for; a node
with sugar among its parts has its variant over their canonical forms, which is packed in
front of it. -/
def add (p : Pool) (n : TypeNode) : TypeId × Pool :=
  match n.desugared? with
  | some t => p.intern n (some (p.canonical t))
  | none =>
    if (p.flagsOf n).hasSugar then
      let (c, p) := p.intern (n.mapChildren p.canonical) none
      p.intern n (some c)
    else p.intern n none

/-- Build a type.  A tuple of no elements is the empty tuple, and a tuple of one element
given no label is that element. -/
def construct (p : Pool) : TypeNode → TypeId × Pool
  | .tuple [] => (.emptyTuple, p)
  | .tuple [⟨none, t⟩] => (t, p)
  | n => p.add n

/-- The pool after building some types. -/
def run (p : Pool) (ns : List TypeNode) : Pool := ns.foldl (fun p n => (p.construct n).2) p

/-- The pool of the builtin types. -/
def initial : Pool := run {} Arena.builtinNodes

end Pool

end NameMangling
