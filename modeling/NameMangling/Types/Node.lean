/-
# Type nodes

One node per type of the program model.  A node names its parts by their position
in the type arena, so nodes are finite data and two types are structurally equal
exactly when their nodes are equal.

Main definitions: `TypeNode`, its kind (`TypeNode.kind`), the types it is made of
(`TypeNode.children`), and the form in which it is stored (`TypeNode.normalise`).
A sugar node only lends its spelling: its one child is the type it stands for.
-/
import NameMangling.Ordered
import NameMangling.Types.Attribute

namespace NameMangling

/-- A type, in terms of the positions of its parts. -/
inductive TypeNode
  | emptyTuple
  | builtinInt (width : Nat)
  | builtinFloat (width : Nat)
  | builtinWord
  | rawPointer
  | nativeObject
  | unknownObject
  | bridgeObject
  | metatype (ofType : TypeId)
  | existentialMetatype (ofType : TypeId)
  | genericParam (key : ParamKey)
  | nominal (decl : DeclId) (parent : Option TypeId)
  | boundGeneric (decl : DeclId) (parent : Option TypeId) (args : List TypeId)
  | tuple (elements : List TupleElement)
  | function (fn : FunctionType)
  | lowered (fn : LoweredFunction)
  | existential (composition : Composition)
  | dependentMember (base : TypeId) (member : DeclId)
  | opaqueResult (decl : DeclId) (ordinal : Nat) (args : List TypeId)
  | aliased (decl : DeclId) (underlying : TypeId)
  | paren (inner : TypeId)
  | optionalSugar (wrapped desugared : TypeId)
  | arraySugar (element desugared : TypeId)
  | dictionarySugar (key value desugared : TypeId)
deriving DecidableEq, Inhabited

/-- The kinds of type nodes. -/
inductive TypeKind
  | emptyTuple | builtinInt | builtinFloat | builtinWord
  | rawPointer | nativeObject | unknownObject | bridgeObject
  | metatype | existentialMetatype | genericParam
  | nominal | boundGeneric | tuple | function | lowered | existential
  | dependentMember | opaqueResult
  | aliased | paren | optionalSugar | arraySugar | dictionarySugar
deriving DecidableEq, Inhabited

namespace TypeKind

/-- The name of a kind. -/
def name : TypeKind → String
  | emptyTuple => "empty-tuple"
  | builtinInt => "builtin-int"
  | builtinFloat => "builtin-float"
  | builtinWord => "builtin-word"
  | rawPointer => "raw-pointer"
  | nativeObject => "native-object"
  | unknownObject => "unknown-object"
  | bridgeObject => "bridge-object"
  | metatype => "metatype"
  | existentialMetatype => "existential-metatype"
  | genericParam => "generic-param"
  | nominal => "nominal"
  | boundGeneric => "bound-generic"
  | tuple => "tuple"
  | function => "function"
  | lowered => "impl-function"
  | existential => "existential"
  | dependentMember => "dependent-member"
  | opaqueResult => "opaque"
  | aliased => "alias"
  | paren => "paren"
  | optionalSugar => "optional-sugar"
  | arraySugar => "array-sugar"
  | dictionarySugar => "dictionary-sugar"

/-- The kinds without parts; the empty tuple is one of them. -/
def isBuiltin : TypeKind → Bool
  | emptyTuple | builtinInt | builtinFloat | builtinWord
  | rawPointer | nativeObject | unknownObject | bridgeObject => true
  | _ => false

/-- The kinds that only record how a type was written. -/
def isSugar : TypeKind → Bool
  | aliased | paren | optionalSugar | arraySugar | dictionarySugar => true
  | _ => false

/-- The kinds whose data are a list of parts and not a single word. -/
def isCompound : TypeKind → Bool
  | metatype | existentialMetatype | genericParam => false
  | k => !k.isBuiltin

end TypeKind

namespace TypeNode

/-- The kind of a node. -/
def kind : TypeNode → TypeKind
  | emptyTuple => .emptyTuple
  | builtinInt _ => .builtinInt
  | builtinFloat _ => .builtinFloat
  | builtinWord => .builtinWord
  | rawPointer => .rawPointer
  | nativeObject => .nativeObject
  | unknownObject => .unknownObject
  | bridgeObject => .bridgeObject
  | metatype _ => .metatype
  | existentialMetatype _ => .existentialMetatype
  | genericParam _ => .genericParam
  | nominal .. => .nominal
  | boundGeneric .. => .boundGeneric
  | tuple _ => .tuple
  | function _ => .function
  | lowered _ => .lowered
  | existential _ => .existential
  | dependentMember .. => .dependentMember
  | opaqueResult .. => .opaqueResult
  | aliased .. => .aliased
  | paren _ => .paren
  | optionalSugar .. => .optionalSugar
  | arraySugar .. => .arraySugar
  | dictionarySugar .. => .dictionarySugar

/-- The type a sugar node stands for. -/
def desugared? : TypeNode → Option TypeId
  | aliased _ t | paren t | optionalSugar _ t | arraySugar _ t | dictionarySugar _ _ t => some t
  | _ => none

/-- The types a node is made of, from left to right. -/
def children : TypeNode → List TypeId
  | metatype t | existentialMetatype t => [t]
  | nominal _ parent => parent.toList
  | boundGeneric _ parent args => parent.toList ++ args
  | tuple elements => elements.map (·.type)
  | function fn => fn.params.map (·.type) ++ [fn.result]
  | lowered fn => fn.params.map (·.2) ++ fn.results.map (·.2) ++ fn.error.toList
  | existential c => c.superclass.toList
  | dependentMember base _ => [base]
  | opaqueResult _ _ args => args
  | node => node.desugared?.toList

/-- The same node over other parts; sugar nodes and nodes without parts stay as they are. -/
def mapChildren (f : TypeId → TypeId) : TypeNode → TypeNode
  | metatype t => metatype (f t)
  | existentialMetatype t => existentialMetatype (f t)
  | nominal decl parent => nominal decl (parent.map f)
  | boundGeneric decl parent args => boundGeneric decl (parent.map f) (args.map f)
  | tuple elements => tuple (elements.map fun e => { e with type := f e.type })
  | function fn =>
    function { fn with
      params := fn.params.map fun p => { p with type := f p.type }
      result := f fn.result }
  | lowered fn =>
    lowered { fn with
      params := fn.params.map fun p => (p.1, f p.2)
      results := fn.results.map fun r => (r.1, f r.2)
      error := fn.error.map f }
  | existential c => existential { c with superclass := c.superclass.map f }
  | dependentMember base member => dependentMember (f base) member
  | opaqueResult decl ordinal args => opaqueResult decl ordinal (args.map f)
  | node => node

/-- An empty label is no label. -/
def storedLabel (label : Option Name) : Option Name :=
  if label = some Name.empty then none else label

/-- The form in which a node is stored: empty tuple labels are dropped, and the protocols
of a composition stand in the order of their declarations, once each. -/
def normalise : TypeNode → TypeNode
  | tuple elements => tuple (elements.map fun e => { e with label := storedLabel e.label })
  | existential c =>
    existential { c with protocols := Ordered.distinct (·.index < ·.index) c.protocols }
  | node => node

end TypeNode

end NameMangling
