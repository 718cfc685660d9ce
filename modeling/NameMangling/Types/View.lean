/-
# Views of stored types

Each view answers for the kinds of types it is about, and with `none` for all others.
-/
import NameMangling.Types.Arena

namespace NameMangling

/-- A nominal type, generic or not: its declaration, the type it is nested in, and the
arguments of this level. -/
structure NominalType where
  decl : DeclId
  parent : Option TypeId
  args : List TypeId
deriving DecidableEq, Inhabited

/-- An opaque result type. -/
structure OpaqueResult where
  decl : DeclId
  ordinal : Nat
  args : List TypeId
deriving DecidableEq, Inhabited

namespace TypeNode

/-- The bit width of a builtin number. -/
def builtinWidth? : TypeNode → Option Nat
  | builtinInt width | builtinFloat width => some width
  | _ => none

/-- The alias declaration and the underlying type of an alias reference. -/
def aliased? : TypeNode → Option (DeclId × TypeId)
  | aliased decl underlying => some (decl, underlying)
  | _ => none

/-- A nominal type, with or without arguments. -/
def nominal? : TypeNode → Option NominalType
  | nominal decl parent => some ⟨decl, parent, []⟩
  | boundGeneric decl parent args => some ⟨decl, parent, args⟩
  | _ => none

/-- The elements of a tuple; the empty tuple has none. -/
def tuple? : TypeNode → Option (List TupleElement)
  | emptyTuple => some []
  | tuple elements => some elements
  | _ => none

/-- A function type. -/
def function? : TypeNode → Option FunctionType
  | function fn => some fn
  | _ => none

/-- A lowered function type. -/
def lowered? : TypeNode → Option LoweredFunction
  | lowered fn => some fn
  | _ => none

/-- The instance type of a metatype. -/
def instance? : TypeNode → Option TypeId
  | metatype t | existentialMetatype t => some t
  | _ => none

/-- The parts of a protocol composition. -/
def existential? : TypeNode → Option Composition
  | existential c => some c
  | _ => none

/-- The position of a generic parameter. -/
def genericParam? : TypeNode → Option ParamKey
  | genericParam key => some key
  | _ => none

/-- The base type and the associated type of a dependent member. -/
def dependentMember? : TypeNode → Option (TypeId × DeclId)
  | dependentMember base member => some (base, member)
  | _ => none

/-- An opaque result type. -/
def opaqueResult? : TypeNode → Option OpaqueResult
  | opaqueResult decl ordinal args => some ⟨decl, ordinal, args⟩
  | _ => none

end TypeNode

end NameMangling
