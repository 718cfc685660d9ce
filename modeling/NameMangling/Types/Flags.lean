/-
# Type flags

Flags summarise a type, so that questions about its structure need no walk.
The four presence flags say what occurs anywhere inside and are inherited by
every type built from it; the five category flags describe the type itself.
-/
import NameMangling.Types.Node

namespace NameMangling

/-- What is known of a type without looking into it. -/
structure TypeFlags where
  hasSugar : Bool := false
  hasTypeParam : Bool := false
  hasDependentMember : Bool := false
  hasOpaque : Bool := false
  isBuiltin : Bool := false
  isNominal : Bool := false
  isFunction : Bool := false
  isTuple : Bool := false
  isExistential : Bool := false
deriving DecidableEq, Inhabited

namespace TypeFlags

/-- The flags set in either argument. -/
def union (a b : TypeFlags) : TypeFlags where
  hasSugar := a.hasSugar || b.hasSugar
  hasTypeParam := a.hasTypeParam || b.hasTypeParam
  hasDependentMember := a.hasDependentMember || b.hasDependentMember
  hasOpaque := a.hasOpaque || b.hasOpaque
  isBuiltin := a.isBuiltin || b.isBuiltin
  isNominal := a.isNominal || b.isNominal
  isFunction := a.isFunction || b.isFunction
  isTuple := a.isTuple || b.isTuple
  isExistential := a.isExistential || b.isExistential

/-- The presence flags alone: what a type passes on to the types built from it. -/
def presence (a : TypeFlags) : TypeFlags where
  hasSugar := a.hasSugar
  hasTypeParam := a.hasTypeParam
  hasDependentMember := a.hasDependentMember
  hasOpaque := a.hasOpaque

/-- Whether the type depends on a generic context. -/
def isDependent (a : TypeFlags) : Bool := a.hasTypeParam || a.hasDependentMember

end TypeFlags

/-- The flags a kind of node has on its own account. -/
def TypeKind.ownFlags : TypeKind → TypeFlags
  | .emptyTuple | .tuple => { isTuple := true }
  | .builtinInt | .builtinFloat | .builtinWord | .rawPointer | .nativeObject | .unknownObject
  | .bridgeObject => { isBuiltin := true }
  | .metatype | .existentialMetatype => {}
  | .genericParam => { hasTypeParam := true }
  | .nominal | .boundGeneric => { isNominal := true }
  | .function | .lowered => { isFunction := true }
  | .existential => { isExistential := true }
  | .dependentMember => { hasDependentMember := true }
  | .opaqueResult => { hasOpaque := true }
  | .aliased | .paren | .optionalSugar | .arraySugar | .dictionarySugar => { hasSugar := true }

end NameMangling
