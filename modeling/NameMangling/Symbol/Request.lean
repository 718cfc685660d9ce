/-
# Requests

What a symbol can be asked for.  `Request` lists everything that has a symbol: entities,
thunks, tables, key path helpers, derivatives, types for debug information and
cross references.
-/
import NameMangling.Decl
import NameMangling.Generics
import NameMangling.Differentiation

namespace NameMangling

/-- The variants of the symbol of an entity. -/
inductive EntityVariant
  | plain | asyncHandler | dynamicThunk | nativeToForeign | foreignToNative
deriving DecidableEq, Inhabited

/-- The resilience domain a helper is compiled for: code that other modules may inline, or
code of one module. -/
inductive Expansion
  | minimal | maximal
deriving DecidableEq, Inhabited

/-- The requirement that a witness thunk meets. -/
inductive WitnessTarget
  | decl (d : DeclId)
  | accessor (storage : DeclId) (kind : AccessorKind)
deriving DecidableEq, Inhabited

/-- A key path component for a property or subscript of a base type. -/
structure KeyPathComponent where
  storage : DeclId
  signature : Option SignatureId := none
  base : TypeId
  substitutions : Option Substitutions := none
  expansion : Expansion := .maximal
deriving DecidableEq, Inhabited

/-- The index values of a subscript component. -/
structure KeyPathIndices where
  indices : List TypeId
  signature : Option SignatureId := none
  expansion : Expansion := .maximal
deriving DecidableEq, Inhabited

/-- Everything that has a symbol. -/
inductive Request
  -- declarations
  | entity (d : DeclId) (kind : EntityVariant)
  | closure (c : ClosureId) (kind : EntityVariant)
  | constructor (d : DeclId) (allocating : Bool) (kind : EntityVariant)
  | destructor (d : DeclId) (deallocating : Bool) (kind : EntityVariant)
  | ivarInitializer (d : DeclId) (destroyer : Bool) (kind : EntityVariant)
  | accessor (storage : DeclId) (accessor : AccessorKind) (kind : EntityVariant)
  | globalGetter (d : DeclId)
  | globalVariable (d : DeclId)
  | defaultArgument (owner : DeclId) (index : Nat)
  | initializer (d : DeclId)
  | backingInitializer (d : DeclId)
  | nominalType (d : DeclId)
  | localTypeDecl (d : DeclId)
  | globalInit (binding : BindingId) (entry : Nat) (isFunction : Bool)
  | declType (d : DeclId)
  -- thunks and tables
  | vtableThunk (base derived : DeclId)
  | constructorVtableThunk (base derived : DeclId) (allocating : Bool)
  | witnessTable (c : ConformanceId)
  | witnessThunk (c : ConformanceId) (requirement : WitnessTarget)
  | closureWitnessThunk (c : ConformanceId) (closure : ClosureId)
  | reabstractionThunk (source target : TypeId) (self : Option TypeId)
      (signature : Option SignatureId)
  | completionHandler (block result : TypeId) (signature : Option SignatureId)
      (isPredefined : Bool)
  -- key paths
  | keyPathGetter (component : KeyPathComponent)
  | keyPathSetter (component : KeyPathComponent)
  | keyPathEquals (indices : KeyPathIndices)
  | keyPathHash (indices : KeyPathIndices)
  -- derivatives
  | derivativeFunction (differentiated : String) (kind : DerivativeKind) (config : DerivativeConfig)
  | linearMap (differentiated : String) (kind : LinearMapMode) (config : DerivativeConfig)
  | generatedDecl (differentiated : String) (decl : GeneratedDecl) (kind : LinearMapMode)
      (block : Nat) (config : DerivativeConfig)
  | differentiabilityWitness (differentiated : String) (kind : WitnessKind)
      (config : DerivativeConfig)
  -- debug information and runtime names
  | typeForDebugger (t : TypeId) (context : Option Context)
  | typeForTypeName (t : TypeId)
  | typeWithoutLead (t : TypeId)
  | opaqueTypeDescriptor (d : DeclId)
  | opaqueTypeDecl (d : DeclId)
  | opaqueTypeDeclOf (naming : DeclId)
  | foreignRuntimeName (d : DeclId)
  -- cross references
  | typeReference (t : TypeId) (lead : String)
  | typeContextReference (d : DeclId) (lead : String)
  | declReference (d : DeclId) (lead : String)
  | accessorReference (storage : DeclId) (kind : AccessorKind) (lead : String)
deriving DecidableEq, Inhabited

end NameMangling
