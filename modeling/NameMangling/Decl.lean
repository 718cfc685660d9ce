/-
# Declarations

What a program declares, and the contexts in which declarations and closures live.
A context is a declaration, a closure, or one of the expressions and bodies that
belong to a declaration: an initial value, a default argument, an accessor.
-/
import NameMangling.Types.Attribute

namespace NameMangling

/-- Inside a protocol, the demand that an associated type conforms to a protocol. -/
structure AssociatedConformance where
  associatedType : DeclId
  protocol : DeclId
deriving DecidableEq, Inhabited

/-- What a declaration declares. -/
inductive DeclKind
  | nativeModule
  | foreignModule
  | structType
  | enumType
  | classType
  | protocolType (associated : List AssociatedConformance)
  | typeAlias
  | associatedType
  | extension (extended : DeclId)
  | func
  | constructor
  | destructor
  | property
  | subscript
  | enumElement
  | opaqueResult (naming : DeclId)
deriving DecidableEq, Inhabited

namespace DeclKind

/-- The name of a kind of declaration. -/
def name : DeclKind → String
  | nativeModule => "module"
  | foreignModule => "foreign module"
  | structType => "struct"
  | enumType => "enum"
  | classType => "class"
  | protocolType _ => "protocol"
  | typeAlias => "type alias"
  | associatedType => "associated type"
  | extension _ => "extension"
  | func => "function"
  | constructor => "constructor"
  | destructor => "destructor"
  | property => "variable"
  | subscript => "subscript"
  | enumElement => "enum element"
  | opaqueResult _ => "opaque type"

/-- Structs, enums, classes and protocols. -/
def isNominal : DeclKind → Bool
  | structType | enumType | classType | protocolType _ => true
  | _ => false

/-- Modules, native or foreign. -/
def isModule : DeclKind → Bool
  | nativeModule | foreignModule => true
  | _ => false

/-- Properties and subscripts. -/
def isStorage : DeclKind → Bool
  | property | subscript => true
  | _ => false

/-- Protocols. -/
def isProtocol : DeclKind → Bool
  | protocolType _ => true
  | _ => false

/-- Nominal types and extensions: the declarations whose members are found through a type. -/
def isTypeContext : DeclKind → Bool
  | extension _ => true
  | kind => kind.isNominal

end DeclKind

/-- The accessors of a property or subscript. -/
inductive AccessorKind
  | get | set | read | modify | willSet | didSet | address | mutableAddress | init
deriving DecidableEq, Inhabited

/-- Where a declaration or closure lives. -/
inductive Context
  | decl (decl : DeclId)
  | closure (closure : ClosureId)
  | initializer (property : DeclId)
  | defaultArgument (owner : DeclId) (index : Nat)
  | accessor (storage : DeclId) (kind : AccessorKind)
deriving DecidableEq, Inhabited

/-- The attributes of a declaration. -/
structure DeclFlags where
  isStatic : Bool := false
  isForeignVisible : Bool := false
  isImplicit : Bool := false
deriving DecidableEq, Inhabited

/-- A declaration.  Only modules have no parent.  The signature covers the parameters of
enclosing contexts; the interface type is the value type of a property, the function type
of a function, the target of an alias.  A local discriminator tells apart declarations of
one name in one local context, a private one those of different files. -/
structure Decl where
  kind : DeclKind := .nativeModule
  name : Option Name := none
  parent : Option Context := none
  signature : Option SignatureId := none
  interfaceType : Option TypeId := none
  flags : DeclFlags := {}
  labels : List (Option Name) := []
  localDiscriminator : Option Nat := none
  privateDiscriminator : Option Name := none
  foreignName : Option Name := none
deriving DecidableEq, Inhabited

/-- A closure expression; the discriminator tells apart closures of one parent. -/
structure Closure where
  parent : Context := .decl ⟨0⟩
  discriminator : Nat := 0
  type : TypeId := .emptyTuple
  isImplicit : Bool := false
deriving DecidableEq, Inhabited

/-- Variables bound together, entry by entry. -/
structure PatternBinding where
  parent : Context := .decl ⟨0⟩
  entries : List (List DeclId) := []
deriving DecidableEq, Inhabited

end NameMangling
