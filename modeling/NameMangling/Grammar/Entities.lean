/-
# Entities and contexts in symbols

    context   ::= module | nominal | extension | entity | closure | accessor
              ::= entity 'fi' | entity 'fA' index
    extension ::= nominal module generic-signature? ('E' | 'XE')
    entity    ::= context decl-name decl-type ('F' | 'vp' | 'fO') 'Z'?
              ::= context decl-type 'ip' 'Z'?
              ::= context decl-type ('fC' | 'fc') | context ('fD' | 'fd')
              ::= context decl-name 'Qy' | opaque-decl
    decl-type ::= type generic-signature? 'u'?
    closure   ::= context type ('fU' | 'fu') index
    accessor  ::= context decl-name? decl-type ('v' | 'i') accessor-code 'Z'?

The parameters of a type of a declaration are checked against the signature of the
declaration, and its own opaque results are spelled relative to it.
-/
import NameMangling.Grammar.Types

namespace NameMangling.Grammar

variable (g : Grammar)

/-! ## Types of declarations -/

/-- The scope of the type of a declaration. -/
def declScope (d : DeclId) : Scope :=
  { signature := g.program.signatureOf (.decl d), owner := some d }

/-- The interface type of a declaration, and what its signature adds to that of its
context; a generic value that is not a function is marked. -/
def declType (scope : Scope) (d : DeclId) : List Piece :=
  match (g.program.decl d).interfaceType with
  | none => [.fail (.unexpectedEntity d .typed)]
  | some t =>
    let isFunction := g.program.types.kind t == .function
    let type :=
      if isFunction then g.function (g.declScope d) t (g.program.decl d).labels
      else [.type (g.declScope d) t]
    let generics :=
      match (g.program.decl d).signature with
      | none => []
      | some s => g.signature scope s (g.program.outerSignature d)
    type ++ generics
      ++ if !isFunction && !generics.isEmpty then [.op .genericValue] else []

/-! ## Entities -/

/-- The mark of a static member. -/
def staticMark (d : DeclId) : List Piece :=
  if (g.program.decl d).flags.isStatic then [.op .static] else []

/-- A declaration with a type: a function, property, subscript or enum element. -/
def value (scope : Scope) (d : DeclId) (isNamed : Bool) (operator : Operator) : List Piece :=
  g.contextOf scope d ++ (if isNamed then g.declName d else []) ++ g.declType scope d
    ++ .op operator :: g.staticMark d

/-- A constructor, by its allocating or its initializing entry point. -/
def constructor (scope : Scope) (d : DeclId) (allocating : Bool) : List Piece :=
  g.contextOf scope d ++ g.declType scope d
    ++ [.op (if allocating then .allocator else .initializer)]

/-- A destructor, by its deallocating or its destroying entry point. -/
def destructor (scope : Scope) (d : DeclId) (deallocating : Bool) : List Piece :=
  g.contextOf scope d ++ [.op (if deallocating then .deallocator else .destructor)]

/-- A declaration as a symbol of its own; what has no such symbol is spelled as a context. -/
def entity (scope : Scope) (d : DeclId) : List Piece :=
  match g.program.kindOf d with
  | .func => g.value scope d true .func
  | .property => g.value scope d true .property
  | .subscript => g.value scope d false .subscript
  | .enumElement => g.value scope d true .enumElement
  | .constructor => g.constructor scope d true
  | .destructor => g.destructor scope d true
  | .associatedType => g.contextOf scope d ++ g.declName d ++ [.op .associatedType]
  | .opaqueResult _ => g.opaqueDecl scope d
  | _ => [.context scope (.decl d)]

/-- A closure. -/
def closure (scope : Scope) (c : ClosureId) : List Piece :=
  let closure := g.program.closure c
  [.context scope closure.parent,
   .type { scope with signature := g.program.signatureOf (.closure c) } closure.type,
   .op (if closure.isImplicit then .implicitClosure else .closure),
   .token (.index closure.discriminator)]

/-- An accessor of a property or subscript. -/
def accessor (scope : Scope) (storage : DeclId) (kind : AccessorKind) : List Piece :=
  let ending (operator : Operator) : List Piece :=
    g.declType scope storage ++ .op operator :: .op (.accessor kind) :: g.staticMark storage
  match g.program.kindOf storage with
  | .property =>
    g.contextOf scope storage ++ g.declName storage ++ ending .propertyAccessor
  | .subscript => g.contextOf scope storage ++ ending .subscriptAccessor
  | _ => [.fail (.unexpectedEntity storage .storage)]

/-! ## Contexts -/

/-- An extension is spelled out only when it lives in another module than the type it
extends or adds requirements; otherwise its members belong to the type. -/
def extension (scope : Scope) (d extended : DeclId) : List Piece :=
  let own := (g.program.decl d).signature
  let nominal := g.program.signatureOf (.decl extended)
  let isConstrained := own.isSome && own != nominal
  let isSameModule := g.program.moduleOf (.decl d) == g.program.moduleOf (.decl extended)
  let generics :=
    match own with
    | some s => g.signature scope s nominal
    | none => []
  g.nominal scope extended ++
    if isSameModule && !isConstrained then []
    else
      g.moduleOf scope d ++ generics
        ++ [.op (if generics.isEmpty then .extension else .constrainedExtension)]

/-- A declaration as the context of others. -/
def declContext (scope : Scope) (d : DeclId) : List Piece :=
  match g.program.kindOf d with
  | .nativeModule | .foreignModule => g.moduleDecl scope d
  | .extension extended => g.extension scope d extended
  | .structType | .enumType | .classType | .protocolType _ | .typeAlias => g.nominal scope d
  | _ => g.entity scope d

/-- A context. -/
def context (scope : Scope) : Context → List Piece
  | .decl d => g.declContext scope d
  | .closure c => g.closure scope c
  | .initializer property => g.entity scope property ++ [.op .initializerBody]
  | .defaultArgument owner i =>
    g.entity scope owner ++ [.op .defaultArgument, .token (.index i)]
  | .accessor storage kind => g.accessor scope storage kind

end NameMangling.Grammar
