/-
# Types in symbols

    type ::= 'Bi' bits '_' | 'Bf' bits '_' | 'Bw' | 'Bp' | 'Bo' | 'BO' | 'Bb' | 'yt'
         ::= generic-param | nominal | function-type | lowered
         ::= (identifier? type) '_' (identifier? type)* 't'
         ::= nominal arg-level+ retroactive* 'G' | type 'Sg'
         ::= type 'm' | type 'Xp'
         ::= protocol-list ('p' | type 'Xc' | 'Xl')
         ::= type identifier 'Qa' | type protocol identifier 'QA'
         ::= opaque-decl arg-level retroactive* 'Qo' index | 'Qr' | 'QR' index
    arg-level     ::= 'y' | type '_' type*
    protocol-list ::= 'y' | protocol '_' protocol*

Builtin types, generic parameters and nominal declarations are short; every other type is
a node.
-/
import NameMangling.Grammar.Conformances
import NameMangling.Grammar.Functions

namespace NameMangling.Grammar

variable (g : Grammar)

/-! ## Generic arguments -/

/-- The arguments of one nesting level. -/
def argLevel (scope : Scope) (args : List TypeId) : List Piece :=
  listPieces (args.map fun t => [.type scope t])

/-- Whether a declaration is the optional type of the standard library. -/
def isOptional (d : DeclId) : Bool :=
  g.program.kindOf d == .enumType && g.standardName? d == some .optional

/-- A nominal type with arguments, on its own level or that of an enclosing type.  An
optional type is written after the type it wraps. -/
def boundGeneric (scope : Scope) (t : TypeId) (n : NominalType) : List Piece :=
  let retroactive := g.retroactiveOf t
  let plain :=
    g.nominal scope n.decl
      ++ (g.program.argLevels t).flatMap (argLevel scope)
      ++ retroactivePieces scope retroactive ++ [.op .boundGeneric]
  match n.parent, n.args with
  | none, [wrapped] =>
    if retroactive.isEmpty && g.isOptional n.decl then [.type scope wrapped, .op .optionalOf]
    else plain
  | _, _ => plain

/-! ## Structural types -/

/-- A tuple type. -/
def tuple (scope : Scope) (elements : List TupleElement) : List Piece :=
  markFirst (elements.map fun e => g.label e.label ++ [.type scope e.type]) ++ [.op .tuple]

/-- A protocol composition; its class bound is not written beside a superclass. -/
def composition (scope : Scope) (c : Composition) : List Piece :=
  listPieces (c.protocols.map (g.protocol scope)) ++
    match c.superclass with
    | some t => [.type scope t, .op .superclassComposition]
    | none => [.op (if c.anyObject then .classComposition else .composition)]

/-- A member of a type parameter.  The protocol that declares the member is written unless
it goes without saying. -/
def dependentMember (scope : Scope) (base : TypeId) (member : DeclId) : List Piece :=
  match (g.program.decl member).name, g.program.protocolOf? member with
  | none, _ => [.fail (.namelessEntity member)]
  | some _, none => [.fail (.unexpectedEntity member .associatedType)]
  | some n, some protocol =>
    let name : Piece := .token (.identifier (g.program.text n))
    if g.elides scope base protocol then [.type scope base, name, .op .member]
    else .type scope base :: g.protocol scope protocol ++ [name, .op .memberOfProtocol]

/-- The declaration of an opaque result type, a node that may become a placeholder. -/
def opaqueDecl (scope : Scope) (d : DeclId) : List Piece :=
  match g.program.kindOf d with
  | .opaqueResult _ =>
    match Referent.ofDecl g.program d with
    | .ok r => [.node scope (.decl d) (some r)]
    | .error e => [.fail e]
  | _ => [.fail (.unexpectedEntity d .anOpaqueResult)]

/-- An opaque result type. -/
def opaqueResult (scope : Scope) (d : DeclId) (ordinal : Nat) (args : List TypeId) :
    List Piece :=
  let retroactive :=
    match g.program.signatureOf (.decl d) with
    | some s => g.retroactive (g.program.substitutions s args).conformances
    | none => []
  g.opaqueDecl scope d ++ argLevel scope args ++ retroactivePieces scope retroactive
    ++ [.op .opaqueResult, .token (.index ordinal)]

/-- A type that is a node, spelled out. -/
def structural (scope : Scope) (t : TypeId) : List Piece :=
  match g.program.types.node t with
  | .metatype instanceType => [.type scope instanceType, .op .metatype]
  | .existentialMetatype instanceType => [.type scope instanceType, .op .existentialMetatype]
  | .nominal d parent => g.boundGeneric scope t ⟨d, parent, []⟩
  | .boundGeneric d parent args => g.boundGeneric scope t ⟨d, parent, args⟩
  | .tuple elements => g.tuple scope elements
  | .function _ => g.function scope t []
  | .lowered f => f.pieces scope
  | .existential c => g.composition scope c
  | .dependentMember base member => g.dependentMember scope base member
  | .opaqueResult d ordinal args => g.opaqueResult scope d ordinal args
  | _ => [.fail (.unexpectedType t .structural)]

/-! ## Types -/

/-- An alias keeps its name unless it is generic, in which case the type it stands for is
spelled. -/
def aliased (scope : Scope) (d : DeclId) (underlying : TypeId) : List Piece :=
  if (g.program.signatureOf (.decl d)).isNone then g.nominal scope d
  else [.type scope underlying]

/-- Whether an opaque type declaration belongs to the declaration whose type is spelled. -/
def isOwnResult (scope : Scope) (d : DeclId) : Bool :=
  scope.owner.any fun owner => g.program.kindOf d == .opaqueResult owner

/-- An opaque result of the declaration whose type is spelled, by its number. -/
def ownResult : Nat → List Piece
  | 0 => [.op .ownResult]
  | ordinal + 1 => [.op .ownLaterResult, .token (.index ordinal)]

/-- A type. -/
def type (scope : Scope) (t : TypeId) : List Piece :=
  if !g.acceptsSugar && !g.program.types.isCanonical t then [.fail (.nonCanonicalType t)]
  else match g.program.types.node t with
    | .emptyTuple => [.op .emptyTuple]
    | .builtinInt width => [.op .builtinInt, .token (.count width)]
    | .builtinFloat width => [.op .builtinFloat, .token (.count width)]
    | .builtinWord => [.op .builtinWord]
    | .rawPointer => [.op .rawPointer]
    | .nativeObject => [.op .nativeObject]
    | .unknownObject => [.op .unknownObject]
    | .bridgeObject => [.op .bridgeObject]
    | .genericParam key => g.genericParam scope key
    | .nominal d none => g.nominal scope d
    | .opaqueResult d ordinal _ =>
      if g.isOwnResult scope d then ownResult ordinal else [.node scope (.type t) none]
    | .aliased d underlying => g.aliased scope d underlying
    | .paren inner => [.type scope inner]
    | .optionalSugar _ desugared | .arraySugar _ desugared | .dictionarySugar _ _ desugared =>
      [.type scope desugared]
    | _ => [.node scope (.type t) none]

end NameMangling.Grammar
