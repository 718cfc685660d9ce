/-
# Generic parameters and signatures

    generic-param     ::= 'x' | 'q' index | 'qd' index index
    generic-signature ::= requirement* param-counts 'l'
    param-counts      ::= ''                       // exactly one new parameter
                      ::= 'r' (count '_')*

A signature is spelled by what it adds to the signature of its context; when it adds
nothing, nothing is written.
-/
import NameMangling.Grammar.Basic

namespace NameMangling

/-- A generic parameter: the first one of the outermost depth, a later one of that depth,
or one of an inner depth. -/
def ParamKey.tokens : ParamKey → List Token
  | ⟨0, 0⟩ => [.op .firstParam]
  | ⟨0, index + 1⟩ => [.op .outerParam, .index index]
  | ⟨depth + 1, index⟩ => [.op .innerParam, .index depth, .index index]

namespace Layout

/-- The spelling of a layout constraint. -/
def tokens : Layout → List Token
  | unknown => [.op .unknownLayout]
  | refCounted => [.op .refCountedLayout]
  | nativeRefCounted => [.op .nativeRefCountedLayout]
  | classBound => [.op .classLayout]
  | nativeClassBound => [.op .nativeClassLayout]
  | trivial => [.op .trivialLayout]
  | exactSize bits => [.op .exactSizeLayout, .count bits]
  | atMostSize bits => [.op .atMostSizeLayout, .count bits]

end Layout

/-- How many parameters are new at each depth; nothing when there is just one. -/
def SignatureDelta.countTokens (d : SignatureDelta) : List Token :=
  if d.params.length = 1 then []
  else .op .paramCounts :: d.countsPerDepth.map fun count => .count count.toNat

namespace Grammar

variable (g : Grammar)

/-- A generic parameter, which has to belong to the signature in scope, if there is one. -/
def genericParam (scope : Scope) (key : ParamKey) : List Piece :=
  let isBound := scope.signature.all fun s => (g.program.signature s).contains key
  if isBound then key.tokens.map .token else [.fail (.unboundParameter key)]

/-- Whether the protocol of a member of `base` goes without saying: it is the only one that
`base` is required to conform to. -/
def elides (scope : Scope) (base : TypeId) (protocol : DeclId) : Bool :=
  g.options.elidesProtocols
    && scope.signature.any fun s => g.program.requiredProtocols s base == [protocol]

/-- A requirement. -/
def requirement (scope : Scope) (r : Requirement) : List Piece :=
  .type scope r.subject ::
    match r.demand with
    | .conformance protocol => g.protocol scope protocol ++ [.op .conformanceRequirement]
    | .sameType other => [.type scope other, .op .sameTypeRequirement]
    | .superclass bound => [.type scope bound, .op .superclassRequirement]
    | .layout constraint => .op .layoutRequirement :: constraint.tokens.map .token

/-- What a signature adds to that of its context. -/
def delta (s : SignatureId) (context : Option SignatureId) : SignatureDelta :=
  .between (g.program.signature s) (context.map g.program.signature)

/-- A signature in a context.  Its requirements are spelled with the signature in scope. -/
def signature (scope : Scope) (s : SignatureId) (context : Option SignatureId) : List Piece :=
  let d := g.delta s context
  if d.isEmpty then []
  else
    d.requirements.flatMap (g.requirement { scope with signature := some s })
      ++ d.countTokens.map .token ++ [.op .signature]

/-- A signature without context, where there is one. -/
def signatureIfAny (scope : Scope) : Option SignatureId → List Piece
  | some s => g.signature scope s none
  | none => []

end Grammar

end NameMangling
