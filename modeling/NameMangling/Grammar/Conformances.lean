/-
# Conformances in symbols

    protocol-conformance ::= type protocol module generic-signature?
    any-conformance      ::= type protocol module conditional-list 'HC'
                         ::= (type protocol ('HD' | 'HI') index)+
    conditional-list     ::= 'y' | any-conformance '_' any-conformance*
    retroactive          ::= any-conformance 'g' index

A conformance is spelled as declared, with the signature under which it holds, or as used:
a declared one with the conformances its conditions need, one of a type parameter by its
derivation from the signature in scope.
-/
import NameMangling.Grammar.Generics

namespace NameMangling.Grammar

variable (g : Grammar)

/-! ## Conformances as declared -/

/-- The signature a conformance holds under: its own, or that of the conforming type. -/
def conformanceSignature (c : ConformanceId) : Option SignatureId :=
  let root := g.program.rootOf c
  root.conditional.or
    ((g.program.nominalOf root.type).bind fun d => g.program.signatureOf (.decl d))

/-- A conformance as declared. -/
def protocolConformance (scope : Scope) (c : ConformanceId) : List Piece :=
  let root := g.program.rootOf c
  let s := g.conformanceSignature c
  let inner := { scope with signature := s }
  .type inner (g.program.conformance c).type :: g.protocol inner root.protocol
    ++ g.moduleOf inner root.context ++ g.signatureIfAny scope s

/-! ## Conformances as used -/

/-- A declared conformance applied to a type. -/
def declaredConformance (scope : Scope) (c : ConformanceId) (t : TypeId) : List Piece :=
  let root := g.program.rootOf c
  .type scope t :: g.protocol scope root.protocol ++ g.moduleOf scope root.context
    ++ listPieces ((g.program.conditionalConformances c t).map fun (subject, ref) =>
        [.phrase scope (.conformance (some subject) ref)])
    ++ [.op .declaredConformance]

/-- One step of a derivation. -/
def conformanceStep (scope : Scope) : AccessStep → List Piece
  | .root subject protocol i =>
    .type scope subject :: g.protocol scope protocol ++ [.op .requirementStep, .token (.index i)]
  | .associated subject protocol i =>
    .type scope subject :: g.protocol scope protocol ++ [.op .associatedStep, .token (.index i)]

/-- The conformance of a type parameter, by its derivation from the signature in scope. -/
def derivedConformance (scope : Scope) (subject : TypeId) (protocol : DeclId) : List Piece :=
  match scope.signature.bind fun s => g.program.accessPath s subject protocol with
  | some path => path.flatMap (g.conformanceStep scope)
  | none => [.fail (.missingConformancePath subject protocol)]

/-- A conformance as used. -/
def conformance (scope : Scope) (subject : Option TypeId) : ConformanceRef → List Piece
  | .declared c t => g.declaredConformance scope c t
  | .fromSignature protocol =>
    match subject with
    | some t => g.derivedConformance scope t protocol
    | none => [.fail (.unexpectedEntity protocol .knownConformance)]

/-! ## Retroactive conformances -/

/-- The retroactive ones among some conformances, with their places. -/
def retroactive (refs : List ConformanceRef) : List (ConformanceRef × Nat) :=
  refs.zipIdx.filter fun (ref, _) =>
    match ref with
    | .declared c _ => g.program.isRetroactive c
    | .fromSignature _ => false

/-- The retroactive conformances that the arguments of a nominal type rely on. -/
def retroactiveOf (t : TypeId) : List (ConformanceRef × Nat) :=
  match g.program.substitutionsOf? t with
  | some subs => g.retroactive subs.conformances
  | none => []

/-- Retroactive conformances, each with the requirement it meets. -/
def retroactivePieces (scope : Scope) (refs : List (ConformanceRef × Nat)) : List Piece :=
  refs.flatMap fun (ref, i) =>
    [.phrase scope (.conformance none ref), .op .retroactive, .token (.index i)]

end NameMangling.Grammar
