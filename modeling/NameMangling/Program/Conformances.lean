/-
# Substitutions and conformances of a program

Generic arguments of nominal types, the substitutions they stand for, and how
conformances are found: declared ones by the nominal type that conforms, those of type
parameters by a path through the requirements of a signature.

Main operations:
* `Program.substitutionsOf?`, the substitutions a nominal type stands for;
* `Program.conformanceOf`, the conformance of a type to a protocol;
* `Program.accessPath`, the derivation of the conformance of a type parameter.

Walks through types follow parts, which come earlier in the arena; they are cut off
after as many steps as there are types, which a built arena never reaches.
-/
import NameMangling.Program.Contexts

namespace NameMangling.Program

/-! ## Nominal types -/

/-- The declaration of a nominal type, sugar aside. -/
def nominalOf (p : Program) (t : TypeId) : Option DeclId :=
  (p.types.node (p.types.canonical t)).nominal?.map (·.decl)

/-- The arguments of a nominal type, a list for each nesting level, innermost first. -/
def argLevelsUp (p : Program) : Nat → TypeId → List (List TypeId)
  | 0, _ => []
  | n + 1, t =>
    match (p.types.node t).nominal? with
    | none => []
    | some nominal => nominal.args :: ((nominal.parent.map (p.argLevelsUp n)).getD [])

/-- The arguments of a nominal type, a list for each nesting level, outermost first. -/
def argLevels (p : Program) (t : TypeId) : List (List TypeId) :=
  (p.argLevelsUp p.types.size t).reverse

/-- All arguments of a nominal type, sugar aside, outermost level first. -/
def flattenedArgs (p : Program) (t : TypeId) : List TypeId :=
  (p.argLevels (p.types.canonical t)).flatten

/-! ## Declared conformances -/

/-- The declared conformance at the root of a chain of at most `n` inherited ones. -/
def rootWithin (p : Program) : Nat → ConformanceId → DeclaredConformance
  | 0, _ => {}
  | n + 1, c =>
    match p.conformance c with
    | .declared root => root
    | .inherited base _ => p.rootWithin n base

/-- The declared conformance that a conformance is or is inherited from. -/
def rootOf (p : Program) (c : ConformanceId) : DeclaredConformance :=
  p.rootWithin (p.conformances.size + 1) c

/-- The conformance of a type to a protocol: the first declared one of its nominal
declaration, applied to the type; without one, the signature in scope has to provide it. -/
def conformanceOf (p : Program) (t : TypeId) (protocol : DeclId) : ConformanceRef :=
  match p.nominalOf t with
  | none => .fromSignature protocol
  | some nominal =>
    let found := p.conformanceIds.find? fun c =>
      (p.rootOf c).protocol == protocol
        && p.nominalOf (p.conformance c).type == some nominal
    match found with
    | some c => .declared c (p.types.canonical t)
    | none => .fromSignature protocol

/-- Whether a conformance is declared in a module that owns neither the conforming type
nor the protocol. -/
def isRetroactive (p : Program) (c : ConformanceId) : Bool :=
  let root := p.rootOf c
  let own := p.moduleOf (.decl root.context)
  own != (p.nominalOf root.type).bind (fun d => p.moduleOf (.decl d))
    && own != p.moduleOf (.decl root.protocol)

/-! ## Substitutions -/

/-- The replacement of a type that is a parameter of the signature. -/
def replacementOf? (p : Program) (s : GenericSignature) (replacements : List TypeId)
    (subject : TypeId) : Option TypeId :=
  (p.types.node subject).genericParam?.bind fun key =>
    (s.position? key).bind fun i => replacements[i]?

/-- The substitutions with the given replacements: each conformance requirement on a
parameter is met by the conformance of its replacement. -/
def substitutions (p : Program) (s : SignatureId) (replacements : List TypeId) :
    Substitutions where
  signature := s
  replacements := replacements
  conformances := (p.signature s).conformances.map fun (subject, protocol) =>
    match p.replacementOf? (p.signature s) replacements subject with
    | some t => p.conformanceOf t protocol
    | none => .fromSignature protocol

/-- What the substitutions put in the place of a parameter. -/
def replacement? (p : Program) (m : Substitutions) (key : ParamKey) : Option TypeId :=
  ((p.signature m.signature).position? key).bind fun i => m.replacements[i]?

/-- The substitutions that turn the interface type of a nominal declaration into `t`. -/
def substitutionsOf? (p : Program) (t : TypeId) : Option Substitutions :=
  (p.nominalOf t).bind fun d =>
    (p.signatureOf (.decl d)).bind fun s =>
      let args := p.flattenedArgs t
      if args.length = (p.signature s).params.length then some (p.substitutions s args)
      else none

/-- The conformances that the conditions of a conformance need when it is applied to `t`,
each with the type that conforms.  Conditions that the nominal type imposes anyway, and
those that do not ask a parameter to conform, need none. -/
def conditionalConformances (p : Program) (c : ConformanceId) (t : TypeId) :
    List (TypeId × ConformanceRef) :=
  let root := p.rootOf c
  match root.conditional, p.substitutionsOf? t with
  | some conditional, some subs =>
    let imposed :=
      match (p.nominalOf root.type).bind fun d => p.signatureOf (.decl d) with
      | some s => (p.signature s).requirements
      | none => []
    ((p.signature conditional).requirements.filter fun r => !imposed.contains r).filterMap
      fun r => r.conformance?.bind fun (subject, protocol) =>
        (p.types.node subject).genericParam?.bind fun key =>
          (p.replacement? subs key).map fun t => (t, p.conformanceOf t protocol)
  | _, _ => []

/-! ## Conformances of type parameters -/

/-- The protocols a type is directly required to conform to by a signature. -/
def requiredProtocols (p : Program) (s : SignatureId) (t : TypeId) : List DeclId :=
  (p.signature s).requiredProtocols t

/-- A path for the conformance of `t` to `protocol` that goes through at most `n` types: a
requirement of the signature, or for a member `Base.A` an associated conformance of the
protocol of `A`, after a path for `Base`. -/
def accessPathWithin (p : Program) (s : GenericSignature) :
    Nat → TypeId → DeclId → Option (List AccessStep)
  | 0, _, _ => none
  | n + 1, t, protocol =>
    match s.conformances.idxOf? (t, protocol) with
    | some i => some [.root t protocol i]
    | none =>
      (p.types.node t).dependentMember?.bind fun (base, member) =>
        (p.protocolOf? member).bind fun owner =>
          (p.associatedConformances? owner).bind fun associated =>
            (associated.idxOf? ⟨member, protocol⟩).bind fun i =>
              (p.accessPathWithin s n base owner).map (· ++ [.associated t protocol i])

/-- The derivation of the conformance of a type parameter from the requirements of a
signature, from the requirement it starts with to the conformance in question. -/
def accessPath (p : Program) (s : SignatureId) (t : TypeId) (protocol : DeclId) :
    Option (List AccessStep) :=
  p.accessPathWithin (p.signature s) p.types.size t protocol

end NameMangling.Program
