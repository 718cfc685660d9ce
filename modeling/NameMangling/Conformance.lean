/-
# Conformances

A conformance is declared on a nominal type or one of its extensions, or it is inherited:
the use a subclass makes of the conformance of its superclass.
-/
import NameMangling.Types.Attribute

namespace NameMangling

/-- A conformance as declared.  The type is written in the parameters of its nominal
declaration; a conditional conformance has the signature under which it holds. -/
structure DeclaredConformance where
  type : TypeId := .emptyTuple
  protocol : DeclId := ⟨0⟩
  context : DeclId := ⟨0⟩
  conditional : Option SignatureId := none
deriving DecidableEq, Inhabited

/-- A conformance of a type to a protocol. -/
inductive Conformance
  | declared (root : DeclaredConformance)
  | inherited (base : ConformanceId) (type : TypeId)
deriving DecidableEq

instance : Inhabited Conformance := ⟨.declared {}⟩

namespace Conformance

/-- The type that conforms. -/
def type : Conformance → TypeId
  | declared root => root.type
  | inherited _ t => t

end Conformance

/-- One step in deriving that a type parameter conforms to a protocol: a conformance
requirement of the signature, counted among the conformance requirements, or an
associated conformance of the protocol of the step before. -/
inductive AccessStep
  | root (subject : TypeId) (protocol : DeclId) (requirement : Nat)
  | associated (subject : TypeId) (protocol : DeclId) (index : Nat)
deriving DecidableEq, Inhabited

/-- The type that a step of a derivation is about. -/
def AccessStep.subject : AccessStep → TypeId
  | root t _ _ | associated t _ _ => t

/-- The protocol that a step of a derivation leads to. -/
def AccessStep.protocol : AccessStep → DeclId
  | root _ q _ | associated _ q _ => q

end NameMangling
