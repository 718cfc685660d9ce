/-
# Refusals

Why a symbol cannot be formed.  `Refusal.message` gives the reason in words.
-/
import NameMangling.Types.Attribute

namespace NameMangling

/-- What a declaration was expected to be. -/
inductive DeclExpectation
  | insideModule | aModule | nominalOrAlias | aProtocol | anOpaqueResult
  | associatedType | knownConformance | typed | storage
  | aConstructor | aDestructor | aClass | aProperty | functionTyped
  | aNominal | opaqueNaming | typeContext
deriving DecidableEq, Inhabited

/-- An expectation in words. -/
def DeclExpectation.text : DeclExpectation → String
  | insideModule => "a declaration inside a module"
  | aModule => "a module"
  | nominalOrAlias => "a nominal type or type alias"
  | aProtocol => "a protocol"
  | anOpaqueResult => "an opaque type declaration"
  | associatedType => "an associated type of a protocol"
  | knownConformance => "a conformance with a known conforming type"
  | typed => "a declaration with an interface type"
  | storage => "a property or subscript"
  | aConstructor => "a constructor"
  | aDestructor => "a destructor"
  | aClass => "a class"
  | aProperty => "a variable"
  | functionTyped => "a declaration with a function type"
  | aNominal => "a nominal type"
  | opaqueNaming => "a declaration with an opaque result type"
  | typeContext => "a nominal type or extension"

/-- What a type was expected to be. -/
inductive TypeExpectation
  | genericParam | nominal | tuple | function | lowered | metatype | existentialMetatype
  | existential | dependentMember | opaqueResult | structural
deriving DecidableEq, Inhabited

/-- An expectation in words. -/
def TypeExpectation.text : TypeExpectation → String
  | genericParam => "a generic parameter"
  | nominal => "a nominal type"
  | tuple => "a tuple"
  | function => "a function type"
  | lowered => "a lowered function type"
  | metatype => "a metatype"
  | existentialMetatype => "an existential metatype"
  | existential => "an existential"
  | dependentMember => "a dependent member type"
  | opaqueResult => "an opaque type"
  | structural => "a structural type"

/-- The reasons for which a symbol cannot be formed. -/
inductive Refusal
  | nonCanonicalType (type : TypeId)
  | ineligibleReferent (decl : DeclId)
  | namelessEntity (decl : DeclId)
  | unexpectedEntity (decl : DeclId) (expected : DeclExpectation)
  | unexpectedType (type : TypeId) (expected : TypeExpectation)
  | unboundParameter (key : ParamKey)
  | missingConformancePath (type : TypeId) (protocol : DeclId)
  | emptyPatternEntry (entry : Nat)
  | invalidIndex (index length : Nat)
deriving DecidableEq, Inhabited

namespace Refusal

/-- A refusal in words. -/
def message : Refusal → String
  | nonCanonicalType t => "type " ++ t.debugText ++ " is not canonical"
  | ineligibleReferent d =>
    "declaration " ++ d.debugText ++ " cannot be referenced symbolically"
  | namelessEntity d =>
    "declaration " ++ d.debugText ++ " has no name and nameless entities are not allowed"
  | unexpectedEntity d expected =>
    "declaration " ++ d.debugText ++ " is not " ++ expected.text
  | unexpectedType t expected => "type " ++ t.debugText ++ " is not " ++ expected.text
  | unboundParameter key =>
    "generic parameter τ_" ++ toString key.depth ++ "_" ++ toString key.index ++ " is not bound"
  | missingConformancePath t protocol =>
    "no conformance path for " ++ t.debugText ++ " to protocol " ++ protocol.debugText
  | emptyPatternEntry entry =>
    "pattern binding entry " ++ toString entry ++ " binds no variables"
  | invalidIndex index length =>
    "index " ++ toString index ++ " is out of range for " ++ toString length ++ " entries"

end Refusal

end NameMangling
