/-
# Encoders are scoped and only append

Every encoder of the grammar, run on any session and to any depth, leaves the scopes and
the mode of the session as they were, whether it succeeds or fails half-way, and only adds
to its text, its ledger and its numbers.

Main definitions:
* `Encoding`, the encoders, with what they are given;
* `Session.Kept`, what they leave, and the main fact `Encoding.kept`.
-/
import NameMangling.Proofs.Sessions

namespace NameMangling

/-- The encoders of the grammar. -/
inductive Encoding
  -- names, modules and nominal declarations
  | declName (d : DeclId)
  | contextOf (d : DeclId)
  | moduleDecl (d : DeclId)
  | moduleOf (d : DeclId)
  | nominal (d : DeclId)
  | protocol (d : DeclId)
  | opaqueDecl (d : DeclId)
  -- generic parameters and signatures
  | genericParam (key : ParamKey)
  | requirement (r : Requirement)
  | signature (s : SignatureId) (context : Option SignatureId)
  -- conformances
  | protocolConformance (c : ConformanceId)
  | declaredConformance (c : ConformanceId) (t : TypeId)
  | derivedConformance (subject : TypeId) (protocol : DeclId)
  | conformance (subject : Option TypeId) (ref : ConformanceRef)
  | retroactive (refs : List (ConformanceRef × Nat))
  -- types
  | parameters (ps : List Parameter) (labels : List (Option Name))
  | function (t : TypeId) (labels : List (Option Name))
  | lowered (f : LoweredFunction)
  | argLevel (args : List TypeId)
  | boundGeneric (t : TypeId) (n : NominalType)
  | tuple (elements : List TupleElement)
  | composition (c : Composition)
  | dependentMember (base : TypeId) (member : DeclId)
  | opaqueResult (d : DeclId) (ordinal : Nat) (args : List TypeId)
  | structural (t : TypeId)
  | aliased (d : DeclId) (underlying : TypeId)
  | type (t : TypeId)
  -- entities and contexts
  | declType (d : DeclId)
  | value (d : DeclId) (isNamed : Bool) (operator : Operator)
  | constructor (d : DeclId) (allocating : Bool)
  | destructor (d : DeclId) (deallocating : Bool)
  | entity (d : DeclId)
  | closure (c : ClosureId)
  | accessor (storage : DeclId) (kind : AccessorKind)
  | extension (d extended : DeclId)
  | declContext (d : DeclId)
  | context (c : Context)
  | phrase (p : Phrase)

namespace Encoding

/-- Run an encoder, where `unfold` writes the phrases in what it writes. -/
def run (unfold : Phrase → Encoder Unit) : Encoding → Encoder Unit
  | declName d => Encoder.declName d
  | contextOf d => Encoder.contextOf unfold d
  | moduleDecl d => Encoder.moduleDecl unfold d
  | moduleOf d => Encoder.moduleOf unfold d
  | nominal d => Encoder.nominal unfold d
  | protocol d => Encoder.protocol unfold d
  | opaqueDecl d => Encoder.opaqueDecl unfold d
  | genericParam key => Encoder.genericParam key
  | requirement r => Encoder.requirement unfold r
  | signature s outer => do let _ ← Encoder.signature unfold s outer
  | protocolConformance c => Encoder.protocolConformance unfold c
  | declaredConformance c t => Encoder.declaredConformance unfold c t
  | derivedConformance subject p => Encoder.derivedConformance unfold subject p
  | conformance subject ref => Encoder.conformance unfold subject ref
  | retroactive refs => Encoder.retroactive unfold refs
  | parameters ps labels => Encoder.parameters unfold ps labels
  | function t labels => Encoder.function unfold t labels
  | lowered f => Encoder.lowered unfold f
  | argLevel args => Encoder.argLevel unfold args
  | boundGeneric t n => Encoder.boundGeneric unfold t n
  | tuple elements => Encoder.tuple unfold elements
  | composition c => Encoder.composition unfold c
  | dependentMember base member => Encoder.dependentMember unfold base member
  | opaqueResult d ordinal args => Encoder.opaqueResult unfold d ordinal args
  | structural t => Encoder.structural unfold t
  | aliased d underlying => Encoder.aliased unfold d underlying
  | type t => Encoder.type unfold t
  | declType d => Encoder.declType unfold d
  | value d isNamed operator => Encoder.value unfold d isNamed operator
  | constructor d allocating => Encoder.constructor unfold d allocating
  | destructor d deallocating => Encoder.destructor unfold d deallocating
  | entity d => Encoder.entity unfold d
  | closure c => Encoder.closure unfold c
  | accessor storage kind => Encoder.accessor unfold storage kind
  | extension d extended => Encoder.extension unfold d extended
  | declContext d => Encoder.declContext unfold d
  | context c => Encoder.context unfold c
  | phrase p => Encoder.phrase unfold p

/-- What an encoder writes is spelled by some pieces. -/
theorem implements {copies : Prop} {g : Grammar} {w : Spelling} {depth : Nat}
    {unfold : Phrase → Encoder Unit} (hu : Encoder.Unfolds copies g w depth unfold)
    (scope : Scope) (e : Encoding) :
    ∃ ps, Encoder.Implements copies g w depth scope (e.run unfold) ps () := by
  cases e with
  | declName d => exact ⟨_, Encoder.implements_declName d⟩
  | contextOf d => exact ⟨_, Encoder.implements_contextOf hu d⟩
  | moduleDecl d => exact ⟨_, Encoder.implements_moduleDecl hu d⟩
  | moduleOf d => exact ⟨_, Encoder.implements_moduleOf hu d⟩
  | nominal d => exact ⟨_, Encoder.implements_nominal hu d⟩
  | protocol d => exact ⟨_, Encoder.implements_protocol hu d⟩
  | opaqueDecl d => exact ⟨_, Encoder.implements_opaqueDecl hu d⟩
  | genericParam key => exact ⟨_, Encoder.implements_genericParam key⟩
  | requirement r => exact ⟨_, Encoder.implements_requirement hu r⟩
  | signature s outer => exact ⟨_, .andReturn (Encoder.implements_signature hu s outer) ()⟩
  | protocolConformance c => exact ⟨_, Encoder.implements_protocolConformance hu c⟩
  | declaredConformance c t => exact ⟨_, Encoder.implements_declaredConformance hu c t⟩
  | derivedConformance subject p => exact ⟨_, Encoder.implements_derivedConformance hu subject p⟩
  | conformance subject ref => exact ⟨_, Encoder.implements_conformance hu subject ref⟩
  | retroactive refs => exact ⟨_, Encoder.implements_retroactive hu refs⟩
  | parameters ps labels => exact ⟨_, Encoder.implements_parameters hu ps labels⟩
  | function t labels => exact ⟨_, Encoder.implements_function hu t labels⟩
  | lowered f => exact ⟨_, Encoder.implements_lowered hu f⟩
  | argLevel args => exact ⟨_, Encoder.implements_argLevel hu args⟩
  | boundGeneric t n => exact ⟨_, Encoder.implements_boundGeneric hu t n⟩
  | tuple elements => exact ⟨_, Encoder.implements_tuple hu elements⟩
  | composition c => exact ⟨_, Encoder.implements_composition hu c⟩
  | dependentMember base member => exact ⟨_, Encoder.implements_dependentMember hu base member⟩
  | opaqueResult d ordinal args => exact ⟨_, Encoder.implements_opaqueResult hu d ordinal args⟩
  | structural t => exact ⟨_, Encoder.implements_structural hu t⟩
  | aliased d underlying => exact ⟨_, Encoder.implements_aliased hu d underlying⟩
  | type t => exact ⟨_, Encoder.implements_type hu t⟩
  | declType d => exact ⟨_, Encoder.implements_declType hu d⟩
  | value d isNamed operator => exact ⟨_, Encoder.implements_value hu d isNamed operator⟩
  | constructor d allocating => exact ⟨_, Encoder.implements_constructor hu d allocating⟩
  | destructor d deallocating => exact ⟨_, Encoder.implements_destructor hu d deallocating⟩
  | entity d => exact ⟨_, Encoder.implements_entity hu d⟩
  | closure c => exact ⟨_, Encoder.implements_closure hu c⟩
  | accessor storage kind => exact ⟨_, Encoder.implements_accessor hu storage kind⟩
  | extension d extended => exact ⟨_, Encoder.implements_extension hu d extended⟩
  | declContext d => exact ⟨_, Encoder.implements_declContext hu d⟩
  | context c => exact ⟨_, Encoder.implements_context hu c⟩
  | phrase p => exact ⟨_, Encoder.implements_phrase hu p⟩

end Encoding

namespace Session

/-- What encoders keep: scopes and mode are as they were; text and ledger begin with what
they were; a node that has a number keeps it; and if the numbers in use are those below
the number of nodes, they still are. -/
structure Kept (s s' : Session) : Prop extends SameScope s s' where
  text : s.text.toList <+: s'.text.toList
  ledger : s.ledger <+: s'.ledger
  numbers : ∀ key n, s.nodes.number? key = some n → s'.nodes.number? key = some n
  dense : s.nodes.Dense → s'.nodes.Dense

/-- A frame keeps all that a failed request has to leave as it was. -/
theorem Frame.keeps {copies : Prop} {s s' : Session} (h : s.Frame copies s') : s.Kept s' where
  toSameScope := h.toSameScope
  text := by
    obtain ⟨ts, -, hwrote⟩ := h.wrote
    rw [hwrote.text, String.toList_append]
    exact List.prefix_append _ _
  ledger := by
    obtain ⟨ts, -, hwrote⟩ := h.wrote
    rw [hwrote.ledger]
    exact List.prefix_append _ _
  numbers := h.numbers
  dense := h.dense

end Session

/-- Every encoder is scoped and only appends, on success and on failure. -/
theorem Encoding.kept (e : Encoding) (depth : Nat) (s : Session) :
    s.Kept ((e.run (Encoder.encode depth)).after s) := by
  obtain ⟨ps, himplements⟩ := e.implements
    (Encoder.encode_unfolds False s.grammar s.spelling depth) s.scope
  exact (himplements.frame ⟨rfl, rfl, rfl⟩).keeps

end NameMangling
