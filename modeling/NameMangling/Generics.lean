/-
# Generic signatures

A generic signature lists the generic parameters in scope, those of the enclosing
declarations included, and the requirements on them.

Main definitions:
* `GenericSignature.ofParams`, which puts the parameters in order and drops repetitions;
* `SignatureDelta.between`, what a signature adds to that of its context;
* `Substitutions`, a choice of types and conformances for a signature.
-/
import NameMangling.Ordered
import NameMangling.Types.Attribute

namespace NameMangling

/-- A layout constraint on a type parameter. -/
inductive Layout
  | unknown | refCounted | nativeRefCounted | classBound | nativeClassBound | trivial
  | exactSize (bits : Nat)
  | atMostSize (bits : Nat)
deriving DecidableEq, Inhabited

/-- What a requirement demands of its subject. -/
inductive Demand
  | conformance (protocol : DeclId)
  | sameType (other : TypeId)
  | superclass (bound : TypeId)
  | layout (constraint : Layout)
deriving DecidableEq, Inhabited

/-- A demand on a type parameter. -/
structure Requirement where
  subject : TypeId
  demand : Demand
deriving DecidableEq, Inhabited

namespace Requirement

/-- The subject and the protocol of a conformance requirement. -/
def conformance? (r : Requirement) : Option (TypeId × DeclId) :=
  match r.demand with
  | .conformance protocol => some (r.subject, protocol)
  | _ => none

end Requirement

/-- Generic parameters in order, each there once, and the requirements on them. -/
@[ext]
structure GenericSignature where
  params : List ParamKey
  requirements : List Requirement
  ordered : params.Pairwise (ParamKey.before · ·) := by simp
deriving DecidableEq

namespace GenericSignature

instance : Inhabited GenericSignature := ⟨{ params := [], requirements := [] }⟩

/-- The signature with these parameters, in whatever order they are given. -/
def ofParams (params : List ParamKey) (requirements : List Requirement) : GenericSignature where
  params := Ordered.distinct ParamKey.before params
  requirements := requirements
  ordered := Ordered.pairwise_distinct ParamKey.before_trans ParamKey.before_total params

/-- The place of a parameter among all parameters, which are in order. -/
def position? (s : GenericSignature) (key : ParamKey) : Option Nat :=
  Ordered.search? ParamKey.before key s.params

/-- Whether a parameter belongs to the signature. -/
def contains (s : GenericSignature) (key : ParamKey) : Bool := (s.position? key).isSome

/-- The depth of the innermost parameter. -/
def maxDepth? (s : GenericSignature) : Option Nat := s.params.getLast?.map (·.depth)

/-- The conformance requirements, as subject and protocol. -/
def conformances (s : GenericSignature) : List (TypeId × DeclId) :=
  s.requirements.filterMap Requirement.conformance?

/-- The protocols a type is directly required to conform to. -/
def requiredProtocols (s : GenericSignature) (subject : TypeId) : List DeclId :=
  s.conformances.filterMap fun c => if c.1 = subject then some c.2 else none

end GenericSignature

/-! ## Deltas -/

/-- The parameters and requirements of a signature beyond those of its context. -/
structure SignatureDelta where
  params : List ParamKey
  requirements : List Requirement
deriving DecidableEq, Inhabited

namespace SignatureDelta

/-- What `s` adds to the signature of its context; without a context, all of it. -/
def between (s : GenericSignature) : Option GenericSignature → SignatureDelta
  | none => ⟨s.params, s.requirements⟩
  | some context =>
    { params := s.params.filter fun key => !context.contains key
      requirements := s.requirements.filter fun r => !context.requirements.contains r }

/-- Whether nothing is added. -/
def isEmpty (d : SignatureDelta) : Bool := d.params.isEmpty && d.requirements.isEmpty

/-- The number of new parameters at each depth, from the shallowest new depth to the
deepest.  A number that does not fit a word is cut off. -/
def countsPerDepth (d : SignatureDelta) : List UInt32 :=
  match d.params.head?, d.params.getLast? with
  | some first, some last =>
    (List.range (last.depth + 1 - first.depth)).map fun i =>
      .ofNatClamp (d.params.countP fun key => key.depth == first.depth + i)
  | _, _ => []

end SignatureDelta

/-! ## Substitutions -/

/-- How a conformance is found: through the signature in scope, or as a declared
conformance applied to a type. -/
inductive ConformanceRef
  | fromSignature (protocol : DeclId)
  | declared (conformance : ConformanceId) (type : TypeId)
deriving DecidableEq, Inhabited

/-- A replacement for each parameter of a signature, and a conformance for each of its
conformance requirements. -/
structure Substitutions where
  signature : SignatureId
  replacements : List TypeId
  conformances : List ConformanceRef
deriving DecidableEq, Inhabited

end NameMangling
