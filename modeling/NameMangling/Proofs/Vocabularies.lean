/-
# What phrases name

Every phrase names something: a type, a declaration, a context, a conformance, and the
signature and the declaration of its scope.  A vocabulary says which of these may be named.
It is closed for a program if what the program says of the things in it leads to nothing
outside; then the production of a phrase in the vocabulary opens phrases in the vocabulary
only, however types, declarations, conformances and signatures lead to each other.

Two kinds of types are told apart: those that may be spelled at all, and the parts, those that
may be spelled out as nodes or be what a conformance is about.

Main definitions: `Vocabulary`, `Vocabulary.Has`, `Vocabulary.Closed`.

Main fact: `Vocabulary.Closed.production`.
-/
import NameMangling.Proofs.AccessPaths
import NameMangling.Proofs.Rewording
import NameMangling.Proofs.TypeDepth

namespace NameMangling

/-- What phrases may name. -/
structure Vocabulary where
  type : TypeId → Prop
  part : TypeId → Prop
  decl : DeclId → Prop
  context : Context → Prop
  signature : Option SignatureId → Prop
  owner : Option DeclId → Prop

/-- The types that a requirement is about. -/
def Requirement.operands (r : Requirement) : List TypeId :=
  match r.demand with
  | .sameType other => [r.subject, other]
  | .superclass bound => [r.subject, bound]
  | .conformance _ | .layout _ => [r.subject]

/-- The declaration that an expression or a body belongs to, or the context itself. -/
def Context.decl? : Context → Option DeclId
  | decl d | initializer d | defaultArgument d _ | accessor d _ => some d
  | closure _ => none

namespace Vocabulary

variable (V : Vocabulary)

/-- A scope in the vocabulary. -/
structure HasScope (scope : Scope) : Prop where
  signature : V.signature scope.signature
  owner : V.owner scope.owner

/-- A conformance in the vocabulary: one of a part, or one that is left to the signature. -/
def HasRef (p : Program) : ConformanceRef → Prop
  | .fromSignature _ => True
  | .declared c t => c.index < p.conformances.size ∧ V.part t

/-- A phrase in the vocabulary. -/
def HasPhrase (p : Program) : Phrase → Prop
  | .type t => V.type t
  | .context c => V.context c
  | .conformance subject ref => (∀ t ∈ subject, V.part t) ∧ V.HasRef p ref
  | .body (.type t) => V.part t
  | .body (.decl d) => V.decl d

/-- A phrase in the vocabulary, in a scope in the vocabulary. -/
def Has (p : Program) (scope : Scope) (phrase : Phrase) : Prop :=
  V.HasScope scope ∧ V.HasPhrase p phrase

/-- Nothing that a program says of the things in the vocabulary leads outside. -/
structure Closed (p : Program) : Prop where
  type_of_part : ∀ t, V.part t → V.type t
  part_of_type : ∀ t, V.type t → (p.types.kind t).isStructural = true → V.part t
  child : ∀ t, V.part t → ∀ u ∈ (p.types.node t).children, V.part u
  desugared : ∀ t u, V.type t → (p.types.node t).desugared? = some u → V.type u
  canonical : ∀ t, V.part (p.types.canonical t)
  interface : ∀ d t, (p.decl d).interfaceType = some t → V.type t
  closure : ∀ c, V.type (p.closure c).type
  operand : ∀ s, ∀ r ∈ (p.signature s).requirements, ∀ t ∈ r.operands, V.type t
  added : ∀ d, d.index < p.decls.size → V.decl d
  conforming : ∀ c, c.index < p.conformances.size → V.decl (p.rootOf c).context
  module : ∀ d m, V.decl d → p.moduleOf (.decl d) = some m → V.decl m
  decl_of_context : ∀ d, V.context (.decl d) → V.decl d
  decl_context : ∀ c d, V.context c → c.decl? = some d → V.context (.decl d)
  parent : ∀ d c, (p.decl d).parent = some c → V.context c
  closureParent : ∀ c, V.context (p.closure c).parent
  naming : ∀ d n, p.kindOf d = .opaqueResult n → V.context (.decl n)
  noSignature : V.signature none
  ownSignature : ∀ d, V.signature (p.decl d).signature
  owner : ∀ d t, (p.decl d).interfaceType = some t → V.owner (some d)

end Vocabulary

/-! ## What the program leads to -/

namespace Program

variable {p : Program} {t u : TypeId}

/-- A signature in scope is none, or it is that of a declaration. -/
theorem signatureOf_eq (p : Program) (c : Context) :
    p.signatureOf c = none ∨ ∃ d, p.signatureOf c = (p.decl d).signature := by
  cases hsignature : p.signatureOf c with
  | none => exact .inl rfl
  | some s =>
    right
    obtain ⟨x, -, hx⟩ := List.exists_of_findSome?_eq_some hsignature
    unfold ownSignature? at hx
    split at hx
    · rename_i d
      split at hx
      · cases hx
      · exact ⟨d, hx.symm⟩
    · cases hx

/-- A declaration that is not a native module has been added. -/
theorem lt_of_kindOf_ne {d : DeclId} (h : p.kindOf d ≠ .nativeModule) :
    d.index < p.decls.size := by
  by_contra hd
  rw [kindOf, decl_of_size_le (Nat.le_of_not_lt hd)] at h
  exact h rfl

end Program

namespace Vocabulary.Closed

variable {V : Vocabulary} {p : Program} {t u : TypeId} (h : V.Closed p)
include h

/-- The signature of a context is that of the context itself or of one around it. -/
theorem hasSignatureOf (c : Context) : V.signature (p.signatureOf c) := by
  rcases p.signatureOf_eq c with hnone | ⟨d, hd⟩
  · rw [hnone]
    exact h.noSignature
  · rw [hd]
    exact h.ownSignature d

theorem decl_of_kindOf_ne {d : DeclId} (hkind : p.kindOf d ≠ .nativeModule) : V.decl d :=
  h.added d (Program.lt_of_kindOf_ne hkind)

/-- The arguments of a part and of the types it is nested in are parts. -/
theorem part_of_mem_argLevelsUp {n : Nat} (ht : V.part t) {args : List TypeId}
    (hargs : args ∈ p.argLevelsUp n t) (hu : u ∈ args) : V.part u := by
  induction n generalizing t with
  | zero => cases hargs
  | succ n ih =>
    rw [Program.argLevelsUp] at hargs
    cases hnominal : (p.types.node t).nominal? with
    | none =>
      rw [hnominal] at hargs
      cases hargs
    | some nominal =>
      have hchildren := Program.nominal_children hnominal
      simp only [hnominal, List.mem_cons] at hargs
      rcases hargs with rfl | hargs
      · exact h.child t ht u (by simp [hchildren, hu])
      · cases hparent : nominal.parent with
        | none =>
          rw [hparent] at hargs
          cases hargs
        | some v =>
          rw [hparent] at hargs
          exact ih (h.child t ht v (by simp [hchildren, hparent])) hargs

theorem part_of_mem_argLevels (ht : V.part t) {args : List TypeId} (hargs : args ∈ p.argLevels t)
    (hu : u ∈ args) : V.part u :=
  h.part_of_mem_argLevelsUp ht (List.mem_reverse.mp hargs) hu

theorem part_of_mem_flattenedArgs (hu : u ∈ p.flattenedArgs t) : V.part u := by
  obtain ⟨args, hargs, hu⟩ := List.mem_flatten.mp hu
  exact h.part_of_mem_argLevels (h.canonical t) hargs hu

/-- The conformance of a type that is found is about its canonical form. -/
theorem hasRef_conformanceOf (t : TypeId) (protocol : DeclId) :
    V.HasRef p (p.conformanceOf t protocol) := by
  unfold Program.conformanceOf
  split
  · trivial
  · dsimp only
    split
    · rename_i c hfound
      have hmem := List.mem_of_find?_eq_some hfound
      exact ⟨Program.mem_conformanceIds.mp hmem, h.canonical t⟩
    · trivial

/-- The conformances of substitutions are conformances of arguments, or left to the signature. -/
theorem hasRef_substitutions {s : SignatureId} {args : List TypeId} {ref : ConformanceRef}
    (href : ref ∈ (p.substitutions s args).conformances) : V.HasRef p ref := by
  obtain ⟨⟨subject, protocol⟩, -, rfl⟩ := List.mem_map.mp href
  dsimp only
  split
  · exact h.hasRef_conformanceOf _ _
  · trivial

/-- The conformances that conditions need are about arguments of the type. -/
theorem has_conditional {c : ConformanceId} {x : TypeId × ConformanceRef}
    (hx : x ∈ p.conditionalConformances c t) : V.part x.1 ∧ V.HasRef p x.2 := by
  unfold Program.conditionalConformances at hx
  dsimp only at hx
  split at hx
  · rename_i conditional subs hconditional hsubs
    obtain ⟨s, rfl⟩ := Program.substitutionsOf?_eq_some hsubs
    obtain ⟨r, -, hr⟩ := List.mem_filterMap.mp hx
    obtain ⟨⟨subject, protocol⟩, -, hr⟩ := Option.bind_eq_some_iff.mp hr
    obtain ⟨key, -, hr⟩ := Option.bind_eq_some_iff.mp hr
    obtain ⟨u, hu, rfl⟩ := Option.map_eq_some_iff.mp hr
    obtain ⟨i, -, hu⟩ := Option.bind_eq_some_iff.mp hu
    exact ⟨h.part_of_mem_flattenedArgs (List.mem_of_getElem? hu), h.hasRef_conformanceOf u protocol⟩
  · cases hx

/-- The path for a conformance of a part goes through parts. -/
theorem part_of_mem_accessPathWithin {s : GenericSignature} {n : Nat} {protocol : DeclId}
    {path : List AccessStep} (ht : V.part t)
    (hpath : p.accessPathWithin s n t protocol = some path) {step : AccessStep}
    (hstep : step ∈ path) : V.part step.subject := by
  induction n generalizing t protocol path with
  | zero => cases hpath
  | succ n ih =>
    cases hroot : s.conformances.idxOf? (t, protocol) with
    | some i =>
      rw [Program.accessPathWithin_of_idxOf? hroot] at hpath
      cases hpath
      rw [List.mem_singleton] at hstep
      exact hstep ▸ ht
    | none =>
      obtain ⟨base, member, owner, associated, i, front, hmember, -, hfront, rfl⟩ :=
        (Program.accessPathWithin_succ_iff hroot).1 hpath
      rcases List.mem_append.mp hstep with hstep | hstep
      · have hbase : base ∈ (p.types.node t).children := by
          rw [hmember.node]
          exact List.mem_cons_self
        exact ih (h.child t ht base hbase) hfront hstep
      · rw [List.mem_singleton] at hstep
        exact hstep ▸ ht

end Vocabulary.Closed

/-! ## What productions open: the rest -/

/-- A row under a condition opens what either of its branches opens. -/
theorem Opens.ite {P : Scope → Phrase → Prop} {c : Prop} [Decidable c] {ps qs : List Piece}
    (hps : Opens P ps) (hqs : Opens P qs) : Opens P (if c then ps else qs) := by
  split
  · exact hps
  · exact hqs

namespace Grammar

variable {g : Grammar} {P : Scope → Phrase → Prop} {scope : Scope} {d : DeclId} {t : TypeId}

/-- A generic parameter is tokens or a refusal, and opens nothing. -/
theorem opens_genericParam (key : ParamKey) : Opens P (g.genericParam scope key) := by
  unfold genericParam
  dsimp only
  split
  · exact .map fun _ _ => trivial
  · exact .fail _

/-- A requirement opens the types that it is about, and a protocol. -/
theorem opens_requirement {r : Requirement} (htypes : ∀ u ∈ r.operands, P scope (.type u))
    (hprotocol : ∀ d, Opens P (g.protocol scope d)) : Opens P (g.requirement scope r) := by
  unfold requirement
  cases hdemand : r.demand with
  | conformance protocol =>
    exact .cons (htypes _ (by simp [Requirement.operands, hdemand]))
      (.append (hprotocol protocol) (.op _ .nil))
  | sameType other =>
    exact .cons (htypes _ (by simp [Requirement.operands, hdemand]))
      (.cons (htypes _ (by simp [Requirement.operands, hdemand])) (.op _ .nil))
  | superclass bound =>
    exact .cons (htypes _ (by simp [Requirement.operands, hdemand]))
      (.cons (htypes _ (by simp [Requirement.operands, hdemand])) (.op _ .nil))
  | layout constraint =>
    exact .cons (htypes _ (by simp [Requirement.operands, hdemand]))
      (.op _ (.map fun _ _ => trivial))

/-- What a signature adds is among its requirements. -/
theorem mem_requirements_of_mem_delta {s : SignatureId} {context : Option SignatureId}
    {r : Requirement} (hr : r ∈ (g.delta s context).requirements) :
    r ∈ (g.program.signature s).requirements := by
  unfold delta SignatureDelta.between at hr
  cases context with
  | none => exact hr
  | some outer => exact (List.mem_filter.mp hr).1

/-- A signature opens its requirements, with itself in scope. -/
theorem opens_signature {s : SignatureId} {context : Option SignatureId}
    (h : ∀ r ∈ (g.program.signature s).requirements,
      Opens P (g.requirement { scope with signature := some s } r)) :
    Opens P (g.signature scope s context) := by
  unfold signature
  dsimp only
  split
  · exact .nil
  · refine .append (.append (.flatMap fun r hr => ?_) (.map fun _ _ => trivial)) (.op _ .nil)
    exact h r (mem_requirements_of_mem_delta hr)

/-- A step of a derived conformance opens its subject and its protocol. -/
theorem opens_conformanceStep {step : AccessStep} (htype : P scope (.type step.subject))
    (hprotocol : ∀ d, Opens P (g.protocol scope d)) :
    Opens P (g.conformanceStep scope step) := by
  cases step with
  | root subject protocol i => exact .cons htype (.append (hprotocol _) (.op _ (.token _ .nil)))
  | associated subject protocol i =>
    exact .cons htype (.append (hprotocol _) (.op _ (.token _ .nil)))

/-- The declaration of an opaque result opens its own body. -/
theorem opens_opaqueDecl (h : g.program.kindOf d ≠ .nativeModule → P scope (.body (.decl d))) :
    Opens P (g.opaqueDecl scope d) := by
  unfold opaqueDecl
  split
  · rename_i hkind
    split
    · exact .cons (h (by rw [hkind]; nofun)) .nil
    · exact .fail _
  · exact .fail _

/-- The type of a declaration opens the type itself, or its parts if it is a function, and the
requirements. -/
theorem opens_declType
    (htype : ∀ t, (g.program.decl d).interfaceType = some t → P (g.declScope d) (.type t))
    (hparts : ∀ t, (g.program.decl d).interfaceType = some t → g.program.types.kind t = .function →
      ∀ u ∈ (g.program.types.node t).children, P (g.declScope d) (.type u))
    (hsignature : ∀ s, (g.program.decl d).signature = some s →
      Opens P (g.signature scope s (g.program.outerSignature d))) :
    Opens P (g.declType scope d) := by
  unfold declType
  split
  · exact .fail _
  · rename_i t ht
    refine .append (.append ?_ ?_) (.ite (.op _ .nil) .nil)
    · by_cases hkind : (g.program.types.kind t == .function) = true
      · rw [if_pos hkind]
        exact opens_function (hparts t ht (by simpa using hkind)) _
      · rw [if_neg hkind]
        exact .cons (htype t ht) .nil
    · cases hs : (g.program.decl d).signature with
      | none => exact .nil
      | some s => exact hsignature s hs

theorem opens_staticMark (d : DeclId) : Opens P (g.staticMark d) := .ite (.op _ .nil) .nil

/-- A declaration as an entity opens the context around it and its type, or it is a context or
an opaque result type. -/
theorem opens_entity (hcontext : Opens P (g.contextOf scope d))
    (htype : Opens P (g.declType scope d)) (hresult : Opens P (g.opaqueDecl scope d))
    (hself : P scope (.context (.decl d))) : Opens P (g.entity scope d) := by
  have hvalue (isNamed : Bool) (o : Operator) : Opens P (g.value scope d isNamed o) := by
    have hname : Opens P (if isNamed then g.declName d else []) := .ite (opens_declName d) .nil
    exact .append (.append (.append hcontext hname) htype) (.op _ (opens_staticMark d))
  unfold entity
  cases g.program.kindOf d with
  | func | property | subscript | enumElement => exact hvalue _ _
  | constructor => exact .append (.append hcontext htype) (.op _ .nil)
  | destructor => exact .append hcontext (.op _ .nil)
  | associatedType => exact .append (.append hcontext (opens_declName d)) (.op _ .nil)
  | opaqueResult => exact hresult
  | nativeModule | foreignModule | structType | enumType | classType | protocolType | typeAlias
    | extension => exact .cons hself .nil

/-- An accessor opens the context and the type of its storage. -/
theorem opens_accessor {kind : AccessorKind} (hcontext : Opens P (g.contextOf scope d))
    (htype : Opens P (g.declType scope d)) : Opens P (g.accessor scope d kind) := by
  unfold accessor
  dsimp only
  split
  · exact .append (.append hcontext (opens_declName d))
      (.append htype (.op _ (.op _ (opens_staticMark d))))
  · exact .append hcontext (.append htype (.op _ (.op _ (opens_staticMark d))))
  · exact .fail _

/-- An extension opens what it extends, its module and the signature it adds. -/
theorem opens_extension {extended : DeclId} (hnominal : Opens P (g.nominal scope extended))
    (hmodule : Opens P (g.moduleOf scope d))
    (hsignature : ∀ s context, (g.program.decl d).signature = some s →
      Opens P (g.signature scope s context)) :
    Opens P (g.extension scope d extended) := by
  refine .append hnominal (.ite .nil (.append (.append hmodule ?_) (.op _ .nil)))
  cases hs : (g.program.decl d).signature with
  | none => exact .nil
  | some s => exact hsignature s _ hs

end Grammar

/-! ## Closed vocabularies -/

namespace Vocabulary.Closed

variable {V : Vocabulary} {g : Grammar} {scope : Scope} {d : DeclId} {t : TypeId}
variable (h : V.Closed g.program)
include h

section

variable (hscope : V.HasScope scope)
include hscope

/-- A nominal declaration has an operator, so that it is no module and in the vocabulary. -/
theorem nominal (d : DeclId) : Opens (V.Has g.program) (g.nominal scope d) :=
  Grammar.opens_nominal fun hoperator => ⟨hscope, h.decl_of_kindOf_ne fun hkind => by
    rw [hkind] at hoperator
    cases hoperator⟩

/-- A protocol is no module, so that it is in the vocabulary. -/
theorem protocol (d : DeclId) : Opens (V.Has g.program) (g.protocol scope d) :=
  Grammar.opens_protocol fun hprotocol => ⟨hscope, h.decl_of_kindOf_ne fun hkind => by
    rw [hkind] at hprotocol
    cases hprotocol⟩

theorem opaqueDecl (d : DeclId) : Opens (V.Has g.program) (g.opaqueDecl scope d) :=
  Grammar.opens_opaqueDecl fun hkind => ⟨hscope, h.decl_of_kindOf_ne hkind⟩

theorem contextOf (d : DeclId) : Opens (V.Has g.program) (g.contextOf scope d) :=
  Grammar.opens_contextOf fun c hc => ⟨hscope, h.parent d c hc⟩

theorem moduleOf (hd : V.decl d) : Opens (V.Has g.program) (g.moduleOf scope d) :=
  Grammar.opens_moduleOf fun m hm _ => ⟨hscope, h.module d m hd hm⟩

/-- A signature opens what its requirements are about. -/
theorem signature {s : SignatureId} (hs : V.signature (some s)) (context : Option SignatureId) :
    Opens (V.Has g.program) (g.signature scope s context) := by
  have hsigned : V.HasScope { scope with signature := some s } := ⟨hs, hscope.owner⟩
  exact Grammar.opens_signature fun r hr => Grammar.opens_requirement
    (fun u hu => ⟨hsigned, h.operand s r hr u hu⟩) (h.protocol hsigned)

/-- A signature that may be missing opens nothing where it is missing. -/
theorem signatureIfAny {s : Option SignatureId} (hs : V.signature s) :
    Opens (V.Has g.program) (g.signatureIfAny scope s) := by
  cases s with
  | none => exact .nil
  | some s => exact h.signature hscope hs none

/-- The type of a declaration is in the vocabulary, with its parts if it is a function. -/
theorem declType (d : DeclId) : Opens (V.Has g.program) (g.declType scope d) := by
  have hdecl (t : TypeId) (ht : (g.program.decl d).interfaceType = some t) :
      V.HasScope (g.declScope d) := ⟨h.hasSignatureOf _, h.owner d t ht⟩
  refine Grammar.opens_declType (fun t ht => ⟨hdecl t ht, h.interface d t ht⟩)
    (fun t ht hkind u hu => ⟨hdecl t ht, h.type_of_part u ?_⟩) fun s hs =>
      h.signature hscope (hs ▸ h.ownSignature d) _
  have hpart : V.part t := h.part_of_type t (h.interface d t ht) (by rw [hkind]; rfl)
  exact h.child t hpart u hu

theorem entity (hd : V.context (.decl d)) : Opens (V.Has g.program) (g.entity scope d) :=
  Grammar.opens_entity (h.contextOf hscope d) (h.declType hscope d) (h.opaqueDecl hscope d)
    ⟨hscope, hd⟩

/-- A value declaration opens its context and its type. -/
theorem value (d : DeclId) (isNamed : Bool) (o : Operator) :
    Opens (V.Has g.program) (g.value scope d isNamed o) := by
  have hname : Opens (V.Has g.program) (if isNamed then g.declName d else []) :=
    .ite (Grammar.opens_declName d) .nil
  exact (((h.contextOf hscope d).append hname).append (h.declType hscope d)).append
    (.op _ (Grammar.opens_staticMark d))

theorem constructor (d : DeclId) (allocating : Bool) :
    Opens (V.Has g.program) (g.constructor scope d allocating) :=
  ((h.contextOf hscope d).append (h.declType hscope d)).append (.op _ .nil)

theorem destructor (d : DeclId) (deallocating : Bool) :
    Opens (V.Has g.program) (g.destructor scope d deallocating) :=
  (h.contextOf hscope d).append (.op _ .nil)

theorem accessor (d : DeclId) (kind : AccessorKind) :
    Opens (V.Has g.program) (g.accessor scope d kind) :=
  Grammar.opens_accessor (h.contextOf hscope d) (h.declType hscope d)

/-- A closure opens its context, and its type in the scope of its own signature. -/
theorem closureEntity (c : ClosureId) : Opens (V.Has g.program) (g.closure scope c) := by
  have hclosed : V.HasScope { scope with signature := g.program.signatureOf (.closure c) } :=
    ⟨h.hasSignatureOf (.closure c), hscope.owner⟩
  exact .cons ⟨hscope, h.closureParent c⟩ (.cons ⟨hclosed, h.closure c⟩ (.op _ (.token _ .nil)))

/-- A conformance as declared opens the type that conforms, the protocol and the module, in the
scope of its signature. -/
theorem protocolConformance {c : ConformanceId} (hs : V.signature (g.conformanceSignature c))
    (htype : V.type (g.program.conformance c).type) (hd : V.decl (g.program.rootOf c).context) :
    Opens (V.Has g.program) (g.protocolConformance scope c) := by
  have hinner : V.HasScope { scope with signature := g.conformanceSignature c } :=
    ⟨hs, hscope.owner⟩
  exact .append (.append (.cons ⟨hinner, htype⟩ (h.protocol hinner _)) (h.moduleOf hinner hd))
    (h.signatureIfAny hscope hs)

/-- A context opens what is around it, or the declaration it is. -/
theorem context {c : Context} (hc : V.context c) :
    Opens (V.Has g.program) (g.context scope c) := by
  cases c with
  | initializer property =>
    exact .append (h.entity hscope (h.decl_context _ property hc rfl)) (.op _ .nil)
  | defaultArgument owner i =>
    exact .append (h.entity hscope (h.decl_context _ owner hc rfl)) (.op _ (.token _ .nil))
  | accessor storage kind => exact h.accessor hscope storage kind
  | closure c => exact h.closureEntity hscope c
  | decl d =>
    show Opens _ (g.declContext scope d)
    have hmodule : Opens (V.Has g.program) (g.moduleDecl scope d) :=
      Grammar.opens_moduleDecl fun _ => ⟨hscope, h.decl_of_context d hc⟩
    unfold Grammar.declContext
    cases hkind : g.program.kindOf d with
    | nativeModule | foreignModule => exact hmodule
    | extension extended =>
      have hd : V.decl d := h.decl_of_context d hc
      exact Grammar.opens_extension (h.nominal hscope _) (h.moduleOf hscope hd)
        fun s context hs => h.signature hscope (hs ▸ h.ownSignature d) context
    | structType | enumType | classType | protocolType | typeAlias => exact h.nominal hscope d
    | associatedType | func | constructor | destructor | property | subscript | enumElement
      | opaqueResult => exact h.entity hscope hc

/-- A declaration spelled out opens the context around it, or the declaration that it is the
opaque result of. -/
theorem declBody (d : DeclId) : Opens (V.Has g.program) (g.declBody scope d) := by
  unfold Grammar.declBody
  split
  · exact Grammar.opens_declName d
  · rename_i naming hkind
    exact .append (h.entity hscope (h.naming d naming hkind)) (.op _ .nil)
  · split
    · exact .append (.append (h.contextOf hscope d) (Grammar.opens_declName d)) (.op _ .nil)
    · exact .fail _

omit h in
/-- Retroactive conformances are among the conformances they are taken from. -/
theorem retroactivePieces {refs : List ConformanceRef}
    (hrefs : ∀ ref ∈ refs, V.HasRef g.program ref) :
    Opens (V.Has g.program) (Grammar.retroactivePieces scope (g.retroactive refs)) := by
  refine Grammar.opens_retroactivePieces fun x hx => ⟨hscope, nofun, hrefs x.1 ?_⟩
  exact List.fst_mem_of_mem_zipIdx (List.mem_filter.mp hx).1

/-- An opaque result type opens its declaration, its arguments, and the retroactive
conformances that these rely on. -/
theorem opaqueResult {ordinal : Nat} {args : List TypeId} (hargs : ∀ u ∈ args, V.part u) :
    Opens (V.Has g.program) (g.opaqueResult scope d ordinal args) := by
  refine .append (.append (.append (h.opaqueDecl hscope d) ?_) ?_) (.op _ (.token _ .nil))
  · exact Grammar.opens_argLevel fun u hu => ⟨hscope, h.type_of_part u (hargs u hu)⟩
  · split
    · exact retroactivePieces hscope fun ref href => h.hasRef_substitutions href
    · exact .nil

/-- A part opens parts only, and the conformances that its arguments rely on. -/
theorem structural (ht : V.part t) : Opens (V.Has g.program) (g.structural scope t) := by
  have htype (u : TypeId) (hu : V.part u) : V.Has g.program scope (.type u) :=
    ⟨hscope, h.type_of_part u hu⟩
  by_cases hkind : (g.program.types.node t).kind = .opaqueResult
  · unfold Grammar.structural
    cases hnode : g.program.types.node t <;> rw [hnode] at hkind <;> cases hkind
    rename_i d ordinal args
    exact h.opaqueResult hscope fun u hu => h.child t ht u (by rw [hnode]; exact hu)
  · refine Grammar.opens_structural hkind (fun n _ => h.nominal hscope n.decl) (h.protocol hscope)
      (fun u hu => htype u (h.child t ht u hu))
      (fun args hargs u hu => htype u (h.part_of_mem_argLevels ht hargs hu)) fun x hx => ?_
    refine ⟨hscope, nofun, ?_⟩
    unfold Grammar.retroactiveOf at hx
    split at hx
    · rename_i subs hsubs
      obtain ⟨s, rfl⟩ := Program.substitutionsOf?_eq_some hsubs
      exact h.hasRef_substitutions (List.fst_mem_of_mem_zipIdx (List.mem_filter.mp hx).1)
    · cases hx

/-- A type opens its body, the declaration it names, or what it is sugar for. -/
theorem type (ht : V.type t) : Opens (V.Has g.program) (g.type scope t) := by
  have hbody (hkind : (g.program.types.kind t).isStructural = true) :
      Opens (V.Has g.program) [.node scope (.type t) none] :=
    .cons ⟨hscope, h.part_of_type t ht hkind⟩ .nil
  have hsugar (u : TypeId) (hu : (g.program.types.node t).desugared? = some u) :
      Opens (V.Has g.program) [.type scope u] :=
    .cons ⟨hscope, h.desugared t u ht hu⟩ .nil
  unfold Arena.kind at hbody
  unfold Grammar.type
  refine .ite (.fail _) ?_
  cases hnode : g.program.types.node t with
  | emptyTuple | builtinWord | rawPointer | nativeObject | unknownObject | bridgeObject =>
    exact .op _ .nil
  | builtinInt | builtinFloat => exact .op _ (.token _ .nil)
  | genericParam key => exact Grammar.opens_genericParam key
  | nominal d parent =>
    cases parent with
    | none => exact h.nominal hscope d
    | some u => exact hbody (by rw [hnode]; rfl)
  | opaqueResult d ordinal args =>
    refine .ite ?_ (hbody (by rw [hnode]; rfl))
    cases ordinal with
    | zero => exact .op _ .nil
    | succ ordinal => exact .op _ (.token _ .nil)
  | aliased d u => exact .ite (h.nominal hscope d) (hsugar u (by rw [hnode]; rfl))
  | paren | optionalSugar | arraySugar | dictionarySugar =>
    exact hsugar _ (by rw [hnode]; rfl)
  | metatype | existentialMetatype | boundGeneric | tuple | function | lowered | existential
    | dependentMember => exact hbody (by rw [hnode]; rfl)

end

/-- A conformance opens what it is about, a protocol, a module, and the conformances its
conditions need, or the steps of its derivation. -/
theorem conformance (hscope : V.HasScope scope) {subject : Option TypeId} {ref : ConformanceRef}
    (hsubject : ∀ t ∈ subject, V.part t) (href : V.HasRef g.program ref) :
    Opens (V.Has g.program) (g.conformance scope subject ref) := by
  cases ref with
  | declared c u =>
    exact Grammar.opens_declaredConformance ⟨hscope, h.type_of_part u href.2⟩ (h.protocol hscope)
      (h.moduleOf hscope (h.conforming c href.1)) fun x hx => by
        obtain ⟨hpart, href⟩ := h.has_conditional hx
        exact ⟨hscope, fun t ht => by cases ht; exact hpart, href⟩
  | fromSignature protocol =>
    cases subject with
    | none => exact .fail _
    | some t =>
      show Opens _ (g.derivedConformance scope t protocol)
      unfold Grammar.derivedConformance
      split
      · rename_i path hpath
        obtain ⟨s, -, hpath⟩ := Option.bind_eq_some_iff.mp hpath
        refine .flatMap fun step hstep => Grammar.opens_conformanceStep ⟨hscope, ?_⟩
          (h.protocol hscope)
        exact h.type_of_part _ (h.part_of_mem_accessPathWithin (hsubject t rfl) hpath hstep)
      · exact .fail _

/-- The production of a phrase in a closed vocabulary opens phrases in the vocabulary. -/
theorem production {phrase : Phrase} (hphrase : V.Has g.program scope phrase) :
    Opens (V.Has g.program) (g.production scope phrase) := by
  obtain ⟨hscope, hphrase⟩ := hphrase
  cases phrase with
  | type t => exact h.type hscope hphrase
  | context c => exact h.context hscope hphrase
  | conformance subject ref => exact h.conformance hscope hphrase.1 hphrase.2
  | body key =>
    cases key with
    | type t => exact h.structural hscope hphrase
    | decl d => exact h.declBody hscope d

end Vocabulary.Closed

end NameMangling
