/-
# Where sugar is refused

The only production that refuses a type for its sugar is that of the type itself, and only in
a grammar that does not accept sugar.  Whatever else a production or a plan consists of, no
piece of it is such a refusal.

Main definition: `Piece.refusesSugar`.

Main facts: `Grammar.any_production`, `Grammar.any_plan`, `Grammar.plan_ne_nonCanonical`.
-/
import NameMangling.Proofs.RewordedSymbols

namespace NameMangling

/-- Whether a piece refuses a type for its sugar. -/
def Piece.refusesSugar : Piece → Bool
  | .fail (.nonCanonicalType _) => true
  | _ => false

@[simp]
theorem Piece.refusesSugar_token (t : Token) : (token t).refusesSugar = false := rfl

@[simp]
theorem Piece.refusesSugar_phrase (scope : Scope) (p : Phrase) :
    (phrase scope p).refusesSugar = false := rfl

@[simp]
theorem Piece.refusesSugar_op (o : Operator) : (op o).refusesSugar = false := rfl

@[simp]
theorem Piece.refusesSugar_type (scope : Scope) (t : TypeId) :
    (type scope t).refusesSugar = false := rfl

@[simp]
theorem Piece.refusesSugar_context (scope : Scope) (c : Context) :
    (context scope c).refusesSugar = false := rfl

@[simp]
theorem any_markFirst (pss : List (List Piece)) :
    (markFirst pss).any Piece.refusesSugar = pss.any (·.any Piece.refusesSugar) := by
  cases pss <;> simp [markFirst]

@[simp]
theorem any_listPieces (pss : List (List Piece)) :
    (listPieces pss).any Piece.refusesSugar = pss.any (·.any Piece.refusesSugar) := by
  cases pss <;> simp [listPieces]

namespace Grammar

variable (g : Grammar) (scope : Scope)

/-! ## Names and declarations -/

/-- A name may be refused for being absent, which has nothing to do with sugar. -/
@[simp]
theorem any_declName (d : DeclId) : (g.declName d).any Piece.refusesSugar = false := by
  unfold declName identifierPieces discriminatorPieces
  dsimp only
  rw [List.any_append, Bool.or_eq_false_iff]
  constructor
  · split
    · rfl
    · split <;> rfl
  · split <;> rfl

@[simp]
theorem any_contextOf (d : DeclId) : (g.contextOf scope d).any Piece.refusesSugar = false := by
  unfold contextOf
  split <;> rfl

/-- A module may be refused for its kind only. -/
@[simp]
theorem any_moduleDecl (d : DeclId) : (g.moduleDecl scope d).any Piece.refusesSugar = false := by
  unfold moduleDecl
  split
  · rfl
  · split <;> rfl

/-- A declaration may be refused for lying in no module. -/
@[simp]
theorem any_moduleOf (d : DeclId) : (g.moduleOf scope d).any Piece.refusesSugar = false := by
  unfold moduleOf
  split
  · exact g.any_moduleDecl scope _
  · rfl

/-- A declaration that is no referent is refused for what it is, not for the sugar of a type. -/
theorem any_ofDecl {d : DeclId} {e : Refusal} (h : Referent.ofDecl g.program d = .error e) :
    (Piece.fail e).refusesSugar = false := by
  unfold Referent.ofDecl at h
  split at h
  · cases h
  · split at h <;> cases h
    rfl

/-- A nominal declaration may be refused for its kind only. -/
@[simp]
theorem any_nominal (d : DeclId) : (g.nominal scope d).any Piece.refusesSugar = false := by
  unfold nominal
  split
  · rfl
  · split
    · rfl
    · split
      · rfl
      · split
        · rfl
        · rename_i e he
          simpa using g.any_ofDecl he

/-- A protocol may be refused for its kind only. -/
@[simp]
theorem any_protocol (d : DeclId) : (g.protocol scope d).any Piece.refusesSugar = false := by
  unfold protocol
  split
  · exact g.any_nominal scope d
  · rfl

/-- The declaration of an opaque result may be refused for its kind only. -/
@[simp]
theorem any_opaqueDecl (d : DeclId) : (g.opaqueDecl scope d).any Piece.refusesSugar = false := by
  unfold opaqueDecl
  split
  · split
    · rfl
    · rename_i e he
      simpa using g.any_ofDecl he
  · rfl

/-! ## Signatures and conformances -/

/-- The types of a requirement are left to their own productions. -/
@[simp]
theorem any_requirement (r : Requirement) :
    (g.requirement scope r).any Piece.refusesSugar = false := by
  unfold requirement
  split <;> simp [Function.comp_def]

/-- The types of a signature are left to their own productions. -/
@[simp]
theorem any_signature (s : SignatureId) (context : Option SignatureId) :
    (g.signature scope s context).any Piece.refusesSugar = false := by
  unfold signature
  dsimp only
  split <;> simp [List.any_flatMap, Function.comp_def]

/-- A signature that may be missing refuses no sugar itself. -/
@[simp]
theorem any_signatureIfAny (s : Option SignatureId) :
    (g.signatureIfAny scope s).any Piece.refusesSugar = false := by
  cases s with
  | none => rfl
  | some s => exact g.any_signature scope s none

@[simp]
theorem any_retroactivePieces (refs : List (ConformanceRef × Nat)) :
    (retroactivePieces scope refs).any Piece.refusesSugar = false := by
  simp [retroactivePieces, List.any_flatMap]

/-- A conformance may be refused for having no derivation, but not for sugar. -/
@[simp]
theorem any_conformance (subject : Option TypeId) (ref : ConformanceRef) :
    (g.conformance scope subject ref).any Piece.refusesSugar = false := by
  have hstep (step : AccessStep) :
      (g.conformanceStep scope step).any Piece.refusesSugar = false := by
    cases step <;> simp [conformanceStep]
  cases ref with
  | declared c t => simp [conformance, declaredConformance, Function.comp_def]
  | fromSignature protocol =>
    cases subject with
    | none => rfl
    | some t =>
      show (g.derivedConformance scope t protocol).any Piece.refusesSugar = false
      unfold derivedConformance
      split
      · simp [List.any_flatMap, hstep]
      · rfl

/-! ## Types -/

@[simp]
theorem any_label (l : Option Name) : (g.label l).any Piece.refusesSugar = false := by
  cases l <;> rfl

/-- The types of parameters are left to their own productions. -/
theorem any_parameterList (ps : List Parameter) (labels : List (Option Name)) :
    (g.parameterList scope ps labels).any (·.any Piece.refusesSugar) = false := by
  induction ps generalizing labels with
  | nil => rfl
  | cons p ps ih =>
    rw [parameterList, List.any_cons, ih]
    simp [parameter, Function.comp_def]

/-- A function type may be refused for its kind, but not for sugar. -/
@[simp]
theorem any_function (t : TypeId) (labels : List (Option Name)) :
    (g.function scope t labels).any Piece.refusesSugar = false := by
  have hlist (ps : List Parameter) :
      (markFirst (g.parameterList scope ps labels) ++ [Piece.op .tuple]).any Piece.refusesSugar
        = false := by
    simp [any_parameterList]
  have hparameters (ps : List Parameter) :
      (g.parameters scope ps labels).any Piece.refusesSugar = false := by
    unfold parameters
    dsimp only
    split
    · rfl
    · split
      · rfl
      · exact hlist _
    · exact hlist _
  unfold function
  split
  · simp [hparameters, Function.comp_def]
  · rfl

@[simp]
theorem any_argLevel (args : List TypeId) :
    (argLevel scope args).any Piece.refusesSugar = false := by
  simp [argLevel, Function.comp_def]

/-- The arguments of a type are left to their own productions. -/
@[simp]
theorem any_boundGeneric (t : TypeId) (n : NominalType) :
    (g.boundGeneric scope t n).any Piece.refusesSugar = false := by
  unfold boundGeneric
  dsimp only
  split
  · split <;> simp [List.any_flatMap]
  · simp [List.any_flatMap]

/-- A structural type refuses none of its parts for sugar, they are left to their own
productions. -/
@[simp]
theorem any_structural (t : TypeId) : (g.structural scope t).any Piece.refusesSugar = false := by
  unfold structural
  split
  · rfl
  · rfl
  · exact g.any_boundGeneric scope t _
  · exact g.any_boundGeneric scope t _
  · simp [tuple, Function.comp_def]
  · exact g.any_function scope t []
  · simp [LoweredFunction.pieces, Function.comp_def]
  · unfold composition
    split <;> simp [Function.comp_def]
  · unfold dependentMember
    split
    · rfl
    · rfl
    · dsimp only
      split <;> simp
  · simp [opaqueResult]
  · rfl

/-- A type is refused for its sugar where sugar is not accepted, and nowhere else. -/
theorem any_type (t : TypeId) : (g.type scope t).any Piece.refusesSugar =
    (!g.acceptsSugar && !g.program.types.isCanonical t) := by
  unfold type
  by_cases hsugar : (!g.acceptsSugar && !g.program.types.isCanonical t) = true
  · rw [if_pos hsugar, hsugar]
    rfl
  · rw [if_neg hsugar, (Bool.not_eq_true _).mp hsugar]
    split
    case h_9 =>
      unfold genericParam
      dsimp only
      split
      · simp [Function.comp_def]
      · rfl
    case h_10 => exact g.any_nominal scope _
    case h_11 =>
      split
      · unfold ownResult
        split <;> rfl
      · rfl
    case h_12 =>
      unfold aliased
      split
      · exact g.any_nominal scope _
      · rfl
    all_goals rfl

/-! ## Entities and contexts -/

/-- A declaration may be refused for having no type, while the sugar in its type is left to the
type. -/
@[simp]
theorem any_declType (d : DeclId) : (g.declType scope d).any Piece.refusesSugar = false := by
  unfold declType
  split
  · rfl
  · simp only [List.any_append, Bool.or_eq_false_iff]
    refine ⟨⟨?_, ?_⟩, ?_⟩
    · split
      · exact g.any_function _ _ _
      · rfl
    · split
      · rfl
      · exact g.any_signature scope _ _
    · -- the match on the signature stands in the condition of the mark
      split <;> split <;> rfl

@[simp]
theorem any_staticMark (d : DeclId) : (g.staticMark d).any Piece.refusesSugar = false := by
  unfold staticMark
  split <;> rfl

@[simp]
theorem any_value (d : DeclId) (isNamed : Bool) (o : Operator) :
    (g.value scope d isNamed o).any Piece.refusesSugar = false := by
  cases isNamed <;> simp [value]

@[simp]
theorem any_constructor (d : DeclId) (allocating : Bool) :
    (g.constructor scope d allocating).any Piece.refusesSugar = false := by
  simp [constructor]

@[simp]
theorem any_destructor (d : DeclId) (deallocating : Bool) :
    (g.destructor scope d deallocating).any Piece.refusesSugar = false := by
  simp [destructor]

@[simp]
theorem any_entity (d : DeclId) : (g.entity scope d).any Piece.refusesSugar = false := by
  unfold entity
  split <;> simp

@[simp]
theorem any_closure (c : ClosureId) : (g.closure scope c).any Piece.refusesSugar = false := by
  simp [closure]

/-- An accessor may be refused for the kind of its storage. -/
@[simp]
theorem any_accessor (d : DeclId) (kind : AccessorKind) :
    (g.accessor scope d kind).any Piece.refusesSugar = false := by
  unfold accessor
  dsimp only
  split
  · simp
  · simp
  · rfl

/-- An extension refuses no sugar: its requirements are left to the productions of their types. -/
@[simp]
theorem any_extension (d extended : DeclId) :
    (g.extension scope d extended).any Piece.refusesSugar = false := by
  unfold extension
  simp only [List.any_append, any_nominal, Bool.false_or]
  split
  · rfl
  · simp only [List.any_append, any_moduleOf, Bool.false_or, Bool.or_eq_false_iff]
    refine ⟨?_, by simp⟩
    split
    · exact g.any_signature scope _ _
    · rfl

/-- A context is made of names and entities, none of which refuses sugar itself. -/
@[simp]
theorem any_context (c : Context) : (g.context scope c).any Piece.refusesSugar = false := by
  cases c with
  | decl d =>
    show (g.declContext scope d).any Piece.refusesSugar = false
    unfold declContext
    split <;> simp
  | _ => simp [context]

/-- The body of a declaration may be refused for its kind or for its missing name. -/
theorem any_declBody (d : DeclId) : (g.declBody scope d).any Piece.refusesSugar = false := by
  unfold declBody
  split
  · simp
  · simp
  · split
    · simp
    · rfl

/-- Of all productions only that of a sugared type refuses sugar, if it is not accepted. -/
theorem any_production (p : Phrase) : (g.production scope p).any Piece.refusesSugar =
    match p with
    | .type t => !g.acceptsSugar && !g.program.types.isCanonical t
    | _ => false := by
  cases p with
  | type t => exact g.any_type scope t
  | context c => exact g.any_context scope c
  | conformance subject ref => exact g.any_conformance scope subject ref
  | body key =>
    cases key with
    | type t => exact g.any_structural scope t
    | decl d => exact g.any_declBody scope d

/-! ## Plans -/

theorem any_variant (kind : EntityVariant) : kind.pieces.any Piece.refusesSugar = false := by
  cases kind <;> rfl

theorem any_expansion (e : Expansion) : e.pieces.any Piece.refusesSugar = false := by
  cases e <;> rfl

/-- A derivative adds marks and a signature to the code of the original. -/
theorem any_derivative (differentiated : String) (code : List Piece) (c : DerivativeConfig)
    (hcode : code.any Piece.refusesSugar = false) :
    (g.derivative differentiated code c).any Piece.refusesSugar = false := by
  have hsubset (s : IndexSubset) : s.pieces.any Piece.refusesSugar = false := by
    simp [IndexSubset.pieces, Function.comp_def]
  have hfunction : (differentiatedPieces differentiated).any Piece.refusesSugar = false := by
    unfold differentiatedPieces
    split <;> rfl
  simp [derivative, derivativeConfig, hsubset, hfunction, hcode]

/-- The arguments of a key path component are left to their own productions. -/
theorem any_keyPathAccessor (k : KeyPathComponent) (o : Operator) :
    (g.keyPathAccessor k o).any Piece.refusesSugar = false := by
  unfold keyPathAccessor
  simp only [List.any_append, List.any_cons, any_entity, any_signatureIfAny, Bool.false_or,
    Piece.refusesSugar_type, Piece.refusesSugar_op, any_expansion, Bool.or_false]
  split
  · split
    · exact any_argLevel _ _
    · rfl
  · rfl

theorem any_keyPathIndexHelper (k : KeyPathIndices) (o : Operator) :
    (g.keyPathIndexHelper k o).any Piece.refusesSugar = false := by
  simp [keyPathIndexHelper, any_expansion, Function.comp_def]

theorem any_protocolConformance (c : ConformanceId) :
    (g.protocolConformance scope c).any Piece.refusesSugar = false := by
  simp [protocolConformance]

theorem any_witnessTarget (target : WitnessTarget) :
    (g.witnessTarget target).any Piece.refusesSugar = false := by
  cases target <;> simp [witnessTarget]

/-- The names that a binding binds refuse no sugar. -/
theorem any_boundNames (ds : List DeclId) : (g.boundNames ds).any Piece.refusesSugar = false := by
  unfold boundNames
  split
  · rfl
  · simp
  · simp [Function.comp_def]

/-- The plan of a runtime name is a text or the name of a nominal declaration. -/
theorem any_foreignRuntimePlan (d : DeclId) :
    (g.foreignRuntimePlan d).pieces.any Piece.refusesSugar = false := by
  unfold foreignRuntimePlan
  dsimp only
  split
  · rfl
  · exact g.any_nominal _ d

variable {g}

/-- A plan has no refusal of sugar among its pieces. -/
theorem any_plan {r : Request} {plan : Plan} (h : g.plan r = .ok plan) :
    plan.pieces.any Piece.refusesSugar = false := by
  cases r <;> unfold Grammar.plan at h <;> dsimp only at h
  -- the plan that depends on its declaration, and the one with two checks; all others have at most
  -- one check in front of pieces that refuse no sugar
  case foreignRuntimeName d =>
    obtain ⟨-, -, h⟩ := bind_ok h
    cases h
    exact g.any_foreignRuntimePlan d
  case constructorVtableThunk =>
    obtain ⟨-, -, h⟩ := bind_ok h
    obtain ⟨-, -, h⟩ := bind_ok h
    cases h
    simp
  all_goals first
    | cases h
      simp [any_variant, any_derivative, any_keyPathIndexHelper, any_protocolConformance,
        any_witnessTarget, Function.comp_def]
    | obtain ⟨_, -, h⟩ := bind_ok h
      cases h
      simp [any_variant, any_keyPathAccessor, any_boundNames]

/-! ## Requests that have no plan -/

/-- Something that is not refused for a reason, and then nothing that is. -/
theorem bind_ne_error {α β : Type} {x : Except Refusal α} {f : α → Except Refusal β} {e : Refusal}
    (hx : x ≠ .error e) (hf : ∀ a, f a ≠ .error e) : (x >>= f) ≠ .error e := by
  cases x with
  | error e' =>
    intro h
    cases h
    exact hx rfl
  | ok a => exact hf a

variable (g)

/-- A check of the kind of a declaration never complains of sugar. -/
theorem expect_ne_nonCanonical (d : DeclId) (expected : DeclExpectation)
    (accepts : DeclKind → Bool) (u : TypeId) :
    g.expect d expected accepts ≠ .error (.nonCanonicalType u) := by
  unfold expect
  split <;> nofun

/-- A check that there is such a parameter never complains of sugar. -/
theorem expectParameter_ne_nonCanonical (owner : DeclId) (index : Nat) (u : TypeId) :
    g.expectParameter owner index ≠ .error (.nonCanonicalType u) := by
  unfold expectParameter
  split
  · nofun
  · split <;> nofun

/-- A check that a binding has such an entry never complains of sugar. -/
theorem entryVariables_ne_nonCanonical (b : PatternBinding) (entry : Nat) (u : TypeId) :
    entryVariables b entry ≠ .error (.nonCanonicalType u) := by
  unfold entryVariables
  split <;> nofun

/-- A check that a declaration has an opaque result never complains of sugar. -/
theorem expectOpaqueResult_ne_nonCanonical (naming : DeclId) (u : TypeId) :
    g.expectOpaqueResult naming ≠ .error (.nonCanonicalType u) := by
  unfold expectOpaqueResult
  split <;> nofun

variable {g}

/-- A request that does not fit the program is refused for what is wrong with it, which is
never the sugar of a type. -/
theorem plan_ne_nonCanonical (r : Request) (u : TypeId) :
    g.plan r ≠ .error (.nonCanonicalType u) := by
  cases r <;> unfold Grammar.plan <;> dsimp only
  case constructorVtableThunk base derived _ =>
    exact bind_ne_error (g.expect_ne_nonCanonical base _ _ u) fun _ =>
      bind_ne_error (g.expect_ne_nonCanonical derived _ _ u) (fun _ => nofun)
  case defaultArgument owner i =>
    exact bind_ne_error (g.expectParameter_ne_nonCanonical owner i u) (fun _ => nofun)
  case globalInit b entry _ =>
    exact bind_ne_error (entryVariables_ne_nonCanonical _ entry u) (fun _ => nofun)
  case opaqueTypeDeclOf naming =>
    exact bind_ne_error (g.expectOpaqueResult_ne_nonCanonical naming u) (fun _ => nofun)
  all_goals first
    | exact bind_ne_error (g.expect_ne_nonCanonical _ _ _ u) (fun _ => nofun)
    | nofun

end Grammar

end NameMangling
