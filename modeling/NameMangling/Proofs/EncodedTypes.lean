/-
# Encoders of types implement their productions

One lemma for each encoder of names, signatures, conformances, function types and types,
under the assumption that `unfold` writes what phrases spell.
-/
import NameMangling.Proofs.Implementing

namespace NameMangling.Encoder

open Implements

variable {copies : Prop} {g : Grammar} {w : Spelling} {depth : Nat} {scope : Scope}

/-! ## Names -/

/-- The identifier of a declaration is written, stood in for or refused. -/
theorem implements_identifier (d : DeclId) :
    Implements copies g w depth scope (identifier d) (g.identifierPieces d) () := by
  unfold identifier Grammar.identifierPieces
  refine .readGrammar ?_
  dsimp only
  generalize Option.or _ (g.program.decl d).name = name
  cases name with
  | some n => exact .identifier _
  | none =>
    dsimp only
    split
    · exact .op _
    · exact .refuse _ ()

/-- The name of a declaration is its identifier with the discriminator behind it. -/
theorem implements_declName (d : DeclId) :
    Implements copies g w depth scope (declName d) (g.declName d) () := by
  unfold declName Grammar.declName Grammar.discriminatorPieces
  refine .readGrammar (.append (implements_identifier d) ?_)
  cases (g.program.decl d).localDiscriminator with
  | some n => exact .cons (.op _) (.index _)
  | none =>
    cases (g.program.decl d).privateDiscriminator with
    | some file => exact .cons (.identifier _) (.op _)
    | none => exact .pure ()

variable {unfold : Phrase → Encoder Unit}

theorem implements_subtype (hu : Unfolds copies g w depth unfold) (t : TypeId) :
    Implements copies g w depth scope (subtype unfold t) [.type scope t] () :=
  hu scope (.type t)

theorem implements_nodeOf (hu : Unfolds copies g w depth unfold) (key : NodeKey) :
    Implements copies g w depth scope (nodeOf unfold key) [.node scope key none] () :=
  .node (hu scope (.body key))

/-- The parent of a declaration is unfolded, and a declaration without one is refused. -/
theorem implements_contextOf (hu : Unfolds copies g w depth unfold) (d : DeclId) :
    Implements copies g w depth scope (contextOf unfold d) (g.contextOf scope d) () := by
  unfold contextOf Grammar.contextOf
  refine .readGrammar ?_
  cases (g.program.decl d).parent with
  | some c => exact hu scope (.context c)
  | none => exact .refuse _ ()

/-! ## Modules -/

/-- A module is an operator or a node. -/
theorem implements_moduleDecl (hu : Unfolds copies g w depth unfold) (d : DeclId) :
    Implements copies g w depth scope (moduleDecl unfold d) (g.moduleDecl scope d) () := by
  unfold moduleDecl Grammar.moduleDecl
  refine .readGrammar ?_
  split
  · exact .op _
  · cases g.program.kindOf d with
    | foreignModule => exact .op _
    | nativeModule => exact implements_nodeOf hu _
    | _ => exact .refuse _ ()

/-- The module of a declaration, which is refused outside of all modules. -/
theorem implements_moduleOf (hu : Unfolds copies g w depth unfold) (d : DeclId) :
    Implements copies g w depth scope (moduleOf unfold d) (g.moduleOf scope d) () := by
  unfold moduleOf Grammar.moduleOf
  refine .readGrammar ?_
  cases g.program.moduleOf (.decl d) with
  | some m => exact implements_moduleDecl hu m
  | none => exact .refuse _ ()

/-! ## Nominal declarations -/

/-- A declaration with an operator of its own is an alias or may be a placeholder. -/
theorem exists_ofDecl_of_nominalOperator? {p : Program} {d : DeclId} {operator : Operator}
    (h : Grammar.nominalOperator? (p.kindOf d) = some operator) (halias : operator ≠ .typeAlias) :
    ∃ r, Referent.ofDecl p d = .ok r := by
  unfold Referent.ofDecl
  cases hkind : p.kindOf d <;> simp_all [Grammar.nominalOperator?, DeclKind.isNominal]

/-- A nominal declaration is an operator or a node, and the node of a type may be a
placeholder. -/
theorem implements_nominal (hu : Unfolds copies g w depth unfold) (d : DeclId) :
    Implements copies g w depth scope (nominal unfold d) (g.nominal scope d) () := by
  unfold nominal Grammar.nominal
  refine .readGrammar ?_
  cases hoperator : Grammar.nominalOperator? (g.program.kindOf d) with
  | none => exact .refuse _ ()
  | some operator =>
    cases g.standardName? d with
    | some name => exact .op _
    | none =>
      dsimp only
      split
      · exact implements_nodeOf hu _
      · rename_i halias
        obtain ⟨r, hr⟩ := exists_ofDecl_of_nominalOperator? hoperator halias
        rw [hr]
        exact .placed hr (hu scope (.body (.decl d)))

/-- A protocol is encoded as the nominal declaration it is. -/
theorem implements_protocol (hu : Unfolds copies g w depth unfold) (d : DeclId) :
    Implements copies g w depth scope (protocol unfold d) (g.protocol scope d) () := by
  unfold protocol Grammar.protocol
  refine .readGrammar ?_
  split
  · exact implements_nominal hu d
  · exact .refuse _ ()

/-- The declaration of an opaque result is a node that may be a placeholder. -/
theorem implements_opaqueDecl (hu : Unfolds copies g w depth unfold) (d : DeclId) :
    Implements copies g w depth scope (opaqueDecl unfold d) (g.opaqueDecl scope d) () := by
  unfold opaqueDecl Grammar.opaqueDecl
  refine .readGrammar ?_
  cases hkind : g.program.kindOf d with
  | opaqueResult naming =>
    have hr : Referent.ofDecl g.program d = .ok (.opaqueResult d) := by
      rw [Referent.ofDecl, hkind]
    rw [hr]
    exact .placed hr (hu scope (.body (.decl d)))
  | _ => exact .refuse _ ()

/-! ## Generic parameters and signatures -/

/-- A generic parameter is written where the signature in scope has it. -/
theorem implements_genericParam (key : ParamKey) :
    Implements copies g w depth scope (genericParam key) (g.genericParam scope key) () := by
  unfold genericParam Grammar.genericParam
  refine .readGrammar (.readScope ?_)
  dsimp only
  split
  · refine .writeAll ?_
    unfold ParamKey.tokens
    split <;> simp
  · exact .refuse _ ()

/-- The layout that a requirement asks for is a row of tokens. -/
theorem implements_layout (l : Layout) :
    Implements copies g w depth scope (writeAll l.tokens) (l.tokens.map .token) () := by
  refine .writeAll ?_
  cases l <;> simp [Layout.tokens]

/-- A requirement is written behind its subject, each kind in its own way. -/
theorem implements_requirement (hu : Unfolds copies g w depth unfold) (r : Requirement) :
    Implements copies g w depth scope (requirement unfold r) (g.requirement scope r) () := by
  unfold requirement Grammar.requirement
  refine .cons (implements_subtype hu _) ?_
  cases r.demand with
  | conformance p => exact .snoc (implements_protocol hu _) (.op _)
  | sameType other => exact .cons (implements_subtype hu _) (.op _)
  | superclass bound => exact .cons (implements_subtype hu _) (.op _)
  | layout constraint => exact .cons (.op _) (implements_layout constraint)

/-- The counts of a signature are a row of tokens. -/
theorem implements_countTokens (d : SignatureDelta) :
    Implements copies g w depth scope (writeAll d.countTokens) (d.countTokens.map .token) () := by
  refine .writeAll ?_
  unfold SignatureDelta.countTokens
  split <;> simp

/-- Requirements are encoded with their own signature in scope. -/
theorem implements_requirements (hu : Unfolds copies g w depth unfold) (s : SignatureId)
    (rs : List Requirement) :
    Implements copies g w depth scope
      (Encoder.binding (some s) (row (rs.map (requirement unfold))))
      (rs.flatMap (g.requirement { scope with signature := some s })) () :=
  .binding (.rowOf fun r _ => implements_requirement hu r)

/-- The encoder of a signature tells whether anything is spelled for it. -/
theorem implements_signature (hu : Unfolds copies g w depth unfold) (s : SignatureId)
    (context : Option SignatureId) :
    Implements copies g w depth scope (signature unfold s context)
      (g.signature scope s context) (!(g.signature scope s context).isEmpty) := by
  unfold signature
  refine .readGrammar ?_
  unfold Grammar.signature
  dsimp only
  split
  · exact .pure false
  · rw [List.append_assoc]
    refine .append (implements_requirements hu s _) (.append (implements_countTokens _) ?_)
    rw [List.isEmpty_eq_false_iff.mpr (by simp)]
    exact .cons (.op _) (.pure true)

/-- A signature that may be missing is written where it is there. -/
theorem implements_signatureIfAny (hu : Unfolds copies g w depth unfold)
    (s : Option SignatureId) :
    Implements copies g w depth scope (signatureIfAny unfold s) (g.signatureIfAny scope s) () := by
  cases s with
  | none => exact .pure ()
  | some s => exact .andReturn (implements_signature hu s none) ()

/-! ## Conformances -/

/-- The protocol, the module and the signature of a conformance, for its descriptor. -/
theorem implements_protocolConformance (hu : Unfolds copies g w depth unfold)
    (c : ConformanceId) :
    Implements copies g w depth scope (protocolConformance unfold c)
      (g.protocolConformance scope c) () := by
  have hconforms (inner : Scope) : Implements copies g w depth inner
      (do subtype unfold (g.program.conformance c).type
          protocol unfold (g.program.rootOf c).protocol
          moduleOf unfold (g.program.rootOf c).context)
      (.type inner (g.program.conformance c).type ::
        (g.protocol inner (g.program.rootOf c).protocol
          ++ g.moduleOf inner (g.program.rootOf c).context)) () :=
    .cons (implements_subtype hu _) (.append (implements_protocol hu _) (implements_moduleOf hu _))
  unfold protocolConformance Grammar.protocolConformance
  exact .readGrammar (.append (.binding (hconforms _)) (implements_signatureIfAny hu _))

/-- A declared conformance with its conditions as a list. -/
theorem implements_declaredConformance (hu : Unfolds copies g w depth unfold)
    (c : ConformanceId) (t : TypeId) :
    Implements copies g w depth scope (declaredConformance unfold c t)
      (g.declaredConformance scope c t) () := by
  unfold declaredConformance Grammar.declaredConformance
  simp only [List.append_assoc, List.cons_append]
  refine .readGrammar (.cons (implements_subtype hu _) ?_)
  refine .append (implements_protocol hu _) (.append (implements_moduleOf hu _) ?_)
  exact .append (.list (items fun x _ => hu scope (.conformance (some x.1) x.2))) (.op _)

/-- One step on the way to a derived conformance. -/
theorem implements_conformanceStep (hu : Unfolds copies g w depth unfold) (step : AccessStep) :
    Implements copies g w depth scope (conformanceStep unfold step)
      (g.conformanceStep scope step) () := by
  cases step with
  | root subject p i =>
    exact .cons (implements_subtype hu _)
      (.append (implements_protocol hu _) (.cons (.op _) (.index _)))
  | associated subject p i =>
    exact .cons (implements_subtype hu _)
      (.append (implements_protocol hu _) (.cons (.op _) (.index _)))

/-- A derived conformance is its access path, step by step, and refused where there is none. -/
theorem implements_derivedConformance (hu : Unfolds copies g w depth unfold)
    (subject : TypeId) (p : DeclId) :
    Implements copies g w depth scope (derivedConformance unfold subject p)
      (g.derivedConformance scope subject p) () := by
  unfold derivedConformance Grammar.derivedConformance
  refine .readGrammar (.readScope ?_)
  cases scope.signature.bind fun s => g.program.accessPath s subject p with
  | some path => exact .rowOf fun step _ => implements_conformanceStep hu step
  | none => exact .refuse _ ()

/-- A conformance is encoded by what it is: declared, or derived for its subject. -/
theorem implements_conformance (hu : Unfolds copies g w depth unfold)
    (subject : Option TypeId) (ref : ConformanceRef) :
    Implements copies g w depth scope (conformance unfold subject ref)
      (g.conformance scope subject ref) () := by
  cases ref with
  | declared c t => exact implements_declaredConformance hu c t
  | fromSignature p =>
    cases subject with
    | some t => exact implements_derivedConformance hu t p
    | none => exact .refuse _ ()

/-- Retroactive conformances are encoded one by one, each with its position. -/
theorem implements_retroactive (hu : Unfolds copies g w depth unfold)
    (refs : List (ConformanceRef × Nat)) :
    Implements copies g w depth scope (retroactive unfold refs)
      (Grammar.retroactivePieces scope refs) () :=
  .rowOf fun ref _ => .cons (hu scope (.conformance none ref.1)) (.cons (.op _) (.index _))

/-! ## Function types -/

/-- A label is written in front of its type, or nothing is. -/
theorem implements_label (l : Option Name) :
    Implements copies g w depth scope (label l) (g.label l) () := by
  cases l with
  | none => exact .pure ()
  | some n => exact .readGrammar (.identifier _)

/-- A parameter is its label, its type and its flags. -/
theorem implements_parameter (hu : Unfolds copies g w depth unfold) (p : Parameter)
    (l : Option Name) :
    Implements copies g w depth scope (parameter unfold p l) (g.parameter scope p l) () :=
  .append (implements_label l) (.cons (implements_subtype hu _) (.ops _))

/-- The parameters take the labels one by one, as long as there are labels. -/
theorem implements_parameterList (hu : Unfolds copies g w depth unfold) (ps : List Parameter)
    (labels : List (Option Name)) :
    List.Forall₂ (fun e pieces => Implements copies g w depth scope e pieces ())
      (parameterList unfold ps labels) (g.parameterList scope ps labels) := by
  induction ps generalizing labels with
  | nil => exact .nil
  | cons p ps ih => exact .cons (implements_parameter hu p _) (ih labels.tail)

/-- No parameters, one that stands alone, or a list of them. -/
theorem implements_parameters (hu : Unfolds copies g w depth unfold) (ps : List Parameter)
    (labels : List (Option Name)) :
    Implements copies g w depth scope (parameters unfold ps labels)
      (g.parameters scope ps labels) () := by
  have hlist : Implements copies g w depth scope
      (do Encoder.markFirst (parameterList unfold ps labels); Encoder.op .tuple)
      (NameMangling.markFirst (g.parameterList scope ps labels) ++ [.op .tuple]) () :=
    .append (.markFirst (implements_parameterList hu ps labels)) (.op _)
  unfold parameters Grammar.parameters
  refine .readGrammar ?_
  -- a single parameter may stand alone, without the marks of a list
  match ps, hlist with
  | [], _ => exact .op _
  | [p], hlist =>
    dsimp only
    split
    · exact implements_subtype hu _
    · exact hlist
  | _ :: _ :: _, hlist => exact hlist

/-- A function type is its result, its parameters and its operators. -/
theorem implements_function (hu : Unfolds copies g w depth unfold) (t : TypeId)
    (labels : List (Option Name)) :
    Implements copies g w depth scope (function unfold t labels)
      (g.function scope t labels) () := by
  unfold function Grammar.function
  refine .readGrammar ?_
  cases (g.program.types.node t).function? with
  | some f =>
    exact .cons (implements_subtype hu _) (.append (implements_parameters hu _ _) (.ops _))
  | none => exact .refuse _ ()

/-- Types in a row. -/
theorem implements_subtypes (hu : Unfolds copies g w depth unfold) (ts : List TypeId) :
    Implements copies g w depth scope (row (ts.map (subtype unfold)))
      (ts.map (.type scope)) () :=
  .rowOfPieces fun t _ => implements_subtype hu t

/-- A lowered function is its types and its operators. -/
theorem implements_lowered (hu : Unfolds copies g w depth unfold) (f : LoweredFunction) :
    Implements copies g w depth scope (lowered unfold f) (f.pieces scope) () := by
  unfold lowered LoweredFunction.pieces
  simp only [List.map_append, List.append_assoc, List.map_map]
  refine .append (.rowOfPieces fun x _ => implements_subtype hu _) ?_
  refine .append (.rowOfPieces fun x _ => implements_subtype hu _) ?_
  exact .append (implements_subtypes hu _) (.ops _)

/-! ## Types -/

theorem implements_argLevel (hu : Unfolds copies g w depth unfold) (args : List TypeId) :
    Implements copies g w depth scope (argLevel unfold args) (Grammar.argLevel scope args) () :=
  .list (items fun t _ => implements_subtype hu t)

/-- A type with arguments is the short form of an optional, or its declaration with its levels. -/
theorem implements_boundGeneric (hu : Unfolds copies g w depth unfold) (t : TypeId)
    (n : NominalType) :
    Implements copies g w depth scope (boundGeneric unfold t n) (g.boundGeneric scope t n) () := by
  have hplain : Implements copies g w depth scope
      (do nominal unfold n.decl
          row ((g.program.argLevels t).map (argLevel unfold))
          retroactive unfold (g.retroactiveOf t)
          Encoder.op .boundGeneric)
      (g.nominal scope n.decl ++ (g.program.argLevels t).flatMap (Grammar.argLevel scope)
        ++ Grammar.retroactivePieces scope (g.retroactiveOf t) ++ [.op .boundGeneric]) () := by
    simp only [List.append_assoc]
    refine .append (implements_nominal hu _) ?_
    refine .append (.rowOf fun args _ => implements_argLevel hu args) ?_
    exact .append (implements_retroactive hu _) (.op _)
  unfold boundGeneric Grammar.boundGeneric
  refine .readGrammar ?_
  obtain ⟨d, parent, args⟩ := n
  -- only an optional outside of other types has a spelling of its own
  match parent, args, hplain with
  | none, [wrapped], hplain =>
    dsimp only
    split
    · exact .cons (implements_subtype hu _) (.op _)
    · exact hplain
  | none, [], hplain => exact hplain
  | none, _ :: _ :: _, hplain => exact hplain
  | some _, _, hplain => exact hplain

/-- A tuple is a marked list of labelled types. -/
theorem implements_tuple (hu : Unfolds copies g w depth unfold) (elements : List TupleElement) :
    Implements copies g w depth scope (tuple unfold elements) (g.tuple scope elements) () :=
  .append (.markFirst (items fun e _ =>
    .append (implements_label e.label) (implements_subtype hu _))) (.op _)

/-- A composition is the list of its protocols, with a constraint or a mark behind. -/
theorem implements_composition (hu : Unfolds copies g w depth unfold) (c : Composition) :
    Implements copies g w depth scope (composition unfold c) (g.composition scope c) () := by
  unfold composition Grammar.composition
  refine .append (.list (items fun p _ => implements_protocol hu p)) ?_
  cases c.superclass with
  | some t => exact .cons (implements_subtype hu _) (.op _)
  | none => exact .op _

/-- A member is written with its protocol, unless that goes without saying. -/
theorem implements_dependentMember (hu : Unfolds copies g w depth unfold) (base : TypeId)
    (member : DeclId) :
    Implements copies g w depth scope (dependentMember unfold base member)
      (g.dependentMember scope base member) () := by
  unfold dependentMember Grammar.dependentMember
  refine .readGrammar ?_
  cases (g.program.decl member).name with
  | none => exact .refuse _ ()
  | some n =>
    cases g.program.protocolOf? member with
    | none => exact .refuse _ ()
    | some p =>
      dsimp only
      split
      case isTrue helides =>
        refine .cons (implements_subtype hu _) (.readScope ?_)
        rw [if_pos helides]
        exact .cons (.identifier _) (.op _)
      case isFalse helides =>
        refine .cons (implements_subtype hu _) (.readScope ?_)
        rw [if_neg helides]
        exact .append (implements_protocol hu _) (.cons (.identifier _) (.op _))

/-- An opaque result is its declaration, its arguments and its retroactive conformances. -/
theorem implements_opaqueResult (hu : Unfolds copies g w depth unfold) (d : DeclId)
    (ordinal : Nat) (args : List TypeId) :
    Implements copies g w depth scope (opaqueResult unfold d ordinal args)
      (g.opaqueResult scope d ordinal args) () := by
  have hend : Implements copies g w depth scope
      (do Encoder.op .opaqueResult; Encoder.write (.index ordinal))
      [.op .opaqueResult, .token (.index ordinal)] () :=
    .cons (.op _) (.index _)
  unfold opaqueResult Grammar.opaqueResult
  simp only [List.append_assoc]
  refine .readGrammar
    (.append (implements_opaqueDecl hu d) (.append (implements_argLevel hu args) ?_))
  cases g.program.signatureOf (.decl d) with
  | some s => exact .append (implements_retroactive hu _) hend
  | none => exact hend

/-- A structural type is encoded by its node. -/
theorem implements_structural (hu : Unfolds copies g w depth unfold) (t : TypeId) :
    Implements copies g w depth scope (structural unfold t) (g.structural scope t) () := by
  unfold structural Grammar.structural
  refine .readGrammar ?_
  unfold Arena.view
  -- of each kind of nodes the reader for it answers with the parts of the node
  cases g.program.types.node t with
  | metatype instanceType => exact .cons (implements_subtype hu _) (.op _)
  | existentialMetatype instanceType => exact .cons (implements_subtype hu _) (.op _)
  | nominal d parent => exact implements_boundGeneric hu t _
  | boundGeneric d parent args => exact implements_boundGeneric hu t _
  | tuple elements => exact implements_tuple hu elements
  | function f => exact implements_function hu t []
  | lowered f => exact implements_lowered hu f
  | existential c => exact implements_composition hu c
  | dependentMember base member => exact implements_dependentMember hu base member
  | opaqueResult d ordinal args => exact implements_opaqueResult hu d ordinal args
  | _ => exact .refuse _ ()

/-- An alias is written as itself or as the type it stands for. -/
theorem implements_aliased (hu : Unfolds copies g w depth unfold) (d : DeclId)
    (underlying : TypeId) :
    Implements copies g w depth scope (aliased unfold d underlying)
      (g.aliased scope d underlying) () := by
  unfold aliased Grammar.aliased
  refine .readGrammar ?_
  split
  · exact implements_nominal hu d
  · exact implements_subtype hu underlying

/-- The result of the function whose type is being written is a mark with its number. -/
theorem implements_ownResult (ordinal : Nat) :
    Implements copies g w depth scope (ownResult ordinal) (Grammar.ownResult ordinal) () := by
  cases ordinal with
  | zero => exact .op _
  | succ n => exact .cons (.op _) (.index _)

/-- A builtin type is an operator and the width. -/
theorem implements_builtin (operator : Operator) (width : Nat) :
    Implements copies g w depth scope (builtin operator width)
      [.op operator, .token (.count width)] () :=
  .cons (.op _) (.write nofun nofun)

/-- A type is encoded by its node, behind the check for sugar. -/
theorem implements_type (hu : Unfolds copies g w depth unfold) (t : TypeId) :
    Implements copies g w depth scope (type unfold t) (g.type scope t) () := by
  unfold type Grammar.type
  refine .readGrammar (.readScope ?_)
  dsimp only
  split
  · exact .refuse _ ()
  · unfold Arena.view
    cases g.program.types.node t with
    | builtinInt width => exact implements_builtin _ _
    | builtinFloat width => exact implements_builtin _ _
    | genericParam key => exact implements_genericParam key
    -- a nominal type without a parent is written as its declaration, which has its own number
    | nominal d parent =>
      cases parent with
      | none => exact implements_nominal hu d
      | some parent => exact implements_nodeOf hu _
    | opaqueResult d ordinal args =>
      show Implements copies g w depth scope
        (if g.isOwnResult scope d then ownResult ordinal else nodeOf unfold (.type t))
        (if g.isOwnResult scope d then Grammar.ownResult ordinal
          else [.node scope (.type t) none]) ()
      split
      · exact implements_ownResult ordinal
      · exact implements_nodeOf hu _
    | aliased d underlying => exact implements_aliased hu d underlying
    | paren inner => exact implements_subtype hu inner
    | optionalSugar wrapped desugared => exact implements_subtype hu desugared
    | arraySugar wrapped desugared => exact implements_subtype hu desugared
    | dictionarySugar key value desugared => exact implements_subtype hu desugared
    | _ => first | exact .op _ | exact implements_nodeOf hu _

end NameMangling.Encoder
