/-
# Encoders of entities implement their productions

One lemma for each encoder of declarations, closures, accessors and contexts, and
`encode_unfolds`: tied together, the encoders write what phrases spell, to any depth.
-/
import NameMangling.Proofs.EncodedTypes

namespace NameMangling.Encoder

open Implements

variable {copies : Prop} {g : Grammar} {w : Spelling} {depth : Nat} {scope : Scope}
variable {unfold : Phrase → Encoder Unit}

/-! ## Types of declarations -/

/-- The type of a declaration is encoded in the scope of the declaration, with its own
signature. -/
theorem implements_declType (hu : Unfolds copies g w depth unfold) (d : DeclId) :
    Implements copies g w depth scope (declType unfold d) (g.declType scope d) () := by
  unfold declType Grammar.declType
  refine .readGrammar ?_
  cases (g.program.decl d).interfaceType with
  | none => exact .refuse _ ()
  | some t =>
    dsimp only
    -- the type is written in the scope of the declaration, what follows it in the scope around
    have htype : Implements copies g w depth scope
        (Encoder.owned d (Encoder.binding (g.program.signatureOf (.decl d)) (
          if g.program.types.kind t == .function then function unfold t (g.program.decl d).labels
          else subtype unfold t)))
        (if g.program.types.kind t == .function then
          g.function (g.declScope d) t (g.program.decl d).labels
        else [.type (g.declScope d) t]) () := by
      refine .owned (.binding ?_)
      split
      · exact implements_function hu t _
      · exact implements_subtype hu t
    cases (g.program.decl d).signature with
    | none =>
      simp only [List.isEmpty_nil, Bool.not_true, Bool.and_false, Bool.false_eq_true, if_false,
        List.append_nil]
      exact .andReturn htype ()
    | some s =>
      simp only [List.append_assoc]
      refine .append htype (.append (implements_signature hu s _) ?_)
      rw [Bool.and_comm]
      split
      · exact .op _
      · exact .pure ()

/-! ## Entities -/

/-- The mark of a static declaration is written where it is static. -/
theorem implements_staticMark (d : DeclId) :
    Implements copies g w depth scope (staticMark d) (g.staticMark d) () := by
  unfold staticMark Grammar.staticMark
  refine .readGrammar ?_
  split
  · exact .op _
  · exact .pure ()

/-- A value declaration: its context, its name if it has one to write, its type and its
operator. -/
theorem implements_value (hu : Unfolds copies g w depth unfold) (d : DeclId) (isNamed : Bool)
    (operator : Operator) :
    Implements copies g w depth scope (value unfold d isNamed operator)
      (g.value scope d isNamed operator) () := by
  have hend : Implements copies g w depth scope
      (do declType unfold d; Encoder.op operator; staticMark d)
      (g.declType scope d ++ .op operator :: g.staticMark d) () :=
    .append (implements_declType hu d) (.cons (.op _) (implements_staticMark d))
  unfold value Grammar.value
  simp only [List.append_assoc]
  refine .append (implements_contextOf hu d) ?_
  cases isNamed with
  | true => exact .append (implements_declName d) hend
  | false => exact hend

/-- A constructor is its context, its type and its operator. -/
theorem implements_constructor (hu : Unfolds copies g w depth unfold) (d : DeclId)
    (allocating : Bool) :
    Implements copies g w depth scope (constructor unfold d allocating)
      (g.constructor scope d allocating) () := by
  unfold constructor Grammar.constructor
  rw [List.append_assoc]
  exact .append (implements_contextOf hu d) (.append (implements_declType hu d) (.op _))

/-- A destructor is its context and its operator. -/
theorem implements_destructor (hu : Unfolds copies g w depth unfold) (d : DeclId)
    (deallocating : Bool) :
    Implements copies g w depth scope (destructor unfold d deallocating)
      (g.destructor scope d deallocating) () :=
  .append (implements_contextOf hu d) (.op _)

/-- An entity is encoded by the kind of its declaration. -/
theorem implements_entity (hu : Unfolds copies g w depth unfold) (d : DeclId) :
    Implements copies g w depth scope (entity unfold d) (g.entity scope d) () := by
  unfold entity Grammar.entity
  refine .readGrammar ?_
  cases g.program.kindOf d with
  | func => exact implements_value hu d _ _
  | property => exact implements_value hu d _ _
  | subscript => exact implements_value hu d _ _
  | enumElement => exact implements_value hu d _ _
  | constructor => exact implements_constructor hu d _
  | destructor => exact implements_destructor hu d _
  | associatedType =>
    dsimp only
    rw [List.append_assoc]
    exact .append (implements_contextOf hu d) (.append (implements_declName d) (.op _))
  | opaqueResult naming => exact implements_opaqueDecl hu d
  | _ => exact hu scope (.context (.decl d))

/-- A closure is its context, its type, its operator and its number. -/
theorem implements_closure (hu : Unfolds copies g w depth unfold) (c : ClosureId) :
    Implements copies g w depth scope (closure unfold c) (g.closure scope c) () := by
  unfold closure Grammar.closure
  refine .readGrammar (.cons (hu scope (.context _)) ?_)
  exact .cons (.binding (implements_subtype hu _)) (.cons (.op _) (.index _))

/-- An accessor is encoded with the name and the type of its storage. -/
theorem implements_accessor (hu : Unfolds copies g w depth unfold) (storage : DeclId)
    (kind : AccessorKind) :
    Implements copies g w depth scope (accessor unfold storage kind)
      (g.accessor scope storage kind) () := by
  -- an accessor ends alike for a property and a subscript
  have hend (operator : Operator) : Implements copies g w depth scope
      (do declType unfold storage
          Encoder.op operator
          Encoder.op (.accessor kind)
          staticMark storage)
      (g.declType scope storage ++ .op operator :: .op (.accessor kind) :: g.staticMark storage)
      () :=
    .append (implements_declType hu storage)
      (.cons (.op _) (.cons (.op _) (implements_staticMark storage)))
  unfold accessor Grammar.accessor
  refine .readGrammar ?_
  cases g.program.kindOf storage with
  | property =>
    dsimp only
    rw [List.append_assoc]
    exact .append (implements_contextOf hu _) (.append (implements_declName _) (hend _))
  | subscript => exact .append (implements_contextOf hu _) (hend _)
  | _ => exact .refuse _ ()

/-! ## Contexts -/

/-- An extension is what it extends, with its module and its requirements where they are
needed. -/
theorem implements_extension (hu : Unfolds copies g w depth unfold) (d extended : DeclId) :
    Implements copies g w depth scope (extension unfold d extended)
      (g.extension scope d extended) () := by
  unfold extension Grammar.extension
  refine .readGrammar (.append (implements_nominal hu extended) ?_)
  dsimp only
  split
  · exact .pure ()
  · rw [List.append_assoc]
    refine .append (implements_moduleOf hu d) ?_
    -- the signature is written relative to that of the extended type, and may come out empty
    cases (g.program.decl d).signature with
    | none => exact .op _
    | some s =>
      refine .append (implements_signature hu s _) ?_
      dsimp only
      cases (g.signature scope s (g.program.signatureOf (.decl extended))).isEmpty with
      | true => exact .op _
      | false => exact .op _

/-- A declaration as a context: a module, an extension, a nominal type or an entity. -/
theorem implements_declContext (hu : Unfolds copies g w depth unfold) (d : DeclId) :
    Implements copies g w depth scope (declContext unfold d) (g.declContext scope d) () := by
  unfold declContext Grammar.declContext
  refine .readGrammar ?_
  cases g.program.kindOf d with
  | nativeModule => exact implements_moduleDecl hu d
  | foreignModule => exact implements_moduleDecl hu d
  | extension extended => exact implements_extension hu d extended
  | structType => exact implements_nominal hu d
  | enumType => exact implements_nominal hu d
  | classType => exact implements_nominal hu d
  | protocolType associated => exact implements_nominal hu d
  | typeAlias => exact implements_nominal hu d
  | _ => exact implements_entity hu d

/-- A context is encoded by what it is. -/
theorem implements_context (hu : Unfolds copies g w depth unfold) (c : Context) :
    Implements copies g w depth scope (context unfold c) (g.context scope c) () := by
  cases c with
  | decl d => exact implements_declContext hu d
  | closure c => exact implements_closure hu c
  | initializer property => exact .append (implements_entity hu property) (.op _)
  | defaultArgument owner i =>
    exact .append (implements_entity hu owner) (.cons (.op _) (.index _))
  | accessor storage kind => exact implements_accessor hu storage kind

/-! ## Phrases -/

/-- The body of a declaration, by its kind. -/
theorem implements_declBody (hu : Unfolds copies g w depth unfold) (d : DeclId) :
    Implements copies g w depth scope (declBody unfold d) (g.declBody scope d) () := by
  -- the nominal kinds differ in their operator only
  have hnominal (operator : Operator) : Implements copies g w depth scope
      (do contextOf unfold d; declName d; Encoder.op operator)
      (g.contextOf scope d ++ g.declName d ++ [.op operator]) () := by
    rw [List.append_assoc]
    exact .append (implements_contextOf hu d) (.append (implements_declName d) (.op _))
  unfold declBody Grammar.declBody
  refine .readGrammar ?_
  cases g.program.kindOf d with
  | nativeModule => exact implements_declName d
  | opaqueResult naming => exact .append (implements_entity hu naming) (.op _)
  | structType => exact hnominal _
  | enumType => exact hnominal _
  | classType => exact hnominal _
  | protocolType associated => exact hnominal _
  | typeAlias => exact hnominal _
  | _ => exact .refuse _ ()

/-- Every phrase is encoded as its production says. -/
theorem implements_phrase (hu : Unfolds copies g w depth unfold) (p : Phrase) :
    Implements copies g w depth scope (phrase unfold p) (g.production scope p) () := by
  cases p with
  | type t => exact implements_type hu t
  | context c => exact implements_context hu c
  | conformance subject ref => exact implements_conformance hu subject ref
  | body key =>
    cases key with
    | type t => exact implements_structural hu t
    | decl d => exact implements_declBody hu d

/-- Tied together, the encoders write what phrases spell. -/
theorem encode_unfolds (copies : Prop) (g : Grammar) (w : Spelling) (depth : Nat) :
    Unfolds copies g w depth (encode depth) := by
  induction depth with
  | zero =>
    intro scope p base s progress hs hp
    exact .error .tooDeep (.refl _ s) hp
  | succ depth ih =>
    intro scope p base s progress hs hp
    -- a phrase is spelled by its production one level deeper
    have hspell : w.pieces (g.spell w (depth + 1)) [.phrase scope p] =
        w.pieces (g.spell w depth) (g.production scope p) := by
      rw [pieces_singleton, Spelling.piece, Grammar.spell]
    rw [hspell]
    exact implements_phrase ih p hs hp

end NameMangling.Encoder
