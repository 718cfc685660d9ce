/-
# Commands carry out plans

What a request is turned into, to be encoded or to be spelled, is refused for the same
reason or agrees: the same lead and mode, and an encoder that writes what the pieces spell.

Main definitions:
* `Request.copiesText`, the requests whose symbol contains a text copied as it is;
* `Command.Carries`, and the main fact `command_corresponds`.
-/
import NameMangling.Proofs.EncodedEntities

namespace NameMangling

/-- Whether the symbol of a request contains a text that is copied and not written as an
identifier: a symbol in front of that of its derivative, or a foreign name. -/
def Request.copiesText (p : Program) : Request → Bool
  | .derivativeFunction name _ _ | .linearMap name _ _ | .generatedDecl name _ _ _ _
  | .differentiabilityWitness name _ _ => ['$', 'q'].isPrefixOf name.toList
  | .foreignRuntimeName d => (p.decl d).flags.isForeignVisible && (p.decl d).foreignName.isSome
  | _ => false

namespace Encoder

variable {copies : Prop} {g : Grammar} {w : Spelling} {depth : Nat} {scope : Scope}

/-- The variant of an entity is an operator or nothing. -/
theorem implements_variant (kind : EntityVariant) :
    Implements copies g w depth scope (variant kind) kind.pieces () := by
  cases kind with
  | plain => exact .pure ()
  | _ => exact .op _

/-- The expansion of a thunk is an operator or nothing. -/
theorem implements_expansion (e : Expansion) :
    Implements copies g w depth scope (expansion e) e.pieces () := by
  cases e with
  | minimal => exact .op _
  | maximal => exact .pure ()

theorem implements_indexSubset (s : IndexSubset) :
    Implements copies g w depth scope (indexSubset s) s.pieces () :=
  .rowOfPieces fun _ _ => .op _

/-- The function that is differentiated is copied if it is a symbol, and an identifier
otherwise. -/
theorem implements_differentiated (name : String)
    (hcopies : ['$', 'q'].isPrefixOf name.toList = true → copies) :
    Implements copies g w depth scope (differentiated name) (differentiatedPieces name) () := by
  -- both sides look for the lead of a symbol; behind it the text is copied
  by_cases hlead : ∃ rest, name.toList = '$' :: 'q' :: rest
  · obtain ⟨rest, hname⟩ := hlead
    have hrun : differentiated name = write (.verbatim (String.ofList rest)) := by
      simp only [differentiated, hname]
    have hpieces : differentiatedPieces name = [.token (.verbatim (String.ofList rest))] := by
      simp only [differentiatedPieces, hname]
    rw [hrun, hpieces]
    exact .write (fun _ h => by cases h) fun _ _ => hcopies (by rw [hname]; rfl)
  · have hrun : differentiated name = (do write (.identifier name); op .foreignFunction) := by
      unfold differentiated
      split
      · exact absurd ⟨_, ‹_›⟩ hlead
      · rfl
    have hpieces : differentiatedPieces name =
        [.token (.identifier name), .op .foreignFunction] := by
      unfold differentiatedPieces
      split
      · exact absurd ⟨_, ‹_›⟩ hlead
      · rfl
    rw [hrun, hpieces]
    exact .cons (.identifier _) (.op _)

/-- The names that a binding binds are written alone or as a marked list. -/
theorem implements_boundNames (ds : List DeclId) :
    Implements copies g w depth scope (boundNames ds) (g.boundNames ds) () := by
  match ds with
  | [] => exact .pure ()
  | [d] => exact implements_declName d
  | d :: d' :: ds =>
    unfold boundNames Grammar.boundNames
    exact .markFirst (Implements.items fun d _ => implements_declName d)

variable {unfold : Phrase → Encoder Unit}

/-! ## Derivatives -/

/-- A configuration is its two index subsets and its signature. -/
theorem implements_derivativeConfig (hu : Unfolds copies g w depth unfold)
    (c : DerivativeConfig) :
    Implements copies g w depth {} (derivativeConfig unfold c) (g.derivativeConfig c) () := by
  unfold derivativeConfig Grammar.derivativeConfig
  simp only [List.append_assoc, List.cons_append]
  refine .append (implements_indexSubset _) (.cons (.op _) ?_)
  exact .append (implements_indexSubset _) (.cons (.op _) (implements_signatureIfAny hu _))

/-- A derivative is its function, the code of its kind and its configuration. -/
theorem implements_derivative (hu : Unfolds copies g w depth unfold) {name : String}
    (hcopies : ['$', 'q'].isPrefixOf name.toList = true → copies) {code : Encoder Unit}
    {ps : List Piece} (hcode : Implements copies g w depth {} code ps ()) (c : DerivativeConfig) :
    Implements copies g w depth {} (derivative unfold name code c) (g.derivative name ps c) () := by
  unfold derivative Grammar.derivative
  rw [List.append_assoc]
  exact .append (implements_differentiated name hcopies)
    (.append hcode (implements_derivativeConfig hu c))

/-! ## Key paths -/

/-- The accessor of a key path component is its entity, its signature and its arguments. -/
theorem implements_keyPathAccessor (hu : Unfolds copies g w depth unfold) (k : KeyPathComponent)
    (operator : Operator) :
    Implements copies g w depth {} (keyPathAccessor unfold k operator)
      (g.keyPathAccessor k operator) () := by
  unfold keyPathAccessor Grammar.keyPathAccessor
  simp only [List.append_assoc]
  refine .readGrammar (.append (implements_entity hu _) ?_)
  refine .append (implements_signatureIfAny hu _) ?_
  refine .append (.binding (a := ()) (.cons (implements_subtype hu _) ?_))
    (.cons (.op _) (implements_expansion _))
  cases k.substitutions with
  | none => exact .pure ()
  | some subs =>
    dsimp only
    split
    · exact implements_argLevel hu _
    · exact .pure ()

/-- A helper for key path indices is its types, its signature and the operator. -/
theorem implements_keyPathIndexHelper (hu : Unfolds copies g w depth unfold) (k : KeyPathIndices)
    (operator : Operator) :
    Implements copies g w depth {} (keyPathIndexHelper unfold k operator)
      (g.keyPathIndexHelper k operator) () := by
  unfold keyPathIndexHelper Grammar.keyPathIndexHelper
  rw [List.append_assoc]
  exact .append (.binding (implements_subtypes hu _))
    (.append (implements_signatureIfAny hu _) (.cons (.op _) (implements_expansion _)))

/-! ## Thunks -/

/-- The target of a witness is encoded as the entity or the accessor it is. -/
theorem implements_witnessTarget (hu : Unfolds copies g w depth unfold) (t : WitnessTarget) :
    Implements copies g w depth {} (witnessTarget unfold t) (g.witnessTarget t) () := by
  cases t with
  | decl d => exact implements_entity hu d
  | accessor storage kind => exact implements_accessor hu storage kind

/-- A thunk is its types in the scope of its signature, the signature and the operator. -/
theorem implements_thunk (hu : Unfolds copies g w depth unfold) (types : List TypeId)
    (s : Option SignatureId) (operator : Operator) :
    Implements copies g w depth {} (thunk unfold types s operator)
      (types.map (.type (Grammar.under s)) ++ g.signatureIfAny Grammar.outermost s
        ++ [.op operator]) () := by
  unfold thunk
  rw [List.append_assoc]
  exact .append (.binding (implements_subtypes hu _))
    (.append (implements_signatureIfAny hu _) (.op _))

end Encoder

/-! ## Commands and plans -/

/-- A command carries out a plan: same lead and mode, and its body writes the pieces. -/
structure Command.Carries (copies : Prop) (m : Mangler) (w : Spelling) (depth : Nat)
    (c : Command) (p : Plan) : Prop where
  lead : c.lead = p.lead := by rfl
  keepsSugar : c.keepsSugar = p.keepsSugar := by rfl
  subject : c.subject = p.subject := by rfl
  allowsPlaceholders : c.allowsPlaceholders = p.allowsPlaceholders := by rfl
  body : Encoder.Implements copies (m.grammar p.keepsSugar) w depth {} c.body p.pieces ()

/-- A request is refused by both with one reason, or both take it. -/
inductive Corresponds (copies : Prop) (m : Mangler) (w : Spelling) (depth : Nat) :
    Except Refusal Command → Except Refusal Plan → Prop
  | refused (e : Refusal) : Corresponds copies m w depth (.error e) (.error e)
  | taken {c : Command} {p : Plan} (h : c.Carries copies m w depth p) :
      Corresponds copies m w depth (.ok c) (.ok p)

namespace Corresponds

variable {copies : Prop} {m : Mangler} {w : Spelling} {depth : Nat}

/-- After the same check, command and plan correspond if they do where it passes. -/
theorem check {α : Type} (x : Except Refusal α) {f : α → Except Refusal Command}
    {f' : α → Except Refusal Plan} (h : ∀ a, Corresponds copies m w depth (f a) (f' a)) :
    Corresponds copies m w depth (x >>= f) (x >>= f') := by
  cases x with
  | error e => exact .refused e
  | ok a => exact h a

end Corresponds

namespace Mangler

open Encoder

variable {copies : Prop} {m : Mangler} {w : Spelling} {depth : Nat}
variable {unfold : Phrase → Encoder Unit}

/-- A runtime name is copied if there is one, and otherwise spelled without placeholders. -/
theorem carries_foreignRuntimeCommand (hu : Unfolds copies (m.grammar false) w depth unfold)
    {d : DeclId} (hcopies : (Request.foreignRuntimeName d).copiesText m.program = true → copies) :
    (m.foreignRuntimeCommand unfold d).Carries copies m w depth
      ((m.grammar false).foreignRuntimePlan d) := by
  unfold foreignRuntimeCommand Grammar.foreignRuntimePlan
  dsimp only [grammar]
  unfold Request.copiesText at hcopies
  cases hvisible : (m.program.decl d).flags.isForeignVisible with
  | false => exact { body := implements_nominal hu d }
  | true =>
    cases hname : (m.program.decl d).foreignName with
    | none => exact { body := implements_nominal hu d }
    | some n => exact { body := .write nofun fun _ _ => hcopies (by simp [hvisible, hname]) }

/-- The command and the plan for a request correspond. -/
theorem command_corresponds
    (hu : ∀ keepsSugar, Unfolds copies (m.grammar keepsSugar) w depth unfold)
    (r : Request) (hcopies : r.copiesText m.program = true → copies) :
    Corresponds copies m w depth (m.command unfold r) (m.plan r) := by
  have hu₀ := hu false
  -- one case for each kind of request: the check that comes first, if there is one, and then the
  -- parts of the symbol in the order in which they are written
  cases r <;> unfold Mangler.plan Mangler.command Grammar.plan <;> dsimp only
  case entity d kind =>
    exact .taken { body := .append (implements_variant kind) (implements_entity hu₀ d) }
  case closure c kind =>
    exact .taken { body := .append (implements_variant kind) (implements_closure hu₀ c) }
  case constructor d allocating kind =>
    refine .check _ fun _ => .taken { body := ?_ }
    exact .append (implements_variant kind) (implements_constructor hu₀ d allocating)
  case destructor d deallocating kind =>
    refine .check _ fun _ => .taken { body := ?_ }
    exact .append (implements_variant kind) (implements_destructor hu₀ d deallocating)
  case ivarInitializer d destroyer kind =>
    refine .check _ fun _ => .taken { body := ?_ }
    dsimp only
    rw [List.append_assoc]
    exact .append (implements_variant kind) (.append (implements_nominal hu₀ d) (.op _))
  case accessor storage accessor kind =>
    exact .taken { body := .append (implements_variant kind) (implements_accessor hu₀ _ _) }
  case globalGetter d =>
    exact .check _ fun _ => .taken { body := implements_value hu₀ d _ _ }
  case globalVariable d =>
    exact .check _ fun _ => .taken { body := implements_entity hu₀ d }
  case defaultArgument owner index =>
    exact .check _ fun _ => .taken
      { body := implements_context hu₀ (.defaultArgument owner index) }
  case initializer d =>
    exact .check _ fun _ => .taken { body := implements_context hu₀ (.initializer d) }
  case backingInitializer d =>
    exact .check _ fun _ => .taken { body := .append (implements_entity hu₀ d) (.op _) }
  case nominalType d =>
    exact .check _ fun _ => .taken { body := implements_nominal hu₀ d }
  case localTypeDecl d =>
    exact .check _ fun _ => .taken { body := implements_nominal hu₀ d }
  case globalInit binding entry isFunction =>
    refine .check _ fun ds => .taken { body := ?_ }
    exact .cons (hu₀ _ (.context _)) (.append (implements_boundNames ds) (.op _))
  case declType d => exact .taken { body := .append (implements_declType hu₀ d) (.op _) }
  case vtableThunk base derived =>
    refine .taken { body := ?_ }
    dsimp only
    rw [List.append_assoc]
    exact .append (implements_entity hu₀ _) (.append (implements_entity hu₀ _) (.op _))
  case constructorVtableThunk base derived allocating =>
    refine .check _ fun _ => .check _ fun _ => .taken { body := ?_ }
    dsimp only
    rw [List.append_assoc]
    exact .append (implements_constructor hu₀ _ _)
      (.append (implements_constructor hu₀ _ _) (.op _))
  case witnessTable c =>
    exact .taken { body := .append (implements_protocolConformance hu₀ c) (.op _) }
  case witnessThunk c requirement =>
    refine .taken { body := ?_ }
    dsimp only
    rw [List.append_assoc]
    exact .append (implements_protocolConformance hu₀ c)
      (.append (implements_witnessTarget hu₀ requirement) (.op _))
  case closureWitnessThunk c closure =>
    refine .taken { body := ?_ }
    dsimp only
    rw [List.append_assoc]
    exact .append (implements_protocolConformance hu₀ c)
      (.append (implements_closure hu₀ closure) (.op _))
  case reabstractionThunk source target self signature =>
    exact .taken { body := implements_thunk hu₀ _ _ _ }
  case completionHandler block result signature isPredefined =>
    exact .taken { body := implements_thunk hu₀ _ _ _ }
  case keyPathGetter k =>
    exact .check _ fun _ => .taken { body := implements_keyPathAccessor hu₀ k _ }
  case keyPathSetter k =>
    exact .check _ fun _ => .taken { body := implements_keyPathAccessor hu₀ k _ }
  case keyPathEquals k => exact .taken { body := implements_keyPathIndexHelper hu₀ k _ }
  case keyPathHash k => exact .taken { body := implements_keyPathIndexHelper hu₀ k _ }
  case derivativeFunction name kind config =>
    exact .taken { body := implements_derivative hu₀ hcopies (.cons (.op _) (.op _)) config }
  case linearMap name kind config =>
    exact .taken { body := implements_derivative hu₀ hcopies (.cons (.op _) (.op _)) config }
  case generatedDecl name decl kind block config =>
    refine .taken { body := implements_derivative hu₀ hcopies ?_ config }
    exact .cons (.op _) (.cons (.op _) (.cons (.op _) (.index _)))
  case differentiabilityWitness name kind config =>
    exact .taken { body := implements_derivative hu₀ hcopies (.cons (.op _) (.op _)) config }
  case typeForDebugger t context =>
    exact .taken { body := .cons (.binding (implements_subtype (hu true) t)) (.op _) }
  case typeForTypeName t => exact .taken { body := implements_subtype hu₀ _ }
  case typeWithoutLead t => exact .taken { body := implements_subtype hu₀ t }
  case opaqueTypeDescriptor d =>
    exact .taken { body := .append (implements_opaqueDecl hu₀ d) (.op _) }
  case opaqueTypeDecl d => exact .taken { body := implements_opaqueDecl hu₀ d }
  case opaqueTypeDeclOf naming =>
    exact .check _ fun d => .taken { body := implements_opaqueDecl hu₀ d }
  case foreignRuntimeName d =>
    exact .check _ fun _ => .taken (carries_foreignRuntimeCommand hu₀ hcopies)
  case typeReference t lead => exact .taken { body := implements_subtype hu₀ _ }
  case typeContextReference d lead =>
    exact .check _ fun _ => .taken { body := implements_context hu₀ (.decl d) }
  case declReference d lead => exact .taken { body := implements_entity hu₀ d }
  case accessorReference storage kind lead =>
    exact .taken { body := implements_accessor hu₀ storage kind }

end Mangler

end NameMangling
