/-
# Plans up to scope

The pieces of a plan are made by the same functions as the productions, so what is known
about productions holds of plans: no reference or placeholder stands in a plan, and the
phrases in it are settled wherever the grammar is uniform.

Main fact: `alike_plan`.
-/
import NameMangling.Proofs.Scopes

namespace NameMangling.Grammar
variable {g : Grammar}

/-! ## Plans -/

/-- The variant of an entity has no scope. -/
theorem alike_variant (kind : EntityVariant) : Alike g kind.pieces kind.pieces := by
  cases kind
  case plain => exact .nil
  all_goals exact .op _ .nil

/-- The expansion of a thunk has no scope. -/
theorem alike_expansion (e : Expansion) : Alike g e.pieces e.pieces := by
  cases e with
  | minimal => exact .op _ .nil
  | maximal => exact .nil

/-- The function that is differentiated is a text, which has no scope. -/
theorem alike_differentiated (differentiated : String) :
    Alike g (differentiatedPieces differentiated) (differentiatedPieces differentiated) := by
  unfold differentiatedPieces
  split
  · exact .cons (.token rfl) .nil
  · exact .cons (.token rfl) (.op _ .nil)

theorem alike_indexSubset (s : IndexSubset) : Alike g s.pieces s.pieces :=
  .map _ fun _ _ => .token rfl

/-- A derivative artifact, when the pieces of its code are tokens. -/
theorem alike_derivative (differentiated : String) {code : List Piece} (hcode : Alike g code code)
    (c : DerivativeConfig) :
    Alike g (g.derivative differentiated code c) (g.derivative differentiated code c) :=
  ((alike_differentiated _).append hcode).append
    (((alike_indexSubset _).append (.op _ (alike_indexSubset _))).append
      (.op _ (alike_signatureIfAny _)))

/-- The accessor of a key path component is alike with itself, piece by piece. -/
theorem alike_keyPathAccessor (k : KeyPathComponent) (operator : Operator) :
    Alike g (g.keyPathAccessor k operator) (g.keyPathAccessor k operator) := by
  refine (((alike_entity _).append (alike_signatureIfAny _)).append
    (.cons (alike_type_piece _) ?_)).append (.op _ (alike_expansion _))
  split
  · split
    · exact alike_argLevel _
    · exact .nil
  · exact .nil

theorem alike_types (s : Option SignatureId) (ts : List TypeId) :
    Alike g (ts.map (.type (under s))) (ts.map (.type (under s))) :=
  .map ts fun _ _ => alike_type_piece _

theorem alike_keyPathIndexHelper (k : KeyPathIndices) (operator : Operator) :
    Alike g (g.keyPathIndexHelper k operator) (g.keyPathIndexHelper k operator) :=
  ((alike_types _ _).append (alike_signatureIfAny _)).append (.op _ (alike_expansion _))

/-- The target of a witness is alike with itself, as entities and accessors are. -/
theorem alike_witnessTarget (t : WitnessTarget) :
    Alike g (g.witnessTarget t) (g.witnessTarget t) := by
  cases t with
  | decl d => exact alike_entity d
  | accessor storage kind => exact alike_accessor storage kind

/-- The names that a binding binds are tokens, which have no scope. -/
theorem alike_boundNames (ds : List DeclId) : Alike g (g.boundNames ds) (g.boundNames ds) := by
  match ds with
  | [] => exact .nil
  | [d] => exact alike_declName d
  | d :: d' :: ds =>
    unfold boundNames
    exact .markFirst (Alike.items (d :: d' :: ds) fun d _ => alike_declName d)

/-- A runtime name is a copied text, or the name of a nominal declaration. -/
theorem alike_foreignRuntimePlan (d : DeclId) :
    Alike g (g.foreignRuntimePlan d).pieces (g.foreignRuntimePlan d).pieces := by
  unfold foreignRuntimePlan
  dsimp only
  split
  · exact .cons (.token rfl) .nil
  · exact alike_nominal d

/-- Of two steps that succeed in a row, the first gives what the second starts with. -/
theorem bind_ok {α β : Type} {x : Except Refusal α} {f : α → Except Refusal β} {b : β}
    (h : x >>= f = .ok b) : ∃ a, x = .ok a ∧ f a = .ok b := by
  cases x with
  | ok a => exact ⟨a, rfl, h⟩
  | error e => cases h

/-- A plan contains no reference or placeholder of its own, and in a uniform grammar all of
its phrases are settled. -/
theorem alike_plan {r : Request} {plan : Plan} (h : g.plan r = .ok plan) :
    Alike g plan.pieces plan.pieces := by
  -- one case for each kind of request; a check in front contributes nothing
  cases r <;> unfold Grammar.plan at h <;> dsimp only at h
  case entity => cases h; exact (alike_variant _).append (alike_entity _)
  case closure => cases h; exact (alike_variant _).append (alike_closure _)
  case constructor =>
    obtain ⟨-, -, h⟩ := bind_ok h
    cases h
    exact (alike_variant _).append (alike_constructor _ _)
  case destructor =>
    obtain ⟨-, -, h⟩ := bind_ok h
    cases h
    exact (alike_variant _).append (alike_destructor _ _)
  case ivarInitializer =>
    obtain ⟨-, -, h⟩ := bind_ok h
    cases h
    exact ((alike_variant _).append (alike_nominal _)).append (.op _ .nil)
  case accessor => cases h; exact (alike_variant _).append (alike_accessor _ _)
  case globalGetter =>
    obtain ⟨-, -, h⟩ := bind_ok h
    cases h
    exact alike_value _ _ _
  case globalVariable =>
    obtain ⟨-, -, h⟩ := bind_ok h
    cases h
    exact alike_entity _
  case defaultArgument =>
    obtain ⟨-, -, h⟩ := bind_ok h
    cases h
    dsimp only
    exact alike_context _
  case initializer =>
    obtain ⟨-, -, h⟩ := bind_ok h
    cases h
    dsimp only
    exact alike_context _
  case backingInitializer =>
    obtain ⟨-, -, h⟩ := bind_ok h
    cases h
    exact (alike_entity _).append (.op _ .nil)
  case nominalType =>
    obtain ⟨-, -, h⟩ := bind_ok h
    cases h
    exact alike_nominal _
  case localTypeDecl =>
    obtain ⟨-, -, h⟩ := bind_ok h
    cases h
    exact alike_nominal _
  case globalInit =>
    obtain ⟨ds, -, h⟩ := bind_ok h
    cases h
    exact .append (.cons (.phrase (.inl trivial)) (alike_boundNames _)) (.op _ .nil)
  case declType => cases h; exact (alike_declType _).append (.op _ .nil)
  case vtableThunk =>
    cases h
    exact ((alike_entity _).append (alike_entity _)).append (.op _ .nil)
  case constructorVtableThunk =>
    obtain ⟨-, -, h⟩ := bind_ok h
    obtain ⟨-, -, h⟩ := bind_ok h
    cases h
    exact ((alike_constructor _ _).append (alike_constructor _ _)).append (.op _ .nil)
  case witnessTable => cases h; exact (alike_protocolConformance _).append (.op _ .nil)
  case witnessThunk =>
    cases h
    exact ((alike_protocolConformance _).append (alike_witnessTarget _)).append (.op _ .nil)
  case closureWitnessThunk =>
    cases h
    exact ((alike_protocolConformance _).append (alike_closure _)).append (.op _ .nil)
  case reabstractionThunk =>
    cases h
    exact ((alike_types _ _).append (alike_signatureIfAny _)).append (.op _ .nil)
  case completionHandler =>
    cases h
    exact ((alike_types _ _).append (alike_signatureIfAny _)).append (.op _ .nil)
  case keyPathGetter =>
    obtain ⟨-, -, h⟩ := bind_ok h
    cases h
    exact alike_keyPathAccessor _ _
  case keyPathSetter =>
    obtain ⟨-, -, h⟩ := bind_ok h
    cases h
    exact alike_keyPathAccessor _ _
  case keyPathEquals => cases h; exact alike_keyPathIndexHelper _ _
  case keyPathHash => cases h; exact alike_keyPathIndexHelper _ _
  case derivativeFunction => cases h; exact alike_derivative _ (.op _ (.op _ .nil)) _
  case linearMap => cases h; exact alike_derivative _ (.op _ (.op _ .nil)) _
  case generatedDecl =>
    cases h
    exact alike_derivative _ (.op _ (.op _ (.op _ (.cons (.token rfl) .nil)))) _
  case differentiabilityWitness => cases h; exact alike_derivative _ (.op _ (.op _ .nil)) _
  case typeForDebugger => cases h; exact .cons (alike_type_piece _) (.op _ .nil)
  case typeForTypeName => cases h; exact .cons (alike_type_piece _) .nil
  case typeWithoutLead => cases h; exact .cons (alike_type_piece _) .nil
  case opaqueTypeDescriptor => cases h; exact (alike_opaqueDecl _).append (.op _ .nil)
  case opaqueTypeDecl => cases h; exact alike_opaqueDecl _
  case opaqueTypeDeclOf =>
    obtain ⟨d, -, h⟩ := bind_ok h
    cases h
    exact alike_opaqueDecl _
  case foreignRuntimeName =>
    obtain ⟨-, -, h⟩ := bind_ok h
    cases h
    exact alike_foreignRuntimePlan _
  case typeReference => cases h; exact .cons (alike_type_piece _) .nil
  case typeContextReference =>
    obtain ⟨-, -, h⟩ := bind_ok h
    cases h
    dsimp only
    exact alike_context _
  case declReference => cases h; exact alike_entity _
  case accessorReference => cases h; exact alike_accessor _ _

end NameMangling.Grammar

namespace NameMangling

/-- Of the grammar that pieces are alike in only the program matters, and how far it is
uniform. -/
theorem Alike.of_isUniform {g g' : Grammar} (hprogram : g'.program = g.program)
    (hg : g'.IsUniform → g.IsUniform) {ps ps' : List Piece} (h : Alike g ps ps') :
    Alike g' ps ps' := by
  induction h with
  | nil => exact .nil
  | cons hfirst _ ih =>
    refine .cons ?_ ih
    cases hfirst with
    | token direct => exact .token direct
    | phrase settled => exact .phrase (settled.imp id fun h => ⟨fun hu => h.1 (hg hu), h.2⟩)
    | node eligible => exact .node (hprogram ▸ eligible)
    | fail => exact .fail

/-- The plan of a request is made in a grammar that differs from the one it is carried out
in by the sugar that is accepted, which scopes do not depend on. -/
theorem Mangler.alike_plan {m : Mangler} {r : Request} {plan : Plan} (h : m.plan r = .ok plan)
    (keepsSugar : Bool) : Alike (m.grammar keepsSugar) plan.pieces plan.pieces := by
  have halike : Alike (m.grammar false) plan.pieces plan.pieces := Grammar.alike_plan h
  have hprogram : (m.grammar keepsSugar).program = (m.grammar false).program := rfl
  refine halike.of_isUniform hprogram fun hu => ?_
  exact ⟨hu.noOpaque, hu.noElision, hu.unconditional⟩

end NameMangling
