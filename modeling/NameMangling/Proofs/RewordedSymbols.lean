/-
# Symbols in a program with other names

What is known of productions in two programs that differ in the names of nameless
declarations is carried over to plans, to spelling and to symbols.  The two spellings go side
by side: token for token the same, with the given name in the place of each stand-in, until
one of them is refused for a missing name or for sugar that the other accepts.

Main definitions:
* `Progress.called`, what has been written if nameless declarations had a name;
* `Refusal.Fits`, a refusal that says nothing about the shape of anything.

Main facts:
* `reworded_plan`, `spellPieces_reworded`: plans and spellings of two such programs;
* `Mangler.fits_of_mangle`: every refusal fits the program.
-/
import NameMangling.Proofs.Implementing
import NameMangling.Proofs.Rewording

namespace NameMangling

/-! ## Plans -/

/-- Two plans that differ at most in the identifiers of nameless declarations, or one
ordinary refusal. -/
inductive RewordedPlans (g g' : Grammar) : Except Refusal Plan → Except Refusal Plan → Prop
  | ok {plan : Plan} {ps : List Piece} (pieces : Reworded g g' plan.pieces ps) :
      RewordedPlans g g' (.ok plan) (.ok { plan with pieces := ps })
  | error {e : Refusal} (ordinary : e.isOrdinary = true) : RewordedPlans g g' (.error e) (.error e)

namespace RewordedPlans

variable {g g' : Grammar} {f f' : Unit → Except Refusal Plan}

/-- A check that comes first. -/
theorem check {c : Except Refusal Unit} (hc : ∀ e, c = .error e → e.isOrdinary = true)
    (h : RewordedPlans g g' (f ()) (f' ())) : RewordedPlans g g' (c >>= f) (c >>= f') := by
  cases c with
  | ok _ => exact h
  | error e => exact error (hc e rfl)

/-- A plan is reworded as a plan. -/
theorem exists_row {plan : Plan} {y : Except Refusal Plan} (h : RewordedPlans g g' (.ok plan) y) :
    ∃ ps, Reworded g g' plan.pieces ps := by
  cases h with
  | ok pieces => exact ⟨_, pieces⟩

/-- What is refused in place of a plan is refused for neither shape nor name. -/
theorem isOrdinary {e : Refusal} {y : Except Refusal Plan} (h : RewordedPlans g g' (.error e) y) :
    e.isOrdinary = true := by
  cases h with
  | error ordinary => exact ordinary

end RewordedPlans

namespace Grammar

variable {n : Option Name} {g g' : Grammar}

/-- The variant of an entity is an operator or nothing. -/
theorem reworded_variant (kind : EntityVariant) : Reworded g g' kind.pieces kind.pieces := by
  cases kind
  case plain => exact .nil
  all_goals exact .op nofun .nil

/-- The expansion of a thunk is an operator or nothing. -/
theorem reworded_expansion (e : Expansion) : Reworded g g' e.pieces e.pieces := by
  cases e with
  | minimal => exact .op nofun .nil
  | maximal => exact .nil

/-- The function that is differentiated is a text, with or without an operator. -/
theorem reworded_differentiated (differentiated : String) :
    Reworded g g' (differentiatedPieces differentiated) (differentiatedPieces differentiated) := by
  unfold differentiatedPieces
  split
  · exact .token nofun
  · exact .cons (.token nofun) (.op nofun .nil)

/-- An index subset is a row of operators. -/
theorem reworded_indexSubset (s : IndexSubset) : Reworded g g' s.pieces s.pieces := by
  have h : Reworded g g' (((List.range s.capacity).map fun i =>
      if s.contains i then Operator.indexIn else .indexOut).map .op)
      (((List.range s.capacity).map fun i =>
        if s.contains i then Operator.indexIn else .indexOut).map .op) := by
    refine .ops fun hmem => ?_
    obtain ⟨i, -, hi⟩ := List.mem_map.mp hmem
    split at hi <;> cases hi
  rwa [List.map_map] at h

/-- A derivative is reworded with the code of its original, which has no name of the program in
it. -/
theorem reworded_derivative (h : Renames n g g') (differentiated : String) {code : List Piece}
    (hcode : Reworded g g' code code) (c : DerivativeConfig) :
    Reworded g g' (g.derivative differentiated code c) (g'.derivative differentiated code c) :=
  ((reworded_differentiated _).append hcode).append
    (((reworded_indexSubset _).append (.op (by nofun) (reworded_indexSubset _))).append
      (.op (by nofun) (reworded_signatureIfAny h _)))

/-- The accessor of a key path component is reworded with its entity, signature and arguments. -/
theorem reworded_keyPathAccessor (h : Renames n g g') (k : KeyPathComponent) {operator : Operator}
    (hop : operator ≠ .nameless) :
    Reworded g g' (g.keyPathAccessor k operator) (g'.keyPathAccessor k operator) := by
  unfold keyPathAccessor
  simp only [h.program, Program.kindOf_naming]
  refine (((reworded_entity h _).append (reworded_signatureIfAny h _)).append
    (.type _ ?_)).append (.op hop (reworded_expansion _))
  split
  · exact .ite (reworded_argLevel _) .nil
  · exact .nil

/-- A helper for key path indices is reworded with its types and its signature. -/
theorem reworded_keyPathIndexHelper (h : Renames n g g') (k : KeyPathIndices)
    {operator : Operator} (hop : operator ≠ .nameless) :
    Reworded g g' (g.keyPathIndexHelper k operator) (g'.keyPathIndexHelper k operator) :=
  ((Reworded.types _).append (reworded_signatureIfAny h _)).append
    (.op hop (reworded_expansion _))

/-- The target of a witness is an entity or an accessor. -/
theorem reworded_witnessTarget (h : Renames n g g') (t : WitnessTarget) :
    Reworded g g' (g.witnessTarget t) (g'.witnessTarget t) := by
  cases t with
  | decl d => exact reworded_entity h d
  | accessor storage kind => exact reworded_accessor h storage kind

/-- The names that a binding binds are reworded one by one. -/
theorem reworded_boundNames (h : Renames n g g') (ds : List DeclId) :
    Reworded g g' (g.boundNames ds) (g'.boundNames ds) := by
  match ds with
  | [] => exact .nil
  | [d] => exact reworded_declName h d
  | d :: d' :: ds =>
    unfold boundNames
    exact (RewordedRows.map (d :: d' :: ds) fun d _ => reworded_declName h d).markFirst

/-- A runtime name is a text that a declaration has been given, which naming others does not
touch. -/
theorem reworded_foreignRuntimePlan (h : Renames n g g') (d : DeclId) :
    RewordedPlans g g' (.ok (g.foreignRuntimePlan d)) (.ok (g'.foreignRuntimePlan d)) := by
  unfold foreignRuntimePlan
  simp only [h.program, Program.flags_naming, Program.foreignName_naming, Program.text_naming]
  split
  · exact .ok (.token nofun)
  · exact .ok (reworded_nominal h d)

/-! ### Checks -/

theorem Renames.expect (h : Renames n g g') : g'.expect = g.expect := by
  funext d expected accepts
  simp only [Grammar.expect, h.program, Program.kindOf_naming]

/-- A declaration of the wrong kind is refused as ordinary, whatever it was expected to be,
if that is not a conformance. -/
theorem isOrdinary_of_expect {d : DeclId} {expected : DeclExpectation} {accepts : DeclKind → Bool}
    (hne : expected ≠ .knownConformance) {e : Refusal}
    (h : g.expect d expected accepts = .error e) : e.isOrdinary = true := by
  unfold Grammar.expect at h
  split at h
  · cases h
  · cases h
    cases expected <;> first | rfl | exact absurd rfl hne

/-- The check that a declaration is of some kind. -/
theorem reworded_expect (h : Renames n g g') (d : DeclId) {expected : DeclExpectation}
    (hne : expected ≠ .knownConformance) (accepts : DeclKind → Bool)
    {f f' : Unit → Except Refusal Plan} (hf : RewordedPlans g g' (f ()) (f' ())) :
    RewordedPlans g g' (g.expect d expected accepts >>= f)
      (g'.expect d expected accepts >>= f') := by
  rw [h.expect]
  exact .check (fun e he => isOrdinary_of_expect hne he) hf

/-- Whether there is such a parameter is the same in both grammars. -/
theorem Renames.expectParameter (h : Renames n g g') : g'.expectParameter = g.expectParameter := by
  funext owner index
  simp only [Grammar.expectParameter, h.program, Program.interfaceType_naming,
    Program.types_naming]

/-- A parameter that is not there is refused for neither shape nor name. -/
theorem isOrdinary_of_expectParameter {owner : DeclId} {index : Nat} {e : Refusal}
    (h : g.expectParameter owner index = .error e) : e.isOrdinary = true := by
  unfold Grammar.expectParameter at h
  split at h
  · cases h
    rfl
  · split at h
    · cases h
    · cases h
      rfl

/-- An entry that is not there is refused for neither shape nor name. -/
theorem isOrdinary_of_entryVariables {b : PatternBinding} {entry : Nat} {e : Refusal}
    (h : entryVariables b entry = .error e) : e.isOrdinary = true := by
  unfold entryVariables at h
  split at h <;> cases h <;> rfl

/-! ### All plans -/

/-- The plans for a request in two grammars that differ in the names of nameless
declarations. -/
theorem reworded_plan (h : Renames n g g') (r : Request) :
    RewordedPlans g g' (g.plan r) (g'.plan r) := by
  -- one case for each kind of request; checks see kinds, which no name changes
  cases r <;> unfold plan <;> dsimp only
  case entity => exact .ok ((reworded_variant _).append (reworded_entity h _))
  case closure => exact .ok ((reworded_variant _).append (reworded_closure h _))
  case constructor =>
    refine reworded_expect h _ (by nofun) _ ?_
    exact .ok ((reworded_variant _).append (reworded_constructor h _ _))
  case destructor =>
    refine reworded_expect h _ (by nofun) _ ?_
    exact .ok ((reworded_variant _).append (reworded_destructor h _ _))
  case ivarInitializer =>
    refine reworded_expect h _ (by nofun) _ ?_
    exact .ok (((reworded_variant _).append (reworded_nominal h _)).append
      (.op (by split <;> nofun) .nil))
  case accessor => exact .ok ((reworded_variant _).append (reworded_accessor h _ _))
  case globalGetter =>
    refine reworded_expect h _ (by nofun) _ ?_
    exact .ok (reworded_value h _ _ nofun)
  case globalVariable =>
    refine reworded_expect h _ (by nofun) _ ?_
    exact .ok (reworded_entity h _)
  case defaultArgument owner index =>
    rw [h.expectParameter]
    exact .check (fun e he => isOrdinary_of_expectParameter he)
      (.ok (reworded_context h (.defaultArgument owner index)))
  case initializer d =>
    refine reworded_expect h _ (by nofun) _ ?_
    exact .ok (reworded_context h (.initializer d))
  case backingInitializer =>
    refine reworded_expect h _ (by nofun) _ ?_
    exact .ok ((reworded_entity h _).append (.op nofun .nil))
  case nominalType =>
    refine reworded_expect h _ (by nofun) _ ?_
    exact .ok (reworded_nominal h _)
  case localTypeDecl =>
    refine reworded_expect h _ (by nofun) _ ?_
    exact .ok (reworded_nominal h _)
  case globalInit binding entry isFunction =>
    simp only [h.program, Program.binding_naming]
    cases hds : entryVariables (g.program.binding binding) entry with
    | error e => exact .error (isOrdinary_of_entryVariables hds)
    | ok ds =>
      exact .ok (.append (.cons (.context _) (reworded_boundNames h ds))
        (.op (by split <;> nofun) .nil))
  case declType => exact .ok ((reworded_declType h _).append (.op nofun .nil))
  case vtableThunk =>
    exact .ok (((reworded_entity h _).append (reworded_entity h _)).append (.op nofun .nil))
  case constructorVtableThunk =>
    refine reworded_expect h _ (by nofun) _ ?_
    refine reworded_expect h _ (by nofun) _ ?_
    exact .ok (((reworded_constructor h _ _).append (reworded_constructor h _ _)).append
      (.op nofun .nil))
  case witnessTable => exact .ok ((reworded_protocolConformance h _).append (.op nofun .nil))
  case witnessThunk =>
    exact .ok (((reworded_protocolConformance h _).append (reworded_witnessTarget h _)).append
      (.op nofun .nil))
  case closureWitnessThunk =>
    exact .ok (((reworded_protocolConformance h _).append (reworded_closure h _)).append
      (.op nofun .nil))
  case reabstractionThunk =>
    exact .ok (((Reworded.types _).append (reworded_signatureIfAny h _)).append
      (.op (by split <;> nofun) .nil))
  case completionHandler =>
    exact .ok (((Reworded.types _).append (reworded_signatureIfAny h _)).append
      (.op (by split <;> nofun) .nil))
  case keyPathGetter =>
    refine reworded_expect h _ (by nofun) _ ?_
    exact .ok (reworded_keyPathAccessor h _ (by nofun))
  case keyPathSetter =>
    refine reworded_expect h _ (by nofun) _ ?_
    exact .ok (reworded_keyPathAccessor h _ (by nofun))
  case keyPathEquals => exact .ok (reworded_keyPathIndexHelper h _ (by nofun))
  case keyPathHash => exact .ok (reworded_keyPathIndexHelper h _ (by nofun))
  case derivativeFunction _ kind _ =>
    exact .ok (reworded_derivative h _ (.op (by nofun) (.op (by cases kind <;> nofun) .nil)) _)
  case linearMap _ kind _ =>
    exact .ok (reworded_derivative h _ (.op (by nofun) (.op (by cases kind <;> nofun) .nil)) _)
  case generatedDecl _ decl kind _ _ =>
    exact .ok (reworded_derivative h _ (.op (by nofun) (.op (by cases decl <;> nofun)
      (.op (by cases kind <;> nofun) (.token (by nofun))))) _)
  case differentiabilityWitness _ kind _ =>
    exact .ok (reworded_derivative h _ (.op (by nofun) (.op (by cases kind <;> nofun) .nil)) _)
  case typeForDebugger =>
    simp only [h.program, Program.signatureOf_naming]
    exact .ok (.type _ (.op nofun .nil))
  case typeForTypeName =>
    simp only [h.program, Program.types_naming]
    exact .ok (.type _ .nil)
  case typeWithoutLead => exact .ok (.type _ .nil)
  case opaqueTypeDescriptor => exact .ok ((reworded_opaqueDecl h _).append (.op nofun .nil))
  case opaqueTypeDecl => exact .ok (reworded_opaqueDecl h _)
  case opaqueTypeDeclOf naming =>
    unfold expectOpaqueResult
    simp only [h.program, Program.opaqueResultOf?_naming]
    cases g.program.opaqueResultOf? naming with
    | some d => exact .ok (reworded_opaqueDecl h d)
    | none => exact .error rfl
  case foreignRuntimeName =>
    refine reworded_expect h _ (by nofun) _ ?_
    exact reworded_foreignRuntimePlan h _
  case typeReference =>
    simp only [h.program, Program.types_naming]
    exact .ok (.type _ .nil)
  case typeContextReference d lead =>
    refine reworded_expect h _ (by nofun) _ ?_
    exact .ok (reworded_context h (.decl d))
  case declReference => exact .ok (reworded_entity h _)
  case accessorReference => exact .ok (reworded_accessor h _ _)

end Grammar

/-! ## Spelling -/

/-- A token as it is when nameless declarations have the given text for a name. -/
def Token.called (x : Option String) : Token → Token
  | .op .nameless => x.elim (.op .nameless) .identifier
  | t => t

/-- A token that stands for no missing name stays as it is. -/
theorem Token.called_of_ne {t : Token} (h : t ≠ .op .nameless) (x : Option String) :
    t.called x = t := by
  unfold called
  split
  · exact absurd rfl h
  · rfl

@[simp] theorem Token.called_none (t : Token) : t.called none = t := by
  unfold called
  split <;> rfl

namespace Progress

variable (x : Option String) (s : Progress)

/-- What has been written, as it is when nameless declarations have the given text for a
name. -/
def called : Progress := { s with tokens := s.tokens.map (Token.called x) }

@[simp] theorem called_none : s.called none = s := by
  have h : Token.called none = id := funext Token.called_none
  simp [called, h]

@[simp] theorem called_empty : called x {} = {} := by simp [called]

@[simp] theorem number?_called (key : NodeKey) : (s.called x).number? key = s.number? key := rfl

@[simp] theorem size_called : (s.called x).tokens.size = s.tokens.size := by simp [called]

theorem called_emit (t : Token) : (s.emit t).called x = (s.called x).emit (t.called x) := by
  simp [called, emit]

/-- Naming declarations does not change which nodes are complete, nor where they start. -/
theorem called_complete (key : NodeKey) (start : Nat) :
    (s.complete key start).called x = (s.called x).complete key start := by
  unfold complete
  rw [number?_called]
  split <;> simp [called]

end Progress

namespace Spelling

/-- How spelling ends when nameless declarations have the given text for a name. -/
def callEnd (x : Option String) :
    EStateM.Result Failure Progress Unit → EStateM.Result Failure Progress Unit
  | .ok a s => .ok a (s.called x)
  | .error e s => .error e (s.called x)

theorem callEnd_none (r : EStateM.Result Failure Progress Unit) : callEnd none r = r := by
  cases r <;> simp [callEnd]

end Spelling

/-- How two spellings end that differ in the names of nameless declarations: alike, or in a
refusal of the first one for a missing name or for sugar that the second one accepts, or in
one of the second one for a name that is missing there too. -/
inductive RewordedEnds (g g' : Grammar) (x : Option String) :
    EStateM.Result Failure Progress Unit → EStateM.Result Failure Progress Unit → Prop
  | alike (r : EStateM.Result Failure Progress Unit) : RewordedEnds g g' x r (Spelling.callEnd x r)
  | nameless {d : DeclId} {s : Progress} {r' : EStateM.Result Failure Progress Unit}
      (strict : g.options.allowsNameless = false) :
      RewordedEnds g g' x (.error (.refused (.namelessEntity d)) s) r'
  | member {d : DeclId} {s : Progress} {r' : EStateM.Result Failure Progress Unit}
      (nameless : g.program.IsNamelessMember d) :
      RewordedEnds g g' x (.error (.refused (.namelessEntity d)) s) r'
  | sugar {t : TypeId} {s : Progress} {r' : EStateM.Result Failure Progress Unit}
      (strict : g.acceptsSugar = false) (tolerant : g'.acceptsSugar = true) :
      RewordedEnds g g' x (.error (.refused (.nonCanonicalType t)) s) r'
  | unnamed {d : DeclId} {s : Progress} {r : EStateM.Result Failure Progress Unit}
      (missing : (g'.program.decl d).name = none) (strict : g'.options.allowsNameless = false)
      (tolerant : g.options.allowsNameless = true) :
      RewordedEnds g g' x r (.error (.refused (.namelessEntity d)) s)

namespace RewordedEnds

variable {n : Option Name} {g g' : Grammar} {x : Option String} {w : Spelling} {s : Progress}

/-- A token that stands for no missing name. -/
theorem token {unfold unfold' : Scope → Phrase → Speller Unit} {t t' : Token}
    (h : t' = t.called x) :
    RewordedEnds g g' x (w.pieces unfold [.token t] s)
      (w.pieces unfold' [.token t'] (s.called x)) := by
  subst h
  have hend : w.pieces unfold' [.token (t.called x)] (s.called x) =
      Spelling.callEnd x (w.pieces unfold [.token t] s) := by
    show EStateM.Result.ok () ((s.called x).emit (t.called x)) = .ok () ((s.emit t).called x)
    rw [Progress.called_emit]
  rw [hend]
  exact alike _

/-- One spelling after the other. -/
theorem bind {m m' k k' : Speller Unit} (h : RewordedEnds g g' x (m s) (m' (s.called x)))
    (hk : ∀ s, RewordedEnds g g' x (k s) (k' (s.called x))) :
    RewordedEnds g g' x ((do m; k) s) ((do m'; k') (s.called x)) := by
  simp only [Bind.bind, EStateM.bind]
  generalize m s = r, m' (s.called x) = r' at h
  cases h with
  | alike =>
    cases r with
    | ok _ s₁ => exact hk s₁
    | error e s₁ => exact alike (.error e s₁)
  | nameless hstrict => exact nameless hstrict
  | member hmember => exact member hmember
  | sugar hstrict htolerant => exact sugar hstrict htolerant
  | unnamed hmissing hstrict htolerant => exact unnamed hmissing hstrict htolerant

/-- The identifier of a declaration. -/
theorem name (h : g.Renames n g') (unfold unfold' : Scope → Phrase → Speller Unit) (d : DeclId) :
    RewordedEnds g g' (n.map g.program.text) (w.pieces unfold (g.identifierPieces d) s)
      (w.pieces unfold' (g'.identifierPieces d) (s.called (n.map g.program.text))) := by
  unfold Grammar.identifierPieces
  simp only [h.program, h.foreign, Program.flags_naming, Program.foreignName_naming,
    Program.text_naming]
  generalize (if g.options.usesForeignNames && (g.program.decl d).flags.isForeignVisible then
    (g.program.decl d).foreignName else none) = foreign
  cases foreign with
  | some y => exact token rfl
  | none =>
    simp only [Option.none_or]
    cases hname : (g.program.decl d).name with
    | some y =>
      simp only [Program.name_naming_of_some _ _ hname]
      exact token rfl
    | none =>
      cases htolerant : g.options.allowsNameless with
      | false => exact nameless htolerant
      | true =>
        have hname' := g.program.name_naming_of_none n hname
        -- the declaration gets the name, if it is one of the program
        cases hgiven : ((g.program.naming n).decl d).name with
        | some y =>
          rw [hgiven] at hname'
          have hn : n = some y := by
            split at hname'
            · exact hname'.symm
            · cases hname'
          subst hn
          exact token rfl
        | none =>
          cases hstrict : g'.options.allowsNameless with
          | false => exact unnamed (by rw [h.program, hgiven]) hstrict htolerant
          | true =>
            cases h.strict hstrict
            exact token rfl

end RewordedEnds

namespace Spelling

variable {n : Option Name} {g g' : Grammar} {w : Spelling} {s : Progress}
variable {unfold unfold' : Scope → Phrase → Speller Unit}

theorem called_of_shorthand? {key : NodeKey} {r : Option Referent} {t : Token}
    (h : w.shorthand? s key r = some t) (x : Option String) : t.called x = t := by
  rcases shorthand?_eq_some h with ⟨_, -, -, rfl⟩ | ⟨-, _, -, rfl⟩ <;> rfl

/-- A node is a number, a placeholder, or its spelling. -/
theorem node_reworded {x : Option String} {scope : Scope} {key : NodeKey} {r : Option Referent}
    (hbody : ∀ s, RewordedEnds g g' x (unfold scope (.body key) s)
      (unfold' scope (.body key) (s.called x))) :
    RewordedEnds g g' x (w.pieces unfold [.node scope key r] s)
      (w.pieces unfold' [.node scope key r] (s.called x)) := by
  have hrun := Encoder.Implements.run_piece_node w unfold scope key r s
  have hrun' := Encoder.Implements.run_piece_node w unfold' scope key r (s.called x)
  dsimp only [EStateM.run] at hrun hrun'
  -- calling a node something changes neither its number nor its placeholder
  have hshort : w.shorthand? (s.called x) key r = w.shorthand? s key r := rfl
  rw [Encoder.pieces_singleton, Encoder.pieces_singleton, hrun, hrun', hshort,
    Progress.size_called]
  cases ht : w.shorthand? s key r with
  | some t =>
    have hemit : (s.called x).emit t = (s.emit t).called x := by
      rw [Progress.called_emit, called_of_shorthand? ht]
    dsimp only
    rw [hemit]
    exact .alike (.ok () (s.emit t))
  | none =>
    have hends := hbody s
    generalize unfold scope (.body key) s = r, unfold' scope (.body key) (s.called x) = r' at hends
    cases hends with
    | alike =>
      cases r with
      | ok _ s₁ =>
        dsimp only [callEnd]
        rw [← Progress.called_complete]
        exact .alike (.ok () _)
      | error e s₁ => exact .alike (.error e s₁)
    | nameless hstrict => exact .nameless hstrict
    | member hmember => exact .member hmember
    | sugar hstrict htolerant => exact .sugar hstrict htolerant
    | unnamed hmissing hstrict htolerant => exact .unnamed hmissing hstrict htolerant

/-- Spelling two reworded rows, if the phrases in them end alike. -/
theorem pieces_reworded (h : g.Renames n g')
    (hunfold : ∀ scope p s, p.WellShaped g.program → RewordedEnds g g' (n.map g.program.text)
      (unfold scope p s) (unfold' scope p (s.called (n.map g.program.text))))
    {ps qs : List Piece} (hps : Reworded g g' ps qs) (s : Progress) :
    RewordedEnds g g' (n.map g.program.text) (w.pieces unfold ps s)
      (w.pieces unfold' qs (s.called (n.map g.program.text))) := by
  induction hps generalizing s with
  | nil => exact .alike (.ok () s)
  | append _ _ ihfirst ihrest =>
    rw [Encoder.pieces_append, Encoder.pieces_append]
    exact (ihfirst s).bind ihrest
  | token named => exact .token (Token.called_of_ne named _).symm
  | phrase shaped =>
    rw [Encoder.pieces_singleton, Encoder.pieces_singleton]
    exact hunfold _ _ s shaped
  | node shaped => exact node_reworded fun s => hunfold _ _ s shaped
  | fail ordinary => exact .alike (.error (.refused _) s)
  | name d => exact .name h unfold unfold' d
  | member nameless => exact .member nameless

end Spelling

namespace Grammar

variable {n : Option Name} {g g' : Grammar}

/-- The spellings of a phrase in two grammars that differ in the names of nameless
declarations. -/
theorem spell_reworded (h : Renames n g g')
    (hsugar : g.acceptsSugar = true → g'.acceptsSugar = true) (w : Spelling) (depth : Nat)
    (scope : Scope) (p : Phrase) (s : Progress) (hp : p.WellShaped g.program) :
    RewordedEnds g g' (n.map g.program.text) (g.spell w depth scope p s)
      (g'.spell w depth scope p (s.called (n.map g.program.text))) := by
  induction depth generalizing scope p s with
  | zero => exact .alike (.error .tooDeep s)
  | succ depth ih =>
    rw [spell, spell]
    rcases reworded_production h hsugar hp with hrow | ⟨hstrict, htolerant, t, hrow⟩
    · exact Spelling.pieces_reworded h ih hrow s
    · rw [hrow]
      exact .sugar hstrict htolerant

/-- Both grammars have the same bound, as no declaration is added or removed. -/
theorem Renames.depthBound (h : Renames n g g') : g'.depthBound = g.depthBound := by
  unfold Grammar.depthBound subjects
  rw [h.program]
  simp [Program.naming, Program.signatures]

/-- Spelling reworded pieces from the beginning ends alike in both grammars. -/
theorem spellPieces_reworded (h : Renames n g g')
    (hsugar : g.acceptsSugar = true → g'.acceptsSugar = true) (w : Spelling)
    {ps qs : List Piece} (hps : Reworded g g' ps qs) :
    RewordedEnds g g' (n.map g.program.text) (g.spellPieces w ps {}) (g'.spellPieces w qs {}) := by
  have hends := Spelling.pieces_reworded h (spell_reworded h hsugar w g.depthBound) hps
    (w := w) {}
  rw [Progress.called_empty] at hends
  unfold spellPieces
  rw [h.depthBound]
  exact hends

end Grammar

/-! ## Refusals -/

/-- A refusal is not for the shape of anything, and where stand-ins for names are allowed it
is not for a missing name, other than that of a member. -/
structure Refusal.Fits (g : Grammar) (e : Refusal) : Prop where
  shape : e.isShapeError = false
  name : ∀ d, e = .namelessEntity d →
    g.options.allowsNameless = false ∨ g.program.IsNamelessMember d

/-- A piece is about what it is taken to be about. -/
def Piece.Fits (g : Grammar) : Piece → Prop
  | .token _ => True
  | .phrase _ p => p.WellShaped g.program
  | .node _ key _ => (Phrase.body key).WellShaped g.program
  | .fail e => e.Fits g

theorem Refusal.fits_of_isOrdinary {g : Grammar} {e : Refusal} (h : e.isOrdinary = true) :
    e.Fits g :=
  ⟨isShapeError_of_isOrdinary h, fun d hd => by rw [hd] at h; cases h⟩

/-- The pieces of a reworded row fit. -/
theorem Reworded.fit {g g' : Grammar} {ps qs : List Piece} (h : Reworded g g' ps qs) :
    ∀ piece ∈ ps, piece.Fits g := by
  induction h with
  | nil => simp
  | append _ _ ihfirst ihrest =>
    intro piece hpiece
    exact (List.mem_append.mp hpiece).elim (ihfirst piece) (ihrest piece)
  | token named => simp [Piece.Fits]
  | phrase shaped => simpa [Piece.Fits] using shaped
  | node shaped => simpa [Piece.Fits] using shaped
  | fail ordinary => simpa [Piece.Fits] using Refusal.fits_of_isOrdinary ordinary
  | member nameless =>
    simp only [List.mem_singleton, forall_eq]
    exact ⟨rfl, fun d hd => by cases hd; exact .inr nameless⟩
  | name d =>
    unfold Grammar.identifierPieces
    dsimp only
    split
    · simp [Piece.Fits]
    · cases hstrict : g.options.allowsNameless with
      | true => simp [Piece.Fits, Piece.op]
      | false =>
        simp only [Bool.false_eq_true, if_false, List.mem_singleton, forall_eq]
        exact ⟨rfl, fun _ _ => .inl hstrict⟩

/-- The pieces of every production of a phrase that is what it is taken for fit. -/
theorem Grammar.fit_production {g : Grammar} {scope : Scope} {p : Phrase}
    (hp : p.WellShaped g.program) : ∀ piece ∈ g.production scope p, piece.Fits g := by
  rcases reworded_production (Renames.refl g) id hp with hrow | ⟨hstrict, htolerant, -⟩
  · exact hrow.fit
  · rw [hstrict] at htolerant
    cases htolerant

namespace Spelling

variable {g : Grammar} {w : Spelling} {unfold : Scope → Phrase → Speller Unit}

/-- A row of pieces that fit is refused for reasons that fit. -/
theorem fits_of_pieces (hunfold : ∀ scope p s e s', p.WellShaped g.program →
      unfold scope p s = .error (.refused e) s' → e.Fits g)
    {ps : List Piece} (hps : ∀ piece ∈ ps, piece.Fits g) {s s' : Progress} {e : Refusal}
    (h : w.pieces unfold ps s = .error (.refused e) s') : e.Fits g := by
  induction ps generalizing s with
  | nil => cases h
  | cons first rest ih =>
    rw [pieces] at h
    simp only [bind, EStateM.bind] at h
    cases hfirst : w.piece unfold first s with
    | ok _ s₁ =>
      rw [hfirst] at h
      exact ih (fun piece hpiece => hps piece (by simp [hpiece])) h
    | error e₁ s₁ =>
      rw [hfirst] at h
      cases h
      -- the first piece was refused, by itself or for what it unfolds to
      have hfit := hps first (by simp)
      cases first with
      | token t => cases hfirst
      | phrase scope p => exact hunfold scope p s e s' hfit hfirst
      | fail e₂ => cases hfirst; exact hfit
      | node scope key r =>
        have hrun := Encoder.Implements.run_piece_node w unfold scope key r s
        dsimp only [EStateM.run] at hrun
        rw [hrun] at hfirst
        split at hfirst
        · cases hfirst
        · cases hbody : unfold scope (.body key) s with
          | ok _ s₂ => rw [hbody] at hfirst; cases hfirst
          | error e₂ s₂ =>
            rw [hbody] at hfirst
            cases hfirst
            exact hunfold scope (.body key) s e _ hfit hbody

end Spelling

/-- Spelling is refused for reasons that fit. -/
theorem Grammar.fits_of_spell {g : Grammar} {w : Spelling} (depth : Nat) (scope : Scope)
    (p : Phrase) (s : Progress) (e : Refusal) (s' : Progress) (hp : p.WellShaped g.program)
    (h : g.spell w depth scope p s = .error (.refused e) s') : e.Fits g := by
  induction depth generalizing scope p s e s' with
  | zero => cases h
  | succ depth ih => exact Spelling.fits_of_pieces ih (Grammar.fit_production hp) h

/-! ## Requests -/

/-- How much sugar is accepted does not matter to rows, which only spell types in place. -/
theorem Reworded.accepting {g g' : Grammar} {ps qs : List Piece} (h : Reworded g g' ps qs)
    (sugar sugar' : Bool) :
    Reworded { g with acceptsSugar := sugar } { g' with acceptsSugar := sugar' } ps qs := by
  induction h with
  | nil => exact .nil
  | append _ _ ihfirst ihrest => exact .append ihfirst ihrest
  | token named => exact .token named
  | phrase shaped => exact .phrase shaped
  | node shaped => exact .node shaped
  | fail ordinary => exact .fail ordinary
  | name d => exact .name d
  | member nameless => exact .member nameless

/-- `m'` is a mangler for the program of `m` with its nameless declarations called `n`, which
accepts at least as much sugar and the same placeholders. -/
structure Mangler.Renames (n : Option Name) (m m' : Mangler) : Prop where
  grammar : (m.grammar false).Renames n (m'.grammar false)
  sugar : m.options.keepsSugar = true → m'.options.keepsSugar = true
  placeholders : m'.options.allowsPlaceholders = m.options.allowsPlaceholders
  accepts : m'.accepts = m.accepts

namespace Mangler

variable {n : Option Name} {m m' : Mangler}

/-- Either both manglers refuse a request before it begins, or they carry out plans that
differ in the names of nameless declarations and end accordingly. -/
theorem Renames.ends (h : Renames n m m') (r : Request) :
    (∃ e, e.isOrdinary = true ∧ m.plan r = .error e ∧ m'.plan r = .error e) ∨
      ∃ plan ps, m.plan r = .ok plan ∧ m'.plan r = .ok { plan with pieces := ps } ∧
        RewordedEnds (m.grammar plan.keepsSugar) (m'.grammar plan.keepsSugar)
          (n.map m.program.text) (m.write plan) (m'.write { plan with pieces := ps }) := by
  have hplans : RewordedPlans (m.grammar false) (m'.grammar false) (m.plan r) (m'.plan r) :=
    Grammar.reworded_plan h.grammar r
  generalize hx : m.plan r = x, hy : m'.plan r = y at hplans
  cases hplans with
  | error ordinary => exact .inl ⟨_, ordinary, rfl, rfl⟩
  | @ok plan ps hrow =>
    refine .inr ⟨plan, ps, rfl, rfl, ?_⟩
    have hg : (m.grammar plan.keepsSugar).Renames n (m'.grammar plan.keepsSugar) :=
      ⟨h.grammar.program, h.grammar.elides, h.grammar.foreign, h.grammar.unreserved,
        h.grammar.strict⟩
    -- sugar that the one mangler accepts is accepted by the other, debuggers included
    have hsugar : (m.grammar plan.keepsSugar).acceptsSugar = true →
        (m'.grammar plan.keepsSugar).acceptsSugar = true := by
      simp only [Mangler.grammar, Bool.or_eq_true]
      exact Or.imp_left h.sugar
    have hplaces : m'.placesReferent { plan with pieces := ps } = m.placesReferent plan := by
      funext x
      simp only [placesReferent, h.placeholders, h.accepts]
    unfold write
    rw [hplaces]
    exact Grammar.spellPieces_reworded hg hsugar _ (hrow.accepting _ _)

/-- There is no symbol for a request that does not fit the program, or whose plan cannot be
written. -/
theorem mangle_eq_error {r : Request} {e : Failure} : m.mangle r = .error e ↔
    (∃ e', e = .refused e' ∧ m.plan r = .error e') ∨
      ∃ plan s, m.plan r = .ok plan ∧ m.write plan = .error e s := by
  unfold mangle answer
  cases hplan : m.plan r with
  | error e' => simp [eq_comm]
  | ok plan =>
    unfold carryOut
    cases hwrite : m.write plan with
    | ok a s => simp [hwrite]
    | error e' s => simp [hwrite]

/-- A request is refused for a reason that fits. -/
theorem fits_of_mangle {r : Request} {e : Refusal} (h : m.mangle r = .error (.refused e)) :
    e.Fits (m.grammar false) := by
  have hplans : RewordedPlans (m.grammar false) (m.grammar false) (m.plan r) (m.plan r) :=
    Grammar.reworded_plan (Grammar.Renames.refl _) r
  rcases mangle_eq_error.mp h with ⟨e', heq, hplan⟩ | ⟨plan, s, hplan, hwrite⟩
  · cases heq
    rw [hplan] at hplans
    exact Refusal.fits_of_isOrdinary hplans.isOrdinary
  · rw [hplan] at hplans
    obtain ⟨ps, hrow⟩ := hplans.exists_row
    have hfits : e.Fits (m.grammar plan.keepsSugar) :=
      Spelling.fits_of_pieces (Grammar.fits_of_spell _) (hrow.accepting _ true).fit hwrite
    exact ⟨hfits.shape, hfits.name⟩

end Mangler

end NameMangling
