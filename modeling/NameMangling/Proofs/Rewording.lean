/-
# Productions in a program with other names

Two grammars are compared: one of a program, and one of the same program whose nameless
declarations have been given a name, with other settings for sugar and for nameless
declarations.  Their productions are the same word for word, except where an identifier
stands; where a member of a type parameter has no name, and where a type is sugared, one of
them may be refused.

On the way it is shown that every phrase is what it is taken for: types that are spelled out
are structural, conformances without a subject are declared ones, and no production is
refused for the shape of what it was given.

Main facts:
* `reworded_production`: the productions of two such grammars are reworded;
* `Reworded.fit`: the phrases and refusals in a reworded row fit the program.
-/
import NameMangling.Mangler
import NameMangling.Proofs.Naming

namespace NameMangling

/-! ## Phrases and refusals that fit the program -/

/-- The kinds of types that have a spelling of their own as a node. -/
def TypeKind.isStructural : TypeKind → Bool
  | .metatype | .existentialMetatype | .nominal | .boundGeneric | .tuple | .function | .lowered
  | .existential | .dependentMember | .opaqueResult => true
  | _ => false

/-- A phrase is what it is taken for: a type that is spelled out is structural, and a
conformance that comes from a signature has a subject. -/
def Phrase.WellShaped (p : Program) : Phrase → Prop
  | .body (.type t) => (p.types.kind t).isStructural = true
  | .conformance none (.fromSignature _) => False
  | _ => True

/-- The refusals that say that a type, a referent or a conformance is not of the shape that
it has been taken for. -/
def Refusal.isShapeError : Refusal → Bool
  | .unexpectedType .. | .ineligibleReferent _ | .unexpectedEntity _ .knownConformance => true
  | _ => false

/-- The refusals that neither the shape nor the name of anything is a reason for. -/
def Refusal.isOrdinary : Refusal → Bool
  | .namelessEntity _ => false
  | e => !e.isShapeError

theorem Refusal.isShapeError_of_isOrdinary {e : Refusal} (h : e.isOrdinary = true) :
    e.isShapeError = false := by
  cases e <;> simp_all [isOrdinary]

/-- The declaration of a member of some type parameter that has no name. -/
def Program.IsNamelessMember (p : Program) (d : DeclId) : Prop :=
  (∃ t base, p.types.node t = .dependentMember base d) ∧ (p.decl d).name = none

/-! ## Grammars with other names -/

/-- `g'` is the grammar of the program of `g` with its nameless declarations called `n`, a
name that is not reserved, and it makes the same choices where there is no sugar and all
declarations have names.  A grammar with a name to give has no use for a stand-in. -/
structure Grammar.Renames (n : Option Name) (g g' : Grammar) : Prop where
  program : g'.program = g.program.naming n
  elides : g'.options.elidesProtocols = g.options.elidesProtocols
  foreign : g'.options.usesForeignNames = g.options.usesForeignNames
  unreserved : ∀ x ∈ n, StandardName.ofText? (g.program.text x) = none
  strict : g'.options.allowsNameless = true → n = none

theorem Grammar.Renames.refl (g : Grammar) : Renames none g g :=
  ⟨g.program.naming_none.symm, rfl, rfl, by simp, fun _ => rfl⟩

/-! ## Rows -/

/-- Two rows of pieces that differ at most in the identifiers of nameless declarations. -/
inductive Reworded (g g' : Grammar) : List Piece → List Piece → Prop
  | nil : Reworded g g' [] []
  | append {ps qs ps' qs' : List Piece} (first : Reworded g g' ps qs)
      (rest : Reworded g g' ps' qs') : Reworded g g' (ps ++ ps') (qs ++ qs')
  | token {t : Token} (named : t ≠ .op .nameless) : Reworded g g' [.token t] [.token t]
  | phrase {scope : Scope} {p : Phrase} (shaped : p.WellShaped g.program) :
      Reworded g g' [.phrase scope p] [.phrase scope p]
  | node {scope : Scope} {key : NodeKey} {r : Option Referent}
      (shaped : (Phrase.body key).WellShaped g.program) :
      Reworded g g' [.node scope key r] [.node scope key r]
  | fail {e : Refusal} (ordinary : e.isOrdinary = true) : Reworded g g' [.fail e] [.fail e]
  | name (d : DeclId) : Reworded g g' (g.identifierPieces d) (g'.identifierPieces d)
  | member {d : DeclId} {qs : List Piece} (nameless : g.program.IsNamelessMember d) :
      Reworded g g' [.fail (.namelessEntity d)] qs

/-- Two lists of rows that are reworded one by one. -/
inductive RewordedRows (g g' : Grammar) : List (List Piece) → List (List Piece) → Prop
  | nil : RewordedRows g g' [] []
  | cons {ps qs : List Piece} {xs ys : List (List Piece)} (first : Reworded g g' ps qs)
      (rest : RewordedRows g g' xs ys) : RewordedRows g g' (ps :: xs) (qs :: ys)

namespace Reworded

variable {g g' : Grammar} {ps qs ps' qs' : List Piece} {scope : Scope}

theorem cons {x y : Piece} (first : Reworded g g' [x] [y]) (rest : Reworded g g' ps qs) :
    Reworded g g' (x :: ps) (y :: qs) := first.append rest

/-- An operator that does not stand for a missing name. -/
theorem op {o : Operator} (h : o ≠ .nameless) (rest : Reworded g g' ps qs) :
    Reworded g g' (.op o :: ps) (.op o :: qs) :=
  cons (.token fun heq => h (Token.op.inj heq)) rest

theorem type (t : TypeId) (rest : Reworded g g' ps qs) :
    Reworded g g' (.type scope t :: ps) (.type scope t :: qs) :=
  cons (.phrase (p := .type t) trivial) rest

theorem context (c : Context) : Reworded g g' [.context scope c] [.context scope c] :=
  .phrase (p := .context c) trivial

/-- A declaration as a node. -/
theorem decl (d : DeclId) (r : Option Referent) :
    Reworded g g' [.node scope (.decl d) r] [.node scope (.decl d) r] := .node trivial

/-- Tokens none of which stands for a missing name are the same on both sides. -/
theorem tokens {ts : List Token} (h : .op .nameless ∉ ts) :
    Reworded g g' (ts.map .token) (ts.map .token) := by
  induction ts with
  | nil => exact nil
  | cons t ts ih =>
    rw [List.mem_cons, not_or] at h
    exact cons (.token (Ne.symm h.1)) (ih h.2)

/-- Operators none of which stands for a missing name are the same on both sides. -/
theorem ops {os : List Operator} (h : .nameless ∉ os) :
    Reworded g g' (os.map .op) (os.map .op) := by
  induction os with
  | nil => exact nil
  | cons o os ih =>
    rw [List.mem_cons, not_or] at h
    exact op (Ne.symm h.1) (ih h.2)

/-- A list of types is left to the productions of the types. -/
theorem types (ts : List TypeId) :
    Reworded g g' (ts.map (.type scope)) (ts.map (.type scope)) := by
  induction ts with
  | nil => exact nil
  | cons t ts ih => exact type t ih

/-- Rows that come from the items of a list, reworded item by item. -/
theorem flatMap {α : Type} {f f' : α → List Piece} (xs : List α)
    (h : ∀ x ∈ xs, Reworded g g' (f x) (f' x)) :
    Reworded g g' (xs.flatMap f) (xs.flatMap f') := by
  induction xs with
  | nil => exact nil
  | cons x xs ih =>
    rw [List.flatMap_cons, List.flatMap_cons]
    exact append (h x (by simp)) (ih fun y hy => h y (by simp [hy]))

/-- What is written under a condition. -/
theorem ite {c : Prop} [Decidable c] (h : Reworded g g' ps qs) (h' : Reworded g g' ps' qs') :
    Reworded g g' (if c then ps else ps') (if c then qs else qs') := by
  split
  · exact h
  · exact h'

end Reworded

namespace RewordedRows

variable {g g' : Grammar} {xs ys : List (List Piece)}

/-- Rows made from the items of a list, reworded item by item. -/
theorem map {α : Type} {f f' : α → List Piece} (as : List α)
    (h : ∀ a ∈ as, Reworded g g' (f a) (f' a)) : RewordedRows g g' (as.map f) (as.map f') := by
  induction as with
  | nil => exact nil
  | cons a as ih => exact cons (h a (by simp)) (ih fun b hb => h b (by simp [hb]))

/-- Rows that are reworded one by one are reworded when put one behind the other. -/
theorem flatten (h : RewordedRows g g' xs ys) : Reworded g g' xs.flatten ys.flatten := by
  induction h with
  | nil => exact .nil
  | cons first _ ih => exact first.append ih

/-- The mark of a list behind its first row is no identifier. -/
theorem markFirst (h : RewordedRows g g' xs ys) : Reworded g g' (markFirst xs) (markFirst ys) := by
  cases h with
  | nil => exact .nil
  | cons first rest => exact first.append (.op nofun rest.flatten)

/-- A list is reworded with its rows, and an empty one is an operator. -/
theorem listPieces (h : RewordedRows g g' xs ys) :
    Reworded g g' (listPieces xs) (listPieces ys) := by
  cases h with
  | nil => exact .op nofun .nil
  | cons first rest => exact markFirst (.cons first rest)

end RewordedRows

/-! ## Referents -/

/-- A nominal declaration is a referent. -/
theorem Referent.ofDecl_of_isNominal {p : Program} {d : DeclId}
    (h : (p.kindOf d).isNominal = true) : ofDecl p d = .ok (.nominal d) := by
  unfold ofDecl
  split
  · rename_i hkind
    rw [hkind] at h
    cases h
  · rw [if_pos h]

/-- What a declaration is referred to as depends on its kind and not on its name. -/
theorem Referent.ofDecl_naming (p : Program) (n : Option Name) :
    ofDecl (p.naming n) = ofDecl p := by
  funext d
  unfold ofDecl
  simp only [Program.kindOf_naming]

namespace Grammar

variable {n : Option Name} {g g' : Grammar} {scope : Scope}

/-! ## Names, modules and nominal declarations -/

/-- A discriminator is a number or a text of its own, whatever the declaration is called. -/
theorem reworded_discriminatorPieces (h : Renames n g g') (d : DeclId) :
    Reworded g g' (g.discriminatorPieces d) (g'.discriminatorPieces d) := by
  unfold discriminatorPieces
  simp only [h.program, Program.localDiscriminator_naming, Program.privateDiscriminator_naming,
    Program.text_naming]
  split
  · exact .op nofun (.token nofun)
  · exact .cons (.token nofun) (.op nofun .nil)
  · exact .nil

theorem reworded_declName (h : Renames n g g') (d : DeclId) :
    Reworded g g' (g.declName d) (g'.declName d) :=
  .append (.name d) (reworded_discriminatorPieces h d)

/-- A declaration has the same parent in both programs, or none in both. -/
theorem reworded_contextOf (h : Renames n g g') (d : DeclId) :
    Reworded g g' (g.contextOf scope d) (g'.contextOf scope d) := by
  unfold contextOf
  simp only [h.program, Program.parent_naming]
  split
  · exact .context _
  · exact .fail rfl

/-- A module is the standard library, a foreign one or a node, by its identity and its kind. -/
theorem reworded_moduleDecl (h : Renames n g g') (d : DeclId) :
    Reworded g g' (g.moduleDecl scope d) (g'.moduleDecl scope d) := by
  unfold moduleDecl
  simp only [h.program, Program.isStandardModule_naming, Program.kindOf_naming]
  split
  · exact .op nofun .nil
  · split
    · exact .op nofun .nil
    · exact .decl d none
    · exact .fail rfl

/-- A declaration lies in the same module in both programs. -/
theorem reworded_moduleOf (h : Renames n g g') (d : DeclId) :
    Reworded g g' (g.moduleOf scope d) (g'.moduleOf scope d) := by
  unfold moduleOf
  simp only [h.program, Program.moduleOf_naming]
  split
  · exact reworded_moduleDecl h _
  · exact .fail rfl

/-- A name that is not reserved gives no declaration a reserved spelling. -/
theorem Renames.standardName? (h : Renames n g g') (d : DeclId) :
    g'.standardName? d = g.standardName? d := by
  have hname : (((g.program.naming n).decl d).name.bind fun x =>
        StandardName.ofText? (g.program.text x)) =
      (g.program.decl d).name.bind fun x => StandardName.ofText? (g.program.text x) := by
    cases hd : (g.program.decl d).name with
    | some x => rw [Program.name_naming_of_some _ _ hd]
    | none =>
      rw [Program.name_naming_of_none _ _ hd]
      split
      · exact Option.bind_eq_none_iff.mpr h.unreserved
      · rfl
  unfold Grammar.standardName?
  simp only [h.program, Program.parent_naming, Program.isStandardModule_naming,
    Program.text_naming, hname]

/-- A nominal declaration has the same reserved spelling, or is the same node, in both
grammars. -/
theorem reworded_nominal (h : Renames n g g') (d : DeclId) :
    Reworded g g' (g.nominal scope d) (g'.nominal scope d) := by
  unfold nominal
  simp only [h.standardName?, h.program, Program.kindOf_naming]
  split
  · exact .fail rfl
  · rename_i operator hoperator
    split
    · exact .op nofun .nil
    · split
      · exact .decl d none
      · -- what is not an alias is a nominal type
        rename_i hne
        have hnominal : (g.program.kindOf d).isNominal = true := by
          unfold nominalOperator? at hoperator
          split at hoperator <;> simp_all [DeclKind.isNominal]
        rw [Referent.ofDecl_naming, Referent.ofDecl_of_isNominal hnominal]
        exact .decl d _

/-- A protocol is spelled as the nominal declaration it is, or refused for its kind. -/
theorem reworded_protocol (h : Renames n g g') (d : DeclId) :
    Reworded g g' (g.protocol scope d) (g'.protocol scope d) := by
  unfold protocol
  simp only [h.program, Program.kindOf_naming]
  exact .ite (reworded_nominal h d) (.fail rfl)

/-! ## Generic parameters and signatures -/

/-- A parameter is spelled by its key, in a signature that both programs share. -/
theorem reworded_genericParam (h : Renames n g g') (key : ParamKey) :
    Reworded g g' (g.genericParam scope key) (g'.genericParam scope key) := by
  have hkey : Token.op .nameless ∉ key.tokens := by
    obtain ⟨depth, index⟩ := key
    cases depth <;> cases index <;> simp [ParamKey.tokens]
  unfold genericParam
  simp only [h.program, Program.signature_naming]
  exact .ite (.tokens hkey) (.fail rfl)

theorem Renames.elides_eq (h : Renames n g g') : g'.elides = g.elides := by
  funext scope base protocol
  simp only [Grammar.elides, h.elides, h.program, Program.requiredProtocols_naming]

theorem named_layout (l : Layout) : Token.op .nameless ∉ l.tokens := by
  cases l <;> simp [Layout.tokens]

/-- A requirement is its types, a protocol or a layout, and an operator. -/
theorem reworded_requirement (h : Renames n g g') (r : Requirement) :
    Reworded g g' (g.requirement scope r) (g'.requirement scope r) := by
  refine .type _ ?_
  split
  · exact (reworded_protocol h _).append (.op nofun .nil)
  · exact .type _ (.op nofun .nil)
  · exact .type _ (.op nofun .nil)
  · exact .op nofun (.tokens (named_layout _))

theorem Renames.delta (h : Renames n g g') : g'.delta = g.delta := by
  funext s context
  simp only [Grammar.delta, h.program, Program.signature_naming]

/-- A signature is written as the same delta, requirement by requirement, with the same counts. -/
theorem reworded_signature (h : Renames n g g') (s : SignatureId) (context : Option SignatureId) :
    Reworded g g' (g.signature scope s context) (g'.signature scope s context) := by
  have hcounts (d : SignatureDelta) : Token.op .nameless ∉ d.countTokens := by
    unfold SignatureDelta.countTokens
    split <;> simp
  unfold signature
  simp only [h.delta]
  exact .ite .nil (((Reworded.flatMap _ fun r _ => reworded_requirement h r).append
    (.tokens (hcounts _))).append (.op nofun .nil))

/-- Whether a signature is written does not depend on names. -/
theorem isEmpty_signature (s : SignatureId) (context : Option SignatureId) :
    (g.signature scope s context).isEmpty = (g.delta s context).isEmpty := by
  unfold signature
  dsimp only
  cases (g.delta s context).isEmpty <;> simp

/-- A signature that may be missing is missing in both grammars or in none. -/
theorem reworded_signatureIfAny (h : Renames n g g') (s : Option SignatureId) :
    Reworded g g' (g.signatureIfAny scope s) (g'.signatureIfAny scope s) := by
  cases s with
  | none => exact .nil
  | some s => exact reworded_signature h s none

/-! ## Conformances -/

/-- A declared conformance: its protocol, its module and the conformances it depends on. -/
theorem reworded_declaredConformance (h : Renames n g g') (c : ConformanceId) (t : TypeId) :
    Reworded g g' (g.declaredConformance scope c t) (g'.declaredConformance scope c t) := by
  unfold declaredConformance
  simp only [h.program, Program.rootOf_naming, Program.conditionalConformances_naming]
  refine (((Reworded.type _ (reworded_protocol h _)).append (reworded_moduleOf h _)).append
    ?_).append (.op nofun .nil)
  exact (RewordedRows.map _ fun x _ =>
    .phrase (p := .conformance (some x.1) x.2) trivial).listPieces

/-- One step of a derived conformance: a type, a protocol and an index. -/
theorem reworded_conformanceStep (h : Renames n g g') (step : AccessStep) :
    Reworded g g' (g.conformanceStep scope step) (g'.conformanceStep scope step) := by
  cases step <;>
    exact (Reworded.type _ (reworded_protocol h _)).append (.op nofun (.token nofun))

/-- A conformance with a subject, or a declared one. -/
theorem reworded_conformance (h : Renames n g g') {subject : Option TypeId}
    {ref : ConformanceRef} (hp : (Phrase.conformance subject ref).WellShaped g.program) :
    Reworded g g' (g.conformance scope subject ref) (g'.conformance scope subject ref) := by
  cases ref with
  | declared c t => exact reworded_declaredConformance h c t
  | fromSignature protocol =>
    cases subject with
    | none => exact hp.elim
    | some t =>
      unfold conformance derivedConformance
      simp only [h.program, Program.accessPath_naming]
      split
      · exact .flatMap _ fun step _ => reworded_conformanceStep h step
      · exact .fail rfl

/-- The body of a conformance descriptor has the same signature in both grammars. -/
theorem reworded_protocolConformance (h : Renames n g g') (c : ConformanceId) :
    Reworded g g' (g.protocolConformance scope c) (g'.protocolConformance scope c) := by
  have hsignature : g'.conformanceSignature c = g.conformanceSignature c := by
    simp only [conformanceSignature, h.program, Program.rootOf_naming, Program.nominalOf_naming,
      Program.signatureOf_naming]
  unfold protocolConformance
  simp only [hsignature, h.program, Program.rootOf_naming, Program.conformance_naming]
  exact ((Reworded.type _ (reworded_protocol h _)).append (reworded_moduleOf h _)).append
    (reworded_signatureIfAny h _)

theorem Renames.retroactive (h : Renames n g g') : g'.retroactive = g.retroactive := by
  funext refs
  simp only [Grammar.retroactive, h.program, Program.isRetroactive_naming]

theorem Renames.retroactiveOf (h : Renames n g g') : g'.retroactiveOf = g.retroactiveOf := by
  funext t
  simp only [Grammar.retroactiveOf, h.program, Program.substitutionsOf?_naming, h.retroactive]

/-- Only declared conformances are retroactive. -/
theorem exists_declared_of_mem_retroactive {refs : List ConformanceRef}
    {x : ConformanceRef × Nat} (h : x ∈ g.retroactive refs) : ∃ c t, x.1 = .declared c t := by
  obtain ⟨ref, i⟩ := x
  have hkept := (List.mem_filter.mp h).2
  cases ref with
  | declared c t => exact ⟨c, t, rfl⟩
  | fromSignature protocol => cases hkept

/-- Declared conformances are phrases that fit, so that a row of retroactive ones is kept. -/
theorem reworded_retroactivePieces {refs : List (ConformanceRef × Nat)}
    (hrefs : ∀ x ∈ refs, ∃ c t, x.1 = .declared c t) :
    Reworded g g' (retroactivePieces scope refs) (retroactivePieces scope refs) := by
  refine .flatMap refs fun x hx => ?_
  obtain ⟨c, t, hdeclared⟩ := hrefs x hx
  obtain ⟨ref, i⟩ := x
  cases hdeclared
  exact .cons (.phrase trivial) (.op nofun (.token nofun))

/-- The retroactive conformances of a type are declared ones. -/
theorem exists_declared_of_mem_retroactiveOf {t : TypeId} {x : ConformanceRef × Nat}
    (h : x ∈ g.retroactiveOf t) : ∃ c t, x.1 = .declared c t := by
  unfold Grammar.retroactiveOf at h
  split at h
  · exact exists_declared_of_mem_retroactive h
  · cases h

/-! ## Function types -/

/-- A label is a text of its own, which naming a declaration does not touch. -/
theorem reworded_label (h : Renames n g g') (l : Option Name) :
    Reworded g g' (g.label l) (g'.label l) := by
  cases l with
  | none => exact .nil
  | some x =>
    simp only [label, h.program, Program.text_naming]
    exact .token nofun

theorem named_flags (f : ParamFlags) : .nameless ∉ f.operators := by
  simp [ParamFlags.operators]

theorem named_functionType (f : FunctionType) : .nameless ∉ f.operators := by
  unfold FunctionType.operators
  cases f.differentiability <;> simp [Differentiability.operators]

theorem named_loweredFunction (f : LoweredFunction) : .nameless ∉ f.operators := by
  unfold LoweredFunction.operators
  cases f.repr <;> simp

theorem reworded_parameter (h : Renames n g g') (p : Parameter) (l : Option Name) :
    Reworded g g' (g.parameter scope p l) (g'.parameter scope p l) :=
  (reworded_label h l).append (.type _ (.ops (named_flags _)))

/-- Parameters are reworded one by one, each with its label or none. -/
theorem reworded_parameterList (h : Renames n g g') (ps : List Parameter)
    (labels : List (Option Name)) :
    RewordedRows g g' (g.parameterList scope ps labels) (g'.parameterList scope ps labels) := by
  induction ps generalizing labels with
  | nil => exact .nil
  | cons p ps ih => exact .cons (reworded_parameter h p _) (ih labels.tail)

/-- A parameter that stands alone in one grammar stands alone in the other. -/
theorem reworded_parameters (h : Renames n g g') (ps : List Parameter)
    (labels : List (Option Name)) :
    Reworded g g' (g.parameters scope ps labels) (g'.parameters scope ps labels) := by
  have hlist : Reworded g g' (markFirst (g.parameterList scope ps labels) ++ [.op .tuple])
      (markFirst (g'.parameterList scope ps labels) ++ [.op .tuple]) :=
    (reworded_parameterList h ps labels).markFirst.append (.op nofun .nil)
  match ps with
  | [] => exact .op nofun .nil
  | [p] =>
    have halone : g'.standsAlone p = g.standsAlone p := by
      funext l
      simp only [standsAlone, h.program, Program.types_naming]
    unfold parameters
    simp only [halone]
    exact .ite (.type _ .nil) hlist
  | _ :: _ :: _ => exact hlist

/-- A function type that is known to be one. -/
theorem reworded_function (h : Renames n g g') {t : TypeId} (labels : List (Option Name))
    (ht : g.program.types.kind t = .function) :
    Reworded g g' (g.function scope t labels) (g'.function scope t labels) := by
  obtain ⟨f, hf⟩ : ∃ f, g.program.types.node t = .function f := by
    unfold Arena.kind at ht
    cases hnode : g.program.types.node t <;> rw [hnode] at ht <;> cases ht
    exact ⟨_, rfl⟩
  unfold function
  simp only [h.program, Program.types_naming, hf, TypeNode.function?]
  exact (Reworded.type _ (reworded_parameters h _ _)).append (.ops (named_functionType _))

theorem reworded_lowered (f : LoweredFunction) :
    Reworded g g' (f.pieces scope) (f.pieces scope) :=
  (Reworded.types _).append (.ops (named_loweredFunction f))

/-! ## Types -/

theorem reworded_argLevel (args : List TypeId) :
    Reworded g g' (argLevel scope args) (argLevel scope args) :=
  (RewordedRows.map args fun _ _ => .type _ .nil).listPieces

/-- A type with arguments: both grammars agree whether it is an optional, and on its levels. -/
theorem reworded_boundGeneric (h : Renames n g g') (t : TypeId) (x : NominalType) :
    Reworded g g' (g.boundGeneric scope t x) (g'.boundGeneric scope t x) := by
  have hplain : Reworded g g'
      (g.nominal scope x.decl ++ (g.program.argLevels t).flatMap (argLevel scope)
        ++ retroactivePieces scope (g.retroactiveOf t) ++ [.op .boundGeneric])
      (g'.nominal scope x.decl ++ (g.program.argLevels t).flatMap (argLevel scope)
        ++ retroactivePieces scope (g.retroactiveOf t) ++ [.op .boundGeneric]) :=
    (((reworded_nominal h _).append (.flatMap _ fun args _ => reworded_argLevel args)).append
      (reworded_retroactivePieces fun _ => exists_declared_of_mem_retroactiveOf)).append
        (.op nofun .nil)
  have hoptional : g'.isOptional x.decl = g.isOptional x.decl := by
    simp only [isOptional, h.standardName?, h.program, Program.kindOf_naming]
  unfold boundGeneric
  simp only [h.retroactiveOf, hoptional, h.program, Program.argLevels_naming]
  split
  · exact .ite (.type _ (.op nofun .nil)) hplain
  · exact hplain

/-- A tuple is reworded element by element. -/
theorem reworded_tuple (h : Renames n g g') (elements : List TupleElement) :
    Reworded g g' (g.tuple scope elements) (g'.tuple scope elements) :=
  (RewordedRows.map elements fun e _ =>
    (reworded_label h e.label).append (.type _ .nil)).markFirst.append (.op nofun .nil)

/-- A composition is reworded protocol by protocol, with the same mark for its constraint. -/
theorem reworded_composition (h : Renames n g g') (c : Composition) :
    Reworded g g' (g.composition scope c) (g'.composition scope c) := by
  refine (RewordedRows.map c.protocols fun d _ => reworded_protocol h d).listPieces.append ?_
  split
  · exact .type _ (.op nofun .nil)
  · split
    · exact .op nofun .nil
    · exact .op nofun .nil

/-- A member whose declaration has a name is the same in both grammars. -/
theorem reworded_dependentMember (h : Renames n g g') {t base : TypeId} {d : DeclId}
    (ht : g.program.types.node t = .dependentMember base d) :
    Reworded g g' (g.dependentMember scope base d) (g'.dependentMember scope base d) := by
  unfold dependentMember
  cases hname : (g.program.decl d).name with
  | none => exact .member ⟨⟨t, base, ht⟩, hname⟩
  | some x =>
    simp only [h.program, Program.name_naming_of_some _ _ hname, Program.protocolOf?_naming,
      Program.text_naming, h.elides_eq]
    split
    · rename_i heq
      cases heq
    · exact .fail rfl
    · exact .ite (.type _ (.cons (.token nofun) (.op nofun .nil)))
        (.append (.type _ (reworded_protocol h _)) (.cons (.token nofun) (.op nofun .nil)))

/-- The declaration of an opaque result is the same node, or refused for its kind. -/
theorem reworded_opaqueDecl (h : Renames n g g') (d : DeclId) :
    Reworded g g' (g.opaqueDecl scope d) (g'.opaqueDecl scope d) := by
  unfold opaqueDecl
  simp only [h.program, Program.kindOf_naming]
  split
  · rename_i naming hkind
    have hreferent : Referent.ofDecl g.program d = .ok (.opaqueResult d) := by
      unfold Referent.ofDecl
      rw [hkind]
    rw [Referent.ofDecl_naming, hreferent]
    exact .decl d _
  · exact .fail rfl

/-- An opaque result is its declaration, its arguments and its retroactive conformances. -/
theorem reworded_opaqueResult (h : Renames n g g') (d : DeclId) (ordinal : Nat)
    (args : List TypeId) :
    Reworded g g' (g.opaqueResult scope d ordinal args)
      (g'.opaqueResult scope d ordinal args) := by
  unfold opaqueResult
  simp only [h.retroactive, h.program, Program.signatureOf_naming, Program.substitutions_naming]
  refine (((reworded_opaqueDecl h d).append (reworded_argLevel args)).append
    (reworded_retroactivePieces fun x hx => ?_)).append (.op nofun (.token nofun))
  split at hx
  · exact exists_declared_of_mem_retroactive hx
  · cases hx

/-- A structural type is reworded, by its kind. -/
theorem reworded_structural (h : Renames n g g') {t : TypeId}
    (ht : (g.program.types.kind t).isStructural = true) :
    Reworded g g' (g.structural scope t) (g'.structural scope t) := by
  unfold structural
  simp only [h.program, Program.types_naming]
  unfold Arena.kind at ht
  cases hnode : g.program.types.node t <;> rw [hnode] at ht
  case metatype => exact .type _ (.op nofun .nil)
  case existentialMetatype => exact .type _ (.op nofun .nil)
  case nominal => exact reworded_boundGeneric h _ _
  case boundGeneric => exact reworded_boundGeneric h _ _
  case tuple => exact reworded_tuple h _
  case function f => exact reworded_function h _ (by rw [Arena.kind, hnode]; rfl)
  case lowered => exact reworded_lowered _
  case existential => exact reworded_composition h _
  case dependentMember => exact reworded_dependentMember h hnode
  case opaqueResult => exact reworded_opaqueResult h _ _ _
  all_goals cases ht

/-- An alias is spelled as such in both grammars or in neither. -/
theorem reworded_aliased (h : Renames n g g') (d : DeclId) (underlying : TypeId) :
    Reworded g g' (g.aliased scope d underlying) (g'.aliased scope d underlying) := by
  unfold aliased
  simp only [h.program, Program.signatureOf_naming]
  exact .ite (reworded_nominal h d) (.type _ .nil)

/-- The opaque result of the function whose type is being written is a mark only. -/
theorem reworded_ownResult (ordinal : Nat) :
    Reworded g g' (ownResult ordinal) (ownResult ordinal) := by
  cases ordinal with
  | zero => exact .op nofun .nil
  | succ n => exact .op nofun (.token nofun)

/-- The grammar `g` refuses a sugared type that `g'` spells. -/
def RefusesSugar (g g' : Grammar) (scope : Scope) (p : Phrase) : Prop :=
  g.acceptsSugar = false ∧ g'.acceptsSugar = true ∧
    ∃ t, g.production scope p = [.fail (.nonCanonicalType t)]

/-- A type is reworded, unless it is sugared and only the second grammar accepts sugar. -/
theorem reworded_type (h : Renames n g g') (hsugar : g.acceptsSugar = true → g'.acceptsSugar = true)
    (t : TypeId) :
    Reworded g g' (g.type scope t) (g'.type scope t) ∨ RefusesSugar g g' scope (.type t) := by
  have hbody (hs : (g.program.types.kind t).isStructural = true) :
      Reworded g g' [.node scope (.type t) none] [.node scope (.type t) none] := .node hs
  have hcanonical : g'.program.types = g.program.types := by rw [h.program, Program.types_naming]
  by_cases hrefused : (!g.acceptsSugar && !g.program.types.isCanonical t) = true
  · -- refused by the first grammar: by the second as well, unless it accepts sugar
    have hrow : g.type scope t = [.fail (.nonCanonicalType t)] := by
      rw [type, if_pos hrefused]
    simp only [Bool.and_eq_true, Bool.not_eq_true'] at hrefused
    cases haccepts : g'.acceptsSugar with
    | true => exact .inr ⟨hrefused.1, haccepts, t, hrow⟩
    | false =>
      left
      rw [hrow, type, hcanonical, haccepts, hrefused.2]
      exact .fail rfl
  · left
    -- accepted by the first grammar, so accepted by the second
    have haccepted : ¬ (!g'.acceptsSugar && !g'.program.types.isCanonical t) = true := by
      rw [hcanonical]
      simp only [Bool.and_eq_true, Bool.not_eq_true'] at hrefused ⊢
      rintro ⟨hno, hcan⟩
      refine hrefused ⟨?_, hcan⟩
      cases haccepts : g.acceptsSugar with
      | false => rfl
      | true => rw [hsugar haccepts] at hno; cases hno
    rw [type, if_neg hrefused, type, if_neg haccepted, hcanonical]
    have hown : g'.isOwnResult scope = g.isOwnResult scope := by
      funext d
      simp only [isOwnResult, h.program, Program.kindOf_naming]
    simp only [hown]
    unfold Arena.kind at hbody
    split
    case h_2 => exact .op nofun (.token nofun)
    case h_3 => exact .op nofun (.token nofun)
    case h_9 => exact reworded_genericParam h _
    case h_10 => exact reworded_nominal h _
    case h_11 hnode => exact .ite (reworded_ownResult _) (hbody (by rw [hnode]; rfl))
    case h_12 => exact reworded_aliased h _ _
    case h_13 => exact .type _ .nil
    case h_14 => exact .type _ .nil
    case h_15 => exact .type _ .nil
    case h_16 => exact .type _ .nil
    case h_17 =>
      apply hbody
      cases hnode : g.program.types.node t <;> simp_all [TypeNode.kind, TypeKind.isStructural]
    all_goals exact .op nofun .nil

/-! ## Entities and contexts -/

theorem Renames.declScope (h : Renames n g g') : g'.declScope = g.declScope := by
  funext d
  simp only [Grammar.declScope, h.program, Program.signatureOf_naming]

/-- The type of a declaration, with its labels and its own signature. -/
theorem reworded_declType (h : Renames n g g') (d : DeclId) :
    Reworded g g' (g.declType scope d) (g'.declType scope d) := by
  unfold declType
  simp only [h.program, Program.interfaceType_naming]
  cases (g.program.decl d).interfaceType with
  | none => exact .fail rfl
  | some t =>
    simp only [h.declScope, Program.types_naming, Program.labels_naming,
      Program.ownSignature_naming, Program.outerSignature_naming]
    -- functions are written with the labels of the declaration, other types as they are
    have htype : Reworded g g'
        (if g.program.types.kind t == .function then
          g.function (g.declScope d) t (g.program.decl d).labels
          else [.type (g.declScope d) t])
        (if g.program.types.kind t == .function then
          g'.function (g.declScope d) t (g.program.decl d).labels
          else [.type (g.declScope d) t]) := by
      split
      · rename_i hkind
        exact reworded_function h _ (by simpa using hkind)
      · exact .type _ .nil
    cases (g.program.decl d).signature with
    | none => exact (htype.append .nil).append (.ite (.op nofun .nil) .nil)
    | some s =>
      simp only [isEmpty_signature, h.delta]
      exact (htype.append (reworded_signature h s _)).append (.ite (.op nofun .nil) .nil)

/-- A declaration is static in both programs or in neither. -/
theorem reworded_staticMark (h : Renames n g g') (d : DeclId) :
    Reworded g g' (g.staticMark d) (g'.staticMark d) := by
  unfold staticMark
  simp only [h.program, Program.flags_naming]
  exact .ite (.op nofun .nil) .nil

/-- A value declaration: its context, its name if it has one to write, its type and its
operator. -/
theorem reworded_value (h : Renames n g g') (d : DeclId) (isNamed : Bool) {operator : Operator}
    (hop : operator ≠ .nameless) :
    Reworded g g' (g.value scope d isNamed operator) (g'.value scope d isNamed operator) :=
  (((reworded_contextOf h d).append (.ite (reworded_declName h d) .nil)).append
    (reworded_declType h d)).append (.op hop (reworded_staticMark h d))

/-- A constructor has no name of its own, so that only its context and its type are reworded. -/
theorem reworded_constructor (h : Renames n g g') (d : DeclId) (allocating : Bool) :
    Reworded g g' (g.constructor scope d allocating) (g'.constructor scope d allocating) :=
  ((reworded_contextOf h d).append (reworded_declType h d)).append
    (.op (by cases allocating <;> nofun) .nil)

theorem reworded_destructor (h : Renames n g g') (d : DeclId) (deallocating : Bool) :
    Reworded g g' (g.destructor scope d deallocating) (g'.destructor scope d deallocating) :=
  (reworded_contextOf h d).append (.op (by cases deallocating <;> nofun) .nil)

/-- An entity is reworded, by the kind of its declaration. -/
theorem reworded_entity (h : Renames n g g') (d : DeclId) :
    Reworded g g' (g.entity scope d) (g'.entity scope d) := by
  unfold entity
  simp only [h.program, Program.kindOf_naming]
  split
  · exact reworded_value h d _ nofun
  · exact reworded_value h d _ nofun
  · exact reworded_value h d _ nofun
  · exact reworded_value h d _ nofun
  · exact reworded_constructor h d _
  · exact reworded_destructor h d _
  · exact ((reworded_contextOf h d).append (reworded_declName h d)).append (.op nofun .nil)
  · exact reworded_opaqueDecl h d
  · exact .context _

/-- A closure is told apart by its number in its context and by its type, not by a name. -/
theorem reworded_closure (h : Renames n g g') (c : ClosureId) :
    Reworded g g' (g.closure scope c) (g'.closure scope c) := by
  unfold closure
  simp only [h.program, Program.closure_naming, Program.signatureOf_naming]
  exact .cons (.context _) (.type _ (.op (by split <;> nofun) (.token nofun)))

/-- An accessor is written with the name and the type of the storage it belongs to. -/
theorem reworded_accessor (h : Renames n g g') (storage : DeclId) (kind : AccessorKind) :
    Reworded g g' (g.accessor scope storage kind) (g'.accessor scope storage kind) := by
  have hending {operator : Operator} (hop : operator ≠ .nameless) : Reworded g g'
      (g.declType scope storage ++ .op operator :: .op (.accessor kind) :: g.staticMark storage)
      (g'.declType scope storage ++
        .op operator :: .op (.accessor kind) :: g'.staticMark storage) :=
    (reworded_declType h storage).append (.op hop (.op nofun (reworded_staticMark h storage)))
  unfold accessor
  simp only [h.program, Program.kindOf_naming]
  split
  · exact ((reworded_contextOf h storage).append (reworded_declName h storage)).append
      (hending nofun)
  · exact (reworded_contextOf h storage).append (hending nofun)
  · exact .fail rfl

/-- An extension is marked by its module and its own requirements. -/
theorem reworded_extension (h : Renames n g g') (d extended : DeclId) :
    Reworded g g' (g.extension scope d extended) (g'.extension scope d extended) := by
  unfold extension
  simp only [h.program, Program.ownSignature_naming, Program.signatureOf_naming,
    Program.moduleOf_naming]
  refine (reworded_nominal h extended).append (.ite .nil ?_)
  cases (g.program.decl d).signature with
  | none => exact ((reworded_moduleOf h d).append .nil).append (.op nofun .nil)
  | some s =>
    simp only [isEmpty_signature, h.delta]
    exact ((reworded_moduleOf h d).append (reworded_signature h s _)).append
      (.op (by split <;> nofun) .nil)

/-- A declaration as a context: a module, an extension, a nominal type or an entity. -/
theorem reworded_declContext (h : Renames n g g') (d : DeclId) :
    Reworded g g' (g.declContext scope d) (g'.declContext scope d) := by
  unfold declContext
  simp only [h.program, Program.kindOf_naming]
  split
  · exact reworded_moduleDecl h d
  · exact reworded_moduleDecl h d
  · exact reworded_extension h d _
  all_goals first | exact reworded_nominal h d | exact reworded_entity h d

/-- A context is reworded, by what it is. -/
theorem reworded_context (h : Renames n g g') (c : Context) :
    Reworded g g' (g.context scope c) (g'.context scope c) := by
  cases c with
  | decl d => exact reworded_declContext h d
  | closure c => exact reworded_closure h c
  | initializer property => exact (reworded_entity h property).append (.op nofun .nil)
  | defaultArgument owner i =>
    exact (reworded_entity h owner).append (.op nofun (.token nofun))
  | accessor storage kind => exact reworded_accessor h storage kind

/-! ## Productions -/

/-- The body of a declaration that is a node: its name and its kind, or what it is the result
of. -/
theorem reworded_declBody (h : Renames n g g') (d : DeclId) :
    Reworded g g' (g.declBody scope d) (g'.declBody scope d) := by
  unfold declBody
  simp only [h.program, Program.kindOf_naming]
  split
  · exact reworded_declName h d
  · exact (reworded_entity h _).append (.op nofun .nil)
  · split
    · rename_i operator hoperator
      refine ((reworded_contextOf h d).append (reworded_declName h d)).append (.op ?_ .nil)
      rintro rfl
      unfold nominalOperator? at hoperator
      split at hoperator <;> cases hoperator
    · exact .fail rfl

/-- The productions of a phrase in two grammars that differ in the names of nameless
declarations are reworded, unless only one of them accepts sugar and meets it. -/
theorem reworded_production (h : Renames n g g')
    (hsugar : g.acceptsSugar = true → g'.acceptsSugar = true) {p : Phrase}
    (hp : p.WellShaped g.program) :
    Reworded g g' (g.production scope p) (g'.production scope p) ∨
      RefusesSugar g g' scope p := by
  cases p with
  | type t => exact reworded_type h hsugar t
  | context c => exact .inl (reworded_context h c)
  | conformance subject ref => exact .inl (reworded_conformance h hp)
  | body key =>
    cases key with
    | type t => exact .inl (reworded_structural h hp)
    | decl d => exact .inl (reworded_declBody h d)

end Grammar

end NameMangling
