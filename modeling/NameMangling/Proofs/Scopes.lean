/-
# Productions and scopes

How far a production depends on the scope it is spelled in.  A scope decides three things:
whether a generic parameter may be written, whether the protocol of a member goes without
saying, and how the conformance of a type parameter is derived.  In a grammar without
opaque result types, without conditional conformances and without elision only the first is
left, and it decides between writing the parameter and refusing it.

Main facts:
* `alike_production`: a production has the same pieces in all scopes, up to their scopes,
  unless it is refused in one of them;
* `alike_production_self`: no production contains a reference or a placeholder of its own, and
  its nodes can only become placeholders for what a placeholder may stand for.
-/
import Mathlib.Data.List.Forall2
import NameMangling.Mangler

namespace NameMangling

/-! ## Grammars in which a scope decides little -/

/-- A grammar in which what is written does not depend on the scope: there are no opaque
result types, which are spelled relative to the declaration they belong to, protocols of
members are always written, and no conformance is conditional. -/
structure Grammar.IsUniform (g : Grammar) : Prop where
  noOpaque : ∀ d naming, g.program.kindOf d ≠ .opaqueResult naming
  noElision : g.options.elidesProtocols = false
  unconditional : ∀ c, (g.program.rootOf c).conditional = none

/-- A mangler whose symbols are spelled without regard to scopes: its program has no opaque
result types and no conditional conformances, and it does not elide protocols. -/
structure Mangler.IsUniform (m : Mangler) : Prop where
  noOpaque : ∀ d naming, m.program.kindOf d ≠ .opaqueResult naming
  noElision : m.options.elidesProtocols = false
  unconditional : ∀ c root, m.program.conformance c = .declared root → root.conditional = none

/-- The conformance at the root of a chain is a declared one. -/
theorem Program.conditional_rootWithin {p : Program}
    (h : ∀ c root, p.conformance c = .declared root → root.conditional = none) (n : Nat)
    (c : ConformanceId) : (p.rootWithin n c).conditional = none := by
  induction n generalizing c with
  | zero => rfl
  | succ n ih =>
    unfold rootWithin
    split
    · rename_i root hroot
      exact h c root hroot
    · exact ih _

/-- The grammar of a uniform mangler is uniform, whether it keeps sugar or not. -/
theorem Mangler.IsUniform.grammar {m : Mangler} (h : m.IsUniform) (keepsSugar : Bool) :
    (m.grammar keepsSugar).IsUniform where
  noOpaque := h.noOpaque
  noElision := h.noElision
  unconditional := Program.conditional_rootWithin h.unconditional _

/-! ## Referents -/

/-- A referent is what it says: a struct, enum, class or protocol, or else an opaque result
type. -/
def Referent.Eligible (p : Program) : Referent → Prop
  | nominal d => (p.kindOf d).isNominal = true
  | opaqueResult d => ∃ naming, p.kindOf d = .opaqueResult naming

/-- The referent of a declaration is one that a placeholder may stand for. -/
theorem Referent.eligible_of_ofDecl {p : Program} {d : DeclId} {r : Referent}
    (h : Referent.ofDecl p d = .ok r) : r.Eligible p := by
  unfold ofDecl at h
  split at h
  · rename_i naming hkind
    cases h
    exact ⟨naming, hkind⟩
  · split at h
    · rename_i hnominal
      cases h
      exact hnominal
    · cases h

/-! ## Pieces up to scope -/

/-- Whether a token stands for something that is spelled elsewhere. -/
def Token.isReference : Token → Bool
  | .backReference _ | .placeholder _ => true
  | _ => false

/-- A phrase whose production reads no more of the scope than the parameters in it: any
phrase but the conformance of a type parameter. -/
def Phrase.Settled : Phrase → Prop
  | .conformance (some _) (.fromSignature _) => False
  | _ => True

/-- Two pieces that differ at most in their scope.  Of a node this asks that its referent is
eligible, and in a uniform grammar of a phrase that it is settled. -/
inductive Piece.Alike (g : Grammar) : Piece → Piece → Prop
  | token {t : Token} (direct : t.isReference = false) : Alike g (.token t) (.token t)
  | phrase {scope scope' : Scope} {p : Phrase}
      (settled : p.Settled ∨ ¬ g.IsUniform ∧ scope = scope') :
      Alike g (.phrase scope p) (.phrase scope' p)
  | node {scope scope' : Scope} {key : NodeKey} {r : Option Referent}
      (eligible : ∀ x ∈ r, x.Eligible g.program) :
      Alike g (.node scope key r) (.node scope' key r)
  | fail {e : Refusal} : Alike g (.fail e) (.fail e)

/-- Two lists of pieces that differ at most in the scopes. -/
def Alike (g : Grammar) : List Piece → List Piece → Prop := List.Forall₂ (Piece.Alike g)

namespace Alike

variable {g : Grammar} {ps ps' qs qs' : List Piece}

theorem nil : Alike g [] [] := List.Forall₂.nil

theorem cons {x y : Piece} (h : x.Alike g y) (hs : Alike g ps qs) : Alike g (x :: ps) (y :: qs) :=
  List.Forall₂.cons h hs

theorem append (h : Alike g ps qs) (h' : Alike g ps' qs') : Alike g (ps ++ ps') (qs ++ qs') :=
  List.rel_append h h'

theorem op (o : Operator) (hs : Alike g ps qs) : Alike g (.op o :: ps) (.op o :: qs) :=
  cons (.token rfl) hs

theorem fail (e : Refusal) : Alike g [.fail e] [.fail e] := cons .fail nil

/-- A node that never becomes a placeholder. -/
theorem plainNode {scope scope' : Scope} (key : NodeKey) :
    Alike g [.node scope key none] [.node scope' key none] :=
  cons (.node (by simp)) nil

/-- A node that may become a placeholder for a declaration. -/
theorem placedNode {scope scope' : Scope} (key : NodeKey) {d : DeclId} {r : Referent}
    (h : Referent.ofDecl g.program d = .ok r) :
    Alike g [.node scope key (some r)] [.node scope' key (some r)] :=
  cons (.node fun x hx => by cases hx; exact Referent.eligible_of_ofDecl h) nil

/-- An operator that is written under a condition. -/
theorem opIf (c : Prop) [Decidable c] (o : Operator) :
    Alike g (if c then [.op o] else []) (if c then [.op o] else []) := by
  split
  · exact op o nil
  · exact nil

/-- Tokens written one after the other are alike in every scope. -/
theorem tokens {ts : List Token} (h : ∀ t ∈ ts, t.isReference = false) :
    Alike g (ts.map .token) (ts.map .token) := by
  induction ts with
  | nil => exact nil
  | cons t ts ih =>
    exact cons (.token (h t (by simp))) (ih fun u hu => h u (by simp [hu]))

/-- Operators are written as they are in every scope. -/
theorem ops (os : List Operator) : Alike g (os.map .op) (os.map .op) := by
  have h : Alike g ((os.map Token.op).map .token) ((os.map Token.op).map .token) :=
    tokens (by simp [Token.isReference])
  rwa [List.map_map] at h

/-- The same list, with each item written in two scopes. -/
theorem flatMap {α : Type} {f f' : α → List Piece} (xs : List α)
    (h : ∀ x ∈ xs, Alike g (f x) (f' x)) : Alike g (xs.flatMap f) (xs.flatMap f') := by
  induction xs with
  | nil => exact nil
  | cons x xs ih =>
    rw [List.flatMap_cons, List.flatMap_cons]
    exact append (h x (by simp)) (ih fun y hy => h y (by simp [hy]))

/-- The same list, with one piece for each item. -/
theorem map {α : Type} {f f' : α → Piece} (xs : List α)
    (h : ∀ x ∈ xs, (f x).Alike g (f' x)) : Alike g (xs.map f) (xs.map f') := by
  induction xs with
  | nil => exact nil
  | cons x xs ih => exact cons (h x (by simp)) (ih fun y hy => h y (by simp [hy]))

/-- Whether anything is written does not depend on the scope. -/
theorem isEmpty_eq (h : Alike g ps qs) : ps.isEmpty = qs.isEmpty := by
  cases h <;> rfl

/-- Items in a row with a mark after the first. -/
theorem markFirst {xs ys : List (List Piece)} (h : List.Forall₂ (Alike g) xs ys) :
    Alike g (markFirst xs) (markFirst ys) := by
  cases h with
  | nil => exact nil
  | cons first rest => exact append first (op _ (List.rel_flatten rest))

/-- A list is alike when its rows are alike, and an empty one is an operator. -/
theorem listPieces {xs ys : List (List Piece)} (h : List.Forall₂ (Alike g) xs ys) :
    Alike g (listPieces xs) (listPieces ys) := by
  cases h with
  | nil => exact op _ nil
  | cons first rest => exact markFirst (.cons first rest)

/-- Items of a list, each written in two scopes. -/
theorem items {α : Type} {f f' : α → List Piece} (xs : List α)
    (h : ∀ x ∈ xs, Alike g (f x) (f' x)) : List.Forall₂ (Alike g) (xs.map f) (xs.map f') := by
  induction xs with
  | nil => exact .nil
  | cons x xs ih => exact .cons (h x (by simp)) (ih fun y hy => h y (by simp [hy]))

end Alike

/-! ## Choices that a scope could make -/

namespace Grammar

variable {g : Grammar} {scope scope' : Scope}

/-- In a uniform grammar a conformance has no conditions to be met. -/
theorem conditionalConformances_eq_nil (h : g.IsUniform) (c : ConformanceId) (t : TypeId) :
    g.program.conditionalConformances c t = [] := by
  simp [Program.conditionalConformances, h.unconditional c]

/-- Whether the protocol of a member goes without saying: never in a uniform grammar. -/
theorem elides_eq_of_uniform (h : scope = scope' ∨ g.IsUniform) (base : TypeId)
    (protocol : DeclId) : g.elides scope base protocol = g.elides scope' base protocol := by
  rcases h with rfl | h
  · rfl
  · simp [elides, h.noElision]

/-- Whether an opaque result belongs to the declaration that owns the scope: in a uniform grammar
there is none. -/
theorem isOwnResult_eq_of_uniform (h : scope = scope' ∨ g.IsUniform) (d : DeclId) :
    g.isOwnResult scope d = g.isOwnResult scope' d := by
  rcases h with rfl | h
  · rfl
  · have hown : ∀ s : Scope, g.isOwnResult s d = false := by
      rintro ⟨signature, owner⟩
      cases owner <;> simp [isOwnResult, h.noOpaque]
    rw [hown, hown]

/-! ## Names, modules and nominal declarations -/

/-- An identifier is a text, a stand-in or a refusal, none of which has a scope. -/
theorem alike_identifierPieces (d : DeclId) :
    Alike g (g.identifierPieces d) (g.identifierPieces d) := by
  unfold identifierPieces
  dsimp only
  split
  · exact .cons (.token rfl) .nil
  · split
    · exact .op _ .nil
    · exact .fail _

/-- A discriminator is a number or a text. -/
theorem alike_discriminatorPieces (d : DeclId) :
    Alike g (g.discriminatorPieces d) (g.discriminatorPieces d) := by
  unfold discriminatorPieces
  split
  · exact .op _ (.cons (.token rfl) .nil)
  · exact .cons (.token rfl) (.op _ .nil)
  · exact .nil

theorem alike_declName (d : DeclId) : Alike g (g.declName d) (g.declName d) :=
  (alike_identifierPieces d).append (alike_discriminatorPieces d)

/-- The parent of a declaration is one phrase, in whatever scope. -/
theorem alike_contextOf (d : DeclId) : Alike g (g.contextOf scope d) (g.contextOf scope' d) := by
  unfold contextOf
  split
  · exact .cons (.phrase (.inl trivial)) .nil
  · exact .fail _

/-- A module is an operator or a node that never becomes a placeholder. -/
theorem alike_moduleDecl (d : DeclId) :
    Alike g (g.moduleDecl scope d) (g.moduleDecl scope' d) := by
  unfold moduleDecl
  split
  · exact .op _ .nil
  · split
    · exact .op _ .nil
    · exact .plainNode _
    · exact .fail _

/-- The module of a declaration does not depend on where it is named. -/
theorem alike_moduleOf (d : DeclId) : Alike g (g.moduleOf scope d) (g.moduleOf scope' d) := by
  unfold moduleOf
  split
  · exact alike_moduleDecl _
  · exact .fail _

/-- A nominal declaration is an operator or a node, and the placeholder of a node is its own
referent. -/
theorem alike_nominal (d : DeclId) : Alike g (g.nominal scope d) (g.nominal scope' d) := by
  unfold nominal
  split
  · exact .fail _
  · split
    · exact .op _ .nil
    · split
      · exact .plainNode _
      · split
        · rename_i hreferent
          exact .placedNode _ hreferent
        · exact .fail _

/-- A protocol is spelled as the nominal declaration it is. -/
theorem alike_protocol (d : DeclId) : Alike g (g.protocol scope d) (g.protocol scope' d) := by
  unfold protocol
  split
  · exact alike_nominal d
  · exact .fail _

/-! ## Generic parameters and signatures -/

theorem direct_paramKey (key : ParamKey) : ∀ t ∈ key.tokens, t.isReference = false := by
  obtain ⟨depth, index⟩ := key
  cases depth <;> cases index <;> simp [ParamKey.tokens, Token.isReference]

theorem direct_layout (l : Layout) : ∀ t ∈ l.tokens, t.isReference = false := by
  cases l <;> simp [Layout.tokens, Token.isReference]

/-- The counts of a signature are no references. -/
theorem direct_countTokens (d : SignatureDelta) : ∀ t ∈ d.countTokens, t.isReference = false := by
  unfold SignatureDelta.countTokens
  split
  · simp
  · simp [Token.isReference]

/-- A parameter is the one production that a scope can refuse. -/
theorem alike_genericParam (key : ParamKey) :
    Alike g (g.genericParam scope key) (g.genericParam scope' key) ∨
      (∃ e, g.genericParam scope key = [.fail e]) ∨
      (∃ e, g.genericParam scope' key = [.fail e]) := by
  unfold genericParam
  dsimp only
  split
  · split
    · exact .inl (.tokens (direct_paramKey key))
    · exact .inr (.inr ⟨_, rfl⟩)
  · exact .inr (.inl ⟨_, rfl⟩)

theorem alike_type_piece (t : TypeId) : (Piece.type scope t).Alike g (.type scope' t) :=
  .phrase (.inl trivial)

/-- A requirement is its types, a protocol or a layout, each of them settled. -/
theorem alike_requirement (r : Requirement) :
    Alike g (g.requirement scope r) (g.requirement scope' r) := by
  refine .cons (alike_type_piece _) ?_
  split
  · exact (alike_protocol _).append (.op _ .nil)
  · exact .cons (alike_type_piece _) (.op _ .nil)
  · exact .cons (alike_type_piece _) (.op _ .nil)
  · exact .op _ (.tokens (direct_layout _))

/-- Which requirements a signature adds depends on its context and not on the scope. -/
theorem alike_signature (s : SignatureId) (context : Option SignatureId) :
    Alike g (g.signature scope s context) (g.signature scope' s context) := by
  unfold signature
  dsimp only
  split
  · exact .nil
  · exact ((Alike.flatMap _ fun r _ => alike_requirement r).append
      (.tokens (direct_countTokens _))).append (.op _ .nil)

/-- A signature that may be missing is missing in every scope. -/
theorem alike_signatureIfAny (s : Option SignatureId) :
    Alike g (g.signatureIfAny scope s) (g.signatureIfAny scope' s) := by
  cases s with
  | none => exact .nil
  | some s => exact alike_signature s none

/-! ## Conformances -/

theorem alike_retroactivePieces (refs : List (ConformanceRef × Nat)) :
    Alike g (retroactivePieces scope refs) (retroactivePieces scope' refs) :=
  .flatMap refs fun _ _ => .cons (.phrase (.inl trivial)) (.op _ (.cons (.token rfl) .nil))

/-- A declared conformance differs by the scopes of its conditions only, and a uniform grammar has
no conditions. -/
theorem alike_declaredConformance (h : scope = scope' ∨ g.IsUniform) (c : ConformanceId)
    (t : TypeId) :
    Alike g (g.declaredConformance scope c t) (g.declaredConformance scope' c t) := by
  refine (((Alike.cons (alike_type_piece _) (alike_protocol _)).append (alike_moduleOf _)).append
    (.listPieces ?_)).append (.op _ .nil)
  by_cases hu : g.IsUniform
  · rw [conditionalConformances_eq_nil hu]
    exact .nil
  · exact Alike.items _ fun _ _ => .cons (.phrase (.inr ⟨hu, h.resolve_right hu⟩)) .nil

/-- One step of a derived conformance: a type, a protocol and an index. -/
theorem alike_conformanceStep (step : AccessStep) :
    Alike g (g.conformanceStep scope step) (g.conformanceStep scope' step) := by
  cases step <;>
    exact (Alike.cons (alike_type_piece _) (alike_protocol _)).append
      (.op _ (.cons (.token rfl) .nil))

/-- A conformance that is derived from the signature in scope needs the same scope on both
sides. -/
theorem alike_conformance (h : scope = scope' ∨ g.IsUniform) (subject : Option TypeId)
    (ref : ConformanceRef) (hs : scope = scope' ∨ (Phrase.conformance subject ref).Settled) :
    Alike g (g.conformance scope subject ref) (g.conformance scope' subject ref) := by
  cases ref with
  | declared c t => exact alike_declaredConformance h c t
  | fromSignature protocol =>
    cases subject with
    | none => exact .fail _
    | some t =>
      obtain rfl : scope = scope' := hs.resolve_right id
      unfold conformance derivedConformance
      dsimp only
      split
      · exact .flatMap _ fun step _ => alike_conformanceStep step
      · exact .fail _

/-- The body of a conformance descriptor is alike, piece by piece. -/
theorem alike_protocolConformance (c : ConformanceId) :
    Alike g (g.protocolConformance scope c) (g.protocolConformance scope' c) :=
  ((Alike.cons (alike_type_piece _) (alike_protocol _)).append (alike_moduleOf _)).append
    (alike_signatureIfAny _)

/-! ## Function types -/

/-- A label is a text, which has no scope. -/
theorem alike_label (l : Option Name) : Alike g (g.label l) (g.label l) := by
  cases l with
  | none => exact .nil
  | some n => exact .cons (.token rfl) .nil

theorem alike_parameter (p : Parameter) (l : Option Name) :
    Alike g (g.parameter scope p l) (g.parameter scope' p l) :=
  (alike_label l).append (.cons (alike_type_piece _) (.ops _))

/-- The rows of the parameters are alike one by one. -/
theorem alike_parameterList (ps : List Parameter) (labels : List (Option Name)) :
    List.Forall₂ (Alike g) (g.parameterList scope ps labels)
      (g.parameterList scope' ps labels) := by
  induction ps generalizing labels with
  | nil => exact .nil
  | cons p ps ih => exact .cons (alike_parameter p _) (ih labels.tail)

/-- Whether a single parameter stands alone is read off the parameter. -/
theorem alike_parameters (ps : List Parameter) (labels : List (Option Name)) :
    Alike g (g.parameters scope ps labels) (g.parameters scope' ps labels) := by
  have hitems : List.Forall₂ (Alike g) (g.parameterList scope ps labels)
      (g.parameterList scope' ps labels) := alike_parameterList ps labels
  have hlist := (Alike.markFirst hitems).append (.op .tuple .nil)
  match ps with
  | [] => exact .op _ .nil
  | [p] =>
    unfold parameters
    dsimp only
    split
    · exact .cons (alike_type_piece _) .nil
    · exact hlist
  | _ :: _ :: _ => exact hlist

/-- A function type is its result, its parameters and its operators. -/
theorem alike_function (t : TypeId) (labels : List (Option Name)) :
    Alike g (g.function scope t labels) (g.function scope' t labels) := by
  unfold function
  split
  · exact (Alike.cons (alike_type_piece _) (alike_parameters _ _)).append (.ops _)
  · exact .fail _

theorem alike_lowered (f : LoweredFunction) : Alike g (f.pieces scope) (f.pieces scope') :=
  (Alike.map _ fun _ _ => alike_type_piece _).append (.ops _)

/-! ## Types -/

theorem alike_argLevel (args : List TypeId) :
    Alike g (argLevel scope args) (argLevel scope' args) :=
  .listPieces (Alike.items args fun _ _ => .cons (alike_type_piece _) .nil)

/-- A type with arguments is the short form of an optional, or its declaration with its levels. -/
theorem alike_boundGeneric (t : TypeId) (n : NominalType) :
    Alike g (g.boundGeneric scope t n) (g.boundGeneric scope' t n) := by
  have hplain : Alike g
      (g.nominal scope n.decl ++ (g.program.argLevels t).flatMap (argLevel scope)
        ++ retroactivePieces scope (g.retroactiveOf t) ++ [.op .boundGeneric])
      (g.nominal scope' n.decl ++ (g.program.argLevels t).flatMap (argLevel scope')
        ++ retroactivePieces scope' (g.retroactiveOf t) ++ [.op .boundGeneric]) :=
    (((alike_nominal _).append (.flatMap _ fun args _ => alike_argLevel args)).append
      (alike_retroactivePieces _)).append (.op _ .nil)
  unfold boundGeneric
  dsimp only
  split
  · split
    · exact .cons (alike_type_piece _) (.op _ .nil)
    · exact hplain
  · exact hplain

/-- The elements of a tuple are alike one by one. -/
theorem alike_tuple (elements : List TupleElement) :
    Alike g (g.tuple scope elements) (g.tuple scope' elements) :=
  (Alike.markFirst (Alike.items elements fun e _ =>
    (alike_label e.label).append (.cons (alike_type_piece _) .nil))).append (.op _ .nil)

/-- The protocols of a composition are alike one by one. -/
theorem alike_composition (c : Composition) :
    Alike g (g.composition scope c) (g.composition scope' c) := by
  apply (Alike.listPieces (Alike.items c.protocols fun d _ => alike_protocol d)).append
  split
  · exact .cons (alike_type_piece _) (.op _ .nil)
  · exact .op _ .nil

/-- A member asks the scope only whether its protocol goes without saying. -/
theorem alike_dependentMember (h : scope = scope' ∨ g.IsUniform) (base : TypeId)
    (member : DeclId) :
    Alike g (g.dependentMember scope base member) (g.dependentMember scope' base member) := by
  unfold dependentMember
  split
  · exact .fail _
  · exact .fail _
  · dsimp only
    rw [elides_eq_of_uniform h]
    split
    · exact .cons (alike_type_piece _) (.cons (.token rfl) (.op _ .nil))
    · exact .append (.cons (alike_type_piece _) (alike_protocol _))
        (.cons (.token rfl) (.op _ .nil))

/-- The declaration of an opaque result is a node whose placeholder is its own referent. -/
theorem alike_opaqueDecl (d : DeclId) :
    Alike g (g.opaqueDecl scope d) (g.opaqueDecl scope' d) := by
  unfold opaqueDecl
  split
  · split
    · rename_i hreferent
      exact .placedNode _ hreferent
    · exact .fail _
  · exact .fail _

/-- An opaque result is its declaration, its arguments and its retroactive conformances. -/
theorem alike_opaqueResult (d : DeclId) (ordinal : Nat) (args : List TypeId) :
    Alike g (g.opaqueResult scope d ordinal args) (g.opaqueResult scope' d ordinal args) :=
  (((alike_opaqueDecl d).append (alike_argLevel args)).append
    (alike_retroactivePieces _)).append (.op _ (.cons (.token rfl) .nil))

/-- A structural type is alike in two scopes, and only members ask for a uniform grammar. -/
theorem alike_structural (h : scope = scope' ∨ g.IsUniform) (t : TypeId) :
    Alike g (g.structural scope t) (g.structural scope' t) := by
  unfold structural
  split
  · exact .cons (alike_type_piece _) (.op _ .nil)
  · exact .cons (alike_type_piece _) (.op _ .nil)
  · exact alike_boundGeneric _ _
  · exact alike_boundGeneric _ _
  · exact alike_tuple _
  · exact alike_function _ _
  · exact alike_lowered _
  · exact alike_composition _
  · exact alike_dependentMember h _ _
  · exact alike_opaqueResult _ _ _
  · exact .fail _

/-- An alias is written as itself or as the type it stands for, by its signature. -/
theorem alike_aliased (d : DeclId) (underlying : TypeId) :
    Alike g (g.aliased scope d underlying) (g.aliased scope' d underlying) := by
  unfold aliased
  split
  · exact alike_nominal d
  · exact .cons (alike_type_piece _) .nil

/-- The result of the function whose type is being written is a mark only. -/
theorem alike_ownResult (ordinal : Nat) : Alike g (ownResult ordinal) (ownResult ordinal) := by
  cases ordinal with
  | zero => exact .op _ .nil
  | succ n => exact .op _ (.cons (.token rfl) .nil)

/-- A type is alike in two scopes, unless it is a parameter that one of them does not bind. -/
theorem alike_type (h : scope = scope' ∨ g.IsUniform) (t : TypeId) :
    Alike g (g.type scope t) (g.type scope' t) ∨
      (∃ e, g.type scope t = [.fail e]) ∨ (∃ e, g.type scope' t = [.fail e]) := by
  unfold type
  split
  · exact .inl (.fail _)
  · split
    case h_9 => exact alike_genericParam _
    -- the only spelling that asks which declaration owns the scope
    case h_11 d ordinal args _ =>
      left
      rw [isOwnResult_eq_of_uniform h]
      split
      · exact alike_ownResult _
      · exact .plainNode _
    all_goals left
    case h_2 => exact .op _ (.cons (.token rfl) .nil)
    case h_3 => exact .op _ (.cons (.token rfl) .nil)
    case h_10 => exact alike_nominal _
    case h_12 => exact alike_aliased _ _
    case h_13 => exact .cons (alike_type_piece _) .nil
    case h_14 => exact .cons (alike_type_piece _) .nil
    case h_15 => exact .cons (alike_type_piece _) .nil
    case h_16 => exact .cons (alike_type_piece _) .nil
    case h_17 => exact .plainNode _
    all_goals exact .op _ .nil

/-! ## Entities and contexts -/

/-- The type of a declaration is written in the scope of the declaration, wherever it is asked
for. -/
theorem alike_declType (d : DeclId) : Alike g (g.declType scope d) (g.declType scope' d) := by
  unfold declType
  split
  · exact .fail _
  · rename_i t _
    -- the type itself is spelled in the scope of the declaration in both cases
    have htype : Alike g
        (if g.program.types.kind t == .function then
          g.function (g.declScope d) t (g.program.decl d).labels
          else [.type (g.declScope d) t])
        (if g.program.types.kind t == .function then
          g.function (g.declScope d) t (g.program.decl d).labels
          else [.type (g.declScope d) t]) := by
      split
      · exact alike_function _ _
      · exact .cons (alike_type_piece _) .nil
    dsimp only
    cases (g.program.decl d).signature with
    | none => exact (htype.append .nil).append (.opIf _ _)
    | some s =>
      have hsig : Alike g (g.signature scope s (g.program.outerSignature d))
          (g.signature scope' s (g.program.outerSignature d)) := alike_signature s _
      dsimp only
      rw [hsig.isEmpty_eq]
      exact (htype.append hsig).append (.opIf _ _)

theorem alike_staticMark (d : DeclId) : Alike g (g.staticMark d) (g.staticMark d) :=
  .opIf _ _

/-- A value declaration: its context, its name if it has one to write, its type and its
operator. -/
theorem alike_value (d : DeclId) (isNamed : Bool) (operator : Operator) :
    Alike g (g.value scope d isNamed operator) (g.value scope' d isNamed operator) := by
  refine Alike.append (((alike_contextOf d).append ?_).append (alike_declType d))
    (.op _ (alike_staticMark d))
  split
  · exact alike_declName d
  · exact .nil

theorem alike_constructor (d : DeclId) (allocating : Bool) :
    Alike g (g.constructor scope d allocating) (g.constructor scope' d allocating) :=
  ((alike_contextOf d).append (alike_declType d)).append (.op _ .nil)

theorem alike_destructor (d : DeclId) (deallocating : Bool) :
    Alike g (g.destructor scope d deallocating) (g.destructor scope' d deallocating) :=
  (alike_contextOf d).append (.op _ .nil)

/-- An entity is alike in two scopes, by the kind of its declaration. -/
theorem alike_entity (d : DeclId) : Alike g (g.entity scope d) (g.entity scope' d) := by
  unfold entity
  split
  · exact alike_value _ _ _
  · exact alike_value _ _ _
  · exact alike_value _ _ _
  · exact alike_value _ _ _
  · exact alike_constructor _ _
  · exact alike_destructor _ _
  · exact ((alike_contextOf d).append (alike_declName d)).append (.op _ .nil)
  · exact alike_opaqueDecl _
  · exact .cons (.phrase (.inl trivial)) .nil

theorem alike_closure (c : ClosureId) : Alike g (g.closure scope c) (g.closure scope' c) :=
  .cons (.phrase (.inl trivial)) (.cons (alike_type_piece _) (.op _ (.cons (.token rfl) .nil)))

/-- An accessor is the context, the name and the type of its storage, with the kind behind. -/
theorem alike_accessor (storage : DeclId) (kind : AccessorKind) :
    Alike g (g.accessor scope storage kind) (g.accessor scope' storage kind) := by
  have hending : ∀ operator : Operator, Alike g
      (g.declType scope storage ++ .op operator :: .op (.accessor kind) :: g.staticMark storage)
      (g.declType scope' storage ++ .op operator :: .op (.accessor kind) :: g.staticMark storage) :=
    fun _ => (alike_declType storage).append (.op _ (.op _ (alike_staticMark storage)))
  unfold accessor
  dsimp only
  split
  · exact ((alike_contextOf storage).append (alike_declName storage)).append (hending _)
  · exact (alike_contextOf storage).append (hending _)
  · exact .fail _

/-- An extension is marked by its module and by the requirements that it adds. -/
theorem alike_extension (d extended : DeclId) :
    Alike g (g.extension scope d extended) (g.extension scope' d extended) := by
  unfold extension
  dsimp only
  apply (alike_nominal extended).append
  split
  · exact .nil
  · cases (g.program.decl d).signature with
    | none => exact ((alike_moduleOf d).append .nil).append (.op _ .nil)
    | some s =>
      have hsig : Alike g (g.signature scope s (g.program.signatureOf (.decl extended)))
          (g.signature scope' s (g.program.signatureOf (.decl extended))) := alike_signature s _
      dsimp only
      rw [hsig.isEmpty_eq]
      exact ((alike_moduleOf d).append hsig).append (.op _ .nil)

/-- A declaration as a context: a module, an extension, a nominal type or an entity. -/
theorem alike_declContext (d : DeclId) :
    Alike g (g.declContext scope d) (g.declContext scope' d) := by
  unfold declContext
  split
  · exact alike_moduleDecl _
  · exact alike_moduleDecl _
  · exact alike_extension _ _
  all_goals first | exact alike_nominal _ | exact alike_entity _

/-- A context is alike in two scopes, by what it is. -/
theorem alike_context (c : Context) : Alike g (g.context scope c) (g.context scope' c) := by
  cases c with
  | decl d => exact alike_declContext d
  | closure c => exact alike_closure c
  | initializer property => exact (alike_entity property).append (.op _ .nil)
  | defaultArgument owner i =>
    exact (alike_entity owner).append (.op _ (.cons (.token rfl) .nil))
  | accessor storage kind => exact alike_accessor storage kind

/-! ## Productions -/

/-- A module is its name, an opaque result the entity it belongs to, and a nominal declaration its
context and its name. -/
theorem alike_declBody (d : DeclId) : Alike g (g.declBody scope d) (g.declBody scope' d) := by
  unfold declBody
  split
  · exact alike_declName d
  · exact (alike_entity _).append (.op _ .nil)
  · split
    · exact ((alike_contextOf d).append (alike_declName d)).append (.op _ .nil)
    · exact .fail _

/-- In a uniform grammar a production has the same pieces in all scopes, up to their scopes,
unless it is refused in one of them. -/
theorem alike_production (h : scope = scope' ∨ g.IsUniform) {p : Phrase}
    (hp : scope = scope' ∨ p.Settled) :
    Alike g (g.production scope p) (g.production scope' p) ∨
      (∃ e, g.production scope p = [.fail e]) ∨ (∃ e, g.production scope' p = [.fail e]) := by
  cases p with
  | type t => exact alike_type h t
  | context c => exact .inl (alike_context c)
  | conformance subject ref => exact .inl (alike_conformance h subject ref hp)
  | body key =>
    cases key with
    | type t => exact .inl (alike_structural h t)
    | decl d => exact .inl (alike_declBody d)

/-- No production contains a reference or a placeholder of its own: these are only written
in the place of nodes, whose referents are eligible. -/
theorem alike_production_self (p : Phrase) :
    Alike g (g.production scope p) (g.production scope p) := by
  obtain h | ⟨e, he⟩ | ⟨e, he⟩ :=
    alike_production (g := g) (p := p) (Or.inl (Eq.refl scope)) (.inl rfl)
  · exact h
  · rw [he]; exact .fail e
  · rw [he]; exact .fail e

end Grammar

end NameMangling
