/-
# How deep types nest

A type is spelled by spelling what it is made of, by spelling the declarations it names with
all that is around them, and by spelling the retroactive conformances that its arguments rely
on.  The last brings types back: a conformance is spelled by the type that conforms, and by
the conformances that its conditions need of the arguments of that type.  Still everything
comes down.  Parts stand before what is made of them, arguments are among the parts, and a
conformance that is found for an argument is about that argument; so types, their bodies and
the conformances that they are the subject of take turns, and each round starts with an
earlier type.  The type in place `i` nests within `N + 3 * i + 2`, its body within one less and
a conformance of it within one more, where `N` is enough for any declaration.

This is so of canonical types without opaque results, spelled outside any signature, where
the conformance of a type parameter has no derivation and is refused at once.

Main definitions: `Arena.Plain`, `Grammar.TypeWithin`.

Main facts: `within_decl`, `typeWithin`.
-/
import NameMangling.Proofs.Nesting
import NameMangling.Proofs.Walks

namespace NameMangling

/-! ## Canonical types without opaque results -/

namespace Arena

variable {a : Arena} {n : TypeNode} {t u : TypeId}

/-- A type that is its own canonical form and in which no opaque result type occurs. -/
structure Plain (a : Arena) (t : TypeId) : Prop where
  issued : t.index < a.size
  canonical : a.canonical t = t
  transparent : (a.flags t).hasOpaque = false

/-- In a node there are no opaque results if it is none itself and its parts have none. -/
theorem hasOpaque_flagsOf_eq_false : (a.flagsOf n).hasOpaque = false ↔
    n.kind ≠ .opaqueResult ∧ ∀ t ∈ n.children, (a.flags t).hasOpaque = false := by
  rw [← Bool.not_eq_true, flag_flagsOf_iff TypeFlags.marks_hasOpaque]
  simp

namespace Plain

theorem desugared?_eq_none (h : a.Plain t) (ha : a.Settled) : (a.node t).desugared? = none :=
  ((ha.hasSugar_eq_false h.issued).mp ((ha.canonical_eq_self_iff h.issued).mp h.canonical)).1

/-- A type in which no opaque result occurs is none itself. -/
theorem kind_ne (h : a.Plain t) (ha : a.Settled) : (a.node t).kind ≠ .opaqueResult := by
  have htransparent := h.transparent
  rw [(ha.settledAt t h.issued).flags, hasOpaque_flagsOf_eq_false] at htransparent
  exact htransparent.1

/-- The parts of such a type are such types, and earlier ones. -/
theorem child (h : a.Plain t) (ha : a.Settled) (hu : u ∈ (a.node t).children) :
    a.Plain u ∧ u.index < t.index := by
  have hlt := ha.parts_lt h.issued hu
  have hissued := Nat.lt_trans hlt h.issued
  have hsugar := (ha.hasSugar_eq_false h.issued).mp
    ((ha.canonical_eq_self_iff h.issued).mp h.canonical)
  have htransparent := h.transparent
  rw [(ha.settledAt t h.issued).flags, hasOpaque_flagsOf_eq_false] at htransparent
  exact ⟨⟨hissued, ha.canonical_eq_self hissued (hsugar.2 u hu), htransparent.2 u hu⟩, hlt⟩

end Plain

end Arena

/-! ## What conformances are about -/

namespace Program

variable {p : Program} {t u : TypeId}

/-- Plain types before `t`. -/
def PlainBefore (p : Program) (t u : TypeId) : Prop := p.types.Plain u ∧ u.index < t.index

/-- A conformance that is not a declared one of a type, or one of a plain type before `t`. -/
def RefBefore (p : Program) (t : TypeId) : ConformanceRef → Prop
  | .fromSignature _ => True
  | .declared _ u => p.PlainBefore t u

namespace Sound

variable (hp : p.Sound) (ht : p.types.Plain t)
include hp ht

/-- The arguments of a type and of those around it come before it. -/
theorem plainBefore_of_mem_argLevelsUp {n : Nat} {args : List TypeId}
    (hargs : args ∈ p.argLevelsUp n t) (hu : u ∈ args) : p.PlainBefore t u := by
  induction n generalizing t with
  | zero => cases hargs
  | succ n ih =>
    rw [argLevelsUp] at hargs
    cases hnominal : (p.types.node t).nominal? with
    | none => rw [hnominal] at hargs; cases hargs
    | some nominal =>
      have hchildren := nominal_children hnominal
      simp only [hnominal, List.mem_cons] at hargs
      rcases hargs with rfl | hargs
      · exact ht.child hp.settled (by simp [hchildren, hu])
      · cases hparent : nominal.parent with
        | none => rw [hparent] at hargs; cases hargs
        | some v =>
          rw [hparent] at hargs
          obtain ⟨hv, hlt⟩ := ht.child hp.settled (u := v) (by simp [hchildren, hparent])
          obtain ⟨hplain, hlt'⟩ := ih hv hargs
          exact ⟨hplain, Nat.lt_trans hlt' hlt⟩

theorem plainBefore_of_mem_argLevels {args : List TypeId} (hargs : args ∈ p.argLevels t)
    (hu : u ∈ args) : p.PlainBefore t u :=
  hp.plainBefore_of_mem_argLevelsUp ht (List.mem_reverse.mp hargs) hu

/-- The arguments that the substitutions of a type are made of come before it. -/
theorem plainBefore_of_mem_flattenedArgs (hu : u ∈ p.flattenedArgs t) : p.PlainBefore t u := by
  unfold flattenedArgs at hu
  rw [ht.canonical] at hu
  obtain ⟨args, hargs, hu⟩ := List.mem_flatten.mp hu
  exact hp.plainBefore_of_mem_argLevels ht hargs hu

end Sound

/-- The conformance of a type that is found is about that type. -/
theorem refBefore_conformanceOf (hu : p.PlainBefore t u) (protocol : DeclId) :
    p.RefBefore t (p.conformanceOf u protocol) := by
  unfold conformanceOf
  split
  · trivial
  · dsimp only
    split
    · show p.PlainBefore t (p.types.canonical u)
      rw [hu.1.canonical]
      exact hu
    · trivial

/-- What the substitutions of a type replace parameters with are its arguments. -/
theorem substitutionsOf?_eq_some {subs : Substitutions} (h : p.substitutionsOf? t = some subs) :
    ∃ s, subs = p.substitutions s (p.flattenedArgs t) := by
  unfold substitutionsOf? at h
  obtain ⟨d, -, h⟩ := Option.bind_eq_some_iff.mp h
  obtain ⟨s, -, h⟩ := Option.bind_eq_some_iff.mp h
  dsimp only at h
  split at h
  · cases h
    exact ⟨s, rfl⟩
  · cases h

namespace Sound

variable (hp : p.Sound) (ht : p.types.Plain t)
include hp ht

/-- The conformances that the arguments of a type rely on are about these. -/
theorem refBefore_substitutions {s : SignatureId} {ref : ConformanceRef}
    (h : ref ∈ (p.substitutions s (p.flattenedArgs t)).conformances) : p.RefBefore t ref := by
  obtain ⟨⟨subject, protocol⟩, -, rfl⟩ := List.mem_map.mp h
  dsimp only
  split
  · rename_i u hu
    refine refBefore_conformanceOf (hp.plainBefore_of_mem_flattenedArgs ht ?_) protocol
    obtain ⟨key, -, hu⟩ := Option.bind_eq_some_iff.mp hu
    obtain ⟨i, -, hu⟩ := Option.bind_eq_some_iff.mp hu
    exact List.mem_of_getElem? hu
  · trivial

/-- The conformances that conditions need are about arguments of the type. -/
theorem refBefore_conditional {c : ConformanceId} {x : TypeId × ConformanceRef}
    (h : x ∈ p.conditionalConformances c t) : p.RefBefore t x.2 := by
  unfold conditionalConformances at h
  dsimp only at h
  split at h
  · rename_i conditional subs hconditional hsubs
    obtain ⟨s, rfl⟩ := substitutionsOf?_eq_some hsubs
    obtain ⟨r, -, hr⟩ := List.mem_filterMap.mp h
    obtain ⟨⟨subject, protocol⟩, -, hr⟩ := Option.bind_eq_some_iff.mp hr
    obtain ⟨key, -, hr⟩ := Option.bind_eq_some_iff.mp hr
    obtain ⟨u, hu, rfl⟩ := Option.map_eq_some_iff.mp hr
    refine refBefore_conformanceOf (hp.plainBefore_of_mem_flattenedArgs ht ?_) protocol
    obtain ⟨i, -, hu⟩ := Option.bind_eq_some_iff.mp hu
    exact List.mem_of_getElem? hu
  · cases h

/-- So it is with the retroactive ones among them. -/
theorem refBefore_retroactiveOf {g : Grammar} (hg : g.program = p) {x : ConformanceRef × Nat}
    (h : x ∈ g.retroactiveOf t) : p.RefBefore t x.1 := by
  subst hg
  unfold Grammar.retroactiveOf at h
  split at h
  · rename_i subs hsubs
    obtain ⟨s, rfl⟩ := substitutionsOf?_eq_some hsubs
    have hmem := (List.mem_filter.mp h).1
    exact hp.refBefore_substitutions ht (List.fst_mem_of_mem_zipIdx hmem)
  · cases h

end Sound

end Program

namespace Grammar

variable {g : Grammar} {P : Scope → Phrase → Prop} {scope : Scope} {d : DeclId} {t : TypeId}

/-! ## What productions open: declarations -/

/-- A name is made of tokens, or is refused, and opens nothing. -/
theorem opens_declName (d : DeclId) : Opens P (g.declName d) := by
  refine .append ?_ ?_
  · unfold identifierPieces
    dsimp only
    split
    · exact .token _ .nil
    · split
      · exact .op _ .nil
      · exact .fail _
  · unfold discriminatorPieces
    split
    · exact .op _ (.token _ .nil)
    · exact .token _ (.op _ .nil)
    · exact .nil

/-- A declaration opens the context that it lies in. -/
theorem opens_contextOf (h : ∀ c, (g.program.decl d).parent = some c → P scope (.context c)) :
    Opens P (g.contextOf scope d) := by
  unfold contextOf
  split
  · rename_i c hc
    exact .cons (h c hc) .nil
  · exact .fail _

/-- A native module opens its own body, any other module nothing. -/
theorem opens_moduleDecl (h : (g.program.kindOf d).isModule = true → P scope (.body (.decl d))) :
    Opens P (g.moduleDecl scope d) := by
  unfold moduleDecl
  split
  · exact .op _ .nil
  · split
    · exact .op _ .nil
    · rename_i hkind
      exact .cons (h (by rw [hkind]; rfl)) .nil
    · exact .fail _

/-- What lies in a module opens the body of that module. -/
theorem opens_moduleOf
    (h : ∀ m, g.program.moduleOf (.decl d) = some m → (g.program.kindOf m).isModule = true →
      P scope (.body (.decl m))) : Opens P (g.moduleOf scope d) := by
  unfold moduleOf
  split
  · rename_i m hm
    exact opens_moduleDecl (h m hm)
  · exact .fail _

/-- A nominal declaration with a spelling of its own opens its body at most. -/
theorem opens_nominal
    (h : (nominalOperator? (g.program.kindOf d)).isSome = true → P scope (.body (.decl d))) :
    Opens P (g.nominal scope d) := by
  unfold nominal
  split
  · exact .fail _
  · rename_i hoperator
    have hbody := h (by rw [hoperator]; rfl)
    split
    · exact .op _ .nil
    · split
      · exact .cons hbody .nil
      · split
        · exact .cons hbody .nil
        · exact .fail _

/-- A protocol opens its body at most. -/
theorem opens_protocol
    (h : (g.program.kindOf d).isProtocol = true → P scope (.body (.decl d))) :
    Opens P (g.protocol scope d) := by
  unfold protocol
  split
  · rename_i hprotocol
    exact opens_nominal fun _ => h hprotocol
  · exact .fail _

/-- A declaration that types may lie in opens the context around it. -/
theorem opens_declBody (hplace : (g.program.kindOf d).isPlaceOfTypes = true)
    (h : ∀ c, (g.program.decl d).parent = some c → P scope (.context c)) :
    Opens P (g.declBody scope d) := by
  unfold declBody
  split
  · exact opens_declName d
  · rename_i hkind
    rw [hkind] at hplace
    cases hplace
  · split
    · exact .append (.append (opens_contextOf h) (opens_declName d)) (.op _ .nil)
    · exact .fail _

/-- A place of types, named as a context, opens its body at most. -/
theorem opens_declContext (hplace : (g.program.kindOf d).isPlaceOfTypes = true)
    (h : P scope (.body (.decl d))) : Opens P (g.context scope (.decl d)) := by
  show Opens P (g.declContext scope d)
  unfold declContext
  cases hkind : g.program.kindOf d with
  | nativeModule | foreignModule => exact opens_moduleDecl fun _ => h
  | structType | enumType | classType | protocolType | typeAlias => exact opens_nominal fun _ => h
  | associatedType | extension | func | constructor | destructor | property | subscript
    | enumElement | opaqueResult =>
    rw [hkind] at hplace
    cases hplace

/-! ## Depths of declarations -/

/-- The body of a module nests within one level, as a module lies in nothing. -/
theorem within_module (h : (g.program.kindOf d).isModule = true) :
    g.Within 1 scope (.body (.decl d)) := by
  show Opens _ (g.declBody scope d)
  unfold declBody
  cases hkind : g.program.kindOf d with
  | nativeModule => exact opens_declName d
  | foreignModule => exact .fail _
  | _ => rw [hkind] at h; cases h

/-- Each declaration around a declaration adds a context and a body to what is nested. -/
theorem within_decl_ancestors (h : g.program.LiesInTypes d) :
    g.Within (2 * (g.program.ancestors (.decl d)).length) scope (.body (.decl d)) := by
  induction hn : (g.program.ancestors (.decl d)).length generalizing d with
  | zero =>
    have hself := g.program.mem_ancestors (.decl d)
    rw [List.length_eq_zero_iff.mp hn] at hself
    cases hself
  | succ n ih =>
    refine opens_declBody h.place fun c hc => ?_
    obtain ⟨q, rfl, hancestors, hq⟩ := h.parent hc
    have hlength : (g.program.ancestors (.decl q)).length = n := by
      simpa [hancestors] using hn
    have hpos := List.length_pos_of_mem (g.program.mem_ancestors (.decl q))
    obtain ⟨m, rfl⟩ : ∃ m, n = m + 1 := ⟨n - 1, by omega⟩
    exact opens_declContext hq.place (ih hq hlength)

end Grammar

/-- A bound on the depth of declarations that types may lie in. -/
def Program.declDepth (p : Program) : Nat := 2 * p.walkBound

namespace Grammar

variable {g : Grammar} {P : Scope → Phrase → Prop} {scope : Scope} {d : DeclId} {t : TypeId}

/-- The body of a declaration whose way out leads through places of types nests within the bound
for declarations. -/
theorem within_decl (h : g.program.LiesInTypes d) :
    g.Within g.program.declDepth scope (.body (.decl d)) := by
  have hlength := h.ends.length_walk_le g.program.stepsOut_parent? g.program.walkBound
  refine (within_decl_ancestors h).mono ?_
  unfold Program.declDepth Program.ancestors
  omega

/-! ## What productions open: types and conformances -/

/-- A list of arguments opens the arguments. -/
theorem opens_argLevel {args : List TypeId} (h : ∀ u ∈ args, P scope (.type u)) :
    Opens P (argLevel scope args) := by
  refine .listPieces fun ps hps => ?_
  obtain ⟨u, hu, rfl⟩ := List.mem_map.mp hps
  exact .cons (h u hu) .nil

/-- A row of retroactive conformances opens the conformances. -/
theorem opens_retroactivePieces {refs : List (ConformanceRef × Nat)}
    (h : ∀ x ∈ refs, P scope (.conformance none x.1)) :
    Opens P (retroactivePieces scope refs) :=
  .flatMap fun x hx => .cons (h x hx) (.op _ (.token _ .nil))

/-- A type with arguments opens its declaration, its arguments on all levels and the retroactive
conformances. -/
theorem opens_boundGeneric {n : NominalType} (hnominal : Opens P (g.nominal scope n.decl))
    (hlevels : ∀ args ∈ g.program.argLevels t, ∀ u ∈ args, P scope (.type u))
    (hargs : ∀ u ∈ n.args, P scope (.type u))
    (hretroactive : ∀ x ∈ g.retroactiveOf t, P scope (.conformance none x.1)) :
    Opens P (g.boundGeneric scope t n) := by
  have hplain : Opens P (g.nominal scope n.decl
      ++ (g.program.argLevels t).flatMap (argLevel scope)
      ++ retroactivePieces scope (g.retroactiveOf t) ++ [.op .boundGeneric]) :=
    .append (.append (.append hnominal (.flatMap fun args h => opens_argLevel (hlevels args h)))
      (opens_retroactivePieces hretroactive)) (.op _ .nil)
  unfold boundGeneric
  dsimp only
  split
  · rename_i wrapped _ hwrapped
    split
    · exact .cons (hargs wrapped (by simp [hwrapped])) (.op _ .nil)
    · exact hplain
  · exact hplain

/-- A label is a token and opens nothing. -/
theorem opens_label (l : Option Name) : Opens P (g.label l) := by
  unfold label
  split
  · exact .token _ .nil
  · exact .nil

/-- A tuple opens the types of its elements. -/
theorem opens_tuple {elements : List TupleElement} (h : ∀ e ∈ elements, P scope (.type e.type)) :
    Opens P (g.tuple scope elements) := by
  refine .append (.markFirst fun ps hps => ?_) (.op _ .nil)
  obtain ⟨e, he, rfl⟩ := List.mem_map.mp hps
  exact .append (opens_label _) (.cons (h e he) .nil)

/-- A composition opens its protocols and its superclass. -/
theorem opens_composition {c : Composition} (hprotocol : ∀ d, Opens P (g.protocol scope d))
    (hsuperclass : ∀ u ∈ c.superclass, P scope (.type u)) :
    Opens P (g.composition scope c) := by
  refine .append (.listPieces fun ps hps => ?_) ?_
  · obtain ⟨d, -, rfl⟩ := List.mem_map.mp hps
    exact hprotocol d
  · split
    · rename_i u hu
      exact .cons (hsuperclass u hu) (.op _ .nil)
    · exact .op _ .nil

/-- A dependent member opens its base and the protocol it belongs to. -/
theorem opens_dependentMember {base : TypeId} {member : DeclId}
    (hprotocol : ∀ d, Opens P (g.protocol scope d)) (hbase : P scope (.type base)) :
    Opens P (g.dependentMember scope base member) := by
  unfold dependentMember
  split
  · exact .fail _
  · exact .fail _
  · dsimp only
    split
    · exact .cons hbase (.token _ (.op _ .nil))
    · exact .cons hbase (.append (hprotocol _) (.token _ (.op _ .nil)))

theorem opens_parameter {q : Parameter} (h : P scope (.type q.type)) (l : Option Name) :
    Opens P (g.parameter scope q l) :=
  .append (opens_label l) (.cons h (.ops _))

/-- Each row of a parameter list opens the type of the parameter. -/
theorem opens_parameterList {qs : List Parameter} (h : ∀ q ∈ qs, P scope (.type q.type))
    (labels : List (Option Name)) : ∀ ps ∈ g.parameterList scope qs labels, Opens P ps := by
  induction qs generalizing labels with
  | nil => simp [parameterList]
  | cons q qs ih =>
    rintro ps (_ | ⟨_, hps⟩)
    · exact opens_parameter (h q (by simp)) _
    · exact ih (fun q hq => h q (by simp [hq])) _ ps hps

/-- A parameter list opens the types of the parameters, also where one stands alone. -/
theorem opens_parameters {qs : List Parameter} (h : ∀ q ∈ qs, P scope (.type q.type))
    (labels : List (Option Name)) : Opens P (g.parameters scope qs labels) := by
  have hlist : Opens P (markFirst (g.parameterList scope qs labels) ++ [.op .tuple]) :=
    .append (.markFirst (opens_parameterList h labels)) (.op _ .nil)
  unfold parameters
  dsimp only
  split
  · exact .op _ .nil
  · split
    · exact .cons (h _ (by simp)) .nil
    · exact hlist
  · exact hlist

/-- A function type opens the types it is made of. -/
theorem opens_function (h : ∀ u ∈ (g.program.types.node t).children, P scope (.type u))
    (labels : List (Option Name)) : Opens P (g.function scope t labels) := by
  unfold function
  cases hnode : g.program.types.node t with
  | function f =>
    rw [hnode] at h
    have hparams : ∀ q ∈ f.params, P scope (.type q.type) := fun q hq =>
      h _ (List.mem_append_left _ (List.mem_map_of_mem hq))
    exact .cons (h _ (List.mem_append_right _ (by simp)))
      (.append (opens_parameters hparams labels) (.ops _))
  | _ => exact .fail _

theorem opens_lowered {f : LoweredFunction}
    (h : ∀ u ∈ (TypeNode.lowered f).children, P scope (.type u)) : Opens P (f.pieces scope) :=
  .append (.map h) (.ops _)

/-- The body of a type without opaque results opens its declaration and its parts, the
arguments around it, protocols, and retroactive conformances. -/
theorem opens_structural (hkind : (g.program.types.node t).kind ≠ .opaqueResult)
    (hnominal : ∀ n, (g.program.types.node t).nominal? = some n → Opens P (g.nominal scope n.decl))
    (hprotocol : ∀ d, Opens P (g.protocol scope d))
    (hparts : ∀ u ∈ (g.program.types.node t).children, P scope (.type u))
    (hlevels : ∀ args ∈ g.program.argLevels t, ∀ u ∈ args, P scope (.type u))
    (hretroactive : ∀ x ∈ g.retroactiveOf t, P scope (.conformance none x.1)) :
    Opens P (g.structural scope t) := by
  unfold structural
  cases hnode : g.program.types.node t <;> rw [hnode] at hkind hnominal hparts
  case metatype u => exact .cons (hparts u (by simp [TypeNode.children])) (.op _ .nil)
  case existentialMetatype u => exact .cons (hparts u (by simp [TypeNode.children])) (.op _ .nil)
  case nominal d parent =>
    exact opens_boundGeneric (hnominal ⟨d, parent, []⟩ rfl) hlevels (by simp) hretroactive
  case boundGeneric d parent args =>
    exact opens_boundGeneric (hnominal ⟨d, parent, args⟩ rfl) hlevels
      (fun u hu => hparts u (List.mem_append_right _ hu)) hretroactive
  case tuple => exact opens_tuple fun e he => hparts _ (List.mem_map_of_mem he)
  case function => exact opens_function (by rw [hnode]; exact hparts) []
  case lowered => exact opens_lowered hparts
  case existential c =>
    exact opens_composition hprotocol fun u hu => hparts u (Option.mem_toList.mpr hu)
  case dependentMember base _ =>
    exact opens_dependentMember hprotocol (hparts base (by simp [TypeNode.children]))
  case opaqueResult => exact absurd rfl hkind
  all_goals exact .fail _

/-- A type without sugar and opaque results opens the declaration it names or its body. -/
theorem opens_type (hkind : (g.program.types.node t).kind ≠ .opaqueResult)
    (hplain : (g.program.types.node t).desugared? = none)
    (hnominal : ∀ n, (g.program.types.node t).nominal? = some n → Opens P (g.nominal scope n.decl))
    (hbody : P scope (.body (.type t))) : Opens P (g.type scope t) := by
  have hnode' : Opens P [.node scope (.type t) none] := .cons hbody .nil
  unfold type
  split
  · exact .fail _
  cases hnode : g.program.types.node t <;> rw [hnode] at hkind hplain hnominal
  case builtinInt => exact .op _ (.token _ .nil)
  case builtinFloat => exact .op _ (.token _ .nil)
  case genericParam key =>
    show Opens P (g.genericParam scope key)
    unfold genericParam
    dsimp only
    split
    · exact .map fun _ _ => trivial
    · exact .fail _
  case nominal d parent =>
    cases parent with
    | none => exact hnominal ⟨d, none, []⟩ rfl
    | some u => exact hnode'
  case opaqueResult => exact absurd rfl hkind
  case aliased | paren | optionalSugar | arraySugar | dictionarySugar => cases hplain
  all_goals first | exact hnode' | exact .op _ .nil

/-- A declared conformance opens the type that conforms, a protocol, a module, and the
conformances that its conditions need. -/
theorem opens_declaredConformance {c : ConformanceId} (htype : P scope (.type t))
    (hprotocol : ∀ d, Opens P (g.protocol scope d))
    (hmodule : Opens P (g.moduleOf scope (g.program.rootOf c).context))
    (hconditions : ∀ x ∈ g.program.conditionalConformances c t,
      P scope (.conformance (some x.1) x.2)) :
    Opens P (g.declaredConformance scope c t) := by
  refine .cons htype (.append (.append (.append (hprotocol _) hmodule) ?_) (.op _ .nil))
  refine .listPieces fun ps hps => ?_
  obtain ⟨x, hx, rfl⟩ := List.mem_map.mp hps
  exact .cons (hconditions x hx) .nil

/-- Outside any signature the conformance of a type parameter is refused. -/
theorem opens_fromSignature (subject : Option TypeId) (protocol : DeclId) :
    Opens P (g.conformance {} subject (.fromSignature protocol)) := by
  cases subject <;> exact .fail _

/-! ## Depths of types -/

/-- How deep a type nests, its body, and the conformances it is the subject of. -/
structure TypeWithin (g : Grammar) (t : TypeId) : Prop where
  body : g.Within (g.program.declDepth + 3 * t.index + 1) {} (.body (.type t))
  type : g.Within (g.program.declDepth + 3 * t.index + 2) {} (.type t)
  conformance : ∀ subject c,
    g.Within (g.program.declDepth + 3 * t.index + 3) {} (.conformance subject (.declared c t))

theorem one_le_declDepth (p : Program) : 1 ≤ p.declDepth := by
  unfold Program.declDepth Program.walkBound
  omega

/-- A conformance about a plain type before `t` nests within what is left for the body of `t`. -/
theorem within_ref {subject : Option TypeId} {ref : ConformanceRef} {n : Nat}
    (h : ∀ u, g.program.PlainBefore t u → g.TypeWithin u) (href : g.program.RefBefore t ref)
    (hn : g.program.declDepth + 3 * t.index ≤ n) : g.Within n {} (.conformance subject ref) := by
  cases ref with
  | fromSignature protocol =>
    have hone := one_le_declDepth g.program
    obtain ⟨n, rfl⟩ : ∃ m, n = m + 1 := ⟨n - 1, by omega⟩
    exact opens_fromSignature subject protocol
  | declared c u =>
    have hlt := href.2
    exact ((h u href).conformance subject c).mono (by omega)

section

variable (hp : g.program.Sound) (hg : g.program.Grounded) (hnames : g.program.NamesPlaced)
include hg

/-- A protocol lies where types may lie, so that it nests within the bound for declarations. -/
theorem opens_protocol_within {n : Nat} (hn : g.program.declDepth ≤ n) :
    Opens (g.Within n) (g.protocol scope d) := by
  refine opens_protocol fun hprotocol => (within_decl (hg.nominal d ?_)).mono hn
  cases hkind : g.program.kindOf d <;> simp_all [DeclKind.isProtocol, DeclKind.isNominal]

include hnames

/-- A declaration that a type names as a nominal type opens a declaration that types may lie
in. -/
theorem opens_nominal_within {n : Nat} (hd : g.program.NamesNominal d)
    (hn : g.program.declDepth ≤ n) : Opens (g.Within n) (g.nominal scope d) := by
  refine opens_nominal fun hoperator => (within_decl ?_).mono hn
  cases hnominal : (g.program.kindOf d).isNominal with
  | true => exact hg.nominal d hnominal
  | false =>
    -- of the other kinds only an alias has an operator
    refine hnames.aliased d hd ?_
    cases hkind : g.program.kindOf d <;> simp_all [nominalOperator?, DeclKind.isNominal]

include hp

/-- If all plain types before it nest as deep as they should, so does a plain type. -/
theorem typeWithin_of_before (ht : g.program.types.Plain t)
    (h : ∀ u, g.program.PlainBefore t u → g.TypeWithin u) : g.TypeWithin t := by
  have hnamed (n : NominalType) (hn : (g.program.types.node t).nominal? = some n) :
      g.program.NamesNominal n.decl :=
    ⟨_, Array.mem_of_getElem? (Arena.Shared.entry_mem ht.issued), by
      rw [show (g.program.types.entry t).node.nominal? = some n from hn]; rfl⟩
  -- three phrases for each type before it: a conformance, the type and its body
  have hbody : g.Within (g.program.declDepth + 3 * t.index + 1) {} (.body (.type t)) := by
    have htype (u : TypeId) (hu : g.program.PlainBefore t u) :
        g.Within (g.program.declDepth + 3 * t.index) {} (.type u) := by
      have hlt := hu.2
      exact (h u hu).type.mono (by omega)
    exact opens_structural (ht.kind_ne hp.settled)
      (fun n hn => opens_nominal_within hg hnames (hnamed n hn) (by omega))
      (fun d => opens_protocol_within hg (by omega))
      (fun u hu => htype u (ht.child hp.settled hu))
      (fun args hargs u hu => htype u (hp.plainBefore_of_mem_argLevels ht hargs hu))
      (fun x hx => within_ref h (hp.refBefore_retroactiveOf ht rfl hx) (Nat.le_refl _))
  have htype : g.Within (g.program.declDepth + 3 * t.index + 2) {} (.type t) :=
    opens_type (ht.kind_ne hp.settled) (ht.desugared?_eq_none hp.settled)
      (fun n hn => opens_nominal_within hg hnames (hnamed n hn) (by omega)) hbody
  refine ⟨hbody, htype, fun subject c => ?_⟩
  have hone := one_le_declDepth g.program
  exact opens_declaredConformance htype
    (fun d => opens_protocol_within hg (by omega))
    (opens_moduleOf fun m _ hm => (within_module hm).mono (by omega))
    (fun x hx => within_ref h (hp.refBefore_conditional ht hx) (by omega))

/-- Every plain type nests as deep as its place says. -/
theorem typeWithin (ht : g.program.types.Plain t) : g.TypeWithin t := by
  induction hi : t.index using Nat.strongRecOn generalizing t with
  | _ i ih =>
    subst hi
    exact typeWithin_of_before hp hg hnames ht fun u hu => ih u.index hu.2 hu.1 rfl

end

end Grammar

end NameMangling
