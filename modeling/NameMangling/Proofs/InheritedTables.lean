/-
# Witness tables of inherited conformances

The table of an inherited conformance is named by the subclass, and by the protocol, the module
and the signature of the declared conformance at the root.  The parameters of the subclass are
checked against that signature as well, though they belong to the signature of the subclass: a
parameter that the class at the root does not have is refused.  All else comes to the same in
the table of the subclass and in that of its superclass.

Main definition: `Mangler.unboundParam?`, the first parameter of the subclass that is refused.

Main fact: `inheritedTable_ok_iff`.
-/
import NameMangling.Proofs.Endings
import NameMangling.Proofs.InterfaceTypes
import NameMangling.Proofs.Lossless
import NameMangling.Proofs.NominalPaths
import NameMangling.Proofs.TypeDepth

namespace NameMangling

namespace Grammar

variable {g : Grammar} {w w' : Spelling} {n k : Nat} {scope scope' : Scope} {ps qs : List Piece}
  {s s' s₁ : Progress} {e e' : Option Refusal}

/-! ## What is written the same everywhere -/

namespace Finishes

theorem tokens (ts : List Token) : g.Finishes w n (ts.map .token) s none :=
  finishes_none.2 (exists_writes_tokens ts s)

/-- Tokens behind a row make no difference. -/
theorem andTokens (h : g.Finishes w n ps s e) (ts : List Token) :
    g.Finishes w n (ps ++ ts.map .token) s e := by
  have happend := h.append fun s => tokens (s := s) ts
  rwa [Option.or_none] at happend

/-- What can be written in full can be written, whatever has been written before. -/
theorem of_expands {ts : List Token} (h : g.Expands w.placesReferent n ps ts) (s : Progress) :
    g.Finishes w n ps s none := by
  induction h generalizing s with
  | nil => exact tokens []
  | @token _ t _ _ _ ih => exact (tokens [t]).andThen ih
  | phrase _ _ ihp ih => exact (ihp s).phrase.andThen ih
  | @placed _ _ key r r' _ _ hplaced _ ih =>
    have hshort : w.shorthand? s key r = some (.placeholder r') := by
      simp [Spelling.shorthand?, hplaced]
    exact andThen (finishes_none.2 ⟨_, .short hshort .nil⟩) ih
  | spelled _ _ _ ihb ih => exact ((ihb s).node _).andThen ih

/-- Pieces that open no phrase can be written everywhere, once they can be written. -/
theorem of_writes (hopens : Opens (fun _ _ => False) ps) (h : g.Writes w n ps s s')
    (s₁ : Progress) : g.Finishes w' k ps s₁ none := by
  induction h generalizing s₁ with
  | nil => exact tokens []
  | @token _ t _ _ _ _ ih =>
    exact (tokens [t]).andThen (ih fun piece hpiece => hopens piece (List.mem_cons_of_mem _ hpiece))
  | phrase | short | spelled => exact (hopens _ List.mem_cons_self).elim

end Finishes

/-! ## Declarations in modules -/

variable {d q : DeclId}

/-- Where nothing has been written a node is spelled out, unless it becomes a placeholder. -/
theorem shorthand?_empty {key : NodeKey} {r : Option Referent}
    (h : r.filter w.placesReferent = none) : w.shorthand? {} key r = none := by
  simp [Spelling.shorthand?, h, Progress.number?]

/-- A module that can be written can be written everywhere. -/
theorem finishes_module (h : g.Writes w n (g.moduleDecl scope q) {} s) (s₁ : Progress) :
    g.Finishes w' (k + 1) (g.moduleDecl scope' q) s₁ none := by
  unfold moduleDecl at h ⊢
  -- the standard module and foreign ones have a spelling of their own
  split at h
  · rename_i hstandard
    rw [if_pos hstandard]
    exact .tokens [.op .standardModule]
  · rename_i hstandard
    rw [if_neg hstandard]
    split at h
    · exact .tokens [.op .foreignModule]
    · rename_i hkind
      have hbody : ∀ scope, g.production scope (.body (.decl q)) = g.declName q := by
        intro scope
        show g.declBody scope q = _
        unfold declBody
        rw [hkind]
      cases h with
      | short hshort => rw [shorthand?_empty rfl] at hshort; cases hshort
      | spelled _ inside =>
        rw [hbody] at inside
        refine .node none ?_
        rw [hbody]
        exact .of_writes (opens_declName q) inside s₁
    · cases h

/-- A nominal type of a module that can be written can be written everywhere. -/
theorem finishes_nominal (hnominal : (g.program.kindOf d).isNominal = true)
    (hparent : (g.program.decl d).parent = some (.decl q))
    (hq : (g.program.kindOf q).isModule = true) (hplaces : w.placesReferent (.nominal d) = false)
    (h : g.Writes w n (g.nominal scope d) {} s) (s₁ : Progress) :
    g.Finishes w' (k + 3) (g.nominal scope' d) s₁ none := by
  obtain ⟨o, ho, -⟩ := nominalOperator?_eq_some hnominal
  cases hstandard : g.standardName? d with
  | some name =>
    rw [nominal_eq_reserved hnominal hstandard]
    exact .tokens [.op (.standard name)]
  | none =>
    have hbody : ∀ scope, g.production scope (.body (.decl d)) =
        [.context scope (.decl q)] ++ (g.declName d ++ [.op o]) := by
      intro scope
      rw [production, declBody_of_isNominal hnominal ho, contextOf, hparent, List.append_assoc]
    rw [nominal_eq_node hnominal hstandard] at h ⊢
    -- nothing was written before the type, so its body was, and neither the context nor the name
    -- in it depends on where it stands
    cases h with
    | short hshort =>
      rw [shorthand?_empty (by simp [hplaces])] at hshort
      cases hshort
    | spelled _ inside =>
      rw [hbody] at inside
      obtain ⟨s₂, hcontext, hrest⟩ := writes_append.1 inside
      obtain ⟨s₃, hname, -⟩ := writes_append.1 hrest
      cases hcontext with | phrase hmodule after =>
      rw [context_eq_module hq] at hmodule
      refine .node _ ?_
      rw [hbody]
      refine (Finishes.phrase ?_).andThen fun s =>
        (Finishes.of_writes (opens_declName d) hname s).andTokens [.op o]
      rw [context_eq_module hq]
      exact finishes_module hmodule s₁

/-! ## Interface types -/

variable {t u : TypeId} {args : List TypeId} {key : ParamKey} {keys : List ParamKey}

/-- The first of some parameters that does not belong to the signature in scope. -/
def unbound? (g : Grammar) (scope : Scope) (keys : List ParamKey) : Option ParamKey :=
  keys.find? fun key => !(scope.signature.all fun s => (g.program.signature s).contains key)

/-- The first refused parameter is the first one or one of the others. -/
theorem unbound?_cons (key : ParamKey) (keys : List ParamKey) :
    g.unbound? scope (key :: keys) = (g.unbound? scope [key]).or (g.unbound? scope keys) := by
  unfold unbound?
  rw [List.find?_cons, List.find?_cons]
  split <;> rfl

/-- No parameter is refused if all of them belong to the signature in scope. -/
theorem unbound?_eq_none : g.unbound? scope keys = none ↔
    ∀ s ∈ scope.signature, ∀ key ∈ keys, (g.program.signature s).contains key = true := by
  unfold unbound?
  rw [List.find?_eq_none]
  cases scope.signature <;> simp

/-- A parameter is refused if it does not belong to the signature in scope. -/
theorem finishes_param (hp : g.program.Sound) (hu : u.index < g.program.types.size)
    (h : g.program.types.node u = .genericParam key) :
    g.Finishes w (k + 1) [.type scope u] s ((g.unbound? scope [key]).map .unboundParameter) := by
  refine .phrase ?_
  have hproduction : g.production scope (.type u) = g.genericParam scope key := by
    simp [production, type, Arena.isCanonical, hp.settled.canonical_param hu h, h]
  rw [hproduction, genericParam, unbound?, List.find?_singleton]
  cases (scope.signature.all fun s => (g.program.signature s).contains key) with
  | true => exact .tokens key.tokens
  | false => exact .fail (.unboundParameter key)

/-- Of several parameters the first is refused that does not belong to the signature. -/
theorem finishes_params (hp : g.program.Sound) (h : g.program.types.AreParams args keys)
    (s : Progress) : g.Finishes w (k + 1) (args.map fun u => [Piece.type scope u]).flatten s
      ((g.unbound? scope keys).map .unboundParameter) := by
  induction h generalizing s with
  | nil => exact .tokens []
  | cons hfirst _ ih =>
    rw [unbound?_cons, Option.map_or]
    exact (finishes_param hp hfirst.1 hfirst.2).append ih

/-- The arguments of a type are marked as a list. -/
theorem finishes_argLevel (hp : g.program.Sound) (h : g.program.types.AreParams args keys)
    (s : Progress) : g.Finishes w (k + 1) (argLevel scope args) s
      ((g.unbound? scope keys).map .unboundParameter) := by
  cases h with
  | nil => exact .tokens [.op .emptyList]
  | cons hfirst hrest =>
    rw [unbound?_cons, Option.map_or]
    exact (finishes_param hp hfirst.1 hfirst.2).append fun s =>
      (Finishes.tokens [.op .firstOfList]).andThen (finishes_params hp hrest)

/-- A class is not written as an optional type. -/
theorem boundGeneric_class (hclass : g.program.kindOf d = .classType) :
    g.boundGeneric scope t ⟨d, none, args⟩ = g.nominal scope d
      ++ (g.program.argLevels t).flatMap (argLevel scope)
      ++ retroactivePieces scope (g.retroactiveOf t) ++ [.op .boundGeneric] := by
  have hoptional : g.isOptional d = false := by
    rw [isOptional, hclass]
    rfl
  unfold boundGeneric
  dsimp only
  split
  · rw [hoptional, Bool.and_false]
    rfl
  · rfl

/-- Where it is written first, a class applied to parameters is refused as the first of these
is that does not belong to the signature. -/
theorem finishes_applied (hp : g.program.Sound) (hclass : g.program.kindOf d = .classType)
    (ht : t.index < g.program.types.size) (hargs : g.program.types.AreParams args keys)
    (h : g.program.types.node t = .applied d args)
    (hnominal : ∀ k s, g.Finishes w (k + 3) (g.nominal scope d) s none) :
    g.Finishes w (k + 5) [.type scope t] {} ((g.unbound? scope keys).map .unboundParameter) := by
  have hcanonical := hp.settled.canonical_applied hargs ht h
  refine .phrase ?_
  -- a class without parameters of its own is written as its declaration
  cases args with
  | nil =>
    cases hargs
    have hproduction : g.production scope (.type t) = g.nominal scope d := by
      simp [production, type, Arena.isCanonical, hcanonical, h, TypeNode.applied]
    rw [hproduction]
    exact hnominal (k + 1) {}
  | cons u us =>
    have hproduction : g.production scope (.type t) = [.node scope (.type t) none] := by
      simp [production, type, Arena.isCanonical, hcanonical, h, TypeNode.applied]
    have hbody : g.production scope (.body (.type t)) =
        g.nominal scope d ++ (argLevel scope (u :: us) ++ [.op .boundGeneric]) := by
      have hstructural : g.production scope (.body (.type t)) =
          g.boundGeneric scope t ⟨d, none, u :: us⟩ := by
        simp only [production, structural, h, TypeNode.applied]
      rw [hstructural, boundGeneric_class hclass, Program.argLevels_applied ht h,
        Program.retroactiveOf_applied hp hargs ht h]
      simp [retroactivePieces]
    rw [hproduction]
    refine .spelled (shorthand?_empty rfl) ?_
    rw [hbody]
    exact (hnominal k {}).andThen fun s =>
      (finishes_argLevel hp hargs s).andTokens [.op .boundGeneric]

/-! ## Witness tables -/

/-- What comes behind the type in the name of a witness table. -/
def tableEnd (g : Grammar) (c : ConformanceId) : List Piece :=
  let root := g.program.rootOf c
  let s := g.conformanceSignature c
  g.protocol (under s) root.protocol ++ g.moduleOf (under s) root.context
    ++ g.signatureIfAny outermost s ++ [.op .witnessTable]

end Grammar

namespace Mangler

variable {m : Mangler} {c base : ConformanceId} {d q : DeclId} {t : TypeId} {plan : Plan}
  {r : Request} {key : ParamKey} {full x : String}

/-- A request is answered with a symbol where its plan can be written. -/
theorem mangle_of_finishes_none (hplan : m.plan r = .ok plan)
    (h : (m.grammar plan.keepsSugar).Finishes { placesReferent := m.placesReferent plan }
      (m.grammar plan.keepsSugar).depthBound plan.pieces {} none) :
    ∃ y, m.mangle r = .ok y := by
  obtain ⟨s, hwrites⟩ := Grammar.finishes_none.1 h
  exact ⟨_, mangle_eq_ok.2 ⟨plan, s, hplan, written?_eq_some.2 ⟨plan, hplan, hwrites⟩, rfl⟩⟩

/-- A request is refused as its plan is. -/
theorem mangle_of_finishes_some {e : Refusal} (hplan : m.plan r = .ok plan)
    (h : (m.grammar plan.keepsSugar).Finishes { placesReferent := m.placesReferent plan }
      (m.grammar plan.keepsSugar).depthBound plan.pieces {} (some e)) :
    m.mangle r = .error (.refused e) := by
  obtain ⟨s, h⟩ := h
  have hwrite : m.write plan = .error (.refused e) s := h
  simp [mangle, answer, hplan, carryOut, hwrite]

/-- A witness table is its type and what ends the symbol of a table. -/
theorem plan_witnessTable (m : Mangler) (c : ConformanceId) :
    m.plan (.witnessTable c) = .ok { pieces :=
      [.type (Grammar.under ((m.grammar false).conformanceSignature c))
        (m.program.conformance c).type] ++ (m.grammar false).tableEnd c } := by
  simp only [plan, Grammar.plan, Grammar.protocolConformance, Grammar.tableEnd, List.cons_append,
    List.nil_append, List.append_assoc]
  rfl

/-- The parameters of a class that the table of a conformance is refused for: the first one that
does not belong to the signature of the conformance. -/
def unboundParam? (m : Mangler) (c : ConformanceId) (d : DeclId) : Option ParamKey :=
  (m.grammar false).unbound? (Grammar.under ((m.grammar false).conformanceSignature c))
    (m.program.ownParams d)

/-- No parameter of the subclass is refused if all of its own belong to the signature of the
conformance. -/
theorem unboundParam?_eq_none : m.unboundParam? c d = none ↔
    ∀ s ∈ (m.grammar false).conformanceSignature c, ∀ key ∈ m.program.ownParams d,
      (m.program.signature s).contains key = true :=
  Grammar.unbound?_eq_none

/-- A class of a module that has a symbol can be written everywhere. -/
theorem finishes_nominal (hclass : m.program.kindOf d = .classType)
    (hparent : (m.program.decl d).parent = some (.decl q))
    (hq : (m.program.kindOf q).isModule = true) (hname : m.mangle (.nominalType d) = .ok x)
    {w : Spelling} {scope : Scope} (k : Nat) (s : Progress) :
    (m.grammar false).Finishes w (k + 3) ((m.grammar false).nominal scope d) s none := by
  have hnominal : (m.program.kindOf d).isNominal = true := by rw [hclass]; rfl
  obtain ⟨plan, s', hplan, hwrites, -⟩ := exists_writes_of_mangle hname
  rw [plan_nominalType hnominal] at hplan
  cases hplan
  refine Grammar.finishes_nominal (g := m.grammar false) hnominal hparent hq ?_ hwrites s
  simp [placesReferent, Referent.decl]

/-- What comes behind the type in the table of a conformance can be written in the tables that
are inherited from it, whatever has been written before. -/
theorem finishes_tableEnd (hp : m.program.Sound)
    (hc : m.program.conformance c = .inherited base t)
    (hbase : m.mangleInFull (.witnessTable base) = .ok full) (s : Progress) :
    (m.grammar false).Finishes { placesReferent := m.placesReferent { pieces := [] } }
      (m.grammar false).depthBound ((m.grammar false).tableEnd c) s none := by
  obtain ⟨plan, ts, hplan, hexpands, -⟩ := mangleInFull_eq_ok hbase
  rw [plan_witnessTable] at hplan
  cases hplan
  have hroot : (m.grammar false).program.rootOf c = (m.grammar false).program.rootOf base :=
    hp.rootOf_inherited hc
  have hsame : (m.grammar false).tableEnd c = (m.grammar false).tableEnd base := by
    unfold Grammar.tableEnd Grammar.conformanceSignature
    rw [hroot]
  rw [hsame]
  generalize hdepth : (m.grammar false).depthBound = depth at hexpands ⊢
  cases hexpands with | phrase _ after =>
  exact .of_expands after s

/-- The conforming type is refused as the first parameter is that does not belong to the
signature of the conformance. -/
theorem finishes_conformingType (hp : m.program.Sound)
    (ht : m.program.interfaceType d = (t, m.program)) (hclass : m.program.kindOf d = .classType)
    (hparent : (m.program.decl d).parent = some (.decl q))
    (hq : (m.program.kindOf q).isModule = true) (hname : m.mangle (.nominalType d) = .ok x)
    {w : Spelling} : (m.grammar false).Finishes w (m.grammar false).depthBound
      [.type (Grammar.under ((m.grammar false).conformanceSignature c)) t] {}
      ((m.unboundParam? c d).map .unboundParameter) := by
  have hd : d.index < m.program.decls.size := Program.lt_of_isNominal (by rw [hclass]; rfl)
  obtain ⟨hlt, args, hargs, hnode⟩ := hp.interfaceType_in_module hd hparent hq ht
  rw [← Nat.sub_add_cancel (m.grammar false).five_le_depthBound]
  exact Grammar.finishes_applied (g := m.grammar false) hp hclass hlt hargs hnode
    (finishes_nominal hclass hparent hq hname)

/-- The table of an inherited conformance of a class that lies in a module is refused for the
first parameter of the class that does not belong to the signature of the conformance, which is
that of the class at the root.  Where the table that it is inherited from can be written in full
it gets a symbol exactly if there is no such parameter.  That the other table has a symbol would
not be enough: the symbol may refer back, behind its own conforming type, to what that type has
spelled out, and the subclass meets the same parts for the first time and has to spell them. -/
theorem inheritedTable_ok_iff (hbuilt : m.program.Built)
    (hc : m.program.conformance c = .inherited base t)
    (ht : m.program.interfaceType d = (t, m.program)) (hclass : m.program.kindOf d = .classType)
    (hparent : (m.program.decl d).parent = some (.decl q))
    (hq : (m.program.kindOf q).isModule = true) (hname : m.mangle (.nominalType d) = .ok x) :
    (∀ key, m.unboundParam? c d = some key →
      m.mangle (.witnessTable c) = .error (.refused (.unboundParameter key))) ∧
    ∀ full, m.mangleInFull (.witnessTable base) = .ok full →
      ((∃ y, m.mangle (.witnessTable c) = .ok y) ↔
        ∀ s ∈ (m.grammar false).conformanceSignature c, ∀ key ∈ m.program.ownParams d,
          (m.program.signature s).contains key = true) := by
  have hp := hbuilt.sound
  have hplan := m.plan_witnessTable c
  rw [hc] at hplan
  -- the conforming type is written first, so what it fails for is what the request fails for
  have htype := finishes_conformingType (c := c) hp ht hclass hparent hq hname
    (w := { placesReferent := m.placesReferent { pieces := [] } })
  have hrefused : ∀ key, m.unboundParam? c d = some key →
      m.mangle (.witnessTable c) = .error (.refused (.unboundParameter key)) := by
    intro key hkey
    rw [hkey] at htype
    exact mangle_of_finishes_some hplan (htype.stop _)
  refine ⟨hrefused, fun full hbase => ?_⟩
  rw [← unboundParam?_eq_none]
  constructor
  · rintro ⟨y, hy⟩
    refine Option.eq_none_iff_forall_ne_some.2 fun key hkey => ?_
    rw [hrefused key hkey] at hy
    cases hy
  · intro hbound
    rw [hbound] at htype
    exact mangle_of_finishes_none hplan (htype.andThen (finishes_tableEnd hp hc hbase))

/-- In a module `M` a protocol `P` and classes `Base<X>`, which conforms to it, `Middle<X>`, a
subclass of `Base<X>`, and `Derived<X, Y>`, a subclass of `Middle<X>`. -/
def subclassSteps : List BuildStep :=
  [.intern "M", .decl { kind := .nativeModule, name := some ⟨1⟩ },
    .intern "P",
    .decl { kind := .protocolType [], name := some ⟨2⟩, parent := some (.decl ⟨0⟩) },
    .signature (.ofParams [⟨0, 0⟩] []), .signature (.ofParams [⟨0, 0⟩, ⟨0, 1⟩] []),
    .intern "Base",
    .decl { kind := .classType, name := some ⟨3⟩, parent := some (.decl ⟨0⟩),
            signature := some ⟨0⟩ },
    .intern "Middle",
    .decl { kind := .classType, name := some ⟨4⟩, parent := some (.decl ⟨0⟩),
            signature := some ⟨0⟩ },
    .intern "Derived",
    .decl { kind := .classType, name := some ⟨5⟩, parent := some (.decl ⟨0⟩),
            signature := some ⟨1⟩ },
    .type (.genericParam ⟨0, 0⟩), .type (.genericParam ⟨0, 1⟩),
    .type (.boundGeneric ⟨2⟩ none [⟨12⟩]), .type (.boundGeneric ⟨3⟩ none [⟨12⟩]),
    .type (.boundGeneric ⟨4⟩ none [⟨12⟩, ⟨13⟩]),
    .conformance (.declared { type := ⟨14⟩, protocol := ⟨1⟩, context := ⟨2⟩ }),
    .conformance (.inherited ⟨0⟩ ⟨15⟩), .conformance (.inherited ⟨1⟩ ⟨16⟩)]

/-- The program with these classes. -/
def subclassProgram : Program := Program.empty.build subclassSteps

theorem subclassProgram_built : subclassProgram.Built :=
  ⟨⟨subclassSteps, by decide +kernel, rfl⟩, by decide +kernel⟩

/-- A subclass with no other parameters than its superclass has a table. -/
theorem inheritedTable_ok_iff_middle :
    let m : Mangler := { program := subclassProgram }
    m.program.Built ∧ m.program.conformance ⟨1⟩ = .inherited ⟨0⟩ ⟨15⟩ ∧
      m.program.interfaceType ⟨3⟩ = (⟨15⟩, m.program) ∧ m.program.kindOf ⟨3⟩ = .classType ∧
      (m.program.decl ⟨3⟩).parent = some (.decl ⟨0⟩) ∧
      (m.program.kindOf ⟨0⟩).isModule = true ∧ m.mangle (.nominalType ⟨3⟩) = .ok "$q1M6MiddleC" ∧
      m.mangleInFull (.witnessTable ⟨0⟩) = .ok "$q1M4BaseCx_G1M1PP1MlWP" ∧
      m.mangle (.witnessTable ⟨1⟩) = .ok "$q1M6MiddleCx_GAa1PPAalWP" ∧
      ((∃ y, m.mangle (.witnessTable ⟨1⟩) = .ok y) ↔
        ∀ s ∈ (m.grammar false).conformanceSignature ⟨1⟩, ∀ key ∈ m.program.ownParams ⟨3⟩,
          (m.program.signature s).contains key = true) := by
  intro m
  have hc : m.program.conformance ⟨1⟩ = .inherited ⟨0⟩ ⟨15⟩ := by decide +kernel
  have ht : m.program.interfaceType ⟨3⟩ = (⟨15⟩, m.program) := by decide +kernel
  have hclass : m.program.kindOf ⟨3⟩ = .classType := by decide +kernel
  have hparent : (m.program.decl ⟨3⟩).parent = some (.decl ⟨0⟩) := by decide +kernel
  have hmodule : (m.program.kindOf ⟨0⟩).isModule = true := by decide +kernel
  have hname : m.mangle (.nominalType ⟨3⟩) = .ok "$q1M6MiddleC" := by decide +kernel
  have hfull : m.mangleInFull (.witnessTable ⟨0⟩) = .ok "$q1M4BaseCx_G1M1PP1MlWP" := by
    decide +kernel
  exact ⟨subclassProgram_built, hc, ht, hclass, hparent, hmodule, hname, hfull,
    by decide +kernel,
    (inheritedTable_ok_iff subclassProgram_built hc ht hclass hparent hmodule hname).2 _ hfull⟩

/-- The parameter that is new in a subclass is refused in the table that it inherits. -/
theorem inheritedTable_refused :
    let m : Mangler := { program := subclassProgram }
    m.program.Built ∧ m.program.conformance ⟨2⟩ = .inherited ⟨1⟩ ⟨16⟩ ∧
      (m.program.rootOf ⟨2⟩).conditional = none ∧
      m.program.interfaceType ⟨4⟩ = (⟨16⟩, m.program) ∧ m.program.kindOf ⟨4⟩ = .classType ∧
      (m.program.decl ⟨4⟩).parent = some (.decl ⟨0⟩) ∧
      (m.program.kindOf ⟨0⟩).isModule = true ∧
      m.mangle (.nominalType ⟨4⟩) = .ok "$q1M7DerivedC" ∧
      m.mangle (.witnessTable ⟨1⟩) = .ok "$q1M6MiddleCx_GAa1PPAalWP" ∧
      m.mangle (.witnessTable ⟨2⟩) = .error (.refused (.unboundParameter ⟨0, 1⟩)) :=
  ⟨subclassProgram_built, by decide +kernel⟩

end Mangler

end NameMangling
