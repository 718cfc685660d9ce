/-
# The gate for canonical types

Where sugar is not accepted a type is refused unless it is its own canonical form.  The gate
stands before every type, but it is met only at the outermost one: the parts of a canonical type
are canonical, and so are the types that the spelling of one comes to by way of arguments,
conformances and derivations.  What it comes to by way of declarations is stored in the program;
where all that is canonical, the gate refuses exactly the types that are not.

Main definitions:
* `Program.HasCanonicalTypes`, the programs that store canonical types only;
* `Program.canonicalVocabulary`, in which these are the types.

Main fact: `Session.canonical_gate_exact`.
-/
import NameMangling.Proofs.InheritedTables
import NameMangling.Proofs.Placeholders
import NameMangling.Proofs.SugarRefusals
import NameMangling.Proofs.Vocabularies

namespace NameMangling

/-! ## Programs with canonical types -/

namespace Program

variable {p : Program}

/-- The types a program stores are canonical: the interface types of its declarations, the
types of its closures, and what the requirements of its signatures are about.  The types that
conform need not be, as a conformance is used with the canonical form of the type it is
applied to. -/
structure HasCanonicalTypes (p : Program) : Prop where
  interface : ∀ d ∈ p.decls, ∀ t ∈ d.interfaceType, p.types.isCanonical t = true
  closure : ∀ c ∈ p.closures, p.types.isCanonical c.type = true
  requirement : ∀ s ∈ p.signatures, ∀ r ∈ s.requirements, ∀ t ∈ r.operands,
    p.types.isCanonical t = true

/-- The vocabulary in which the types are the canonical ones, and which leaves all else open. -/
def canonicalVocabulary (p : Program) : Vocabulary where
  type t := p.types.isCanonical t = true
  part t := p.types.isCanonical t = true
  decl _ := True
  context _ := True
  signature _ := True
  owner _ := True

/-- In a program with canonical types, canonical types lead to canonical types. -/
theorem HasCanonicalTypes.closed (h : p.HasCanonicalTypes) (hp : p.Sound) :
    p.canonicalVocabulary.Closed p where
  type_of_part _ ht := ht
  part_of_type _ ht _ := ht
  child _ ht _ hu := hp.settled.isCanonical_child hp.nonempty ht hu
  desugared t u ht hu := by
    rw [hp.settled.desugared?_of_isCanonical hp.nonempty ht] at hu
    cases hu
  canonical t := hp.settled.isCanonical_canonical hp.nonempty t
  interface d t ht := by
    unfold decl at ht
    cases hd : p.decls[d.index]? with
    | none =>
      rw [hd] at ht
      cases ht
    | some x =>
      rw [hd] at ht
      exact h.interface x (Array.mem_of_getElem? hd) t ht
  closure c := by
    unfold Program.closure
    cases hc : p.closures[c.index]? with
    | none =>
      -- a closure that is not there reads as one of type `()`, which is canonical
      have hle := (hp.settled.settledAt .emptyTuple hp.nonempty).le
      exact Arena.isCanonical_iff.mpr (congrArg TypeId.mk (Nat.le_zero.mp hle))
    | some x => exact h.closure x (Array.mem_of_getElem? hc)
  operand s r hr t ht := by
    unfold signature at hr
    cases hs : p.signatures[s.index]? with
    | none =>
      rw [hs] at hr
      cases hr
    | some x =>
      rw [hs] at hr
      exact h.requirement x (Array.mem_of_getElem? hs) r hr t ht
  added _ _ := trivial
  conforming _ _ := trivial
  module _ _ _ _ := trivial
  decl_of_context _ _ := trivial
  decl_context _ _ _ _ := trivial
  parent _ _ _ := trivial
  closureParent _ := trivial
  naming _ _ _ := trivial
  noSignature := trivial
  ownSignature _ := trivial
  owner _ _ _ := trivial

/-- To the program with conformances, a property whose type is the struct `I`, and that type in
parentheses. -/
def parenSteps : List BuildStep :=
  conformanceSteps ++ [.intern "p",
    .decl { kind := .property, name := some ⟨7⟩, parent := some (.decl ⟨0⟩),
            interfaceType := some ⟨13⟩ },
    .type (.paren ⟨13⟩)]

/-- The program with a type in parentheses. -/
def parenProgram : Program := empty.build parenSteps

theorem parenProgram_built : parenProgram.Built :=
  ⟨⟨parenSteps, by decide +kernel, rfl⟩, by decide +kernel⟩

/-- The declarations of the program have canonical types. -/
theorem parenProgram_hasCanonicalTypes : parenProgram.HasCanonicalTypes where
  interface := by decide +kernel
  closure := by decide +kernel
  requirement := by decide +kernel

end Program

/-! ## Spelling without meeting the gate -/

namespace Grammar

variable {g : Grammar} {w : Spelling}

/-- Pieces that do not refuse sugar do not refuse any one type for it. -/
theorem fail_notMem_of_any {ps : List Piece} (h : ps.any Piece.refusesSugar = false) (u : TypeId) :
    .fail (.nonCanonicalType u) ∉ ps := by
  intro hmem
  rw [List.any_eq_false] at h
  exact h _ hmem rfl

/-- Rows that open phrases with a property, none of which is refused for sugar, and are not
refused for it themselves are never refused for sugar, if productions keep the property. -/
theorem spellPieces_ne_nonCanonical {P : Scope → Phrase → Prop}
    (hP : ∀ scope p, P scope p → Opens P (g.production scope p) ∧
      (g.production scope p).any Piece.refusesSugar = false)
    {ps : List Piece} (hps : Opens P ps) (hany : ps.any Piece.refusesSugar = false) (u : TypeId)
    (s s' : Progress) : g.spellPieces w ps s ≠ .error (.refused (.nonCanonicalType u)) s' := by
  have hspell (n : Nat) (scope : Scope) (p : Phrase) (hp : P scope p) :
      Spelling.Avoids (g.spell w n) (.refused (.nonCanonicalType u)) scope p := by
    induction n generalizing scope p with
    | zero => nofun
    | succ n ih =>
      obtain ⟨hopens, hfail⟩ := hP scope p hp
      refine w.pieces_avoids (hopens.mono ih) fun e he => ?_
      cases he
      exact fail_notMem_of_any hfail u
  refine w.pieces_avoids (hps.mono (hspell _)) (fun e he => ?_) s s'
  cases he
  exact fail_notMem_of_any hany u

end Grammar

namespace Mangler

variable {m : Mangler} {r : Request} {t u : TypeId}

/-- Where sugar is accepted, nothing is refused for it. -/
theorem mangle_ne_of_accepts
    (h : ∀ plan, m.plan r = .ok plan → (m.grammar plan.keepsSugar).acceptsSugar = true)
    (u : TypeId) : m.mangle r ≠ .error (.refused (.nonCanonicalType u)) := by
  intro hmangle
  rcases mangle_eq_error.mp hmangle with ⟨e, he, hplan⟩ | ⟨plan, s, hplan, hwrite⟩
  · cases he
    exact Grammar.plan_ne_nonCanonical r u hplan
  · have haccepts := h plan hplan
    refine Grammar.spellPieces_ne_nonCanonical (P := fun _ _ => True) (fun scope p _ => ?_)
      (fun piece _ => ?_) (Grammar.any_plan hplan) u {} s hwrite
    · refine ⟨fun piece _ => ?_, ?_⟩
      · cases piece <;> trivial
      · rw [Grammar.any_production]
        cases p <;> simp [haccepts]
    · cases piece <;> trivial

/-- In a program with canonical types, the spelling of a canonical type is not refused for
sugar. -/
theorem mangle_ne_of_isCanonical (hp : m.program.Sound) (hcanonical : m.program.HasCanonicalTypes)
    (ht : m.program.types.isCanonical t = true) {plan : Plan} (hplan : m.plan r = .ok plan)
    (hpieces : plan.pieces = [.type Grammar.outermost t]) (u : TypeId) :
    m.mangle r ≠ .error (.refused (.nonCanonicalType u)) := by
  intro hmangle
  rcases mangle_eq_error.mp hmangle with ⟨e, he, hplan'⟩ | ⟨plan', s, hplan', hwrite⟩
  · rw [hplan] at hplan'
    cases hplan'
  · rw [hplan] at hplan'
    cases hplan'
    have hclosed : m.program.canonicalVocabulary.Closed (m.grammar plan.keepsSugar).program :=
      hcanonical.closed hp
    have hopens : Opens (m.program.canonicalVocabulary.Has m.program) plan.pieces := by
      rw [hpieces]
      exact .cons ⟨⟨trivial, trivial⟩, ht⟩ .nil
    -- only the phrase of a type refuses sugar, and no type that is led to has any
    refine Grammar.spellPieces_ne_nonCanonical (fun scope p hp => ⟨hclosed.production hp, ?_⟩)
      hopens (Grammar.any_plan hplan) u {} s hwrite
    rw [Grammar.any_production]
    cases p with
    | type v =>
      have hv : m.program.types.isCanonical v = true := hp.2
      simp [grammar, hv]
    | _ => rfl

/-- A type that is not canonical is refused at once where sugar is not accepted. -/
theorem mangle_of_not_isCanonical (hstrict : m.options.keepsSugar = false)
    (ht : m.program.types.isCanonical t = false) :
    m.mangle (.typeWithoutLead t) = .error (.refused (.nonCanonicalType t)) := by
  have hplan : m.plan (.typeWithoutLead t) =
      .ok { lead := "", pieces := [.type Grammar.outermost t] } := rfl
  refine mangle_of_finishes_some hplan ?_
  rw [← Nat.sub_add_cancel (m.grammar false).five_le_depthBound]
  have hproduction : (m.grammar false).production Grammar.outermost (.type t) =
      [.fail (.nonCanonicalType t)] := by
    simp [Grammar.production, Grammar.type, grammar, hstrict, ht]
  refine .phrase ?_
  rw [hproduction]
  exact .fail _

end Mangler

namespace Session

/-- The gate for canonical types is exact.  In a program that stores canonical types only, a
mangler that does not keep sugar refuses a type as not canonical exactly if it is not, and for
no other type; the name of a type and a cross reference to it, which are spelled by its canonical
form, are never refused so.  In any program, where sugar is kept nothing is refused as not
canonical, and for the debugger sugar is always kept. -/
theorem canonical_gate_exact (m : Mangler) (history : List Request) :
    let s := m.inUse history
    (m.program.Built → m.program.HasCanonicalTypes → m.options.keepsSugar = false →
      ∀ t, ((∃ u, (s.request (.typeWithoutLead t)).1 = .error (.refused (.nonCanonicalType u))) ↔
          m.program.types.isCanonical t = false) ∧
        ∀ u, ((s.request (.typeWithoutLead t)).1 = .error (.refused (.nonCanonicalType u)) →
            u = t) ∧
          (s.request (.typeForTypeName t)).1 ≠ .error (.refused (.nonCanonicalType u)) ∧
          ∀ lead, (s.request (.typeReference t lead)).1 ≠
            .error (.refused (.nonCanonicalType u))) ∧
    (m.options.keepsSugar = true → ∀ r u,
      (s.request r).1 ≠ .error (.refused (.nonCanonicalType u))) ∧
    ∀ t context u, (s.request (.typeForDebugger t context)).1 ≠
      .error (.refused (.nonCanonicalType u)) := by
  intro s
  have hs : s.mangler = m := Mangler.mangler_inUse history
  simp only [request_eq_mangle, hs]
  refine ⟨fun hbuilt hcanonical hstrict t => ?_, fun hkeeps r u => ?_, fun t context u => ?_⟩
  · have hp := hbuilt.sound
    -- a name and a cross reference spell the canonical form, which is canonical
    have hform := hp.settled.isCanonical_canonical hp.nonempty t
    have hrefused (h : m.program.types.isCanonical t = true) (u : TypeId) :=
      Mangler.mangle_ne_of_isCanonical hp hcanonical h (r := .typeWithoutLead t) rfl rfl u
    refine ⟨⟨?_, ?_⟩, fun u => ⟨?_, ?_, fun lead => ?_⟩⟩
    · rintro ⟨u, hu⟩
      by_contra ht
      exact hrefused (by simpa using ht) u hu
    · intro ht
      exact ⟨t, Mangler.mangle_of_not_isCanonical hstrict ht⟩
    · intro hu
      -- a canonical type is not refused at all, any other one as itself
      cases ht : m.program.types.isCanonical t with
      | true => exact absurd hu (hrefused ht u)
      | false =>
        rw [Mangler.mangle_of_not_isCanonical hstrict ht] at hu
        cases hu
        rfl
    · exact Mangler.mangle_ne_of_isCanonical hp hcanonical hform (r := .typeForTypeName t) rfl rfl u
    · exact Mangler.mangle_ne_of_isCanonical hp hcanonical hform (r := .typeReference t lead)
        rfl rfl u
  · exact Mangler.mangle_ne_of_accepts (fun plan _ => by simp [Mangler.grammar, hkeeps]) u
  · refine Mangler.mangle_ne_of_accepts (fun plan hplan => ?_) u
    cases hplan
    simp [Mangler.grammar]

/-- A struct is a canonical type and its name is not refused; in parentheses it is refused. -/
theorem canonical_gate_exact_paren :
    let m : Mangler := { program := .parenProgram }
    let s := m.inUse []
    m.program.Built ∧ m.program.HasCanonicalTypes ∧ m.options.keepsSugar = false ∧
      m.program.types.node ⟨17⟩ = .paren ⟨13⟩ ∧
      (∃ u, (s.request (.typeWithoutLead ⟨17⟩)).1 = .error (.refused (.nonCanonicalType u))) ∧
      ¬∃ u, (s.request (.typeWithoutLead ⟨13⟩)).1 = .error (.refused (.nonCanonicalType u)) := by
  intro m s
  have hgate := (canonical_gate_exact m []).1 Program.parenProgram_built
    Program.parenProgram_hasCanonicalTypes rfl
  refine ⟨Program.parenProgram_built, Program.parenProgram_hasCanonicalTypes, rfl,
    by decide +kernel, (hgate ⟨17⟩).1.mpr (by decide +kernel), fun h => ?_⟩
  have hcanonical : m.program.types.isCanonical ⟨13⟩ = true := by decide +kernel
  rw [(hgate ⟨13⟩).1.mp h] at hcanonical
  cases hcanonical

end Session

end NameMangling
