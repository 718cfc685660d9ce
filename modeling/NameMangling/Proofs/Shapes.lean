/-
# Shapes

A type is told apart by its kind and read by the reader for its kind, and an encoder that is
called for a type, a declaration or a conformance relies on what its caller has looked at.
That nothing is ever taken for something else has two sides.  The readers of the packed types
answer for every type of their kind; this is a property of the pool, and holds of programs as
they are built.  And no production asks for what is not there: this is a property of the
grammar, seen from each production in what its pieces are about.

Main definition: `TypeView.Answers`.

Main fact: `shapes_hold`.
-/
import NameMangling.Proofs.BuiltPrograms
import NameMangling.Proofs.Placeholders
import NameMangling.Proofs.RewordedSymbols

namespace NameMangling

/-- The readers for the kind of a type answer. -/
def TypeView.Answers (v : TypeView) : Prop :=
  match v.kind with
  | .emptyTuple | .tuple => v.tuple.isSome
  | .builtinInt | .builtinFloat => v.builtinWidth.isSome
  | .builtinWord | .rawPointer | .nativeObject | .unknownObject | .bridgeObject => True
  | .metatype | .existentialMetatype => v.instanceType.isSome
  | .genericParam => v.genericParam.isSome
  | .nominal | .boundGeneric => v.nominal.isSome
  | .function => v.function.isSome
  | .lowered => v.lowered.isSome
  | .existential => v.existential.isSome
  | .dependentMember => v.dependentMember.isSome
  | .opaqueResult => v.opaqueResult.isSome
  | .aliased => v.aliased.isSome ∧ v.desugared.isSome
  | .paren | .optionalSugar | .arraySugar | .dictionarySugar => v.desugared.isSome

/-- Of every node the readers for its kind answer. -/
theorem TypeNode.answers_view (n : TypeNode) : n.view.Answers := by
  cases n
  case aliased => exact ⟨rfl, rfl⟩
  all_goals first | exact rfl | exact trivial

/-- Of every packed type the readers for its kind answer. -/
theorem Program.Sound.answers {p : Program} (h : p.Sound) (t : TypeId) :
    (p.pool.view t).Answers := by
  rw [h.view_eq]
  exact TypeNode.answers_view _

namespace Session

/-- Nothing is taken for what it is not.  In a program that has been built the readers of a
packed type say what the type is, and those for its kind answer; and whatever is asked for
with whatever settings, no request is refused because a type is not of the kind it was
expected to be, because a declaration cannot be referred to, or because the type that conforms
is not known where a conformance is spelled. -/
theorem shapes_hold (m : Mangler) (hbuilt : m.program.Built) :
    (∀ t, m.program.pool.view t = m.program.types.view t ∧ (m.program.pool.view t).Answers) ∧
    ∀ history r e, ((m.inUse history).request r).1 = .error (.refused e) →
      (∀ t expected, e ≠ .unexpectedType t expected) ∧
      (∀ d, e ≠ .ineligibleReferent d) ∧
      ∀ d, e ≠ .unexpectedEntity d .knownConformance := by
  have hsound := hbuilt.sound
  refine ⟨fun t => ⟨congrFun hsound.view_eq t, hsound.answers t⟩, ?_⟩
  intro history r e hrefused
  rw [request_eq_mangle, Mangler.mangler_inUse] at hrefused
  have hshape := (Mangler.fits_of_mangle hrefused).shape
  refine ⟨?_, ?_, ?_⟩
  · rintro t expected rfl
    cases hshape
  · rintro d rfl
    cases hshape
  · rintro d rfl
    cases hshape

/-- In a program with conformances the struct `B<A<I>>` is read as one, with its argument, and
has a symbol that spells how `A<I>` and `I` conform. -/
theorem shapes_hold_conformances :
    let m : Mangler := { program := Program.conformanceProgram }
    m.program.Built ∧
      ((m.inUse []).request (.typeWithoutLead ⟨16⟩)).1 =
        .ok "1M1BVAa1AVAa1IV_G_AeAa1PP1NAdAfAgyHC_HCg_G" ∧
      (m.program.pool.view ⟨16⟩).nominal = some ⟨⟨3⟩, none, [⟨15⟩]⟩ ∧
      (∀ t, m.program.pool.view t = m.program.types.view t ∧ (m.program.pool.view t).Answers) ∧
      ∀ history r e, ((m.inUse history).request r).1 = .error (.refused e) →
        (∀ t expected, e ≠ .unexpectedType t expected) ∧
        (∀ d, e ≠ .ineligibleReferent d) ∧
        ∀ d, e ≠ .unexpectedEntity d .knownConformance := by
  intro m
  exact ⟨Program.conformanceProgram_built, by decide +kernel, by decide +kernel,
    shapes_hold m Program.conformanceProgram_built⟩

end Session

end NameMangling
