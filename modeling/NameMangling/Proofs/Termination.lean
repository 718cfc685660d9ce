/-
# Types are spelled in finitely many steps

Spelling a type follows its parts, the declarations it names, and conformances, which lead to
further types.  In a program whose chains of contexts end, and whose types name declarations
with a place in it, all of this ends, within a bound that can be read off the program: so many
phrases are nested at most, whatever has been written before, and a greater bound changes
nothing.  Nor is any of the walks cut off that find modules, signatures, roots of conformances
and arguments.

What a type names has to have a place, too.  An alias may lie in a variable whose type names the
alias, in a program whose chains all end, and no bound is enough for that type.

Main definition: `Program.nestingBound`.

Main facts: `type_terminates` and `type_endless_alias`.
-/
import NameMangling.Proofs.EndlessSpellings
import NameMangling.Proofs.Placeholders
import NameMangling.Proofs.TypeDepth

namespace NameMangling

/-- A bound on how deep canonical types without opaque results nest. -/
def Program.nestingBound (p : Program) : Nat := p.declDepth + 3 * p.types.size

namespace Grammar

variable {g : Grammar} {t : TypeId}

/-- The bound for types is no greater than the bound with which requests are answered. -/
theorem nestingBound_le_depthBound (g : Grammar) : g.program.nestingBound ≤ g.depthBound := by
  have hbound : g.program.nestingBound ≤ g.subjects * 4 := by
    unfold Program.nestingBound Program.declDepth Program.walkBound subjects
    omega
  have htwo : 2 ≤ g.subjects := by
    unfold subjects
    omega
  calc g.program.nestingBound ≤ g.subjects * 4 := hbound
    _ ≤ g.subjects * 2 ^ 5 := Nat.mul_le_mul_left _ (by decide)
    _ ≤ g.subjects * g.subjects ^ 5 := Nat.mul_le_mul_left _ (Nat.pow_le_pow_left htwo 5)
    _ = g.depthBound := (Nat.pow_succ').symm

/-- A type nests within the bound for types. -/
theorem within_nestingBound (hp : g.program.Sound) (hg : g.program.Grounded)
    (hnames : g.program.NamesPlaced) (ht : g.program.types.Plain t) :
    g.Within g.program.nestingBound {} (.type t) := by
  have hlt := ht.issued
  refine (typeWithin hp hg hnames ht).type.mono ?_
  unfold Program.nestingBound
  omega

end Grammar

namespace Session

/-- Types are spelled in finitely many steps.  In a program that has been built, whose chains
of contexts end, and whose types name declarations with a place, no walk is cut off, and a
canonical type without opaque results is answered with a symbol or refused: with whatever
settings, after whatever history, and with any bound on nesting from one on that is computed
from the program.  What is answered with one of these bounds is what is always answered. -/
theorem type_terminates (m : Mangler) (hbuilt : m.program.Built) (hgrounded : m.program.Grounded)
    (hnames : m.program.NamesPlaced) :
    m.program.WalksEnd ∧
    ∀ t, m.program.types.Plain t → ∀ history n, m.program.nestingBound ≤ n →
      let answer := ((m.inUse history).requestWithin n (.typeWithoutLead t)).1
      ((∃ text, answer = .ok text) ∨ ∃ e, answer = .error (.refused e)) ∧
        answer = ((m.inUse history).request (.typeWithoutLead t)).1 := by
  refine ⟨hgrounded.walksEnd hnames hbuilt.sound, fun t ht history n hn => ?_⟩
  have hmangler := m.mangler_inUse history
  have hopens : Opens ((m.grammar false).Within m.program.nestingBound)
      [.type Grammar.outermost t] :=
    .cons ((m.grammar false).within_nestingBound hbuilt.sound hgrounded hnames ht) .nil
  have hbound := (m.grammar false).nestingBound_le_depthBound
  rw [← hmangler] at hopens hbound
  obtain ⟨hanswer, hdeep⟩ := requestWithin_eq_mangle (r := .typeWithoutLead t) rfl hopens hbound
    (hmangler ▸ hn)
  dsimp only
  rw [request_eq_mangle, hanswer]
  refine ⟨?_, rfl⟩
  -- the bound is not met, so what remains is a symbol or a refusal
  cases hmangle : (m.inUse history).mangler.mangle (.typeWithoutLead t) with
  | ok text => exact .inl ⟨text, rfl⟩
  | error e =>
    cases e with
    | refused e => exact .inr ⟨e, rfl⟩
    | tooDeep => exact absurd hmangle hdeep

/-- In a program with conformances `B<A<I>>` relies on a retroactive conformance of `A<I>`, whose
condition needs one of `I`.  It nests seven phrases, and the bound of the program is 87. -/
theorem type_terminates_conformances :
    let m : Mangler := { program := Program.conformanceProgram }
    m.program.Built ∧ m.program.Grounded ∧ m.program.NamesPlaced ∧
      m.program.types.Plain ⟨16⟩ ∧
      ((m.inUse []).requestWithin 6 (.typeWithoutLead ⟨16⟩)).1 = .error .tooDeep ∧
      ((m.inUse []).requestWithin 7 (.typeWithoutLead ⟨16⟩)).1 =
        .ok "1M1BVAa1AVAa1IV_G_AeAa1PP1NAdAfAgyHC_HCg_G" ∧
      m.program.nestingBound = 87 ∧
      m.program.WalksEnd ∧
      ∀ t, m.program.types.Plain t → ∀ history n, m.program.nestingBound ≤ n →
        let answer := ((m.inUse history).requestWithin n (.typeWithoutLead t)).1
        ((∃ text, answer = .ok text) ∨ ∃ e, answer = .error (.refused e)) ∧
          answer = ((m.inUse history).request (.typeWithoutLead t)).1 := by
  intro m
  have hgrounded : m.program.Grounded := by decide +kernel
  have hnames : m.program.NamesPlaced := by decide +kernel
  exact ⟨Program.conformanceProgram_built, hgrounded, hnames, ⟨by decide +kernel,
    by decide +kernel, by decide +kernel⟩, by decide +kernel, by decide +kernel,
    by decide +kernel, type_terminates m Program.conformanceProgram_built hgrounded hnames⟩

/-- That chains of contexts end is not enough.  In a module `M` a variable has a type that names
an alias in the variable.  All chains of contexts end, and the type is canonical and has no
opaque results, but every bound is met. -/
theorem type_endless_alias :
    let m : Mangler := { program := Program.aliasProgram }
    m.program.Built ∧ m.program.Grounded ∧
      (∀ d ∈ m.program.declIds, m.program.Ends m.program.parent? (.decl d)) ∧
      m.program.types.Plain ⟨12⟩ ∧
      ∀ history n, ((m.inUse history).requestWithin n (.typeWithoutLead ⟨12⟩)).1 =
        .error .tooDeep := by
  intro m
  refine ⟨Program.aliasProgram_built, by decide +kernel, by decide +kernel,
    ⟨by decide +kernel, by decide +kernel, by decide +kernel⟩, fun history n => ?_⟩
  have hloop : (m.inUse history).mangler.program.AliasLoop ⟨0⟩ ⟨1⟩ ⟨2⟩ ⟨12⟩ := by
    rw [m.mangler_inUse history]
    exact Program.aliasProgram_aliasLoop
  exact requestWithin_aliasLoop hloop n

end Session

end NameMangling
