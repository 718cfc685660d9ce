/-
# Programs as they are built

A program is built step by step from the empty one.  A step names what earlier steps have
handed out: the parts of a type are types of the program, and a conformance is inherited from
one that is there.  All handles have to fit the words they are packed in.  What holds after
each step holds of every program that has been built.

Main definitions:
* `BuildStep`, one call of the program's interface; the composite calls, such as those that
  install the standard library or derive an interface type, are made of these;
* `Program.Built`, a program that some accepted steps lead to;
* `Program.Sound`, what every such program satisfies.

Main fact: `Built.sound`.
-/
import NameMangling.Proofs.Decoding
import NameMangling.Proofs.Desugaring
import NameMangling.Program

namespace NameMangling

/-- One step in building a program. -/
inductive BuildStep
  | intern (s : String)
  | type (n : TypeNode)
  | decl (d : Decl)
  | setDecl (d : DeclId) (new : Decl)
  | closure (c : Closure)
  | binding (b : PatternBinding)
  | signature (s : GenericSignature)
  | conformance (c : Conformance)
  | standardModule (d : DeclId)
deriving DecidableEq, Inhabited

namespace Program

/-- The program after a step. -/
def step (p : Program) : BuildStep → Program
  | .intern s => (p.intern s).2
  | .type n => (p.addType n).2
  | .decl d => (p.addDecl d).2
  | .setDecl d new => p.updateDecl d fun _ => new
  | .closure c => (p.addClosure c).2
  | .binding b => (p.addBinding b).2
  | .signature s => (p.addSignature s).2
  | .conformance c => (p.addConformance c).2
  | .standardModule d => p.setStandardModule d

/-- The program after some steps. -/
def build (p : Program) (steps : List BuildStep) : Program := steps.foldl step p

/-- What a step names has been handed out before. -/
def AcceptsStep (p : Program) : BuildStep → Prop
  | .type n => n.Fits ∧ ∀ t ∈ n.children, t.index < p.types.size
  | .conformance (.inherited base _) => base.index < p.conformances.size
  | _ => True

instance (p : Program) : (s : BuildStep) → Decidable (p.AcceptsStep s)
  | .type n => inferInstanceAs (Decidable (n.Fits ∧ ∀ t ∈ n.children, t.index < p.types.size))
  | .conformance (.inherited base _) =>
    inferInstanceAs (Decidable (base.index < p.conformances.size))
  | .conformance (.declared _) | .intern _ | .decl _ | .setDecl _ _ | .closure _ | .binding _
  | .signature _ | .standardModule _ => inferInstanceAs (Decidable True)

/-- Step by step, what is named has been handed out before. -/
def Accepts (p : Program) : List BuildStep → Prop
  | [] => True
  | s :: steps => p.AcceptsStep s ∧ (p.step s).Accepts steps

instance decidableAccepts (p : Program) : (steps : List BuildStep) → Decidable (p.Accepts steps)
  | [] => inferInstanceAs (Decidable True)
  | s :: steps =>
    have := decidableAccepts (p.step s) steps
    inferInstanceAs (Decidable (_ ∧ _))

/-- A program that has been built, and whose handles fit their words. -/
structure Built (p : Program) : Prop where
  steps : ∃ steps, empty.Accepts steps ∧ p = empty.build steps
  small : p.pool.Small

/-- What every program that has been built satisfies. -/
structure Sound (p : Program) : Prop where
  packs : p.pool.Packs p.types
  settled : p.types.Settled
  nonempty : 0 < p.types.size
  base_lt : ∀ (i : Nat) (base : ConformanceId) (t : TypeId),
    p.conformances[i]? = some (.inherited base t) → base.index < i

variable {p : Program}

/-- The empty program is sound. -/
theorem sound_empty : empty.Sound where
  packs := packs_empty
  settled := Arena.Built.initial.settled
  nonempty := Arena.initial_size_pos
  base_lt := by simp [empty]

/-- A step only appends to the pool. -/
theorem within_step (p : Program) (s : BuildStep) : p.pool.Within (p.step s).pool := by
  cases s with
  | type n => exact Pool.Within.construct p.pool n
  | _ => exact .refl _

/-- Building only appends to the pool. -/
theorem within_build (p : Program) (steps : List BuildStep) :
    p.pool.Within (p.build steps).pool := by
  induction steps generalizing p with
  | nil => exact .refl _
  | cons s steps ih => exact (p.within_step s).trans (ih _)

/-- A step that leaves types and conformances alone keeps what holds of them. -/
theorem Sound.of_eq {p' : Program} (h : p.Sound) (htypes : p'.types = p.types)
    (hpool : p'.pool = p.pool) (hconformances : p'.conformances = p.conformances) : p'.Sound where
  packs := by rw [htypes, hpool]; exact h.packs
  settled := by rw [htypes]; exact h.settled
  nonempty := by rw [htypes]; exact h.nonempty
  base_lt := by rw [hconformances]; exact h.base_lt

/-- A step that is accepted keeps a program sound while the pool is small. -/
theorem Sound.step (h : p.Sound) {s : BuildStep} (haccepts : p.AcceptsStep s)
    (hsmall : (p.step s).pool.Small) : (p.step s).Sound := by
  cases s with
  | type n =>
    obtain ⟨hfits, hparts⟩ := haccepts
    have hsettled := h.settled.construct hparts
    exact
      { packs := (packs_addType h.packs h.settled.toShared hfits hparts hsmall).2
        settled := hsettled
        nonempty := Nat.lt_of_lt_of_le h.nonempty (Arena.Extends.construct _ n).size_le
        base_lt := h.base_lt }
  | conformance c =>
    refine ⟨h.packs, h.settled, h.nonempty, fun i base t hi => ?_⟩
    -- the conformances from before are bounded by `h`, the new one by what the step accepts
    rw [show (p.step (.conformance c)).conformances = p.conformances.push c from rfl,
      Array.getElem?_push] at hi
    split at hi
    · rename_i heq
      cases hi
      rw [heq]
      exact haccepts
    · exact h.base_lt i base t hi
  -- no other step touches the types or the conformances
  | _ => exact h.of_eq rfl rfl rfl

/-- What holds of a program holds after any accepted steps. -/
theorem Sound.build (h : p.Sound) {steps : List BuildStep} (haccepts : p.Accepts steps)
    (hsmall : (p.build steps).pool.Small) : (p.build steps).Sound := by
  induction steps generalizing p with
  | nil => exact h
  | cons s steps ih =>
    have hstep : (p.step s).pool.Small := ((p.step s).within_build steps).small hsmall
    exact ih (h.step haccepts.1 hstep) haccepts.2 hsmall

/-- Every program that has been built is sound. -/
theorem Built.sound (h : p.Built) : p.Sound := by
  obtain ⟨⟨steps, haccepts, rfl⟩, hsmall⟩ := h
  exact sound_empty.build haccepts hsmall

/-- A position that has not been handed out is read as the empty tuple. -/
theorem view_of_default {pool : Pool} {t : TypeId} (h : pool.item t = {}) :
    pool.view t = TypeNode.emptyTuple.view := by
  simp only [Pool.view, Pool.kind, Pool.builtinWidth?, Pool.nominal?, Pool.tuple?, Pool.function?,
    Pool.lowered?, Pool.instance?, Pool.existential?, Pool.genericParam?, Pool.dependentMember?,
    Pool.opaqueResult?, Pool.aliased?, Pool.desugared?, Pool.row?, Pool.data?, h]
  rfl

/-- The packed types of a program that has been built are read as the types they pack, at
positions that were never handed out as well. -/
theorem Sound.view_eq (h : p.Sound) : p.pool.view = p.types.view := by
  funext t
  by_cases ht : t.index < p.types.size
  · exact h.packs.view ht
  · have hitem : p.pool.items[t.index]? = none := by
      rw [Array.getElem?_eq_none_iff, h.packs.size]
      omega
    rw [view_of_default (by rw [Pool.item, hitem]; rfl), Arena.view,
      Arena.node_of_size_le (Nat.le_of_not_lt ht)]

/-! ## A program with conformances -/

/-- In a module `M` a protocol `P` and structs `B<X> where X: P`, `A<X>` and `I`; in a module
`N` extensions by which `I` conforms to `P`, and `A<X>` where `X` does. -/
def conformanceSteps : List BuildStep :=
  [.intern "M", .decl { kind := .nativeModule, name := some ⟨1⟩ },
    .intern "N", .decl { kind := .nativeModule, name := some ⟨2⟩ },
    .intern "P",
    .decl { kind := .protocolType [], name := some ⟨3⟩, parent := some (.decl ⟨0⟩) },
    .type (.genericParam ⟨0, 0⟩),
    .signature (.ofParams [⟨0, 0⟩] [⟨⟨12⟩, .conformance ⟨2⟩⟩]),
    .signature (.ofParams [⟨0, 0⟩] []),
    .intern "B",
    .decl { kind := .structType, name := some ⟨4⟩, parent := some (.decl ⟨0⟩),
            signature := some ⟨0⟩ },
    .intern "A",
    .decl { kind := .structType, name := some ⟨5⟩, parent := some (.decl ⟨0⟩),
            signature := some ⟨1⟩ },
    .intern "I", .decl { kind := .structType, name := some ⟨6⟩, parent := some (.decl ⟨0⟩) },
    .decl { kind := .extension ⟨5⟩, parent := some (.decl ⟨1⟩) },
    .decl { kind := .extension ⟨4⟩, parent := some (.decl ⟨1⟩), signature := some ⟨0⟩ },
    .type (.nominal ⟨5⟩ none),
    .type (.boundGeneric ⟨4⟩ none [⟨12⟩]),
    .conformance (.declared { type := ⟨13⟩, protocol := ⟨2⟩, context := ⟨6⟩ }),
    .conformance
      (.declared { type := ⟨14⟩, protocol := ⟨2⟩, context := ⟨7⟩, conditional := some ⟨0⟩ }),
    .type (.boundGeneric ⟨4⟩ none [⟨13⟩]),
    .type (.boundGeneric ⟨3⟩ none [⟨15⟩])]

/-- The program with these conformances. -/
def conformanceProgram : Program := empty.build conformanceSteps

theorem conformanceProgram_built : conformanceProgram.Built :=
  ⟨⟨conformanceSteps, by decide +kernel, rfl⟩, by decide +kernel⟩

end Program

end NameMangling
