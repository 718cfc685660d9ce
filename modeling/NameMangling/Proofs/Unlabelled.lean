/-
# Types without labels

Where modules and nominal types can be told by their names, a declaration is found by its
name and its place, and a type by its node.

Main definitions:
* `Program.NamesApart`, programs whose modules and nominal types can be told by their names;
* `Program.Unlabelled`, the types without labels;
* `Program.keyOf`, what a type is on the stack of a reader.

Main facts: `nativeModule?_eq`, `member?_eq` and `typeOf?_keyOf`, what a reader looks up.
-/
import NameMangling.Proofs.Sharing
import NameMangling.Proofs.TypeReader

namespace NameMangling

/-! ## Programs and types -/

/-- Programs whose modules and nominal types can be told by their names: no declaration has
a spelling of its own, and none shares its name with another one in the same place. -/
structure Program.NamesApart (p : Program) : Prop where
  noStandard : p.standardModule = none
  noForeign : ∀ d, p.kindOf d ≠ .foreignModule
  noConformances : p.conformances = #[]
  modules : ∀ d d' n n', p.kindOf d = .nativeModule → p.kindOf d' = .nativeModule →
    (p.decl d).name = some n → (p.decl d').name = some n' → p.text n = p.text n' → d = d'
  discriminators : ∀ d, (p.kindOf d).isNominal = true →
    (p.decl d).localDiscriminator = none ∧ (p.decl d).privateDiscriminator = none
  parents : ∀ d, (p.kindOf d).isNominal = true → ∃ c, (p.decl d).parent = some (.decl c) ∧
    (p.kindOf c = .nativeModule ∨ (p.kindOf c).isNominal = true)
  siblings : ∀ d d' n n', (p.kindOf d).isNominal = true → (p.kindOf d').isNominal = true →
    (p.decl d).parent = (p.decl d').parent → (p.decl d).name = some n →
    (p.decl d').name = some n' → p.text n = p.text n' → d = d'

/-- The types without labels, of all the kinds that do not depend on a signature or a
declaration in scope.  They have been built, and nominal types do not depend on others. -/
inductive Program.Unlabelled (p : Program) : TypeId → Prop
  | builtin {t : TypeId} (ht : t.index < p.types.size)
      (h : (p.types.node t).kind.isBuiltin = true) : Unlabelled p t
  | param {t : TypeId} {key : ParamKey} (ht : t.index < p.types.size)
      (h : p.types.node t = .genericParam key) : Unlabelled p t
  | nominal {t : TypeId} {d : DeclId} (ht : t.index < p.types.size)
      (h : p.types.node t = .nominal d none) (hd : (p.kindOf d).isNominal = true) :
      Unlabelled p t
  | boundGeneric {t : TypeId} {d : DeclId} {args : List TypeId} (ht : t.index < p.types.size)
      (h : p.types.node t = .boundGeneric d none args) (hd : (p.kindOf d).isNominal = true)
      (hne : args ≠ []) (hargs : ∀ u ∈ args, Unlabelled p u) : Unlabelled p t
  | tuple {t : TypeId} {elements : List TupleElement} (ht : t.index < p.types.size)
      (h : p.types.node t = .tuple elements) (hlabels : ∀ e ∈ elements, e.label = none)
      (helements : ∀ e ∈ elements, Unlabelled p e.type) : Unlabelled p t
  | function {t : TypeId} {f : FunctionType} (ht : t.index < p.types.size)
      (h : p.types.node t = .function f) (hparams : ∀ q ∈ f.params, Unlabelled p q.type)
      (hresult : Unlabelled p f.result) : Unlabelled p t
  | lowered {t : TypeId} {f : LoweredFunction} (ht : t.index < p.types.size)
      (h : p.types.node t = .lowered f)
      (hrepr : f.repr = .native ∨ f.repr = .block ∨ f.repr = .cFunctionPointer)
      (htypes : ∀ u ∈ f.params.map (·.2) ++ f.results.map (·.2) ++ f.error.toList,
        Unlabelled p u) : Unlabelled p t
  | metatype {t u : TypeId} (ht : t.index < p.types.size) (h : p.types.node t = .metatype u)
      (hu : Unlabelled p u) : Unlabelled p t
  | existentialMetatype {t u : TypeId} (ht : t.index < p.types.size)
      (h : p.types.node t = .existentialMetatype u) (hu : Unlabelled p u) : Unlabelled p t
  | existential {t : TypeId} {c : Composition} (ht : t.index < p.types.size)
      (h : p.types.node t = .existential c)
      (hbound : c.superclass.isSome = true → c.anyObject = false)
      (hsuperclass : ∀ u ∈ c.superclass, Unlabelled p u) : Unlabelled p t

namespace Program

variable {p : Program} {t : TypeId}

theorem Unlabelled.lt (h : p.Unlabelled t) : t.index < p.types.size := by
  cases h <;> assumption

/-- What a type is on the stack: a nominal type is its declaration. -/
def keyOf (p : Program) (t : TypeId) : NodeKey :=
  match p.types.node t with
  | .nominal d none => .decl d
  | _ => .type t

/-- A type other than a nominal type without arguments is its own node. -/
theorem keyOf_eq_type (h : ∀ d, p.types.node t ≠ .nominal d none) : p.keyOf t = .type t := by
  unfold keyOf
  split
  · rename_i d hd
    exact absurd hd (h d)
  · rfl

/-- A type is recovered from its key. -/
theorem typeOf?_keyOf (ha : p.types.Shared) (ht : t.index < p.types.size) :
    p.typeOf? (.key (p.keyOf t)) = some t := by
  unfold keyOf
  split
  · rename_i d hd
    rw [typeOf?, ← hd, ha.find?_node ht]
  · rfl

/-! ## Looking up declarations -/

/-- A declaration with a name is among those that have been added. -/
theorem mem_declIds_of_name {d : DeclId} {n : Name} (hn : (p.decl d).name = some n) :
    d ∈ p.declIds := by
  refine mem_declIds.mpr (Classical.byContradiction fun hge => ?_)
  rw [decl_of_size_le (Nat.le_of_not_lt hge)] at hn
  cases hn

/-- The first declaration with a property is the only one that has it. -/
theorem find?_declIds {d : DeclId} {P : DeclId → Bool} (hd : d ∈ p.declIds) (hP : P d = true)
    (hunique : ∀ e, P e = true → e = d) : p.declIds.find? P = some d := by
  obtain ⟨e, he⟩ := Option.isSome_iff_exists.1 (List.find?_isSome.2 ⟨d, hd, hP⟩)
  rw [he, hunique e (List.find?_some he)]

/-- A module is found by its name where names are apart. -/
theorem nativeModule?_eq (hp : p.NamesApart) {d : DeclId} {n : Name}
    (hd : p.kindOf d = .nativeModule) (hn : (p.decl d).name = some n) :
    p.nativeModule? (p.text n) = some d := by
  refine find?_declIds (mem_declIds_of_name hn) (by simp [hd, hn]) ?_
  intro e he
  simp only [Bool.and_eq_true, beq_iff_eq, Option.any_eq_true] at he
  obtain ⟨hkind, n', hn', htext⟩ := he
  exact hp.modules e d n' n hkind hd hn' hn htext

/-- A nominal declaration is found by its name among the members of its parent. -/
theorem member?_eq (hp : p.NamesApart) {c d : DeclId} {n : Name}
    (hd : (p.kindOf d).isNominal = true) (hc : (p.decl d).parent = some (.decl c))
    (hn : (p.decl d).name = some n) : p.member? c (p.text n) = some d := by
  refine find?_declIds (mem_declIds_of_name hn) (by simp [hd, hn, hc]) ?_
  intro e he
  simp only [Bool.and_eq_true, beq_iff_eq, Option.any_eq_true] at he
  obtain ⟨⟨hkind, hparent⟩, n', hn', htext⟩ := he
  exact hp.siblings e d n' n hkind hd (hparent.trans hc.symm) hn' hn htext

end Program

end NameMangling
