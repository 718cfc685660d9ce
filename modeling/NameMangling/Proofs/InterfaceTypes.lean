/-
# Interface types of declarations in modules

The interface type of a declaration that lies in a module is the declaration applied to the
parameters that it introduces.  Where a program holds this type, it holds the parameters, too;
none of them is sugar, and as signatures alone provide the conformances of parameters, the type
relies on no retroactive conformance.

Main definitions:
* `TypeNode.applied`, a declaration applied to some types;
* `Arena.AreParams`, types that are generic parameters.

Main fact: `Program.Sound.interfaceType_in_module`.
-/
import NameMangling.Proofs.BuiltPrograms
import NameMangling.Proofs.ReadingTypes

namespace NameMangling

/-- A declaration that lies in no other type, applied to some types. -/
def TypeNode.applied (d : DeclId) : List TypeId → TypeNode
  | [] => .nominal d none
  | args => .boundGeneric d none args

/-- With arguments the declaration is applied to them. -/
theorem TypeNode.applied_of_ne_nil {args : List TypeId} (d : DeclId) (h : args ≠ []) :
    applied d args = .boundGeneric d none args := by
  cases args with
  | nil => exact absurd rfl h
  | cons => rfl

@[simp] theorem TypeNode.desugared?_applied (d : DeclId) (args : List TypeId) :
    (applied d args).desugared? = none := by
  cases args <;> rfl

@[simp] theorem TypeNode.children_applied (d : DeclId) (args : List TypeId) :
    (applied d args).children = args := by
  cases args <;> rfl

@[simp] theorem TypeNode.nominal?_applied (d : DeclId) (args : List TypeId) :
    (applied d args).nominal? = some ⟨d, none, args⟩ := by
  cases args <;> rfl

/-! ## Generic parameters as types -/

namespace Arena

variable {a b : Arena} {t : TypeId} {ts : List TypeId} {keys : List ParamKey} {d : DeclId}

/-- Some types are the generic parameters with some keys. -/
def AreParams (a : Arena) (ts : List TypeId) (keys : List ParamKey) : Prop :=
  List.Forall₂ (fun t key => t.index < a.size ∧ a.node t = .genericParam key) ts keys

/-- Parameters stay parameters when more types are built. -/
theorem AreParams.of_extends (h : a.AreParams ts keys) (hextends : a.Extends b) :
    b.AreParams ts keys :=
  h.imp fun _ _ ⟨ht, hnode⟩ =>
    ⟨Nat.lt_of_lt_of_le ht hextends.size_le, by rw [hextends.node_eq ht, hnode]⟩

/-- There are types where there are keys. -/
theorem AreParams.ne_nil (h : a.AreParams ts keys) (hkeys : keys ≠ []) : ts ≠ [] := by
  rintro rfl
  cases h
  exact hkeys rfl

/-- Each of the types is a parameter. -/
theorem AreParams.exists_key (h : a.AreParams ts keys) (ht : t ∈ ts) :
    ∃ key, t.index < a.size ∧ a.node t = .genericParam key := by
  induction h with
  | nil => cases ht
  | cons hfirst _ ih =>
    rcases List.mem_cons.1 ht with rfl | ht
    · exact ⟨_, hfirst⟩
    · exact ih ht

/-- Types and keys are found in the same places. -/
theorem AreParams.getElem? (h : a.AreParams ts keys) {i : Nat} {key : ParamKey}
    (hi : keys[i]? = some key) :
    ∃ t : TypeId, ts[i]? = some t ∧ t.index < a.size ∧ a.node t = .genericParam key := by
  obtain ⟨hlt, rfl⟩ := List.getElem?_eq_some_iff.1 hi
  have hlength := h.length_eq
  have hts : i < ts.length := by omega
  exact ⟨ts[i], List.getElem?_eq_getElem hts, h.get hts hlt⟩

/-- Parameters that are built are there afterwards. -/
theorem areParams_constructAll (ha : a.Settled) (keys : List ParamKey) :
    (a.constructAll (keys.map .genericParam)).2.AreParams
      (a.constructAll (keys.map .genericParam)).1 keys := by
  induction keys generalizing a with
  | nil => exact .nil
  | cons key keys ih =>
    have hparts : ∀ u ∈ (TypeNode.genericParam key).children, u.index < a.size := by
      simp [TypeNode.children, TypeNode.desugared?]
    have hstep := ha.toShared.construct hparts (.inr (by simp))
    have hnode : (a.construct (.genericParam key)).2.node (a.construct (.genericParam key)).1 =
        .genericParam key := node_construct a (by simp) (by simp)
    have hrest := Extends.constructAll (a.construct (.genericParam key)).2
      (keys.map .genericParam)
    exact .cons ⟨Nat.lt_of_lt_of_le hstep.issued hrest.size_le,
      (hrest.node_eq hstep.issued).trans hnode⟩ (ih (ha.construct hparts))

namespace Settled

variable (ha : a.Settled)
include ha

/-- A parameter is not sugared. -/
theorem hasSugar_param {key : ParamKey} (ht : t.index < a.size)
    (h : a.node t = .genericParam key) : (a.flags t).hasSugar = false := by
  rw [ha.hasSugar_eq_false ht, h]
  simp [TypeNode.desugared?, TypeNode.children]

/-- A parameter has no sugar. -/
theorem canonical_param {key : ParamKey} (ht : t.index < a.size)
    (h : a.node t = .genericParam key) : a.canonical t = t :=
  ha.canonical_eq_self ht (ha.hasSugar_param ht h)

/-- A declaration applied to parameters has no sugar. -/
theorem canonical_applied (hts : a.AreParams ts keys) (ht : t.index < a.size)
    (h : a.node t = .applied d ts) : a.canonical t = t := by
  refine ha.canonical_eq_self ht ((ha.hasSugar_eq_false ht).2 ?_)
  rw [h, TypeNode.desugared?_applied, TypeNode.children_applied]
  refine ⟨rfl, fun u hu => ?_⟩
  obtain ⟨key, hlt, hnode⟩ := hts.exists_key hu
  exact ha.hasSugar_param hlt hnode

end Settled

end Arena

/-! ## Interface types -/

namespace Program

variable {p p' : Program} {t u : TypeId} {d q : DeclId} {n : TypeNode} {args : List TypeId}
  {keys : List ParamKey}

/-- Adding types to a program is building them in its arena. -/
theorem types_addTypes (p : Program) (ns : List TypeNode) :
    (p.addTypes ns).1 = (p.types.constructAll ns).1 ∧
      (p.addTypes ns).2.types = (p.types.constructAll ns).2 := by
  induction ns generalizing p with
  | nil => exact ⟨rfl, rfl⟩
  | cons n ns ih =>
    obtain ⟨htypes, harena⟩ := ih (p.addType n).2
    exact ⟨congrArg ((p.addType n).1 :: ·) htypes, harena⟩

/-- Parameters that are added are types of the program. -/
theorem addTypes_params (hp : p.types.Settled) (keys : List ParamKey) :
    (p.addTypes (keys.map .genericParam)).2.types.Settled ∧
      (p.addTypes (keys.map .genericParam)).2.types.AreParams
        (p.addTypes (keys.map .genericParam)).1 keys := by
  obtain ⟨hargs, harena⟩ := types_addTypes p (keys.map .genericParam)
  rw [hargs, harena]
  exact ⟨hp.constructAll (by simp [TypeNode.children, TypeNode.desugared?]),
    Arena.areParams_constructAll hp keys⟩

/-- A type that is built is there afterwards, with all that was there before. -/
theorem eq_of_addType (h : p'.addType n = (t, p)) (hsettled : p'.types.Settled)
    (hparts : ∀ u ∈ n.children, u.index < p'.types.size) (hempty : n ≠ .tuple [])
    (hsingle : ∀ u, n ≠ .tuple [⟨none, u⟩]) :
    t.index < p.types.size ∧ p.types.node t = n.normalise ∧ p'.types.Extends p.types := by
  obtain ⟨rfl, rfl⟩ := Prod.mk.inj h
  exact ⟨(hsettled.toShared.construct hparts (.inr hempty)).issued,
    Arena.node_construct _ hempty hsingle, Arena.Extends.construct _ n⟩

/-- A declaration in a module is in no generic one. -/
theorem genericParent?_eq_none (hparent : (p.decl d).parent = some (.decl q))
    (hq : (p.kindOf q).isModule = true) : p.genericParent? d = none := by
  have hnominal : (p.kindOf q).isNominal = false := by
    cases hkind : p.kindOf q <;> rw [hkind] at hq <;> first | rfl | cases hq
  simp [genericParent?, hparent, hnominal]

/-- The interface type of a declaration that lies in a module is the declaration applied to its
parameters. -/
theorem Sound.interfaceType_in_module (hp : p.Sound) (hd : d.index < p.decls.size)
    (hparent : (p.decl d).parent = some (.decl q)) (hq : (p.kindOf q).isModule = true)
    (ht : p.interfaceType d = (t, p)) :
    t.index < p.types.size ∧ ∃ args, p.types.AreParams args (p.ownParams d) ∧
      p.types.node t = .applied d args := by
  obtain ⟨n, hn⟩ : ∃ n, p.decls.size = n + 1 := ⟨p.decls.size - 1, by omega⟩
  rw [interfaceType, hn, interfaceTypeWithin, genericParent?_eq_none hparent hq] at ht
  dsimp only at ht
  split at ht
  · rename_i hkeys
    obtain ⟨hlt, hnode, -⟩ :=
      eq_of_addType ht hp.settled (by simp [TypeNode.children]) (by simp) (by simp)
    exact ⟨hlt, [], by rw [hkeys]; exact .nil, hnode⟩
  · rename_i hkeys
    obtain ⟨hsettled, hparams⟩ := addTypes_params hp.settled (p.ownParams d)
    generalize p.addTypes ((p.ownParams d).map .genericParam) = added at ht hsettled hparams
    have hparts : ∀ u ∈ (TypeNode.boundGeneric d none added.1).children,
        u.index < added.2.types.size := by
      intro u hu
      obtain ⟨key, hlt, -⟩ := hparams.exists_key (by simpa [TypeNode.children] using hu)
      exact hlt
    obtain ⟨hlt, hnode, hextends⟩ := eq_of_addType ht hsettled hparts (by simp) (by simp)
    refine ⟨hlt, added.1, hparams.of_extends hextends, ?_⟩
    rw [TypeNode.applied_of_ne_nil d (hparams.ne_nil hkeys)]
    exact hnode

/-- Signatures provide the conformances of parameters. -/
theorem conformanceOf_param (hp : p.types.Settled) {key : ParamKey}
    (hu : u.index < p.types.size) (h : p.types.node u = .genericParam key) (protocol : DeclId) :
    p.conformanceOf u protocol = .fromSignature protocol := by
  have hnominal : p.nominalOf u = none := by
    rw [nominalOf, hp.canonical_param hu h, h]
    rfl
  rw [conformanceOf, hnominal]

theorem argLevels_applied (ht : t.index < p.types.size)
    (h : p.types.node t = .applied d args) : p.argLevels t = [args] :=
  argLevels_eq ht (by rw [h, TypeNode.nominal?_applied])

/-- A declaration applied to parameters relies on no retroactive conformance. -/
theorem retroactiveOf_applied {g : Grammar} (hp : g.program.Sound)
    (hargs : g.program.types.AreParams args keys) (ht : t.index < g.program.types.size)
    (h : g.program.types.node t = .applied d args) : g.retroactiveOf t = [] := by
  refine retroactiveOf_eq_nil_of_fromSignature fun u hu protocol => ?_
  rw [flattenedArgs, hp.settled.canonical_applied hargs ht h, argLevels_applied ht h] at hu
  obtain ⟨key, hlt, hnode⟩ := hargs.exists_key (by simpa using hu)
  exact conformanceOf_param hp.settled hlt hnode protocol

end Program

end NameMangling
