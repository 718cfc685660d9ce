/-
# What flags say of a type

The flags of a type are computed once, from those of its children, and never again.  Still a
presence flag says what a walk through the type would find: whether a generic parameter, a
dependent member or an opaque result type is reachable through children.  A category flag says
what the type itself is, whatever it is made of.

Main definitions:
* `Pool.Child`, the types that a type is made of; sugar has one, the type it stands for;
* `TypeFlags.Describes`, the flags that types do not pass on;
* `Pool.FlagsExact`, what flags say.

Main fact: `Pool.flags_exact`: this holds in every pool that calls can lead to.
-/
import NameMangling.Proofs.CanonicalForms

namespace NameMangling

namespace TypeNode

variable {n : TypeNode}

theorem kind_mapChildren (n : TypeNode) (f : TypeId → TypeId) :
    (n.mapChildren f).kind = n.kind := by
  cases n <;> rfl

/-- The one child of sugar is the type it stands for. -/
theorem children_of_desugared? {t : TypeId} (h : n.desugared? = some t) : n.children = [t] := by
  cases n <;> cases h <;> rfl

end TypeNode

/-! ## Flags of nodes -/

/-- A flag that types do not pass on. -/
def TypeFlags.Describes (flag : TypeFlags → Bool) : Prop :=
  ∀ x y : TypeFlags, flag (x.union y.presence) = flag x

namespace TypeFlags

theorem describes_isBuiltin : Describes isBuiltin := fun x _ => Bool.or_false x.isBuiltin

theorem describes_isNominal : Describes isNominal := fun x _ => Bool.or_false x.isNominal

theorem describes_isFunction : Describes isFunction := fun x _ => Bool.or_false x.isFunction

theorem describes_isTuple : Describes isTuple := fun x _ => Bool.or_false x.isTuple

theorem describes_isExistential : Describes isExistential := fun x _ =>
  Bool.or_false x.isExistential

end TypeFlags

namespace Arena

variable {a : Arena} {n : TypeNode} {t : TypeId} {flag : TypeFlags → Bool} {kind : TypeKind}

/-- A category flag of a node is that of its kind. -/
theorem flag_flagsOf_eq (hflag : TypeFlags.Describes flag) :
    flag (a.flagsOf n) = flag n.kind.ownFlags := by
  have hfold : ∀ (ts : List TypeId) (acc : TypeFlags),
      flag (ts.foldl (fun acc t => acc.union (a.flags t).presence) acc) = flag acc := by
    intro ts
    induction ts with
    | nil => exact fun _ => rfl
    | cons t ts ih => exact fun acc => (ih _).trans (hflag acc (a.flags t))
  exact hfold n.children n.kind.ownFlags

namespace Settled

variable (ha : a.Settled)
include ha

/-- A flag that is inherited is set on types of its kind and on those with a part that has it. -/
theorem flag_iff (hflag : TypeFlags.Marks flag kind) (ht : t.index < a.size) :
    flag (a.flags t) = true ↔
      (a.node t).kind = kind ∨ ∃ u ∈ (a.node t).children, flag (a.flags u) = true := by
  rw [(ha.settledAt t ht).flags, flag_flagsOf_iff hflag]

/-- A type and its canonical form have the same presence flags, but for that of sugar. -/
theorem flag_canonical (hflag : TypeFlags.Marks flag kind) (hkind : kind.isSugar = false)
    (ht : t.index < a.size) : flag (a.flags (a.canonical t)) = flag (a.flags t) := by
  refine ha.toShared.induction (motive := fun t => flag (a.flags (a.canonical t)) =
    flag (a.flags t)) (fun t ht ih => ?_) ht
  rw [Bool.eq_iff_iff]
  cases hsugar : (a.node t).desugared? with
  | some u =>
    -- sugar is of another kind, and has what its one child has
    have hchildren := TypeNode.children_of_desugared? hsugar
    have hother : (a.node t).kind ≠ kind := by
      intro heq
      rw [← heq, TypeNode.isSugar_kind, hsugar] at hkind
      cases hkind
    rw [(ha.settledAt t ht).sugar u hsugar, ih u (by rw [hchildren]; exact List.mem_cons_self),
      ha.flag_iff hflag ht, hchildren]
    simp [hother]
  | none =>
    have hnode := (ha.settledAt t ht).plain hsugar
    rw [ha.flag_iff hflag (ha.canonical_lt ht), ha.flag_iff hflag ht, hnode,
      TypeNode.kind_mapChildren, TypeNode.children_mapChildren_eq hsugar]
    refine or_congr_right ?_
    simp only [List.mem_map, exists_exists_and_eq_and]
    exact exists_congr fun u => and_congr_right fun hu => by rw [ih u hu]

end Settled

end Arena

namespace Pool

/-! ## Children -/

/-- Whether the first type is made of the second one; sugar is made of what it stands for. -/
def Child (p : Pool) (t u : TypeId) : Prop := ∃ n, p.node? t = some n ∧ u ∈ n.children

/-- What the flags of a pool say. -/
structure FlagsExact (p : Pool) : Prop where
  /-- The presence flags are those of what is reachable through children. -/
  hasTypeParam_iff : ∀ t : TypeId, t.index < p.size → ((p.flags t).hasTypeParam = true ↔
    ∃ u, Relation.ReflTransGen p.Child t u ∧ p.kind u = .genericParam)
  hasDependentMember_iff : ∀ t : TypeId, t.index < p.size →
    ((p.flags t).hasDependentMember = true ↔
      ∃ u, Relation.ReflTransGen p.Child t u ∧ p.kind u = .dependentMember)
  hasOpaque_iff : ∀ t : TypeId, t.index < p.size → ((p.flags t).hasOpaque = true ↔
    ∃ u, Relation.ReflTransGen p.Child t u ∧ p.kind u = .opaqueResult)
  /-- A canonical form has the presence flags of its type. -/
  canonical : ∀ t : TypeId, t.index < p.size →
    (p.flags (p.canonical t)).hasTypeParam = (p.flags t).hasTypeParam ∧
      (p.flags (p.canonical t)).hasDependentMember = (p.flags t).hasDependentMember ∧
      (p.flags (p.canonical t)).hasOpaque = (p.flags t).hasOpaque
  /-- The category flags are those of the type itself. -/
  isBuiltin_iff : ∀ t : TypeId, t.index < p.size → ((p.flags t).isBuiltin = true ↔
    p.kind t ∈ [.builtinInt, .builtinFloat, .builtinWord, .rawPointer, .nativeObject,
      .unknownObject, .bridgeObject])
  isNominal_iff : ∀ t : TypeId, t.index < p.size → ((p.flags t).isNominal = true ↔
    p.kind t ∈ [.nominal, .boundGeneric])
  isFunction_iff : ∀ t : TypeId, t.index < p.size → ((p.flags t).isFunction = true ↔
    p.kind t ∈ [.function, .lowered])
  isTuple_iff : ∀ t : TypeId, t.index < p.size → ((p.flags t).isTuple = true ↔
    p.kind t ∈ [.emptyTuple, .tuple])
  isExistential_iff : ∀ t : TypeId, t.index < p.size → ((p.flags t).isExistential = true ↔
    p.kind t = .existential)

namespace Packs

variable {p : Pool} {a : Arena} {t u : TypeId} {flag : TypeFlags → Bool} {kind : TypeKind}

theorem child_iff (h : p.Packs a) (ht : t.index < a.size) :
    p.Child t u ↔ u ∈ (a.node t).children := by
  simp [Child, h.node?_eq ht]

/-- A presence flag says whether what it marks is reachable, by induction on types. -/
theorem flag_iff_reaches (h : p.Packs a) (ha : a.Settled) (hflag : TypeFlags.Marks flag kind)
    (ht : t.index < a.size) : flag (p.flags t) = true ↔
      ∃ u, Relation.ReflTransGen p.Child t u ∧ p.kind u = kind := by
  refine ha.toShared.induction (motive := fun t => flag (p.flags t) = true ↔
    ∃ u, Relation.ReflTransGen p.Child t u ∧ p.kind u = kind) (fun t ht ih => ?_) ht
  rw [h.flags_eq, ha.flag_iff hflag ht, ← h.flags_eq, ← h.kind_eq ht]
  constructor
  · rintro (hkind | ⟨u, hu, hpart⟩)
    · exact ⟨t, .refl, hkind⟩
    · obtain ⟨v, hv, hkind⟩ := (ih u hu).1 hpart
      exact ⟨v, .head ((h.child_iff ht).2 hu) hv, hkind⟩
  · rintro ⟨v, hv, hkind⟩
    rcases hv.cases_head with rfl | ⟨u, hu, hv⟩
    · exact .inl hkind
    · have hu := (h.child_iff ht).1 hu
      exact .inr ⟨u, hu, (ih u hu).2 ⟨v, hv, hkind⟩⟩

/-- A category flag is that of the kind of a type. -/
theorem flag_eq_own (h : p.Packs a) (ha : a.Settled) (hflag : TypeFlags.Describes flag)
    (ht : t.index < a.size) : flag (p.flags t) = flag (p.kind t).ownFlags := by
  rw [h.flags_eq, (ha.settledAt t ht).flags, Arena.flag_flagsOf_eq hflag, h.kind_eq ht]

/-- In a pool that packs a settled arena flags say what they should. -/
theorem flagsExact (h : p.Packs a) (ha : a.Settled) : p.FlagsExact := by
  -- the flags of categories speak of the kind of a type, not of what can be reached from it
  have hcategory {flag : TypeFlags → Bool} (hflag : TypeFlags.Describes flag) {q : TypeKind → Prop}
      (hq : ∀ k : TypeKind, flag k.ownFlags = true ↔ q k) (t : TypeId) (ht : t.index < p.size) :
      flag (p.flags t) = true ↔ q (p.kind t) := by
    rw [h.flag_eq_own ha hflag (h.size_eq ▸ ht), hq]
  exact
    { hasTypeParam_iff := fun t ht =>
        h.flag_iff_reaches ha TypeFlags.marks_hasTypeParam (h.size_eq ▸ ht)
      hasDependentMember_iff := fun t ht =>
        h.flag_iff_reaches ha TypeFlags.marks_hasDependentMember (h.size_eq ▸ ht)
      hasOpaque_iff := fun t ht =>
        h.flag_iff_reaches ha TypeFlags.marks_hasOpaque (h.size_eq ▸ ht)
      canonical := fun t ht => by
        rw [h.size_eq] at ht
        rw [h.flags_eq, h.canonical_eq]
        exact ⟨ha.flag_canonical TypeFlags.marks_hasTypeParam rfl ht,
          ha.flag_canonical TypeFlags.marks_hasDependentMember rfl ht,
          ha.flag_canonical TypeFlags.marks_hasOpaque rfl ht⟩
      isBuiltin_iff := hcategory TypeFlags.describes_isBuiltin fun k => by cases k <;> decide
      isNominal_iff := hcategory TypeFlags.describes_isNominal fun k => by cases k <;> decide
      isFunction_iff := hcategory TypeFlags.describes_isFunction fun k => by cases k <;> decide
      isTuple_iff := hcategory TypeFlags.describes_isTuple fun k => by cases k <;> decide
      isExistential_iff := hcategory TypeFlags.describes_isExistential (q := (· = .existential))
        fun k => by cases k <;> decide }

end Packs

/-- In every pool that calls can lead to, presence flags mean containment and category flags mean
the type itself. -/
theorem flags_exact (calls : List TypeNode) (haccepts : initial.Accepts calls)
    (hsmall : (initial.run calls).Small) : (initial.run calls).FlagsExact := by
  obtain ⟨hpacks, hbuilt⟩ := packs_initial.built .initial haccepts hsmall
  exact hpacks.flagsExact hbuilt.settled

/-- A metatype over an optional dependent member of a parameter.  Both are reachable, an opaque
type is not, and the metatype is not nominal though the optional stands for a nominal type. -/
theorem flags_exact_metatype :
    let calls : List TypeNode :=
      [.genericParam ⟨0, 0⟩, .dependentMember ⟨12⟩ ⟨7⟩, .boundGeneric ⟨9⟩ none [⟨13⟩],
        .optionalSugar ⟨13⟩ ⟨14⟩, .metatype ⟨15⟩]
    let p := initial.run calls
    initial.Accepts calls ∧ p.Small ∧ p.kind ⟨17⟩ = .metatype ∧ p.canonical ⟨17⟩ = ⟨16⟩ ∧
      (∃ u, Relation.ReflTransGen p.Child ⟨17⟩ u ∧ p.kind u = .genericParam) ∧
      (∃ u, Relation.ReflTransGen p.Child ⟨16⟩ u ∧ p.kind u = .dependentMember) ∧
      (¬∃ u, Relation.ReflTransGen p.Child ⟨17⟩ u ∧ p.kind u = .opaqueResult) ∧
      (p.flags ⟨14⟩).isNominal = true ∧ (p.flags ⟨17⟩).isNominal = false := by
  intro calls p
  have haccepts : initial.Accepts calls := by decide +kernel
  have hsmall : p.Small := by decide +kernel
  have hkind : p.kind ⟨17⟩ = .metatype := by decide +kernel
  have hcanonical : p.canonical ⟨17⟩ = ⟨16⟩ := by decide +kernel
  have hlast : (⟨17⟩ : TypeId).index < p.size := by decide +kernel
  have hflags := flags_exact calls haccepts hsmall
  refine ⟨haccepts, hsmall, hkind, hcanonical, ?_, ?_, ?_, ?_, ?_⟩
  · exact (hflags.hasTypeParam_iff ⟨17⟩ hlast).1 (by decide +kernel)
  · have hsame := (hflags.canonical ⟨17⟩ hlast).2.1
    rw [hcanonical] at hsame
    exact (hflags.hasDependentMember_iff ⟨16⟩ (by decide +kernel)).1
      (hsame.trans (by decide +kernel))
  · rw [← hflags.hasOpaque_iff ⟨17⟩ hlast]
    decide +kernel
  · exact (hflags.isNominal_iff ⟨14⟩ (by decide +kernel)).2 (by decide +kernel)
  · rw [Bool.eq_false_iff, ne_eq, hflags.isNominal_iff ⟨17⟩ hlast, hkind]
    decide

end Pool

end NameMangling
