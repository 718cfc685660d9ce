/-
# Desugaring

The canonical form of a type is stored with it and never computed again.  It is still what a
walk through the type would give: the same node over the canonical forms of its parts, where
sugar has the canonical form of the type it stands for.

Main definitions:
* `TypeFlags.Marks`, the flags that types pass on, each with the kind of types it comes from;
* `Arena.Settled`, what the flags and the canonical forms of an arena say of its nodes.

Main facts:
* `Arena.Settled.add`, `Arena.Built.settled`: every way of building keeps an arena settled;
* `Arena.Settled.canonical_canonical`: a canonical form is its own canonical form;
* `Arena.Settled.canonical_eq_self_iff`: the types without sugar are their own canonical form.
-/
import Mathlib.Data.List.Basic
import NameMangling.Proofs.Sharing

namespace NameMangling

namespace TypeNode

/-! ## Nodes over other parts -/

variable {n : TypeNode} {f g : TypeId → TypeId}

/-- The parts of a node over other parts, if it is not sugar. -/
theorem children_mapChildren_eq (h : n.desugared? = none) (f : TypeId → TypeId) :
    (n.mapChildren f).children = n.children.map f := by
  cases n with
  | aliased | paren | optionalSugar | arraySugar | dictionarySugar => cases h
  | nominal _ parent => cases parent <;> rfl
  | boundGeneric _ parent _ => cases parent <;> simp [mapChildren, children]
  | tuple => simp [mapChildren, children]
  | function => simp [mapChildren, children]
  | lowered fn =>
    cases hfn : fn.error <;> simp [mapChildren, children, hfn, Function.comp_def]
  | existential c => cases hc : c.superclass <;> simp [mapChildren, children, hc]
  | _ => rfl

/-- A node over other parts depends on what its parts are replaced with. -/
theorem mapChildren_congr (h : ∀ t ∈ n.children, f t = g t) :
    n.mapChildren f = n.mapChildren g := by
  cases n with
  | nominal _ parent => cases parent <;> simp_all [mapChildren, children]
  | boundGeneric _ parent _ => cases parent <;> simp_all [mapChildren, children]
  | function fn =>
    have hparams : fn.params.map (fun p => { p with type := f p.type }) =
        fn.params.map fun p => { p with type := g p.type } :=
      List.map_congr_left fun p hp => by
        rw [h p.type (List.mem_append_left _ (List.mem_map_of_mem hp))]
    rw [mapChildren, mapChildren, hparams, h fn.result (List.mem_append_right _ (by simp))]
  | lowered fn =>
    have hparams : fn.params.map (fun p => (p.1, f p.2)) = fn.params.map fun p => (p.1, g p.2) :=
      List.map_congr_left fun p hp => by
        rw [h p.2 (List.mem_append_left _ (List.mem_append_left _ (List.mem_map_of_mem hp)))]
    have hresults :
        fn.results.map (fun r => (r.1, f r.2)) = fn.results.map fun r => (r.1, g r.2) :=
      List.map_congr_left fun r hr => by
        rw [h r.2 (List.mem_append_left _ (List.mem_append_right _ (List.mem_map_of_mem hr)))]
    have herror : fn.error.map f = fn.error.map g :=
      Option.map_congr fun t ht => h t (List.mem_append_right _ (by simpa using ht))
    rw [mapChildren, mapChildren, hparams, hresults, herror]
  | existential c => cases hc : c.superclass <;> simp_all [mapChildren, children]
  | _ => simp_all [mapChildren, children]

theorem mapChildren_id (n : TypeNode) : n.mapChildren id = n := by
  cases n <;> simp [mapChildren]

theorem mapChildren_eq_self (h : ∀ t ∈ n.children, f t = t) : n.mapChildren f = n :=
  (mapChildren_congr h).trans n.mapChildren_id

theorem mapChildren_mapChildren (n : TypeNode) (f g : TypeId → TypeId) :
    (n.mapChildren f).mapChildren g = n.mapChildren (g ∘ f) := by
  cases n <;> simp [mapChildren]

/-- A node that is the same over other parts has the same parts. -/
theorem eq_of_mapChildren_eq_self (hn : n.desugared? = none) (h : n.mapChildren f = n) :
    ∀ t ∈ n.children, f t = t := by
  have hmap := children_mapChildren_eq hn f
  rw [h] at hmap
  exact List.map_inj_left.1 (hmap.symm.trans n.children.map_id.symm)

@[simp]
theorem desugared?_mapChildren (n : TypeNode) (f : TypeId → TypeId) :
    (n.mapChildren f).desugared? = n.desugared? := by
  cases n <;> rfl

theorem isSugar_kind (n : TypeNode) : n.kind.isSugar = n.desugared?.isSome := by
  cases n <;> rfl

end TypeNode

theorem TypeKind.hasSugar_ownFlags (k : TypeKind) : k.ownFlags.hasSugar = k.isSugar := by
  cases k <;> rfl

/-! ## Flags -/

/-- A flag that types pass on and that one kind of types has on its own account. -/
structure TypeFlags.Marks (flag : TypeFlags → Bool) (kind : TypeKind) : Prop where
  union : ∀ x y : TypeFlags, flag (x.union y.presence) = (flag x || flag y)
  own : ∀ k : TypeKind, flag k.ownFlags = true ↔ k = kind

namespace TypeFlags

theorem marks_hasTypeParam : Marks hasTypeParam .genericParam where
  union _ _ := rfl
  own k := by cases k <;> decide

theorem marks_hasDependentMember : Marks hasDependentMember .dependentMember where
  union _ _ := rfl
  own k := by cases k <;> decide

theorem marks_hasOpaque : Marks hasOpaque .opaqueResult where
  union _ _ := rfl
  own k := by cases k <;> decide

end TypeFlags

namespace Arena

variable {a b : Arena} {n : TypeNode} {t : TypeId}

/-- A flag that types pass on, collected from some types. -/
theorem flag_foldl {f : TypeFlags → Bool} (hf : ∀ x y, f (x.union y.presence) = (f x || f y))
    (a : Arena) (ts : List TypeId) (acc : TypeFlags) :
    f (ts.foldl (fun acc t => acc.union (a.flags t).presence) acc) =
      (f acc || ts.any fun t => f (a.flags t)) := by
  induction ts generalizing acc with
  | nil => simp
  | cons t ts ih => rw [List.foldl_cons, ih, List.any_cons, ← Bool.or_assoc, hf]

/-- A node has a presence flag if it is of the kind that the flag marks or a child has it. -/
theorem flag_flagsOf_iff {flag : TypeFlags → Bool} {kind : TypeKind}
    (hflag : TypeFlags.Marks flag kind) :
    flag (a.flagsOf n) = true ↔ n.kind = kind ∨ ∃ u ∈ n.children, flag (a.flags u) = true := by
  rw [flagsOf, flag_foldl hflag.union, Bool.or_eq_true, hflag.own, List.any_eq_true]

/-- A node is free of sugar if it is not sugar itself and none of its parts has any. -/
theorem hasSugar_flagsOf_eq_false : (a.flagsOf n).hasSugar = false ↔
    n.desugared? = none ∧ ∀ t ∈ n.children, (a.flags t).hasSugar = false := by
  rw [flagsOf, flag_foldl (f := TypeFlags.hasSugar) (fun _ _ => rfl), TypeKind.hasSugar_ownFlags,
    TypeNode.isSugar_kind]
  simp

namespace Extends

theorem flags_eq (h : a.Extends b) (ht : t.index < a.size) : b.flags t = a.flags t := by
  rw [flags, flags, h.entry_eq ht]

theorem canonical_eq (h : a.Extends b) (ht : t.index < a.size) :
    b.canonical t = a.canonical t := by
  rw [canonical, canonical, h.entry_eq ht]

theorem node_eq (h : a.Extends b) (ht : t.index < a.size) : b.node t = a.node t := by
  rw [node, node, h.entry_eq ht]

theorem flagsOf_eq (h : a.Extends b) (hparts : ∀ t ∈ n.children, t.index < a.size) :
    b.flagsOf n = a.flagsOf n :=
  List.foldl_ext _ _ _ fun _ t ht => by rw [h.flags_eq (hparts t ht)]

theorem mapChildren_eq (h : a.Extends b) (hparts : ∀ t ∈ n.children, t.index < a.size) :
    n.mapChildren b.canonical = n.mapChildren a.canonical :=
  TypeNode.mapChildren_congr fun t ht => h.canonical_eq (hparts t ht)

end Extends

/-- A type that was not in the arena before a node was stored is that node. -/
theorem entry_of_lt_intern {canonical : Option TypeId}
    (ht : t.index < (a.intern n canonical).2.size) : t.index < a.size ∨ t.index = a.size ∧
      (a.intern n canonical).2.entry t = ⟨n, a.flagsOf n, canonical.getD t⟩ := by
  cases hfind : a.find? n with
  | some u =>
    rw [intern_of_some hfind] at ht
    exact .inl ht
  | none =>
    rw [intern_of_none hfind] at ht ⊢
    have hlt : t.index < a.entries.size + 1 := by simpa [size] using ht
    rcases Nat.lt_succ_iff_lt_or_eq.1 hlt with hold | hlast
    · exact .inl hold
    · obtain rfl : t = ⟨a.entries.size⟩ := congrArg TypeId.mk hlast
      exact .inr ⟨rfl, by simp [entry, size]⟩

/-! ## Settled arenas -/

/-- What holds of all parts of a type and then of the type holds of every type. -/
theorem Shared.induction (ha : a.Shared) {motive : TypeId → Prop}
    (step : ∀ t : TypeId, t.index < a.size → (∀ u ∈ (a.node t).children, motive u) → motive t)
    (ht : t.index < a.size) : motive t := by
  induction hi : t.index using Nat.strongRecOn generalizing t with
  | _ i ih =>
    subst hi
    refine step t ht fun u hu => ?_
    have hlt := ha.parts_lt ht hu
    exact ih u.index hlt (Nat.lt_trans hlt ht) rfl

/-- What is stored of a type beside its node is what its parts say. -/
structure SettledAt (a : Arena) (t : TypeId) : Prop where
  flags : a.flags t = a.flagsOf (a.node t)
  /-- Sugar shares the canonical form of the type it stands for. -/
  sugar : ∀ u, (a.node t).desugared? = some u → a.canonical t = a.canonical u
  /-- The canonical form of any other type is the same node over canonical forms. -/
  plain : (a.node t).desugared? = none →
    a.node (a.canonical t) = (a.node t).mapChildren a.canonical
  le : (a.canonical t).index ≤ t.index

/-- A shared arena in which this is so of every type. -/
structure Settled (a : Arena) : Prop extends a.Shared where
  settledAt : ∀ t : TypeId, t.index < a.size → a.SettledAt t

/-- The canonical forms that a node is stored with: none if the node is its own. -/
inductive CanonicalFor (a : Arena) (n : TypeNode) : Option TypeId → Prop
  | sugar {u : TypeId} (h : n.desugared? = some u) : CanonicalFor a n (some (a.canonical u))
  | itself (hplain : n.desugared? = none) (h : n.mapChildren a.canonical = n) :
    CanonicalFor a n none
  | variant {c : TypeId} (hplain : n.desugared? = none) (hc : c.index < a.size)
    (h : a.node c = n.mapChildren a.canonical) : CanonicalFor a n (some c)

namespace Settled

theorem empty : Settled ⟨#[]⟩ where
  toShared := Shared.empty
  settledAt _ ht := absurd ht (Nat.not_lt_zero _)

/-- A type has no sugar exactly if it is none itself and its parts have none. -/
theorem hasSugar_eq_false (ha : a.Settled) (ht : t.index < a.size) :
    (a.flags t).hasSugar = false ↔
      (a.node t).desugared? = none ∧ ∀ u ∈ (a.node t).children, (a.flags u).hasSugar = false := by
  rw [(ha.settledAt t ht).flags, hasSugar_flagsOf_eq_false]

/-- The parts of the variant over canonical forms have been built. -/
theorem mapChildren_lt (ha : a.Settled) (hplain : n.desugared? = none)
    (hparts : ∀ u ∈ n.children, u.index < a.size) :
    ∀ u ∈ (n.mapChildren a.canonical).children, u.index < a.size := by
  rw [TypeNode.children_mapChildren_eq hplain]
  intro u hu
  obtain ⟨v, hv, rfl⟩ := List.mem_map.1 hu
  exact ha.canonical_lt (hparts v hv)

/-- A canonical form is its own canonical form. -/
theorem canonical_canonical (ha : a.Settled) (ht : t.index < a.size) :
    a.canonical (a.canonical t) = a.canonical t := by
  refine ha.toShared.induction (motive := fun t => a.canonical (a.canonical t) = a.canonical t)
    (fun t ht ih => ?_) ht
  have hsettled := ha.settledAt t ht
  cases hsugar : (a.node t).desugared? with
  | some u =>
    rw [hsettled.sugar u hsugar]
    exact ih u (Shared.mem_children_of_desugared? hsugar)
  | none =>
    have hc := ha.canonical_lt ht
    have hnode := hsettled.plain hsugar
    -- one more round of canonical forms changes no part
    apply ha.eq_of_node_eq (ha.canonical_lt hc) hc
    rw [(ha.settledAt _ hc).plain (by rw [hnode, TypeNode.desugared?_mapChildren, hsugar]), hnode,
      TypeNode.mapChildren_mapChildren]
    exact TypeNode.mapChildren_congr ih

/-- A type without sugar is its own canonical form. -/
theorem canonical_eq_self (ha : a.Settled) (ht : t.index < a.size)
    (h : (a.flags t).hasSugar = false) : a.canonical t = t := by
  refine ha.toShared.induction
    (motive := fun t => (a.flags t).hasSugar = false → a.canonical t = t)
    (fun t ht ih h => ?_) ht h
  obtain ⟨hplain, hparts⟩ := (ha.hasSugar_eq_false ht).1 h
  apply ha.eq_of_node_eq (ha.canonical_lt ht) ht
  rw [(ha.settledAt t ht).plain hplain]
  exact TypeNode.mapChildren_eq_self fun u hu => ih u hu (hparts u hu)

/-- The types without sugar are those that are their own canonical form. -/
theorem canonical_eq_self_iff (ha : a.Settled) (ht : t.index < a.size) :
    a.canonical t = t ↔ (a.flags t).hasSugar = false := by
  refine ⟨fun h => ?_, ha.canonical_eq_self ht⟩
  refine ha.toShared.induction
    (motive := fun t => a.canonical t = t → (a.flags t).hasSugar = false)
    (fun t ht ih h => ?_) ht h
  have hsettled := ha.settledAt t ht
  cases hsugar : (a.node t).desugared? with
  | some u =>
    -- the canonical form of sugar stands no later than what it stands for
    have hu := ha.parts_lt ht (Shared.mem_children_of_desugared? hsugar)
    have hle := (ha.settledAt u (Nat.lt_trans hu ht)).le
    rw [← hsettled.sugar u hsugar, h] at hle
    omega
  | none =>
    have hnode := hsettled.plain hsugar
    rw [h] at hnode
    have hparts := TypeNode.eq_of_mapChildren_eq_self hsugar hnode.symm
    exact (ha.hasSugar_eq_false ht).2 ⟨hsugar, fun u hu => ih u hu (hparts u hu)⟩

/-! ## Building -/

/-- What is stored of a type is not changed by what is stored after it. -/
theorem settledAt_of_extends (ha : a.Settled) (h : a.Extends b) (ht : t.index < a.size) :
    b.SettledAt t := by
  have hsettled := ha.settledAt t ht
  have hparts : ∀ u ∈ (a.node t).children, u.index < a.size :=
    fun u hu => Nat.lt_trans (ha.parts_lt ht hu) ht
  constructor
  · rw [h.flags_eq ht, h.node_eq ht, h.flagsOf_eq hparts, hsettled.flags]
  · intro u hu
    rw [h.node_eq ht] at hu
    rw [h.canonical_eq ht, h.canonical_eq (hparts u (Shared.mem_children_of_desugared? hu)),
      hsettled.sugar u hu]
  · intro hplain
    rw [h.node_eq ht] at hplain ⊢
    rw [h.canonical_eq ht, h.node_eq (ha.canonical_lt ht), h.mapChildren_eq hparts,
      hsettled.plain hplain]
  · rw [h.canonical_eq ht]
    exact hsettled.le

/-- Interning keeps an arena settled, if the canonical form that is given is the right one. -/
theorem intern (ha : a.Settled) (hn : n ≠ .tuple []) (hparts : ∀ t ∈ n.children, t.index < a.size)
    {canonical : Option TypeId} (hcanonical : a.CanonicalFor n canonical) :
    (a.intern n canonical).2.Settled := by
  -- whichever way the canonical form was found, it was there before
  have hissued : ∀ c ∈ canonical, c.index < a.size := by
    rintro c hc
    cases hcanonical with
    | sugar h =>
      cases hc
      exact ha.canonical_lt (hparts _ (Shared.mem_children_of_desugared? h))
    | itself => cases hc
    | variant _ hlt =>
      cases hc
      exact hlt
  refine ⟨(ha.toShared.intern canonical hn hparts hissued).shared, fun t ht => ?_⟩
  have hextends := Extends.intern a n canonical
  -- types from before are as they were; only the last one has to be looked at
  rcases entry_of_lt_intern ht with hold | ⟨hlast, hentry⟩
  · exact ha.settledAt_of_extends hextends hold
  generalize (a.intern n canonical).2 = b at hextends hentry
  have hnode : b.node t = n := by rw [node, hentry]
  have hform : b.canonical t = canonical.getD t := by rw [Arena.canonical, hentry]
  -- the four parts of being settled, for the last type: its flags, its form if it is sugar, its
  -- form if it is not, and that forms do not lie behind it
  constructor
  · rw [hnode, hextends.flagsOf_eq hparts, flags, hentry]
  · intro u hu
    rw [hnode] at hu
    rw [hform, hextends.canonical_eq (hparts u (Shared.mem_children_of_desugared? hu))]
    cases hcanonical with
    | sugar h =>
      rw [h] at hu
      cases hu
      rfl
    | itself hplain => rw [hplain] at hu; cases hu
    | variant hplain => rw [hplain] at hu; cases hu
  · intro hplain
    rw [hnode] at hplain ⊢
    rw [hform, hextends.mapChildren_eq hparts]
    cases hcanonical with
    | sugar h => rw [h] at hplain; cases hplain
    | itself _ h => rw [h]; exact hnode
    | variant _ hc h => rw [← h]; exact hextends.node_eq hc
  · rw [hform]
    cases canonical with
    | none => exact Nat.le_refl _
    | some c =>
      rw [hlast]
      exact Nat.le_of_lt (hissued c rfl)

/-- Adding a node, with its canonical form before it, keeps an arena settled. -/
theorem add (ha : a.Settled) (hn : n ≠ .tuple [])
    (hparts : ∀ t ∈ n.children, t.index < a.size) : (a.add n).2.Settled := by
  unfold Arena.add
  split
  · rename_i u hu
    exact ha.intern hn hparts (.sugar hu)
  · rename_i hplain
    split
    · -- the variant is stored first; it is its own canonical form
      generalize hv : n.mapChildren a.canonical = v
      have hitself : v.mapChildren a.canonical = v := by
        rw [← hv, TypeNode.mapChildren_mapChildren]
        exact TypeNode.mapChildren_congr fun t ht => ha.canonical_canonical (hparts t ht)
      have hvparts : ∀ t ∈ v.children, t.index < a.size := hv ▸ ha.mapChildren_lt hplain hparts
      have hvplain : v.desugared? = none := by
        rw [← hv, TypeNode.desugared?_mapChildren, hplain]
      have hvne : v ≠ .tuple [] := hv ▸ Shared.mapChildren_ne hn
      have hvariant := ha.intern hvne hvparts (.itself hvplain hitself)
      have hextends := Extends.intern a v none
      have hissued := (ha.toShared.intern none hvne hvparts (by simp)).issued
      have hnode := node_intern a v none
      refine hvariant.intern hn (fun t ht => Nat.lt_of_lt_of_le (hparts t ht) hextends.size_le)
        (.variant hplain hissued ?_)
      exact hnode.trans (by rw [hextends.mapChildren_eq hparts, hv])
    · rename_i hsugar
      obtain ⟨-, hfree⟩ := hasSugar_flagsOf_eq_false.1 (Bool.not_eq_true _ ▸ hsugar)
      -- nothing to desugar, in the node or in its parts
      exact ha.intern hn hparts (.itself hplain (TypeNode.mapChildren_eq_self fun t ht =>
        ha.canonical_eq_self (hparts t ht) (hfree t ht)))

/-- Construction keeps an arena settled. -/
theorem construct (ha : a.Settled) (hparts : ∀ t ∈ n.children, t.index < a.size) :
    (a.construct n).2.Settled := by
  unfold Arena.construct
  split
  · exact ha
  · exact ha
  · rename_i hn _
    apply ha.add (Shared.normalise_ne hn)
    rw [Shared.children_normalise]
    exact hparts

/-- Types without parts can be built in any arena. -/
theorem constructAll (ha : a.Settled) {ns : List TypeNode} (hns : ∀ n ∈ ns, n.children = []) :
    (a.constructAll ns).2.Settled := by
  induction ns generalizing a with
  | nil => exact ha
  | cons n ns ih =>
    have hn : n.children = [] := hns n (by simp)
    exact ih (ha.construct (by simp [hn])) fun n' hn' => hns n' (by simp [hn'])

end Settled

/-- Every arena that has been built is settled. -/
theorem Built.settled (h : a.Built) : a.Settled := by
  induction h with
  | initial => exact Settled.empty.constructAll (by decide)
  | construct _ n issued ih => exact ih.construct issued

/-! ## Canonical types -/

theorem isCanonical_iff : a.isCanonical t = true ↔ a.canonical t = t := by
  simp [isCanonical]

/-- A type that was never built reads as the empty tuple, which is built first. -/
theorem canonical_of_size_le (ht : a.size ≤ t.index) : a.canonical t = .emptyTuple := by
  rw [canonical, entry, Array.getElem?_eq_none ht]
  rfl

namespace Settled

/-- Canonical types have been built. -/
theorem lt_of_isCanonical (hsize : 0 < a.size) (h : a.isCanonical t = true) :
    t.index < a.size := by
  by_contra hlt
  have heq : t = .emptyTuple := by
    rw [← isCanonical_iff.mp h]
    exact canonical_of_size_le (Nat.le_of_not_lt hlt)
  rw [heq] at hlt
  exact hlt hsize

/-- The canonical form of any type is canonical, also of one that was never built. -/
theorem isCanonical_canonical (ha : a.Settled) (hsize : 0 < a.size) (t : TypeId) :
    a.isCanonical (a.canonical t) = true := by
  rw [isCanonical_iff]
  by_cases ht : t.index < a.size
  · exact ha.canonical_canonical ht
  · -- the empty tuple stands first, so its canonical form can only be itself
    rw [canonical_of_size_le (Nat.le_of_not_lt ht)]
    have hle := (ha.settledAt .emptyTuple hsize).le
    exact congrArg TypeId.mk (Nat.le_zero.mp hle)

/-- A type is canonical exactly if it is no sugar and its parts are canonical. -/
theorem isCanonical_iff_parts (ha : a.Settled) (ht : t.index < a.size) :
    a.isCanonical t = true ↔
      (a.node t).desugared? = none ∧ ∀ u ∈ (a.node t).children, a.isCanonical u = true := by
  rw [isCanonical_iff, ha.canonical_eq_self_iff ht, ha.hasSugar_eq_false ht]
  refine and_congr_right fun _ => forall₂_congr fun u hu => ?_
  have hlt := Nat.lt_trans (ha.parts_lt ht hu) ht
  rw [isCanonical_iff, ha.canonical_eq_self_iff hlt]

theorem desugared?_of_isCanonical (ha : a.Settled) (hsize : 0 < a.size)
    (h : a.isCanonical t = true) : (a.node t).desugared? = none :=
  ((ha.isCanonical_iff_parts (lt_of_isCanonical hsize h)).mp h).1

/-- The parts of a canonical type are canonical. -/
theorem isCanonical_child (ha : a.Settled) (hsize : 0 < a.size) (h : a.isCanonical t = true)
    {u : TypeId} (hu : u ∈ (a.node t).children) : a.isCanonical u = true :=
  ((ha.isCanonical_iff_parts (lt_of_isCanonical hsize h)).mp h).2 u hu

end Settled

end Arena

end NameMangling
