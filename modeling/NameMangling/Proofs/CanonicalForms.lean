/-
# Canonical forms in the pool

`Pool.canonical` is the desugaring homomorphism: it keeps a node and replaces its parts by
their canonical forms, and it forgets sugar.  It is computed once, when a type is packed, and
the calls that pack the variant without sugar do not nest.

Main definitions:
* `Pool.node?`, the node of a type as its item and its row say;
* `Pool.constructWithin`, building by calls that nest, up to a depth;
* `Pool.Desugars`, what canonical forms have to do with nodes and flags.

Main facts:
* `Pool.desugars`: this holds in every pool that calls can lead to;
* `Pool.Packs.add_eq`: packing a type again leaves the pool as it is.
-/
import Mathlib.Logic.Relation
import NameMangling.Proofs.Decoding
import NameMangling.Proofs.Desugaring

namespace NameMangling

namespace TypeNode

/-! ## All types a node names -/

/-- The types a sugar node was written with, beside the one it stands for. -/
def sugarParts : TypeNode → List TypeId
  | optionalSugar part _ | arraySugar part _ => [part]
  | dictionarySugar key value _ => [key, value]
  | _ => []

/-- All types that a node names. -/
def parts (n : TypeNode) : List TypeId := n.children ++ n.sugarParts

theorem sugarParts_normalise (n : TypeNode) : n.normalise.sugarParts = n.sugarParts := by
  cases n <;> rfl

theorem sugarParts_mapChildren (n : TypeNode) (f : TypeId → TypeId) :
    (n.mapChildren f).sugarParts = n.sugarParts := by
  cases n <;> rfl

theorem parts_eq_children {n : TypeNode} (h : n.desugared? = none) : n.parts = n.children := by
  cases n <;> simp_all [parts, sugarParts, desugared?]

/-- Replacing parts does not make a tuple of one unlabelled element. -/
theorem mapChildren_ne_single {n : TypeNode} (h : ∀ t, n ≠ .tuple [⟨none, t⟩])
    (f : TypeId → TypeId) (t : TypeId) : n.mapChildren f ≠ .tuple [⟨none, t⟩] := by
  cases n with
  | tuple elements =>
    intro heq
    match elements with
    | [] => simp [mapChildren] at heq
    | [⟨none, u⟩] => exact h u rfl
    | [⟨some _, _⟩] => simp [mapChildren] at heq
    | _ :: _ :: _ => simp [mapChildren] at heq
  | _ => simp [mapChildren]

/-- The tuples that building does not store, and the nodes that it does. -/
theorem cases_construct (n : TypeNode) : n = .tuple [] ∨ (∃ t, n = .tuple [⟨none, t⟩]) ∨
    n ≠ .tuple [] ∧ ∀ t, n ≠ .tuple [⟨none, t⟩] := by
  by_cases hempty : n = .tuple []
  · exact .inl hempty
  by_cases hsingle : ∃ t, n = .tuple [⟨none, t⟩]
  · exact .inr (.inl hsingle)
  · exact .inr (.inr ⟨hempty, fun t ht => hsingle ⟨t, ht⟩⟩)

end TypeNode

namespace Arena

variable {a b : Arena} {n : TypeNode} {t : TypeId}

/-- The types that sugar was written with stand before it. -/
def Rooted (a : Arena) : Prop :=
  ∀ t : TypeId, t.index < a.size → ∀ u ∈ (a.node t).sugarParts, u.index < t.index

namespace Rooted

/-- Interning sugar keeps an arena rooted if what it was written with is there. -/
theorem intern (ha : a.Rooted) {canonical : Option TypeId}
    (hparts : ∀ u ∈ n.sugarParts, u.index < a.size) : (a.intern n canonical).2.Rooted := by
  intro t ht u hu
  rcases entry_of_lt_intern ht with hold | ⟨hlast, hentry⟩
  · rw [(Extends.intern a n canonical).node_eq hold] at hu
    exact ha t hold u hu
  · rw [node, hentry] at hu
    rw [hlast]
    exact hparts u hu

/-- Adding sugar, desugared first, keeps an arena rooted if what it was written with is there. -/
theorem add (ha : a.Rooted) (hparts : ∀ u ∈ n.sugarParts, u.index < a.size) :
    (a.add n).2.Rooted := by
  unfold Arena.add
  split
  · exact ha.intern hparts
  · split
    · have hsize := (Extends.intern a (n.mapChildren a.canonical) none).size_le
      refine (ha.intern (by rwa [TypeNode.sugarParts_mapChildren])).intern fun u hu => ?_
      exact Nat.lt_of_lt_of_le (hparts u hu) hsize
    · exact ha.intern hparts

/-- Construction keeps an arena rooted if what the sugar was written with is there. -/
theorem construct (ha : a.Rooted) (hparts : ∀ u ∈ n.sugarParts, u.index < a.size) :
    (a.construct n).2.Rooted := by
  unfold Arena.construct
  split
  · exact ha
  · exact ha
  · exact ha.add (by rwa [TypeNode.sugarParts_normalise])

/-- Types that no sugar was written in can be built in any arena. -/
theorem constructAll (ha : a.Rooted) {ns : List TypeNode} (hns : ∀ n ∈ ns, n.sugarParts = []) :
    (a.constructAll ns).2.Rooted := by
  induction ns generalizing a with
  | nil => exact ha
  | cons n ns ih =>
    have hn : n.sugarParts = [] := hns n (by simp)
    exact ih (ha.construct (by simp [hn])) fun n' hn' => hns n' (by simp [hn'])

end Rooted

theorem rooted_initial : initial.Rooted :=
  Rooted.constructAll (fun _ ht => absurd ht (Nat.not_lt_zero _)) (by decide)

end Arena

namespace Pool

/-! ## The node of a type -/

/-- The words of a type: its row, or its data word if it has none. -/
def words? (p : Pool) (t : TypeId) : Option (List UInt32) :=
  if (p.kind t).isCompound then rowAt? p.rows (p.item t).data.toNat else some [(p.item t).data]

/-- The node of a type in the pool, read off its item and its row. -/
def node? (p : Pool) (t : TypeId) : Option TypeNode :=
  if t.index < p.size then (p.words? t).bind fun ws => PoolKey.node? ⟨p.kind t, ws⟩ else none

/-- Whether the first type names the second one. -/
def Part (p : Pool) (t u : TypeId) : Prop := ∃ n, p.node? t = some n ∧ u ∈ n.parts

namespace Packs

variable {p : Pool} {a : Arena} {n : TypeNode} {t : TypeId}

theorem size_eq (h : p.Packs a) : p.size = a.size := h.size

/-- The node of a type is read off its words as the arena stores it. -/
theorem node?_eq (h : p.Packs a) (ht : t.index < a.size) : p.node? t = some (a.node t) := by
  have hitem := h.item t ht
  have hkind : p.kind t = (a.node t).kind := hitem.kind
  have hstored : Stored p.rows (p.item t).data (a.node t).payload := hitem.stored
  have hnode := hitem.packable.node?_key
  rw [show (a.entry t).node.normalise = a.node t from hitem.normal] at hnode
  have hwords : p.words? t = some (a.node t).payload.words := by
    rw [words?, hkind]
    generalize a.node t = n at hstored
    cases n <;> first | exact hstored | exact congrArg (fun w => some [w]) hstored
  rw [node?, if_pos (h.size_eq ▸ ht), hwords, Option.bind_some, hkind]
  exact hnode

/-- A type whose node is read off the pool is one of the arena, with that node. -/
theorem lt_of_node?_eq_some (h : p.Packs a) (hn : p.node? t = some n) :
    t.index < a.size ∧ a.node t = n := by
  have ht : t.index < a.size := by
    rw [← h.size_eq]
    by_contra hlt
    rw [node?, if_neg hlt] at hn
    cases hn
  rw [h.node?_eq ht] at hn
  exact ⟨ht, Option.some.inj hn⟩

/-- Packing a node that is stored leaves the pool as it is. -/
theorem add_eq (h : p.Packs a) (ha : a.Settled) (hsmall : p.Small) (hfits : n.Fits)
    (hparts : ∀ u ∈ n.children, u.index < a.size) (ht : t.index < a.size)
    (hnode : a.node t = n.normalise) : p.add n = (t, p) := by
  -- the key is found, since a stored node is the first with its key
  have hfind : p.find? n.key = some t := by
    rw [h.find?_eq hsmall hfits hparts, ← hnode, ha.find?_node ht]
  unfold Pool.add
  split
  · exact intern_of_some hfind
  · rename_i hplain
    split
    · -- the variant over canonical forms is stored as well
      have hvariant : p.find? (n.mapChildren p.canonical).key = some (a.canonical t) := by
        have hplain' : (a.node t).desugared? = none := by
          rw [hnode, TypeNode.desugared?_normalise, hplain]
        have hvparts := ha.mapChildren_lt hplain hparts
        rw [h.canonical_eq, h.find?_eq hsmall (hfits.mapChildren _) hvparts,
          TypeNode.normalise_mapChildren, ← hnode, ← (ha.settledAt t ht).plain hplain',
          ha.find?_node (ha.canonical_lt ht)]
      rw [intern_of_some hvariant]
      exact intern_of_some hfind
    · exact intern_of_some hfind

/-- Accepted calls lead to a pool that packs an arena that has been built. -/
theorem built (h : p.Packs a) (ha : a.Built) {ns : List TypeNode} (hns : p.Accepts ns)
    (hsmall : (p.run ns).Small) :
    (p.run ns).Packs (a.constructAll ns).2 ∧ (a.constructAll ns).2.Built := by
  induction ns generalizing p a with
  | nil => exact ⟨h, ha⟩
  | cons n ns ih =>
    obtain ⟨hfits, hparts, hrest⟩ := hns
    rw [h.size_eq] at hparts
    have hstep := h.construct ha.shared.1 hfits hparts ((Within.run _ ns).small hsmall)
    exact ih hstep.packs (ha.construct n hparts) hrest hsmall

end Packs

/-! ## Nested calls -/

/-- Building by calls that nest: a node with sugar among its parts has its variant over
canonical forms built by a call of its own.  There is no result if calls would nest deeper than
`depth`. -/
def constructWithin (depth : Nat) (p : Pool) : TypeNode → Option (TypeId × Pool)
  | .tuple [] => some (.emptyTuple, p)
  | .tuple [⟨none, t⟩] => some (t, p)
  | n =>
    match n.desugared? with
    | some t => some (p.intern n (some (p.canonical t)))
    | none =>
      if (p.flagsOf n).hasSugar then
        match depth with
        | 0 => none
        | depth + 1 =>
          (constructWithin depth p (n.mapChildren p.canonical)).map fun r =>
            r.2.intern n (some r.1)
      else some (p.intern n none)

/-- A node without sugar among its parts needs no nested call. -/
theorem constructWithin_of_plain {p : Pool} {n : TypeNode} (depth : Nat) (hempty : n ≠ .tuple [])
    (hsingle : ∀ t, n ≠ .tuple [⟨none, t⟩]) (hplain : n.desugared? = none)
    (hflags : (p.flagsOf n).hasSugar = false) :
    constructWithin depth p n = some (p.intern n none) := by
  unfold constructWithin
  split
  · exact absurd rfl hempty
  · exact absurd rfl (hsingle _)
  · simp only [hplain, hflags, Bool.false_eq_true, if_false]

/-- The variant over canonical forms has no sugar among its parts, so calls nest once. -/
theorem Packs.constructWithin_one {p : Pool} {a : Arena} (h : p.Packs a) (ha : a.Settled)
    {n : TypeNode} (hparts : ∀ t ∈ n.children, t.index < a.size) :
    constructWithin 1 p n = some (p.construct n) := by
  rcases n.cases_construct with rfl | ⟨t, rfl⟩ | ⟨hempty, hsingle⟩
  · rfl
  · rfl
  rw [construct_eq_add p hempty hsingle]
  unfold constructWithin Pool.add
  split
  · exact absurd rfl hempty
  · exact absurd rfl (hsingle _)
  · cases hsugar : n.desugared? with
    | some t => rfl
    | none =>
      simp only
      split
      · -- the parts of the variant are canonical forms, which have no sugar, so that the inner call
        -- does not ask for a variant again
        have hvariant : (p.flagsOf (n.mapChildren p.canonical)).hasSugar = false := by
          rw [h.flagsOf_eq, Arena.hasSugar_flagsOf_eq_false, TypeNode.desugared?_normalise,
            TypeNode.desugared?_mapChildren, Arena.Shared.children_normalise,
            TypeNode.children_mapChildren_eq hsugar, h.canonical_eq]
          refine ⟨hsugar, fun t ht => ?_⟩
          obtain ⟨u, hu, rfl⟩ := List.mem_map.1 ht
          exact (ha.canonical_eq_self_iff (ha.canonical_lt (hparts u hu))).1
            (ha.canonical_canonical (hparts u hu))
        rw [constructWithin_of_plain 0 (Arena.Shared.mapChildren_ne hempty)
          (TypeNode.mapChildren_ne_single hsingle _) (by simpa using hsugar) hvariant]
        rfl
      · rfl

/-! ## The desugaring homomorphism -/

/-- What canonical forms have to do with nodes and flags in a pool. -/
structure Desugars (p : Pool) : Prop where
  /-- A canonical form is its own canonical form. -/
  canonical_canonical : ∀ t : TypeId, t.index < p.size →
    p.canonical (p.canonical t) = p.canonical t
  /-- The types that are their own canonical form are those flagged as free of sugar. -/
  isCanonical_iff : ∀ t : TypeId, t.index < p.size →
    (p.isCanonical t ↔ (p.flags t).hasSugar = false)
  /-- The types flagged as free of sugar are those that no sugar is reachable from. -/
  hasSugar_iff : ∀ t : TypeId, t.index < p.size → ((p.flags t).hasSugar = false ↔
    ∀ u, Relation.ReflTransGen p.Part t u → (p.kind u).isSugar = false)
  /-- Sugar has the canonical form of the type it stands for. -/
  sugar : ∀ t u : TypeId, t.index < p.size → p.desugared? t = some u →
    p.canonical t = p.canonical u
  /-- The canonical form of any other type has the same node over canonical forms. -/
  plain : ∀ (t : TypeId) (n : TypeNode), p.node? t = some n → n.desugared? = none →
    p.node? (p.canonical t) = some (n.mapChildren p.canonical)
  /-- A call over canonical forms returns the canonical form of what the call returns. -/
  construct : ∀ (n : TypeNode) (t : TypeId), n.Fits → (∀ u ∈ n.children, u.index < p.size) →
    n.desugared? = none → p.construct n = (t, p) →
    p.construct (n.mapChildren p.canonical) = (p.canonical t, p)
  /-- The types that a type names stand before it. -/
  part_lt : ∀ t u : TypeId, p.Part t u → u.index < t.index
  /-- A canonical form stands no later than its type. -/
  canonical_le : ∀ t : TypeId, t.index < p.size → (p.canonical t).index ≤ t.index
  /-- Calls nest at most once. -/
  nested : ∀ n : TypeNode, (∀ t ∈ n.children, t.index < p.size) →
    constructWithin 1 p n = some (p.construct n)

namespace Packs

variable {p : Pool} {a : Arena} {n : TypeNode} {t u : TypeId}

theorem part_iff (h : p.Packs a) (ht : t.index < a.size) : p.Part t u ↔ u ∈ (a.node t).parts := by
  simp [Part, h.node?_eq ht]

theorem kind_eq (h : p.Packs a) (ht : t.index < a.size) : p.kind t = (a.node t).kind :=
  (h.item t ht).kind

theorem desugared?_eq (h : p.Packs a) (ht : t.index < a.size) :
    p.desugared? t = (a.node t).desugared? :=
  congrArg TypeView.desugared (h.view ht)

/-- What a type without sugar names has no sugar, either. -/
theorem hasSugar_part (h : p.Packs a) (ha : a.Settled) (ht : t.index < a.size)
    (hfree : (a.flags t).hasSugar = false) (hu : p.Part t u) :
    u.index < a.size ∧ (a.flags u).hasSugar = false := by
  obtain ⟨hplain, hparts⟩ := (ha.hasSugar_eq_false ht).1 hfree
  rw [h.part_iff ht, TypeNode.parts_eq_children hplain] at hu
  exact ⟨Nat.lt_trans (ha.parts_lt ht hu) ht, hparts u hu⟩

/-- Nothing that a type without sugar reaches is sugar. -/
theorem isSugar_of_reaches (h : p.Packs a) (ha : a.Settled) (ht : t.index < a.size)
    (hfree : (a.flags t).hasSugar = false) (hu : Relation.ReflTransGen p.Part t u) :
    (p.kind u).isSugar = false := by
  have hreached : u.index < a.size ∧ (a.flags u).hasSugar = false := by
    induction hu with
    | refl => exact ⟨ht, hfree⟩
    | tail _ hpart ih => exact h.hasSugar_part ha ih.1 ih.2 hpart
  obtain ⟨hlt, hu⟩ := hreached
  rw [h.kind_eq hlt, TypeNode.isSugar_kind, ((ha.hasSugar_eq_false hlt).1 hu).1]
  rfl

/-- Sugar is reachable from a type with sugar, by induction on types. -/
theorem exists_reaches_sugar (h : p.Packs a) (ha : a.Settled) (ht : t.index < a.size)
    (hsugar : (a.flags t).hasSugar = true) :
    ∃ u, Relation.ReflTransGen p.Part t u ∧ (p.kind u).isSugar = true := by
  refine ha.toShared.induction (motive := fun t => (a.flags t).hasSugar = true →
    ∃ u, Relation.ReflTransGen p.Part t u ∧ (p.kind u).isSugar = true)
    (fun t ht ih hsugar => ?_) ht hsugar
  by_cases hplain : (a.node t).desugared? = none
  · -- the type is no sugar itself, so its flag comes from one of its parts
    have hpart : ∃ u ∈ (a.node t).children, (a.flags u).hasSugar = true := by
      by_contra hnone
      have hfree := (ha.hasSugar_eq_false ht).2 ⟨hplain, fun u hu => by
        by_contra hflag
        exact hnone ⟨u, hu, by simpa using hflag⟩⟩
      rw [hfree] at hsugar
      cases hsugar
    obtain ⟨u, hu, hflag⟩ := hpart
    obtain ⟨v, hv, hkind⟩ := ih u hu hflag
    exact ⟨v, .head ((h.part_iff ht).2 (List.mem_append_left _ hu)) hv, hkind⟩
  · refine ⟨t, .refl, ?_⟩
    rw [h.kind_eq ht, TypeNode.isSugar_kind]
    exact Option.isSome_iff_ne_none.2 hplain

/-- A node that building returns a stored type for is the node of that type. -/
theorem node_of_construct_eq (h : p.Packs a) (ha : a.Settled) (hsmall : p.Small)
    (hfits : n.Fits) (hparts : ∀ u ∈ n.children, u.index < a.size) (hempty : n ≠ .tuple [])
    (hsingle : ∀ t, n ≠ .tuple [⟨none, t⟩]) (hn : p.construct n = (t, p)) :
    t.index < a.size ∧ a.node t = n.normalise := by
  have hstep := h.construct ha.toShared hfits hparts (hn ▸ hsmall)
  have hextends := Arena.Extends.construct a n
  have hissued := (ha.toShared.construct hparts (.inr hempty)).issued
  have hnode := Arena.node_construct a hempty hsingle
  rw [← hstep.type, hn] at hissued hnode
  have hsize : (a.construct n).2.size = a.size := by
    rw [← hstep.packs.size_eq, hn, h.size_eq]
  rw [hsize] at hissued
  rw [hextends.node_eq hissued] at hnode
  exact ⟨hissued, hnode⟩

/-- The empty tuple, which every arena starts with, is its own canonical form. -/
theorem canonical_emptyTuple (ha : a.Settled) (hinitial : Arena.initial.Extends a) :
    a.canonical .emptyTuple = .emptyTuple := by
  have hissued : TypeId.emptyTuple.index < a.size :=
    Nat.lt_of_lt_of_le Arena.initial_size_pos hinitial.size_le
  have hnode := Arena.node_emptyTuple hinitial
  refine ha.canonical_eq_self hissued ((ha.hasSugar_eq_false hissued).2 ?_)
  rw [hnode]
  exact ⟨rfl, by simp [TypeNode.children, TypeNode.desugared?]⟩

/-- Building a node over canonical forms gives the canonical form and adds nothing. -/
theorem construct_canonical (h : p.Packs a) (ha : a.Settled) (hinitial : Arena.initial.Extends a)
    (hsmall : p.Small) (hfits : n.Fits) (hparts : ∀ u ∈ n.children, u.index < a.size)
    (hplain : n.desugared? = none) (hn : p.construct n = (t, p)) :
    p.construct (n.mapChildren p.canonical) = (p.canonical t, p) := by
  rcases n.cases_construct with rfl | ⟨u, rfl⟩ | ⟨hempty, hsingle⟩
  · obtain rfl : TypeId.emptyTuple = t := congrArg Prod.fst hn
    rw [h.canonical_eq, canonical_emptyTuple ha hinitial]
    rfl
  · obtain rfl : u = t := congrArg Prod.fst hn
    rfl
  obtain ⟨ht, hnode⟩ := h.node_of_construct_eq ha hsmall hfits hparts hempty hsingle hn
  rw [construct_eq_add p (Arena.Shared.mapChildren_ne hempty)
    (TypeNode.mapChildren_ne_single hsingle _), h.canonical_eq]
  refine h.add_eq ha hsmall (hfits.mapChildren _) (ha.mapChildren_lt hplain hparts)
    (ha.canonical_lt ht) ?_
  rw [(ha.settledAt t ht).plain (by rw [hnode, TypeNode.desugared?_normalise, hplain]), hnode,
    TypeNode.normalise_mapChildren]

/-- A pool that packs a settled arena desugars. -/
theorem desugars_of_settled (h : p.Packs a) (ha : a.Settled) (hrooted : a.Rooted)
    (hinitial : Arena.initial.Extends a) (hsmall : p.Small) : p.Desugars where
  canonical_canonical t ht := by
    rw [h.canonical_eq]
    exact ha.canonical_canonical (h.size_eq ▸ ht)
  isCanonical_iff t ht := by
    rw [isCanonical, beq_iff_eq, h.canonical_eq, h.flags_eq]
    exact ha.canonical_eq_self_iff (h.size_eq ▸ ht)
  hasSugar_iff t ht := by
    rw [h.size_eq] at ht
    rw [h.flags_eq]
    -- where the flag is set there is sugar to be reached, so the flag is not set without any
    refine ⟨fun hfree u hu => h.isSugar_of_reaches ha ht hfree hu, fun hfree => ?_⟩
    by_contra hsugar
    obtain ⟨u, hu, hkind⟩ := h.exists_reaches_sugar ha ht (by simpa using hsugar)
    rw [hfree u hu] at hkind
    cases hkind
  sugar t u ht hu := by
    rw [h.size_eq] at ht
    rw [h.desugared?_eq ht] at hu
    rw [h.canonical_eq]
    exact (ha.settledAt t ht).sugar u hu
  plain t n hn hplain := by
    obtain ⟨ht, rfl⟩ := h.lt_of_node?_eq_some hn
    rw [h.canonical_eq, h.node?_eq (ha.canonical_lt ht), (ha.settledAt t ht).plain hplain]
  construct n t hfits hparts hplain hn :=
    h.construct_canonical ha hinitial hsmall hfits (h.size_eq ▸ hparts) hplain hn
  part_lt t u hu := by
    obtain ⟨n, hn, hu⟩ := hu
    obtain ⟨ht, rfl⟩ := h.lt_of_node?_eq_some hn
    rcases List.mem_append.1 hu with hu | hu
    · exact ha.parts_lt ht hu
    · exact hrooted t ht u hu
  canonical_le t ht := by
    rw [h.canonical_eq]
    exact (ha.settledAt t (h.size_eq ▸ ht)).le
  nested n hparts := h.constructWithin_one ha (h.size_eq ▸ hparts)

end Packs

/-! ## Calls -/

/-- Calls that write sugar over types that are in the pool by then. -/
def WritesSugar (p : Pool) : List TypeNode → Prop
  | [] => True
  | n :: ns => (∀ t ∈ n.sugarParts, t.index < p.size) ∧ (p.construct n).2.WritesSugar ns

/-- This, too, can be decided call by call. -/
instance decidableWritesSugar : (p : Pool) → (ns : List TypeNode) → Decidable (p.WritesSugar ns)
  | _, [] => .isTrue trivial
  | p, n :: ns =>
    have := decidableWritesSugar (p.construct n).2 ns
    inferInstanceAs (Decidable (_ ∧ _))

/-- Accepted calls keep an arena rooted if the parts that sugar is written with are there. -/
theorem Packs.rooted {p : Pool} {a : Arena} (h : p.Packs a) (ha : a.Built) (hrooted : a.Rooted)
    {ns : List TypeNode} (hns : p.Accepts ns) (hsugar : p.WritesSugar ns)
    (hsmall : (p.run ns).Small) : (a.constructAll ns).2.Rooted := by
  induction ns generalizing p a with
  | nil => exact hrooted
  | cons n ns ih =>
    obtain ⟨hfits, hparts, hrest⟩ := hns
    obtain ⟨hfirst, hsugar⟩ := hsugar
    rw [h.size_eq] at hparts hfirst
    have hstep := h.construct ha.shared.1 hfits hparts ((Within.run _ ns).small hsmall)
    exact ih hstep.packs (ha.construct n hparts) (hrooted.construct hfirst) hrest hsugar hsmall

/-- In every pool that calls can lead to, the canonical form is the desugaring homomorphism. -/
theorem desugars (calls : List TypeNode) (haccepts : initial.Accepts calls)
    (hsugar : initial.WritesSugar calls) (hsmall : (initial.run calls).Small) :
    (initial.run calls).Desugars := by
  obtain ⟨hpacks, hbuilt⟩ := packs_initial.built .initial haccepts hsmall
  have hrooted := packs_initial.rooted .initial Arena.rooted_initial haccepts hsugar hsmall
  have hinitial := Arena.Extends.constructAll Arena.initial calls
  exact hpacks.desugars_of_settled hbuilt.settled hrooted hinitial hsmall

/-- A metatype over a labelled tuple over an optional: the variants over canonical forms stand in
front of the metatype and of the tuple. -/
theorem desugars_metatype :
    let calls : List TypeNode :=
      [.nominal ⟨5⟩ none, .boundGeneric ⟨9⟩ none [⟨12⟩], .optionalSugar ⟨12⟩ ⟨13⟩,
        .tuple [⟨some ⟨2⟩, ⟨14⟩⟩, ⟨none, ⟨12⟩⟩], .metatype ⟨16⟩]
    let p := initial.run calls
    initial.Accepts calls ∧ initial.WritesSugar calls ∧ p.Small ∧
      p.canonical ⟨14⟩ = p.canonical ⟨13⟩ ∧ p.canonical ⟨18⟩ = ⟨17⟩ ∧
      p.node? (p.canonical ⟨16⟩) = some (.tuple [⟨some ⟨2⟩, ⟨13⟩⟩, ⟨none, ⟨12⟩⟩]) ∧
      p.construct (.metatype ⟨15⟩) = (⟨17⟩, p) ∧ ¬p.isCanonical ⟨18⟩ := by
  intro calls p
  have haccepts : initial.Accepts calls := by decide +kernel
  have hsugar : initial.WritesSugar calls := by decide +kernel
  have hsmall : p.Small := by decide +kernel
  have hcanonical : p.canonical ⟨18⟩ = ⟨17⟩ := by decide +kernel
  have hdesugars := desugars calls haccepts hsugar hsmall
  have hnode : p.node? ⟨16⟩ = some (.tuple [⟨some ⟨2⟩, ⟨14⟩⟩, ⟨none, ⟨12⟩⟩]) := by decide +kernel
  have hcall : p.construct (.metatype ⟨16⟩) = (⟨18⟩, p) := by decide +kernel
  refine ⟨haccepts, hsugar, hsmall, ?_, hcanonical, ?_, ?_, ?_⟩
  · exact hdesugars.sugar ⟨14⟩ ⟨13⟩ (by decide +kernel) (by decide +kernel)
  · exact (hdesugars.plain _ _ hnode rfl).trans (by decide +kernel)
  · have hpart : p.canonical ⟨16⟩ = ⟨15⟩ := by decide +kernel
    have hvariant := hdesugars.construct _ _ (by decide) (by decide +kernel) rfl hcall
    rw [hcanonical, TypeNode.mapChildren, hpart] at hvariant
    exact hvariant
  · rw [hdesugars.isCanonical_iff ⟨18⟩ (by decide +kernel)]
    decide +kernel

end Pool

end NameMangling
