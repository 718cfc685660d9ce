/-
# Sharing in tables

An arena is built by constructing types over types that it already holds.  In such an arena
every node is stored once, so a type can be found again from its node, and the parts of a
type stand before it.  Likewise a table of names holds every text once.

Main facts:
* `Arena.Built.shared`: what holds of every arena that has been built;
* `Arena.Shared.find?_node`: a type is found by its node;
* `Arena.Extends.construct`, `Arena.node_construct`: building keeps what is stored, and the
  type that was built has the node that was asked for, in normal form;
* `NameTable.Built.eq_of_text_eq`: names of one text are the same.
-/
import NameMangling.Proofs.Interning
import NameMangling.Types.Arena

namespace NameMangling.Arena

/-- The arenas that are built from the one of the builtin types, each type over types that
have been built before. -/
inductive Built : Arena → Prop
  | initial : Built initial
  | construct {a : Arena} (ha : Built a) (n : TypeNode)
      (issued : ∀ t ∈ n.children, t.index < a.size) : Built (a.construct n).2

/-- What holds of every arena that has been built. -/
structure Shared (a : Arena) : Prop where
  /-- No node is stored twice. -/
  distinct : ∀ (i j : Nat) (e e' : TypeEntry), a.entries[i]? = some e → a.entries[j]? = some e' →
    e.node = e'.node → i = j
  /-- A tuple has elements; the empty tuple is a builtin type. -/
  nonempty : ∀ e ∈ a.entries, e.node ≠ .tuple []
  /-- Parts stand before what is made of them. -/
  parts : ∀ (i : Nat) (e : TypeEntry), a.entries[i]? = some e → ∀ t ∈ e.node.children, t.index < i
  canonical : ∀ e ∈ a.entries, e.canonical.index < a.size

variable {a : Arena}

/-- A type that was never built is read as the empty tuple. -/
theorem node_of_size_le {t : TypeId} (ht : a.size ≤ t.index) : a.node t = .emptyTuple := by
  rw [node, entry, Array.getElem?_eq_none ht]
  rfl

theorem lt_of_node_ne {t : TypeId} (h : a.node t ≠ .emptyTuple) : t.index < a.size :=
  Nat.lt_of_not_le fun ht => h (node_of_size_le ht)

namespace Shared

/-- An arena without entries shares whatever it has. -/
theorem empty : Shared ⟨#[]⟩ where
  distinct := by simp
  nonempty := by simp
  parts := by simp
  canonical := by simp

/-- The entry of a type that has been built is stored in its place. -/
theorem entry_mem {t : TypeId} (ht : t.index < a.size) :
    a.entries[t.index]? = some (a.entry t) := by
  unfold entry
  rw [Array.getElem?_eq_getElem (by exact ht), Option.getD_some]

/-- The canonical form of a type that has been built has been built. -/
theorem canonical_lt (ha : a.Shared) {t : TypeId} (ht : t.index < a.size) :
    (a.canonical t).index < a.size :=
  ha.canonical _ (Array.mem_of_getElem? (entry_mem ht))

/-- Two types that have been built are the same if their nodes are. -/
theorem eq_of_node_eq (ha : a.Shared) {t t' : TypeId} (ht : t.index < a.size)
    (ht' : t'.index < a.size) (h : a.node t = a.node t') : t = t' := by
  have hindex := ha.distinct _ _ _ _ (entry_mem ht) (entry_mem ht') h
  cases t
  cases t'
  simpa using hindex

/-- A type is found by its node. -/
theorem find?_node (ha : a.Shared) {t : TypeId} (ht : t.index < a.size) :
    a.find? (a.node t) = some t := by
  unfold find?
  have hentry := entry_mem ht
  rw [Array.getElem?_eq_some_iff] at hentry
  obtain ⟨hlt, hentry⟩ := hentry
  rw [Option.map_eq_some_iff]
  refine ⟨t.index, ?_, rfl⟩
  rw [Array.findIdx?_eq_some_iff_getElem]
  refine ⟨hlt, by simp [hentry, node], fun j hj => ?_⟩
  rw [Bool.not_eq_true, beq_eq_false_iff_ne]
  intro heq
  have hsame := ha.distinct j t.index _ _ (Array.getElem?_eq_getElem (by omega)) (entry_mem ht) heq
  omega

theorem parts_lt (ha : a.Shared) {t u : TypeId} (ht : t.index < a.size)
    (hu : u ∈ (a.node t).children) : u.index < t.index :=
  ha.parts _ _ (entry_mem ht) u hu

/-! ## Building -/

/-- A type found by its node has been built. -/
theorem lt_of_find? {n : TypeNode} {t : TypeId} (h : a.find? n = some t) : t.index < a.size := by
  unfold find? at h
  obtain ⟨i, hi, rfl⟩ := Option.map_eq_some_iff.1 h
  exact (Array.findIdx?_eq_some_iff_getElem.1 hi).1

/-- A node that a search does not find is not stored anywhere. -/
theorem node_ne_of_find?_eq_none {n : TypeNode} (h : a.find? n = none) :
    ∀ e ∈ a.entries, e.node ≠ n := by
  unfold find? at h
  rw [Option.map_eq_none_iff, Array.findIdx?_eq_none_iff] at h
  intro e he
  simpa using h e he

/-- What one step of building does: the type has been built and nothing is lost. -/
structure Step (a : Arena) (r : TypeId × Arena) : Prop where
  shared : r.2.Shared
  issued : r.1.index < r.2.size
  size_le : a.size ≤ r.2.size

/-- Storing a node keeps an arena shared. -/
theorem intern (ha : a.Shared) {n : TypeNode} (canonical : Option TypeId) (hn : n ≠ .tuple [])
    (hparts : ∀ t ∈ n.children, t.index < a.size)
    (hcanonical : ∀ c ∈ canonical, c.index < a.size) : Step a (a.intern n canonical) := by
  unfold Arena.intern
  split
  · rename_i t ht
    exact ⟨ha, lt_of_find? ht, Nat.le_refl _⟩
  · -- the node is new and comes last, behind its parts
    rename_i hfind
    have hfresh := node_ne_of_find?_eq_none hfind
    have hsize : a.size = a.entries.size := rfl
    refine ⟨⟨?_, ?_, ?_, ?_⟩, by simp [size], by simp [size]⟩
    · intro i j e e' hi hj heq
      rw [Array.getElem?_push] at hi hj
      split at hi <;> split at hj
      · omega
      · cases hi
        exact absurd heq.symm (hfresh e' (Array.mem_of_getElem? hj))
      · cases hj
        exact absurd heq (hfresh e (Array.mem_of_getElem? hi))
      · exact ha.distinct i j e e' hi hj heq
    · intro e he
      rw [Array.mem_push] at he
      rcases he with he | rfl
      · exact ha.nonempty e he
      · exact hn
    · intro i e hi
      rw [Array.getElem?_push] at hi
      split at hi
      · rename_i hlast
        cases hi
        rw [hlast]
        exact hparts
      · exact ha.parts i e hi
    · intro e he
      rw [Array.mem_push] at he
      show e.canonical.index < (a.entries.push _).size
      rw [Array.size_push]
      rcases he with he | rfl
      · have := ha.canonical e he
        omega
      · cases canonical with
        | none => exact Nat.lt_succ_self _
        | some c =>
          have := hcanonical c rfl
          show c.index < _
          omega

/-- The parts of a node over other parts: sugar keeps its part. -/
theorem children_mapChildren (f : TypeId → TypeId) (n : TypeNode) :
    (n.mapChildren f).children = n.children.map f ∨ n.mapChildren f = n := by
  cases n with
  | nominal _ parent => cases parent <;> exact .inl rfl
  | boundGeneric _ parent _ =>
    cases parent <;> simp [TypeNode.mapChildren, TypeNode.children]
  | lowered fn =>
    cases h : fn.error <;> exact .inl (by simp [TypeNode.mapChildren, TypeNode.children, h,
      Function.comp_def])
  | existential c =>
    cases h : c.superclass <;> simp [TypeNode.mapChildren, TypeNode.children, h]
  | metatype _ => exact .inl rfl
  | existentialMetatype _ => exact .inl rfl
  | dependentMember => exact .inl rfl
  | opaqueResult => exact .inl rfl
  | tuple _ => simp [TypeNode.mapChildren, TypeNode.children]
  | function _ => simp [TypeNode.mapChildren, TypeNode.children]
  | _ => exact .inr rfl

theorem mapChildren_ne {f : TypeId → TypeId} {n : TypeNode} (hn : n ≠ .tuple []) :
    n.mapChildren f ≠ .tuple [] := by
  cases n <;> simp_all [TypeNode.mapChildren]

theorem children_normalise (n : TypeNode) : n.normalise.children = n.children := by
  cases n <;> simp [TypeNode.normalise, TypeNode.children]

theorem normalise_ne {n : TypeNode} (hn : n ≠ .tuple []) : n.normalise ≠ .tuple [] := by
  cases n <;> simp_all [TypeNode.normalise]

theorem mem_children_of_desugared? {n : TypeNode} {t : TypeId} (h : n.desugared? = some t) :
    t ∈ n.children := by
  cases n <;> simp_all [TypeNode.desugared?, TypeNode.children]

/-- Adding a node other than the empty tuple keeps an arena shared, with sugar desugared before
it. -/
theorem add (ha : a.Shared) {n : TypeNode} (hn : n ≠ .tuple [])
    (hparts : ∀ t ∈ n.children, t.index < a.size) : Step a (a.add n) := by
  unfold Arena.add
  split
  · rename_i t ht
    -- sugar takes the canonical form of what it stands for, which is one of its parts
    apply ha.intern _ hn hparts
    rintro c ⟨⟩
    exact ha.canonical_lt (hparts t (mem_children_of_desugared? ht))
  · split
    · -- the variant without sugar is stored first, and the node after it
      have hvariant : Step a (a.intern (n.mapChildren a.canonical) none) := by
        refine ha.intern none (mapChildren_ne hn) ?_ (by simp)
        rcases children_mapChildren a.canonical n with h | h
        · rw [h]
          intro t ht
          obtain ⟨u, hu, rfl⟩ := List.mem_map.1 ht
          exact ha.canonical_lt (hparts u hu)
        · rw [h]
          exact hparts
      obtain ⟨hshared, hissued, hsize⟩ := hvariant
      have hlast := hshared.intern (some (a.intern (n.mapChildren a.canonical) none).1)
        hn (fun t ht => Nat.lt_of_lt_of_le (hparts t ht) hsize) (by
          rintro c ⟨⟩
          exact hissued)
      exact ⟨hlast.shared, hlast.issued, Nat.le_trans hsize hlast.size_le⟩
    · exact ha.intern none hn hparts (by simp)

/-- Construction keeps an arena shared if it has entries or the empty tuple is not asked for. -/
theorem construct (ha : a.Shared) {n : TypeNode} (hparts : ∀ t ∈ n.children, t.index < a.size)
    (hsize : 0 < a.size ∨ n ≠ .tuple []) : Step a (a.construct n) := by
  unfold Arena.construct
  split
  · exact ⟨ha, hsize.resolve_right fun h => h rfl, Nat.le_refl _⟩
  · exact ⟨ha, hparts _ (by simp [TypeNode.children]), Nat.le_refl _⟩
  · rename_i hn _
    apply ha.add (normalise_ne hn)
    rw [children_normalise]
    exact hparts

/-- Types without parts can be built in any arena. -/
theorem constructAll (ha : a.Shared) {ns : List TypeNode}
    (hns : ∀ n ∈ ns, n.children = [] ∧ n ≠ .tuple []) : (a.constructAll ns).2.Shared := by
  induction ns generalizing a with
  | nil => exact ha
  | cons n ns ih =>
    obtain ⟨hparts, hn⟩ := hns n (by simp)
    have hfirst := ha.construct (n := n) (by simp [hparts]) (.inr hn)
    exact ih hfirst.shared fun n' hn' => hns n' (by simp [hn'])

end Shared

/-- Every arena that has been built is shared, and it holds the empty tuple. -/
theorem Built.shared {a : Arena} (h : a.Built) : a.Shared ∧ 0 < a.size := by
  induction h with
  | initial => exact ⟨Shared.empty.constructAll (by decide), by decide +kernel⟩
  | construct _ n issued ih =>
    have hstep := ih.1.construct issued (.inl ih.2)
    exact ⟨hstep.shared, Nat.lt_of_lt_of_le ih.2 hstep.size_le⟩

/-- Several types over types of the arena can be built one after another. -/
theorem Built.constructAll {a : Arena} (ha : a.Built) {ns : List TypeNode}
    (issued : ∀ n ∈ ns, ∀ t ∈ n.children, t.index < a.size) : (a.constructAll ns).2.Built := by
  induction ns generalizing a with
  | nil => exact ha
  | cons n ns ih =>
    have hn := issued n (by simp)
    apply ih (ha.construct n hn)
    intro n' hn' t ht
    have hsize := (ha.shared.1.construct hn (.inl ha.shared.2)).size_le
    exact Nat.lt_of_lt_of_le (issued n' (by simp [hn']) t ht) hsize

/-! ## Reading what has been built -/

/-- Everything in the first arena stands at its position in the second one, too. -/
def Extends (a b : Arena) : Prop :=
  ∀ (i : Nat) (e : TypeEntry), a.entries[i]? = some e → b.entries[i]? = some e

namespace Extends

variable {a b c : Arena}

theorem refl (a : Arena) : a.Extends a := fun _ _ h => h

theorem trans (hab : a.Extends b) (hbc : b.Extends c) : a.Extends c :=
  fun i e h => hbc i e (hab i e h)

/-- An arena that extends another one is at least as large. -/
theorem size_le (h : a.Extends b) : a.size ≤ b.size := by
  refine Nat.le_of_not_lt fun hlt => ?_
  have hb := h b.size _ (Array.getElem?_eq_getElem hlt)
  have := (Array.getElem?_eq_some_iff.1 hb).1
  exact Nat.lt_irrefl _ this

theorem entry_eq (h : a.Extends b) {t : TypeId} (ht : t.index < a.size) :
    b.entry t = a.entry t := by
  rw [entry, h _ _ (Shared.entry_mem ht), Option.getD_some]

/-- Interning only adds at the end. -/
theorem intern (a : Arena) (n : TypeNode) (canonical : Option TypeId) :
    a.Extends (a.intern n canonical).2 := by
  unfold Arena.intern
  split
  · exact refl a
  · intro i e h
    have hi : i < a.entries.size := (Array.getElem?_eq_some_iff.1 h).1
    rw [Array.getElem?_push_lt hi, ← Array.getElem?_eq_getElem hi, h]

/-- Adding, which may intern twice, only adds at the end. -/
theorem add (a : Arena) (n : TypeNode) : a.Extends (a.add n).2 := by
  unfold Arena.add
  split
  · exact intern a n _
  · split
    · exact (intern a _ none).trans (intern _ n _)
    · exact intern a n none

/-- Construction only adds at the end. -/
theorem construct (a : Arena) (n : TypeNode) : a.Extends (a.construct n).2 := by
  unfold Arena.construct
  split
  · exact refl a
  · exact refl a
  · exact add a _

/-- A row of constructions only adds at the end. -/
theorem constructAll (a : Arena) (ns : List TypeNode) : a.Extends (a.constructAll ns).2 := by
  induction ns generalizing a with
  | nil => exact refl a
  | cons n ns ih => exact (construct a n).trans (ih _)

end Extends

theorem intern_of_some {a : Arena} {n : TypeNode} {canonical : Option TypeId} {t : TypeId}
    (h : a.find? n = some t) : a.intern n canonical = (t, a) := by
  rw [intern, h]

/-- A node that is not found is put at the end and is canonical unless another type is. -/
theorem intern_of_none {a : Arena} {n : TypeNode} {canonical : Option TypeId}
    (h : a.find? n = none) : a.intern n canonical =
      (⟨a.size⟩, ⟨a.entries.push ⟨n, a.flagsOf n, canonical.getD ⟨a.size⟩⟩⟩) := by
  rw [intern, h]

/-- What interning returns is a type of that node. -/
theorem node_intern (a : Arena) (n : TypeNode) (canonical : Option TypeId) :
    (a.intern n canonical).2.node (a.intern n canonical).1 = n := by
  unfold intern
  split
  · rename_i t hfind
    obtain ⟨i, hi, rfl⟩ := Option.map_eq_some_iff.1 hfind
    obtain ⟨hlt, hnode, -⟩ := Array.findIdx?_eq_some_iff_getElem.1 hi
    rw [node, entry, Array.getElem?_eq_getElem hlt, Option.getD_some]
    exact eq_of_beq hnode
  · simp [node, entry, size]

/-- What adding returns is a type of that node. -/
theorem node_add (a : Arena) (n : TypeNode) : (a.add n).2.node (a.add n).1 = n := by
  unfold add
  split
  · exact node_intern a n _
  · split
    · exact node_intern _ n _
    · exact node_intern a n none

/-- Only the empty tuple and a tuple of one unlabelled element are not added as they are. -/
theorem construct_eq_add (a : Arena) {n : TypeNode} (hempty : n ≠ .tuple [])
    (hsingle : ∀ t, n ≠ .tuple [⟨none, t⟩]) : a.construct n = a.add n.normalise := by
  unfold construct
  split
  · exact absurd rfl hempty
  · exact absurd rfl (hsingle _)
  · rfl

/-- The type that was built has the node that was asked for, in normal form. -/
theorem node_construct (a : Arena) {n : TypeNode} (hempty : n ≠ .tuple [])
    (hsingle : ∀ t, n ≠ .tuple [⟨none, t⟩]) :
    (a.construct n).2.node (a.construct n).1 = n.normalise := by
  rw [construct_eq_add a hempty hsingle]
  exact node_add a n.normalise

end NameMangling.Arena

namespace NameMangling.NameTable

/-! ## Names -/

/-- The tables of names that are built from the one of the empty text. -/
inductive Built : NameTable → Prop
  | initial : Built {}
  | intern {t : NameTable} (h : Built t) (s : String) : Built (t.intern s).2

/-- A table that has been built stays one when more texts are interned. -/
theorem Built.internAll {t : NameTable} (h : t.Built) (ss : List String) :
    (t.internAll ss).2.Built := by
  induction ss generalizing t with
  | nil => exact h
  | cons s ss ih => exact ih (h.intern s)

/-- A table that has been built holds the texts that it has met. -/
theorem Built.holds {t : NameTable} (h : t.Built) : ∃ met, t.texts.Holds met := by
  induction h with
  | initial => exact ⟨_, Interner.holds_empty.intern ""⟩
  | intern _ s ih =>
    obtain ⟨met, hmet⟩ := ih
    exact ⟨_, hmet.intern s⟩

/-- In a table that has been built no text has two slots. -/
theorem Built.distinct {t : NameTable} (h : t.Built) {i j : Nat} {x : String}
    (hi : t.texts.value? i = some x) (hj : t.texts.value? j = some x) : i = j := by
  obtain ⟨met, hmet⟩ := h.holds
  rw [← hmet.slot?_eq_some_iff] at hi hj
  exact Option.some.inj (hi.symm.trans hj)

/-- Names of one text are the same. -/
theorem Built.eq_of_text_eq {t : NameTable} (h : t.Built) {n n' : Name} (hn : n.slot < t.size)
    (hn' : n'.slot < t.size) (htext : t.text n = t.text n') : n = n' := by
  have hslot : ∀ {n : Name}, n.slot < t.size → t.texts.value? n.slot = some (t.text n) := by
    intro n hn
    have hvalue : t.texts.value? n.slot = some t.texts.values[n.slot] :=
      Array.getElem?_eq_getElem hn
    rw [NameTable.text, hvalue, Option.getD_some]
  have hsame := h.distinct (hslot hn) (htext ▸ hslot hn')
  cases n
  cases n'
  simpa using hsame

end NameMangling.NameTable
