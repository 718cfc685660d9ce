/-
# Reading packed types back

Whatever is built after it, a type in the pool is read as what it was built from, up to
normal form, and its kind, flags and canonical form stay what they were.  The pool and the
arena of a program hold the same types, so this is also what the program itself walks
through.

Main facts:
* `Pool.reads_back`: after any further calls a type is read as the node it was returned for;
* `Program.packs_addType`: the pool of a program goes on packing its arena.
-/
import NameMangling.Proofs.Pooling
import NameMangling.Program.Basic

namespace NameMangling

namespace Arena

theorem shared_initial : initial.Shared := Built.initial.shared.1

theorem initial_size_pos : 0 < initial.size := Built.initial.shared.2

/-- The first type of every arena is the empty tuple. -/
theorem node_emptyTuple {a : Arena} (h : initial.Extends a) : a.node .emptyTuple = .emptyTuple := by
  rw [node, h.entry_eq (t := .emptyTuple) initial_size_pos]
  decide +kernel

end Arena

namespace Pool

/-- What a type that was returned for a node is read as: the empty tuple for a tuple without
elements, the element itself for a single element without a label, and otherwise the node in
normal form. -/
def ReadsAs (p : Pool) (t : TypeId) : TypeNode → Prop
  | .tuple [] => t = .emptyTuple ∧ p.view t = TypeNode.emptyTuple.view
  | .tuple [⟨none, u⟩] => t = u
  | n => p.view t = n.normalise.view

/-- A type is read as a node if it shows what the normal form of the node shows. -/
theorem ReadsAs.of_view {p : Pool} {t : TypeId} {n : TypeNode} (hempty : n ≠ .tuple [])
    (hsingle : ∀ u, n ≠ .tuple [⟨none, u⟩]) (h : p.view t = n.normalise.view) :
    p.ReadsAs t n := by
  unfold ReadsAs
  split
  · exact absurd rfl hempty
  · exact absurd rfl (hsingle _)
  · exact h

/-- What two pools side by side with two arenas, the second of which extends the first, have
in common. -/
theorem Packs.item_eq {p q : Pool} {a b : Arena} (hp : p.Packs a) (hq : q.Packs b)
    (h : a.Extends b) {t : TypeId} (ht : t.index < a.size) :
    q.kind t = p.kind t ∧ q.flags t = p.flags t ∧ q.canonical t = p.canonical t := by
  have hitem := hp.item t ht
  have hitem' := hq.item t (Nat.lt_of_lt_of_le ht h.size_le)
  rw [h.entry_eq ht] at hitem'
  exact ⟨hitem'.kind.trans hitem.kind.symm, hitem'.flags.trans hitem.flags.symm,
    hitem'.canonical.trans hitem.canonical.symm⟩

/-- After any further calls a type is read as the node it was returned for, and its kind,
flags and canonical form are those it was given. -/
theorem reads_back (before : List TypeNode) (n : TypeNode) (after : List TypeNode)
    (haccepts : initial.Accepts (before ++ n :: after))
    (hsmall : (initial.run (before ++ n :: after)).Small) :
    let built := (initial.run before).construct n
    let later := built.2.run after
    built.1.index < built.2.size ∧ later.ReadsAs built.1 n ∧
      later.kind built.1 = built.2.kind built.1 ∧
      later.flags built.1 = built.2.flags built.1 ∧
      later.canonical built.1 = built.2.canonical built.1 := by
  intro built later
  obtain ⟨hbefore, hfits, hparts, hafter⟩ := accepts_append.1 haccepts
  have hlater : later.Small := by
    rw [run_append] at hsmall
    exact hsmall
  have hbuilt : built.2.Small := (Within.run built.2 after).small hlater
  have hp : (initial.run before).Small := (Within.construct _ n).small hbuilt
  -- the pool and the arena after the calls before, after this one and after all
  obtain ⟨hpacks, hshared⟩ :=
    packs_initial.run Arena.shared_initial (.inl Arena.initial_size_pos) hbefore hp
  have hextends := Arena.Extends.constructAll Arena.initial before
  generalize (Arena.initial.constructAll before).2 = a at hpacks hshared hextends
  have hpos : 0 < a.size := Nat.lt_of_lt_of_le Arena.initial_size_pos hextends.size_le
  rw [Pool.size, hpacks.size] at hparts
  have hstep := hpacks.construct hshared hfits hparts hbuilt
  have hissued := hshared.construct hparts (.inl hpos)
  have hpos' : 0 < (a.construct n).2.size := Nat.lt_of_lt_of_le hpos hissued.size_le
  obtain ⟨hpacks', -⟩ := hstep.packs.run hissued.shared (.inl hpos') hafter hlater
  have hextends' := Arena.Extends.constructAll (a.construct n).2 after
  have htype : built.1 = (a.construct n).1 := hstep.type
  have ht : built.1.index < (a.construct n).2.size := by
    rw [htype]
    exact hissued.issued
  refine ⟨by rw [Pool.size, hstep.packs.size]; exact ht, ?_,
    hstep.packs.item_eq hpacks' hextends' ht⟩
  have hview : later.view built.1 = ((a.construct n).2.node built.1).view := by
    rw [hpacks'.view (Nat.lt_of_lt_of_le ht hextends'.size_le), Arena.node,
      hextends'.entry_eq ht, Arena.node]
  by_cases hempty : n = .tuple []
  · subst hempty
    refine ⟨rfl, ?_⟩
    rw [hview]
    exact congrArg TypeNode.view (Arena.node_emptyTuple hextends)
  · by_cases hsingle : ∃ u, n = .tuple [⟨none, u⟩]
    · obtain ⟨u, rfl⟩ := hsingle
      rfl
    · have hsingle : ∀ u, n ≠ .tuple [⟨none, u⟩] := fun u hu => hsingle ⟨u, hu⟩
      apply ReadsAs.of_view hempty hsingle
      rw [hview, htype, Arena.node_construct a hempty hsingle]

/-- A composition over an alias, given its protocols out of order and one of them twice, is
read back after a tuple and a generic parameter have been built behind it. -/
theorem reads_back_composition :
    let before : List TypeNode := [.nominal ⟨5⟩ none, .aliased ⟨7⟩ ⟨12⟩]
    let n : TypeNode := .existential ⟨[⟨9⟩, ⟨3⟩, ⟨9⟩], some ⟨13⟩, true⟩
    let after : List TypeNode :=
      [.tuple [⟨some ⟨2⟩, ⟨15⟩⟩, ⟨some .empty, ⟨12⟩⟩], .genericParam ⟨1, 2⟩]
    let later := ((initial.run before).construct n).2.run after
    initial.Accepts (before ++ n :: after) ∧ (initial.run (before ++ n :: after)).Small ∧
      ((initial.run before).construct n).1 = ⟨15⟩ ∧
      later.existential? ⟨15⟩ = some ⟨[⟨3⟩, ⟨9⟩], some ⟨13⟩, true⟩ ∧
      later.tuple? ⟨15⟩ = none ∧ later.canonical ⟨15⟩ = ⟨14⟩ := by
  intro before n after later
  have haccepts : initial.Accepts (before ++ n :: after) := by decide +kernel
  have hsmall : (initial.run (before ++ n :: after)).Small := by decide +kernel
  have htype : ((initial.run before).construct n).1 = ⟨15⟩ := by decide +kernel
  have hreads := reads_back before n after haccepts hsmall
  simp only [htype] at hreads
  obtain ⟨-, hview, -, -, hcanonical⟩ := hreads
  refine ⟨haccepts, hsmall, htype, ?_, ?_, ?_⟩
  · exact (congrArg TypeView.existential hview).trans (by decide)
  · exact (congrArg TypeView.tuple hview).trans (by decide)
  · exact hcanonical.trans (by decide +kernel)

end Pool

/-! ## Programs -/

namespace Program

/-- The pool of a program goes on packing its arena: both hand out the same type. -/
theorem packs_addType {p : Program} (h : p.pool.Packs p.types) (hshared : p.types.Shared)
    {n : TypeNode} (hfits : n.Fits) (hparts : ∀ t ∈ n.children, t.index < p.types.size)
    (hsmall : (p.addType n).2.pool.Small) :
    (p.pool.construct n).1 = (p.addType n).1 ∧
      (p.addType n).2.pool.Packs (p.addType n).2.types := by
  have hstep := h.construct hshared hfits hparts hsmall
  exact ⟨hstep.type, hstep.packs⟩

theorem packs_empty : empty.pool.Packs empty.types := Pool.packs_initial

end Program

end NameMangling
