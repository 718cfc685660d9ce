/-
# Hash consing

Two calls return the same type exactly if they ask for the same node, however far apart they
are and whatever is built in between, and a call that asks for a type that is there leaves the
pool as it is.  So equality of types is equality of positions.

Main definitions:
* `TypeNode.Same`, the same constructor with the same arguments, up to how they are written;
* `Pool.SameCall`, calls for the same node, where a tuple of one element without a label is the
  element.

Main fact: `Pool.construct_eq_iff`, hash consing is exact.
-/
import Mathlib.Data.List.Sort
import NameMangling.Proofs.CanonicalForms

namespace NameMangling

namespace TypeNode

/-! ## The same arguments -/

/-- The same constructor with the same arguments.  An empty label is no label, and the protocols
of a composition are a set. -/
def Same : TypeNode → TypeNode → Prop
  | tuple elements, tuple elements' =>
    elements.map (fun e => (storedLabel e.label, e.type)) =
      elements'.map fun e => (storedLabel e.label, e.type)
  | existential c, existential c' =>
    c.superclass = c'.superclass ∧ c.anyObject = c'.anyObject ∧
      ∀ d, d ∈ c.protocols ↔ d ∈ c'.protocols
  | n, m => n = m

/-- Protocols in order are the same list if they are the same set. -/
theorem distinct_eq_iff {protocols protocols' : List DeclId} :
    Ordered.distinct (·.index < ·.index) protocols =
      Ordered.distinct (·.index < ·.index) protocols' ↔ ∀ d, d ∈ protocols ↔ d ∈ protocols' := by
  have : Std.Irrefl fun d e : DeclId => d.index < e.index := ⟨fun d => Nat.lt_irrefl d.index⟩
  constructor
  · intro h d
    have hmem : d ∈ Ordered.distinct (·.index < ·.index) protocols ↔ d ∈ protocols :=
      Ordered.mem_distinct
    rw [← hmem, h, Ordered.mem_distinct]
  · intro h
    refine (pairwise_distinct protocols).eq_of_mem_iff (pairwise_distinct protocols') fun d => ?_
    rw [Ordered.mem_distinct, Ordered.mem_distinct, h]

/-- The same arguments have the same normal form, and only they have. -/
theorem normalise_eq_iff_same {n m : TypeNode} : n.normalise = m.normalise ↔ n.Same m := by
  cases n with
  -- tuples are normalised by their labels only, element by element
  | tuple elements =>
    cases m with
    | tuple elements' =>
      have hpairs : ∀ es : List TupleElement,
          es.map (fun e => ({ e with label := storedLabel e.label } : TupleElement)) =
            (es.map fun e => (storedLabel e.label, e.type)).map fun x => ⟨x.1, x.2⟩ := by
        simp [List.map_map, Function.comp_def]
      have hinj : Function.Injective fun x : Option Name × TypeId =>
          (⟨x.1, x.2⟩ : TupleElement) := by
        rintro ⟨l, t⟩ ⟨l', t'⟩ h
        simpa using h
      simp only [normalise, Same, tuple.injEq, hpairs]
      exact (List.map_injective_iff.2 hinj).eq_iff
    | _ => simp [normalise, Same]
  -- compositions are normalised by their protocols only, which become a list in order
  | existential c =>
    cases m with
    | existential c' =>
      simp only [normalise, Same, existential.injEq, Composition.mk.injEq, distinct_eq_iff]
      tauto
    | _ => simp [normalise, Same]
  | _ => cases m <;> simp [normalise, Same]

end TypeNode

namespace Pool

/-! ## What a call asks for -/

/-- The node that a call asks for: the empty tuple for a tuple of no elements, the node of the
element for one element given no label, and otherwise the node of the call. -/
def asked (p : Pool) : TypeNode → Option TypeNode
  | .tuple [] => some .emptyTuple
  | .tuple [⟨none, t⟩] => p.node? t
  | n => some n

/-- Two calls for the same node. -/
def SameCall (p : Pool) (m n : TypeNode) : Prop :=
  ∃ x y, p.asked m = some x ∧ p.asked n = some y ∧ x.Same y

/-- Calls with the types they return, in order. -/
def history (p : Pool) : List TypeNode → List (TypeNode × TypeId)
  | [] => []
  | n :: ns => (n, (p.construct n).1) :: (p.construct n).2.history ns

/-- A history of calls in two parts is that of each part, the second from where the first ends. -/
theorem history_append (p : Pool) (ns ms : List TypeNode) :
    p.history (ns ++ ms) = p.history ns ++ (p.run ns).history ms := by
  induction ns generalizing p with
  | nil => rfl
  | cons n ns ih =>
    rw [List.cons_append, history, ih, history, List.cons_append]
    rfl

/-- A node that is stored as it is asked for is what the call asks for. -/
theorem asked_eq_self (p : Pool) {n : TypeNode} (hempty : n ≠ .tuple [])
    (hsingle : ∀ t, n ≠ .tuple [⟨none, t⟩]) : p.asked n = some n := by
  unfold asked
  split
  · exact absurd rfl hempty
  · exact absurd rfl (hsingle _)
  · rfl

/-- A type that has been returned for a call: its node is what the call asks for. -/
structure Returned (p : Pool) (a : Arena) (n : TypeNode) (t : TypeId) : Prop where
  issued : t.index < a.size
  asked : ∃ x, p.asked n = some x ∧ x.normalise = a.node t

namespace Packs

variable {p q : Pool} {a b : Arena} {n : TypeNode} {t : TypeId}

/-- What a call asks for is not changed by what is built before it. -/
theorem asked_eq (hp : p.Packs a) (hq : q.Packs b) (h : a.Extends b) {x : TypeNode}
    (hn : p.asked n = some x) : q.asked n = some x := by
  unfold Pool.asked at hn ⊢
  split at hn
  · exact hn
  · obtain ⟨hissued, hnode⟩ := hp.lt_of_node?_eq_some hn
    rw [hq.node?_eq (Nat.lt_of_lt_of_le hissued h.size_le), h.node_eq hissued, hnode]
  · exact hn

/-- Every accepted call asks for something. -/
theorem exists_asked (h : p.Packs a) (hparts : ∀ u ∈ n.children, u.index < a.size) :
    ∃ x, p.asked n = some x := by
  unfold Pool.asked
  split
  · exact ⟨_, rfl⟩
  · exact ⟨_, h.node?_eq (hparts _ (by simp [TypeNode.children]))⟩
  · exact ⟨_, rfl⟩

/-- Building returns a type of the node that was asked for. -/
theorem returned_construct (h : p.Packs a) (ha : a.Settled) (hinitial : Arena.initial.Extends a)
    (hfits : n.Fits) (hparts : ∀ u ∈ n.children, u.index < a.size)
    (hsmall : (p.construct n).2.Small) :
    Returned (p.construct n).2 (a.construct n).2 n (p.construct n).1 := by
  have hpos : 0 < a.size := Nat.lt_of_lt_of_le Arena.initial_size_pos hinitial.size_le
  have hstep := h.construct ha.toShared hfits hparts hsmall
  refine ⟨hstep.type ▸ (ha.toShared.construct hparts (.inl hpos)).issued, ?_⟩
  rcases n.cases_construct with rfl | ⟨u, rfl⟩ | ⟨hempty, hsingle⟩
  · exact ⟨.emptyTuple, rfl, (Arena.node_emptyTuple hinitial).symm⟩
  · have hu : u.index < a.size := hparts u (by simp [TypeNode.children])
    exact ⟨a.node u, h.node?_eq hu, (h.item u hu).normal⟩
  refine ⟨n, asked_eq_self _ hempty hsingle, ?_⟩
  rw [hstep.type, Arena.node_construct a hempty hsingle]

end Packs

/-- What has been returned for a call stays so in a larger pool. -/
theorem Returned.extends {p q : Pool} {a b : Arena} {n : TypeNode} {t : TypeId}
    (hr : Returned p a n t) (hp : p.Packs a) (hq : q.Packs b) (h : a.Extends b) :
    Returned q b n t := by
  obtain ⟨x, hx, hnode⟩ := hr.asked
  refine ⟨Nat.lt_of_lt_of_le hr.issued h.size_le, x, hp.asked_eq hq h hx, ?_⟩
  rw [h.node_eq hr.issued, hnode]

/-- Returned types go on being what was asked for, by induction on the calls. -/
theorem Packs.returned {p : Pool} {a : Arena} (h : p.Packs a) (ha : a.Built)
    (hinitial : Arena.initial.Extends a) {ns : List TypeNode} (hns : p.Accepts ns)
    (hsmall : (p.run ns).Small) {n : TypeNode} {t : TypeId} (hmem : (n, t) ∈ p.history ns) :
    Returned (p.run ns) (a.constructAll ns).2 n t := by
  induction ns generalizing p a with
  | nil => cases hmem
  | cons m ns ih =>
    obtain ⟨hfits, hparts, hrest⟩ := hns
    rw [h.size_eq] at hparts
    have hm : (p.construct m).2.Small := (Within.run _ ns).small hsmall
    have hstep := (h.construct ha.shared.1 hfits hparts hm).packs
    have hextends := Arena.Extends.construct a m
    -- a type that this call returned goes on being so in what later calls make of the arena
    rcases List.mem_cons.1 hmem with heq | hmem
    · obtain ⟨rfl, rfl⟩ := Prod.mk.inj heq
      have hreturned := h.returned_construct ha.settled hinitial hfits hparts hm
      have hlater := Arena.Extends.constructAll (a.construct n).2 ns
      have hpacks := (hstep.built (ha.construct n hparts) hrest hsmall).1
      exact hreturned.extends hstep hpacks hlater
    · exact ih hstep (ha.construct m hparts) (hinitial.trans hextends) hrest hsmall hmem

/-- The builtin types are what the calls for them ask for. -/
theorem returned_builtin {p : Pool} {a : Arena} (hinitial : Arena.initial.Extends a)
    {n : TypeNode} {t : TypeId} (hmem : (n, t) ∈ ({} : Pool).history Arena.builtinNodes) :
    Returned p a n t := by
  have hall : ∀ x ∈ ({} : Pool).history Arena.builtinNodes, x.1.kind ≠ .tuple ∧
      x.2.index < Arena.initial.size ∧ x.1.normalise = Arena.initial.node x.2 := by
    decide +kernel
  obtain ⟨hkind, hissued, hnode⟩ := hall _ hmem
  refine ⟨Nat.lt_of_lt_of_le hissued hinitial.size_le, n, asked_eq_self p ?_ ?_, ?_⟩
  · rintro rfl
    exact hkind rfl
  · rintro u rfl
    exact hkind rfl
  · rw [hnode, hinitial.node_eq hissued]

/-! ## Exactness -/

/-- Returned types are the same exactly if the same node was asked for. -/
theorem Returned.eq_iff {p : Pool} {a : Arena} (ha : a.Shared) {m n : TypeNode} {t u : TypeId}
    (hm : Returned p a m u) (hn : Returned p a n t) : u = t ↔ p.SameCall m n := by
  obtain ⟨x, hx, hxnode⟩ := hm.asked
  obtain ⟨y, hy, hynode⟩ := hn.asked
  constructor
  · rintro rfl
    exact ⟨x, y, hx, hy, TypeNode.normalise_eq_iff_same.1 (hxnode.trans hynode.symm)⟩
  · rintro ⟨x', y', hx', hy', hsame⟩
    rw [hx] at hx'
    rw [hy] at hy'
    cases hx'
    cases hy'
    apply ha.eq_of_node_eq hm.issued hn.issued
    rw [← hxnode, ← hynode]
    exact TypeNode.normalise_eq_iff_same.2 hsame

/-- A call for a type that is there leaves the pool as it is. -/
theorem Packs.construct_of_sameCall {p : Pool} {a : Arena} (h : p.Packs a) (ha : a.Settled)
    (hsmall : p.Small) {m n : TypeNode} {t : TypeId} (hfits : m.Fits)
    (hparts : ∀ u ∈ m.children, u.index < a.size) (hn : Returned p a n t)
    (hsame : p.SameCall m n) : (p.construct m).2 = p := by
  rcases m.cases_construct with rfl | ⟨u, rfl⟩ | ⟨hempty, hsingle⟩
  · rfl
  · rfl
  obtain ⟨x, y, hx, hy, hsame⟩ := hsame
  obtain ⟨z, hz, hnode⟩ := hn.asked
  rw [asked_eq_self p hempty hsingle] at hx
  rw [hy] at hz
  cases hx
  cases hz
  rw [construct_eq_add p hempty hsingle, h.add_eq ha hsmall hfits hparts hn.issued
    (hnode.symm.trans (TypeNode.normalise_eq_iff_same.2 hsame).symm)]

/-- Hash consing is exact: a call returns the type of an earlier call, those for the builtin types
among them, exactly if both ask for the same node, and then it leaves the pool as it is. -/
theorem construct_eq_iff (before : List TypeNode) (m : TypeNode)
    (haccepts : initial.Accepts (before ++ [m]))
    (hsmall : (initial.run (before ++ [m])).Small) :
    let p := initial.run before
    ∀ (n : TypeNode) (t : TypeId), (n, t) ∈ ({} : Pool).history (Arena.builtinNodes ++ before) →
      ((p.construct m).1 = t ↔ p.SameCall m n) ∧
        (p.SameCall m n → (p.construct m).2 = p) := by
  intro p n t hmem
  obtain ⟨hbefore, hfits, hparts, -⟩ := accepts_append.1 haccepts
  rw [run_append] at hsmall
  have hm : (p.construct m).2.Small := hsmall
  have hp : p.Small := (Within.construct p m).small hm
  obtain ⟨hpacks, hbuilt⟩ := packs_initial.built .initial hbefore hp
  have hinitial := Arena.Extends.constructAll Arena.initial before
  have hreturned : Returned p (Arena.initial.constructAll before).2 n t := by
    rw [history_append] at hmem
    rcases List.mem_append.1 hmem with hmem | hmem
    · exact returned_builtin hinitial hmem
    · exact packs_initial.returned .initial (Arena.Extends.refl _) hbefore hp hmem
  generalize (Arena.initial.constructAll before).2 = a at hpacks hbuilt hinitial hreturned
  have hsettled := hbuilt.settled
  rw [hpacks.size_eq] at hparts
  refine ⟨?_, hpacks.construct_of_sameCall hsettled hp hfits hparts hreturned⟩
  -- the call is compared in the pool that it leads to, where both types are
  have hpacks' := (hpacks.construct hsettled.toShared hfits hparts hm).packs
  have hextends := Arena.Extends.construct a m
  have hnew := hpacks.returned_construct hsettled hinitial hfits hparts hm
  have hold := hreturned.extends hpacks hpacks' hextends
  obtain ⟨x, hx⟩ := hpacks.exists_asked hparts
  obtain ⟨y, hy, -⟩ := hreturned.asked
  rw [hnew.eq_iff (hbuilt.construct m hparts).shared.1 hold, SameCall, SameCall,
    hpacks.asked_eq hpacks' hextends hx, hpacks.asked_eq hpacks' hextends hy, hx, hy]

/-- A composition is found again when its protocols are given in another order and one of them
twice, behind a tuple with sugar in it, and it is no builtin type. -/
theorem construct_eq_iff_composition :
    let before : List TypeNode :=
      [.nominal ⟨5⟩ none, .existential ⟨[⟨9⟩, ⟨3⟩], none, false⟩, .paren ⟨12⟩,
        .tuple [⟨some ⟨2⟩, ⟨14⟩⟩, ⟨none, ⟨13⟩⟩]]
    let m : TypeNode := .existential ⟨[⟨3⟩, ⟨9⟩, ⟨3⟩], none, false⟩
    let p := initial.run before
    initial.Accepts (before ++ [m]) ∧ (initial.run (before ++ [m])).Small ∧
      p.construct m = (⟨13⟩, p) ∧ ¬p.SameCall m (.builtinInt 8) := by
  intro before m p
  have haccepts : initial.Accepts (before ++ [m]) := by decide +kernel
  have hsmall : (initial.run (before ++ [m])).Small := by decide +kernel
  have hexact := construct_eq_iff before m haccepts hsmall
  have hsame : p.SameCall m (.existential ⟨[⟨9⟩, ⟨3⟩], none, false⟩) :=
    ⟨_, _, rfl, rfl, rfl, rfl, fun d => by simp [or_comm]⟩
  obtain ⟨htype, hpool⟩ :=
    hexact (.existential ⟨[⟨9⟩, ⟨3⟩], none, false⟩) ⟨13⟩ (by decide +kernel)
  obtain ⟨hbuiltin, -⟩ := hexact (.builtinInt 8) ⟨1⟩ (by decide +kernel)
  refine ⟨haccepts, hsmall, Prod.ext (htype.2 hsame) (hpool hsame), fun h => ?_⟩
  have hdistinct := (htype.2 hsame).symm.trans (hbuiltin.2 h)
  cases hdistinct

end Pool

end NameMangling
