/-
# The pool packs the arena

Building in the pool and building in the arena go side by side.  Both hand out the same
positions, and what the pool reads off a type is what the arena has as its node.  Rows that
are stored stay where they are, and nodes share a payload exactly if they have one normal
form, so the shared array never confuses two types.

Main definitions: `Pool.Packs`, which relates a pool to an arena of the same types, and
`Pool.Within`, that nothing of a pool is lost.

Main facts:
* `Pool.Packs.construct`: building keeps a pool and an arena side by side;
* `Pool.Packs.view`: the readers of the pool say what the node in the arena says.
-/
import NameMangling.Proofs.Packing

namespace NameMangling.Pool

/-! ## Rows -/

/-- A row stands behind its length. -/
theorem rowAt?_eq_some {rows : Array UInt32} {start : Nat} {ws : List UInt32} :
    rowAt? rows start = some ws ↔
      ∃ length : UInt32, length.toNat = ws.length ∧
        (length :: ws) <+: rows.toList.drop start := by
  simp only [rowAt?, Option.bind_eq_bind, Option.bind_eq_some_iff, Option.ite_none_right_eq_some,
    Option.some.injEq, Array.toList_extract, List.extract_eq_take_drop,
    Nat.add_sub_cancel_left]
  refine exists_congr fun length => ?_
  constructor
  · rintro ⟨hlength, hstop, rfl⟩
    obtain ⟨hstart, hlength⟩ := Array.getElem?_eq_some_iff.1 hlength
    have hdrop : rows.toList.drop start = length :: rows.toList.drop (start + 1) := by
      rw [List.drop_eq_getElem_cons (by simpa using hstart), Array.getElem_toList, hlength]
    refine ⟨?_, ?_⟩
    · rw [List.length_take, List.length_drop, Array.length_toList]
      omega
    · rw [hdrop, List.cons_prefix_cons]
      exact ⟨rfl, List.take_prefix _ _⟩
  · rintro ⟨hlength, rest, hrest⟩
    have hsize : ws.length + rest.length + 1 = rows.size - start := by
      simpa using congrArg List.length hrest
    refine ⟨?_, by omega, ?_⟩
    · rw [← Array.getElem?_toList, ← Nat.add_zero start, ← List.getElem?_drop, ← hrest]
      rfl
    · rw [← List.tail_drop, ← hrest, hlength]
      simp

/-- A row stays where it is when words are added behind it. -/
theorem rowAt?_append {rows : Array UInt32} {start : Nat} {ws : List UInt32}
    (h : rowAt? rows start = some ws) (new : Array UInt32) :
    rowAt? (rows ++ new) start = some ws := by
  obtain ⟨length, hlength, hprefix⟩ := rowAt?_eq_some.1 h
  refine rowAt?_eq_some.2 ⟨length, hlength, hprefix.trans ?_⟩
  have hstart : start ≤ rows.toList.length := by
    have := hprefix.length_le
    simp only [List.length_cons, List.length_drop] at this
    omega
  rw [Array.toList_append, List.drop_append_of_le_length hstart]
  exact List.prefix_append _ _

/-- A row that has just been added is read at the place where the words ended before. -/
theorem rowAt?_size (rows : Array UInt32) {ws : List UInt32} (h : ws.length < UInt32.size) :
    rowAt? (rows ++ (.ofNat ws.length :: ws).toArray) rows.size = some ws := by
  refine rowAt?_eq_some.2 ⟨.ofNat ws.length, UInt32.toNat_ofNat_of_lt' h, ?_⟩
  exact ⟨[], by rw [Array.toList_append, ← Array.length_toList, List.drop_left, List.append_nil]⟩

/-- Storing a payload appends to the rows. -/
theorem store_eq (rows : Array UInt32) (payload : Payload) :
    ∃ new : Array UInt32, (store rows payload).2 = rows ++ new := by
  cases payload with
  | word w => exact ⟨#[], Array.append_empty.symm⟩
  | row ws => exact ⟨_, rfl⟩

/-- What a data word says of a payload. -/
def Stored (rows : Array UInt32) (data : UInt32) : Payload → Prop
  | .word w => data = w
  | .row ws => rowAt? rows data.toNat = some ws

/-- What is stored stays stored when words are added. -/
theorem Stored.append {rows : Array UInt32} {data : UInt32} {payload : Payload}
    (h : Stored rows data payload) (new : Array UInt32) : Stored (rows ++ new) data payload := by
  cases payload with
  | word w => exact h
  | row ws => exact rowAt?_append h new

/-- A payload that has just been stored is there. -/
theorem stored_store {rows : Array UInt32} {payload : Payload}
    (hsmall : (store rows payload).2.size < UInt32.size) :
    Stored (store rows payload).2 (store rows payload).1 payload := by
  cases payload with
  | word w => rfl
  | row ws =>
    have hsize : rows.size + (ws.length + 1) < UInt32.size := by
      simpa [store] using hsmall
    show rowAt? _ (UInt32.ofNat rows.size).toNat = some ws
    rw [UInt32.toNat_ofNat_of_lt' (by omega)]
    exact rowAt?_size rows (by omega)

/-- A payload that fits the pool has a length that fits a word. -/
theorem length_lt_of_store {rows : Array UInt32} {payload : Payload}
    (hsmall : (store rows payload).2.size < UInt32.size) :
    payload.words.length < UInt32.size := by
  cases payload with
  | word w => exact (by decide : 1 < UInt32.size)
  | row ws =>
    have hsize : rows.size + (ws.length + 1) < UInt32.size := by
      simpa [store] using hsmall
    show ws.length < UInt32.size
    omega

/-! ## Sizes -/

/-- A pool that is no larger than another one. -/
structure Within (p q : Pool) : Prop where
  items : p.items.size ≤ q.items.size
  rows : p.rows.size ≤ q.rows.size

namespace Within

variable {p q r : Pool}

theorem refl (p : Pool) : p.Within p := ⟨Nat.le_refl _, Nat.le_refl _⟩

theorem trans (hpq : p.Within q) (hqr : q.Within r) : p.Within r :=
  ⟨Nat.le_trans hpq.items hqr.items, Nat.le_trans hpq.rows hqr.rows⟩

theorem small (h : p.Within q) (hq : q.Small) : p.Small :=
  ⟨Nat.lt_of_le_of_lt h.items hq.1, Nat.lt_of_le_of_lt h.rows hq.2⟩

/-- Interning a node never makes the pool smaller. -/
theorem intern (p : Pool) (n : TypeNode) (canonical : Option TypeId) :
    p.Within (p.intern n canonical).2 := by
  unfold Pool.intern
  split
  · exact refl p
  · obtain ⟨new, hnew⟩ := store_eq p.rows n.payload
    exact ⟨by simp, by simp [hnew]⟩

/-- Adding a node, with the desugared one before it, never makes the pool smaller. -/
theorem add (p : Pool) (n : TypeNode) : p.Within (p.add n).2 := by
  unfold Pool.add
  split
  · exact intern p n _
  · split
    · exact (intern p _ none).trans (intern _ n _)
    · exact intern p n none

/-- Construction never makes the pool smaller. -/
theorem construct (p : Pool) (n : TypeNode) : p.Within (p.construct n).2 := by
  unfold Pool.construct
  split
  · exact refl p
  · exact refl p
  · exact add p _

/-- A row of calls never makes the pool smaller. -/
theorem run (p : Pool) (ns : List TypeNode) : p.Within (p.run ns) := by
  induction ns generalizing p with
  | nil => exact refl p
  | cons n ns ih => exact (construct p n).trans (ih _)

end Within

/-! ## Side by side -/

/-- Only the empty tuple and a tuple of one unlabelled element are not added as they are. -/
theorem construct_eq_add (p : Pool) {n : TypeNode} (hempty : n ≠ .tuple [])
    (hsingle : ∀ t, n ≠ .tuple [⟨none, t⟩]) : p.construct n = p.add n := by
  unfold construct
  split
  · exact absurd rfl hempty
  · exact absurd rfl (hsingle _)
  · rfl

theorem intern_of_some {p : Pool} {n : TypeNode} {canonical : Option TypeId} {t : TypeId}
    (h : p.find? n.key = some t) : p.intern n canonical = (t, p) := by
  rw [intern, h]

/-- A node whose key is not found is put at the end, its payload behind the rows. -/
theorem intern_of_none {p : Pool} {n : TypeNode} {canonical : Option TypeId}
    (h : p.find? n.key = none) : p.intern n canonical =
      (typeAt p.size,
        { items := p.items.push ⟨n.kind, (store p.rows n.payload).1, p.flagsOf n,
            canonical.getD (typeAt p.size)⟩
          rows := (store p.rows n.payload).2
          keys := p.keys.push n.key }) := by
  rw [intern, h]

/-- A packed type says what an entry of the arena says. -/
structure ItemPacks (rows : Array UInt32) (item : PoolItem) (e : TypeEntry) : Prop where
  kind : item.kind = e.node.kind
  stored : Stored rows item.data e.node.payload
  flags : item.flags = e.flags
  canonical : item.canonical = e.canonical
  packable : e.node.Packable
  normal : e.node.normalise = e.node

/-- A pool and an arena of the same types. -/
structure Packs (p : Pool) (a : Arena) : Prop where
  size : p.items.size = a.size
  keys : p.keys = a.entries.map (·.node.key)
  item : ∀ t : TypeId, t.index < a.size → ItemPacks p.rows (p.item t) (a.entry t)

theorem typeAt_eq {i : Nat} (hi : i < UInt32.size) : typeAt i = ⟨i⟩ := by
  rw [typeAt, TypeId.ofWord, UInt32.toNat_ofNat_of_lt' hi]

/-- A search finds the same place for two tests that agree on the array. -/
theorem findIdx?_congr {α : Type} {f g : α → Bool} {xs : Array α} (h : ∀ x ∈ xs, f x = g x) :
    xs.findIdx? f = xs.findIdx? g := by
  symm
  cases hf : xs.findIdx? f with
  | none =>
    rw [Array.findIdx?_eq_none_iff] at hf ⊢
    intro x hx
    rw [← h x hx, hf x hx]
  | some i =>
    rw [Array.findIdx?_eq_some_iff_getElem] at hf ⊢
    obtain ⟨hi, hfi, hfirst⟩ := hf
    refine ⟨hi, ?_, fun j hj => ?_⟩
    · rw [← h _ (Array.getElem_mem hi), hfi]
    · rw [← h _ (Array.getElem_mem _)]
      exact hfirst j hj

theorem ItemPacks.append {rows : Array UInt32} {item : PoolItem} {e : TypeEntry}
    (h : ItemPacks rows item e) (new : Array UInt32) : ItemPacks (rows ++ new) item e :=
  { h with stored := h.stored.append new }

namespace Packs

variable {p : Pool} {a : Arena} {n : TypeNode}

/-- The empty pool packs the empty arena. -/
theorem empty : Packs {} ⟨#[]⟩ where
  size := rfl
  keys := by simp
  item := by simp [Arena.size]

/-- Beyond the last type both sides read the default. -/
theorem eq_default (h : p.Packs a) {t : TypeId} (ht : ¬t.index < a.size) :
    p.item t = {} ∧ a.entry t = {} := by
  have hp : ¬t.index < p.items.size := by
    rw [h.size]
    exact ht
  constructor
  · rw [Pool.item, Array.getElem?_eq_none (by omega), Option.getD_none]
  · rw [Arena.entry, Array.getElem?_eq_none (Nat.le_of_not_lt ht), Option.getD_none]

/-- A pool and its arena give every type the same flags. -/
theorem flags_eq (h : p.Packs a) : p.flags = a.flags := by
  funext t
  by_cases ht : t.index < a.size
  · exact (h.item t ht).flags
  · obtain ⟨hitem, hentry⟩ := h.eq_default ht
    rw [Pool.flags, Arena.flags, hitem, hentry]

/-- A pool and its arena give every type the same canonical type. -/
theorem canonical_eq (h : p.Packs a) : p.canonical = a.canonical := by
  funext t
  by_cases ht : t.index < a.size
  · exact (h.item t ht).canonical
  · obtain ⟨hitem, hentry⟩ := h.eq_default ht
    rw [Pool.canonical, Arena.canonical, hitem, hentry]

theorem flagsOf_eq (h : p.Packs a) (n : TypeNode) : p.flagsOf n = a.flagsOf n.normalise := by
  rw [Pool.flagsOf, Arena.flagsOf, h.flags_eq, Arena.Shared.children_normalise,
    TypeNode.kind_normalise]

/-- A node over parts of a small pool is packable when its numbers and its length fit. -/
theorem packable (h : p.Packs a) (hsmall : p.Small) (hfits : n.Fits)
    (hparts : ∀ t ∈ n.children, t.index < a.size)
    (hlength : n.payload.words.length < UInt32.size) : n.Packable where
  fits := hfits
  parts t ht := by
    have hsize : a.size ≤ TypeId.absent.index := by
      rw [← h.size]
      exact Nat.le_of_lt_succ hsmall.1
    exact Nat.lt_of_lt_of_le (hparts t ht) hsize
  length := hlength

/-- A key is found where the node is found in normal form. -/
theorem find?_eq (h : p.Packs a) (hsmall : p.Small) (hfits : n.Fits)
    (hparts : ∀ t ∈ n.children, t.index < a.size) : p.find? n.key = a.find? n.normalise := by
  have hsize : a.entries.size < UInt32.size := by
    have := hsmall.1
    rwa [h.size] at this
  -- the keys of two nodes are equal exactly if their normal forms are
  have hsame : ∀ e ∈ a.entries, (e.node.key == n.key) = (e.node == n.normalise) := by
    intro e he
    obtain ⟨i, hi, rfl⟩ := Array.mem_iff_getElem.1 he
    have hitem := h.item ⟨i⟩ hi
    have hentry : a.entry ⟨i⟩ = a.entries[i] := by
      rw [Arena.entry, Array.getElem?_eq_getElem hi, Option.getD_some]
    rw [hentry] at hitem
    rw [Bool.eq_iff_iff, beq_iff_eq, beq_iff_eq]
    constructor
    · intro hkey
      -- a node whose key is stored is as long as the one that is stored, so it can be packed
      have hwords : n.payload.words = a.entries[i].node.payload.words :=
        (congrArg PoolKey.words hkey).symm
      have hn : n.Packable := h.packable hsmall hfits hparts (by
        rw [hwords]
        exact hitem.packable.length)
      rw [← hitem.normal, hitem.packable.normalise_eq_of_key_eq hn hkey]
    · intro hnode
      rw [hnode, TypeNode.key_normalise]
  have hindex : a.entries.findIdx? ((· == n.key) ∘ fun e => e.node.key) =
      a.entries.findIdx? (·.node == n.normalise) := findIdx?_congr hsame
  rw [Pool.find?, Arena.find?, h.keys, Array.findIdx?_map, hindex]
  cases hfind : a.entries.findIdx? (·.node == n.normalise) with
  | none => rfl
  | some i =>
    have hi := (Array.findIdx?_eq_some_iff_getElem.1 hfind).1
    rw [Option.map_some, Option.map_some, typeAt_eq (Nat.lt_trans hi hsize)]

/-! ### One step of building -/

/-- Two results of building, one of them packed: the same type and the same types stored. -/
structure Alike (r : TypeId × Pool) (s : TypeId × Arena) : Prop where
  type : r.1 = s.1
  packs : r.2.Packs s.2

/-- An item and an entry that say the same may be added on both sides. -/
theorem push (h : p.Packs a) {item : PoolItem} {e : TypeEntry} {new : Array UInt32}
    (hitem : ItemPacks (p.rows ++ new) item e) :
    Packs ⟨p.items.push item, p.rows ++ new, p.keys.push e.node.key⟩ ⟨a.entries.push e⟩ where
  size := by simp [Arena.size, h.size]
  keys := by rw [Array.map_push, h.keys]
  item t ht := by
    have hsize : p.items.size = a.entries.size := h.size
    -- the rows grow at their end, so the items in front read what they read before
    by_cases hlast : t.index = a.entries.size
    · rw [Pool.item, Arena.entry, hlast, Array.getElem?_push_size, ← hsize,
        Array.getElem?_push_size]
      exact hitem
    · have hold : t.index < a.entries.size := by
        have : t.index < a.entries.size + 1 := by simpa [Arena.size] using ht
        omega
      rw [Pool.item, Arena.entry, Array.getElem?_push_lt hold,
        Array.getElem?_push_lt (hsize ▸ hold)]
      have hentry := (h.item t hold).append new
      rwa [Pool.item, Arena.entry, Array.getElem?_eq_getElem hold,
        Array.getElem?_eq_getElem (hsize ▸ hold)] at hentry

/-- The same node is stored in a pool and in an arena, or found in both. -/
theorem intern (h : p.Packs a) (hfits : n.Fits) (hparts : ∀ t ∈ n.children, t.index < a.size)
    (canonical : Option TypeId) (hsmall : (p.intern n canonical).2.Small) :
    Alike (p.intern n canonical) (a.intern n.normalise canonical) := by
  have hp : p.Small := (Within.intern p n canonical).small hsmall
  have hfind := h.find?_eq hp hfits hparts
  cases ha : a.find? n.normalise with
  | some t =>
    rw [ha] at hfind
    rw [intern_of_some hfind, Arena.intern_of_some ha]
    exact ⟨rfl, h⟩
  | none =>
    rw [ha] at hfind
    rw [intern_of_none hfind] at hsmall ⊢
    rw [Arena.intern_of_none ha]
    have hsize : typeAt p.size = ⟨a.size⟩ := by
      rw [Pool.size, typeAt_eq hp.1, h.size]
    -- what could be stored is short enough to be read back
    have hn := h.packable hp hfits hparts (length_lt_of_store hsmall.2)
    obtain ⟨new, hnew⟩ := store_eq p.rows n.payload
    have hstored := stored_store hsmall.2
    simp only [hnew] at hstored ⊢
    have hitem : ItemPacks (p.rows ++ new)
        ⟨n.kind, (store p.rows n.payload).1, p.flagsOf n, canonical.getD (typeAt p.size)⟩
        ⟨n.normalise, a.flagsOf n.normalise, canonical.getD ⟨a.size⟩⟩ :=
      { kind := n.kind_normalise.symm
        stored := by rwa [n.payload_normalise]
        flags := h.flagsOf_eq n
        canonical := by rw [hsize]
        packable := hn.normalised
        normal := n.normalise_normalise }
    refine ⟨hsize, ?_⟩
    rw [← n.key_normalise]
    exact h.push hitem

/-- Adding a node, desugared first if it is sugar, keeps a pool and its arena side by side. -/
theorem add (h : p.Packs a) (ha : a.Shared) (hfits : n.Fits)
    (hparts : ∀ t ∈ n.children, t.index < a.size) (hsmall : (p.add n).2.Small) :
    Alike (p.add n) (a.add n.normalise) := by
  unfold Pool.add Arena.add at *
  rw [TypeNode.desugared?_normalise, ← h.flagsOf_eq, ← h.canonical_eq]
  cases hsugar : n.desugared? with
  | some t =>
    rw [hsugar] at hsmall
    exact h.intern hfits hparts _ hsmall
  | none =>
    simp only [hsugar] at hsmall ⊢
    split at hsmall
    · rename_i hflags
      -- the variant without sugar is stored first, and the node after it
      have hvariant : Alike (p.intern (n.mapChildren p.canonical) none)
          (a.intern (n.normalise.mapChildren p.canonical) none) := by
        rw [← TypeNode.normalise_mapChildren]
        refine h.intern (hfits.mapChildren _) ?_ none ((Within.intern _ n _).small hsmall)
        rcases Arena.Shared.children_mapChildren p.canonical n with hchildren | hchildren
        · rw [hchildren, h.canonical_eq]
          intro t ht
          obtain ⟨u, hu, rfl⟩ := List.mem_map.1 ht
          exact ha.canonical_lt (hparts u hu)
        · rw [hchildren]
          exact hparts
      have hsize := (Arena.Extends.intern a (n.normalise.mapChildren p.canonical) none).size_le
      rw [if_pos hflags, if_pos hflags, ← hvariant.type]
      exact hvariant.packs.intern hfits (fun t ht => Nat.lt_of_lt_of_le (hparts t ht) hsize) _
        hsmall
    · rename_i hflags
      rw [if_neg hflags, if_neg hflags]
      exact h.intern hfits hparts none hsmall

/-- Building keeps a pool and an arena side by side. -/
theorem construct (h : p.Packs a) (ha : a.Shared) (hfits : n.Fits)
    (hparts : ∀ t ∈ n.children, t.index < a.size) (hsmall : (p.construct n).2.Small) :
    Alike (p.construct n) (a.construct n) := by
  by_cases hempty : n = .tuple []
  · subst hempty
    exact ⟨rfl, h⟩
  · by_cases hsingle : ∃ t, n = .tuple [⟨none, t⟩]
    · obtain ⟨t, rfl⟩ := hsingle
      exact ⟨rfl, h⟩
    · have hsingle : ∀ t, n ≠ .tuple [⟨none, t⟩] := fun t ht => hsingle ⟨t, ht⟩
      rw [construct_eq_add p hempty hsingle] at hsmall ⊢
      rw [Arena.construct_eq_add a hempty hsingle]
      exact h.add ha hfits hparts hsmall

end Packs

/-! ## Calls -/

/-- Calls whose numbers fit, each over types that are in the pool by then. -/
def Accepts (p : Pool) : List TypeNode → Prop
  | [] => True
  | n :: ns => n.Fits ∧ (∀ t ∈ n.children, t.index < p.size) ∧ (p.construct n).2.Accepts ns

/-- Whether a list of calls is accepted can be decided call by call. -/
instance decidableAccepts : (p : Pool) → (ns : List TypeNode) → Decidable (p.Accepts ns)
  | _, [] => .isTrue trivial
  | p, n :: ns =>
    have := decidableAccepts (p.construct n).2 ns
    inferInstanceAs (Decidable (_ ∧ _ ∧ _))

theorem run_append (p : Pool) (ns ms : List TypeNode) : p.run (ns ++ ms) = (p.run ns).run ms :=
  List.foldl_append

/-- Calls are accepted one part after the other, the second by the pool that the first leaves. -/
theorem accepts_append {p : Pool} {ns ms : List TypeNode} :
    p.Accepts (ns ++ ms) ↔ p.Accepts ns ∧ (p.run ns).Accepts ms := by
  induction ns generalizing p with
  | nil => simp [Accepts, run]
  | cons n ns ih =>
    simp only [List.cons_append, Accepts, ih, and_assoc]
    rfl

/-- Accepted calls keep a pool and an arena side by side. -/
theorem Packs.run {p : Pool} {a : Arena} (h : p.Packs a) (ha : a.Shared) {ns : List TypeNode}
    (hstart : 0 < a.size ∨ .tuple [] ∉ ns) (hns : p.Accepts ns) (hsmall : (p.run ns).Small) :
    (p.run ns).Packs (a.constructAll ns).2 ∧ (a.constructAll ns).2.Shared := by
  induction ns generalizing p a with
  | nil => exact ⟨h, ha⟩
  | cons n ns ih =>
    obtain ⟨hfits, hparts, hrest⟩ := hns
    rw [Pool.size, h.size] at hparts
    have hstep := h.construct ha hfits hparts ((Within.run _ ns).small hsmall)
    have hshared := ha.construct hparts
      (hstart.imp_right fun hnot => by rintro rfl; exact hnot (by simp))
    refine ih hstep.packs hshared.shared ?_ hrest hsmall
    rcases hstart with hpos | hnot
    · exact .inl (Nat.lt_of_lt_of_le hpos hshared.size_le)
    · exact .inr fun hmem => hnot (List.mem_cons_of_mem _ hmem)

theorem packs_initial : initial.Packs Arena.initial :=
  (Packs.empty.run Arena.Shared.empty (.inr (by decide)) (by decide +kernel)
    (by decide +kernel)).1

/-! ## Reading -/

/-- A type of the pool that a node has been packed for. -/
structure Holds (p : Pool) (t : TypeId) (n : TypeNode) : Prop where
  kind : p.kind t = n.kind
  stored : Stored p.rows (p.item t).data n.payload
  packable : n.Packable

namespace Holds

variable {p : Pool} {t : TypeId} {n : TypeNode}

/-- The row of a compound node is the words it was packed in. -/
theorem row?_eq_some (h : p.Holds t n) {kinds : List TypeKind} (hn : n.kind ∈ kinds)
    (hrow : n.kind.isCompound) : p.row? t kinds = some n.payload.words := by
  have hstored := h.stored
  rw [row?, h.kind, if_pos hn]
  cases n <;> first | exact hstored | cases hrow

theorem row?_eq_none (h : p.Holds t n) {kinds : List TypeKind} (hn : n.kind ∉ kinds) :
    p.row? t kinds = none := by
  rw [row?, h.kind, if_neg hn]

/-- The data word of a node of one word is that word. -/
theorem data?_eq_some (h : p.Holds t n) {kinds : List TypeKind} (hn : n.kind ∈ kinds) {w : UInt32}
    (hw : n.payload = .word w) : p.data? t kinds = some w := by
  have hstored := h.stored
  rw [hw] at hstored
  rw [data?, h.kind, if_pos hn, show (p.item t).data = w from hstored]

theorem data?_eq_none (h : p.Holds t n) {kinds : List TypeKind} (hn : n.kind ∉ kinds) :
    p.data? t kinds = none := by
  rw [data?, h.kind, if_neg hn]

/-! ### One fact for each reader -/

/-- The width is read as it was packed, for builtin numbers only. -/
theorem builtinWidth?_eq (h : p.Holds t n) : p.builtinWidth? t = n.normalise.builtinWidth? := by
  have hword : ∀ width ∈ n.numbers, (UInt32.ofNat width).toNat = width :=
    fun width hwidth => UInt32.toNat_ofNat_of_lt' (h.packable.number_lt hwidth)
  unfold builtinWidth?
  cases n with
  | builtinInt width | builtinFloat width =>
    rw [h.data?_eq_some (by simp [TypeNode.kind]) rfl, Option.map_some,
      hword width (by simp [TypeNode.numbers])]
    rfl
  | _ =>
    rw [h.data?_eq_none (by simp [TypeNode.kind])]
    rfl

/-- The declaration, parent and arguments are read as they were packed, for nominal types only. -/
theorem nominal?_eq (h : p.Holds t n) : p.nominal? t = n.normalise.nominal? := by
  unfold nominal?
  cases n with
  | nominal =>
    rw [h.row?_eq_some (by simp [TypeNode.kind]) rfl]
    exact h.packable.nominalOf?_nominal
  | boundGeneric =>
    rw [h.row?_eq_some (by simp [TypeNode.kind]) rfl]
    exact h.packable.nominalOf?_boundGeneric
  | _ =>
    rw [h.row?_eq_none (by simp [TypeNode.kind])]
    rfl

/-- The elements are read as they were packed, in normal form, for tuples only. -/
theorem tuple?_eq (h : p.Holds t n) : p.tuple? t = n.normalise.tuple? := by
  unfold tuple?
  rw [h.kind]
  cases n with
  | emptyTuple => rfl
  | tuple =>
    rw [if_neg (by simp [TypeNode.kind]), h.row?_eq_some (by simp [TypeNode.kind]) rfl,
      Option.map_some, h.packable.elementsOf_tuple]
    rfl
  | _ =>
    rw [if_neg (by simp [TypeNode.kind]), h.row?_eq_none (by simp [TypeNode.kind])]
    rfl

/-- A function is read as it was packed, with its parameters and attributes, for functions
only. -/
theorem function?_eq (h : p.Holds t n) : p.function? t = n.normalise.function? := by
  unfold function?
  cases n with
  | function =>
    rw [h.row?_eq_some (by simp [TypeNode.kind]) rfl]
    exact h.packable.functionOf?_function
  | _ =>
    rw [h.row?_eq_none (by simp [TypeNode.kind])]
    rfl

/-- A lowered function is read as it was packed, for lowered functions only. -/
theorem lowered?_eq (h : p.Holds t n) : p.lowered? t = n.normalise.lowered? := by
  unfold lowered?
  cases n with
  | lowered =>
    rw [h.row?_eq_some (by simp [TypeNode.kind]) rfl]
    exact h.packable.loweredOf?_lowered
  | _ =>
    rw [h.row?_eq_none (by simp [TypeNode.kind])]
    rfl

/-- The instance type is read as it was packed, for metatypes of both kinds only. -/
theorem instance?_eq (h : p.Holds t n) : p.instance? t = n.normalise.instance? := by
  have hpart : ∀ u ∈ n.children, TypeId.ofWord u.word = u :=
    fun u hu => TypeId.ofWord_word (h.packable.part_lt hu)
  unfold instance?
  cases n with
  | metatype u | existentialMetatype u =>
    rw [h.data?_eq_some (by simp [TypeNode.kind]) rfl, Option.map_some,
      hpart u (by simp [TypeNode.children])]
    rfl
  | _ =>
    rw [h.data?_eq_none (by simp [TypeNode.kind])]
    rfl

/-- A composition is read as it was packed, in normal form, for existential types only. -/
theorem existential?_eq (h : p.Holds t n) : p.existential? t = n.normalise.existential? := by
  unfold existential?
  cases n with
  | existential =>
    rw [h.row?_eq_some (by simp [TypeNode.kind]) rfl]
    exact h.packable.compositionOf?_existential
  | _ =>
    rw [h.row?_eq_none (by simp [TypeNode.kind])]
    rfl

/-- The key is read as it was packed, for generic parameters only. -/
theorem genericParam?_eq (h : p.Holds t n) : p.genericParam? t = n.normalise.genericParam? := by
  unfold genericParam?
  cases n with
  | genericParam key =>
    obtain ⟨hdepth, hindex⟩ := h.packable.fits.2 key rfl
    rw [h.data?_eq_some (by simp [TypeNode.kind]) rfl, Option.map_some,
      ParamKey.ofWord_word hdepth hindex]
    rfl
  | _ =>
    rw [h.data?_eq_none (by simp [TypeNode.kind])]
    rfl

/-- The base and the member are read as they were packed, for dependent members only. -/
theorem dependentMember?_eq (h : p.Holds t n) :
    p.dependentMember? t = n.normalise.dependentMember? := by
  unfold dependentMember?
  cases n with
  | dependentMember =>
    rw [h.row?_eq_some (by simp [TypeNode.kind]) rfl]
    exact h.packable.memberOf?_dependentMember
  | _ =>
    rw [h.row?_eq_none (by simp [TypeNode.kind])]
    rfl

/-- The declaration, number and arguments are read as they were packed, for opaque results
only. -/
theorem opaqueResult?_eq (h : p.Holds t n) : p.opaqueResult? t = n.normalise.opaqueResult? := by
  unfold opaqueResult?
  cases n with
  | opaqueResult =>
    rw [h.row?_eq_some (by simp [TypeNode.kind]) rfl]
    exact h.packable.opaqueResultOf?_opaqueResult
  | _ =>
    rw [h.row?_eq_none (by simp [TypeNode.kind])]
    rfl

/-- The alias and its type are read as they were packed, for aliases only. -/
theorem aliased?_eq (h : p.Holds t n) : p.aliased? t = n.normalise.aliased? := by
  unfold aliased?
  cases n with
  | aliased =>
    rw [h.row?_eq_some (by simp [TypeNode.kind]) rfl]
    exact h.packable.aliasOf?_aliased
  | _ =>
    rw [h.row?_eq_none (by simp [TypeNode.kind])]
    rfl

/-- What a sugared type stands for is read as it was packed, for sugar only. -/
theorem desugared?_eq (h : p.Holds t n) : p.desugared? t = n.normalise.desugared? := by
  unfold desugared?
  cases n with
  | aliased | paren | optionalSugar | arraySugar | dictionarySugar =>
    rw [h.row?_eq_some (by simp [TypeNode.kind]) rfl]
    exact h.packable.head?_sugar rfl
  | _ =>
    rw [h.row?_eq_none (by simp [TypeNode.kind])]
    rfl

/-- Every reader says what it says of the node in normal form, and those that are not about
the kind of the node say nothing. -/
theorem view_eq (h : p.Holds t n) : p.view t = n.normalise.view := by
  rw [view, TypeNode.view, h.kind, n.kind_normalise, h.builtinWidth?_eq, h.nominal?_eq,
    h.tuple?_eq, h.function?_eq, h.lowered?_eq, h.instance?_eq, h.existential?_eq,
    h.genericParam?_eq, h.dependentMember?_eq, h.opaqueResult?_eq, h.aliased?_eq,
    h.desugared?_eq]

end Holds

/-- The readers of the pool say what the node in the arena says. -/
theorem Packs.view {p : Pool} {a : Arena} (h : p.Packs a) {t : TypeId} (ht : t.index < a.size) :
    p.view t = (a.node t).view := by
  have hitem := h.item t ht
  have hholds : p.Holds t (a.node t) := ⟨hitem.kind, hitem.stored, hitem.packable⟩
  have hnormal : (a.node t).normalise = a.node t := hitem.normal
  rw [hholds.view_eq, hnormal]

end NameMangling.Pool
