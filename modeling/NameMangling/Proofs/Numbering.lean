/-
# Numbers of nodes

A reader of a symbol numbers nodes in the order in which they are completed and looks up
references by these numbers.  It is right as long as no node is spelled twice.  A node is
spelled twice only when it is met again inside its own first spelling, before it has got a
number.  Where neither opaque result types nor conditional conformances nor elision make a
spelling depend on its scope this cannot happen: such a spelling would not end.

Main facts:
* `Grammar.Writes.sound`: what every progress satisfies;
* `Grammar.Writes.completesOnce`: in a uniform grammar every node is spelled once;
* `numbers_agree_iff`: nodes are numbered in order exactly where no node is nested in itself;
* `nested_node_misnumbered`: a symbol with such a node.
-/
import Mathlib.Logic.Relation
import NameMangling.Proofs.Writing

namespace NameMangling

namespace Progress

/-! ## Readers -/

/-- Every node has been spelled only once. -/
def CompletesOnce (s : Progress) : Prop := (s.nodes.toList.map (·.key)).Nodup

/-- The nodes have the numbers zero, one, two and so on in the order of completion. -/
def NumberedInOrder (s : Progress) : Prop :=
  ∀ (i : Nat) (node : CompletedNode), s.nodes[i]? = some node → node.number = i

/-- Some node has been spelled inside an earlier begun spelling of the same node. -/
def NestsInItself (s : Progress) : Prop :=
  ∃ (i j : Nat) (inner outer : CompletedNode), i < j ∧ s.nodes[i]? = some inner ∧
    s.nodes[j]? = some outer ∧ inner.key = outer.key ∧
    outer.start ≤ inner.start ∧ inner.stop ≤ outer.stop

/-- A reader that counts nodes in the order of completion finds the right node for every
reference: one that is complete where the reference stands, and the only one meant by the
number. -/
def ReaderAgrees (s : Progress) : Prop :=
  ∀ (j n : Nat), s.tokens[j]? = some (.backReference n) →
    ∃ node, s.nodes[n]? = some node ∧ node.stop ≤ j ∧
      ∀ key, s.number? key = some n ↔ key = node.key

/-! ## What every progress satisfies -/

/-- Later nodes end later, and a node spelled again began earlier. -/
def NodeOrder (a b : CompletedNode) : Prop :=
  a.stop ≤ b.stop ∧ (a.key = b.key → b.start ≤ a.start)

/-- What is true of every progress, whatever has been written. -/
structure Sound (s : Progress) : Prop where
  /-- A node keeps its number. -/
  number : ∀ node ∈ s.nodes, s.number? node.key = some node.number
  below : ∀ node ∈ s.nodes, node.number < s.numbered
  /-- Different nodes have different numbers. -/
  injective : ∀ k k' n, s.number? k = some n → s.number? k' = some n → k = k'
  /-- Nodes end before what is written next. -/
  stop_le : ∀ node ∈ s.nodes, node.stop ≤ s.tokens.size
  order : s.nodes.toList.Pairwise NodeOrder
  /-- References are to nodes that have been completed before. -/
  reference : ∀ (j n : Nat), s.tokens[j]? = some (.backReference n) →
    ∃ node ∈ s.nodes, node.number = n ∧ node.stop ≤ j
  /-- As long as no node is repeated, numbers count the nodes. -/
  counted : s.CompletesOnce → s.numbered = s.nodes.size ∧ s.NumberedInOrder

/-- No node is completed twice if no two places have one node. -/
theorem completesOnce_iff {s : Progress} : s.CompletesOnce ↔
    ∀ (i j : Nat) (a b : CompletedNode), i < j → s.nodes[i]? = some a → s.nodes[j]? = some b →
      a.key ≠ b.key := by
  unfold CompletesOnce List.Nodup
  rw [List.pairwise_map, List.pairwise_iff_getElem]
  constructor
  · intro h i j a b hij hi hj
    rw [← Array.getElem?_toList, List.getElem?_eq_some_iff] at hi hj
    obtain ⟨hilt, rfl⟩ := hi
    obtain ⟨hjlt, rfl⟩ := hj
    exact h i j hilt hjlt hij
  · intro h i j hi hj hij
    exact h i j _ _ hij (by simp) (by simp)

/-- Completing a node that has not been completed. -/
theorem CompletesOnce.complete {s : Progress} (hs : s.CompletesOnce) {key : NodeKey} {start : Nat}
    (hkey : ∀ node ∈ s.nodes, node.key ≠ key) : (s.complete key start).CompletesOnce := by
  unfold CompletesOnce at hs ⊢
  rw [complete_nodes, Array.toList_push, List.map_append, List.nodup_append]
  refine ⟨hs, by simp, ?_⟩
  intro k hk k' hk'
  obtain ⟨node, hmem, rfl⟩ := List.mem_map.1 hk
  rw [List.map_singleton, List.mem_singleton] at hk'
  rw [hk']
  exact hkey node (Array.mem_toList_iff.1 hmem)

/-- A number is that of a completed node, and a completed node has its number. -/
theorem number?_eq_some_iff_of_sound {s : Progress} (hs : s.Sound) {key : NodeKey} {n : Nat} :
    s.number? key = some n ↔ ∃ node ∈ s.nodes, node.key = key ∧ node.number = n := by
  constructor
  · exact mem_of_number?_eq_some
  · rintro ⟨node, hmem, rfl, rfl⟩
    exact hs.number node hmem

namespace Sound

/-- Before anything is written there is no number to be wrong. -/
theorem empty : Sound {} where
  number := by simp
  below := by simp
  injective := by simp [number?]
  stop_le := by simp
  order := .nil
  reference := by simp
  counted := by simp [NumberedInOrder]

/-- Writing a token that is no reference, or refers to a node that has been completed. -/
theorem emit {s : Progress} (hs : s.Sound) {t : Token}
    (ht : ∀ n, t = .backReference n → ∃ key, s.number? key = some n) : (s.emit t).Sound where
  number := hs.number
  below := hs.below
  injective := hs.injective
  stop_le node hmem := by
    have hstop := hs.stop_le node hmem
    simp only [emit_tokens, Array.size_push]
    omega
  order := hs.order
  reference j n hj := by
    rw [emit_tokens, Array.getElem?_push] at hj
    split at hj
    · rename_i hsize
      -- the token is the last one, and what it refers to was completed in front of it
      obtain ⟨key, hkey⟩ := ht n (Option.some.inj hj)
      obtain ⟨node, hmem, -, hnumber⟩ := (number?_eq_some_iff_of_sound hs).1 hkey
      exact ⟨node, hmem, hnumber, hsize ▸ hs.stop_le node hmem⟩
    · exact hs.reference j n hj
  counted := hs.counted

/-- A number that has been given belongs to a completed node, so it is below the next one. -/
theorem number?_lt {s : Progress} (hs : s.Sound) {key : NodeKey} {n : Nat}
    (h : s.number? key = some n) : n < s.numbered := by
  obtain ⟨node, hmem, -, rfl⟩ := (number?_eq_some_iff_of_sound hs).1 h
  exact hs.below node hmem

/-- A node that completes something new and keeps nodes distinct is the next in order. -/
theorem counted_complete {s : Progress} (hs : s.Sound) {key : NodeKey} {start : Nat}
    (h : (s.complete key start).CompletesOnce) :
    (s.complete key start).numbered = (s.complete key start).nodes.size ∧
      (s.complete key start).NumberedInOrder := by
  unfold CompletesOnce at h
  rw [complete_nodes, Array.toList_push, List.map_append, List.nodup_append] at h
  obtain ⟨hold, -, hnew⟩ := h
  -- a node that is completed for the first time has no number yet
  have hkey : s.number? key = none := by
    rw [number?_eq_none_iff]
    intro node hmem
    exact hnew _ (List.mem_map_of_mem (Array.mem_toList_iff.2 hmem)) key (by simp)
  obtain ⟨hcount, hinorder⟩ := hs.counted hold
  constructor
  · simp [complete_numbered, hkey, hcount]
  · intro i node hi
    rw [complete_nodes, Array.getElem?_push, hkey] at hi
    split at hi
    · cases hi
      simp_all
    · exact hinorder i node hi

/-- Completing a node, all earlier spellings of which lie in the new one. -/
theorem complete {s : Progress} (hs : s.Sound) {key : NodeKey} {start : Nat}
    (hstart : ∀ node ∈ s.nodes, node.key = key → start ≤ node.start) :
    (s.complete key start).Sound where
  number node hmem := by
    rw [complete_nodes, Array.mem_push] at hmem
    rw [number?_complete]
    rcases hmem with hmem | rfl
    · rw [hs.number node hmem, Option.some_or]
    · cases s.number? key <;> simp
  below node hmem := by
    rw [complete_nodes, Array.mem_push] at hmem
    rw [complete_numbered]
    rcases hmem with hmem | rfl
    · have hlt := hs.below node hmem
      split <;> omega
    · cases hkey : s.number? key with
      | some n => simpa using hs.number?_lt hkey
      | none => simp
  injective k k' n hk hk' := by
    rw [number?_complete] at hk hk'
    -- old numbers are less than the next one, so the new node shares none of them
    cases hold : s.number? k with
    | some a =>
      have ha := hs.number?_lt hold
      cases hold' : s.number? k' with
      | some a' =>
        rw [hold, Option.some_or] at hk
        rw [hold', Option.some_or] at hk'
        exact hs.injective k k' n (hold.trans hk) (hold'.trans hk')
      | none => simp_all
    | none =>
      cases hold' : s.number? k' with
      | some a' =>
        have ha' := hs.number?_lt hold'
        simp_all
      | none => simp_all
  stop_le node hmem := by
    rw [complete_nodes, Array.mem_push] at hmem
    rw [complete_tokens]
    rcases hmem with hmem | rfl
    · exact hs.stop_le node hmem
    · exact Nat.le_refl _
  order := by
    rw [complete_nodes, Array.toList_push, List.pairwise_append]
    refine ⟨hs.order, List.pairwise_singleton _ _, ?_⟩
    intro a ha b hb
    rw [List.mem_singleton] at hb
    subst hb
    rw [Array.mem_toList_iff] at ha
    exact ⟨hs.stop_le a ha, hstart a ha⟩
  reference j n hj := by
    rw [complete_tokens] at hj
    obtain ⟨node, hmem, hnode⟩ := hs.reference j n hj
    exact ⟨node, by rw [complete_nodes]; exact Array.mem_push_of_mem _ hmem, hnode⟩
  counted h := hs.counted_complete h

/-- Of two places in the list of completed nodes the later one ends no earlier. -/
theorem nodeOrder {s : Progress} (hs : s.Sound) {i j : Nat} {a b : CompletedNode} (hij : i < j)
    (hi : s.nodes[i]? = some a) (hj : s.nodes[j]? = some b) : NodeOrder a b := by
  rw [← Array.getElem?_toList, List.getElem?_eq_some_iff] at hi hj
  obtain ⟨hilt, rfl⟩ := hi
  obtain ⟨hjlt, rfl⟩ := hj
  exact List.pairwise_iff_getElem.1 hs.order i j hilt hjlt hij

/-- A repeated node is nested in itself. -/
theorem nestsInItself {s : Progress} (hs : s.Sound) (h : ¬ s.CompletesOnce) :
    s.NestsInItself := by
  rw [completesOnce_iff] at h
  push Not at h
  obtain ⟨i, j, inner, outer, hij, hi, hj, hkeys⟩ := h
  have horder := hs.nodeOrder hij hi hj
  exact ⟨i, j, inner, outer, hij, hi, hj, hkeys, horder.2 hkeys, horder.1⟩

/-- Counting completed nodes gives their numbers only where no node is repeated. -/
theorem completesOnce_iff_numberedInOrder {s : Progress} (hs : s.Sound) :
    s.CompletesOnce ↔ s.NumberedInOrder := by
  constructor
  · exact fun h => (hs.counted h).2
  · intro h
    rw [completesOnce_iff]
    intro i j a b hij hi hj hkeys
    have ha := hs.number a (Array.mem_of_getElem? hi)
    have hb := hs.number b (Array.mem_of_getElem? hj)
    rw [hkeys, hb, Option.some.injEq, h i a hi, h j b hj] at ha
    omega

/-- A reader that counts is right where no node is repeated. -/
theorem readerAgrees {s : Progress} (hs : s.Sound) (h : s.CompletesOnce) : s.ReaderAgrees := by
  intro j n hj
  obtain ⟨node, hmem, hnumber, hstop⟩ := hs.reference j n hj
  obtain ⟨i, hi⟩ := Array.mem_iff_getElem?.1 hmem
  have hin : node.number = i := (hs.counted h).2 i node hi
  refine ⟨node, by rw [← hnumber, hin]; exact hi, hstop, fun key => ?_⟩
  have hnode := hs.number node hmem
  rw [hnumber] at hnode
  constructor
  · exact fun hkey => hs.injective _ _ n hkey hnode
  · rintro rfl
    exact hnode

end Sound

end Progress

/-! ## What is written satisfies it -/

namespace Grammar

open Progress

variable {g : Grammar} {w : Spelling} {n : Nat} {ps : List Piece} {s s' : Progress}

/-- New nodes begin after what was there. -/
theorem Writes.start_le (h : g.Writes w n ps s s') :
    ∀ node ∈ s'.nodes, node ∈ s.nodes ∨ s.tokens.size ≤ node.start := by
  induction h with
  | nil => exact fun node hmem => .inl hmem
  | token _ ih =>
    intro node hmem
    rcases ih node hmem with h | h
    · exact .inl h
    · rw [emit_tokens, Array.size_push] at h
      exact .inr (by omega)
  | phrase inside _ ihp ih =>
    intro node hmem
    have hsize := inside.extends.tokens_size_le
    rcases ih node hmem with h | h
    · exact ihp node h
    · exact .inr (by omega)
  | short _ _ ih =>
    intro node hmem
    rcases ih node hmem with h | h
    · exact .inl h
    · rw [emit_tokens, Array.size_push] at h
      exact .inr (by omega)
  | spelled _ inside _ ihb ih =>
    intro node hmem
    have hsize := inside.extends.tokens_size_le
    rcases ih node hmem with h | h
    · rw [complete_nodes, Array.mem_push] at h
      rcases h with h | rfl
      · exact ihb node h
      · exact .inr (Nat.le_refl _)
    · rw [complete_tokens] at h
      exact .inr (by omega)

/-- Writing preserves what every progress satisfies. -/
theorem Writes.sound (hback : w.refersBack = true) (h : g.Writes w n ps s s')
    (hps : Alike g ps ps) (hs : s.Sound) : s'.Sound := by
  induction h with
  | nil => exact hs
  | @token _ t _ _ _ _ ih =>
    cases hps with | cons hfirst hrest =>
    cases hfirst with | token hdirect =>
    refine ih hrest (hs.emit ?_)
    rintro n rfl
    cases hdirect
  | phrase _ _ ihp ih =>
    cases hps with | cons _ hrest =>
    exact ih hrest (ihp (alike_production_self _) hs)
  | short shorthand _ ih =>
    cases hps with | cons _ hrest =>
    refine ih hrest (hs.emit ?_)
    rintro n rfl
    rcases Spelling.shorthand?_eq_some shorthand with ⟨r, -, -, h⟩ | ⟨-, k, hk, h⟩
    · cases h
    · cases h
      exact ⟨_, hk⟩
  | @spelled _ _ key _ _ s s₁ _ noShorthand inside _ ihb ih =>
    cases hps with | cons _ hrest =>
    refine ih hrest ((ihb (alike_production_self _) hs).complete ?_)
    -- the node had no number where it began, so all its spellings lie in this one
    intro node hmem hkey
    rcases inside.start_le node hmem with hold | hnew
    · have hnone := Spelling.number?_of_shorthand?_eq_none hback noShorthand
      exact absurd hkey (number?_eq_none_iff.1 hnone node hold)
    · exact hnew

/-! ## Uniform grammars -/

/-- What a piece asks to be unfolded, where it is not a placeholder. -/
def target? (w : Spelling) : Piece → Option Phrase
  | .phrase _ p => some p
  | .node _ key r => if r.filter w.placesReferent = none then some (.body key) else none
  | _ => none

/-- What a node asks to be unfolded is its body, unless its referent is placed. -/
theorem target?_node {scope : Scope} {key : NodeKey} {r : Option Referent} {q : Phrase} :
    target? w (.node scope key r) = some q ↔
      r.filter w.placesReferent = none ∧ q = .body key := by
  show (if _ then some (Phrase.body key) else none) = some q ↔ _
  rw [Option.ite_none_right_eq_some, Option.some.injEq, eq_comm (a := q)]

/-- A phrase occurs in a production of another one, in some scope. -/
def OccursIn (g : Grammar) (w : Spelling) (q p : Phrase) : Prop :=
  ∃ scope, ∃ x ∈ g.production scope p, target? w x = some q

/-- What occurs does not depend on the scope. -/
theorem target?_of_alike {ps ps' : List Piece} (h : Alike g ps ps') {q : Phrase}
    (hq : ∃ x ∈ ps, target? w x = some q) : ∃ x ∈ ps', target? w x = some q := by
  induction h with
  | nil => exact hq
  | @cons x y _ _ hfirst _ ih =>
    obtain ⟨z, hz, hzq⟩ := hq
    have hxy : target? w x = target? w y := by
      cases hfirst <;> rfl
    rcases List.mem_cons.1 hz with rfl | hz
    · exact ⟨y, by simp, by rw [← hxy, hzq]⟩
    · obtain ⟨z', hz', hzq'⟩ := ih ⟨z, hz, hzq⟩
      exact ⟨z', by simp [hz'], hzq'⟩

/-- Nothing is written where a production is refused. -/
theorem not_writes_fail {e : Refusal} : ¬ g.Writes w n [.fail e] s s' := by
  rintro ⟨⟩

/-- In a uniform grammar everything that occurs in a production has been unfolded once the
production is written in any scope. -/
theorem exists_target?_of_occursIn (hg : g.IsUniform) {scope : Scope} {p q : Phrase}
    (hp : p.Settled) (h : g.Writes w n (g.production scope p) s s') (hq : g.OccursIn w q p) :
    ∃ x ∈ g.production scope p, target? w x = some q := by
  obtain ⟨scope', hq⟩ := hq
  obtain halike | ⟨e, he⟩ | ⟨e, he⟩ :=
    alike_production (p := p) (.inr hg) (.inr hp)
  · exact target?_of_alike halike hq
  · rw [he] at hq
    obtain ⟨x, hx, hxq⟩ := hq
    rw [List.mem_singleton] at hx
    subst hx
    cases hxq
  · rw [he] at h
    exact absurd h not_writes_fail

/-- A phrase of a list that is alike to itself is settled in a uniform grammar. -/
theorem settled_of_alike (hg : g.IsUniform) {scope scope' : Scope} {p : Phrase}
    (h : (Piece.phrase scope p).Alike g (.phrase scope' p)) : p.Settled := by
  cases h with | phrase settled =>
  exact settled.resolve_right fun h => h.1 hg

/-- What has been written is well-founded: no phrase in it occurs below itself. -/
theorem Writes.acc (hg : g.IsUniform)
    (h : g.Writes w n ps s s') (hps : Alike g ps ps)
    (hs : ∀ node ∈ s.nodes, Acc (g.OccursIn w) (.body node.key)) :
    (∀ x ∈ ps, ∀ q, target? w x = some q → Acc (g.OccursIn w) q) ∧
      ∀ node ∈ s'.nodes, Acc (g.OccursIn w) (.body node.key) := by
  induction h with
  | nil => exact ⟨by simp, hs⟩
  | token _ ih =>
    cases hps with | cons _ hrest =>
    obtain ⟨hpieces, hnodes⟩ := ih hrest hs
    exact ⟨by simpa [target?] using hpieces, hnodes⟩
  | @phrase _ scope p _ _ _ _ inside _ ihp ih =>
    cases hps with | cons hfirst hrest =>
    obtain ⟨hinside, hs₁⟩ := ihp (alike_production_self _) hs
    obtain ⟨hpieces, hnodes⟩ := ih hrest hs₁
    -- what occurs in the phrase is what the pieces of its production are about
    have hp : Acc (g.OccursIn w) p := by
      refine .intro p fun q hq => ?_
      obtain ⟨x, hx, hxq⟩ :=
        exists_target?_of_occursIn hg (settled_of_alike hg hfirst) inside hq
      exact hinside x hx q hxq
    exact ⟨by simpa [target?, hp] using hpieces, hnodes⟩
  | @short _ _ key _ _ _ _ _ shorthand _ ih =>
    cases hps with | cons _ hrest =>
    obtain ⟨hpieces, hnodes⟩ := ih hrest hs
    refine ⟨?_, hnodes⟩
    intro x hx q hq
    rcases List.mem_cons.1 hx with rfl | hx
    -- a node written short becomes a placeholder, or has been completed before
    · rcases Spelling.shorthand?_eq_some shorthand with ⟨r, rfl, hplaces, -⟩ | ⟨-, k, hk, -⟩
      · simp [target?, Option.filter, hplaces] at hq
      · obtain ⟨node, hmem, rfl, -⟩ := mem_of_number?_eq_some hk
        obtain ⟨-, rfl⟩ := target?_node.1 hq
        exact hs node hmem
    · exact hpieces x hx q hq
  | @spelled _ scope key _ _ s s₁ _ noShorthand inside _ ihb ih =>
    cases hps with | cons _ hrest =>
    obtain ⟨hinside, hs₁⟩ := ihb (alike_production_self _) hs
    have hbody : Acc (g.OccursIn w) (.body key) := by
      refine .intro _ fun q hq => ?_
      obtain ⟨x, hx, hxq⟩ := exists_target?_of_occursIn hg (p := .body key) trivial inside hq
      exact hinside x hx q hxq
    have hcomplete : ∀ node ∈ (s₁.complete key s.tokens.size).nodes,
        Acc (g.OccursIn w) (.body node.key) := by
      intro node hmem
      rw [complete_nodes, Array.mem_push] at hmem
      rcases hmem with hmem | rfl
      · exact hs₁ node hmem
      · exact hbody
    obtain ⟨hpieces, hnodes⟩ := ih hrest hcomplete
    refine ⟨?_, hnodes⟩
    intro x hx q hq
    rcases List.mem_cons.1 hx with rfl | hx
    · obtain ⟨-, rfl⟩ := target?_node.1 hq
      exact hbody
    · exact hpieces x hx q hq

/-- A node that is completed while some pieces are written occurs below them. -/
theorem Writes.occurs (h : g.Writes w n ps s s') :
    ∀ node ∈ s'.nodes, node ∈ s.nodes ∨ ∃ x ∈ ps, ∃ q, target? w x = some q ∧
      Relation.ReflTransGen (g.OccursIn w) (.body node.key) q := by
  induction h with
  | nil => exact fun node hmem => .inl hmem
  | token _ ih =>
    intro node hmem
    rcases ih node hmem with h | ⟨x, hx, h⟩
    · exact .inl h
    · exact .inr ⟨x, by simp [hx], h⟩
  | @phrase _ scope p _ _ _ _ _ _ ihp ih =>
    intro node hmem
    rcases ih node hmem with h | ⟨x, hx, h⟩
    · rcases ihp node h with h | ⟨x, hx, q, hq, h⟩
      · exact .inl h
      · exact .inr ⟨.phrase scope p, by simp, p, rfl, h.tail ⟨scope, x, hx, hq⟩⟩
    · exact .inr ⟨x, by simp [hx], h⟩
  | short _ _ ih =>
    intro node hmem
    rcases ih node hmem with h | ⟨x, hx, h⟩
    · exact .inl h
    · exact .inr ⟨x, by simp [hx], h⟩
  | @spelled _ scope key r _ _ _ _ noShorthand _ _ ihb ih =>
    have hkey : target? w (.node scope key r) = some (.body key) :=
      target?_node.2 ⟨Spelling.filter_of_shorthand?_eq_none noShorthand, rfl⟩
    intro node hmem
    rcases ih node hmem with h | ⟨x, hx, h⟩
    · rw [complete_nodes, Array.mem_push] at h
      -- the completed node is the piece itself; what was completed in its body lies below it
      rcases h with h | rfl
      · rcases ihb node h with h | ⟨x, hx, q, hq, h⟩
        · exact .inl h
        · exact .inr ⟨.node scope key r, by simp, .body key, hkey, h.tail ⟨scope, x, hx, hq⟩⟩
      · exact .inr ⟨.node scope key r, by simp, .body key, hkey, .refl⟩
    · exact .inr ⟨x, by simp [hx], h⟩

/-- What is well-founded does not occur below itself. -/
theorem not_transGen_self_of_acc {α : Type} {r : α → α → Prop} {a : α} (h : Acc r a) :
    ¬ Relation.TransGen r a a := by
  induction h.transGen with
  | intro a _ ih => exact fun haa => ih a haa (h.inv_of_transGen haa) haa

/-- In a uniform grammar no node is repeated. -/
theorem Writes.completesOnce (hg : g.IsUniform) (hback : w.refersBack = true)
    (h : g.Writes w n ps s s') (hps : Alike g ps ps)
    (hacc : ∀ node ∈ s.nodes, Acc (g.OccursIn w) (.body node.key)) (hs : s.CompletesOnce) :
    s'.CompletesOnce := by
  induction h with
  | nil => exact hs
  | token _ ih =>
    cases hps with | cons _ hrest =>
    exact ih hrest hacc hs
  | phrase inside _ ihp ih =>
    cases hps with | cons _ hrest =>
    have hacc' := (inside.acc hg (alike_production_self _) hacc).2
    exact ih hrest hacc' (ihp (alike_production_self _) hacc hs)
  | short _ _ ih =>
    cases hps with | cons _ hrest =>
    exact ih hrest hacc hs
  | @spelled _ scope key r rest s s₁ _ noShorthand inside after ihb ih =>
    cases hps with | cons hfirst hrest =>
    have hself : Alike g (g.production scope (.body key)) (g.production scope (.body key)) :=
      alike_production_self _
    -- the node as a list of its own, which is well-founded once it is written
    have halone : g.Writes w _ [.node scope key r] s (s₁.complete key s.tokens.size) :=
      .spelled noShorthand inside .nil
    obtain ⟨hpieces, hacc'⟩ := halone.acc hg (.cons hfirst .nil) hacc
    have hkey : target? w (.node scope key r) = some (.body key) :=
      target?_node.2 ⟨Spelling.filter_of_shorthand?_eq_none noShorthand, rfl⟩
    have hbody := hpieces _ (by simp) _ hkey
    refine ih hrest hacc' ((ihb hself hacc hs).complete ?_)
    intro node hmem heq
    rcases inside.occurs node hmem with hold | ⟨x, hx, q, hq, h⟩
    · have hnone := Spelling.number?_of_shorthand?_eq_none hback noShorthand
      exact number?_eq_none_iff.1 hnone node hold heq
    · rw [heq] at h
      exact not_transGen_self_of_acc hbody (.tail' h ⟨scope, x, hx, hq⟩)

end Grammar

/-! ## Symbols -/

namespace Mangler

/-- What is written for a request is sound. -/
theorem sound_of_written? {m : Mangler} {r : Request} {s : Progress}
    (h : m.written? r = some s) : s.Sound := by
  obtain ⟨plan, hplan, hwrites⟩ := written?_eq_some.1 h
  exact hwrites.sound rfl (alike_plan hplan _) .empty

/-- A uniform mangler spells no node twice. -/
theorem IsUniform.completesOnce {m : Mangler} (hm : m.IsUniform) {r : Request} {s : Progress}
    (h : m.written? r = some s) : s.CompletesOnce := by
  obtain ⟨plan, hplan, hwrites⟩ := written?_eq_some.1 h
  exact hwrites.completesOnce (hm.grammar _) rfl (alike_plan hplan _) (by simp)
    (by simp [Progress.CompletesOnce])

/-- Counting completed nodes in order gives the numbers in a symbol exactly where no node
is nested in itself, and then a reader that counts finds what is referred to.  Symbols of a
uniform mangler are of this kind. -/
theorem numbers_agree_iff (m : Mangler) (r : Request) (text : String)
    (h : m.mangle r = .ok text) :
    ∃ s, m.written? r = some s ∧ (s.CompletesOnce ↔ ¬ s.NestsInItself) ∧
      (s.CompletesOnce ↔ s.NumberedInOrder) ∧ (s.CompletesOnce → s.ReaderAgrees) ∧
      (m.IsUniform → s.CompletesOnce) := by
  obtain ⟨_, s, _, hs, _⟩ := mangle_eq_ok.1 h
  have hsound := sound_of_written? hs
  refine ⟨s, hs, ⟨?_, ?_⟩, hsound.completesOnce_iff_numberedInOrder, hsound.readerAgrees,
    fun hm => hm.completesOnce hs⟩
  · rintro honce ⟨i, j, inner, outer, hij, hi, hj, hkeys, -, -⟩
    exact Progress.completesOnce_iff.1 honce i j inner outer hij hi hj hkeys
  · exact fun hnest => not_not.1 fun honce => hnest (hsound.nestsInItself honce)

/-- A module `M` with a struct `S`, a class `C` and the tuple `((C, S.Type), S.Type, (C, S.Type),
S)`. -/
def repeatingProgram : Program :=
  let p := Program.empty
  let (module, p) := p.addNamed .nativeModule "M" none
  let (struct, p) := p.addNamed .structType "S" (some (.decl module))
  let (reference, p) := p.addNamed .classType "C" (some (.decl module))
  let (value, p) := p.addType (.nominal struct none)
  let (object, p) := p.addType (.nominal reference none)
  let (metatype, p) := p.addType (.metatype value)
  let (pair, p) := p.addType (.tuple [⟨none, object⟩, ⟨none, metatype⟩])
  (p.addType (.tuple [⟨none, pair⟩, ⟨none, metatype⟩, ⟨none, pair⟩, ⟨none, value⟩])).2

/-- Six nodes are completed in the symbol of that tuple, three of them within others, and a reader
that counts finds the four that are referred to. -/
theorem numbers_agree_tuple :
    let m : Mangler := { program := repeatingProgram, options := { elidesProtocols := false } }
    m.mangle (.typeForTypeName ⟨16⟩) = .ok "1M1CC_Aa1SVmt_AdAeAct" ∧ m.IsUniform ∧
      ∃ s, m.written? (.typeForTypeName ⟨16⟩) = some s ∧
        s.nodes.toList.map (·.key) =
          [.decl ⟨0⟩, .decl ⟨2⟩, .decl ⟨1⟩, .type ⟨14⟩, .type ⟨15⟩, .type ⟨16⟩] ∧
        (∀ n ∈ [0, 3, 4, 2], .backReference n ∈ s.tokens.toList) ∧
        s.CompletesOnce ∧ ¬ s.NestsInItself ∧ s.NumberedInOrder ∧ s.ReaderAgrees := by
  intro m
  have h : m.mangle (.typeForTypeName ⟨16⟩) = .ok "1M1CC_Aa1SVmt_AdAeAct" := by decide +kernel
  have hm : m.IsUniform :=
    { noOpaque := fun
        | ⟨0⟩, _ => nofun
        | ⟨1⟩, _ => nofun
        | ⟨2⟩, _ => nofun
        | ⟨_ + 3⟩, _ => nofun
      noElision := rfl
      unconditional := fun c root h => by cases h; rfl }
  have hrun : (m.written? (.typeForTypeName ⟨16⟩)).map (fun s =>
      (s.nodes.toList.map (·.key), s.tokens.toList.filter fun t => t matches .backReference _)) =
      some ([.decl ⟨0⟩, .decl ⟨2⟩, .decl ⟨1⟩, .type ⟨14⟩, .type ⟨15⟩, .type ⟨16⟩],
        [.backReference 0, .backReference 3, .backReference 4, .backReference 2]) := by
    decide +kernel
  obtain ⟨s, hs, hread⟩ := Option.map_eq_some_iff.1 hrun
  obtain ⟨hkeys, hreferences⟩ := Prod.mk.inj hread
  obtain ⟨s', hs', hnests, hordered, hreader, huniform⟩ := numbers_agree_iff m _ _ h
  obtain rfl : s = s' := Option.some.inj (hs.symm.trans hs')
  have honce := huniform hm
  refine ⟨h, hm, s, hs, hkeys, fun n hn => ?_, honce, hnests.1 honce, hordered.1 honce,
    hreader honce⟩
  have hmem : .backReference n ∈ s.tokens.toList.filter fun t => t matches .backReference _ := by
    rw [hreferences]
    simpa using hn
  exact (List.mem_filter.1 hmem).1

end Mangler

/-! ## A node nested in itself -/

/-- A function whose result is a tuple of its own opaque result type and another type. -/
def ownResultProgram : Program :=
  let p := Program.empty
  let (module, p) := p.addNamed .nativeModule "M" none
  let (function, p) := p.addNamed .func "f" (some (.decl module))
  let (result, p) := p.addDecl { kind := .opaqueResult function, parent := some (.decl module) }
  let (hidden, p) := p.addType (.opaqueResult result 0 [])
  let (pair, p) := p.addType (.tuple [⟨none, hidden⟩, ⟨none, ⟨1⟩⟩])
  let (type, p) := p.addType (.function { params := [], result := pair })
  let p := p.updateDecl function ({ · with interfaceType := some type })
  let (metatype, p) := p.addType (.metatype ⟨1⟩)
  (p.addType (.tuple [⟨none, pair⟩, ⟨none, metatype⟩, ⟨none, metatype⟩])).2

/-- In the symbol of a tuple of such a result and two equal metatypes the result is met
inside itself, in the type of the function its opaque part belongs to, so that it is the
second and the fifth node to be completed.  The second metatype refers back to number 4,
which a reader has given to the result. -/
theorem nested_node_misnumbered :
    let m : Mangler := ⟨ownResultProgram, {}, fun _ => true⟩
    m.mangle (.typeWithoutLead ⟨16⟩) = .ok "1M1fQr_Bi8_tycFQOyQo__Bi8_t_Bi8_mAet" ∧
      ∃ s, m.written? (.typeWithoutLead ⟨16⟩) = some s ∧ ¬ s.CompletesOnce ∧
        ¬ s.NumberedInOrder ∧ ¬ s.ReaderAgrees := by
  intro m
  have htext : m.mangle (.typeWithoutLead ⟨16⟩) =
    .ok "1M1fQr_Bi8_tycFQOyQo__Bi8_t_Bi8_mAet" := by decide +kernel
  have hrun : (m.written? (.typeWithoutLead ⟨16⟩)).map (fun s =>
      (s.nodes.toList.map (·.key), s.tokens[22]?, s.number? (.type ⟨15⟩))) =
      some ([.decl ⟨0⟩, .type ⟨13⟩, .decl ⟨2⟩, .type ⟨12⟩, .type ⟨13⟩, .type ⟨15⟩,
        .type ⟨16⟩], some (.backReference 4), some 4) := by decide +kernel
  obtain ⟨s, hs, hread⟩ := Option.map_eq_some_iff.1 hrun
  simp only [Prod.mk.injEq] at hread
  obtain ⟨hkeys, htoken, hnumber⟩ := hread
  have hrepeated : ¬ s.CompletesOnce := by
    unfold Progress.CompletesOnce
    rw [hkeys]
    decide
  refine ⟨htext, s, hs, hrepeated, ?_, ?_⟩
  · rwa [← (Mangler.sound_of_written? hs).completesOnce_iff_numberedInOrder]
  · intro hagrees
    obtain ⟨node, hnode, -, hmeant⟩ := hagrees 22 4 htoken
    have hmetatype := (hmeant (.type ⟨15⟩)).1 hnumber
    -- a reader counts what has been completed, so that number 4 is the result for it
    have htuple : (s.nodes.toList.map (·.key))[4]? = some node.key := by
      simp [hnode]
    rw [hkeys, ← hmetatype] at htuple
    cases htuple

end NameMangling
