/-
# A bound on nesting

How writing a phrase ends, and how deep phrases nest in it until it does, depends on the phrase,
on its scope, and on which nodes have numbers.  Numbers are never taken back.  So a phrase that
is met inside itself, in the same scope, has to find more nodes with numbers; with the same ones
it would nest less deep than itself.  Where only so many phrases are met and so many nodes
numbered, writing ends within a bound that is taken from the product of the two, or with no bound
at all.

Main definitions:
* `Progress.keys`, the nodes that have numbers;
* `Grammar.Needs`, how deep phrases nest until writing ends;
* `Catalogue`, the phrases that may be met and the nodes that may be numbered.

Main fact: `Catalogue.finishes_within`.
-/
import Mathlib.Data.Finset.Card
import Mathlib.Data.List.Perm.Subperm
import Mathlib.Data.List.ProdSigma
import NameMangling.Proofs.Endings
import NameMangling.Proofs.Nesting

namespace NameMangling

/-! ## The nodes that have numbers -/

namespace Progress

variable {s s' u : Progress} {key : NodeKey}

/-- The nodes that have numbers. -/
def keys (s : Progress) : Finset NodeKey := (s.nodes.toList.map (·.key)).toFinset

theorem mem_keys : key ∈ s.keys ↔ ∃ node ∈ s.nodes, node.key = key := by
  simp [keys]

/-- A node has a number exactly if it is among those that have one. -/
theorem number?_isSome : (s.number? key).isSome = true ↔ key ∈ s.keys := by
  rw [← not_iff_not, Bool.not_eq_true, Option.isSome_eq_false_iff, Option.isNone_iff_eq_none,
    number?_eq_none_iff, mem_keys]
  simp

/-- Completing a node adds it to those that have numbers. -/
@[simp]
theorem keys_complete (s : Progress) (key : NodeKey) (start : Nat) :
    (s.complete key start).keys = insert key s.keys := by
  ext k
  simp [mem_keys, or_comm, eq_comm]

/-- Nodes keep their numbers while more is written. -/
theorem Extends.keys_subset (h : s.Extends s') : s.keys ⊆ s'.keys := by
  intro k hk
  obtain ⟨node, hnode, rfl⟩ := mem_keys.mp hk
  have hmem := h.nodes.subset (Array.mem_toList_iff.mpr hnode)
  exact mem_keys.mpr ⟨node, Array.mem_toList_iff.mp hmem, rfl⟩

/-- Whether a node is written short depends on which nodes have numbers. -/
theorem shorthand?_isSome_congr (h : s.keys = u.keys) (w : Spelling) (key : NodeKey)
    (r : Option Referent) :
    (w.shorthand? s key r).isSome = (w.shorthand? u key r).isSome := by
  have hnumber : (s.number? key).isSome = (u.number? key).isSome := by
    rw [Bool.eq_iff_iff, number?_isSome, number?_isSome, h]
  unfold Spelling.shorthand?
  split
  · rfl
  · split
    · simp [hnumber]
    · rfl

/-- A node that is spelled out is spelled out wherever the same nodes have numbers. -/
theorem shorthand?_eq_none_of_keys {w : Spelling} {r : Option Referent} (h : s.keys = u.keys)
    (hnone : w.shorthand? s key r = none) : w.shorthand? u key r = none := by
  rw [← Option.not_isSome_iff_eq_none, ← shorthand?_isSome_congr h, hnone]
  exact Bool.false_ne_true

end Progress

/-! ## What writing needs -/

/-- Which phrases a piece unfolds depends on which nodes have numbers. -/
theorem Spelling.Unfolds.of_keys_eq {w : Spelling} {s u : Progress} {piece : Piece} {scope : Scope}
    {p : Phrase} (h : w.Unfolds s piece scope p) (hkeys : s.keys = u.keys) :
    w.Unfolds u piece scope p := by
  cases h with
  | phrase => exact .phrase
  | node noShorthand => exact .node (Progress.shorthand?_eq_none_of_keys hkeys noShorthand)

namespace Grammar

variable {g : Grammar} {w : Spelling} {n m : Nat} {ps : List Piece} {scope : Scope} {p : Phrase}
  {s s₁ s' u : Progress} {e : Option Refusal} {r : Refusal}

/-- Where the same nodes have numbers the same can be written. -/
theorem Writes.of_keys_eq (h : g.Writes w n ps s s') (hkeys : s.keys = u.keys) :
    ∃ u', g.Writes w n ps u u' ∧ s'.keys = u'.keys := by
  induction h generalizing u with
  | nil => exact ⟨u, .nil, hkeys⟩
  | token _ ih =>
    obtain ⟨u', hwrites, hkeys'⟩ := ih (u := u.emit _) hkeys
    exact ⟨u', .token hwrites, hkeys'⟩
  | phrase _ _ ihp ih =>
    obtain ⟨u₁, hinside, hkeys₁⟩ := ihp hkeys
    obtain ⟨u', hafter, hkeys'⟩ := ih hkeys₁
    exact ⟨u', .phrase hinside hafter, hkeys'⟩
  -- the tables may number a node differently; that it has a number is the same for both
  | @short _ _ key r _ _ _ _ hshort _ ih =>
    have hsome := Progress.shorthand?_isSome_congr hkeys w key r
    rw [hshort] at hsome
    obtain ⟨t, ht⟩ := Option.isSome_iff_exists.mp hsome.symm
    obtain ⟨u', hwrites, hkeys'⟩ := ih (u := u.emit t) hkeys
    exact ⟨u', .short ht hwrites, hkeys'⟩
  | @spelled _ _ key r _ _ _ _ hnone _ _ ihb ih =>
    obtain ⟨u₁, hinside, hkeys₁⟩ := ihb hkeys
    obtain ⟨u', hafter, hkeys'⟩ := ih (u := u₁.complete _ u.tokens.size)
      (by rw [Progress.keys_complete, Progress.keys_complete, hkeys₁])
    exact ⟨u', .spelled (Progress.shorthand?_eq_none_of_keys hkeys hnone) hinside hafter, hkeys'⟩

/-- Where the same nodes have numbers the same is refused. -/
theorem Refuses.of_keys_eq (h : g.Refuses w n ps s r) (hkeys : s.keys = u.keys) :
    g.Refuses w n ps u r := by
  induction h generalizing u with
  | fail front before =>
    obtain ⟨u₁, hwrites, -⟩ := before.of_keys_eq hkeys
    exact .fail front hwrites
  | inside front before unfolds _ ih =>
    obtain ⟨u₁, hwrites, hkeys₁⟩ := before.of_keys_eq hkeys
    exact .inside front hwrites (unfolds.of_keys_eq hkeys₁) (ih hkeys₁)

/-- Where the same nodes have numbers writing ends alike. -/
theorem Finishes.of_keys_eq (h : g.Finishes w n ps s e) (hkeys : s.keys = u.keys) :
    g.Finishes w n ps u e := by
  cases e with
  | none =>
    obtain ⟨s', hwrites⟩ := finishes_none.1 h
    obtain ⟨u', hwrites', -⟩ := hwrites.of_keys_eq hkeys
    exact finishes_none.2 ⟨u', hwrites'⟩
  | some r => exact finishes_some.2 ((finishes_some.1 h).of_keys_eq hkeys)

/-- Writing some pieces ends with so many nested phrases and not with fewer. -/
structure Needs (g : Grammar) (w : Spelling) (n : Nat) (ps : List Piece) (s : Progress) :
    Prop where
  finishes : ∃ e, g.Finishes w n ps s e
  least : ∀ m < n, ∀ e, ¬ g.Finishes w m ps s e

/-- Writing that ends within some bound needs it, or it ends with one less. -/
theorem Finishes.needs_or (h : g.Finishes w n ps s e) :
    g.Needs w n ps s ∨ ∃ m, n = m + 1 ∧ g.Finishes w m ps s e := by
  cases n with
  | zero => exact .inl ⟨⟨e, h⟩, nofun⟩
  | succ m =>
    by_cases hless : g.Finishes w m ps s e
    · exact .inr ⟨m, rfl, hless⟩
    · refine .inl ⟨⟨e, h⟩, fun k hk e' hfinishes => hless ?_⟩
      -- with a smaller bound it would end alike
      obtain rfl := (hfinishes.mono (Nat.le_of_lt hk)).unique h
      exact hfinishes.mono (Nat.le_of_lt_succ hk)

/-- Writing that succeeds within some bound needs it, or succeeds with one less. -/
theorem Writes.needs_or (h : g.Writes w n ps s s') :
    g.Needs w n ps s ∨ ∃ m, n = m + 1 ∧ g.Writes w m ps s s' := by
  rcases (finishes_none.2 ⟨s', h⟩).needs_or with hneeds | ⟨m, rfl, hless⟩
  · exact .inl hneeds
  · obtain ⟨s₁, hless⟩ := finishes_none.1 hless
    exact .inr ⟨m, rfl, hless.agree h ▸ hless⟩

/-- Writing that ends needs some bound. -/
theorem Finishes.exists_needs (h : g.Finishes w n ps s e) : ∃ m, m ≤ n ∧ g.Needs w m ps s := by
  induction n with
  | zero =>
    rcases h.needs_or with hneeds | ⟨m, hm, -⟩
    · exact ⟨0, Nat.le_refl _, hneeds⟩
    · cases hm
  | succ n ih =>
    rcases h.needs_or with hneeds | ⟨m, hm, hless⟩
    · exact ⟨n + 1, Nat.le_refl _, hneeds⟩
    · cases hm
      obtain ⟨m, hm, hneeds⟩ := ih hless
      exact ⟨m, Nat.le_succ_of_le hm, hneeds⟩

/-- What pieces need depends on which nodes have numbers. -/
theorem Needs.eq (h : g.Needs w n ps s) (h' : g.Needs w m ps u) (hkeys : s.keys = u.keys) :
    n = m := by
  obtain ⟨e, hs⟩ := h.finishes
  obtain ⟨e', hu⟩ := h'.finishes
  rcases Nat.lt_trichotomy n m with hlt | heq | hlt
  · exact absurd (hs.of_keys_eq hkeys) (h'.least n hlt e)
  · exact heq
  · exact absurd (hu.of_keys_eq hkeys.symm) (h.least m hlt e')

/-- A phrase that is on a list if there are phrases inside. -/
def Listed (g : Grammar) (phrases : List (Scope × Phrase)) (scope : Scope) (p : Phrase) : Prop :=
  ∀ w n s, g.Needs w (n + 1) (g.production scope p) s → (scope, p) ∈ phrases

end Grammar

/-! ## Catalogues -/

/-- The phrase that a piece unfolds is one of those it opens. -/
theorem Piece.Opens.of_unfolds {P : Scope → Phrase → Prop} {w : Spelling} {s : Progress}
    {piece : Piece} {scope : Scope} {p : Phrase} (h : piece.Opens P)
    (hunfolds : w.Unfolds s piece scope p) : P scope p := by
  cases hunfolds <;> exact h

/-- The phrases that may be met in their scopes where `P` holds of what is written, and the nodes
that may be numbered.  A phrase without phrases inside need not be listed, nor one in which all
phrases are. -/
structure Catalogue (g : Grammar) (P : Scope → Phrase → Prop) where
  phrases : List (Scope × Phrase)
  nodes : List NodeKey
  production : ∀ scope p, P scope p → Opens P (g.production scope p)
  listed : ∀ scope p, P scope p →
    g.Listed phrases scope p ∨ Opens (g.Listed phrases) (g.production scope p)
  mem_nodes : ∀ scope key, P scope (.body key) → key ∈ nodes

namespace Catalogue

variable {g : Grammar} {P : Scope → Phrase → Prop} (C : Catalogue g P) {w : Spelling} {n k : Nat}
  {ps qs : List Piece} {scope : Scope} {p : Phrase} {s s₁ s' : Progress} {e : Option Refusal}
  {r : Refusal}

/-- All nodes that have numbers are listed. -/
def Lists (s : Progress) : Prop := ∀ key ∈ s.keys, key ∈ C.nodes

/-- Writing some pieces meets a phrase that needs some bound. -/
structure Descends (w : Spelling) (n : Nat) (ps : List Piece) (s : Progress) (scope : Scope)
    (p : Phrase) (s₁ : Progress) : Prop where
  unfolds : ∃ piece ∈ ps, w.Unfolds s₁ piece scope p
  subset : s.keys ⊆ s₁.keys
  lists : C.Lists s₁
  needs : g.Needs w n (g.production scope p) s₁

variable {C}

/-- What is written of listed nodes numbers listed nodes. -/
theorem Lists.writes (hs : C.Lists s) (h : g.Writes w n ps s s') (hps : Opens P ps) :
    C.Lists s' := by
  induction h with
  | nil => exact hs
  | token _ ih => exact ih hs fun piece hpiece => hps piece (List.mem_cons_of_mem _ hpiece)
  | phrase _ _ ihp ih =>
    have hfirst := hps _ List.mem_cons_self
    exact ih (ihp hs (C.production _ _ hfirst))
      fun piece hpiece => hps piece (List.mem_cons_of_mem _ hpiece)
  | short _ _ ih => exact ih hs fun piece hpiece => hps piece (List.mem_cons_of_mem _ hpiece)
  | spelled _ _ _ ihb ih =>
    have hfirst := hps _ List.mem_cons_self
    refine ih (fun key hkey => ?_) fun piece hpiece => hps piece (List.mem_cons_of_mem _ hpiece)
    rw [Progress.keys_complete, Finset.mem_insert] at hkey
    rcases hkey with rfl | hkey
    · exact C.mem_nodes _ _ hfirst
    · exact ihb hs (C.production _ _ hfirst) key hkey

/-- What is met in a part of a row is met in the row. -/
theorem Descends.subset_row (h : C.Descends w n qs s' scope p s₁) (hrow : qs ⊆ ps)
    (hkeys : s.keys ⊆ s'.keys) : C.Descends w n ps s scope p s₁ where
  unfolds := by
    obtain ⟨piece, hpiece, hunfolds⟩ := h.unfolds
    exact ⟨piece, hrow hpiece, hunfolds⟩
  subset := hkeys.trans h.subset
  lists := h.lists
  needs := h.needs

/-- What can be written with one more nested phrase can be written without it, or it meets a
phrase that needs all the others. -/
theorem writes_or_descends (hs : C.Lists s) (hps : Opens P ps) (h : g.Writes w (n + 1) ps s s') :
    g.Writes w n ps s s' ∨ ∃ scope p s₁, C.Descends w n ps s scope p s₁ := by
  induction ps generalizing s with
  | nil =>
    cases h
    exact .inl .nil
  | cons first rest ih =>
    have hfirst := hps first List.mem_cons_self
    have hrest : Opens P rest := fun piece hpiece => hps piece (List.mem_cons_of_mem _ hpiece)
    -- what is met behind the first piece is met in the row
    have hbehind (s₂ : Progress) (hkeys : s.keys ⊆ s₂.keys)
        (h : ∃ scope p s₁, C.Descends w n rest s₂ scope p s₁) :
        ∃ scope p s₁, C.Descends w n (first :: rest) s scope p s₁ := by
      obtain ⟨scope, p, s₁, hdescends⟩ := h
      exact ⟨scope, p, s₁, hdescends.subset_row (List.subset_cons_self _ _) hkeys⟩
    cases h with
    | @token _ t _ _ _ after =>
      have hemit : C.Lists (s.emit t) := hs
      exact (ih hemit hrest after).imp .token (hbehind (s.emit t) (Finset.Subset.refl _))
    | @phrase _ scope p _ _ s₁ _ inside after =>
      rcases inside.needs_or with hneeds | ⟨m, rfl, hinside⟩
      · exact .inr ⟨scope, p, s, ⟨_, List.mem_cons_self, .phrase⟩, Finset.Subset.refl _, hs, hneeds⟩
      · exact (ih (hs.writes inside (C.production _ _ hfirst)) hrest after).imp
          (.phrase hinside) (hbehind s₁ inside.extends.keys_subset)
    | @short _ _ _ _ t _ _ _ hshort after =>
      have hemit : C.Lists (s.emit t) := hs
      exact (ih hemit hrest after).imp (.short hshort)
        (hbehind (s.emit t) (Finset.Subset.refl _))
    | @spelled _ scope key _ _ _ s₁ _ hnone inside after =>
      rcases inside.needs_or with hneeds | ⟨m, rfl, hinside⟩
      · exact .inr ⟨scope, .body key, s, ⟨_, List.mem_cons_self, .node hnone⟩,
          Finset.Subset.refl _, hs, hneeds⟩
      · have hnode : g.Writes w (m + 1 + 1) [.node scope key _] s _ := .spelled hnone inside .nil
        have hlists : C.Lists (s₁.complete key s.tokens.size) :=
          hs.writes hnode fun piece hpiece => by
            cases List.mem_singleton.mp hpiece
            exact hfirst
        exact (ih hlists hrest after).imp (.spelled hnone hinside)
          (hbehind _ hnode.extends.keys_subset)

/-- What is refused with one more nested phrase is refused without it, or it meets a phrase that
needs all the others. -/
theorem refuses_or_descends (hs : C.Lists s) (hps : Opens P ps) (h : g.Refuses w (n + 1) ps s r) :
    g.Refuses w n ps s r ∨ ∃ scope p s₁, C.Descends w n ps s scope p s₁ := by
  -- what stands in front of the refusal was written
  have hbefore {front rest : List Piece} {s₁ : Progress} (hps : Opens P (front ++ rest))
      (before : g.Writes w (n + 1) front s s₁) : C.Lists s₁ ∧
        (g.Writes w n front s s₁ ∨ ∃ scope p s₁, C.Descends w n (front ++ rest) s scope p s₁) := by
    have hfront : Opens P front := fun piece hpiece => hps piece (List.mem_append_left _ hpiece)
    refine ⟨hs.writes before hfront, (writes_or_descends hs hfront before).imp_right ?_⟩
    rintro ⟨scope, p, s₁, hdescends⟩
    exact ⟨scope, p, s₁, hdescends.subset_row (List.subset_append_left _ _) (Finset.Subset.refl _)⟩
  cases h with
  | fail front before => exact (hbefore hps before).2.imp_left (.fail front)
  | @inside _ piece scope p front rest _ s₁ _ before unfolds refuses =>
    obtain ⟨hs₁, hless | hdescends⟩ := hbefore hps before
    · rcases (Grammar.finishes_some.2 refuses).needs_or with hneeds | ⟨m, rfl, hinside⟩
      · have hpiece : piece ∈ front ++ piece :: rest := by simp
        exact .inr ⟨scope, p, s₁, ⟨piece, hpiece, unfolds⟩, before.extends.keys_subset, hs₁, hneeds⟩
      · exact .inl (.inside front hless unfolds (Grammar.finishes_some.1 hinside))
    · exact .inr hdescends

/-- Pieces that need a bound meet a phrase that needs one less. -/
theorem exists_descends (hs : C.Lists s) (hps : Opens P ps) (h : g.Needs w (n + 1) ps s) :
    ∃ scope p s₁, C.Descends w n ps s scope p s₁ := by
  obtain ⟨e, hfinishes⟩ := h.finishes
  have hless := h.least n n.lt_succ_self e
  cases e with
  | none =>
    obtain ⟨s', hwrites⟩ := Grammar.finishes_none.1 hfinishes
    exact (writes_or_descends hs hps hwrites).resolve_left
      fun hwrites => hless (Grammar.finishes_none.2 ⟨s', hwrites⟩)
  | some r =>
    exact (refuses_or_descends hs hps (Grammar.finishes_some.1 hfinishes)).resolve_left
      fun hrefuses => hless (Grammar.finishes_some.2 hrefuses)

theorem Descends.opens (h : C.Descends w n ps s scope p s₁) (hps : Opens P ps) : P scope p := by
  obtain ⟨piece, hpiece, hunfolds⟩ := h.unfolds
  exact (hps piece hpiece).of_unfolds hunfolds

/-- A phrase in its scope that is met on the way to the deepest one, and how many nodes have
numbers then. -/
structure Meets (C : Catalogue g P) (w : Spelling) (n : Nat) (s : Progress)
    (e : (Scope × Phrase) × Nat) : Prop where
  listed : e.1 ∈ C.phrases
  needs : ∃ m s₁, m ≤ n ∧ g.Needs w m (g.production e.1.1 e.1.2) s₁ ∧ s.keys ⊆ s₁.keys ∧
    C.Lists s₁ ∧ e.2 = s₁.keys.card

/-- What is met within a bound, after some nodes, is met within a greater one, after fewer of
them. -/
theorem Meets.mono {x : (Scope × Phrase) × Nat} (h : C.Meets w n s₁ x) (hle : n ≤ k)
    (hkeys : s.keys ⊆ s₁.keys) : C.Meets w k s x := by
  obtain ⟨m, s₂, hm, hneeds, hsubset, hs₂, hcard⟩ := h.needs
  exact ⟨h.listed, m, s₂, hm.trans hle, hneeds, hkeys.trans hsubset, hs₂, hcard⟩

/-- A listed phrase can be put in front of what is met inside without repetition. -/
theorem Descends.nodup_cons (h : C.Descends w (n + 1) ps s scope p s₁)
    (hlisted : g.Listed C.phrases scope p) {met : List ((Scope × Phrase) × Nat)}
    (hnodup : met.Nodup) (hmet : ∀ x ∈ met, C.Meets w n s₁ x) :
    (((scope, p), s₁.keys.card) :: met).Nodup ∧
      ∀ x ∈ ((scope, p), s₁.keys.card) :: met, C.Meets w (n + 1) s x := by
  refine ⟨List.nodup_cons.mpr ⟨fun hmem => ?_, hnodup⟩, fun x hx => ?_⟩
  · obtain ⟨m, s₂, hm, hneeds, hsubset, -, hcard⟩ := (hmet _ hmem).needs
    -- with as many numbers the same nodes have them, and the phrase needs as much
    have hkeys := Finset.eq_of_subset_of_card_le hsubset (Nat.le_of_eq hcard.symm)
    have heq := h.needs.eq hneeds hkeys
    omega
  · rcases List.mem_cons.mp hx with rfl | hx
    · exact ⟨hlisted w n s₁ h.needs, n + 1, s₁, Nat.le_refl _, h.needs, h.subset, h.lists, rfl⟩
    · exact (hmet x hx).mono (Nat.le_succ n) h.subset

/-- On the way to the deepest phrase nothing is met twice with as many numbers, and every other
phrase is listed. -/
theorem exists_nodup (hs : C.Lists s) (hps : Opens P ps) (h : g.Needs w (n + 1) ps s) :
    ∃ met : List ((Scope × Phrase) × Nat), n ≤ 2 * met.length + 1 ∧ met.Nodup ∧
      ∀ x ∈ met, C.Meets w n s x := by
  -- by strong induction, since a phrase that is not listed uses up two of the nested ones
  induction n using Nat.strongRecOn generalizing ps s with
  | _ n ih =>
    cases n with
    | zero => exact ⟨[], Nat.zero_le _, List.nodup_nil, nofun⟩
    | succ n =>
      obtain ⟨scope, p, s₁, hdescends⟩ := exists_descends hs hps h
      have hp := hdescends.opens hps
      rcases C.listed scope p hp with hlisted | hinside
      · obtain ⟨met, hlength, hnodup, hmet⟩ :=
          ih n n.lt_succ_self hdescends.lists (C.production scope p hp) hdescends.needs
        obtain ⟨hnodup, hmet⟩ := hdescends.nodup_cons hlisted hnodup hmet
        exact ⟨_, by simp only [List.length_cons]; omega, hnodup, hmet⟩
      · -- the phrase is not listed, but the next one is
        cases n with
        | zero => exact ⟨[], Nat.le_refl _, List.nodup_nil, nofun⟩
        | succ n =>
          have hproduction := C.production scope p hp
          obtain ⟨scope', p', s₂, hnext⟩ :=
            exists_descends hdescends.lists hproduction hdescends.needs
          obtain ⟨met, hlength, hnodup, hmet⟩ := ih n (by omega) hnext.lists
            (C.production scope' p' (hnext.opens hproduction)) hnext.needs
          obtain ⟨piece, hpiece, hunfolds⟩ := hnext.unfolds
          obtain ⟨hnodup, hmet⟩ :=
            hnext.nodup_cons ((hinside piece hpiece).of_unfolds hunfolds) hnodup hmet
          exact ⟨_, by simp only [List.length_cons]; omega, hnodup,
            fun x hx => (hmet x hx).mono (Nat.le_succ _) hdescends.subset⟩

/-- What pieces need is bounded by the phrases to meet and the nodes to number. -/
theorem needs_le (hs : C.Lists s) (hps : Opens P ps) (h : g.Needs w n ps s) :
    n ≤ 2 * (C.phrases.length * (C.nodes.length + 1)) + 2 := by
  cases n with
  | zero => exact Nat.zero_le _
  | succ n =>
    obtain ⟨met, hlength, hnodup, hmet⟩ := exists_nodup hs hps h
    have hsubset : met ⊆ C.phrases ×ˢ List.range (C.nodes.length + 1) := by
      intro x hx
      obtain ⟨hlisted, m, s₁, -, -, -, hs₁, hcard⟩ := hmet x hx
      have hkeys : s₁.keys ⊆ C.nodes.toFinset := fun key hkey =>
        List.mem_toFinset.mpr (hs₁ key hkey)
      have hle := (Finset.card_le_card hkeys).trans (List.toFinset_card_le C.nodes)
      exact List.mem_product.mpr ⟨hlisted, List.mem_range.mpr (by omega)⟩
    have hle := (List.subperm_of_subset hnodup hsubset).length_le
    rw [List.length_product, List.length_range] at hle
    omega

/-- Writing that ends with some bound ends alike with that of the catalogue. -/
theorem finishes_within (hs : C.Lists s) (hps : Opens P ps) (h : g.Finishes w n ps s e) :
    g.Finishes w (2 * (C.phrases.length * (C.nodes.length + 1)) + 2) ps s e := by
  obtain ⟨m, hm, hneeds⟩ := h.exists_needs
  obtain ⟨e', hfinishes⟩ := hneeds.finishes
  obtain rfl := (hfinishes.mono hm).unique h
  exact hfinishes.mono (needs_le hs hps hneeds)

end Catalogue

end NameMangling
