/-
# How writing ends

Some pieces are written to the end, or one of them is refused; otherwise the bound on nesting
has been met.  A refusal is a relation as well: the pieces in front are written, and the next one
is a refusal, or what it unfolds is refused.  So how writing ends does not depend on the bound,
unless the bound is met.

Main definitions:
* `Grammar.Finishes`, how writing some pieces comes to an end;
* `Spelling.Unfolds`, the phrase that a piece is written by unfolding;
* `Grammar.Refuses`, the rules for a refusal.

Main facts:
* `finishes_some`: pieces are refused exactly by the rules;
* `Finishes.mono`: what ends within some bound ends alike within any greater one;
* `exists_finishes_iff`: what does not end has met the bound.
-/
import NameMangling.Proofs.Implementing
import NameMangling.Proofs.Reading

namespace NameMangling

/-- A piece is written by unfolding a phrase where so much has been written: it is that phrase, or
a node that is not written short. -/
inductive Spelling.Unfolds (w : Spelling) (s : Progress) : Piece → Scope → Phrase → Prop
  | phrase {scope : Scope} {p : Phrase} : Unfolds w s (.phrase scope p) scope p
  | node {scope : Scope} {key : NodeKey} {ref : Option Referent}
      (noShorthand : w.shorthand? s key ref = none) :
      Unfolds w s (.node scope key ref) scope (.body key)

namespace Grammar

/-! ## Endings -/

variable {g : Grammar} {w : Spelling} {n k : Nat} {scope : Scope} {ps qs : List Piece}
  {s s' s₁ : Progress} {e e' : Option Refusal} {r : Refusal}

/-- Writing some pieces ends with a refusal, or else without any failure. -/
def Finishes (g : Grammar) (w : Spelling) (n : Nat) (ps : List Piece) (s : Progress) :
    Option Refusal → Prop
  | none => ∃ s', w.pieces (g.spell w n) ps s = .ok () s'
  | some e => ∃ s', w.pieces (g.spell w n) ps s = .error (.refused e) s'

theorem finishes_none : g.Finishes w n ps s none ↔ ∃ s', g.Writes w n ps s s' :=
  exists_congr fun _ => pieces_ok_iff

/-- Pieces in a row are written one after the other, until one is refused. -/
theorem spell_append (w : Spelling) (n : Nat) (ps qs : List Piece) (s : Progress) :
    w.pieces (g.spell w n) (ps ++ qs) s =
      match w.pieces (g.spell w n) ps s with
      | .ok _ s₁ => w.pieces (g.spell w n) qs s₁
      | .error r s₁ => .error r s₁ := by
  rw [Encoder.pieces_append]
  simp only [bind, EStateM.bind]
  cases w.pieces (g.spell w n) ps s <;> rfl

namespace Finishes

theorem fail (r : Refusal) : g.Finishes w n [.fail r] s (some r) := ⟨s, rfl⟩

/-- A refusal ends the row. -/
theorem stop {r : Refusal} (h : g.Finishes w n ps s (some r)) (qs : List Piece) :
    g.Finishes w n (ps ++ qs) s (some r) := by
  obtain ⟨s₁, h⟩ := h
  exact ⟨s₁, by rw [spell_append, h]⟩

/-- Pieces behind some that have been written end the row. -/
theorem behind (h : g.Writes w n ps s s₁) (h' : g.Finishes w n qs s₁ e) :
    g.Finishes w n (ps ++ qs) s e := by
  have hrow := spell_append (g := g) w n ps qs s
  rw [pieces_ok_iff.2 h] at hrow
  cases e with
  | none => exact h'.imp fun _ h' => hrow.trans h'
  | some r => exact h'.imp fun _ h' => hrow.trans h'

/-- Pieces behind some that can be written end the row. -/
theorem andThen (h : g.Finishes w n ps s none) (h' : ∀ s, g.Finishes w n qs s e) :
    g.Finishes w n (ps ++ qs) s e := by
  obtain ⟨s₁, h⟩ := finishes_none.1 h
  exact behind h (h' s₁)

/-- Pieces in a row end with the first refusal. -/
theorem append (h : g.Finishes w n ps s e) (h' : ∀ s, g.Finishes w n qs s e') :
    g.Finishes w n (ps ++ qs) s (e.or e') := by
  cases e with
  | none => exact h.andThen h'
  | some r => exact h.stop qs

/-- A phrase ends as its production does, one level deeper. -/
theorem phrase {p : Phrase} (h : g.Finishes w n (g.production scope p) s e) :
    g.Finishes w (n + 1) [.phrase scope p] s e := by
  have hpiece : w.pieces (g.spell w (n + 1)) [.phrase scope p] s =
      w.pieces (g.spell w n) (g.production scope p) s := by
    rw [Encoder.pieces_singleton]
    rfl
  cases e <;> exact h.imp fun _ h => hpiece.trans h

/-- A node that is not written short ends as its spelling does. -/
theorem spelled {key : NodeKey} {r : Option Referent} (hnone : w.shorthand? s key r = none)
    (h : g.Finishes w n (g.production scope (.body key)) s e) :
    g.Finishes w (n + 1) [.node scope key r] s e := by
  have hpiece : w.pieces (g.spell w (n + 1)) [.node scope key r] s =
      match w.pieces (g.spell w n) (g.production scope (.body key)) s with
      | .ok _ s' => .ok () (s'.complete key s.tokens.size)
      | .error r s' => .error r s' := by
    rw [Encoder.pieces_singleton]
    refine (Encoder.Implements.run_piece_node ..).trans ?_
    rw [hnone]
    rfl
  cases e <;>
  · obtain ⟨s', h⟩ := h
    rw [h] at hpiece
    exact ⟨_, hpiece⟩

/-- A node can be written wherever its spelling can. -/
theorem node {key : NodeKey} (r : Option Referent)
    (h : g.Finishes w n (g.production scope (.body key)) s none) :
    g.Finishes w (n + 1) [.node scope key r] s none := by
  cases hshort : w.shorthand? s key r with
  | none => exact h.spelled hshort
  | some t => exact finishes_none.2 ⟨_, .short hshort .nil⟩

/-- Writing ends in one way. -/
theorem unique (h : g.Finishes w n ps s e) (h' : g.Finishes w n ps s e') : e = e' := by
  cases e with
  | none =>
    obtain ⟨_, h⟩ := h
    cases e' with
    | none => rfl
    | some r =>
      obtain ⟨_, h'⟩ := h'
      rw [h] at h'
      cases h'
  | some r =>
    obtain ⟨_, h⟩ := h
    cases e' <;>
    · obtain ⟨_, h'⟩ := h'
      rw [h] at h'
      cases h' <;> rfl

end Finishes

/-- What does not end has met the bound on nesting. -/
theorem exists_finishes_iff : (∃ e, g.Finishes w n ps s e) ↔
    ∀ s', w.pieces (g.spell w n) ps s ≠ .error .tooDeep s' := by
  cases hrun : w.pieces (g.spell w n) ps s with
  | ok _ s₁ => simpa using ⟨none, s₁, hrun⟩
  | error failure s₁ =>
    cases failure with
    | refused r => simpa using ⟨some r, s₁, hrun⟩
    | tooDeep =>
      refine iff_of_false ?_ fun h => h s₁ rfl
      rintro ⟨e, h⟩
      cases e <;>
      · obtain ⟨_, h⟩ := h
        rw [hrun] at h
        cases h

/-! ## Refusals -/

/-- Writing some pieces, where at most so many phrases may be nested, comes to a refusal. -/
inductive Refuses (g : Grammar) (w : Spelling) : Nat → List Piece → Progress → Refusal → Prop
  | fail {n : Nat} (front : List Piece) {rest : List Piece} {s s₁ : Progress} {r : Refusal}
      (before : g.Writes w n front s s₁) : Refuses g w n (front ++ .fail r :: rest) s r
  | inside {n : Nat} {piece : Piece} {scope : Scope} {p : Phrase} (front : List Piece)
      {rest : List Piece} {s s₁ : Progress} {r : Refusal}
      (before : g.Writes w (n + 1) front s s₁) (unfolds : w.Unfolds s₁ piece scope p)
      (refuses : Refuses g w n (g.production scope p) s₁ r) :
      Refuses g w (n + 1) (front ++ piece :: rest) s r

/-- Pieces that are refused are refused behind others that can be written. -/
theorem Refuses.behind (h : g.Writes w n ps s s₁) (h' : g.Refuses w n qs s₁ r) :
    g.Refuses w n (ps ++ qs) s r := by
  cases h' with
  | fail front before =>
    rw [← List.append_assoc]
    exact .fail _ (writes_append.2 ⟨s₁, h, before⟩)
  | inside front before unfolds refuses =>
    rw [← List.append_assoc]
    exact .inside _ (writes_append.2 ⟨s₁, h, before⟩) unfolds refuses

/-- A piece fails by itself, or by unfolding a phrase. -/
theorem piece_error {piece : Piece} {unfold : Scope → Phrase → Speller Unit} {failure : Failure}
    (h : w.piece unfold piece s = .error failure s') :
    (∃ r, failure = .refused r ∧ piece = .fail r) ∨
      ∃ scope p, w.Unfolds s piece scope p ∧ unfold scope p s = .error failure s' := by
  cases piece with
  | token t => cases h
  | fail r =>
    cases h
    exact .inl ⟨r, rfl, rfl⟩
  | phrase scope p => exact .inr ⟨scope, p, .phrase, h⟩
  -- a node that is referred back to, or written as a placeholder, does not fail
  | node scope key ref =>
    have hrun := Encoder.Implements.run_piece_node w unfold scope key ref s
    rw [EStateM.run, h] at hrun
    cases hshort : w.shorthand? s key ref with
    | some t =>
      rw [hshort] at hrun
      cases hrun
    | none =>
      rw [hshort] at hrun
      refine .inr ⟨scope, .body key, .node hshort, ?_⟩
      cases hbody : unfold scope (.body key) s with
      | ok _ s₁ =>
        rw [EStateM.run, hbody] at hrun
        cases hrun
      | error failure' s₁ =>
        rw [EStateM.run, hbody] at hrun
        exact hrun.symm

/-- Pieces are refused by the rules. -/
theorem Finishes.refuses (h : g.Finishes w n ps s (some r)) : g.Refuses w n ps s r := by
  -- the bound drops where a phrase is unfolded, and the list gets shorter elsewhere
  induction n using Nat.strongRecOn generalizing ps s with
  | _ n ihn =>
    induction ps generalizing s with
    | nil =>
      obtain ⟨_, h⟩ := h
      cases h
    | cons first rest ih =>
      obtain ⟨s', h⟩ := h
      have hrow := spell_append (g := g) w n [first] rest s
      rw [List.singleton_append, h] at hrow
      cases hfirst : w.pieces (g.spell w n) [first] s with
      | ok _ s₁ =>
        rw [hfirst] at hrow
        exact .behind (pieces_ok_iff.1 hfirst) (ih ⟨s', hrow.symm⟩)
      | error failure s₁ =>
        rw [hfirst] at hrow
        cases hrow
        rw [Encoder.pieces_singleton] at hfirst
        obtain ⟨_, ⟨⟩, rfl⟩ | ⟨scope, p, hunfolds, hspell⟩ := piece_error hfirst
        · exact .fail [] .nil
        · cases n with
          | zero => cases hspell
          | succ n => exact .inside [] .nil hunfolds (ihn n n.lt_succ_self ⟨s', hspell⟩)

/-- Writing ends with a refusal exactly as the rules say. -/
theorem finishes_some : g.Finishes w n ps s (some r) ↔ g.Refuses w n ps s r := by
  refine ⟨Finishes.refuses, fun h => ?_⟩
  induction h with
  | @fail _ _ rest _ _ r before => exact .behind before ((Finishes.fail r).stop rest)
  | @inside n piece _ _ _ rest _ s₁ r before unfolds _ ih =>
    have hpiece : g.Finishes w (n + 1) [piece] s₁ (some r) := by
      cases unfolds with
      | phrase => exact ih.phrase
      | node noShorthand => exact ih.spelled noShorthand
    exact .behind before (hpiece.stop rest)

/-- What is refused is refused with more nesting allowed. -/
theorem Refuses.mono (h : g.Refuses w n ps s r) (hle : n ≤ k) : g.Refuses w k ps s r := by
  induction h generalizing k with
  | fail front before => exact .fail front (before.mono hle)
  | inside front before unfolds _ ih =>
    obtain ⟨k, rfl⟩ : ∃ k', k = k' + 1 := ⟨k - 1, by omega⟩
    exact .inside front (before.mono hle) unfolds (ih (Nat.le_of_succ_le_succ hle))

/-- What ends within some bound ends alike within any greater one. -/
theorem Finishes.mono (h : g.Finishes w n ps s e) (hle : n ≤ k) : g.Finishes w k ps s e := by
  cases e with
  | none =>
    obtain ⟨s', h⟩ := finishes_none.1 h
    exact finishes_none.2 ⟨s', h.mono hle⟩
  | some r => exact finishes_some.2 ((finishes_some.1 h).mono hle)

end Grammar

end NameMangling
