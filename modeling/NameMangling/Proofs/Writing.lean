/-
# Writing as a relation

Spelling is a program with a bound on the nesting of phrases.  What it does when it
succeeds is `Grammar.Writes`, a relation between the pieces that are written and the
progress before and after, with one rule for each way of writing a piece.  Everything that
holds of all symbols is proved by induction on this relation.

Main facts:
* `pieces_ok_iff`: spelling succeeds exactly as the relation says;
* `Writes.extends`: what has been written stays written.
-/
import NameMangling.Proofs.Plans

namespace NameMangling

/-! ## Progress -/

namespace Progress

variable (s : Progress) (t : Token) (key : NodeKey) (start : Nat)

@[simp] theorem emit_tokens : (s.emit t).tokens = s.tokens.push t := rfl

@[simp] theorem emit_nodes : (s.emit t).nodes = s.nodes := rfl

@[simp] theorem emit_numbered : (s.emit t).numbered = s.numbered := rfl

@[simp] theorem number?_emit (k : NodeKey) : (s.emit t).number? k = s.number? k := rfl

@[simp] theorem complete_tokens : (s.complete key start).tokens = s.tokens := by
  unfold complete
  split <;> rfl

/-- Completing a node records its number, the next one if it has none, and where its tokens
are. -/
@[simp] theorem complete_nodes : (s.complete key start).nodes =
    s.nodes.push ⟨key, (s.number? key).getD s.numbered, start, s.tokens.size⟩ := by
  unfold complete
  split <;> simp_all

/-- Completing a node takes a new number only if the node has none. -/
theorem complete_numbered : (s.complete key start).numbered =
    if (s.number? key).isSome then s.numbered else s.numbered + 1 := by
  unfold complete
  split <;> simp_all

/-- Completing a node numbers it, unless it has a number, and no other node. -/
theorem number?_complete (k : NodeKey) : (s.complete key start).number? k =
    (s.number? k).or (if k = key then some s.numbered else none) := by
  have hpush : (s.complete key start).number? k = (s.number? k).or
      (if key = k then some ((s.number? key).getD s.numbered) else none) := by
    unfold number?
    rw [complete_nodes, Array.find?_push]
    cases s.nodes.find? (·.key == k) with
    | some node => simp
    | none => by_cases hk : key = k <;> simp [hk, number?]
  rw [hpush]
  by_cases hk : k = key
  · subst hk
    cases s.number? k <;> simp
  · rw [if_neg hk, if_neg (Ne.symm hk)]

theorem number?_eq_none_iff {s : Progress} {key : NodeKey} :
    s.number? key = none ↔ ∀ node ∈ s.nodes, node.key ≠ key := by
  simp [number?]

/-- A number is that of a node that has been completed. -/
theorem mem_of_number?_eq_some {s : Progress} {key : NodeKey} {n : Nat}
    (h : s.number? key = some n) : ∃ node ∈ s.nodes, node.key = key ∧ node.number = n := by
  obtain ⟨node, hfind, rfl⟩ := Option.map_eq_some_iff.1 h
  have hkey := Array.find?_some hfind
  exact ⟨node, Array.mem_of_find?_eq_some hfind, by simpa using hkey, rfl⟩

/-- What has been written is still there. -/
structure Extends (s s' : Progress) : Prop where
  tokens : s.tokens.toList <+: s'.tokens.toList
  nodes : s.nodes.toList <+: s'.nodes.toList

namespace Extends

variable {s s₁ s' : Progress}

theorem refl (s : Progress) : s.Extends s := ⟨List.prefix_refl _, List.prefix_refl _⟩

theorem trans (h : s.Extends s₁) (h' : s₁.Extends s') : s.Extends s' :=
  ⟨h.tokens.trans h'.tokens, h.nodes.trans h'.nodes⟩

theorem emit (s : Progress) (t : Token) : s.Extends (s.emit t) :=
  ⟨by simp, by simp⟩

theorem complete (s : Progress) (key : NodeKey) (start : Nat) : s.Extends (s.complete key start) :=
  ⟨by simp, by simp⟩

theorem tokens_size_le (h : s.Extends s') : s.tokens.size ≤ s'.tokens.size := by
  simpa using h.tokens.length_le

end Extends

end Progress

/-! ## The relation -/

namespace Grammar

/-- There is room for a few nested phrases in every program. -/
theorem five_le_depthBound (g : Grammar) : 5 ≤ g.depthBound := by
  have hsubjects : 2 ≤ g.subjects := by
    unfold subjects
    omega
  calc 5 ≤ 2 ^ 6 := by decide
    _ ≤ g.subjects ^ 6 := Nat.pow_le_pow_left hsubjects 6

variable {g : Grammar} {w : Spelling}

/-- Writing some pieces in which at most so many phrases are nested, from one progress to
another. -/
inductive Writes (g : Grammar) (w : Spelling) : Nat → List Piece → Progress → Progress → Prop
  | nil {n : Nat} {s : Progress} : Writes g w n [] s s
  | token {n : Nat} {t : Token} {rest : List Piece} {s s' : Progress}
      (after : Writes g w n rest (s.emit t) s') : Writes g w n (.token t :: rest) s s'
  | phrase {n : Nat} {scope : Scope} {p : Phrase} {rest : List Piece} {s s₁ s' : Progress}
      (inside : Writes g w n (g.production scope p) s s₁)
      (after : Writes g w (n + 1) rest s₁ s') :
      Writes g w (n + 1) (.phrase scope p :: rest) s s'
  | short {n : Nat} {scope : Scope} {key : NodeKey} {r : Option Referent} {t : Token}
      {rest : List Piece} {s s' : Progress} (shorthand : w.shorthand? s key r = some t)
      (after : Writes g w n rest (s.emit t) s') : Writes g w n (.node scope key r :: rest) s s'
  | spelled {n : Nat} {scope : Scope} {key : NodeKey} {r : Option Referent}
      {rest : List Piece} {s s₁ s' : Progress} (noShorthand : w.shorthand? s key r = none)
      (inside : Writes g w n (g.production scope (.body key)) s s₁)
      (after : Writes g w (n + 1) rest (s₁.complete key s.tokens.size) s') :
      Writes g w (n + 1) (.node scope key r :: rest) s s'

/-- A row is written if its first piece is, and the rest behind it. -/
theorem pieces_cons_ok {unfold : Scope → Phrase → Speller Unit} {first : Piece}
    {rest : List Piece} {s s' : Progress} :
    w.pieces unfold (first :: rest) s = .ok () s' ↔
      ∃ s₁, w.piece unfold first s = .ok () s₁ ∧ w.pieces unfold rest s₁ = .ok () s' := by
  rw [Spelling.pieces]
  simp only [bind, EStateM.bind]
  cases w.piece unfold first s with
  | ok a s₁ => simp
  | error e s₁ => simp

/-- A node is written if it has a shorthand, or if its body is written and it is completed. -/
theorem piece_node_ok {unfold : Scope → Phrase → Speller Unit} {scope : Scope} {key : NodeKey}
    {r : Option Referent} {s s' : Progress} :
    w.piece unfold (.node scope key r) s = .ok () s' ↔
      (∃ t, w.shorthand? s key r = some t ∧ s' = s.emit t) ∨
      (w.shorthand? s key r = none ∧ ∃ s₁, unfold scope (.body key) s = .ok () s₁ ∧
        s' = s₁.complete key s.tokens.size) := by
  have hget : ∀ f : Progress → Speller Unit, (get >>= f) s = f s s := fun _ => rfl
  rw [Spelling.piece, hget]
  cases w.shorthand? s key r with
  | some t =>
    show .ok () (s.emit t) = EStateM.Result.ok () s' ↔ _
    simp [eq_comm]
  | none =>
    simp only [bind, EStateM.bind]
    cases unfold scope (.body key) s with
    | ok a s₁ =>
      show .ok () (s₁.complete key s.tokens.size) = EStateM.Result.ok () s' ↔ _
      simp [eq_comm]
    | error e s₁ => simp

/-- A phrase is written if its production is, with one phrase less to be nested. -/
theorem spell_ok {n : Nat} {scope : Scope} {p : Phrase} {s s' : Progress} :
    g.spell w n scope p s = .ok () s' ↔
      ∃ m, n = m + 1 ∧ w.pieces (g.spell w m) (g.production scope p) s = .ok () s' := by
  cases n with
  | zero =>
    constructor
    · intro h
      cases h
    · rintro ⟨m, hm, -⟩
      cases hm
  | succ n => simp [spell]

/-- Spelling succeeds exactly as the relation says. -/
theorem pieces_ok_iff {n : Nat} {ps : List Piece} {s s' : Progress} :
    w.pieces (g.spell w n) ps s = .ok () s' ↔ g.Writes w n ps s s' := by
  constructor
  · -- the bound drops where a phrase is unfolded, and the list gets shorter elsewhere
    intro h
    induction n using Nat.strongRecOn generalizing ps s s' with
    | _ n ihn =>
      induction ps generalizing s with
      | nil => cases h; exact .nil
      | cons first rest ih =>
        obtain ⟨s₁, hfirst, hrest⟩ := pieces_cons_ok.1 h
        cases first with
        | token t => cases hfirst; exact .token (ih hrest)
        | phrase scope p =>
          obtain ⟨m, rfl, hp⟩ := spell_ok.1 hfirst
          exact .phrase (ihn m (by omega) hp) (ih hrest)
        | node scope key r =>
          obtain ⟨t, ht, rfl⟩ | ⟨hnone, s₂, hbody, rfl⟩ := piece_node_ok.1 hfirst
          · exact .short ht (ih hrest)
          · obtain ⟨m, rfl, hp⟩ := spell_ok.1 hbody
            exact .spelled hnone (ihn m (by omega) hp) (ih hrest)
        | fail e =>
          cases hfirst
  · intro h
    induction h with
    | nil => rfl
    | token _ ih => exact pieces_cons_ok.2 ⟨_, rfl, ih⟩
    | phrase _ _ ihp ih => exact pieces_cons_ok.2 ⟨_, spell_ok.2 ⟨_, rfl, ihp⟩, ih⟩
    | short ht _ ih => exact pieces_cons_ok.2 ⟨_, piece_node_ok.2 (.inl ⟨_, ht, rfl⟩), ih⟩
    | spelled hnone _ _ ihb ih =>
      exact pieces_cons_ok.2
        ⟨_, piece_node_ok.2 (.inr ⟨hnone, _, spell_ok.2 ⟨_, rfl, ihb⟩, rfl⟩), ih⟩

/-- What has been written stays written. -/
theorem Writes.extends {n : Nat} {ps : List Piece} {s s' : Progress} (h : g.Writes w n ps s s') :
    s.Extends s' := by
  induction h with
  | nil => exact .refl _
  | token _ ih => exact (Progress.Extends.emit _ _).trans ih
  | phrase _ _ ihp ih => exact ihp.trans ih
  | short _ _ ih => exact (Progress.Extends.emit _ _).trans ih
  | spelled _ _ _ ihb ih => exact (ihb.trans (Progress.Extends.complete _ _ _)).trans ih

/-- Writing has one outcome. -/
theorem Writes.unique {n : Nat} {ps : List Piece} {s s₁ s₂ : Progress}
    (h : g.Writes w n ps s s₁) (h' : g.Writes w n ps s s₂) : s₁ = s₂ := by
  have hok := pieces_ok_iff.2 h
  rw [pieces_ok_iff.2 h'] at hok
  cases hok
  rfl

/-- What can be written can be written with more nesting allowed. -/
theorem Writes.mono {n k : Nat} {ps : List Piece} {s s' : Progress} (h : g.Writes w n ps s s')
    (hle : n ≤ k) : g.Writes w k ps s s' := by
  induction h generalizing k with
  | nil => exact .nil
  | token _ ih => exact .token (ih hle)
  | phrase _ _ ihp ih =>
    obtain ⟨k, rfl⟩ : ∃ k', k = k' + 1 := ⟨k - 1, by omega⟩
    exact .phrase (ihp (by omega)) (ih hle)
  | short hshort _ ih => exact .short hshort (ih hle)
  | spelled hnone _ _ ihb ih =>
    obtain ⟨k, rfl⟩ : ∃ k', k = k' + 1 := ⟨k - 1, by omega⟩
    exact .spelled hnone (ihb (by omega)) (ih hle)

/-- Writing has one outcome, whatever the bounds. -/
theorem Writes.agree {n k : Nat} {ps : List Piece} {s s₁ s₂ : Progress}
    (h : g.Writes w n ps s s₁) (h' : g.Writes w k ps s s₂) : s₁ = s₂ :=
  (h.mono (Nat.le_max_left n k)).unique (h'.mono (Nat.le_max_right n k))

end Grammar

/-! ## Shorthands -/

namespace Spelling

variable {w : Spelling} {s : Progress} {key : NodeKey} {r : Option Referent}

/-- A node is written short as a placeholder, or as a reference to its number. -/
theorem shorthand?_eq_some {t : Token} (h : w.shorthand? s key r = some t) :
    (∃ r', r = some r' ∧ w.placesReferent r' = true ∧ t = .placeholder r') ∨
      (r.filter w.placesReferent = none ∧ ∃ n, s.number? key = some n ∧ t = .backReference n) := by
  unfold shorthand? at h
  split at h
  · rename_i r' hr
    left
    obtain ⟨rfl, hplaces⟩ := Option.filter_eq_some_iff.1 hr
    exact ⟨r', rfl, hplaces, by simpa using h.symm⟩
  · rename_i hr
    split at h
    · obtain ⟨n, hn, rfl⟩ := Option.map_eq_some_iff.1 h
      exact .inr ⟨hr, n, hn, rfl⟩
    · cases h

/-- A node that is spelled out by an encoder that refers back has no number. -/
theorem number?_of_shorthand?_eq_none (hback : w.refersBack = true)
    (h : w.shorthand? s key r = none) : s.number? key = none := by
  unfold shorthand? at h
  split at h
  · cases h
  · simpa [hback] using h

/-- A node that is spelled out is not one that becomes a placeholder. -/
theorem filter_of_shorthand?_eq_none (h : w.shorthand? s key r = none) :
    r.filter w.placesReferent = none := by
  unfold shorthand? at h
  split at h
  · cases h
  · assumption

end Spelling

/-! ## Requests -/

namespace Mangler

variable {m : Mangler}

/-- What is written for a request that is answered with a symbol. -/
def written? (m : Mangler) (r : Request) : Option Progress :=
  match m.plan r with
  | .error _ => none
  | .ok plan =>
    match m.write plan with
    | .ok _ s => some s
    | .error _ _ => none

/-- Writing a plan, as the relation says. -/
theorem written?_eq_some {r : Request} {s : Progress} :
    m.written? r = some s ↔ ∃ plan, m.plan r = .ok plan ∧
      (m.grammar plan.keepsSugar).Writes { placesReferent := m.placesReferent plan }
        (m.grammar plan.keepsSugar).depthBound plan.pieces {} s := by
  unfold written?
  cases hplan : m.plan r with
  | error e => simp
  | ok plan =>
    have hwrite : m.write plan = .ok () s ↔ (m.grammar plan.keepsSugar).Writes
        { placesReferent := m.placesReferent plan } (m.grammar plan.keepsSugar).depthBound
        plan.pieces {} s := Grammar.pieces_ok_iff
    simp only [Except.ok.injEq, exists_eq_left', ← hwrite]
    split
    · rename_i heq
      simp [heq]
    · rename_i heq
      simp [heq]

/-- A symbol is the text of the tokens that have been written. -/
theorem mangle_eq_ok {r : Request} {text : String} :
    m.mangle r = .ok text ↔ ∃ plan s, m.plan r = .ok plan ∧ m.written? r = some s ∧
      text = symbol plan.lead s.tokens.toList := by
  unfold mangle answer written?
  cases hplan : m.plan r with
  | error e => simp
  | ok plan =>
    unfold carryOut
    cases hwrite : m.write plan with
    | ok a s => simp [hwrite, eq_comm]
    | error e s => simp [hwrite]

/-- A request that has a symbol has a plan that is written. -/
theorem exists_writes_of_mangle {r : Request} {text : String} (h : m.mangle r = .ok text) :
    ∃ plan s, m.plan r = .ok plan ∧
      (m.grammar plan.keepsSugar).Writes { placesReferent := m.placesReferent plan }
        (m.grammar plan.keepsSugar).depthBound plan.pieces {} s ∧
      text = symbol plan.lead s.tokens.toList := by
  obtain ⟨plan, s, hplan, hwritten, htext⟩ := mangle_eq_ok.1 h
  obtain ⟨plan', hplan', hwrites⟩ := written?_eq_some.1 hwritten
  obtain rfl : plan = plan' := Except.ok.inj (hplan.symm.trans hplan')
  exact ⟨plan, s, hplan, hwrites, htext⟩

/-- What is written for a request whose plan has default settings, where no placeholders are
written. -/
theorem writes_of_mangle (hopts : m.options = {}) {r : Request} {plan : Plan} {x : String}
    (hplan : m.plan r = .ok plan) (hsugar : plan.keepsSugar = false)
    (h : m.mangle r = .ok x) : ∃ s,
      (m.grammar false).Writes {} (m.grammar false).depthBound plan.pieces {} s ∧
        x = symbol plan.lead s.tokens.toList := by
  obtain ⟨plan', s, hplan', hwrites, rfl⟩ := exists_writes_of_mangle h
  obtain rfl : plan = plan' := Except.ok.inj (hplan.symm.trans hplan')
  have hplaces : m.placesReferent plan = fun _ => false := by
    funext r
    simp [placesReferent, hopts]
  rw [hplaces, hsugar] at hwrites
  exact ⟨s, hwrites, rfl⟩

/-- The text of the tokens can be read off a symbol. -/
theorem symbol_injective {lead : String} {ts us : List Token}
    (h : symbol lead ts = symbol lead us) : spellAll ts = spellAll us := by
  unfold symbol at h
  have hchars := congrArg String.toList h
  simpa using hchars

end Mangler

end NameMangling
