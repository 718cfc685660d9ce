/-
# Symbols in full

An encoder that never refers back writes every node in full.  In a uniform grammar the text
of a node depends on its key alone, so a reference can be replaced by the text of the node
it refers to.  Done from the first completed node to the last, this turns a symbol into the
one written in full.

Main definitions:
* `Progress.texts`, the texts of the numbered nodes with references replaced;
* `Mangler.mangleInFull`, the answers of an encoder that never refers back.

Main facts:
* `Expands.eq_of_alike`: the text of pieces is the same in all scopes;
* `Expands.writes`: what can be written in full can be written with references;
* `mangle_lossless`: replacing references gives the symbol written in full.
-/
import NameMangling.Proofs.Writing
import NameMangling.Proofs.Numbering

namespace NameMangling

/-! ## Replacing references -/

/-- What a token stands for, where the numbered nodes have the given texts. -/
def Token.resolve (texts : List (List Token)) : Token → List Token
  | .backReference n => texts[n]?.getD []
  | t => [t]

/-- Tokens with all references replaced. -/
def resolveAll (texts : List (List Token)) (ts : List Token) : List Token :=
  ts.flatMap (Token.resolve texts)

namespace Progress

/-- The tokens a node was spelled by. -/
def slice (s : Progress) (node : CompletedNode) : List Token :=
  (s.tokens.toList.drop node.start).take (node.stop - node.start)

/-- The texts of the nodes numbered so far and of one more node, if it has the next
number.  It can refer to no node but those before it. -/
def appendText (s : Progress) (texts : List (List Token)) (node : CompletedNode) :
    List (List Token) :=
  if node.number = texts.length then texts ++ [resolveAll texts (s.slice node)] else texts

/-- The texts of the numbered nodes, in the order of their numbers, with references
replaced by the texts before them. -/
def texts (s : Progress) : List (List Token) := s.nodes.toList.foldl s.appendText []

end Progress

/-! ## Texts of progress -/

namespace Progress

variable {s s' : Progress}

/-- A node adds to the texts at the end. -/
theorem prefix_appendText (texts : List (List Token)) (node : CompletedNode) :
    texts <+: s.appendText texts node := by
  unfold appendText
  split
  · exact List.prefix_append _ _
  · exact List.prefix_refl _

/-- Nodes in a row add to the texts at the end. -/
theorem prefix_foldl_appendText (nodes : List CompletedNode) (texts : List (List Token)) :
    texts <+: nodes.foldl s.appendText texts := by
  induction nodes generalizing texts with
  | nil => exact List.prefix_refl _
  | cons node nodes ih => exact (prefix_appendText texts node).trans (ih _)

/-- A node that has been completed keeps its tokens. -/
theorem slice_eq_of_extends (h : s.Extends s') {node : CompletedNode}
    (hstop : node.stop ≤ s.tokens.size) : s'.slice node = s.slice node := by
  obtain ⟨ts, hts⟩ := h.tokens
  have hlength : s.tokens.toList.length = s.tokens.size := Array.length_toList
  unfold slice
  rw [← hts]
  by_cases hstart : node.start ≤ s.tokens.toList.length
  · rw [List.drop_append_of_le_length hstart, List.take_append_of_le_length]
    rw [List.length_drop]
    omega
  · have hzero : node.stop - node.start = 0 := by omega
    rw [hzero, List.take_zero, List.take_zero]

/-- What is written later does not change the texts of nodes that end before. -/
theorem foldl_appendText_eq_of_extends (h : s.Extends s') {nodes : List CompletedNode}
    (hstop : ∀ node ∈ nodes, node.stop ≤ s.tokens.size) (texts : List (List Token)) :
    nodes.foldl s'.appendText texts = nodes.foldl s.appendText texts := by
  induction nodes generalizing texts with
  | nil => rfl
  | cons node nodes ih =>
    have hslice := slice_eq_of_extends h (hstop node (by simp))
    have hfirst : s'.appendText texts node = s.appendText texts node := by
      unfold appendText
      rw [hslice]
    rw [List.foldl_cons, List.foldl_cons, hfirst]
    exact ih (fun other hother => hstop other (by simp [hother])) _

/-- The texts of the nodes completed so far are not changed by what is written later. -/
theorem texts_prefix_of_extends (h : s.Extends s') (hs : s.Sound) : s.texts <+: s'.texts := by
  obtain ⟨ns, hns⟩ := h.nodes
  have hold : s.nodes.toList.foldl s'.appendText [] = s.nodes.toList.foldl s.appendText [] :=
    foldl_appendText_eq_of_extends h
      (fun node hmem => hs.stop_le node (Array.mem_toList_iff.1 hmem)) []
  unfold texts
  rw [← hns, List.foldl_append, hold]
  exact prefix_foldl_appendText _ _

theorem texts_emit (hs : s.Sound) (t : Token) : (s.emit t).texts = s.texts :=
  foldl_appendText_eq_of_extends (.emit s t)
    (fun node hmem => hs.stop_le node (Array.mem_toList_iff.1 hmem)) []

/-- Completing a node changes no token, hence no text of another node. -/
theorem appendText_complete (key : NodeKey) (start : Nat) :
    (s.complete key start).appendText = s.appendText := by
  funext texts node
  unfold appendText slice
  rw [complete_tokens]

/-- Completing a node without a number adds its text. -/
theorem texts_complete {key : NodeKey} (start : Nat) (hlength : s.texts.length = s.numbered)
    (hkey : s.number? key = none) : (s.complete key start).texts =
      s.texts ++ [resolveAll s.texts (s.tokens.toList.drop start)] := by
  have hslice : s.slice ⟨key, s.texts.length, start, s.tokens.size⟩ =
      s.tokens.toList.drop start := by
    unfold slice
    rw [List.take_of_length_le]
    simp
  unfold texts
  rw [complete_nodes, appendText_complete, Array.toList_push, List.foldl_append, hkey]
  show s.appendText s.texts ⟨key, s.numbered, start, s.tokens.size⟩ = _
  unfold appendText
  rw [← hlength, if_pos rfl, hslice]
  rfl

/-- A node that has a number already adds no text. -/
theorem texts_complete_of_number? {key : NodeKey} {n : Nat} (start : Nat) (hs : s.Sound)
    (hlength : s.texts.length = s.numbered) (hkey : s.number? key = some n) :
    (s.complete key start).texts = s.texts := by
  have hn := hs.number?_lt hkey
  unfold texts
  rw [complete_nodes, appendText_complete, Array.toList_push, List.foldl_append, hkey]
  show s.appendText s.texts ⟨key, n, start, s.tokens.size⟩ = s.texts
  unfold appendText
  rw [if_neg]
  dsimp only
  omega

end Progress

/-! ## Spelling in full -/

namespace Grammar

variable {g : Grammar} {places : Referent → Bool} {n : Nat} {ps ps' : List Piece}
  {ts ts' : List Token}

/-- The tokens of some pieces in which at most so many phrases are nested and nothing is
written as a reference. -/
inductive Expands (g : Grammar) (places : Referent → Bool) :
    Nat → List Piece → List Token → Prop
  | nil {n : Nat} : Expands g places n [] []
  | token {n : Nat} {t : Token} {rest : List Piece} {ts : List Token}
      (after : Expands g places n rest ts) : Expands g places n (.token t :: rest) (t :: ts)
  | phrase {n : Nat} {scope : Scope} {p : Phrase} {rest : List Piece} {ts ts' : List Token}
      (inside : Expands g places n (g.production scope p) ts)
      (after : Expands g places (n + 1) rest ts') :
      Expands g places (n + 1) (.phrase scope p :: rest) (ts ++ ts')
  | placed {n : Nat} {scope : Scope} {key : NodeKey} {r : Option Referent} {r' : Referent}
      {rest : List Piece} {ts : List Token} (placed : r.filter places = some r')
      (after : Expands g places n rest ts) :
      Expands g places n (.node scope key r :: rest) (.placeholder r' :: ts)
  | spelled {n : Nat} {scope : Scope} {key : NodeKey} {r : Option Referent}
      {rest : List Piece} {ts ts' : List Token} (notPlaced : r.filter places = none)
      (inside : Expands g places n (g.production scope (.body key)) ts)
      (after : Expands g places (n + 1) rest ts') :
      Expands g places (n + 1) (.node scope key r :: rest) (ts ++ ts')

theorem not_expands_fail {e : Refusal} : ¬ g.Expands places n [.fail e] ts := by
  rintro ⟨⟩

/-- An encoder that never refers back writes pieces in full. -/
theorem Writes.expands {s s' : Progress}
    (h : g.Writes { placesReferent := places, refersBack := false } n ps s s') :
    ∃ ts, g.Expands places n ps ts ∧ s'.tokens.toList = s.tokens.toList ++ ts := by
  induction h with
  | nil => exact ⟨[], .nil, by simp⟩
  | @token _ t _ _ _ _ ih =>
    obtain ⟨ts, hts, htokens⟩ := ih
    exact ⟨t :: ts, .token hts, by simp [htokens]⟩
  | phrase _ _ ihp ih =>
    obtain ⟨ts₁, hts₁, htokens₁⟩ := ihp
    obtain ⟨ts, hts, htokens⟩ := ih
    exact ⟨ts₁ ++ ts, .phrase hts₁ hts, by simp [htokens, htokens₁]⟩
  | short shorthand _ ih =>
    obtain ⟨ts, hts, htokens⟩ := ih
    -- nothing is referred back to, so the only shorthand is a placeholder
    unfold Spelling.shorthand? at shorthand
    split at shorthand
    · rename_i r' hr
      cases shorthand
      exact ⟨.placeholder r' :: ts, .placed hr hts, by simp [htokens]⟩
    · cases shorthand
  | spelled noShorthand _ _ ihb ih =>
    obtain ⟨ts₁, hts₁, htokens₁⟩ := ihb
    obtain ⟨ts, hts, htokens⟩ := ih
    have hplaced := Spelling.filter_of_shorthand?_eq_none noShorthand
    exact ⟨ts₁ ++ ts, .spelled hplaced hts₁ hts, by simp [htokens, htokens₁]⟩

/-- In a uniform grammar the text of pieces does not depend on their scopes. -/
theorem Expands.eq_of_alike (hg : g.IsUniform) {n' : Nat} (h : g.Expands places n ps ts)
    (h' : g.Expands places n' ps' ts') (halike : Alike g ps ps') : ts = ts' := by
  induction h generalizing n' ps' ts' with
  | nil =>
    cases halike
    cases h'
    rfl
  | token _ ih =>
    cases halike with | cons hfirst hrest =>
    cases hfirst
    cases h' with | token after' =>
    rw [ih after' hrest]
  | phrase inside _ ihp ih =>
    cases halike with | cons hfirst hrest =>
    cases hfirst with | phrase settled =>
    cases h' with | phrase inside' after' =>
    rw [ih after' hrest]
    -- a phrase unfolds alike in both scopes, or fails in one of them, where it has no text
    obtain hsame | ⟨e, he⟩ | ⟨e, he⟩ :=
      alike_production (.inr hg) (.inr (settled.resolve_right fun h => h.1 hg))
    · rw [ihp inside' hsame]
    · rw [he] at inside
      exact absurd inside not_expands_fail
    · rw [he] at inside'
      exact absurd inside' not_expands_fail
  | placed hplaced _ ih =>
    cases halike with | cons hfirst hrest =>
    cases hfirst
    cases h' with
    | placed hplaced' after' =>
      rw [hplaced] at hplaced'
      cases hplaced'
      rw [ih after' hrest]
    | spelled notPlaced' => rw [hplaced] at notPlaced'; cases notPlaced'
  | @spelled _ _ key _ _ _ _ notPlaced inside _ ihb ih =>
    cases halike with | cons hfirst hrest =>
    cases hfirst
    cases h' with
    | placed hplaced' => rw [notPlaced] at hplaced'; cases hplaced'
    | spelled _ inside' after' =>
      rw [ih after' hrest]
      obtain hsame | ⟨e, he⟩ | ⟨e, he⟩ := alike_production (p := .body key) (.inr hg) (.inr trivial)
      · rw [ihb inside' hsame]
      · rw [he] at inside
        exact absurd inside not_expands_fail
      · rw [he] at inside'
        exact absurd inside' not_expands_fail

/-! ## Simulation -/

/-- A progress whose numbered nodes have as their texts what they are in full. -/
structure Expandable (g : Grammar) (places : Referent → Bool) (s : Progress) : Prop where
  sound : s.Sound
  length : s.texts.length = s.numbered
  text : ∀ key k, s.number? key = some k → ∃ n scope ts,
    g.Expands places n (g.production scope (.body key)) ts ∧ s.texts[k]? = some ts

namespace Expandable

variable {s s' : Progress}

/-- Before anything is written there is nothing to expand. -/
theorem empty : g.Expandable places {} where
  sound := .empty
  length := rfl
  text := by simp [Progress.number?]

/-- A token keeps the texts of all nodes, if it refers back only to a node with a number. -/
theorem emit (hs : g.Expandable places s) {t : Token}
    (ht : ∀ n, t = .backReference n → ∃ key, s.number? key = some n) :
    g.Expandable places (s.emit t) where
  sound := hs.sound.emit ht
  length := by rw [Progress.texts_emit hs.sound, hs.length, Progress.emit_numbered]
  text key k hk := by
    rw [Progress.texts_emit hs.sound]
    exact hs.text key k hk

/-- Completing a node whose tokens stand for what it is in full. -/
theorem complete (hs : g.Expandable places s) {key : NodeKey} {start : Nat} {scope : Scope}
    (hstart : ∀ node ∈ s.nodes, node.key = key → start ≤ node.start)
    (hexpands : g.Expands places n (g.production scope (.body key)) ts)
    (htext : resolveAll s.texts (s.tokens.toList.drop start) = ts) :
    g.Expandable places (s.complete key start) := by
  have hsound := hs.sound.complete hstart
  cases hkey : s.number? key with
  | some k =>
    -- the node keeps its number, and no text is added
    have htexts := Progress.texts_complete_of_number? start hs.sound hs.length hkey
    refine ⟨hsound, ?_, ?_⟩
    · rw [htexts, hs.length, Progress.complete_numbered, hkey]
      rfl
    · intro key' k' hk'
      rw [Progress.number?_complete] at hk'
      rw [htexts]
      apply hs.text key' k'
      cases hold : s.number? key' with
      | some a => rwa [hold, Option.some_or] at hk'
      | none =>
        have hne : key' ≠ key := by
          rintro rfl
          rw [hold] at hkey
          cases hkey
        simp [hold, hne] at hk'
  | none =>
    -- the node gets the next number, and its text is added at the end
    have htexts := Progress.texts_complete start hs.length hkey
    rw [htext] at htexts
    refine ⟨hsound, ?_, ?_⟩
    · rw [htexts, List.length_append, hs.length, Progress.complete_numbered, hkey]
      rfl
    · intro key' k' hk'
      rw [Progress.number?_complete] at hk'
      rw [htexts]
      cases hold : s.number? key' with
      | some a =>
        rw [hold, Option.some_or] at hk'
        obtain ⟨m, scope', ts', hts', hget⟩ := hs.text key' k' (hold.trans hk')
        have hlt := (List.getElem?_eq_some_iff.1 hget).1
        exact ⟨m, scope', ts', hts', by rw [List.getElem?_append_left hlt, hget]⟩
      | none =>
        rw [hold, Option.none_or] at hk'
        split at hk'
        · rename_i hsame
          cases hk'
          subst hsame
          refine ⟨n, scope, ts, hexpands, ?_⟩
          rw [← hs.length, List.getElem?_append_right (Nat.le_refl _)]
          simp
        · cases hk'

/-- References in what has been written are to nodes with a text. -/
theorem lt_length_of_mem (hs : g.Expandable places s) {k : Nat}
    (hk : Token.backReference k ∈ s.tokens.toList) : k < s.texts.length := by
  obtain ⟨j, hj⟩ := List.mem_iff_getElem?.1 hk
  rw [Array.getElem?_toList] at hj
  obtain ⟨node, hmem, rfl, -⟩ := hs.sound.reference j k hj
  rw [hs.length]
  exact hs.sound.below node hmem

/-- What has been written keeps its meaning while more is written. -/
theorem resolveAll_eq (hs : g.Expandable places s) (hextends : s.Extends s') (new : List Token)
    (hnew : ∀ t ∈ new, t ∈ s.tokens.toList) :
    resolveAll s'.texts new = resolveAll s.texts new := by
  have hbegin := Progress.texts_prefix_of_extends hextends hs.sound
  unfold resolveAll
  refine List.flatMap_congr fun t ht => ?_
  cases t with
  | backReference k =>
    have hlt := hs.lt_length_of_mem (hnew _ ht)
    obtain ⟨more, hmore⟩ := hbegin
    simp only [Token.resolve]
    rw [← hmore, List.getElem?_append_left hlt]
  | _ => rfl

/-- A reference to a node stands for what the node is in full, in whatever scope. -/
theorem resolve_backReference (hg : g.IsUniform) (hs : g.Expandable places s) {key : NodeKey}
    {k : Nat} {scope : Scope} (hkey : s.number? key = some k)
    (inside : g.Expands places n (g.production scope (.body key)) ts) (hextends : s.Extends s') :
    Token.resolve s'.texts (.backReference k) = ts := by
  obtain ⟨m, scope', ts', hts', hget⟩ := hs.text key k hkey
  -- the node has been spelled in another scope, but in the same way
  obtain hsame | ⟨e, he⟩ | ⟨e, he⟩ := alike_production (p := .body key) (.inr hg) (.inr trivial)
  · have hts := hts'.eq_of_alike hg inside hsame
    obtain ⟨more, hmore⟩ := Progress.texts_prefix_of_extends hextends hs.sound
    have hlt := (List.getElem?_eq_some_iff.1 hget).1
    show (s'.texts[k]?).getD [] = ts
    rw [← hmore, List.getElem?_append_left hlt, hget, hts]
    rfl
  · rw [he] at hts'
    exact absurd hts' not_expands_fail
  · rw [he] at inside
    exact absurd inside not_expands_fail

/-- Completing a node that has just been written for the first time. -/
theorem complete_of_writes {new : List Token} {key : NodeKey} {scope : Scope} {w : Spelling}
    (hs' : g.Expandable places s') (hkey : s.number? key = none)
    (hwrites : g.Writes w n (g.production scope (.body key)) s s')
    (inside : g.Expands places n (g.production scope (.body key)) ts)
    (htokens : s'.tokens.toList = s.tokens.toList ++ new)
    (hresolve : resolveAll s'.texts new = ts) :
    g.Expandable places (s'.complete key s.tokens.size) := by
  have hstart : ∀ node ∈ s'.nodes, node.key = key → s.tokens.size ≤ node.start := by
    intro node hmem heq
    rcases hwrites.start_le node hmem with hold | hnew
    · exact absurd heq (Progress.number?_eq_none_iff.1 hkey node hold)
    · exact hnew
  have hdrop : s'.tokens.toList.drop s.tokens.size = new := by
    rw [htokens, ← Array.length_toList, List.drop_left]
  apply hs'.complete hstart inside
  rw [hdrop, hresolve]

end Expandable

/-- What can be written in full can be written with references, and the new tokens stand for
what is written in full. -/
theorem Expands.writes (hg : g.IsUniform) (h : g.Expands places n ps ts) (hps : Alike g ps ps)
    {s : Progress} (hs : g.Expandable places s) :
    ∃ s' new, g.Writes { placesReferent := places } n ps s s' ∧ g.Expandable places s' ∧
      s'.tokens.toList = s.tokens.toList ++ new ∧ resolveAll s'.texts new = ts := by
  induction h generalizing s with
  | nil => exact ⟨s, [], .nil, hs, by simp, rfl⟩
  | @token _ t _ _ _ ih =>
    cases hps with | cons hfirst hrest =>
    cases hfirst with | token direct =>
    have hs₁ : g.Expandable places (s.emit t) := by
      apply hs.emit
      rintro n rfl
      cases direct
    obtain ⟨s', new, hwrites, hs', htokens, hresolve⟩ := ih hrest hs₁
    refine ⟨s', t :: new, .token hwrites, hs', by simp [htokens], ?_⟩
    have ht : t.resolve s'.texts = [t] := by
      cases t <;> first | rfl | cases direct
    rw [← hresolve]
    simp [resolveAll, ht]
  | phrase _ _ ihp ih =>
    cases hps with | cons _ hrest =>
    obtain ⟨s₁, new₁, hwrites₁, hs₁, htokens₁, hresolve₁⟩ := ihp (alike_production_self _) hs
    obtain ⟨s', new, hwrites, hs', htokens, hresolve⟩ := ih hrest hs₁
    refine ⟨s', new₁ ++ new, .phrase hwrites₁ hwrites, hs', by simp [htokens, htokens₁], ?_⟩
    have hkeep := hs₁.resolveAll_eq hwrites.extends new₁
      fun t ht => by simp [htokens₁, ht]
    rw [← hresolve, ← hresolve₁, ← hkeep]
    simp [resolveAll]
  | @placed _ _ key r r' _ _ hplaced _ ih =>
    cases hps with | cons _ hrest =>
    have hs₁ : g.Expandable places (s.emit (.placeholder r')) := hs.emit (by simp)
    obtain ⟨s', new, hwrites, hs', htokens, hresolve⟩ := ih hrest hs₁
    have hshort : Spelling.shorthand? { placesReferent := places } s key r =
        some (.placeholder r') := by
      simp [Spelling.shorthand?, hplaced]
    refine ⟨s', .placeholder r' :: new, .short hshort hwrites, hs', by simp [htokens], ?_⟩
    rw [← hresolve]
    rfl
  | @spelled n scope key r _ ts _ notPlaced inside _ ihb ih =>
    cases hps with | cons _ hrest =>
    cases hkey : s.number? key with
    | some k =>
      -- the node is written as a reference
      have hs₁ : g.Expandable places (s.emit (.backReference k)) := by
        apply hs.emit
        rintro k' heq
        cases heq
        exact ⟨key, hkey⟩
      obtain ⟨s', new, hwrites, hs', htokens, hresolve⟩ := ih hrest hs₁
      have hshort : Spelling.shorthand? { placesReferent := places } s key r =
          some (.backReference k) := by
        simp [Spelling.shorthand?, notPlaced, hkey]
      refine ⟨s', .backReference k :: new, .short hshort hwrites, hs', by simp [htokens], ?_⟩
      have hextends := (Progress.Extends.emit s (.backReference k)).trans hwrites.extends
      rw [← hresolve, ← hs.resolve_backReference hg hkey inside hextends]
      simp [resolveAll]
    | none =>
      -- the node is spelled out for the first time
      obtain ⟨s₁, new₁, hwrites₁, hs₁, htokens₁, hresolve₁⟩ := ihb (alike_production_self _) hs
      have hs₂ := hs₁.complete_of_writes hkey hwrites₁ inside htokens₁ hresolve₁
      obtain ⟨s', new, hwrites, hs', htokens, hresolve⟩ := ih hrest hs₂
      have hshort : Spelling.shorthand? { placesReferent := places } s key r = none := by
        simp [Spelling.shorthand?, notPlaced, hkey]
      refine ⟨s', new₁ ++ new, .spelled hshort hwrites₁ hwrites, hs', ?_, ?_⟩
      · rw [htokens, Progress.complete_tokens, htokens₁, List.append_assoc]
      · have hextends := (Progress.Extends.complete s₁ key s.tokens.size).trans hwrites.extends
        have hkeep := hs₁.resolveAll_eq hextends new₁
          fun t ht => by simp [htokens₁, ht]
        rw [← hresolve, ← hresolve₁, ← hkeep]
        simp [resolveAll]

end Grammar

/-! ## Symbols -/

namespace Mangler

variable (m : Mangler)

/-- Write the pieces of a plan without ever referring back. -/
def writeInFull (plan : Plan) : EStateM.Result Failure Progress Unit :=
  (m.grammar plan.keepsSugar).spellPieces
    { placesReferent := m.placesReferent plan, refersBack := false } plan.pieces {}

/-- The answer of an encoder that never refers back. -/
def mangleInFull (r : Request) : Answer :=
  match m.plan r with
  | .error e => .error (.refused e)
  | .ok plan =>
    match m.writeInFull plan with
    | .ok _ s => .ok (symbol plan.lead s.tokens.toList)
    | .error e _ => .error e

variable {m}

/-- What is written in full is the plan of the request, with everything expanded. -/
theorem mangleInFull_eq_ok {r : Request} {text : String} (h : m.mangleInFull r = .ok text) :
    ∃ plan ts, m.plan r = .ok plan ∧
      (m.grammar plan.keepsSugar).Expands (m.placesReferent plan)
        (m.grammar plan.keepsSugar).depthBound plan.pieces ts ∧ text = symbol plan.lead ts := by
  unfold mangleInFull at h
  split at h
  · cases h
  · rename_i plan hplan
    split at h
    · rename_i s hwrite
      cases h
      obtain ⟨ts, hts, htokens⟩ := (Grammar.pieces_ok_iff.1 hwrite).expands
      exact ⟨plan, ts, hplan, hts, by simp [htokens]⟩
    · cases h

/-- Replacing references is what tells a symbol from the one written in full: whatever can
be written in full gets a symbol, and with each reference replaced by the text of the node
it refers to, references in that text replaced likewise, it is the one written in full. -/
theorem mangle_lossless (hm : m.IsUniform) (r : Request) (full : String)
    (h : m.mangleInFull r = .ok full) :
    ∃ plan s, m.plan r = .ok plan ∧ m.written? r = some s ∧
      m.mangle r = .ok (symbol plan.lead s.tokens.toList) ∧
      symbol plan.lead (resolveAll s.texts s.tokens.toList) = full := by
  obtain ⟨plan, ts, hplan, hts, rfl⟩ := mangleInFull_eq_ok h
  obtain ⟨s, new, hwrites, -, htokens, hresolve⟩ :=
    hts.writes (hm.grammar _) (alike_plan hplan _) .empty
  have hwritten : m.written? r = some s := written?_eq_some.2 ⟨plan, hplan, hwrites⟩
  refine ⟨plan, s, hplan, hwritten, mangle_eq_ok.2 ⟨plan, s, hplan, hwritten, rfl⟩, ?_⟩
  rw [htokens]
  simpa using congrArg (symbol plan.lead) hresolve

/-- A pair of equal metatypes, the second of which is written as a reference. -/
theorem mangle_lossless_metatypes :
    let m : Mangler :=
      { program := ((Program.empty.addType (.metatype ⟨1⟩)).2.addType
          (.tuple [⟨none, ⟨12⟩⟩, ⟨none, ⟨12⟩⟩])).2
        options := { elidesProtocols := false } }
    m.IsUniform ∧ m.mangleInFull (.typeForTypeName ⟨13⟩) = .ok "Bi8_m_Bi8_mt" ∧
      m.mangle (.typeForTypeName ⟨13⟩) = .ok "Bi8_m_Aat" ∧
      ∃ plan s, m.plan (.typeForTypeName ⟨13⟩) = .ok plan ∧
        m.written? (.typeForTypeName ⟨13⟩) = some s ∧
        m.mangle (.typeForTypeName ⟨13⟩) = .ok (symbol plan.lead s.tokens.toList) ∧
        symbol plan.lead (resolveAll s.texts s.tokens.toList) = "Bi8_m_Bi8_mt" := by
  intro m
  have hm : m.IsUniform :=
    { noOpaque := fun d naming => by cases d; exact nofun
      noElision := rfl
      unconditional := fun c root h => by cases h; rfl }
  have hfull : m.mangleInFull (.typeForTypeName ⟨13⟩) = .ok "Bi8_m_Bi8_mt" := by decide +kernel
  exact ⟨hm, hfull, by decide +kernel, mangle_lossless hm _ _ hfull⟩

end Mangler

end NameMangling
