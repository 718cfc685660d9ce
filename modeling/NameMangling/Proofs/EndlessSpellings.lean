/-
# Spellings that never end

A node is given its number after it has been spelled.  Where its spelling comes to the node
again before that, it is spelled inside itself, and so on: no bound on nesting is enough.  A
phrase enters another one if it comes to unfold that behind pieces that can be written, and
phrases that always enter further ones of their kind are never written to the end.

So it is with an alias that lies in a variable whose type names the alias: the alias is spelled
by its context, the variable by its type, and the type by the alias.

Main definitions:
* `Grammar.Enters`, the phrase that a phrase comes to unfold;
* `Program.AliasLoop`, an alias in a variable of a module whose type names the alias.

Main facts:
* `not_finishes_of_enters`: what can always go on does not end;
* `Session.requestWithin_aliasLoop`: the type of such a variable has no symbol, and is not
  refused, whatever the bound.
-/
import NameMangling.Proofs.Endings
import NameMangling.Proofs.Nesting
import NameMangling.Proofs.NominalPaths

namespace NameMangling

namespace Grammar

variable {g : Grammar} {w : Spelling} {n k : Nat} {scope scope' : Scope} {p p' : Phrase}
  {piece : Piece} {ps qs rest : List Piece} {s s' s₁ : Progress} {e : Option Refusal}

/-! ## Phrases inside phrases -/

/-- A phrase comes to unfold another one, behind pieces that can be written. -/
inductive Enters (g : Grammar) (w : Spelling) (scope : Scope) (p : Phrase) (s : Progress) :
    Scope → Phrase → Progress → Prop
  | intro {k : Nat} {front rest : List Piece} {piece : Piece} {scope' : Scope} {p' : Phrase}
      {s' : Progress} (parts : g.production scope p = front ++ piece :: rest)
      (before : g.Writes w k front s s') (unfolds : w.Unfolds s' piece scope' p') :
      Enters g w scope p s scope' p' s'

/-- If pieces behind some that can be written end the row, they end by themselves. -/
theorem Finishes.of_behind (h : g.Finishes w n (ps ++ qs) s e) (hps : g.Writes w k ps s s₁) :
    g.Finishes w n qs s₁ e := by
  have hrow := spell_append (g := g) w n ps qs s
  -- with a greater bound the pieces in front are written, so they are not refused with this one
  have hwritten : g.Finishes w (max n k) ps s none :=
    finishes_none.2 ⟨s₁, hps.mono (Nat.le_max_right n k)⟩
  cases hrun : w.pieces (g.spell w n) ps s with
  | ok _ s₂ =>
    obtain rfl : s₂ = s₁ := (pieces_ok_iff.1 hrun).agree hps
    rw [hrun] at hrow
    cases e <;> exact h.imp fun _ h => hrow.symm.trans h
  | error failure s₂ =>
    cases failure with
    | refused r =>
      have hrefused : g.Finishes w n ps s (some r) := ⟨s₂, hrun⟩
      cases (hrefused.mono (Nat.le_max_left n k)).unique hwritten
    | tooDeep =>
      rw [hrun] at hrow
      exact absurd hrow (exists_finishes_iff.1 ⟨e, h⟩ s₂)

/-- If a row ends, so does the phrase that its first piece unfolds, within a smaller bound. -/
theorem Finishes.of_unfolds (h : g.Finishes w n (piece :: rest) s e)
    (hunfolds : w.Unfolds s piece scope p) :
    ∃ m < n, ∃ e', g.Finishes w m (g.production scope p) s e' := by
  have hrow := spell_append (g := g) w n [piece] rest s
  have hends := exists_finishes_iff.1 ⟨e, h⟩
  -- a phrase that meets the bound makes the row meet it
  have hinside : ∀ s', g.spell w n scope p s ≠ .error .tooDeep s' := by
    intro s' hspell
    refine hends s' (hrow.trans ?_)
    rw [Encoder.pieces_singleton]
    cases hunfolds with
    | phrase => rw [show w.piece (g.spell w n) (.phrase scope p) s = _ from hspell]
    | @node _ key ref hnone =>
      have hnode := Encoder.Implements.run_piece_node w (g.spell w n) scope key ref s
      rw [hnone] at hnode
      dsimp only [EStateM.run] at hnode
      rw [hnode, hspell]
  cases n with
  | zero => exact absurd rfl (hinside s)
  | succ m => exact ⟨m, m.lt_succ_self, exists_finishes_iff.2 hinside⟩

/-- A phrase that ends has entered nothing that does not end within a smaller bound. -/
theorem Enters.finishes (h : g.Enters w scope p s scope' p' s')
    (hends : g.Finishes w n (g.production scope p) s e) :
    ∃ m < n, ∃ e', g.Finishes w m (g.production scope' p') s' e' := by
  obtain ⟨parts, before, unfolds⟩ := h
  rw [parts] at hends
  exact (hends.of_behind before).of_unfolds unfolds

/-- Phrases that always enter further phrases of their kind are never written to the end. -/
theorem not_finishes_of_enters {P : Scope → Phrase → Progress → Prop}
    (progress : ∀ scope p s, P scope p s →
      ∃ scope' p' s', g.Enters w scope p s scope' p' s' ∧ P scope' p' s')
    (h : P scope p s) : ¬g.Finishes w n (g.production scope p) s e := by
  -- each phrase takes one off the bound
  induction n using Nat.strongRecOn generalizing scope p s e with
  | _ n ih =>
    intro hends
    obtain ⟨scope', p', s', henters, h'⟩ := progress scope p s h
    obtain ⟨m, hm, e', hends'⟩ := henters.finishes hends
    exact ih m hm h' hends'

end Grammar

/-! ## An alias in a variable of its type -/

/-- An alias lies in a variable of an ordinary module, and the type of the variable names the
alias. -/
structure Program.AliasLoop (p : Program) (m v a : DeclId) (t : TypeId) : Prop where
  moduleKind : p.kindOf m = .nativeModule
  moduleName : (p.decl m).name.isSome = true
  moduleOrdinary : p.isStandardModule m = false
  variableKind : p.kindOf v = .property
  variableName : (p.decl v).name.isSome = true
  variableOrdinary : p.isStandardModule v = false
  variableParent : (p.decl v).parent = some (.decl m)
  variableType : (p.decl v).interfaceType = some t
  aliasKind : p.kindOf a = .typeAlias
  aliasParent : (p.decl a).parent = some (.decl v)
  node : p.types.node t = .nominal a none
  canonical : p.types.isCanonical t = true

namespace Grammar

variable {g : Grammar} {w : Spelling} {scope : Scope} {m v a d : DeclId} {t : TypeId}
  {p : Phrase} {s : Progress}

/-- A declaration that has a name is written by it. -/
theorem exists_declName_eq (h : (g.program.decl d).name.isSome = true) :
    ∃ ts : List Token, g.declName d = ts.map .token := by
  obtain ⟨x, hx⟩ : ∃ x, g.identifierPieces d = [.token (.identifier x)] := by
    unfold identifierPieces
    dsimp only
    split
    · exact ⟨_, rfl⟩
    · rename_i hnone
      simp_all [Option.or_eq_none_iff]
  exact ⟨_, declName_eq_discriminatedName hx⟩

/-- An ordinary module with a name can be written, and gives no number to another
declaration. -/
theorem exists_writes_module (scope : Scope) (hkind : g.program.kindOf m = .nativeModule)
    (hname : (g.program.decl m).name.isSome = true)
    (hordinary : g.program.isStandardModule m = false) (hne : d ≠ m)
    (hnew : s.number? (.decl d) = none) :
    ∃ s', g.Writes w 2 [.context scope (.decl m)] s s' ∧ s'.number? (.decl d) = none := by
  have hcontext : g.production scope (.context (.decl m)) = [.node scope (.decl m) none] :=
    context_eq_nativeModule hkind hordinary
  cases hshort : w.shorthand? s (.decl m) none with
  | some token =>
    refine ⟨s.emit token, .phrase ?_ .nil, hnew⟩
    rw [hcontext]
    exact .short hshort .nil
  | none =>
    obtain ⟨ts, hts⟩ := exists_declName_eq hname
    obtain ⟨s₁, hwrites⟩ := exists_writes_tokens (g := g) (w := w) (n := 0) ts s
    have hbody : g.production scope (.body (.decl m)) = ts.map .token :=
      (body_nativeModule hkind).trans hts
    refine ⟨s₁.complete (.decl m) s.tokens.size, .phrase ?_ .nil, ?_⟩
    · rw [hcontext]
      refine .spelled hshort ?_ .nil
      rwa [hbody]
    · -- writing the name completes no node, and the node completed then is the module
      have hnodes := (writes_tokens hwrites).2
      rw [Progress.number?_complete, if_neg (by simpa using hne), Option.or_none,
        Progress.number?, hnodes]
      exact hnew

/-- The type of the variable is the node of the alias. -/
theorem type_aliasLoop (scope : Scope) (hloop : g.program.AliasLoop m v a t) :
    g.production scope (.type t) = [.node scope (.decl a) none] := by
  have hstandard : g.standardName? a = none := by
    simp [standardName?, hloop.aliasParent, hloop.variableOrdinary]
  simp [production, type, nominal, hloop.canonical, hloop.node, hloop.aliasKind, hstandard,
    nominalOperator?]

/-- The alias is spelled by the variable around it and its name. -/
theorem body_aliasLoop (scope : Scope) (hloop : g.program.AliasLoop m v a t) :
    g.production scope (.body (.decl a)) =
      .context scope (.decl v) :: (g.declName a ++ [.op .typeAlias]) := by
  simp [production, declBody, hloop.aliasKind, contextOf, hloop.aliasParent, nominalOperator?]

/-- The variable is spelled by its module, its name and, then, its type. -/
theorem context_aliasLoop (scope : Scope) (hloop : g.program.AliasLoop m v a t) :
    ∃ (ts : List Token) (rest : List Piece), g.production scope (.context (.decl v)) =
      (.context scope (.decl m) :: ts.map .token) ++ .type (g.declScope v) t :: rest := by
  obtain ⟨ts, hts⟩ := exists_declName_eq hloop.variableName
  have hkind : g.program.types.kind t ≠ .function := by
    rw [Arena.kind, hloop.node]
    simp [TypeNode.kind]
  obtain ⟨rest, htype⟩ : ∃ rest, g.declType scope v = .type (g.declScope v) t :: rest := by
    unfold declType
    rw [hloop.variableType]
    simp [hkind]
  refine ⟨ts, rest ++ .op .property :: g.staticMark v, ?_⟩
  simp [production, context, declContext, entity, hloop.variableKind, value, contextOf,
    hloop.variableParent, htype, hts]

/-- The alias is not the module. -/
theorem ne_of_aliasLoop (hloop : g.program.AliasLoop m v a t) : a ≠ m := by
  rintro rfl
  have hkind := hloop.aliasKind
  rw [hloop.moduleKind] at hkind
  cases hkind

/-- Where the alias has no number, its type, the variable and the alias lead to one another. -/
inductive InLoop (v a : DeclId) (t : TypeId) : Phrase → Progress → Prop
  | ofType {s : Progress} (new : s.number? (.decl a) = none) : InLoop v a t (.type t) s
  | ofAlias {s : Progress} (new : s.number? (.decl a) = none) :
    InLoop v a t (.body (.decl a)) s
  | ofVariable {s : Progress} (new : s.number? (.decl a) = none) :
    InLoop v a t (.context (.decl v)) s

/-- Each phrase of the loop enters the next one, and the alias stays without a number. -/
theorem InLoop.enters (hloop : g.program.AliasLoop m v a t) (h : InLoop v a t p s) :
    ∃ scope' p' s', g.Enters w scope p s scope' p' s' ∧ InLoop v a t p' s' := by
  cases h with
  | ofType new =>
    -- an alias never becomes a placeholder, and without a number it is spelled out
    have hlong : w.shorthand? s (.decl a) none = none := by
      simp [Spelling.shorthand?, new]
    exact ⟨_, _, _, .intro (type_aliasLoop scope hloop) (.nil (n := 0)) (.node hlong),
      .ofAlias new⟩
  | ofAlias new =>
    exact ⟨_, _, _, .intro (body_aliasLoop scope hloop) (.nil (n := 0)) .phrase, .ofVariable new⟩
  | ofVariable new =>
    -- the module and the name of the variable are written before its type
    obtain ⟨ts, rest, hparts⟩ := context_aliasLoop scope hloop
    obtain ⟨s₁, hmodule, hnew⟩ := exists_writes_module (w := w) scope hloop.moduleKind
      hloop.moduleName hloop.moduleOrdinary (ne_of_aliasLoop hloop) new
    obtain ⟨s₂, hname⟩ := exists_writes_tokens (g := g) (w := w) (n := 2) ts s₁
    refine ⟨_, _, s₂, .intro hparts (writes_append.2 ⟨s₁, hmodule, hname⟩) .phrase, .ofType ?_⟩
    rw [Progress.number?, (writes_tokens hname).2]
    exact hnew

end Grammar

namespace Session

/-- The type of a variable that names an alias in the variable meets every bound: it has no
symbol, and it is not refused. -/
theorem requestWithin_aliasLoop {s : Session} {m v a : DeclId} {t : TypeId}
    (hloop : s.mangler.program.AliasLoop m v a t) (n : Nat) :
    (s.requestWithin n (.typeWithoutLead t)).1 = .error .tooDeep := by
  let plan : Plan := { lead := "", pieces := [.type Grammar.outermost t] }
  have hplan : s.mangler.plan (.typeWithoutLead t) = .ok plan := rfl
  let g := s.mangler.grammar plan.keepsSugar
  let w : Spelling := { placesReferent := s.mangler.placesReferent plan }
  have hendless : ∀ k e, ¬g.Finishes w k (g.production Grammar.outermost (.type t)) {} e :=
    fun k e => Grammar.not_finishes_of_enters
      (P := fun _ p s => Grammar.InLoop v a t p s)
      (fun scope p s h => Grammar.InLoop.enters hloop h) (.ofType rfl)
  have hdeep : ∃ p, s.mangler.writeWithin n plan = .error .tooDeep p := by
    by_contra hne
    obtain ⟨e, hends⟩ := Grammar.exists_finishes_iff.2 fun p hp => hne ⟨p, hp⟩
    obtain ⟨k, -, e', hends'⟩ := hends.of_unfolds .phrase
    exact hendless k e' hends'
  obtain ⟨p, hp⟩ := hdeep
  rw [requestWithin_eq hplan, hp]

end Session

namespace Program

/-- In a module `M` a variable `v`, an alias `a` in it, and the alias as the type of the
variable. -/
def aliasSteps : List BuildStep :=
  [.intern "M", .decl { kind := .nativeModule, name := some ⟨1⟩ },
    .intern "v", .decl { kind := .property, name := some ⟨2⟩, parent := some (.decl ⟨0⟩) },
    .intern "a", .decl { kind := .typeAlias, name := some ⟨3⟩, parent := some (.decl ⟨1⟩) },
    .type (.nominal ⟨2⟩ none),
    .setDecl ⟨1⟩ { kind := .property, name := some ⟨2⟩, parent := some (.decl ⟨0⟩),
                   interfaceType := some ⟨12⟩ }]

/-- The program with this alias. -/
def aliasProgram : Program := empty.build aliasSteps

theorem aliasProgram_built : aliasProgram.Built :=
  ⟨⟨aliasSteps, by decide +kernel, rfl⟩, by decide +kernel⟩

theorem aliasProgram_aliasLoop : aliasProgram.AliasLoop ⟨0⟩ ⟨1⟩ ⟨2⟩ ⟨12⟩ := by
  constructor <;> decide +kernel

end Program

end NameMangling
