/-
# What is written of types

Two facts on whatever is written.  First, from states that number nodes alike the same tokens
are written, whatever the states have written before.  Second, what is written of a type has
another letter than the underscore, by which lists and numbers are marked: every production of
a type has an operator, an identifier or a part with such a letter.

Main definition: `Progress.SameNumbers`.

Main facts:
* `Writes.of_sameNumbers`: states that number nodes alike are written on alike;
* `Writes.exists_letter`: types are written with a letter.
-/
import NameMangling.Proofs.Reading
import NameMangling.Proofs.Spellings

namespace NameMangling

/-! ## States that number nodes alike -/

namespace Progress

/-- Two states give nodes the same numbers, now and later on. -/
structure SameNumbers (s t : Progress) : Prop where
  number : ∀ key, s.number? key = t.number? key
  numbered : s.numbered = t.numbered

namespace SameNumbers

variable {s t : Progress}

theorem refl (s : Progress) : s.SameNumbers s := ⟨fun _ => rfl, rfl⟩

theorem emit (h : s.SameNumbers t) (x y : Token) : (s.emit x).SameNumbers (t.emit y) :=
  ⟨h.number, h.numbered⟩

theorem emit_left (h : s.SameNumbers t) (x : Token) : (s.emit x).SameNumbers t :=
  ⟨h.number, h.numbered⟩

/-- Completing one node on both sides keeps the numbers alike, wherever the node starts. -/
theorem complete (h : s.SameNumbers t) (key : NodeKey) (i j : Nat) :
    (s.complete key i).SameNumbers (t.complete key j) where
  number k := by rw [number?_complete, number?_complete, h.number, h.numbered]
  numbered := by rw [complete_numbered, complete_numbered, h.number, h.numbered]

theorem shorthand? (h : s.SameNumbers t) (w : Spelling) (key : NodeKey) (r : Option Referent) :
    w.shorthand? s key r = w.shorthand? t key r := by
  rw [Spelling.shorthand?, Spelling.shorthand?, h.number]

end SameNumbers

end Progress

namespace Grammar

variable {g : Grammar} {w : Spelling} {n : Nat} {ps : List Piece} {scope : Scope} {t : TypeId}
  {d : DeclId} {s s₁ s' : Progress}

/-- From states that number nodes alike the same tokens are written. -/
theorem Writes.of_sameNumbers {u : Progress} (h : g.Writes w n ps s s') (hsu : s.SameNumbers u) :
    ∃ u' new, g.Writes w n ps u u' ∧ s'.SameNumbers u' ∧
      s'.tokens.toList = s.tokens.toList ++ new ∧ u'.tokens.toList = u.tokens.toList ++ new := by
  induction h generalizing u with
  | nil => exact ⟨u, [], .nil, hsu, by simp, by simp⟩
  | @token _ t _ _ _ _ ih =>
    obtain ⟨u', new, hwrites, hsame, htokens, htokens'⟩ := ih (hsu.emit t t)
    exact ⟨u', t :: new, .token hwrites, hsame, by simp [htokens], by simp [htokens']⟩
  | phrase _ _ ihp ih =>
    obtain ⟨u₁, new₁, hinside, hsame₁, htokens₁, htokens₁'⟩ := ihp hsu
    obtain ⟨u', new, hafter, hsame, htokens, htokens'⟩ := ih hsame₁
    exact ⟨u', new₁ ++ new, .phrase hinside hafter, hsame, by simp [htokens, htokens₁],
      by simp [htokens', htokens₁']⟩
  | @short _ _ _ _ t _ _ _ hshort _ ih =>
    obtain ⟨u', new, hwrites, hsame, htokens, htokens'⟩ := ih (hsu.emit t t)
    -- with the same numbers there are the same references
    rw [hsu.shorthand?] at hshort
    exact ⟨u', t :: new, .short hshort hwrites, hsame, by simp [htokens], by simp [htokens']⟩
  | spelled hnone _ _ ihb ih =>
    obtain ⟨u₁, new₁, hinside, hsame₁, htokens₁, htokens₁'⟩ := ihb hsu
    obtain ⟨u', new, hafter, hsame, htokens, htokens'⟩ := ih (hsame₁.complete _ _ u.tokens.size)
    rw [hsu.shorthand?] at hnone
    exact ⟨u', new₁ ++ new, .spelled hnone hinside hafter, hsame, by simp [htokens, htokens₁],
      by simp [htokens', htokens₁']⟩

end Grammar

/-! ## Letters -/

/-- A letter other than the mark of lists and numbers. -/
def HasLetter (ts : List Token) : Prop := ∃ c ∈ spellAll ts, c ≠ '_'

/-- What is written from one state to the other has a letter. -/
def Progress.WritesLetter (s s' : Progress) : Prop :=
  ∃ new, s'.tokens.toList = s.tokens.toList ++ new ∧ HasLetter new

/-- A piece that is not written without a letter. -/
def Piece.Solid : Piece → Prop
  | .token t => HasLetter [t]
  | .phrase _ (.type _) | .node _ _ _ | .fail _ => True
  | .phrase _ _ => False

/-- A production with such a piece. -/
def Solid (ps : List Piece) : Prop := ∃ piece ∈ ps, piece.Solid

namespace Progress.WritesLetter

variable {s s₁ s' : Progress}

/-- What is written behind a letter does not take it away. -/
theorem trans_extends (h : s.WritesLetter s₁) (h' : s₁.Extends s') : s.WritesLetter s' := by
  obtain ⟨new, hnew, c, hc, hne⟩ := h
  obtain ⟨more, hmore⟩ := h'.tokens
  refine ⟨new ++ more, by rw [← hmore, hnew, List.append_assoc], c, ?_, hne⟩
  rw [spellAll_append]
  exact List.mem_append_left _ hc

/-- What is written in front of a letter does not take it away. -/
theorem of_extends (h : s.Extends s₁) (h' : s₁.WritesLetter s') : s.WritesLetter s' := by
  obtain ⟨more, hmore⟩ := h.tokens
  obtain ⟨new, hnew, c, hc, hne⟩ := h'
  refine ⟨more ++ new, by rw [hnew, ← hmore, List.append_assoc], c, ?_, hne⟩
  rw [spellAll_append]
  exact List.mem_append_right _ hc

theorem emit {t : Token} (h : HasLetter [t]) : s.WritesLetter (s.emit t) := ⟨[t], by simp, h⟩

end Progress.WritesLetter

namespace Solid

variable {ps qs : List Piece}

theorem append_left (h : Solid ps) : Solid (ps ++ qs) := by
  obtain ⟨piece, hpiece, hsolid⟩ := h
  exact ⟨piece, List.mem_append_left _ hpiece, hsolid⟩

theorem append_right (h : Solid qs) : Solid (ps ++ qs) := by
  obtain ⟨piece, hpiece, hsolid⟩ := h
  exact ⟨piece, List.mem_append_right _ hpiece, hsolid⟩

theorem type (scope : Scope) (t : TypeId) : Solid (.type scope t :: ps) :=
  ⟨_, List.mem_cons_self, trivial⟩

theorem node (scope : Scope) (key : NodeKey) (r : Option Referent) :
    Solid (.node scope key r :: ps) :=
  ⟨_, List.mem_cons_self, trivial⟩

theorem fail (e : Refusal) : Solid (.fail e :: ps) := ⟨_, List.mem_cons_self, trivial⟩

/-- An operator with a letter is not written without one. -/
theorem op {o : Operator} (h : o.letters.toList.any (· != '_') = true) : Solid (.op o :: ps) := by
  obtain ⟨c, hc, hne⟩ := List.any_eq_true.1 h
  refine ⟨_, List.mem_cons_self, c, ?_, by simpa using hne⟩
  simpa [spellAll, Token.spelling] using hc

end Solid

namespace Grammar

variable {g : Grammar} {w : Spelling} {n : Nat} {ps : List Piece} {scope : Scope} {t : TypeId}
  {d : DeclId} {s s₁ s' : Progress}

/-- A nominal declaration is an operator with a letter, a node or a refusal. -/
theorem solid_nominal (scope : Scope) (d : DeclId) : Solid (g.nominal scope d) := by
  unfold nominal
  split
  · exact .fail _
  · split
    · rename_i name _
      exact .op (by cases name <;> decide)
    · split
      · exact .node _ _ _
      · split
        · exact .node _ _ _
        · exact .fail _

/-- The operator of a parameter has a letter. -/
theorem solid_genericParam (key : ParamKey) : Solid (g.genericParam scope key) := by
  unfold genericParam
  dsimp only
  split
  · obtain ⟨_ | _, _ | _⟩ := key <;> exact .op (by decide)
  · exact .fail _

/-- An identifier begins with the digits of its length, and the stand-in for one has a letter. -/
theorem solid_declName (d : DeclId) : Solid (g.declName d) := by
  refine .append_left ?_
  unfold identifierPieces
  dsimp only
  split
  · rename_i x _
    obtain ⟨c, hc, hdigit⟩ := head?_spellIdentifier (g.program.text x)
    refine ⟨_, List.mem_cons_self, c, ?_, fun h => ?_⟩
    · simpa [spellAll, Token.spelling] using List.mem_of_mem_head? hc
    · rw [h] at hdigit
      cases hdigit
  · split
    · exact .op (by decide)
    · exact .fail _

/-- The body of a declaration has a name or the letter of its kind. -/
theorem solid_declBody (scope : Scope) (d : DeclId) : Solid (g.declBody scope d) := by
  unfold declBody
  split
  · exact solid_declName d
  · exact .append_right (.op (by decide))
  · split
    · rename_i o ho
      refine .append_right (.op ?_)
      cases hkind : g.program.kindOf d <;> rw [hkind] at ho <;> cases ho <;> decide
    · exact .fail _

/-- A type with arguments has a part that is a type, or the letter of its kind. -/
theorem solid_boundGeneric (scope : Scope) (t : TypeId) (n : NominalType) :
    Solid (g.boundGeneric scope t n) := by
  unfold boundGeneric
  dsimp only
  split
  · split
    · exact .type _ _
    · exact .append_right (.op (by decide))
  · exact .append_right (.op (by decide))

/-- A structural type has a part that is a type, or an operator with a letter. -/
theorem solid_structural (scope : Scope) (t : TypeId) : Solid (g.structural scope t) := by
  unfold structural
  split
  · exact .type _ _
  · exact .type _ _
  · exact solid_boundGeneric _ _ _
  · exact solid_boundGeneric _ _ _
  · exact .append_right (.op (by decide))
  · unfold function
    split
    · exact .type _ _
    · exact .fail _
  · exact .append_right (.op (by decide))
  · unfold composition
    refine .append_right ?_
    split
    · exact .type _ _
    · split <;> exact .op (by decide)
  · unfold dependentMember
    split
    · exact .fail _
    · exact .fail _
    · dsimp only
      split <;> exact .type _ _
  · exact .append_right (.op (by decide))
  · exact .fail _

/-- Every type is written with a letter. -/
theorem solid_type (scope : Scope) (t : TypeId) : Solid (g.type scope t) := by
  unfold type
  split
  · exact .fail _
  · split
    case h_9 => exact solid_genericParam _
    case h_10 => exact solid_nominal _ _
    case h_11 d ordinal _ _ =>
      split
      · cases ordinal <;> exact .op (by decide)
      · exact .node _ _ _
    case h_12 =>
      unfold aliased
      split
      · exact solid_nominal _ _
      · exact .type _ _
    case h_13 | h_14 | h_15 | h_16 => exact .type _ _
    case h_17 => exact .node _ _ _
    all_goals exact .op (by decide)

/-- The body of a node has a letter, whether it is a type or a declaration. -/
theorem solid_body (scope : Scope) (key : NodeKey) : Solid (g.production scope (.body key)) := by
  cases key with
  | type t => exact solid_structural scope t
  | decl d => exact solid_declBody scope d

/-- What is written instead of a node has a letter. -/
theorem hasLetter_of_shorthand? {key : NodeKey} {r : Option Referent} {t : Token}
    (h : w.shorthand? s key r = some t) : HasLetter [t] := by
  obtain ⟨r', -, -, rfl⟩ | ⟨-, n, -, rfl⟩ := Spelling.shorthand?_eq_some h
  · exact ⟨r'.marker, by simp [spellAll, Token.spelling, Referent.spelling],
      by cases r' <;> simp [Referent.marker]⟩
  · exact ⟨'A', by simp [spellAll, Token.spelling, spellBackReference], by decide⟩

/-- What is written of a solid row of pieces has a letter. -/
theorem Writes.exists_letter (h : g.Writes w n ps s s') (hps : Solid ps) : s.WritesLetter s' := by
  induction h with
  | nil =>
    obtain ⟨piece, hpiece, -⟩ := hps
    cases hpiece
  | token after ih =>
    obtain ⟨piece, hpiece, hsolid⟩ := hps
    rcases List.mem_cons.1 hpiece with rfl | hpiece
    · exact (Progress.WritesLetter.emit hsolid).trans_extends after.extends
    · exact .of_extends (.emit _ _) (ih ⟨piece, hpiece, hsolid⟩)
  | @phrase _ scope p _ _ _ _ inside after ihp ih =>
    -- the piece with a letter is the first one, or it comes later
    obtain ⟨piece, hpiece, hsolid⟩ := hps
    rcases List.mem_cons.1 hpiece with rfl | hpiece
    · cases p with
      | type t => exact (ihp (solid_type scope t)).trans_extends after.extends
      | context | conformance | body => cases hsolid
    · exact .of_extends inside.extends (ih ⟨piece, hpiece, hsolid⟩)
  | short hshort after _ =>
    exact (Progress.WritesLetter.emit (hasLetter_of_shorthand? hshort)).trans_extends after.extends
  | @spelled _ scope key _ _ _ _ _ hnone inside after ihb _ =>
    exact (ihb (solid_body scope key)).trans_extends
      ((Progress.Extends.complete _ _ _).trans after.extends)

end Grammar

end NameMangling
