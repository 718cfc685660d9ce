/-
# Nameless declarations

Where nameless declarations are allowed, a stand-in is written wherever a symbol would have
the name of one: the symbol is the one that the declarations would have under a name, with
the stand-in in its place.  The exception are members of type parameters.  The name of an
associated type is looked up where such a member is spelled, and a missing one is refused
whatever the settings are.

Main definitions:
* `Mangler.calling`, a mangler that allows no nameless declarations, for the program in which
  they have a name;
* `SameUpToName`, two answers that differ in that name.

Main facts:
* `nameless_allowed_iff`: no symbol is refused for a missing name exactly if all members of
  type parameters have names, and all other missing names are written as stand-ins;
* `nameless_member_refused`: a member without a name.
-/
import NameMangling.Proofs.Relaxing

namespace NameMangling

/-- Two answers for programs of which one has the name `x` for the nameless declarations of
the other: the same text with the name in the places of the stand-ins, or the same error. -/
inductive SameUpToName (x : String) : Answer → Answer → Prop
  | symbol (lead : String) (ts : List Token) :
      SameUpToName x (.ok (Mangler.symbol lead ts))
        (.ok (Mangler.symbol lead (ts.map (Token.called (some x)))))
  | error (e : Failure) : SameUpToName x (.error e) (.error e)

namespace Mangler

variable {m : Mangler} {n : Name}

/-- The mangler for the program in which all nameless declarations are called `n`; where a
name is missing all the same it is refused. -/
def calling (m : Mangler) (n : Name) : Mangler :=
  { m with
    program := m.program.naming (some n)
    options := { m.options with allowsNameless := false } }

/-- A name that is not reserved is given to all nameless declarations. -/
theorem renames_calling (hn : StandardName.ofText? (m.program.text n) = none) :
    Renames (some n) m (m.calling n) where
  grammar :=
    { program := rfl
      elides := rfl
      foreign := rfl
      unreserved := by
        rintro x ⟨⟩
        exact hn
      strict := nofun }
  sugar := id
  placeholders := rfl
  accepts := rfl

/-! ## Members of type parameters -/

/-- A member of a type parameter whose declaration has no name is refused where it is
spelled for the first time. -/
theorem spell_namelessMember {g : Grammar} (haccepts : g.acceptsSugar = true) {t base : TypeId}
    {d : DeclId} (ht : g.program.types.node t = .dependentMember base d)
    (hname : (g.program.decl d).name = none) (w : Spelling) (k : Nat) (scope : Scope) :
    g.spell w (k + 2) scope (.type t) {} = .error (.refused (.namelessEntity d)) {} := by
  have htype : g.production scope (.type t) = [.node scope (.type t) none] := by
    simp [Grammar.production, Grammar.type, haccepts, ht]
  have hbody : g.production scope (.body (.type t)) = [.fail (.namelessEntity d)] := by
    simp [Grammar.production, Grammar.structural, Grammar.dependentMember, ht, hname]
  have hshort : w.shorthand? {} (.type t) none = none := by
    simp [Spelling.shorthand?, Progress.number?]
  have hrun := Encoder.Implements.run_piece_node w (g.spell w (k + 1)) scope (.type t) none {}
  dsimp only [EStateM.run] at hrun
  rw [Grammar.spell, htype, Encoder.pieces_singleton, hrun, hshort, Grammar.spell, hbody]
  rfl

/-- Some request leads to every member of a type parameter, and is refused if its declaration
has no name. -/
theorem mangle_namelessMember {d : DeclId} (h : m.program.IsNamelessMember d) :
    ∃ t, m.mangle (.typeForDebugger t none) = .error (.refused (.namelessEntity d)) := by
  obtain ⟨⟨t, base, ht⟩, hname⟩ := h
  obtain ⟨k, hk⟩ := Nat.exists_eq_add_of_le' (m.grammar true).five_le_depthBound
  have haccepts : (m.grammar true).acceptsSugar = true := Bool.or_true _
  refine ⟨t, mangle_eq_error.mpr (.inr ⟨_, {}, rfl, ?_⟩)⟩
  simp only [write, Grammar.spellPieces, hk, Piece.type, Spelling.pieces, Spelling.piece, bind,
    EStateM.bind]
  rw [spell_namelessMember haccepts ht hname]

/-- In the program in which all its declarations have names only a declaration that it does not
have is nameless. -/
theorem size_le_of_nameless {p : Program} {d : DeclId}
    (h : ((p.naming (some n)).decl d).name = none) : p.decls.size ≤ d.index := by
  rw [Program.decl_naming] at h
  split at h
  · cases hname : (p.decl d).name <;> rw [hname] at h <;> cases h
  · omega

/-! ## Stand-ins -/

/-- Two plans with the same lead that are spelled alike up to a name have the same answers up to
the name. -/
theorem sameUpToName_carryOut {m' : Mangler} {x : String} {plan plan' : Plan}
    (hlead : plan'.lead = plan.lead)
    (hwrite : m'.write plan' = Spelling.callEnd (some x) (m.write plan)) :
    SameUpToName x (m.carryOut plan).1 (m'.carryOut plan').1 := by
  unfold carryOut
  rw [hwrite, hlead]
  cases m.write plan with
  | ok _ s =>
    have hts : (s.called (some x)).tokens.toList =
        s.tokens.toList.map (Token.called (some x)) := by
      simp [Progress.called]
    simp only [Spelling.callEnd, hts]
    exact .symbol _ _
  | error e s => exact .error e

/-- What a mangler that allows nameless declarations answers, compared with one for the
program in which they have a name. -/
theorem mangle_calling (htolerant : m.options.allowsNameless = true)
    (hn : StandardName.ofText? (m.program.text n) = none) (r : Request) :
    (∃ d, m.program.IsNamelessMember d ∧ m.mangle r = .error (.refused (.namelessEntity d))) ∨
      (∃ d, m.program.decls.size ≤ d.index ∧
        (m.calling n).mangle r = .error (.refused (.namelessEntity d))) ∨
      SameUpToName (m.program.text n) (m.mangle r) ((m.calling n).mangle r) := by
  rcases (renames_calling hn).ends r with ⟨e, -, he, he'⟩ | ⟨plan, ps, hp, hp', hends⟩
  · right; right
    rw [mangle_eq_error.mpr (.inl ⟨e, rfl, he⟩), mangle_eq_error.mpr (.inl ⟨e, rfl, he'⟩)]
    exact .error _
  · generalize hwrite : m.write plan = x,
      hwrite' : (m.calling n).write { plan with pieces := ps } = x' at hends
    cases hends with
    | alike =>
      right; right
      unfold mangle answer
      rw [hp, hp']
      refine sameUpToName_carryOut rfl ?_
      rw [hwrite, hwrite', Option.map_some]
    | nameless strict =>
      rw [show (m.grammar plan.keepsSugar).options = m.options from rfl, htolerant] at strict
      cases strict
    | member nameless =>
      exact .inl ⟨_, nameless, mangle_eq_error.mpr (.inr ⟨plan, _, hp, hwrite⟩)⟩
    | sugar strict tolerant =>
      -- both manglers accept the same sugar
      rw [show ((m.calling n).grammar plan.keepsSugar).acceptsSugar =
        (m.grammar plan.keepsSugar).acceptsSugar from rfl, strict] at tolerant
      cases tolerant
    | unnamed missing =>
      exact .inr (.inl ⟨_, size_le_of_nameless missing,
        mangle_eq_error.mpr (.inr ⟨_, _, hp', hwrite'⟩)⟩)

end Mangler

namespace Session

/-- Nameless declarations are allowed by a stand-in for their names, except where they are
members of type parameters.  A mangler that allows them refuses nothing for a missing name,
whatever it is asked, exactly if every member of a type parameter has a name.  It refuses such
a member where it has none; anything else it answers as a mangler that allows no nameless
declarations answers for the program in which they are called `n`, with stand-ins in the
places of that name, unless the request leads to a declaration that the program does not
have. -/
theorem nameless_allowed_iff (m : Mangler) (n : Name)
    (htolerant : m.options.allowsNameless = true)
    (hn : StandardName.ofText? (m.program.text n) = none) :
    ((∀ history r d, ((m.inUse history).request r).1 ≠ .error (.refused (.namelessEntity d))) ↔
      ∀ d, ¬ m.program.IsNamelessMember d) ∧
    ∀ history history' r,
      let tolerant := ((m.inUse history).request r).1
      let strict := (((m.calling n).inUse history').request r).1
      (∃ d, m.program.IsNamelessMember d ∧ tolerant = .error (.refused (.namelessEntity d))) ∨
        (∃ d, m.program.decls.size ≤ d.index ∧
          strict = .error (.refused (.namelessEntity d))) ∨
        SameUpToName (m.program.text n) tolerant strict := by
  simp only [request_eq_mangle, Mangler.mangler_inUse]
  refine ⟨⟨?_, ?_⟩, fun _ _ => Mangler.mangle_calling htolerant hn⟩
  · intro hnever d hmember
    obtain ⟨t, ht⟩ := Mangler.mangle_namelessMember hmember
    exact hnever [] _ d ht
  · -- a missing name is reported by a mangler that is strict, or for such a member
    intro hmembers _ r d hrefused
    rcases (Mangler.fits_of_mangle hrefused).name d rfl with hstrict | hmember
    · rw [show (m.grammar false).options = m.options from rfl, htolerant] at hstrict
      cases hstrict
    · exact hmembers d hmember

/-- The symbol of a nameless property has a stand-in where that of a property `p` has the
name. -/
theorem nameless_allowed_iff_property :
    let m : Mangler :=
      { program := partlyNamelessProgram
        options := { keepsSugar := true, allowsNameless := true } }
    let unnamed : Request := .entity ⟨3⟩ .plain
    let tolerant := ((m.inUse []).request unnamed).1
    let strict := (((m.calling ⟨3⟩).inUse []).request unnamed).1
    m.program.text ⟨3⟩ = "p" ∧ tolerant = .ok "$q1MXnAa1CC_yttvp" ∧
      strict = .ok "$q1M1pAa1CC_yttvp" ∧
      ((∀ history r d,
          ((m.inUse history).request r).1 ≠ .error (.refused (.namelessEntity d))) ↔
        ∀ d, ¬ m.program.IsNamelessMember d) ∧
      ((∃ d, m.program.IsNamelessMember d ∧ tolerant = .error (.refused (.namelessEntity d))) ∨
        (∃ d, m.program.decls.size ≤ d.index ∧
          strict = .error (.refused (.namelessEntity d))) ∨
        SameUpToName "p" tolerant strict) := by
  intro m unnamed tolerant strict
  have htext : m.program.text ⟨3⟩ = "p" := by decide +kernel
  obtain ⟨hiff, hanswers⟩ := nameless_allowed_iff m ⟨3⟩ rfl (by rw [htext]; decide)
  refine ⟨htext, by decide +kernel, by decide +kernel, hiff, ?_⟩
  rw [← htext]
  exact hanswers [] [] unnamed

/-- A module `M`, a protocol `P` with a nameless associated type, and the member of that type
of a generic parameter. -/
def namelessMemberProgram : Program :=
  let p := Program.empty
  let (module, p) := p.addNamed .nativeModule "M" none
  let (protocol, p) := p.addNamed (.protocolType []) "P" (some (.decl module))
  let (member, p) := p.addDecl { kind := .associatedType, parent := some (.decl protocol) }
  let (param, p) := p.addType (.genericParam ⟨0, 0⟩)
  (p.addType (.dependentMember param member)).2

/-- A stand-in is written for the name of the associated type in its own symbol, but the member
of a generic parameter is refused for the same missing name. -/
theorem nameless_member_refused :
    let m : Mangler := { program := namelessMemberProgram, options := { allowsNameless := true } }
    ((m.inUse []).request (.entity ⟨2⟩ .plain)).1 = .ok "$q1M1PPXnQy" ∧
      ((m.inUse []).request (.typeWithoutLead ⟨13⟩)).1 =
        .error (.refused (.namelessEntity ⟨2⟩)) := by
  decide +kernel

end Session

end NameMangling
