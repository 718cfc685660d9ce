/-
# Reserved spellings of the standard library

A nominal type of the standard library module is spelled after the mark of that module, by its
level as any other one, unless its name is reserved.  A reserved name has a spelling of its
own, which neither kind nor discriminator enters: all nominal types of one reserved name have
one symbol.

Main definitions:
* `Program.StandardMember`, the nominal types of the standard library module;
* `standardTokens`, how they are spelled.

Main fact: `standardMembers_differ_iff`.
-/
import NameMangling.Proofs.NominalPaths

namespace NameMangling

/-! ## Tokens -/

/-- The tokens of a nominal type of the standard library module. -/
def standardTokens (l : Level) : List Token :=
  match StandardName.ofText? l.name with
  | some name => [.op (.standard name)]
  | none => .op .standardModule :: l.tokens

namespace StandardName

theorem text_of_ofText? {x : String} {name : StandardName} (h : ofText? x = some name) :
    name.text = x := by
  simpa using List.find?_some h

/-- A reserved spelling is told by its letters, also from the mark of the module. -/
theorem letters_injective : ∀ a ∈ all, ∀ b ∈ all, a.letters.toList = b.letters.toList → a = b := by
  decide +kernel

theorem head?_letters : ∀ a ∈ all, a.letters.toList.head? = some 'S' := by
  decide +kernel

theorem mem_all (a : StandardName) : a ∈ all := by
  cases a <;> decide

end StandardName

section

variable {l l' : Level} {name name' : StandardName}

/-- A level with a reserved name is spelled by the letters of that. -/
theorem spellAll_of_reserved (h : StandardName.ofText? l.name = some name) :
    spellAll (standardTokens l) = name.letters.toList := by
  rw [standardTokens, h]
  exact List.append_nil _

/-- A level with any other name is spelled in the standard module. -/
theorem spellAll_of_unreserved (h : StandardName.ofText? l.name = none) :
    spellAll (standardTokens l) = 's' :: spellAll l.tokens := by
  rw [standardTokens, h]
  rfl

/-- A reserved spelling begins with another letter than the mark of the module. -/
theorem spellAll_reserved_ne (h : StandardName.ofText? l.name = some name)
    (h' : StandardName.ofText? l'.name = none) :
    spellAll (standardTokens l) ≠ spellAll (standardTokens l') := by
  rw [spellAll_of_reserved h, spellAll_of_unreserved h']
  intro heq
  have hhead := name.head?_letters name.mem_all
  rw [heq] at hhead
  cases hhead

/-- A reserved name is not one that is not reserved. -/
theorem name_ne_of_reserved (h : StandardName.ofText? l.name = some name)
    (h' : StandardName.ofText? l'.name = none) : l.name ≠ l'.name := by
  intro hname
  rw [hname, h'] at h
  cases h

/-- Two reserved names with one spelling are one name. -/
theorem spellAll_eq_iff_of_reserved (h : StandardName.ofText? l.name = some name)
    (h' : StandardName.ofText? l'.name = some name') :
    spellAll (standardTokens l) = spellAll (standardTokens l') ↔ l.name = l'.name := by
  rw [spellAll_of_reserved h, spellAll_of_reserved h']
  constructor
  · intro heq
    obtain rfl := StandardName.letters_injective _ name.mem_all _ name'.mem_all heq
    rw [← StandardName.text_of_ofText? h, StandardName.text_of_ofText? h']
  · intro hname
    rw [hname, h'] at h
    cases h
    rfl

/-- Two levels whose names are not reserved are told by their texts. -/
theorem spellAll_eq_iff_of_unreserved (h : StandardName.ofText? l.name = none)
    (h' : StandardName.ofText? l'.name = none) :
    spellAll (standardTokens l) = spellAll (standardTokens l') ↔ l = l' := by
  have hlexes : ∀ l : Level, Lexes .free l.tokens := fun l => by
    simpa using l.lexes_append .nil
  rw [spellAll_of_unreserved h, spellAll_of_unreserved h']
  constructor
  · intro heq
    have htokens : l.tokens = l'.tokens :=
      (hlexes l).eq_of_spellAll_eq (hlexes l') (List.cons.inj heq).2
    exact (Level.tokens_append_inj (congrArg ([] ++ ·) htokens)).2
  · rintro rfl
    rfl

/-- Nominal types of the standard library module have one text exactly if they have one level,
or one reserved name. -/
theorem spellAll_standardTokens_eq_iff :
    spellAll (standardTokens l) = spellAll (standardTokens l') ↔
      l = l' ∨ l.name = l'.name ∧ StandardName.ofText? l.name ≠ none := by
  cases h : StandardName.ofText? l.name with
  | some name =>
    cases h' : StandardName.ofText? l'.name with
    | some name' =>
      rw [spellAll_eq_iff_of_reserved h h']
      grind
    | none =>
      have hname := name_ne_of_reserved h h'
      exact iff_of_false (spellAll_reserved_ne h h') (by grind)
  | none =>
    cases h' : StandardName.ofText? l'.name with
    | some name' =>
      have hname := name_ne_of_reserved h' h
      exact iff_of_false (spellAll_reserved_ne h' h).symm (by grind)
    | none =>
      rw [spellAll_eq_iff_of_unreserved h h']
      grind

end

/-! ## Symbols -/

namespace Program

/-- A nominal type that lies directly in the standard library module. -/
structure StandardMember (p : Program) (d : DeclId) : Prop where
  isNominal : (p.kindOf d).isNominal = true
  parent : ∃ s, (p.decl d).parent = some (.decl s) ∧ p.standardModule = some s ∧
    (p.kindOf s).isModule = true

end Program

namespace Grammar

variable {g : Grammar} {scope : Scope} {d : DeclId} {l : Level}

/-- In the standard library module the name alone tells whether a spelling is reserved. -/
theorem standardName?_of_member (hd : g.program.StandardMember d)
    (hl : g.program.level? d = some l) : g.standardName? d = StandardName.ofText? l.name := by
  obtain ⟨s, hparent, hs, -⟩ := hd.parent
  obtain ⟨-, ⟨x, hname, htext⟩, -⟩ := Program.level?_eq_some.1 hl
  simp [standardName?, hparent, Program.isStandardModule, hs, hname, htext]

/-- A nominal type of the standard library module is written as its tokens where nothing has
been written. -/
theorem writes_standardMember (scope : Scope) (hopts : g.options = {})
    (hd : g.program.StandardMember d) (hl : g.program.level? d = some l) (n : Nat) :
    ∃ s, g.Writes {} (n + 2) (g.nominal scope d) {} s ∧ s.tokens.toList = standardTokens l := by
  unfold standardTokens
  cases hreserved : StandardName.ofText? l.name with
  | some name =>
    rw [nominal_eq_reserved hd.isNominal ((standardName?_of_member hd hl).trans hreserved)]
    exact ⟨_, .token .nil, rfl⟩
  | none =>
    rw [nominal_eq_node hd.isNominal ((standardName?_of_member hd hl).trans hreserved)]
    obtain ⟨s, hparent, hs, hmodule⟩ := hd.parent
    have hcontext : g.production scope (.context (.decl s)) = [.op .standardModule] := by
      rw [context_eq_module hmodule, moduleDecl, Program.isStandardModule, hs]
      simp
    have hwrites : g.Writes {} n (g.production scope (.context (.decl s))) {}
        (Progress.emit {} (.op .standardModule)) := by
      rw [hcontext]
      exact .token .nil
    have hnominal : l.kind ≠ .module := by
      intro hkind
      have hnominal := hd.isNominal
      rw [eq_nativeModule_of_level? hl hkind] at hnominal
      cases hnominal
    -- without a reserved name the type is written as any type in another declaration
    obtain ⟨s', hwrites', htokens⟩ := writes_nested scope hopts hl hnominal hparent hwrites
      (some (.nominal d))
    exact ⟨s', hwrites', by rw [htokens]; rfl⟩

/-- A nominal type that has been written where nothing had been written has a name. -/
theorem exists_name_of_writes (hopts : g.options = {})
    (hnominal : (g.program.kindOf d).isNominal = true) {n : Nat} {s : Progress}
    (h : g.Writes {} n (g.nominal scope d) {} s) : ∃ x, (g.program.decl d).name = some x := by
  cases hname : (g.program.decl d).name with
  | some x => exact ⟨x, rfl⟩
  | none =>
    exfalso
    have hstandard : g.standardName? d = none := by
      unfold standardName?
      rw [hname]
      split
      · split <;> rfl
      · rfl
    obtain ⟨o, ho, -⟩ := nominalOperator?_eq_some hnominal
    rw [nominal_eq_node hnominal hstandard] at h
    cases h with
    | short shorthand => cases shorthand
    | spelled _ inside =>
      -- the name is spelled in the body, and spelling fails where there is none
      rw [production, declBody_of_isNominal hnominal ho] at inside
      obtain ⟨s₁, hbefore, -⟩ := writes_append.1 inside
      obtain ⟨s₂, -, hdeclName⟩ := writes_append.1 hbefore
      obtain ⟨s₃, hidentifier, -⟩ := writes_append.1 hdeclName
      rw [identifierPieces_eq hopts, hname] at hidentifier
      cases hidentifier

end Grammar

namespace Mangler

variable {m : Mangler} {d e : DeclId} {l l' : Level}

/-- The symbol of a nominal type of the standard library module. -/
theorem mangle_standardMember (hopts : m.options = {}) (hd : m.program.StandardMember d)
    (hl : m.program.level? d = some l) :
    m.mangle (.nominalType d) = .ok (symbol "$q" (standardTokens l)) := by
  obtain ⟨n, hn⟩ : ∃ n, (m.grammar false).depthBound = n + 2 :=
    ⟨(m.grammar false).depthBound - 2, by have := (m.grammar false).five_le_depthBound; omega⟩
  obtain ⟨s, hwrites, htokens⟩ := Grammar.writes_standardMember (g := m.grammar false)
    Grammar.outermost hopts hd hl n
  rw [← hn] at hwrites
  rw [mangle_nominalType hopts hd.isNominal hwrites, htokens]

/-- A nominal type with a symbol has a level. -/
theorem level_of_mangle (hopts : m.options = {}) (hd : m.program.StandardMember d) {x : String}
    (h : m.mangle (.nominalType d) = .ok x) : ∃ l, m.program.level? d = some l := by
  obtain ⟨s, hwrites, -⟩ := writes_of_mangle hopts (plan_nominalType hd.isNominal) rfl h
  obtain ⟨n, hname⟩ :=
    Grammar.exists_name_of_writes (g := m.grammar false) hopts hd.isNominal hwrites
  obtain ⟨l, hl, -⟩ := Grammar.exists_level (g := m.grammar false) hd.isNominal hname
  exact ⟨l, hl⟩

/-- Two nominal types of the standard library module have different symbols exactly if both
have a name, they differ in name, kind or discriminator, and their name is not a reserved one
that they share. -/
theorem standardMembers_differ_iff (hopts : m.options = {}) (hd : m.program.StandardMember d)
    (he : m.program.StandardMember e) :
    (∃ x y, m.mangle (.nominalType d) = .ok x ∧ m.mangle (.nominalType e) = .ok y ∧ x ≠ y) ↔
      ∃ l l', m.program.level? d = some l ∧ m.program.level? e = some l' ∧ l ≠ l' ∧
        (l.name = l'.name → StandardName.ofText? l.name = none) := by
  have hne : ∀ l l', symbol "$q" (standardTokens l) ≠ symbol "$q" (standardTokens l') ↔
      l ≠ l' ∧ (l.name = l'.name → StandardName.ofText? l.name = none) := by
    intro l l'
    have hsymbol : symbol "$q" (standardTokens l) = symbol "$q" (standardTokens l') ↔
        spellAll (standardTokens l) = spellAll (standardTokens l') :=
      ⟨symbol_injective, fun h => by rw [symbol, symbol, h]⟩
    rw [Ne, hsymbol, spellAll_standardTokens_eq_iff]
    simp only [not_or, not_and, ne_eq, not_not]
  constructor
  · rintro ⟨x, y, hx, hy, hxy⟩
    obtain ⟨l, hl⟩ := level_of_mangle hopts hd hx
    obtain ⟨l', hl'⟩ := level_of_mangle hopts he hy
    rw [mangle_standardMember hopts hd hl] at hx
    rw [mangle_standardMember hopts he hl'] at hy
    cases hx
    cases hy
    exact ⟨l, l', hl, hl', (hne l l').1 hxy⟩
  · rintro ⟨l, l', hl, hl', hdiffer⟩
    exact ⟨_, _, mangle_standardMember hopts hd hl, mangle_standardMember hopts he hl',
      (hne l l').2 hdiffer⟩

/-- A standard library module with a struct and an enum `Int`, and a class and a protocol
`Node`. -/
def standardMembers : Program :=
  Program.empty.build
    [.intern "Std", .decl { kind := .nativeModule, name := some ⟨1⟩ }, .standardModule ⟨0⟩,
      .intern "Int", .decl { kind := .structType, name := some ⟨2⟩, parent := some (.decl ⟨0⟩) },
      .decl { kind := .enumType, name := some ⟨2⟩, parent := some (.decl ⟨0⟩) }, .intern "Node",
      .decl { kind := .classType, name := some ⟨3⟩, parent := some (.decl ⟨0⟩) },
      .decl { kind := .protocolType [], name := some ⟨3⟩, parent := some (.decl ⟨0⟩) }]

/-- The class and the protocol are told apart. -/
theorem standardMembers_differ_iff_node :
    let m : Mangler := { program := standardMembers }
    m.program.StandardMember ⟨3⟩ ∧ m.program.StandardMember ⟨4⟩ ∧
      m.mangle (.nominalType ⟨3⟩) = .ok "$qs4NodeC" ∧
      m.mangle (.nominalType ⟨4⟩) = .ok "$qs4NodeP" ∧
      ((∃ x y, m.mangle (.nominalType ⟨3⟩) = .ok x ∧ m.mangle (.nominalType ⟨4⟩) = .ok y ∧
          x ≠ y) ↔
        ∃ l l', m.program.level? ⟨3⟩ = some l ∧ m.program.level? ⟨4⟩ = some l' ∧ l ≠ l' ∧
          (l.name = l'.name → StandardName.ofText? l.name = none)) := by
  intro m
  have hclass : m.program.StandardMember ⟨3⟩ :=
    ⟨by decide +kernel, ⟨0⟩, by decide +kernel, by decide +kernel, by decide +kernel⟩
  have hprotocol : m.program.StandardMember ⟨4⟩ :=
    ⟨by decide +kernel, ⟨0⟩, by decide +kernel, by decide +kernel, by decide +kernel⟩
  exact ⟨hclass, hprotocol, by decide +kernel, by decide +kernel,
    standardMembers_differ_iff rfl hclass hprotocol⟩

/-- The struct and the enum of a reserved name have one symbol. -/
theorem reserved_members_merged :
    let m : Mangler := { program := standardMembers }
    m.program.StandardMember ⟨1⟩ ∧ m.program.StandardMember ⟨2⟩ ∧
      m.program.kindOf ⟨1⟩ ≠ m.program.kindOf ⟨2⟩ ∧
      m.mangle (.nominalType ⟨1⟩) = .ok "$qSi" ∧ m.mangle (.nominalType ⟨2⟩) = .ok "$qSi" := by
  intro m
  exact ⟨⟨by decide +kernel, ⟨0⟩, by decide +kernel, by decide +kernel, by decide +kernel⟩,
    ⟨by decide +kernel, ⟨0⟩, by decide +kernel, by decide +kernel, by decide +kernel⟩,
    by decide +kernel, by decide +kernel, by decide +kernel⟩

end Mangler

end NameMangling
