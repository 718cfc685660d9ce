/-
# Paths of nominal declarations

A nominal type that lies in other nominal types, and with them in a module, has a path: its
own level, the levels around it, and at last that of the module.  A level is a name, a
discriminator and a kind.  The symbol of such a type is its path, spelled from the module
inwards, and the path can be read off the symbol, from the end: the last token tells the kind,
the one before it the discriminator.

Main definitions:
* `Level`, a step of a path, and `Program.level?`, that of a declaration;
* `Program.HasPath`, the path of a declaration;
* `pathTokens`, how a path is spelled.

Main facts:
* `pathTokens_injective`: a path is told by its tokens;
* `nominalType_eq_iff`: types have one symbol exactly if they have one path.
-/
import Mathlib.Data.List.Perm.Subperm
import NameMangling.Proofs.BuiltPrograms
import NameMangling.Proofs.Lexing
import NameMangling.Proofs.ReadingTypes

namespace NameMangling

/-! ## Levels -/

/-- What tells apart declarations of one name: a number in a local context, or the text that
stands for a file. -/
inductive Discriminator
  | localNumber (n : Nat)
  | file (text : String)
deriving DecidableEq

/-- What a declaration on a path is. -/
inductive LevelKind
  | module | structType | enumType | classType | protocolType
deriving DecidableEq

/-- A step of a path. -/
@[ext]
structure Level where
  kind : LevelKind
  name : String
  discriminator : Option Discriminator
deriving DecidableEq

/-- The kind of the level of a declaration, if it has a level. -/
def DeclKind.level? : DeclKind → Option LevelKind
  | .nativeModule => some .module
  | .structType => some .structType
  | .enumType => some .enumType
  | .classType => some .classType
  | .protocolType _ => some .protocolType
  | _ => none

namespace Program

variable (p : Program) (d : DeclId)

/-- The discriminator of a declaration in its local context, or else in its file. -/
def discriminator? : Option Discriminator :=
  ((p.decl d).localDiscriminator.map .localNumber).or
    ((p.decl d).privateDiscriminator.map fun file => .file (p.text file))

/-- The level of a declaration that has a name. -/
def level? : Option Level :=
  match (p.kindOf d).level?, (p.decl d).name with
  | some kind, some n => some ⟨kind, p.text n, p.discriminator? d⟩
  | _, _ => none

/-- The path of a declaration, its own level first.  Nothing on it lies in the standard
library. -/
inductive HasPath : DeclId → List Level → Prop
  | module {d : DeclId} {l : Level} (own : p.level? d = some l) (isModule : l.kind = .module) :
      HasPath d [l]
  | nested {d q : DeclId} {l : Level} {around : List Level} (own : p.level? d = some l)
      (isNominal : l.kind ≠ .module) (parent : (p.decl d).parent = some (.decl q))
      (ordinary : p.isStandardModule q = false) (rest : HasPath q around) :
      HasPath d (l :: around)

variable {p d}

/-- The level of a declaration is its kind, its name and its discriminator. -/
theorem level?_eq_some {l : Level} : p.level? d = some l ↔ (p.kindOf d).level? = some l.kind ∧
    (∃ n, (p.decl d).name = some n ∧ l.name = p.text n) ∧
    l.discriminator = p.discriminator? d := by
  unfold level?
  cases l
  cases (p.kindOf d).level? <;> cases (p.decl d).name <;> simp [eq_comm]

/-- A declaration with a name has been added. -/
theorem lt_of_level?_eq_some {l : Level} (h : p.level? d = some l) : d.index < p.decls.size := by
  obtain ⟨-, ⟨n, hname, -⟩, -⟩ := level?_eq_some.1 h
  by_contra hsize
  rw [decl_of_size_le (Nat.le_of_not_lt hsize)] at hname
  cases hname

namespace HasPath

variable {π ρ : List Level}

/-- A declaration has one path. -/
theorem unique (h : p.HasPath d π) (h' : p.HasPath d ρ) : π = ρ := by
  induction h generalizing ρ with
  | module own isModule =>
    cases h' with
    | module own' => rw [Option.some.inj (own.symm.trans own')]
    | nested own' isNominal' =>
      exact absurd (Option.some.inj (own.symm.trans own') ▸ isModule) isNominal'
  | nested own isNominal parent _ _ ih =>
    cases h' with
    | module own' isModule' =>
      exact absurd (Option.some.inj (own'.symm.trans own) ▸ isModule') isNominal
    | nested own' _ parent' _ rest' =>
      rw [parent] at parent'
      cases parent'
      rw [Option.some.inj (own.symm.trans own'), ih rest']

/-- The declarations on a path are different ones, as their own paths have different
lengths. -/
theorem exists_decls (h : p.HasPath d π) : ∃ ds : List DeclId, ds.length = π.length ∧ ds.Nodup ∧
    ∀ e ∈ ds, e ∈ p.declIds ∧ ∃ ρ, p.HasPath e ρ ∧ ρ.length ≤ π.length := by
  induction h with
  | @module d l own isModule =>
    refine ⟨[d], rfl, by simp, fun e he => ?_⟩
    obtain rfl := List.mem_singleton.1 he
    exact ⟨mem_declIds.2 (lt_of_level?_eq_some own), [l], .module own isModule, le_rfl⟩
  | @nested d q l around own isNominal parent ordinary rest ih =>
    obtain ⟨ds, hlength, hnodup, hds⟩ := ih
    refine ⟨d :: ds, by simp [hlength], List.nodup_cons.2 ⟨fun hmem => ?_, hnodup⟩, ?_⟩
    · -- met again further out, the declaration would have a shorter path besides its own
      obtain ⟨-, ρ, hρ, hle⟩ := hds d hmem
      rw [hρ.unique (.nested own isNominal parent ordinary rest), List.length_cons] at hle
      omega
    · intro e he
      rcases List.mem_cons.1 he with rfl | he
      · exact ⟨mem_declIds.2 (lt_of_level?_eq_some own), _,
          .nested own isNominal parent ordinary rest, le_rfl⟩
      · obtain ⟨hmem, ρ, hρ, hle⟩ := hds e he
        exact ⟨hmem, ρ, hρ, hle.trans (Nat.le_succ _)⟩

/-- A path passes through different declarations, so it is no longer than there are. -/
theorem length_le (h : p.HasPath d π) : π.length ≤ p.decls.size := by
  obtain ⟨ds, hlength, hnodup, hds⟩ := h.exists_decls
  have hle := (List.subperm_of_subset hnodup fun e he => (hds e he).1).length_le
  rwa [hlength, declIds, List.length_map, List.length_range] at hle

end HasPath

end Program

/-! ## Spelling of paths -/

/-- The tokens of a discriminator. -/
def Discriminator.tokens : Discriminator → List Token
  | localNumber n => [.op .localName, .index n]
  | file text => [.identifier text, .op .privateName]

/-- The tokens of a name and what tells it apart. -/
def discriminatedName (name : String) (discriminator : Option Discriminator) : List Token :=
  .identifier name ::
    match discriminator with
    | some d => d.tokens
    | none => []

/-- A name with its discriminator lexes in front of anything that does. -/
theorem lexes_discriminatedName_append (name : String) (discriminator : Option Discriminator)
    {ts : List Token} (h : Lexes .free ts) :
    Lexes .free (discriminatedName name discriminator ++ ts) := by
  refine .cons rfl ?_
  rcases discriminator with _ | _ | _
  · exact h
  · exact .cons rfl (.cons rfl h)
  · exact .cons rfl (.cons rfl h)

/-- The operator of a nominal type; a module has none. -/
def LevelKind.operator? : LevelKind → Option Operator
  | module => none
  | structType => some .structType
  | enumType => some .enumType
  | classType => some .classType
  | protocolType => some .protocolType

namespace Level

variable (l : Level)

/-- The tokens of the name and the discriminator of a level. -/
def nameTokens : List Token := discriminatedName l.name l.discriminator

/-- The tokens of a level. -/
def tokens : List Token :=
  match l.kind.operator? with
  | some o => l.nameTokens ++ [.op o]
  | none => l.nameTokens

end Level

/-- The tokens of a path. -/
def pathTokens : List Level → List Token
  | [] => []
  | l :: around => pathTokens around ++ l.tokens

theorem LevelKind.operator?_injective {k k' : LevelKind} (h : k.operator? = k'.operator?) :
    k = k' := by
  cases k <;> cases k' <;> first | rfl | cases h

namespace Level

variable {l l' : Level} {ts us : List Token}

/-- The discriminator is read off the last token of a name, and then the name itself. -/
theorem nameTokens_append_inj (h : ts ++ l.nameTokens = us ++ l'.nameTokens) :
    ts = us ∧ l.name = l'.name ∧ l.discriminator = l'.discriminator := by
  have hreverse := congrArg List.reverse h
  obtain ⟨_, name, discriminator⟩ := l
  obtain ⟨_, name', discriminator'⟩ := l'
  clear h
  rcases discriminator with _ | _ | _ <;> rcases discriminator' with _ | _ | _ <;>
    simp_all [nameTokens, discriminatedName, Discriminator.tokens]

/-- A name does not end like a nominal type. -/
theorem nameTokens_ne {k : LevelKind} {o : Operator} (ho : k.operator? = some o) :
    ts ++ l.nameTokens ≠ us ++ [.op o] := by
  intro h
  have hlast := congrArg List.getLast? h
  obtain ⟨_, name, discriminator⟩ := l
  rcases discriminator with _ | _ | _ <;> cases k <;> cases ho <;>
    simp [nameTokens, discriminatedName, Discriminator.tokens] at hlast

/-- The last level of a text is read off its end. -/
theorem tokens_append_inj (h : ts ++ l.tokens = us ++ l'.tokens) : ts = us ∧ l = l' := by
  -- no name ends in the operator of a kind: both levels have one, and the same, or none
  have hnames : ts ++ l.nameTokens = us ++ l'.nameTokens ∧
      l.kind.operator? = l'.kind.operator? := by
    unfold tokens at h
    cases ho : l.kind.operator? with
    | none =>
      cases ho' : l'.kind.operator? with
      | none => simpa [ho, ho'] using h
      | some o' =>
        simp only [ho, ho', ← List.append_assoc] at h
        exact absurd h (nameTokens_ne ho')
    | some o =>
      cases ho' : l'.kind.operator? with
      | none =>
        simp only [ho, ho', ← List.append_assoc] at h
        exact absurd h.symm (nameTokens_ne ho)
      | some o' =>
        simp only [ho, ho', ← List.append_assoc] at h
        obtain ⟨hnames, hoperator⟩ := List.append_inj' h rfl
        cases hoperator
        exact ⟨hnames, rfl⟩
  obtain ⟨hbefore, hname, hdiscriminator⟩ := nameTokens_append_inj hnames.1
  exact ⟨hbefore, Level.ext (LevelKind.operator?_injective hnames.2) hname hdiscriminator⟩

end Level

/-- A path is told by its tokens. -/
theorem pathTokens_injective {π ρ : List Level} (h : pathTokens π = pathTokens ρ) : π = ρ := by
  have hne : ∀ l : Level, l.tokens ≠ [] := by
    intro l
    unfold Level.tokens Level.nameTokens discriminatedName
    split <;> simp
  induction π generalizing ρ with
  | nil =>
    cases ρ with
    | nil => rfl
    | cons l' around' => exact absurd (List.append_eq_nil_iff.1 h.symm).2 (hne l')
  | cons l around ih =>
    cases ρ with
    | nil => exact absurd (List.append_eq_nil_iff.1 h).2 (hne l)
    | cons l' around' =>
      obtain ⟨haround, rfl⟩ := Level.tokens_append_inj h
      rw [ih haround]

/-! ## Paths in symbols -/

/-- A level lexes in front of anything that does. -/
theorem Level.lexes_append (l : Level) {ts : List Token} (h : Lexes .free ts) :
    Lexes .free (l.tokens ++ ts) := by
  have hop : ∀ o, l.kind.operator? = some o → Lexes .free (.op o :: ts) := by
    intro o ho
    refine .cons ?_ h
    cases hkind : l.kind <;> rw [hkind] at ho <;> cases ho <;> rfl
  unfold tokens
  split
  · rename_i o ho
    rw [List.append_assoc]
    exact lexes_discriminatedName_append _ _ (hop o ho)
  · exact lexes_discriminatedName_append _ _ h

/-- A path lexes in front of anything that does. -/
theorem lexes_pathTokens_append (π : List Level) {ts : List Token} (h : Lexes .free ts) :
    Lexes .free (pathTokens π ++ ts) := by
  induction π generalizing ts with
  | nil => exact h
  | cons l around ih =>
    rw [pathTokens, List.append_assoc]
    exact ih (l.lexes_append h)

/-- A path is told by its text. -/
theorem eq_of_spellAll_pathTokens {π ρ : List Level}
    (h : spellAll (pathTokens π) = spellAll (pathTokens ρ)) : π = ρ := by
  have hlexes : ∀ π, Lexes .free (pathTokens π) := fun π => by
    simpa using lexes_pathTokens_append π .nil
  exact pathTokens_injective ((hlexes π).eq_of_spellAll_eq (hlexes ρ) h)

/-! ## Symbols of nominal declarations -/

namespace Grammar

variable {g : Grammar} {scope : Scope} {d q : DeclId} {l : Level} {w : Spelling} {n : Nat}
  {s s' : Progress}

/-- An identifier is followed by the discriminator of its declaration. -/
theorem declName_eq_discriminatedName {x : String}
    (hx : g.identifierPieces d = [.token (.identifier x)]) :
    g.declName d = (discriminatedName x (g.program.discriminator? d)).map .token := by
  rw [declName, hx]
  unfold discriminatedName Program.discriminator? discriminatorPieces
  cases (g.program.decl d).localDiscriminator <;>
    cases (g.program.decl d).privateDiscriminator <;> rfl

/-- With the standard options the name of a declaration is that of its level. -/
theorem declName_eq_level (hopts : g.options = {}) (hl : g.program.level? d = some l) :
    g.declName d = l.nameTokens.map .token := by
  obtain ⟨-, ⟨x, hname, htext⟩, hdiscriminator⟩ := Program.level?_eq_some.1 hl
  rw [Level.nameTokens, htext, hdiscriminator]
  exact declName_eq_discriminatedName (by rw [identifierPieces_eq hopts, hname])

/-- A nominal type is spelled out as its context, its name and its operator. -/
theorem declBody_of_isNominal {o : Operator} (hnominal : (g.program.kindOf d).isNominal = true)
    (ho : nominalOperator? (g.program.kindOf d) = some o) :
    g.declBody scope d = g.contextOf scope d ++ g.declName d ++ [.op o] := by
  unfold declBody
  split
  · rename_i hkind
    rw [hkind] at hnominal
    cases hnominal
  · rename_i hkind
    rw [hkind] at hnominal
    cases hnominal
  · rw [ho]

/-- A module is itself wherever it is a context. -/
theorem context_eq_module (hq : (g.program.kindOf q).isModule = true) :
    g.production scope (.context (.decl q)) = g.moduleDecl scope q := by
  show g.declContext scope q = _
  unfold declContext
  cases hkind : g.program.kindOf q <;> rw [hkind] at hq <;> first | rfl | cases hq

/-- An ordinary module is a node wherever it is a context. -/
theorem context_eq_nativeModule (hkind : g.program.kindOf q = .nativeModule)
    (hordinary : g.program.isStandardModule q = false) :
    g.production scope (.context (.decl q)) = [.node scope (.decl q) none] := by
  rw [context_eq_module (by rw [hkind]; rfl), moduleDecl, hordinary, hkind]
  rfl

/-- An ordinary module is spelled by its name. -/
theorem body_nativeModule (hkind : g.program.kindOf q = .nativeModule) :
    g.production scope (.body (.decl q)) = g.declName q := by
  rw [production, declBody, hkind]

/-- A nominal type with a spelling of its own is that spelling. -/
theorem nominal_eq_reserved (hnominal : (g.program.kindOf d).isNominal = true)
    {name : StandardName} (hstandard : g.standardName? d = some name) :
    g.nominal scope d = [.op (.standard name)] := by
  unfold nominal
  rw [hstandard]
  cases hkind : g.program.kindOf d <;> rw [hkind] at hnominal <;> cases hnominal <;> rfl

/-- A nominal type without a spelling of its own is a node. -/
theorem nominal_eq_node (hnominal : (g.program.kindOf d).isNominal = true)
    (hstandard : g.standardName? d = none) :
    g.nominal scope d = [.node scope (.decl d) (some (.nominal d))] := by
  unfold nominal Referent.ofDecl
  rw [hstandard]
  cases hkind : g.program.kindOf d <;> rw [hkind] at hnominal <;> cases hnominal <;> rfl

/-- A nominal type with a name has a level. -/
theorem exists_level (hnominal : (g.program.kindOf d).isNominal = true) {x : Name}
    (hname : (g.program.decl d).name = some x) :
    ∃ l, g.program.level? d = some l ∧ l.kind ≠ .module := by
  unfold Program.level?
  rw [hname]
  cases hkind : g.program.kindOf d <;> rw [hkind] at hnominal <;> cases hnominal <;>
    exact ⟨_, rfl, by simp⟩

/-- A level that is not a module is that of a nominal type. -/
theorem isNominal_of_level? {k : LevelKind} (hk : (g.program.kindOf d).level? = some k)
    (hne : k ≠ .module) : (g.program.kindOf d).isNominal = true ∧
      ∃ o, k.operator? = some o ∧ nominalOperator? (g.program.kindOf d) = some o := by
  cases hkind : g.program.kindOf d <;> rw [hkind] at hk <;> cases hk <;>
    first | exact absurd rfl hne | exact ⟨rfl, _, rfl, rfl⟩

/-- A level that is a module is that of a native module. -/
theorem eq_nativeModule_of_level? (hl : g.program.level? d = some l)
    (hmodule : l.kind = .module) : g.program.kindOf d = .nativeModule := by
  have hk := (Program.level?_eq_some.1 hl).1
  cases hkind : g.program.kindOf d <;> rw [hkind, hmodule] at hk <;> cases hk

/-- A module is its level. -/
theorem declBody_module (hopts : g.options = {}) (hl : g.program.level? d = some l)
    (hmodule : l.kind = .module) : g.declBody scope d = l.tokens.map .token := by
  unfold declBody Level.tokens
  rw [hmodule, eq_nativeModule_of_level? hl hmodule]
  exact declName_eq_level hopts hl

/-- A nominal type is its context and its level. -/
theorem declBody_nominal (hopts : g.options = {}) (hl : g.program.level? d = some l)
    (hnominal : l.kind ≠ .module) :
    g.declBody scope d = g.contextOf scope d ++ l.tokens.map .token := by
  obtain ⟨hkind, o, ho, hoperator⟩ :=
    isNominal_of_level? (Program.level?_eq_some.1 hl).1 hnominal
  rw [declBody_of_isNominal hkind hoperator, declName_eq_level hopts hl, Level.tokens, ho,
    List.append_assoc, List.map_append]
  rfl

/-- What is first written of a node with whatever is in front of it is its spelling. -/
theorem writes_first {key : NodeKey} {r : Option Referent}
    (h : g.Writes {} n (g.production scope (.body key)) {} s) :
    ∃ s', g.Writes {} (n + 1) [.node scope key r] {} s' ∧ s'.tokens = s.tokens := by
  have hnone : ({} : Spelling).shorthand? {} key r = none := by
    unfold Spelling.shorthand?
    cases r <;> rfl
  exact ⟨_, .spelled hnone h .nil, by simp⟩

/-- A nominal type is written after the declaration it lies in. -/
theorem writes_nested (scope : Scope) (hopts : g.options = {}) (hl : g.program.level? d = some l)
    (hnominal : l.kind ≠ .module) (hparent : (g.program.decl d).parent = some (.decl q))
    (hq : g.Writes {} n (g.production scope (.context (.decl q))) {} s) (r : Option Referent) :
    ∃ s', g.Writes {} (n + 2) [.node scope (.decl d) r] {} s' ∧
      s'.tokens.toList = s.tokens.toList ++ l.tokens := by
  obtain ⟨s₁, htokens⟩ := exists_writes_tokens (g := g) (w := {}) (n := n + 1) l.tokens s
  have hbody : g.production scope (.body (.decl d)) =
      .context scope (.decl q) :: l.tokens.map .token := by
    rw [production, declBody_nominal hopts hl hnominal, contextOf, hparent]
    rfl
  have hwrites : g.Writes {} (n + 1) (g.production scope (.body (.decl d))) {} s₁ := by
    rw [hbody]
    exact .phrase hq htokens
  obtain ⟨s', h, heq⟩ := writes_first (r := r) hwrites
  exact ⟨s', h, by rw [heq, (writes_tokens htokens).1]⟩

/-- Nothing outside the standard library has a spelling of its own. -/
theorem standardName?_of_ordinary (hparent : (g.program.decl d).parent = some (.decl q))
    (hordinary : g.program.isStandardModule q = false) : g.standardName? d = none := by
  rw [standardName?, hparent]
  simp [hordinary]

/-- A declaration with a path is a node wherever it is a context. -/
theorem context_eq_node (scope : Scope) {π : List Level} (h : g.program.HasPath d π)
    (hordinary : g.program.isStandardModule d = false) :
    ∃ r, g.production scope (.context (.decl d)) = [.node scope (.decl d) r] := by
  cases h with
  | module own isModule =>
    refine ⟨none, ?_⟩
    exact context_eq_nativeModule (eq_nativeModule_of_level? own isModule) hordinary
  | nested own isNominal parent ordinary rest =>
    refine ⟨some (.nominal d), ?_⟩
    obtain ⟨hkind, -⟩ := isNominal_of_level? (Program.level?_eq_some.1 own).1 isNominal
    rw [← nominal_eq_node hkind (standardName?_of_ordinary parent ordinary)]
    show g.declContext scope d = g.nominal scope d
    unfold declContext
    cases hk : g.program.kindOf d <;> rw [hk] at hkind <;> cases hkind

/-- A declaration with a path is written as its path where nothing has been written. -/
theorem writes_path (scope : Scope) (hopts : g.options = {}) {π : List Level}
    (h : g.program.HasPath d π) (hn : 2 * π.length ≤ n) (r : Option Referent) :
    ∃ s, g.Writes {} n [.node scope (.decl d) r] {} s ∧ s.tokens.toList = pathTokens π := by
  induction h generalizing n r with
  | @module d l own isModule =>
    obtain ⟨n, rfl⟩ : ∃ n', n = n' + 1 := ⟨n - 1, by simp at hn; omega⟩
    obtain ⟨s, htokens⟩ := exists_writes_tokens (g := g) (w := {}) (n := n) l.tokens {}
    have hbody : g.Writes {} n (g.production scope (.body (.decl d))) {} s := by
      rw [production, declBody_module hopts own isModule]
      exact htokens
    obtain ⟨s', hwrites, heq⟩ := writes_first (r := r) hbody
    exact ⟨s', hwrites, by rw [heq, (writes_tokens htokens).1]; rfl⟩
  | @nested d q l around own isNominal parent ordinary rest ih =>
    rw [List.length_cons] at hn
    obtain ⟨n, rfl⟩ : ∃ n', n = n' + 2 := ⟨n - 2, by omega⟩
    -- the declaration around comes first, with two phrases less than the bound
    obtain ⟨r', hcontext⟩ := context_eq_node scope rest ordinary
    obtain ⟨s, hwrites, htokens⟩ := ih (n := n) (by omega) r'
    obtain ⟨s', hwrites', htokens'⟩ :=
      writes_nested scope hopts own isNominal parent (hcontext ▸ hwrites) r
    exact ⟨s', hwrites', by rw [htokens', htokens]; rfl⟩

/-- There is room for every path. -/
theorem path_le_depthBound {π : List Level} (h : g.program.HasPath d π) :
    2 * π.length ≤ g.depthBound := by
  have hle := h.length_le
  have hsubjects : g.program.decls.size + 2 ≤ g.subjects := by
    unfold subjects
    omega
  calc 2 * π.length ≤ g.subjects * 2 ^ 5 := by omega
    _ ≤ g.subjects * g.subjects ^ 5 :=
      Nat.mul_le_mul_left _ (Nat.pow_le_pow_left (by omega) 5)
    _ = g.depthBound := (Nat.pow_succ').symm

end Grammar

namespace Mangler

variable {m : Mangler} {d e : DeclId} {π ρ : List Level}

/-- The plan for the name of a nominal type spells its declaration, which is the subject. -/
theorem plan_nominalType (hnominal : (m.program.kindOf d).isNominal = true) :
    m.plan (.nominalType d) =
      .ok { subject := some d, pieces := (m.grammar false).nominal Grammar.outermost d } := by
  have hkind : ((m.grammar false).program.kindOf d).isNominal = true := hnominal
  simp only [plan, Grammar.plan, Grammar.expectNominal, Grammar.expect, hkind]
  rfl

/-- The symbol of a nominal type, without placeholders. -/
theorem mangle_nominalType (hopts : m.options = {})
    (hnominal : (m.program.kindOf d).isNominal = true) {s : Progress}
    (h : (m.grammar false).Writes {} (m.grammar false).depthBound
      ((m.grammar false).nominal Grammar.outermost d) {} s) :
    m.mangle (.nominalType d) = .ok (symbol "$q" s.tokens.toList) := by
  have hplan := plan_nominalType hnominal
  refine mangle_eq_ok.2 ⟨_, s, hplan, written?_eq_some.2 ⟨_, hplan, ?_⟩, rfl⟩
  have hplaces : ∀ plan, m.placesReferent plan = fun _ => false := by
    intro plan
    funext r
    simp [placesReferent, hopts]
  rw [hplaces]
  exact h

/-- The symbol of a nominal type with a path is its path. -/
theorem mangle_eq_path (hopts : m.options = {}) (hd : m.program.HasPath d π)
    (hnominal : (m.program.kindOf d).isNominal = true) :
    m.mangle (.nominalType d) = .ok (symbol "$q" (pathTokens π)) := by
  obtain ⟨s, hwrites, htokens⟩ := Grammar.writes_path (g := m.grammar false) Grammar.outermost
    hopts hd (Grammar.path_le_depthBound (g := m.grammar false) hd) (some (.nominal d))
  have hstandard : (m.grammar false).standardName? d = none := by
    cases hd with
    | module own isModule =>
      have hkind : m.program.kindOf d = .nativeModule :=
        Grammar.eq_nativeModule_of_level? (g := m.grammar false) own isModule
      rw [hkind] at hnominal
      cases hnominal
    | nested _ _ parent ordinary _ =>
      exact Grammar.standardName?_of_ordinary (g := m.grammar false) parent ordinary
  rw [← Grammar.nominal_eq_node (g := m.grammar false) hnominal hstandard] at hwrites
  rw [mangle_nominalType hopts hnominal hwrites, htokens]

/-- Nominal types have one symbol exactly if they have one path: as many levels, and at each
level, that of the module included, one name, one kind and one discriminator. -/
theorem nominalType_eq_iff (hopts : m.options = {}) (hd : m.program.HasPath d π)
    (he : m.program.HasPath e ρ) (hdnominal : (m.program.kindOf d).isNominal = true)
    (henominal : (m.program.kindOf e).isNominal = true) :
    ∃ x y, m.mangle (.nominalType d) = .ok x ∧ m.mangle (.nominalType e) = .ok y ∧
      (x = y ↔ π = ρ) := by
  refine ⟨_, _, mangle_eq_path hopts hd hdnominal, mangle_eq_path hopts he henominal, ?_⟩
  exact ⟨fun h => eq_of_spellAll_pathTokens (symbol_injective h), fun h => by rw [h]⟩

/-- In a module `M` two structs `A`, one of a file `B` and one that is the second of its name in
its local context, and in the first of them an enum with the name of a digit. -/
def pathProgram : Program :=
  Program.empty.build
    [.intern "M", .decl { kind := .nativeModule, name := some ⟨1⟩ }, .intern "A", .intern "B",
      .decl { kind := .structType, name := some ⟨2⟩, parent := some (.decl ⟨0⟩),
              privateDiscriminator := some ⟨3⟩ },
      .decl { kind := .structType, name := some ⟨2⟩, parent := some (.decl ⟨0⟩),
              localDiscriminator := some 1, privateDiscriminator := some ⟨3⟩ },
      .intern "7",
      .decl { kind := .enumType, name := some ⟨4⟩, parent := some (.decl ⟨1⟩) }]

/-- The enum is told from the struct it does not lie in. -/
theorem nominalType_eq_iff_nested :
    let m : Mangler := { program := pathProgram }
    let root : Level := ⟨.module, "M", none⟩
    let inner := [⟨.enumType, "7", none⟩, ⟨.structType, "A", some (.file "B")⟩, root]
    let outer := [⟨.structType, "A", some (.localNumber 1)⟩, root]
    m.program.HasPath ⟨3⟩ inner ∧ m.program.HasPath ⟨2⟩ outer ∧
      m.mangle (.nominalType ⟨3⟩) = .ok "$q1M1A1BLLV03$37O" ∧
      m.mangle (.nominalType ⟨2⟩) = .ok "$q1M1AL0_V" ∧
      ∃ x y, m.mangle (.nominalType ⟨3⟩) = .ok x ∧ m.mangle (.nominalType ⟨2⟩) = .ok y ∧
        (x = y ↔ inner = outer) := by
  intro m root inner outer
  have hroot : m.program.HasPath ⟨0⟩ [root] := .module (by decide +kernel) rfl
  have hinner : m.program.HasPath ⟨3⟩ inner :=
    .nested (q := ⟨1⟩) (by decide +kernel) (by decide) (by decide +kernel) (by decide +kernel)
      (.nested (by decide +kernel) (by decide) (by decide +kernel) (by decide +kernel) hroot)
  have houter : m.program.HasPath ⟨2⟩ outer :=
    .nested (by decide +kernel) (by decide) (by decide +kernel) (by decide +kernel) hroot
  exact ⟨hinner, houter, by decide +kernel, by decide +kernel,
    nominalType_eq_iff rfl hinner houter (by decide +kernel) (by decide +kernel)⟩

end Mangler

end NameMangling
