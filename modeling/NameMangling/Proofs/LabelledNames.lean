/-
# Names of labelled types and functions

The name of a labelled type is the text of its outline, and the symbol of a function has the
outline of its type, with the labels, behind the name of the function.  Outlines can be
read, so both can be recovered.

Main definitions: `Mangler.typeOutline` and `Mangler.funcOutline`, the outlines of a type and
of a function declaration in their names.

Main facts:
* `name_eq_iff`: types have one name exactly if they have one outline;
* `funcOutline_eq`: overloads of one symbol have one outline.
-/
import NameMangling.Proofs.LabelRecovery

namespace NameMangling

/-! ## Names of types -/

namespace Mangler

variable {m : Mangler}

/-- The outline of a type in its name. -/
def typeOutline (m : Mangler) (t : TypeId) : Outline := ((m.grammar false).outlineIn [] [] t).1

/-- The name of a type are the tokens of its outline. -/
theorem name_eq_outline (hopts : m.options = {}) (ha : m.program.types.Shared) {t : TypeId}
    (ht : m.program.Labelled t) {x : String} (h : m.mangle (.typeWithoutLead t) = .ok x) :
    x = symbol "" (m.typeOutline t).tokens := by
  obtain ⟨s, hwrites, rfl⟩ := writes_of_mangle hopts rfl rfl h
  obtain ⟨new, hnew, houtline, -⟩ :=
    outlines_type (g := m.grammar false) ha ht ht.lt _ _ .empty hwrites []
  have htokens : (m.typeOutline t).tokens = new := houtline
  rw [htokens]
  exact congrArg (symbol "") hnew

/-- Types have one name if they have one outline, and only then. -/
theorem name_eq_iff (hopts : m.options = {}) (ha : m.program.types.Shared) {t u : TypeId}
    (ht : m.program.Labelled t) (hu : m.program.Labelled u) {x y : String}
    (hx : m.mangle (.typeWithoutLead t) = .ok x) (hy : m.mangle (.typeWithoutLead u) = .ok y) :
    x = y ↔ m.typeOutline t = m.typeOutline u := by
  rw [name_eq_outline hopts ha ht hx, name_eq_outline hopts ha hu hy]
  constructor
  · intro h
    have hreadable : ∀ {t : TypeId}, m.program.Labelled t → (m.typeOutline t).Readable :=
      fun ht => outline_readable ha ht ht.lt [] []
    exact (hreadable ht).eq_of_spellAll_eq (hreadable hu) (symbol_injective h)
  · intro h
    rw [h]

/-- Types without a label in front of a tuple are told by the outlines of their names. -/
theorem eq_of_typeOutline_eq (hnames : m.program.names.Built) (ha : m.program.types.Shared)
    {t u : TypeId} (ht : m.program.Labelled t) (hu : m.program.Labelled u)
    (hleaves : m.program.LabelsLeaves t) (hleaves' : m.program.LabelsLeaves u)
    (h : m.typeOutline t = m.typeOutline u) : t = u :=
  (outlineWithin_injective (g := m.grammar false) hnames ha ht hu hleaves hleaves'
    (fun _ => rfl) (fun _ => rfl) h).1

end Mangler

/-! ## Symbols of functions -/

namespace Program

/-- Declarations of functions with the given type, whose parameters have one label each. -/
structure DeclaresFunction (p : Program) (d : DeclId) (t : TypeId) (f : FunctionType) : Prop where
  kind : p.kindOf d = .func
  interfaceType : (p.decl d).interfaceType = some t
  issued : t.index < p.types.size
  node : p.types.node t = .function f
  labelled : p.LabelledFunction f
  labels : p.HasLabels f.params (p.decl d).labels

/-- Declarations of one name in one place. -/
structure Overload (p : Program) (d e : DeclId) : Prop where
  parent : (p.decl d).parent = (p.decl e).parent
  name : (p.decl d).name = (p.decl e).name

/-- Declarations in one place that differ in nothing but their types and labels, and whose
signature adds no requirements. -/
structure DifferInType (p : Program) (d e : DeclId) : Prop where
  signature : (p.decl d).signature = (p.decl e).signature
  requirements : ∀ s ∈ (p.decl d).signature, (SignatureDelta.between (p.signature s)
    ((p.outerSignature d).map p.signature)).requirements = []
  isStatic : (p.decl d).flags.isStatic = (p.decl e).flags.isStatic
  localDiscriminator : (p.decl d).localDiscriminator = (p.decl e).localDiscriminator
  privateDiscriminator : (p.decl d).privateDiscriminator = (p.decl e).privateDiscriminator

end Program

namespace Grammar

variable (g : Grammar)

/-- The tokens of the discriminator of a declaration. -/
def discriminatorTokens (d : DeclId) : List Token :=
  match (g.program.decl d).localDiscriminator, (g.program.decl d).privateDiscriminator with
  | some n, _ => [.op .localName, .index n]
  | none, some file => [.identifier (g.program.text file), .op .privateName]
  | none, none => []

/-- What the signature of a declaration adds to that of its context. -/
def ownGenerics (d : DeclId) : List Piece :=
  match (g.program.decl d).signature with
  | none => []
  | some s => g.signature outermost s (g.program.outerSignature d)

/-- The operators at the end of the symbol of a function. -/
def lastTokens (d : DeclId) : List Token :=
  .op .func :: if (g.program.decl d).flags.isStatic then [.op .static] else []

variable {g} {d e : DeclId} {t : TypeId} {f : FunctionType}

/-- Overloads of one signature have the same generic parameters. -/
theorem ownGenerics_eq (hsame : g.program.Overload d e) (h : g.program.DifferInType d e) :
    g.ownGenerics d = g.ownGenerics e := by
  have houter : g.program.outerSignature d = g.program.outerSignature e := by
    rw [Program.outerSignature, Program.outerSignature, hsame.parent]
  rw [ownGenerics, ownGenerics, h.signature, houter]

/-- A signature without requirements is spelled by the numbers of its parameters. -/
theorem ownGenerics_tokens (h : g.program.DifferInType d e) :
    ∃ ts : List Token, g.ownGenerics d = ts.map .token := by
  unfold ownGenerics
  cases hsignature : (g.program.decl d).signature with
  | none => exact ⟨[], rfl⟩
  | some s =>
    have hnone : (g.delta s (g.program.outerSignature d)).requirements = [] :=
      h.requirements s hsignature
    unfold signature
    dsimp only
    split
    · exact ⟨[], rfl⟩
    · rw [hnone]
      refine ⟨(g.delta s (g.program.outerSignature d)).countTokens ++ [.op .signature], ?_⟩
      rw [List.map_append]
      rfl

/-- The pieces of a discriminator are its tokens. -/
theorem discriminatorPieces_eq (d : DeclId) :
    g.discriminatorPieces d = (g.discriminatorTokens d).map .token := by
  unfold discriminatorPieces discriminatorTokens
  cases (g.program.decl d).localDiscriminator <;>
    cases (g.program.decl d).privateDiscriminator <;> rfl

/-- The tokens of a discriminator are a number behind its operator, or a file name before it. -/
theorem isDiscriminator (d : DeclId) :
    FunctionOutline.IsDiscriminator (g.discriminatorTokens d) := by
  unfold discriminatorTokens
  cases (g.program.decl d).localDiscriminator with
  | some n => exact .localName n
  | none =>
    cases (g.program.decl d).privateDiscriminator with
    | some file => exact .privateName _
    | none => exact .nil

theorem discriminatorTokens_eq (h : g.program.DifferInType d e) :
    g.discriminatorTokens d = g.discriminatorTokens e := by
  rw [discriminatorTokens, discriminatorTokens, h.localDiscriminator, h.privateDiscriminator]

theorem lastTokens_eq (h : g.program.DifferInType d e) : g.lastTokens d = g.lastTokens e := by
  rw [lastTokens, lastTokens, h.isStatic]

/-- The pieces of a function declaration: its place and name, its discriminator, its type,
its generic parameters, and its operators. -/
theorem entity_eq (hd : g.program.DeclaresFunction d t f) :
    g.entity outermost d = (g.contextOf outermost d ++ g.identifierPieces d)
      ++ ((g.discriminatorTokens d).map .token
        ++ (g.function (g.declScope d) t (g.program.decl d).labels
          ++ (g.ownGenerics d ++ (g.lastTokens d).map .token))) := by
  have hkind : g.program.types.kind t = .function := by
    rw [Arena.kind, hd.node]
    rfl
  have htype : g.declType outermost d =
      g.function (g.declScope d) t (g.program.decl d).labels ++ g.ownGenerics d := by
    unfold declType ownGenerics
    rw [hd.interfaceType]
    cases (g.program.decl d).signature <;> simp [hkind]
  have hlast : .op .func :: g.staticMark d = (g.lastTokens d).map Piece.token := by
    unfold staticMark lastTokens
    split <;> rfl
  unfold entity
  rw [hd.kind]
  simp only [value, declName, htype, discriminatorPieces_eq, hlast, if_true, List.append_assoc]

/-- Where a declaration can be named it has a place and a name. -/
theorem place_eq (hopts : g.options = {}) {w : Spelling} {n : Nat} {scope : Scope}
    {s s' : Progress} (h : g.Writes w n (g.contextOf scope d ++ g.identifierPieces d) s s') :
    ∃ c x, (g.program.decl d).parent = some c ∧ (g.program.decl d).name = some x ∧
      g.contextOf scope d = [.context scope c] ∧
      g.identifierPieces d = [.token (.identifier (g.program.text x))] := by
  obtain ⟨s₁, hcontext, hidentifier⟩ := writes_append.1 h
  cases hparent : (g.program.decl d).parent with
  | none =>
    rw [contextOf, hparent] at hcontext
    cases hcontext
  | some c =>
    cases hname : (g.program.decl d).name with
    | none =>
      rw [identifierPieces_eq hopts, hname] at hidentifier
      cases hidentifier
    | some x =>
      refine ⟨c, x, rfl, rfl, ?_, ?_⟩
      · rw [contextOf, hparent]
      · rw [identifierPieces_eq hopts, hname]

end Grammar

namespace Mangler

variable {m : Mangler} {d e : DeclId} {t u : TypeId} {f f' : FunctionType} {x y : String}

/-- The nodes that are completed in the context of a declaration, which is given. -/
def contextTable (m : Mangler) (c : Option Context) : List NodeKey :=
  match (m.grammar false).spellPieces {} (c.toList.map (.context Grammar.outermost)) {} with
  | .ok _ s => s.table
  | .error _ _ => []

/-- The outline of the type of a function declaration in its symbol. -/
def funcOutline (m : Mangler) (d : DeclId) (f : FunctionType) : FunctionOutline :=
  (m.grammar false).outlineFunction (m.contextTable (m.program.decl d).parent) f
    (m.program.decl d).labels

/-- The table of a context is what writing the context leaves. -/
theorem contextTable_eq {c : Context} {s : Progress}
    (h : (m.grammar false).Writes {} (m.grammar false).depthBound
      [.context Grammar.outermost c] {} s) : m.contextTable (some c) = s.table := by
  have hok : (m.grammar false).spellPieces {}
      ((some c).toList.map (.context Grammar.outermost)) {} = .ok () s :=
    Grammar.pieces_ok_iff.2 h
  rw [contextTable, hok]

/-- The symbol of a function: its place and its name, its discriminator, its outline, its
generic parameters, and its operators. -/
theorem symbol_eq_outline (hopts : m.options = {}) (ha : m.program.types.Shared)
    (hd : m.program.DeclaresFunction d t f) (h : m.mangle (.entity d .plain) = .ok x) :
    ∃ c n s generics, (m.program.decl d).parent = some c ∧ (m.program.decl d).name = some n ∧
      (m.grammar false).Writes {} (m.grammar false).depthBound
        [.context Grammar.outermost c, .token (.identifier (m.program.text n))] {} s ∧
      x = symbol "$q" (s.tokens.toList ++ (((m.grammar false).discriminatorTokens d
        ++ (m.funcOutline d f).tokens) ++ (generics ++ (m.grammar false).lastTokens d))) ∧
      ∀ ts, (m.grammar false).ownGenerics d = ts.map .token → generics = ts := by
  have hplan : m.plan (.entity d .plain) =
      .ok { pieces := [] ++ (m.grammar false).entity Grammar.outermost d } := rfl
  obtain ⟨s, hwrites, rfl⟩ := writes_of_mangle hopts hplan rfl h
  change (m.grammar false).Writes _ _ ((m.grammar false).entity Grammar.outermost d) _ _ at hwrites
  rw [Grammar.entity_eq (g := m.grammar false) hd] at hwrites
  -- the parts of the symbol, from left to right
  obtain ⟨s₁, hplace, hrest⟩ := Grammar.writes_append.1 hwrites
  obtain ⟨s₂, hdiscriminator, hrest⟩ := Grammar.writes_append.1 hrest
  obtain ⟨s₃, hfunction, hrest⟩ := Grammar.writes_append.1 hrest
  obtain ⟨s₄, hgenerics, hlast⟩ := Grammar.writes_append.1 hrest
  obtain ⟨c, n, hparent, hname, hcontext, hidentifier⟩ := Grammar.place_eq hopts hplace
  have htable : s₂.table = m.contextTable (m.program.decl d).parent := by
    -- neither the name nor the discriminator completes a node
    rw [Grammar.writes_tokens_table hdiscriminator]
    rw [hcontext, hidentifier] at hplace
    obtain ⟨s₀, hbefore, hafter⟩ := Grammar.writes_append.1 hplace
    have hparent' : (m.program.decl d).parent = some c := hparent
    rw [hparent', contextTable_eq hbefore]
    cases hafter with | token hafter =>
    cases hafter
    rfl
  have houtline := outlines_function (g := m.grammar false) ha hd.node hd.labelled
    (hdiscriminator.tabled (hplace.tabled .empty)) hfunction
  obtain ⟨generics, hnew⟩ := hgenerics.extends.tokens
  refine ⟨c, n, s₁, generics, hparent, hname, ?_, ?_, ?_⟩
  · rw [hcontext, hidentifier] at hplace
    exact hplace
  · apply congrArg (symbol "$q")
    rw [(Grammar.writes_tokens hlast).1, ← hnew, houtline, (Grammar.writes_tokens hdiscriminator).1,
      htable]
    simp only [List.append_assoc]
    rfl
  · intro ts hts
    rw [hts] at hgenerics
    rw [(Grammar.writes_tokens hgenerics).1] at hnew
    exact List.append_cancel_left hnew

/-- The symbols of two overloads begin with the same tokens. -/
theorem symbols_of_overloads (hopts : m.options = {}) (ha : m.program.types.Shared)
    (hd : m.program.DeclaresFunction d t f) (he : m.program.DeclaresFunction e u f')
    (hsame : m.program.Overload d e) (hx : m.mangle (.entity d .plain) = .ok x)
    (hy : m.mangle (.entity e .plain) = .ok y) : ∃ place generics generics',
      x = symbol "$q" (place ++ (((m.grammar false).discriminatorTokens d
        ++ (m.funcOutline d f).tokens) ++ (generics ++ (m.grammar false).lastTokens d))) ∧
      y = symbol "$q" (place ++ (((m.grammar false).discriminatorTokens e
        ++ (m.funcOutline e f').tokens) ++ (generics' ++ (m.grammar false).lastTokens e))) ∧
      (∀ ts, (m.grammar false).ownGenerics d = ts.map .token → generics = ts) ∧
      ∀ ts, (m.grammar false).ownGenerics e = ts.map .token → generics' = ts := by
  obtain ⟨c, n, s, generics, hparent, hname, hplace, hsymbol, hgenerics⟩ :=
    symbol_eq_outline hopts ha hd hx
  obtain ⟨c', n', s', generics', hparent', hname', hplace', hsymbol', hgenerics'⟩ :=
    symbol_eq_outline hopts ha he hy
  -- place and name are the same, and writing them has one outcome
  rw [← hsame.parent, hparent] at hparent'
  rw [← hsame.name, hname] at hname'
  cases hparent'
  cases hname'
  obtain rfl := hplace.unique hplace'
  exact ⟨s.tokens.toList, generics, generics', hsymbol, hsymbol', hgenerics, hgenerics'⟩

/-- The outline of a function can be read off its symbol. -/
theorem funcOutline_eq (hopts : m.options = {}) (ha : m.program.types.Shared)
    (hd : m.program.DeclaresFunction d t f) (he : m.program.DeclaresFunction e u f')
    (hsame : m.program.Overload d e) (hx : m.mangle (.entity d .plain) = .ok x)
    (hy : m.mangle (.entity e .plain) = .ok x) : m.funcOutline d f = m.funcOutline e f' := by
  obtain ⟨place, generics, generics', hsymbol, hsymbol', -, -⟩ :=
    symbols_of_overloads hopts ha hd he hsame hx hy
  have hreadable : ∀ {d : DeclId} {t : TypeId} {f : FunctionType},
      m.program.DeclaresFunction d t f → (m.funcOutline d f).Readable :=
    fun hd => outlineFunction_readable ha hd.labelled _ _
  have htext := symbol_injective (hsymbol.symm.trans hsymbol')
  rw [spellAll_append, spellAll_append place] at htext
  have hafter := List.append_cancel_left htext
  rw [spellAll_append, spellAll_append (_ ++ (m.funcOutline e f').tokens)] at hafter
  exact (hreadable hd).eq_of_text (hreadable he) (Grammar.isDiscriminator d)
    (Grammar.isDiscriminator e) hafter

/-- Functions that differ in nothing but their types and labels have one symbol if they have
one outline. -/
theorem symbol_eq_of_funcOutline_eq (hopts : m.options = {}) (ha : m.program.types.Shared)
    (hd : m.program.DeclaresFunction d t f) (he : m.program.DeclaresFunction e u f')
    (hsame : m.program.Overload d e) (hrest : m.program.DifferInType d e)
    (hx : m.mangle (.entity d .plain) = .ok x) (hy : m.mangle (.entity e .plain) = .ok y)
    (h : m.funcOutline d f = m.funcOutline e f') : x = y := by
  obtain ⟨place, generics, generics', rfl, rfl, hgenerics, hgenerics'⟩ :=
    symbols_of_overloads hopts ha hd he hsame hx hy
  obtain ⟨ts, hts⟩ := Grammar.ownGenerics_tokens (g := m.grammar false) hrest
  have hts' : (m.grammar false).ownGenerics e = ts.map .token := by
    rw [← hts]
    exact (Grammar.ownGenerics_eq (g := m.grammar false) hsame hrest).symm
  rw [hgenerics ts hts, hgenerics' ts hts', h,
    Grammar.discriminatorTokens_eq (g := m.grammar false) hrest,
    Grammar.lastTokens_eq (g := m.grammar false) hrest]

/-- Functions and their labels are told by their outlines if no label is in front of a
tuple. -/
theorem eq_of_funcOutline_eq (hnames : m.program.names.Built)
    (ha : m.program.types.Shared) (hd : m.program.DeclaresFunction d t f)
    (he : m.program.DeclaresFunction e u f')
    (hleaves : m.program.FunctionLabelsLeaves f (m.program.decl d).labels)
    (hleaves' : m.program.FunctionLabelsLeaves f' (m.program.decl e).labels)
    (hsame : m.program.Overload d e) (houtline : m.funcOutline d f = m.funcOutline e f') :
    t = u ∧ (m.program.decl d).labels = (m.program.decl e).labels := by
  rw [funcOutline, funcOutline, hsame.parent] at houtline
  obtain ⟨hf, hlabels⟩ := outlineFunction_injective (g := m.grammar false) hnames ha hd.labelled
    he.labelled hd.labels he.labels hleaves hleaves' houtline
  refine ⟨ha.eq_of_node_eq hd.issued he.issued ?_, hlabels⟩
  rw [hd.node, he.node, hf]

end Mangler

end NameMangling
