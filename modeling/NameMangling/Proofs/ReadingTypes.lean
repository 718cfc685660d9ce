/-
# Reading declarations and types

What is written for a module, for a nominal declaration and for a type without labels is
read as it.  A type is read as itself when the types it is made of are.

Main definition: `ReadsType`, the types that are read as themselves.

Main facts: `reads_nominal`, `reads_tuple`, `reads_boundGeneric` and `reads_existential`.
-/
import NameMangling.Proofs.ReadingPieces
import NameMangling.Proofs.Unlabelled

namespace NameMangling

section

variable {g : Grammar} {n : Nat} {scope : Scope}

/-! ## Modules and nominal declarations -/

/-- A name follows. -/
def NameFollows (rest : List Token) : Prop := ∃ x rest', rest = .identifier x :: rest'

/-- With the standard options an identifier is a text, and a missing name is refused. -/
theorem identifierPieces_eq (hopts : g.options = {}) (d : DeclId) :
    g.identifierPieces d = match (g.program.decl d).name with
      | some x => [.token (.identifier (g.program.text x))]
      | none => [.fail (.namelessEntity d)] := by
  cases hname : (g.program.decl d).name <;> simp [Grammar.identifierPieces, hopts, hname]

/-- The discriminator of a module is passed over. -/
theorem leads_discriminator (d : DeclId) : ∃ ts, g.discriminatorPieces d = ts.map .token ∧
    (∀ (p : Program) x σ table rest, NameFollows rest → p.readName x σ table (ts ++ rest) =
      (p.nativeModule? x).map fun e =>
        ⟨.key (.decl e) :: σ, register (.decl e) table, ts ++ rest⟩) ∧
    ∀ (p : Program) key σ table rest, Leads p.readToken ⟨.key key :: σ, table, ts ++ rest⟩
      ⟨.key key :: σ, table, rest⟩ := by
  unfold Grammar.discriminatorPieces
  split
  · rename_i i _
    refine ⟨[.op .localName, .index i], rfl, fun p x σ table rest _ => rfl, ?_⟩
    exact fun p key σ table rest => .single rfl
  · rename_i file _ _
    refine ⟨[.identifier (g.program.text file), .op .privateName], rfl,
      fun p x σ table rest _ => rfl, ?_⟩
    exact fun p key σ table rest => .single rfl
  · refine ⟨[], rfl, ?_, fun p key σ table rest => .refl _⟩
    rintro p x σ table _ ⟨y, rest, rfl⟩
    rfl

/-- A module is read as itself, if a name follows. -/
theorem reads_module (hopts : g.options = {}) (hp : g.program.NamesApart) {d : DeclId}
    (hd : g.program.kindOf d = .nativeModule) :
    ReadsPieces g n (g.moduleDecl scope d) NameFollows [.key (.decl d)] := by
  have hpieces : g.moduleDecl scope d = [.node scope (.decl d) none] := by
    simp [Grammar.moduleDecl, Program.isStandardModule, hp.noStandard, hd]
  rw [hpieces]
  refine readsPieces_node fun m _ => ?_
  show ReadsBody g m (g.declBody scope d) _ _
  unfold Grammar.declBody
  rw [hd]
  show ReadsBody g m (g.identifierPieces d ++ g.discriminatorPieces d) _ _
  rw [identifierPieces_eq hopts]
  split
  · rename_i x hx
    obtain ⟨ts, hts, hname, hskip⟩ := leads_discriminator (g := g) d
    rw [hts]
    -- the name makes the module, and the discriminator behind it changes nothing
    refine readsBody_of_parts (.identifier (g.program.text x) :: ts) readsPieces_nil
      (fun _ _ => rfl) fun σ table rest hσ hrest => ?_
    refine .head ?_ (hskip g.program (.decl d) σ _ rest)
    refine (readToken_identifier hσ _).trans ((hname _ _ _ _ _ hrest).trans ?_)
    rw [Program.nativeModule?_eq hp hd hx]
    rfl
  · intro s s' _ hwrites
    cases hwrites

/-- The operator of a nominal declaration follows its name. -/
theorem nominalOperator?_eq_some {kind : DeclKind} (hkind : kind.isNominal = true) :
    ∃ o, Grammar.nominalOperator? kind = some o ∧ o.isNominal = true ∧ o ≠ .typeAlias := by
  cases kind <;> first | cases hkind; done | exact ⟨_, rfl, rfl, by simp⟩

/-- Without a standard library module no spelling is reserved. -/
theorem standardName?_eq_none (hstandard : g.program.standardModule = none) (d : DeclId) :
    g.standardName? d = none := by
  unfold Grammar.standardName?
  split <;> simp [Program.isStandardModule, hstandard]

/-- Without a standard library module a nominal declaration is a node. -/
theorem nominal_eq (hstandard : g.program.standardModule = none) {d : DeclId}
    (hd : (g.program.kindOf d).isNominal = true) :
    g.nominal scope d = [.node scope (.decl d) (some (.nominal d))] := by
  obtain ⟨o, ho, -, halias⟩ := nominalOperator?_eq_some hd
  have hreferent : Referent.ofDecl g.program d = .ok (.nominal d) := by
    unfold Referent.ofDecl
    cases hkind : g.program.kindOf d <;> rw [hkind] at hd <;>
      first | cases hd; done | rfl
  unfold Grammar.nominal
  rw [ho]
  simp only [standardName?_eq_none hstandard, if_neg halias, hreferent]

/-- A nominal declaration is spelled by its place, its name and its operator. -/
theorem declBody_eq {d c : DeclId} {o : Operator} (hp : g.program.NamesApart)
    (hd : (g.program.kindOf d).isNominal = true)
    (ho : Grammar.nominalOperator? (g.program.kindOf d) = some o)
    (hc : (g.program.decl d).parent = some (.decl c)) :
    g.declBody scope d = .context scope (.decl c) :: (g.identifierPieces d ++ [.op o]) := by
  obtain ⟨hlocal, hprivate⟩ := hp.discriminators d hd
  have hdiscriminator : g.discriminatorPieces d = [] := by
    unfold Grammar.discriminatorPieces
    rw [hlocal, hprivate]
  have hcontext : g.contextOf scope d = [.context scope (.decl c)] := by
    unfold Grammar.contextOf
    rw [hc]
  unfold Grammar.declBody
  cases hkind : g.program.kindOf d <;> rw [hkind] at hd ho <;> first
    | cases hd; done
    | simp only [ho, hcontext, Grammar.declName, hdiscriminator, List.append_nil,
        List.cons_append, List.nil_append]

/-- A nominal declaration is read as itself. -/
theorem reads_nominal (hopts : g.options = {}) (hp : g.program.NamesApart) {d : DeclId}
    (hd : (g.program.kindOf d).isNominal = true) :
    ReadsPieces g n (g.nominal scope d) (fun _ => True) [.key (.decl d)] := by
  -- the place of a declaration is spelled at a smaller depth
  induction n using Nat.strongRecOn generalizing d with
  | _ n ih =>
    obtain ⟨c, hc, hplace⟩ := hp.parents d hd
    obtain ⟨o, ho, hnominal, -⟩ := nominalOperator?_eq_some hd
    rw [nominal_eq hp.noStandard hd]
    refine readsPieces_node fun m hm => ?_
    show ReadsBody g m (g.declBody scope d) _ _
    rw [declBody_eq hp hd ho hc, identifierPieces_eq hopts]
    have hcontext : ReadsPieces g m [.context scope (.decl c)] NameFollows [.key (.decl c)] := by
      refine readsPieces_phrase fun k hk => ?_
      show ReadsPieces g k (g.declContext scope c) _ _
      unfold Grammar.declContext
      rcases hplace with hmodule | hc'
      · rw [hmodule]
        exact reads_module hopts hp hmodule
      · have hread : ReadsPieces g k (g.nominal scope c) NameFollows [.key (.decl c)] :=
          (ih k (by omega) hc').mono fun _ _ => trivial
        cases hkind : g.program.kindOf c <;> rw [hkind] at hc' <;>
          first | cases hc'; done | exact hread
    cases hx : (g.program.decl d).name with
    | none =>
      intro s s' _ hwrites
      cases hwrites with | phrase _ after => cases after
    | some x =>
      refine readsBody_of_parts [.identifier (g.program.text x), .op o] hcontext
        (fun rest _ => ⟨_, _, rfl⟩) ?_
      intro σ table rest hσ _
      refine .single ((readToken_identifier hσ _).trans ?_)
      cases o <;> first
        | cases hnominal; done
        | simp [Program.readName, Operator.isNominal, Program.member?_eq hp hd hc hx]

/-! ## Types -/

/-- What may follow a type: a tuple that marks follow would be taken for parameters. -/
def Follows (p : Program) (t : TypeId) (rest : List Token) : Prop :=
  p.types.kind t = .tuple → Quiet rest

/-- Types that are read as themselves. -/
structure ReadsType (g : Grammar) (n : Nat) (t : TypeId) : Prop where
  built : t.index < g.program.types.size
  reads : ∀ scope, ReadsPieces g n [.type scope t] (Follows g.program t)
    [.key (g.program.keyOf t)]

theorem ReadsType.quiet {t : TypeId} (h : ReadsType g n t) (scope : Scope) :
    ReadsPieces g n [.type scope t] Quiet [.key (g.program.keyOf t)] :=
  (h.reads scope).mono fun _ hrest _ => hrest

/-- A type that is its own canonical form, or that sugar is accepted for, is spelled by its
node. -/
theorem type_eq (scope : Scope) (t : TypeId) : g.type scope t = [.fail (.nonCanonicalType t)] ∨
    g.type scope t = match g.program.types.node t with
      | .emptyTuple => [.op .emptyTuple]
      | .builtinInt width => [.op .builtinInt, .token (.count width)]
      | .builtinFloat width => [.op .builtinFloat, .token (.count width)]
      | .builtinWord => [.op .builtinWord]
      | .rawPointer => [.op .rawPointer]
      | .nativeObject => [.op .nativeObject]
      | .unknownObject => [.op .unknownObject]
      | .bridgeObject => [.op .bridgeObject]
      | .genericParam key => g.genericParam scope key
      | .nominal d none => g.nominal scope d
      | .opaqueResult d ordinal _ =>
        if g.isOwnResult scope d then Grammar.ownResult ordinal else [.node scope (.type t) none]
      | .aliased d underlying => g.aliased scope d underlying
      | .paren inner => [.type scope inner]
      | .optionalSugar _ desugared | .arraySugar _ desugared | .dictionarySugar _ _ desugared =>
        [.type scope desugared]
      | _ => [.node scope (.type t) none] := by
  unfold Grammar.type
  split
  · exact .inl rfl
  · exact .inr rfl

variable {p : Program} {σ : List TypeItem} {table : List NodeKey} {rest : List Token}
  {t u : TypeId}

/-- A type is found by its node when it is complete. -/
theorem complete_node (ha : p.types.Shared) (ht : t.index < p.types.size) {node : TypeNode}
    (hnode : p.types.node t = node) : p.complete node σ table rest =
      some ⟨.key (.type t) :: σ, register (.type t) table, rest⟩ := by
  rw [Program.complete, ← hnode, ha.find?_node ht]
  rfl

/-! ## Types without parts -/

/-- The node of a type without parts is spelled by its tokens, unless it is a parameter that
does not belong to the signature in scope. -/
theorem type_eq_leafTokens (scope : Scope) (h : (g.program.types.node t).isLeaf = true) :
    (∃ e, g.type scope t = [.fail e]) ∨
      g.type scope t = (leafTokens (g.program.types.node t)).map .token := by
  rcases type_eq (g := g) scope t with htype | htype <;> rw [htype]
  · exact .inl ⟨_, rfl⟩
  · cases hnode : g.program.types.node t with
    | genericParam key =>
      dsimp only [Grammar.genericParam]
      split
      · exact .inr rfl
      · exact .inl ⟨_, rfl⟩
    | _ =>
      rw [hnode] at h
      first
        | cases h; done
        | exact .inr rfl

/-- A type without parts is read at once. -/
theorem reads_leaf (ha : g.program.types.Shared) (ht : t.index < g.program.types.size)
    (h : (g.program.types.node t).isLeaf = true) {ok : List Token → Prop} :
    ReadsPieces g n (g.type scope t) ok [.key (g.program.keyOf t)] := by
  have hkey : g.program.keyOf t = .type t :=
    Program.keyOf_eq_type fun d hd => by rw [hd] at h; cases h
  rw [hkey]
  -- such a type is refused, or written as an operator with its width or place
  rcases type_eq_leafTokens scope h with ⟨e, htype⟩ | htype <;> rw [htype]
  · exact readsPieces_fail
  · obtain ⟨o, ts, htokens, hmark, hleaf⟩ := leaf?_leafTokens h
    rw [htokens]
    refine readsPieces_tokens _ (fun _ _ => hmark) (fun σ table rest hσ _ => ?_) (by simp)
    refine .single ((readToken_op hσ o).trans ?_)
    show g.program.readTypeOperator o σ table (ts ++ rest) = _
    unfold Program.readTypeOperator
    rw [hleaf]
    dsimp only
    rw [ha.find?_node ht]
    rfl

/-- A type that is a node is read as its body is. -/
theorem reads_node {ok : List Token → Prop}
    (hkind : (g.program.types.node t).kind ∈ [.boundGeneric, .tuple, .function, .lowered,
      .metatype, .existentialMetatype, .existential])
    (h : ∀ m, m < n → ReadsBody g m (g.structural scope t) ok (.type t)) :
    ReadsPieces g n (g.type scope t) ok [.key (g.program.keyOf t)] := by
  have hkey : g.program.keyOf t = .type t :=
    Program.keyOf_eq_type fun d hd => by rw [hd] at hkind; simp [TypeNode.kind] at hkind
  rw [hkey]
  rcases type_eq (g := g) scope t with htype | htype <;> rw [htype]
  · exact readsPieces_fail
  · have hread : ReadsPieces g n [.node scope (.type t) none] ok [.key (.type t)] :=
      readsPieces_node h
    cases hnode : g.program.types.node t <;> rw [hnode] at hkind <;> first
      | exact hread
      | simp [TypeNode.kind] at hkind

/-! ## Tuples, metatypes and generic types -/

/-- A type that is spelled as another one and an operator. -/
theorem reads_wrapped (ha : g.program.types.Shared) (ht : t.index < g.program.types.size)
    (hu : ReadsType g n u) {o : Operator} {k : TypeId → TypeNode} {ok : List Token → Prop}
    (hnode : g.program.types.node t = k u) (hmark : o.isMark = false)
    (hpieces : g.structural scope t = [.type scope u, .op o])
    (hclose : ∀ x σ table rest, g.program.readTypeOperator o (x :: σ) table rest =
      (g.program.typeOf? x).bind fun u => g.program.complete (k u) σ table rest) :
    ReadsBody g n (g.structural scope t) ok (.type t) := by
  rw [hpieces]
  apply readsBody_of_parts [.op o] (hu.quiet scope) (fun _ _ => hmark)
  intro σ table rest hσ _
  refine .single ((readToken_op hσ _).trans ?_)
  apply (hclose _ _ _ _).trans
  rw [Program.typeOf?_keyOf ha hu.built]
  exact complete_node ha ht hnode

/-- The items that types are read as. -/
def typeItems (p : Program) (us : List TypeId) : List TypeItem := us.map fun u => .key (p.keyOf u)

theorem popList_typeItems {us : List TypeId} (hne : us ≠ []) :
    popList [] (listItems (typeItems p us) ++ σ) = some (typeItems p us, σ) :=
  popList_listItems (by simpa [typeItems] using hne) (by simp [typeItems])

/-- The items of types are these types again. -/
theorem mapM_typeItems (ha : p.types.Shared) {us : List TypeId}
    (hus : ∀ u ∈ us, u.index < p.types.size) : (typeItems p us).mapM p.typeOf? = some us := by
  have hmap := mapM_map_eq_some (k := fun u => TypeItem.key (p.keyOf u)) (h := id) fun u hu =>
    Program.typeOf?_keyOf ha (hus u hu)
  rwa [List.map_id] at hmap

/-- A marked list of types is read as the items of the types. -/
theorem reads_typeList {us : List TypeId} (hus : ∀ u ∈ us, ReadsType g n u) :
    ReadsPieces g n (markFirst (us.map fun u => [.type scope u])) Quiet
      (listItems (typeItems g.program us)) :=
  readsPieces_markFirst fun u hu => (hus u hu).quiet scope

/-- A list behind which a tuple is closed is completed as a tuple without labels. -/
theorem readTypeOperator_tuple {τ xs : List TypeItem} {us : List TypeId}
    (hlist : popList [] τ = some (xs, σ)) (hrest : Quiet rest) (hxs : xs.mapM p.typeOf? = some us) :
    p.readTypeOperator .tuple τ table rest =
      p.complete (.tuple (us.map (⟨none, ·⟩))) σ table rest := by
  show (popList [] τ).bind _ = _
  rw [hlist, Option.bind_some]
  dsimp only
  rw [hrest, hxs]
  rfl

/-- A tuple is told from parameters by what follows. -/
theorem reads_tuple (ha : g.program.types.Shared) (ht : t.index < g.program.types.size)
    {elements : List TupleElement} (h : g.program.types.node t = .tuple elements)
    (hlabels : ∀ e ∈ elements, e.label = none)
    (helements : ∀ e ∈ elements, ReadsType g n e.type) :
    ReadsBody g n (g.structural scope t) Quiet (.type t) := by
  obtain ⟨us, rfl⟩ : ∃ us : List TypeId, elements = us.map (⟨none, ·⟩) := by
    refine ⟨elements.map (·.type), ?_⟩
    rw [List.map_map]
    refine (List.map_id elements).symm.trans (List.map_congr_left fun e he => ?_)
    obtain ⟨label, u⟩ := e
    rw [show label = none from hlabels _ he]
    rfl
  have hus : ∀ u ∈ us, ReadsType g n u := fun u hu => helements _ (List.mem_map_of_mem hu)
  -- the empty tuple is a type without parts, stored as such
  have hne : us ≠ [] := by
    rintro rfl
    exact ha.nonempty _ (Array.mem_of_getElem? (Arena.Shared.entry_mem ht)) h
  have hpieces : g.structural scope t =
      markFirst (us.map fun u => [.type scope u]) ++ [Token.op .tuple].map .token := by
    simp [Grammar.structural, h, Grammar.tuple, Grammar.label, Piece.op, Function.comp_def]
  rw [hpieces]
  refine readsBody_of_parts _ (reads_typeList hus) (fun _ _ => rfl) fun σ table rest hσ hrest => ?_
  refine .single ((readToken_op hσ _).trans ?_)
  refine (readTypeOperator_tuple (popList_typeItems hne) hrest
    (mapM_typeItems ha fun u hu => (hus u hu).built)).trans ?_
  exact complete_node ha ht h

/-- Where signatures provide the conformances of all arguments, nothing is retroactive. -/
theorem retroactiveOf_eq_nil_of_fromSignature {t : TypeId}
    (h : ∀ u ∈ g.program.flattenedArgs t, ∀ q, g.program.conformanceOf u q = .fromSignature q) :
    g.retroactiveOf t = [] := by
  unfold Grammar.retroactiveOf
  split
  · rename_i subs hsubs
    -- every conformance of the substitutions is that of an argument, or left to the signature
    have hrefs : ∀ ref ∈ subs.conformances, ∃ q, ref = .fromSignature q := by
      unfold Program.substitutionsOf? at hsubs
      obtain ⟨d, -, hsubs⟩ := Option.bind_eq_some_iff.1 hsubs
      obtain ⟨s, -, hsubs⟩ := Option.bind_eq_some_iff.1 hsubs
      dsimp only at hsubs
      split at hsubs
      · cases hsubs
        intro ref href
        obtain ⟨⟨subject, q⟩, -, rfl⟩ := List.mem_map.1 href
        dsimp only
        split
        · rename_i u hu
          obtain ⟨key, -, hu⟩ := Option.bind_eq_some_iff.1 hu
          obtain ⟨i, -, hu⟩ := Option.bind_eq_some_iff.1 hu
          exact ⟨q, h u (List.mem_of_getElem? hu) q⟩
        · exact ⟨q, rfl⟩
      · cases hsubs
    unfold Grammar.retroactive
    rw [List.filter_eq_nil_iff]
    rintro ⟨ref, i⟩ hi
    obtain ⟨q, rfl⟩ := hrefs ref (List.fst_mem_of_mem_zipIdx hi)
    simp
  · rfl

/-- Without conformances nothing is retroactive. -/
theorem retroactiveOf_eq_nil (hconformances : g.program.conformances = #[]) (t : TypeId) :
    g.retroactiveOf t = [] := by
  refine retroactiveOf_eq_nil_of_fromSignature fun u _ q => ?_
  unfold Program.conformanceOf
  split
  · rfl
  · simp [Program.conformanceIds, hconformances]

/-- The arguments of a nominal type that is not nested in another one. -/
theorem argLevels_eq {d : DeclId} {us : List TypeId} (ht : t.index < p.types.size)
    (h : (p.types.node t).nominal? = some ⟨d, none, us⟩) : p.argLevels t = [us] := by
  obtain ⟨n, hn⟩ : ∃ n, p.types.size = n + 1 := ⟨p.types.size - 1, by omega⟩
  simp [Program.argLevels, hn, Program.argLevelsUp, h]

/-- A list behind the node of a declaration is completed as its arguments. -/
theorem readTypeOperator_boundGeneric {τ xs : List TypeItem} {d : DeclId} {us : List TypeId}
    (hlist : popList [] τ = some (xs, .key (.decl d) :: σ)) (hxs : xs.mapM p.typeOf? = some us) :
    p.readTypeOperator .boundGeneric τ table rest =
      p.complete (.boundGeneric d none us) σ table rest := by
  show (popList [] τ).bind _ = _
  rw [hlist, Option.bind_some]
  dsimp only
  rw [hxs]
  rfl

/-- A type with arguments is read as itself if its arguments are. -/
theorem reads_boundGeneric (hopts : g.options = {}) (hp : g.program.NamesApart)
    (ha : g.program.types.Shared) (ht : t.index < g.program.types.size) {d : DeclId}
    {us : List TypeId} (h : g.program.types.node t = .boundGeneric d none us)
    (hd : (g.program.kindOf d).isNominal = true) (hne : us ≠ [])
    (hus : ∀ u ∈ us, ReadsType g n u) {ok : List Token → Prop} :
    ReadsBody g n (g.structural scope t) ok (.type t) := by
  have hpieces : g.structural scope t =
      (g.nominal scope d ++ markFirst (us.map fun u => [.type scope u]))
        ++ [Token.op .boundGeneric].map .token := by
    -- no type is taken for an optional where the standard library module is not there
    have hplain : g.boundGeneric scope t ⟨d, none, us⟩ =
        g.nominal scope d ++ (g.program.argLevels t).flatMap (Grammar.argLevel scope)
          ++ Grammar.retroactivePieces scope (g.retroactiveOf t) ++ [.op .boundGeneric] := by
      unfold Grammar.boundGeneric
      dsimp only
      split
      · have hoptional : g.isOptional d = false := by
          simp [Grammar.isOptional, standardName?_eq_none hp.noStandard]
        rw [hoptional]
        simp
      · rfl
    have hlist : Grammar.argLevel scope us = markFirst (us.map fun u => [.type scope u]) := by
      rw [Grammar.argLevel, listPieces, if_neg (by simpa using hne)]
    unfold Grammar.structural
    rw [h]
    dsimp only
    rw [hplain, argLevels_eq ht (by rw [h]; rfl), retroactiveOf_eq_nil hp.noConformances]
    simp [hlist, Grammar.retroactivePieces, Piece.op]
  have hparts : ReadsPieces g n (g.nominal scope d ++ markFirst (us.map fun u => [.type scope u]))
      Quiet (listItems (typeItems g.program us) ++ [.key (.decl d)]) :=
    (reads_nominal hopts hp hd).append (reads_typeList hus) fun _ _ => trivial
  rw [hpieces]
  refine readsBody_of_parts _ hparts (fun _ _ => rfl) fun σ table rest hσ hrest => ?_
  refine .single ((readToken_op hσ _).trans ?_)
  rw [List.append_assoc]
  refine (readTypeOperator_boundGeneric (popList_typeItems hne)
    (mapM_typeItems ha fun u hu => (hus u hu).built)).trans ?_
  exact complete_node ha ht h

/-! ## Compositions -/

/-- The items that the protocols of a composition are read as. -/
def protocolItems (ds : List DeclId) : List TypeItem :=
  if ds = [] then [.emptyList] else listItems (ds.map fun d => .key (.decl d))

/-- The declarations of protocols are found on the stack again, in their order. -/
theorem popDecls_protocolItems (ds : List DeclId) :
    popDecls (protocolItems ds ++ σ) = some (ds, σ) := by
  unfold protocolItems
  -- no protocols are a mark of their own, others a list
  split
  · rename_i hds
    subst hds
    rfl
  · rename_i hne
    have hlist : popList [] (listItems (ds.map fun d => .key (.decl d)) ++ σ) =
        some (ds.map fun d => .key (.decl d), σ) :=
      popList_listItems (by simpa using hne) (by simp)
    have hdecls : (ds.map fun d => TypeItem.key (.decl d)).mapM TypeItem.decl? = some ds := by
      have hmap : (ds.map fun d => TypeItem.key (.decl d)).mapM TypeItem.decl? =
          some (ds.map id) := mapM_map_eq_some fun _ _ => rfl
      rwa [List.map_id] at hmap
    unfold popDecls
    split
    · rename_i σ' hempty
      rw [hempty] at hlist
      cases hlist
    · rw [hlist, Option.bind_some]
      dsimp only
      rw [hdecls]
      rfl

/-- A list of protocols is read as their declarations. -/
theorem reads_protocols (hopts : g.options = {}) (hp : g.program.NamesApart) (ds : List DeclId) :
    ReadsPieces g n (listPieces (ds.map (g.protocol scope))) Quiet (protocolItems ds) := by
  unfold listPieces protocolItems
  by_cases hds : ds = []
  · subst hds
    refine readsPieces_tokens [.op .emptyList] (fun _ _ => rfl) ?_ (by simp)
    exact fun σ table rest hσ _ => .single (readToken_op hσ _)
  · rw [if_neg (by simpa using hds), if_neg hds]
    refine readsPieces_markFirst fun d _ => ?_
    unfold Grammar.protocol
    split
    · rename_i hprotocol
      refine (reads_nominal hopts hp ?_).mono fun _ _ => trivial
      cases hkind : g.program.kindOf d <;> rw [hkind] at hprotocol <;>
        first | cases hprotocol; done | rfl
    · exact readsPieces_fail

/-- A composition is spelled with a superclass, a class bound, or neither of them. -/
theorem reads_existential (hopts : g.options = {}) (hp : g.program.NamesApart)
    (ha : g.program.types.Shared) (ht : t.index < g.program.types.size) {c : Composition}
    (h : g.program.types.node t = .existential c)
    (hbound : c.superclass.isSome = true → c.anyObject = false)
    (hsuperclass : ∀ u ∈ c.superclass, ReadsType g n u) {ok : List Token → Prop} :
    ReadsBody g n (g.structural scope t) ok (.type t) := by
  obtain ⟨ds, superclass, anyObject⟩ := c
  have hprotocols : ReadsPieces g n (listPieces (ds.map (g.protocol scope))) Quiet
      (protocolItems ds) := reads_protocols hopts hp ds
  -- the superclass stands behind the protocols, so it is on top of the stack
  cases superclass with
  | some u =>
    obtain rfl : anyObject = false := hbound rfl
    have hu := hsuperclass u rfl
    have hpieces : g.structural scope t = (listPieces (ds.map (g.protocol scope))
        ++ [.type scope u]) ++ [Token.op .superclassComposition].map .token := by
      simp [Grammar.structural, h, Grammar.composition, Piece.op]
    rw [hpieces]
    refine readsBody_of_parts _ (hprotocols.append (hu.quiet scope) fun _ hrest => hrest)
      (fun _ _ => rfl) fun σ table rest hσ _ => ?_
    refine .single ((readToken_op hσ _).trans ?_)
    show (g.program.typeOf? (.key (g.program.keyOf u))).bind _ = _
    rw [Program.typeOf?_keyOf ha hu.built, Option.bind_some]
    show (popDecls (protocolItems ds ++ σ)).bind _ = _
    rw [popDecls_protocolItems]
    exact complete_node ha ht h
  | none =>
    have hpieces : g.structural scope t = listPieces (ds.map (g.protocol scope))
        ++ [Token.op (if anyObject then .classComposition else .composition)].map .token := by
      simp [Grammar.structural, h, Grammar.composition, Piece.op]
    rw [hpieces]
    refine readsBody_of_parts _ hprotocols (fun _ _ => by cases anyObject <;> rfl)
      fun σ table rest hσ _ => ?_
    refine .single ((readToken_op hσ _).trans ?_)
    cases anyObject
    all_goals
      show (popDecls (protocolItems ds ++ σ)).bind _ = _
      rw [popDecls_protocolItems]
      exact complete_node ha ht h

end

end NameMangling
