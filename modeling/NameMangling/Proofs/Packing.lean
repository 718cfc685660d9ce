/-
# Packing and unpacking

A node whose numbers fit their words can be read back from its key, in normal form: the
readers undo the layouts.  So keys are as good as nodes for telling types apart.

Main definitions: `TypeNode.Packable`, the nodes whose numbers fit, and `PoolKey.node?`, the
node of a key.

Main facts:
* `TypeNode.node?_key`: a packable node is read back from its key in normal form;
* `TypeNode.normalise_eq_of_key_eq`: packable nodes of one key have one normal form;
* `TypeNode.key_normalise`: a node and its normal form have one key.
-/
import NameMangling.Types.Pool
import NameMangling.Proofs.Sharing

namespace NameMangling

/-! ## Handles -/

theorem TypeId.ofWord_word {t : TypeId} (h : t.index < UInt32.size) : ofWord t.word = t := by
  rw [ofWord, word, UInt32.toNat_ofNat_of_lt' h]

theorem DeclId.ofWord_word {d : DeclId} (h : d.index < UInt32.size) : ofWord d.word = d := by
  rw [ofWord, word, UInt32.toNat_ofNat_of_lt' h]

/-- The word of a type that fits is not the word for no type. -/
theorem TypeId.word_ne_absent {t : TypeId} (h : t.index < absent.index) :
    t.word ≠ absent.word := by
  intro heq
  have hindex := congrArg UInt32.toNat heq
  rw [word, word, UInt32.toNat_ofNat_of_lt' (Nat.lt_trans h (by decide)),
    UInt32.toNat_ofNat_of_lt' (by decide)] at hindex
  omega

/-- An optional type is read back from its word, none from the word for no type. -/
theorem TypeId.ofOptionWord_optionWord {o : Option TypeId}
    (h : ∀ t ∈ o, t.index < absent.index) : ofOptionWord (optionWord o) = o := by
  cases o with
  | none => rfl
  | some t =>
    have ht := h t rfl
    rw [optionWord, ofOptionWord, if_neg (word_ne_absent ht),
      ofWord_word (Nat.lt_trans ht (by decide))]

/-- The empty label is read back as no label. -/
theorem Name.ofLabelWord_labelWord {label : Option Name}
    (h : ∀ n ∈ label, n.slot < UInt32.size) :
    ofLabelWord (labelWord label) = TypeNode.storedLabel label := by
  cases label with
  | none => rfl
  | some n =>
    have hslot : (UInt32.ofNat n.slot).toNat = n.slot := UInt32.toNat_ofNat_of_lt' (h n rfl)
    have hzero : UInt32.ofNat n.slot = 0 ↔ n = empty := by
      rw [← UInt32.toNat_inj, hslot]
      cases n
      simp [empty]
    simp only [ofLabelWord, labelWord, TypeNode.storedLabel, hslot, hzero, Option.some.injEq]

/-! ## Attributes -/

/-- A choice is read back from its place among the choices. -/
theorem Choices.ofWord_word {α : Type} [DecidableEq α] {c : Choices α} {a : α}
    (ha : a ∈ c.choices) (hc : c.choices.length < UInt32.size) : c.ofWord (c.word a) = a := by
  have hlt : c.choices.idxOf a < c.choices.length := List.idxOf_lt_length_of_mem ha
  rw [ofWord, word, UInt32.toNat_ofNat_of_lt' (Nat.lt_trans hlt hc),
    List.getElem?_eq_getElem hlt, List.getElem_idxOf, Option.getD_some]

theorem ContextOwnership.ofWord_word (o : ContextOwnership) : all.ofWord (all.word o) = o :=
  Choices.ofWord_word (by cases o <;> decide) (by decide)

theorem Passing.ofWord_word (c : Passing) : all.ofWord (all.word c) = c :=
  Choices.ofWord_word (by cases c <;> decide) (by decide)

theorem Returning.ofWord_word (c : Returning) : all.ofWord (all.word c) = c :=
  Choices.ofWord_word (by cases c <;> decide) (by decide)

theorem FunctionAttributes.ofWord_word (a : FunctionAttributes) : ofWord a.word = a := by
  obtain ⟨repr, isThrowing, isAsync, differentiability⟩ := a
  cases repr <;> cases isThrowing <;> cases isAsync <;> cases differentiability <;> decide

/-- The flags of a parameter are read back from their bits. -/
theorem ParamFlags.ofWord_word (f : ParamFlags) : ofWord f.word = f := by
  obtain ⟨isInout, isVariadic, isAutoclosure, isOwned, isShared⟩ := f
  cases isInout <;> cases isVariadic <;> cases isAutoclosure <;> cases isOwned <;>
    cases isShared <;> decide

namespace ParamKey

/-- The word of a key has its depth in the upper half and its index in the lower one. -/
theorem toNat_word {k : ParamKey} (hdepth : k.depth < UInt16.size)
    (hindex : k.index < UInt16.size) : k.word.toNat = UInt16.size * k.depth + k.index := by
  have hhigh : (UInt32.ofNat k.depth <<< 16).toNat = UInt16.size * k.depth := by
    rw [UInt32.toNat_shiftLeft, UInt32.toNat_ofNat_of_lt' (Nat.lt_trans hdepth (by decide))]
    show k.depth <<< 16 % 4294967296 = 65536 * k.depth
    rw [Nat.shiftLeft_eq]
    have hlt : k.depth < 65536 := hdepth
    omega
  have hlow : (UInt32.ofNat k.index &&& 0xFFFF).toNat = k.index := by
    rw [UInt32.toNat_and, UInt32.toNat_ofNat_of_lt' (Nat.lt_trans hindex (by decide))]
    exact (Nat.and_two_pow_sub_one_eq_mod k.index 16).trans (Nat.mod_eq_of_lt hindex)
  rw [word, UInt32.toNat_or, hhigh, hlow]
  exact (Nat.two_pow_add_eq_or_of_lt (i := 16) hindex k.depth).symm

/-- A key is read back from the two halves of its word. -/
theorem ofWord_word {k : ParamKey} (hdepth : k.depth < UInt16.size)
    (hindex : k.index < UInt16.size) : ofWord k.word = k := by
  have hword := toNat_word hdepth hindex
  have hlt : k.index < 65536 := hindex
  have hd : (k.word >>> 16).toNat = k.depth := by
    rw [UInt32.toNat_shiftRight, hword]
    show (65536 * k.depth + k.index) >>> 16 = k.depth
    rw [Nat.shiftRight_eq_div_pow]
    omega
  have hi : (k.word &&& 0xFFFF).toNat = k.index := by
    rw [UInt32.toNat_and, hword]
    refine (Nat.and_two_pow_sub_one_eq_mod _ 16).trans ?_
    show (65536 * k.depth + k.index) % 65536 = k.index
    omega
  rw [ofWord, hd, hi]

end ParamKey

theorem toUInt32_ne_zero (b : Bool) : (b.toUInt32 != 0) = b := by
  cases b <;> decide

/-! ## Rows -/

section Rows

variable {α : Type}

/-- A row of two words for each item is read back pair by pair. -/
theorem pairsOf_flatMap (f g : α → UInt32) (l : List α) :
    pairsOf (l.flatMap fun a => [f a, g a]) = l.map fun a => (f a, g a) := by
  induction l with
  | nil => rfl
  | cons a l ih => simpa [pairsOf] using ih

/-- A row of two words for each item has twice as many words as there are items. -/
theorem length_pairs (f g : α → UInt32) (l : List α) :
    (l.flatMap fun a => [f a, g a]).length = l.length * 2 := by
  induction l with
  | nil => rfl
  | cons a l ih =>
    simp only [List.flatMap_cons, List.length_append, ih, List.length_cons, List.length_nil]
    omega

theorem splitRow?_append (ws rest : List UInt32) :
    splitRow? ws.length (ws ++ rest) = some (ws, rest) := by
  simp [splitRow?]

theorem map_eq_self {f : α → α} {l : List α} (h : ∀ a ∈ l, f a = a) : l.map f = l := by
  rw [List.map_congr_left h, List.map_id']

/-- A row of types that fit is read back. -/
theorem map_ofWord_word {ts : List TypeId} (h : ∀ t ∈ ts, t.index < UInt32.size) :
    (ts.map (·.word)).map TypeId.ofWord = ts := by
  rw [List.map_map]
  exact map_eq_self fun t ht => TypeId.ofWord_word (h t ht)

end Rows

/-! ## Readers -/

/-- A nominal type is read back from its row: the declaration, the parent, the arguments. -/
theorem nominalOf?_row {decl : DeclId} {parent : Option TypeId} {args : List TypeId}
    (hdecl : decl.index < UInt32.size) (hparent : ∀ t ∈ parent, t.index < TypeId.absent.index)
    (hargs : ∀ t ∈ args, t.index < UInt32.size) :
    nominalOf? (decl.word :: TypeId.optionWord parent :: args.map (·.word)) =
      some ⟨decl, parent, args⟩ := by
  simp only [nominalOf?, DeclId.ofWord_word hdecl, TypeId.ofOptionWord_optionWord hparent,
    map_ofWord_word hargs]

/-- The elements of a tuple are read back from their row, with the labels as they are stored. -/
theorem elementsOf_row {elements : List TupleElement}
    (hlabels : ∀ e ∈ elements, ∀ n ∈ e.label, n.slot < UInt32.size)
    (htypes : ∀ e ∈ elements, e.type.index < UInt32.size) :
    elementsOf (elements.flatMap fun e => [Name.labelWord e.label, e.type.word]) =
      elements.map fun e => { e with label := TypeNode.storedLabel e.label } := by
  rw [elementsOf, pairsOf_flatMap, List.map_map]
  refine List.map_congr_left fun e he => ?_
  simp only [Function.comp_apply, Name.ofLabelWord_labelWord (hlabels e he),
    TypeId.ofWord_word (htypes e he)]

/-- A function is read back from its row: the attributes, the parameters and the result at the
end. -/
theorem functionOf?_row {fn : FunctionType}
    (hparams : ∀ p ∈ fn.params, p.type.index < UInt32.size)
    (hresult : fn.result.index < UInt32.size) :
    functionOf? (fn.attributes.word ::
      (fn.params.flatMap fun p => [p.type.word, p.flags.word]) ++ [fn.result.word]) =
      some fn := by
  have hmap : fn.params.map (fun p => (⟨.ofWord p.type.word, .ofWord p.flags.word⟩ : Parameter)) =
      fn.params := by
    refine map_eq_self fun p hp => ?_
    rw [TypeId.ofWord_word (hparams p hp), ParamFlags.ofWord_word]
  simp only [List.cons_append, functionOf?, List.getLast?_concat, Option.map_some,
    List.dropLast_concat, pairsOf_flatMap, List.map_map, Function.comp_def, hmap,
    FunctionAttributes.ofWord_word, TypeId.ofWord_word hresult, FunctionType.attributes]

/-- A lowered function is read back from its row, whose two lengths tell the parts of it apart. -/
theorem loweredOf?_row {fn : LoweredFunction}
    (hparams : ∀ p ∈ fn.params, p.2.index < UInt32.size)
    (hresults : ∀ r ∈ fn.results, r.2.index < UInt32.size)
    (herror : ∀ t ∈ fn.error, t.index < TypeId.absent.index)
    (hlengths : fn.params.length < UInt32.size ∧ fn.results.length < UInt32.size) :
    loweredOf? ([ContextOwnership.all.word fn.callee, FunctionAttributes.word { repr := fn.repr },
        fn.isAsync.toUInt32, .ofNat fn.params.length]
      ++ (fn.params.flatMap fun p => [Passing.all.word p.1, p.2.word])
      ++ .ofNat fn.results.length
      :: (fn.results.flatMap fun r => [Returning.all.word r.1, r.2.word])
      ++ [TypeId.optionWord fn.error]) = some fn := by
  have hp : fn.params.map (fun p => (Passing.all.ofWord (Passing.all.word p.1),
      TypeId.ofWord p.2.word)) = fn.params := by
    refine map_eq_self fun p hp => ?_
    rw [TypeId.ofWord_word (hparams p hp), Passing.ofWord_word]
  have hr : fn.results.map (fun r => (Returning.all.ofWord (Returning.all.word r.1),
      TypeId.ofWord r.2.word)) = fn.results := by
    refine map_eq_self fun r hr => ?_
    rw [TypeId.ofWord_word (hresults r hr), Returning.ofWord_word]
  -- each row of pairs stands behind its length, so that it is split off where it ends
  have hpsplit := splitRow?_append (fn.params.flatMap fun p => [Passing.all.word p.1, p.2.word])
    (.ofNat fn.results.length
      :: (fn.results.flatMap fun r => [Returning.all.word r.1, r.2.word])
      ++ [TypeId.optionWord fn.error])
  have hrsplit := splitRow?_append (fn.results.flatMap fun r => [Returning.all.word r.1, r.2.word])
    [TypeId.optionWord fn.error]
  rw [length_pairs] at hpsplit hrsplit
  simp only [List.cons_append, List.nil_append, List.append_assoc] at hpsplit ⊢
  simp only [loweredOf?, UInt32.toNat_ofNat_of_lt' hlengths.1, hpsplit, Option.bind_eq_bind,
    Option.bind_some, List.head?_cons, List.tail_cons, UInt32.toNat_ofNat_of_lt' hlengths.2,
    hrsplit, pairsOf_flatMap, List.map_map, Function.comp_def, hp, hr,
    ContextOwnership.ofWord_word, FunctionAttributes.ofWord_word, toUInt32_ne_zero,
    TypeId.ofOptionWord_optionWord herror]
  rfl

/-- A composition is read back from its row: the superclass, the class bound, the protocols. -/
theorem compositionOf?_row {c : Composition} (hprotocols : ∀ d ∈ c.protocols, d.index < UInt32.size)
    (hsuperclass : ∀ t ∈ c.superclass, t.index < TypeId.absent.index) :
    compositionOf? (TypeId.optionWord c.superclass :: c.anyObject.toUInt32
      :: c.protocols.map (·.word)) = some c := by
  have hmap : (c.protocols.map (·.word)).map DeclId.ofWord = c.protocols := by
    rw [List.map_map]
    exact map_eq_self fun d hd => DeclId.ofWord_word (hprotocols d hd)
  simp only [compositionOf?, hmap, TypeId.ofOptionWord_optionWord hsuperclass, toUInt32_ne_zero]

/-- A member is read back from its two words. -/
theorem memberOf?_row {base : TypeId} {member : DeclId} (hbase : base.index < UInt32.size)
    (hmember : member.index < UInt32.size) :
    memberOf? [base.word, member.word] = some (base, member) := by
  rw [memberOf?, TypeId.ofWord_word hbase, DeclId.ofWord_word hmember]

/-- An opaque result is read back from its row: the declaration, the number, the arguments. -/
theorem opaqueResultOf?_row {decl : DeclId} {ordinal : Nat} {args : List TypeId}
    (hdecl : decl.index < UInt32.size) (hordinal : ordinal < UInt32.size)
    (hargs : ∀ t ∈ args, t.index < UInt32.size) :
    opaqueResultOf? (decl.word :: .ofNat ordinal :: args.map (·.word)) =
      some ⟨decl, ordinal, args⟩ := by
  simp only [opaqueResultOf?, DeclId.ofWord_word hdecl, UInt32.toNat_ofNat_of_lt' hordinal,
    map_ofWord_word hargs]

/-- An alias is read back from its two words, of which the first is the type it stands for. -/
theorem aliasOf?_row {decl : DeclId} {underlying : TypeId} (hdecl : decl.index < UInt32.size)
    (hunderlying : underlying.index < UInt32.size) :
    aliasOf? [underlying.word, decl.word] = some (decl, underlying) := by
  rw [aliasOf?, TypeId.ofWord_word hunderlying, DeclId.ofWord_word hdecl]

/-! ## Ordered lists -/

/-- The protocols of a composition in normal form are in order. -/
theorem pairwise_distinct (protocols : List DeclId) :
    (Ordered.distinct (·.index < ·.index) protocols).Pairwise fun d e => d.index < e.index := by
  suffices h : (Ordered.distinct (·.index < ·.index) protocols).Pairwise
      fun d e => decide (d.index < e.index) = true by simpa using h
  refine Ordered.pairwise_distinct (fun x y z hxy hyz => ?_) (fun x y hne hxy => ?_) protocols
  · simp only [decide_eq_true_eq] at hxy hyz ⊢
    omega
  · cases x
    cases y
    simp only [decide_eq_true_eq, decide_eq_false_iff_not, ne_eq, DeclId.mk.injEq] at *
    omega

/-- What is in order without repetition stays as it is. -/
theorem distinct_distinct (protocols : List DeclId) :
    Ordered.distinct (·.index < ·.index) (Ordered.distinct (·.index < ·.index) protocols) =
      Ordered.distinct (·.index < ·.index) protocols :=
  Ordered.distinct_eq_self (by simp) (by simpa using pairwise_distinct protocols)

/-! ## Nodes -/

namespace TypeNode

/-- The numbers in a node apart from its parts and those of generic parameters. -/
def numbers : TypeNode → List Nat
  | builtinInt width | builtinFloat width => [width]
  | nominal decl _ | boundGeneric decl _ _ | dependentMember _ decl | aliased decl _ =>
    [decl.index]
  | tuple elements => elements.flatMap fun e => e.label.toList.map (·.slot)
  | existential c => c.protocols.map (·.index)
  | opaqueResult decl ordinal _ => [decl.index, ordinal]
  | optionalSugar part _ | arraySugar part _ => [part.index]
  | dictionarySugar key value _ => [key.index, value.index]
  | _ => []

/-- Whether all numbers in a node fit: the two of a generic parameter half a word each, any
other a word. -/
def Fits (n : TypeNode) : Prop :=
  (∀ k ∈ n.numbers, k < UInt32.size) ∧
    ∀ key ∈ n.genericParam?, key.depth < UInt16.size ∧ key.index < UInt16.size

instance (n : TypeNode) : Decidable n.Fits := inferInstanceAs (Decidable (_ ∧ _))

/-- The nodes that their words say all about. -/
structure Packable (n : TypeNode) : Prop where
  fits : n.Fits
  parts : ∀ t ∈ n.children, t.index < TypeId.absent.index
  length : n.payload.words.length < UInt32.size

/-- A label that is stored is the one that was given. -/
theorem storedLabel_eq_some {label : Option Name} {n : Name} (h : storedLabel label = some n) :
    label = some n := by
  unfold storedLabel at h
  split at h
  · cases h
  · exact h

/-- A stored label is stored as it is. -/
theorem storedLabel_storedLabel (label : Option Name) :
    storedLabel (storedLabel label) = storedLabel label := by
  unfold storedLabel
  split <;> rfl

/-- A normal form is its own normal form. -/
theorem normalise_normalise (n : TypeNode) : n.normalise.normalise = n.normalise := by
  cases n with
  | tuple elements =>
    simp only [normalise, List.map_map, Function.comp_def, storedLabel_storedLabel]
  | existential c => simp only [normalise, distinct_distinct]
  | _ => rfl

/-- The normal form of a node has no other numbers than the node. -/
theorem numbers_normalise {n : TypeNode} {k : Nat} (hk : k ∈ n.normalise.numbers) :
    k ∈ n.numbers := by
  cases n with
  | tuple elements =>
    simp only [normalise, numbers, List.flatMap_map, List.mem_flatMap, List.mem_map,
      Option.mem_toList] at hk ⊢
    obtain ⟨e, he, name, hname, rfl⟩ := hk
    exact ⟨e, he, name, storedLabel_eq_some hname, rfl⟩
  | existential c =>
    obtain ⟨d, hd, rfl⟩ := List.mem_map.1 hk
    exact List.mem_map.2 ⟨d, Ordered.mem_distinct.1 hd, rfl⟩
  | _ => exact hk

/-- A node and its normal form have the same words. -/
theorem payload_normalise (n : TypeNode) : n.normalise.payload = n.payload := by
  cases n with
  | tuple elements =>
    have hlabel : ∀ label : Option Name, Name.labelWord (storedLabel label) =
        Name.labelWord label := by
      intro label
      unfold storedLabel
      split
      · rename_i h
        rw [h]
        rfl
      · rfl
    simp only [normalise, payload, List.flatMap_map, hlabel]
  | existential c => simp only [normalise, payload, distinct_distinct]
  | _ => rfl

theorem kind_normalise (n : TypeNode) : n.normalise.kind = n.kind := by
  cases n <;> rfl

theorem key_normalise (n : TypeNode) : n.normalise.key = n.key := by
  rw [key, key, payload_normalise, kind_normalise]

theorem desugared?_normalise (n : TypeNode) : n.normalise.desugared? = n.desugared? := by
  cases n <;> rfl

/-! ### Nodes over other parts -/

/-- Normal forms are taken part by part, so that the parts may be replaced before or after. -/
theorem normalise_mapChildren (f : TypeId → TypeId) (n : TypeNode) :
    (n.mapChildren f).normalise = n.normalise.mapChildren f := by
  cases n with
  | tuple elements =>
    simp only [mapChildren, normalise, List.map_map, Function.comp_def]
  | _ => rfl

/-- Replacing the parts of a node changes none of the numbers that have to fit. -/
theorem Fits.mapChildren {n : TypeNode} (h : n.Fits) (f : TypeId → TypeId) :
    (n.mapChildren f).Fits := by
  have hnumbers : (n.mapChildren f).numbers = n.numbers := by
    cases n with
    | tuple elements => simp only [TypeNode.mapChildren, numbers, List.flatMap_map]
    | _ => rfl
  have hkey : (n.mapChildren f).genericParam? = n.genericParam? := by
    cases n <;> rfl
  rw [Fits, hnumbers, hkey]
  exact h

end TypeNode

/-- The node of a key, in normal form. -/
def PoolKey.node? (k : PoolKey) : Option TypeNode :=
  match k.kind with
  | .emptyTuple => some .emptyTuple
  | .builtinInt => k.words.head?.map fun w => .builtinInt w.toNat
  | .builtinFloat => k.words.head?.map fun w => .builtinFloat w.toNat
  | .builtinWord => some .builtinWord
  | .rawPointer => some .rawPointer
  | .nativeObject => some .nativeObject
  | .unknownObject => some .unknownObject
  | .bridgeObject => some .bridgeObject
  | .metatype => k.words.head?.map fun w => .metatype (.ofWord w)
  | .existentialMetatype => k.words.head?.map fun w => .existentialMetatype (.ofWord w)
  | .genericParam => k.words.head?.map fun w => .genericParam (.ofWord w)
  | .nominal => (nominalOf? k.words).map fun n => .nominal n.decl n.parent
  | .boundGeneric => (nominalOf? k.words).map fun n => .boundGeneric n.decl n.parent n.args
  | .tuple => some (.tuple (elementsOf k.words))
  | .function => (functionOf? k.words).map .function
  | .lowered => (loweredOf? k.words).map .lowered
  | .existential => (compositionOf? k.words).map .existential
  | .dependentMember => (memberOf? k.words).map fun m => .dependentMember m.1 m.2
  | .opaqueResult =>
    (opaqueResultOf? k.words).map fun o => .opaqueResult o.decl o.ordinal o.args
  | .aliased => (aliasOf? k.words).map fun a => .aliased a.1 a.2
  | .paren => k.words.head?.map fun w => .paren (.ofWord w)
  | .optionalSugar =>
    match k.words.map TypeId.ofWord with
    | [desugared, part] => some (.optionalSugar part desugared)
    | _ => none
  | .arraySugar =>
    match k.words.map TypeId.ofWord with
    | [desugared, part] => some (.arraySugar part desugared)
    | _ => none
  | .dictionarySugar =>
    match k.words.map TypeId.ofWord with
    | [desugared, key, value] => some (.dictionarySugar key value desugared)
    | _ => none

namespace TypeNode

namespace Packable

variable {n : TypeNode}

theorem number_lt (h : n.Packable) {k : Nat} (hk : k ∈ n.numbers) : k < UInt32.size :=
  h.fits.1 k hk

/-- The normal form of a packable node is packable. -/
theorem normalised (h : n.Packable) : n.normalise.Packable where
  fits := by
    refine ⟨fun k hk => h.fits.1 k (numbers_normalise hk), ?_⟩
    have hkey : n.normalise.genericParam? = n.genericParam? := by
      cases n <;> rfl
    rw [hkey]
    exact h.fits.2
  parts := by
    rw [Arena.Shared.children_normalise]
    exact h.parts
  length := by
    rw [payload_normalise]
    exact h.length

theorem part_lt (h : n.Packable) {t : TypeId} (ht : t ∈ n.children) : t.index < UInt32.size :=
  Nat.lt_trans (h.parts t ht) (by decide)

/-! ### One reader for each layout -/

/-- A nominal type without arguments is read back from its words. -/
theorem nominalOf?_nominal {decl : DeclId} {parent : Option TypeId}
    (h : (nominal decl parent).Packable) :
    nominalOf? (nominal decl parent).payload.words = some ⟨decl, parent, []⟩ := by
  show nominalOf? (decl.word :: TypeId.optionWord parent :: ([] : List TypeId).map (·.word)) = _
  exact nominalOf?_row (h.number_lt (by simp [numbers]))
    (fun t ht => h.parts t (by simpa [children] using ht)) (by simp)

/-- A nominal type with arguments is read back from its words. -/
theorem nominalOf?_boundGeneric {decl : DeclId} {parent : Option TypeId} {args : List TypeId}
    (h : (boundGeneric decl parent args).Packable) :
    nominalOf? (boundGeneric decl parent args).payload.words = some ⟨decl, parent, args⟩ :=
  nominalOf?_row (h.number_lt (by simp [numbers]))
    (fun t ht => h.parts t (List.mem_append_left _ (by simpa using ht)))
    (fun _ ht => h.part_lt (List.mem_append_right _ ht))

/-- The elements of a tuple are read back from its words. -/
theorem elementsOf_tuple {elements : List TupleElement} (h : (tuple elements).Packable) :
    elementsOf (tuple elements).payload.words =
      elements.map fun e => { e with label := storedLabel e.label } := by
  refine elementsOf_row (fun e he n hn => h.number_lt ?_) (fun e he => h.part_lt ?_)
  · exact List.mem_flatMap.2 ⟨e, he, List.mem_map.2 ⟨n, by simpa using hn, rfl⟩⟩
  · exact List.mem_map.2 ⟨e, he, rfl⟩

/-- A function is read back from its words. -/
theorem functionOf?_function {fn : FunctionType} (h : (function fn).Packable) :
    functionOf? (function fn).payload.words = some fn :=
  functionOf?_row
    (fun p hp => h.part_lt (List.mem_append_left _ (List.mem_map.2 ⟨p, hp, rfl⟩)))
    (h.part_lt (List.mem_append_right _ (by simp)))

/-- A lowered function is read back from its words. -/
theorem loweredOf?_lowered {fn : LoweredFunction} (h : (lowered fn).Packable) :
    loweredOf? (lowered fn).payload.words = some fn := by
  have hparts : ∀ t, (∃ p ∈ fn.params, p.2 = t) ∨ (∃ r ∈ fn.results, r.2 = t) ∨ fn.error = some t →
      t ∈ (lowered fn).children := by
    simp [children]
  refine loweredOf?_row (fun p hp => h.part_lt (hparts _ (.inl ⟨p, hp, rfl⟩)))
    (fun r hr => h.part_lt (hparts _ (.inr (.inl ⟨r, hr, rfl⟩))))
    (fun t ht => h.parts t (hparts _ (.inr (.inr ht)))) ?_
  have hlength := h.length
  simp only [payload, Payload.words, List.length_append, List.length_cons, length_pairs] at hlength
  omega

/-- A composition is read back from its words, with its protocols in order and without
repetition. -/
theorem compositionOf?_existential {c : Composition} (h : (existential c).Packable) :
    compositionOf? (existential c).payload.words =
      some { c with protocols := Ordered.distinct (·.index < ·.index) c.protocols } :=
  compositionOf?_row (c := { c with protocols := _ })
    (fun d hd => h.number_lt (List.mem_map.2 ⟨d, Ordered.mem_distinct.1 hd, rfl⟩))
    (fun t ht => h.parts t (by simpa [children] using ht))

/-- A dependent member is read back from its words. -/
theorem memberOf?_dependentMember {base : TypeId} {member : DeclId}
    (h : (dependentMember base member).Packable) :
    memberOf? (dependentMember base member).payload.words = some (base, member) :=
  memberOf?_row (h.part_lt (by simp [children])) (h.number_lt (by simp [numbers]))

/-- An opaque result is read back from its words. -/
theorem opaqueResultOf?_opaqueResult {decl : DeclId} {ordinal : Nat} {args : List TypeId}
    (h : (opaqueResult decl ordinal args).Packable) :
    opaqueResultOf? (opaqueResult decl ordinal args).payload.words =
      some ⟨decl, ordinal, args⟩ :=
  opaqueResultOf?_row (h.number_lt (by simp [numbers])) (h.number_lt (by simp [numbers]))
    fun _ ht => h.part_lt ht

/-- An alias is read back from its words. -/
theorem aliasOf?_aliased {decl : DeclId} {underlying : TypeId}
    (h : (aliased decl underlying).Packable) :
    aliasOf? (aliased decl underlying).payload.words = some (decl, underlying) :=
  aliasOf?_row (h.number_lt (by simp [numbers])) (h.part_lt (by simp [children, desugared?]))

/-- The row of a sugar node begins with the type it stands for. -/
theorem head?_sugar (h : n.Packable) {t : TypeId} (ht : n.desugared? = some t) :
    n.payload.words.head?.map TypeId.ofWord = some t := by
  have hword : n.payload.words.head? = some t.word := by
    cases n <;> simp_all [desugared?, payload, Payload.words]
  have hpart : t ∈ n.children := Arena.Shared.mem_children_of_desugared? ht
  rw [hword, Option.map_some, TypeId.ofWord_word (h.part_lt hpart)]

/-- A packable node is read back from its key in normal form. -/
theorem node?_key (h : n.Packable) : n.key.node? = some n.normalise := by
  have hpart := @h.part_lt
  have hnumber := @h.number_lt
  cases n with
  | builtinInt width | builtinFloat width =>
    have hwidth := hnumber (k := width) (by simp [numbers])
    simp [PoolKey.node?, key, kind, payload, Payload.words, normalise,
      UInt32.toNat_ofNat_of_lt' hwidth]
  | metatype t | existentialMetatype t =>
    have ht := TypeId.ofWord_word (hpart (t := t) (by simp [children]))
    simp [PoolKey.node?, key, kind, payload, Payload.words, normalise, ht]
  | genericParam k =>
    have hk := h.fits.2 k rfl
    simp [PoolKey.node?, key, kind, payload, Payload.words, normalise,
      ParamKey.ofWord_word hk.1 hk.2]
  -- nodes with rows of parts are read by a reader for each kind
  | nominal => simp [PoolKey.node?, key, kind, h.nominalOf?_nominal, normalise]
  | boundGeneric => simp [PoolKey.node?, key, kind, h.nominalOf?_boundGeneric, normalise]
  | tuple => simp [PoolKey.node?, key, kind, h.elementsOf_tuple, normalise]
  | function => simp [PoolKey.node?, key, kind, h.functionOf?_function, normalise]
  | lowered => simp [PoolKey.node?, key, kind, h.loweredOf?_lowered, normalise]
  | existential => simp [PoolKey.node?, key, kind, h.compositionOf?_existential, normalise]
  | dependentMember =>
    simp [PoolKey.node?, key, kind, h.memberOf?_dependentMember, normalise]
  | opaqueResult =>
    simp [PoolKey.node?, key, kind, h.opaqueResultOf?_opaqueResult, normalise]
  | aliased => simp [PoolKey.node?, key, kind, h.aliasOf?_aliased, normalise]
  | paren t =>
    have ht := TypeId.ofWord_word (hpart (t := t) (by simp [children, desugared?]))
    simp [PoolKey.node?, key, kind, payload, Payload.words, normalise, ht]
  | optionalSugar part t | arraySugar part t =>
    have ht := TypeId.ofWord_word (hpart (t := t) (by simp [children, desugared?]))
    have hp := TypeId.ofWord_word (hnumber (k := part.index) (by simp [numbers]))
    simp [PoolKey.node?, key, kind, payload, Payload.words, normalise, ht, hp]
  | dictionarySugar k v t =>
    have ht := TypeId.ofWord_word (hpart (t := t) (by simp [children, desugared?]))
    have hk := TypeId.ofWord_word (hnumber (k := k.index) (by simp [numbers]))
    have hv := TypeId.ofWord_word (hnumber (k := v.index) (by simp [numbers]))
    simp [PoolKey.node?, key, kind, payload, Payload.words, normalise, ht, hk, hv]
  | _ => rfl

/-- Packable nodes of one key have one normal form. -/
theorem normalise_eq_of_key_eq {m : TypeNode} (hn : n.Packable) (hm : m.Packable)
    (h : n.key = m.key) : n.normalise = m.normalise := by
  have hnode := hn.node?_key
  rw [h, hm.node?_key] at hnode
  exact (Option.some.inj hnode).symm

end Packable

end TypeNode

end NameMangling
