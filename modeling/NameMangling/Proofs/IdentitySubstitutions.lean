/-
# Interface types as substitutions

The interface type of a declaration that lies in other nominal declarations is nested in theirs.
Each level is applied to the parameters that it adds to those in scope, so all arguments, the
outermost level first, are the parameters of the signature in scope: the type stands for the
substitution that replaces every parameter by itself.

Main definitions:
* `Program.Nested`, nominal declarations in nominal declarations up to a module;
* `Program.paramsInScope`, the parameters that a declaration sees;
* `Arena.Interface`, types that are declarations applied to parameters, level by level;
* `Program.IsIdentity`, substitutions that change nothing.

Main fact: `Program.interfaceType_identity`.
-/
import NameMangling.Proofs.InterfaceTypes
import NameMangling.Proofs.OrderedSearch
import NameMangling.Proofs.Walks

namespace NameMangling

/-- The parameters of a signature that starts with those of its context are these and the ones
that it adds. -/
theorem GenericSignature.append_filter_contains {s outer : GenericSignature}
    (hstart : outer.params <+: s.params) :
    outer.params ++ s.params.filter (fun key => !outer.contains key) = s.params := by
  obtain ⟨added, hadded⟩ := hstart
  have hnodup := s.nodup
  rw [← hadded] at hnodup ⊢
  have hknown : outer.params.filter (fun key => !outer.contains key) = [] := by
    rw [List.filter_eq_nil_iff]
    intro key hkey
    simpa using outer.contains_iff.2 hkey
  have hnew : added.filter (fun key => !outer.contains key) = added := by
    rw [List.filter_eq_self]
    intro key hkey
    rw [Bool.not_eq_true', Bool.eq_false_iff, ne_eq, contains_iff]
    exact fun hmem => (List.nodup_append.1 hnodup).2.2 key hmem key hkey rfl
  rw [List.filter_append, hknown, hnew, List.nil_append]

namespace TypeNode

variable {n : TypeNode} {nominal : NominalType}

theorem desugared?_of_nominal? (h : n.nominal? = some nominal) : n.desugared? = none := by
  cases n <;> cases h <;> rfl

theorem normalise_of_nominal? (h : n.nominal? = some nominal) : n.normalise = n := by
  cases n <;> cases h <;> rfl

end TypeNode

namespace Program

variable {p p' : Program} {d q : DeclId} {x : Context} {s : SignatureId} {t u : TypeId}
  {keys outer : List ParamKey} {args : List TypeId} {n : Nat}

/-! ## Declarations in declarations -/

/-- A signature of a declaration starts with the parameters in scope around it. -/
def InheritsParams (p : Program) (d : DeclId) : Prop :=
  ∀ s ∈ (p.decl d).signature, ∀ outer ∈ p.outerSignature d,
    (p.signature outer).params <+: (p.signature s).params

instance (p : Program) (d : DeclId) : Decidable (p.InheritsParams d) :=
  inferInstanceAs (Decidable (∀ s ∈ (p.decl d).signature, ∀ outer ∈ p.outerSignature d,
    (p.signature outer).params <+: (p.signature s).params))

/-- Nominal declarations in nominal declarations up to a module, all of which inherit the
parameters around them. -/
inductive Nested (p : Program) : DeclId → Prop
  | outermost {d q : DeclId} (nominal : (p.kindOf d).isNominal = true)
      (parent : (p.decl d).parent = some (.decl q)) (there : q.index < p.decls.size)
      (isModule : (p.kindOf q).isModule = true) : Nested p d
  | inner {d q : DeclId} (nominal : (p.kindOf d).isNominal = true)
      (parent : (p.decl d).parent = some (.decl q)) (inherits : p.InheritsParams d)
      (around : Nested p q) : Nested p d

/-- Above a module there is no signature to look for. -/
theorem signatureParent?_of_isModule (h : (p.kindOf q).isModule = true) :
    p.signatureParent? (.decl q) = none := by
  cases hkind : p.kindOf q with
  | nativeModule | foreignModule => simp [signatureParent?, hkind]
  | _ => rw [hkind] at h; cases h

/-- The signature around a nominal declaration is that of its parent. -/
theorem signatureParent?_of_isNominal (h : (p.kindOf d).isNominal = true) :
    p.signatureParent? (.decl d) = (p.decl d).parent := by
  cases hkind : p.kindOf d with
  | structType | enumType | classType | protocolType => simp [signatureParent?, hkind, parent?]
  | _ => rw [hkind] at h; cases h

/-- A nominal declaration is no module. -/
theorem isModule_eq_false (h : (p.kindOf d).isNominal = true) :
    (p.kindOf d).isModule = false := by
  cases hkind : p.kindOf d with
  | nativeModule | foreignModule => rw [hkind] at h; cases h
  | _ => rfl

/-- A module has no parameters in scope. -/
theorem signatureOf_of_isModule (h : (p.kindOf q).isModule = true) :
    p.signatureOf (.decl q) = none := by
  rw [signatureOf, walkBound, walk_of_none (signatureParent?_of_isModule h)]
  simp [ownSignature?, h]

/-- Without a signature of its own a nominal declaration sees that of its parent. -/
theorem signatureOf_eq_or (hends : p.Ends p.signatureParent? (.decl d))
    (hnominal : (p.kindOf d).isNominal = true) (hparent : (p.decl d).parent = some (.decl q)) :
    p.signatureOf (.decl d) = (p.decl d).signature.or (p.signatureOf (.decl q)) := by
  have hnext : p.signatureParent? (.decl d) = some (.decl q) := by
    rw [signatureParent?_of_isNominal hnominal, hparent]
  have hown : p.ownSignature? (.decl d) = (p.decl d).signature := by
    rw [ownSignature?, isModule_eq_false hnominal]
    rfl
  rw [signatureOf, ← hends.walk_eq p.stepsOut_signatureParent? (Nat.le_succ _),
    walk_of_some hnext, List.findSome?_cons, hown]
  cases (p.decl d).signature <;> rfl

namespace Nested

theorem isNominal (h : p.Nested d) : (p.kindOf d).isNominal = true := by
  cases h <;> assumption

/-- The way from nested declarations to a signature ends in a module. -/
theorem ends (h : p.Nested d) : p.Ends p.signatureParent? (.decl d) := by
  induction h with
  | outermost nominal parent there isModule =>
    refine ⟨lt_of_isNominal nominal, fun c hc => ?_⟩
    rw [signatureParent?_of_isNominal nominal, parent] at hc
    cases hc
    refine ⟨there, fun c hc => ?_⟩
    rw [signatureParent?_of_isModule isModule] at hc
    cases hc
  | inner nominal parent _ _ ih =>
    refine ⟨lt_of_isNominal nominal, fun c hc => ?_⟩
    rw [signatureParent?_of_isNominal nominal, parent] at hc
    cases hc
    exact ih

/-- Around a declaration there are declarations only. -/
theorem exists_decl (h : p.Nested d) (hx : x ∈ walk p.signatureParent? n (.decl d)) :
    ∃ e, x = .decl e := by
  induction h generalizing n with
  | @outermost d q nominal parent there isModule =>
    cases n with
    | zero => cases hx
    | succ n =>
      rw [walk_of_some ((signatureParent?_of_isNominal nominal).trans parent),
        List.mem_cons] at hx
      rcases hx with rfl | hx
      · exact ⟨d, rfl⟩
      · cases n with
        | zero => cases hx
        | succ n =>
          -- a module is the last one to be met, whatever lies around it
          rw [walk_of_none (signatureParent?_of_isModule isModule), List.mem_singleton] at hx
          exact ⟨q, hx⟩
  | @inner d q nominal parent _ _ ih =>
    cases n with
    | zero => cases hx
    | succ n =>
      rw [walk_of_some ((signatureParent?_of_isNominal nominal).trans parent),
        List.mem_cons] at hx
      rcases hx with rfl | hx
      · exact ⟨d, rfl⟩
      · exact ih hx

/-- There are no more of them than the program has. -/
theorem length_walk_le (h : p.Nested d) (n : Nat) :
    (walk p.signatureParent? n (.decl d)).length ≤ p.decls.size := by
  -- all are declarations of the program, and none is met twice
  have hsubset : walk p.signatureParent? n (.decl d) ⊆ p.declIds.map .decl := by
    intro x hx
    obtain ⟨e, rfl⟩ := h.exists_decl hx
    exact List.mem_map_of_mem (mem_declIds.2 (h.ends.has_of_mem hx))
  have hlength := (List.subperm_of_subset (h.ends.nodup_walk n) hsubset).length_le
  simpa [declIds] using hlength

end Nested

/-! ## Parameters in scope -/

/-- The parameters that are in scope in a declaration. -/
def paramsInScope (p : Program) (d : DeclId) : List ParamKey :=
  ((p.signatureOf (.decl d)).map fun s => (p.signature s).params).getD []

theorem paramsInScope_of_none (h : p.signatureOf (.decl d) = none) : p.paramsInScope d = [] := by
  rw [paramsInScope, h]
  rfl

/-- Where there is a signature its parameters are in scope. -/
theorem paramsInScope_of_some (h : p.signatureOf (.decl d) = some s) :
    p.paramsInScope d = (p.signature s).params := by
  rw [paramsInScope, h]
  rfl

/-- In a declaration those around it are in scope and, behind them, its own. -/
theorem paramsInScope_eq_append (hparent : (p.decl d).parent = some (.decl q))
    (hsignature : p.signatureOf (.decl d) = (p.decl d).signature.or (p.signatureOf (.decl q)))
    (hinherits : p.InheritsParams d) :
    p.paramsInScope d = p.paramsInScope q ++ p.ownParams d := by
  have houter : p.outerSignature d = p.signatureOf (.decl q) := by
    rw [outerSignature, hparent, Option.bind_some]
  rw [paramsInScope, paramsInScope, ownParams, hsignature, houter]
  cases hs : (p.decl d).signature with
  | none => simp
  | some s =>
    cases hq : p.signatureOf (.decl q) with
    | none => rfl
    | some outer =>
      exact (GenericSignature.append_filter_contains
        (hinherits s hs outer (houter.trans hq))).symm

end Program

/-! ## Types that are declarations applied to parameters -/

namespace Arena

variable {a b : Arena} {d : DeclId} {t u : TypeId} {ts us : List TypeId}
  {keys outer : List ParamKey}

theorem AreParams.append (h : a.AreParams ts outer) (h' : a.AreParams us keys) :
    a.AreParams (ts ++ us) (outer ++ keys) :=
  List.rel_append h h'

/-- A declaration applied to parameters, perhaps nested in another one.  All parameters, the
outermost level first, have the given keys. -/
inductive Interface (a : Arena) : TypeId → DeclId → List ParamKey → Prop
  | outermost {t : TypeId} {d : DeclId} {args : List TypeId} {keys : List ParamKey}
      (there : t.index < a.size) (node : (a.node t).nominal? = some ⟨d, none, args⟩)
      (params : a.AreParams args keys) : Interface a t d keys
  | nested {t u : TypeId} {d q : DeclId} {args : List TypeId} {keys outer : List ParamKey}
      (there : t.index < a.size) (node : (a.node t).nominal? = some ⟨d, some u, args⟩)
      (params : a.AreParams args keys) (around : Interface a u q outer) :
      Interface a t d (outer ++ keys)

namespace Interface

theorem there (h : a.Interface t d keys) : t.index < a.size := by
  cases h <;> assumption

/-- The node of such a type names the declaration. -/
theorem exists_nominal (h : a.Interface t d keys) :
    ∃ parent args, (a.node t).nominal? = some ⟨d, parent, args⟩ := by
  cases h with
  | outermost _ node => exact ⟨_, _, node⟩
  | nested _ node => exact ⟨_, _, node⟩

/-- Such a type stays one when more types are built. -/
theorem of_extends (h : a.Interface t d keys) (hextends : a.Extends b) :
    b.Interface t d keys := by
  induction h with
  | outermost there node params =>
    exact .outermost (Nat.lt_of_lt_of_le there hextends.size_le)
      (by rw [hextends.node_eq there, node]) (params.of_extends hextends)
  | nested there node params _ ih =>
    exact .nested (Nat.lt_of_lt_of_le there hextends.size_le)
      (by rw [hextends.node_eq there, node]) (params.of_extends hextends) ih

end Interface

namespace Settled

variable (ha : a.Settled)
include ha

/-- Parameters are not sugared. -/
theorem hasSugar_params (hts : a.AreParams ts keys) (hu : u ∈ ts) :
    (a.flags u).hasSugar = false := by
  obtain ⟨key, hlt, hnode⟩ := hts.exists_key hu
  exact ha.hasSugar_param hlt hnode

/-- A declaration applied to parameters is not sugared, and neither is the one around it. -/
theorem hasSugar_interface (h : a.Interface t d keys) : (a.flags t).hasSugar = false := by
  induction h with
  | outermost there node params =>
    rw [ha.hasSugar_eq_false there, Program.nominal_children node]
    exact ⟨TypeNode.desugared?_of_nominal? node, fun v hv => ha.hasSugar_params params hv⟩
  | nested there node params _ ih =>
    rw [ha.hasSugar_eq_false there, Program.nominal_children node]
    refine ⟨TypeNode.desugared?_of_nominal? node, fun v hv => ?_⟩
    rcases List.mem_cons.1 hv with rfl | hv
    · exact ih
    · exact ha.hasSugar_params params hv

theorem canonical_interface (h : a.Interface t d keys) : a.canonical t = t :=
  ha.canonical_eq_self h.there (ha.hasSugar_interface h)

end Settled

end Arena

namespace Program

variable {p p' : Program} {d q : DeclId} {s : SignatureId} {t u : TypeId}
  {keys outer : List ParamKey} {args : List TypeId} {n : Nat}

/-- The nominal declaration of such a type is the one that is applied. -/
theorem nominalOf_interface (hp : p.types.Settled) (h : p.types.Interface t d keys) :
    p.nominalOf t = some d := by
  obtain ⟨parent, args, hnode⟩ := h.exists_nominal
  rw [nominalOf, hp.canonical_interface h, hnode]
  rfl

/-- The arguments on all levels are the parameters. -/
theorem areParams_argLevelsUp (hp : p.types.Settled) (h : p.types.Interface t d keys)
    (hn : t.index < n) : p.types.AreParams (p.argLevelsUp n t).reverse.flatten keys := by
  induction h generalizing n with
  | outermost _ node params =>
    obtain ⟨n, rfl⟩ : ∃ k, n = k + 1 := ⟨n - 1, by omega⟩
    simpa [argLevelsUp, node] using params
  | @nested t u d q args keys outer there node params _ ih =>
    obtain ⟨n, rfl⟩ : ∃ k, n = k + 1 := ⟨n - 1, by omega⟩
    have hu : u ∈ (p.types.node t).children := by simp [nominal_children node]
    have hlt := hp.parts_lt there hu
    -- levels are listed from the innermost one on, so its arguments come last
    have hlevels : (p.argLevelsUp (n + 1) t).reverse.flatten =
        (p.argLevelsUp n u).reverse.flatten ++ args := by
      simp [argLevelsUp, node]
    rw [hlevels]
    exact (ih (by omega)).append params

/-- The arguments of such a type, on all levels, are parameters with the keys. -/
theorem areParams_flattenedArgs (hp : p.types.Settled) (h : p.types.Interface t d keys) :
    p.types.AreParams (p.flattenedArgs t) keys := by
  rw [flattenedArgs, hp.canonical_interface h]
  exact areParams_argLevelsUp hp h h.there

/-! ## Building interface types -/

/-- A program that differs from another one in its types only, and has kept those. -/
structure MoreTypes (p p' : Program) : Prop where
  eq : p' = { p with types := p'.types, pool := p'.pool }
  types : p.types.Extends p'.types

namespace MoreTypes

variable {p'' : Program}

theorem refl (p : Program) : p.MoreTypes p := ⟨rfl, .refl _⟩

theorem trans (h : p.MoreTypes p') (h' : p'.MoreTypes p'') : p.MoreTypes p'' :=
  ⟨h'.eq.trans (by rw [h.eq]), h.types.trans h'.types⟩

theorem addType (p : Program) (n : TypeNode) : p.MoreTypes (p.addType n).2 :=
  ⟨rfl, .construct _ n⟩

/-- A row of types that are built leaves a program with more types only. -/
theorem addTypes (p : Program) (ns : List TypeNode) : p.MoreTypes (p.addTypes ns).2 := by
  induction ns generalizing p with
  | nil => exact .refl p
  | cons n ns ih => exact (addType p n).trans (ih _)

theorem signature_eq (h : p.MoreTypes p') (s : SignatureId) : p'.signature s = p.signature s := by
  rw [h.eq]
  rfl

/-- With more types every context has the signature it had. -/
theorem signatureOf_eq (h : p.MoreTypes p') (c : Context) :
    p'.signatureOf c = p.signatureOf c := by
  rw [h.eq]
  rfl

end MoreTypes

/-- A declaration, in a type or on its own, applied to parameters that are built first. -/
def addLevel (p : Program) (d : DeclId) (parent : Option TypeId) :
    List ParamKey → TypeId × Program
  | [] => p.addType (.nominal d parent)
  | keys =>
    let (args, p') := p.addTypes (keys.map .genericParam)
    p'.addType (.boundGeneric d parent args)

/-- An outermost declaration has one level, of its own parameters. -/
theorem interfaceTypeWithin_of_none (h : p.genericParent? d = none) :
    p.interfaceTypeWithin (n + 1) d = p.addLevel d none (p.ownParams d) := by
  rw [interfaceTypeWithin, h]
  cases p.ownParams d <;> rfl

/-- A declaration in another one adds a level to the type of that. -/
theorem interfaceTypeWithin_of_some (h : p.genericParent? d = some q) :
    p.interfaceTypeWithin (n + 1) d =
      (p.interfaceTypeWithin n q).2.addLevel d (p.interfaceTypeWithin n q).1 (p.ownParams d) := by
  rw [interfaceTypeWithin, h]
  cases p.ownParams d <;> rfl

/-- A nominal type and a program that has got it and otherwise more types at most. -/
structure AddsNominal (p : Program) (nominal : NominalType) (built : TypeId × Program) :
    Prop where
  settled : built.2.types.Settled
  moreTypes : p.MoreTypes built.2
  there : built.1.index < built.2.types.size
  node : (built.2.types.node built.1).nominal? = some nominal

/-- Building the node of a nominal type over types that are there adds that nominal type. -/
theorem addsNominal_addType {m : TypeNode} {nominal : NominalType} (hp : p.types.Settled)
    (hm : m.nominal? = some nominal) (hparts : ∀ v ∈ m.children, v.index < p.types.size) :
    p.AddsNominal nominal (p.addType m) := by
  have htuple : m ≠ .tuple [] := by rintro rfl; cases hm
  have hsingle : ∀ v, m ≠ .tuple [⟨none, v⟩] := by rintro v rfl; cases hm
  obtain ⟨hlt, hnode, -⟩ := eq_of_addType (t := (p.addType m).1) (p := (p.addType m).2) rfl hp
    hparts htuple hsingle
  exact
    { settled := hp.construct hparts
      moreTypes := .addType p m
      there := hlt
      node := by rw [hnode, TypeNode.normalise_of_nominal? hm, hm] }

/-- A level is the declaration applied to the parameters. -/
theorem addsNominal_addLevel (hp : p.types.Settled) (d : DeclId) (parent : Option TypeId)
    (keys : List ParamKey) (hparent : ∀ v ∈ parent, v.index < p.types.size) :
    ∃ args, (p.addLevel d parent keys).2.types.AreParams args keys ∧
      p.AddsNominal ⟨d, parent, args⟩ (p.addLevel d parent keys) := by
  cases keys with
  | nil =>
    refine ⟨[], .nil, addsNominal_addType (m := .nominal d parent) hp rfl ?_⟩
    simpa [TypeNode.children] using hparent
  | cons key keys =>
    have hlevel : p.addLevel d parent (key :: keys) =
        (p.addTypes ((key :: keys).map .genericParam)).2.addType
          (.boundGeneric d parent (p.addTypes ((key :: keys).map .genericParam)).1) := rfl
    obtain ⟨hsettled, hparams⟩ := addTypes_params hp (key :: keys)
    have hmore := MoreTypes.addTypes p ((key :: keys).map .genericParam)
    rw [hlevel]
    generalize p.addTypes ((key :: keys).map .genericParam) = added at hsettled hparams hmore
    -- the parent was there before the parameters were added, and these are there now
    have hparts : ∀ v ∈ (TypeNode.boundGeneric d parent added.1).children,
        v.index < added.2.types.size := by
      intro v hv
      simp only [TypeNode.children, List.mem_append, Option.mem_toList] at hv
      rcases hv with hv | hv
      · exact Nat.lt_of_lt_of_le (hparent v hv) hmore.types.size_le
      · obtain ⟨_, hlt, -⟩ := hparams.exists_key hv
        exact hlt
    have hadds := addsNominal_addType hsettled rfl hparts
    exact ⟨added.1, hparams.of_extends hadds.moreTypes.types,
      { hadds with moreTypes := hmore.trans hadds.moreTypes }⟩

/-- What is built for a declaration is the declaration applied to the parameters in scope. -/
structure BuildsInterface (p : Program) (d : DeclId) (built : TypeId × Program) : Prop where
  settled : built.2.types.Settled
  moreTypes : p.MoreTypes built.2
  interface : built.2.types.Interface built.1 d (p.paramsInScope d)

/-- A declaration around which no parameters are in scope is applied to its own. -/
theorem buildsInterface_outermost (hp : p.types.Settled) (hparent : p.genericParent? d = none)
    (hparams : p.paramsInScope d = p.ownParams d) :
    p.BuildsInterface d (p.interfaceTypeWithin (n + 1) d) := by
  rw [interfaceTypeWithin_of_none hparent]
  obtain ⟨args, hargs, hadds⟩ := addsNominal_addLevel hp d none (p.ownParams d) (by simp)
  refine ⟨hadds.settled, hadds.moreTypes, ?_⟩
  rw [hparams]
  exact .outermost hadds.there hadds.node hargs

/-- A declaration in a generic one is applied to its own, inside the type of this one. -/
theorem BuildsInterface.inner
    (h : p.BuildsInterface q (p.interfaceTypeWithin n q)) (hparent : p.genericParent? d = some q)
    (hparams : p.paramsInScope d = p.paramsInScope q ++ p.ownParams d) :
    p.BuildsInterface d (p.interfaceTypeWithin (n + 1) d) := by
  rw [interfaceTypeWithin_of_some hparent]
  generalize p.interfaceTypeWithin n q = around at h
  obtain ⟨args, hargs, hadds⟩ := addsNominal_addLevel h.settled d (some around.1) (p.ownParams d)
    (by simpa using h.interface.there)
  refine ⟨hadds.settled, h.moreTypes.trans hadds.moreTypes, ?_⟩
  rw [hparams]
  exact .nested hadds.there hadds.node hargs (h.interface.of_extends hadds.moreTypes.types)

/-- With at least as many steps as there are declarations to visit, a declaration is applied level
by level to all parameters in scope, by induction on the declarations around it. -/
theorem Nested.buildsInterface (h : p.Nested d) (hp : p.types.Settled)
    (hn : (walk p.signatureParent? (n + 1) (.decl d)).length ≤ n) :
    p.BuildsInterface d (p.interfaceTypeWithin n d) := by
  have hends := h.ends
  induction h generalizing n with
  | @outermost d q nominal parent there isModule =>
    have hmodule := signatureOf_of_isModule isModule
    have hinherits : p.InheritsParams d := by
      intro s _ outer houter
      rw [outerSignature, parent, Option.bind_some, hmodule] at houter
      cases houter
    have hparams := paramsInScope_eq_append parent
      (signatureOf_eq_or hends nominal parent) hinherits
    rw [paramsInScope_of_none hmodule, List.nil_append] at hparams
    obtain ⟨n, rfl⟩ : ∃ k, n = k + 1 := ⟨n - 1, by rw [walk] at hn; simp at hn; omega⟩
    exact buildsInterface_outermost hp (genericParent?_eq_none parent isModule) hparams
  | @inner d q nominal parent inherits around ih =>
    have hparams := paramsInScope_eq_append parent
      (signatureOf_eq_or hends nominal parent) inherits
    rw [walk_of_some ((signatureParent?_of_isNominal nominal).trans parent),
      List.length_cons] at hn
    obtain ⟨n, rfl⟩ : ∃ k, n = k + 1 := ⟨n - 1, by omega⟩
    cases hq : p.signatureOf (.decl q) with
    | none =>
      -- the declaration around it sees no parameters, so its type is left out
      rw [paramsInScope_of_none hq, List.nil_append] at hparams
      exact buildsInterface_outermost hp (by simp [genericParent?, parent, hq]) hparams
    | some outer =>
      refine (ih (by omega) around.ends).inner ?_ hparams
      simp [genericParent?, parent, hq, around.isNominal]

/-! ## Identity substitutions -/

/-- Substitutions for a signature that replace every parameter by itself and find all
conformances in the signature. -/
structure IsIdentity (p : Program) (s : SignatureId) (m : Substitutions) : Prop where
  signature : m.signature = s
  replacements : p.types.AreParams m.replacements (p.signature s).params
  replacement? : ∀ key ∈ (p.signature s).params, ∃ t : TypeId, t.index < p.types.size ∧
    p.types.node t = .genericParam key ∧ p.replacement? m key = some t
  conformances : m.conformances =
    (p.signature s).conformances.map fun c => .fromSignature c.2

/-- What stands in the place of a parameter is one of the replacements. -/
theorem mem_of_replacementOf? {g : GenericSignature} (h : p.replacementOf? g args u = some t) :
    t ∈ args := by
  obtain ⟨key, -, h⟩ := Option.bind_eq_some_iff.1 h
  obtain ⟨i, -, h⟩ := Option.bind_eq_some_iff.1 h
  exact List.mem_of_getElem? h

/-- The parameters of a signature in order make the identity. -/
theorem isIdentity_substitutions (hp : p.types.Settled)
    (hargs : p.types.AreParams args (p.signature s).params) :
    p.IsIdentity s (p.substitutions s args) where
  signature := rfl
  replacements := hargs
  replacement? key hkey := by
    obtain ⟨i, hi⟩ := List.mem_iff_getElem?.1 hkey
    obtain ⟨t, ht, hlt, hnode⟩ := hargs.getElem? hi
    -- the signature is in order, so the search ends where the parameter stands
    have hposition : (p.signature s).position? key = some i :=
      (Ordered.search?_eq_some_iff ParamKey.before_asymm (p.signature s).ordered).2 hi
    refine ⟨t, hlt, hnode, ?_⟩
    show ((p.signature s).position? key).bind _ = some t
    rw [hposition]
    exact ht
  conformances := by
    refine List.map_congr_left fun c _ => ?_
    dsimp only
    split
    · rename_i t ht
      obtain ⟨key, hlt, hnode⟩ := hargs.exists_key (mem_of_replacementOf? ht)
      exact conformanceOf_param hp hlt hnode c.2
    · rfl

/-- The interface type of a declaration that is nested in nominal declarations stands for the
identity substitution of the signature in scope.  To build it adds types and changes nothing. -/
theorem interfaceType_identity (hp : p.Built) (hd : p.Nested d)
    (hs : p.signatureOf (.decl d) = some s) :
    p.MoreTypes (p.interfaceType d).2 ∧
      ∃ m, (p.interfaceType d).2.substitutionsOf? (p.interfaceType d).1 = some m ∧
        (p.interfaceType d).2.IsIdentity s m := by
  have hbuilds : p.BuildsInterface d (p.interfaceType d) :=
    hd.buildsInterface hp.sound.settled (hd.length_walk_le _)
  generalize p.interfaceType d = built at hbuilds
  obtain ⟨t, p'⟩ := built
  obtain ⟨hsettled, hmore, hinterface⟩ := hbuilds
  -- types aside nothing has changed, so the same signature is in scope
  rw [paramsInScope_of_some hs] at hinterface
  rw [← hmore.signature_eq] at hinterface
  have hargs := areParams_flattenedArgs hsettled hinterface
  refine ⟨hmore, p'.substitutions s (p'.flattenedArgs t), ?_,
    isIdentity_substitutions hsettled hargs⟩
  rw [substitutionsOf?, nominalOf_interface hsettled hinterface, Option.bind_some,
    hmore.signatureOf_eq, hs, Option.bind_some]
  exact if_pos hargs.length_eq

/-- In a module a protocol `P` and a struct `A<T> where T: P`, in this a struct `B`, and in this a
struct `C<U> where U: P`, whose signature repeats that of `A`. -/
def nestedSteps : List BuildStep :=
  [.intern "M", .decl { kind := .nativeModule, name := some ⟨1⟩ },
    .intern "P",
    .decl { kind := .protocolType [], name := some ⟨2⟩, parent := some (.decl ⟨0⟩) },
    .type (.genericParam ⟨0, 0⟩), .type (.genericParam ⟨1, 0⟩),
    .signature (.ofParams [⟨0, 0⟩] [⟨⟨12⟩, .conformance ⟨1⟩⟩]),
    .signature
      (.ofParams [⟨0, 0⟩, ⟨1, 0⟩] [⟨⟨12⟩, .conformance ⟨1⟩⟩, ⟨⟨13⟩, .conformance ⟨1⟩⟩]),
    .intern "A",
    .decl { kind := .structType, name := some ⟨3⟩, parent := some (.decl ⟨0⟩),
            signature := some ⟨0⟩ },
    .intern "B",
    .decl { kind := .structType, name := some ⟨4⟩, parent := some (.decl ⟨2⟩) },
    .intern "C",
    .decl { kind := .structType, name := some ⟨5⟩, parent := some (.decl ⟨3⟩),
            signature := some ⟨1⟩ }]

/-- The parameters of `C` are on two levels, with one without parameters between them. -/
theorem interfaceType_identity_two_levels :
    let p := empty.build nestedSteps
    let built := p.interfaceType ⟨4⟩
    p.Built ∧ p.Nested ⟨4⟩ ∧
      p.signatureOf (.decl ⟨4⟩) = some ⟨1⟩ ∧
      built.2.argLevels built.1 = [[⟨12⟩], [], [⟨13⟩]] ∧
      ∃ m, built.2.substitutionsOf? built.1 = some m ∧ built.2.IsIdentity ⟨1⟩ m ∧
        m.conformances = [.fromSignature ⟨1⟩, .fromSignature ⟨1⟩] := by
  intro p built
  have hbuilt : p.Built := ⟨⟨nestedSteps, by decide +kernel, rfl⟩, by decide +kernel⟩
  have hA : p.Nested ⟨2⟩ :=
    .outermost (q := ⟨0⟩) (by decide +kernel) (by decide +kernel) (by decide +kernel)
      (by decide +kernel)
  have hB : p.Nested ⟨3⟩ := .inner (by decide +kernel) (by decide +kernel) (by decide +kernel) hA
  have hC : p.Nested ⟨4⟩ := .inner (by decide +kernel) (by decide +kernel) (by decide +kernel) hB
  have hscope : p.signatureOf (.decl ⟨4⟩) = some ⟨1⟩ := by decide +kernel
  obtain ⟨-, m, hm, hidentity⟩ := interfaceType_identity hbuilt hC hscope
  refine ⟨hbuilt, hC, hscope, by decide +kernel, m, hm, hidentity, ?_⟩
  rw [hidentity.conformances]
  decide +kernel

end Program

end NameMangling
