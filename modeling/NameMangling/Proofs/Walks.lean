/-
# Walks through a program

A program follows parents up to a module, inherited conformances down to a declared one, and
types out to the types they are nested in.  All these walks are cut off after so many steps.
Where a chain of contexts ends at all, it meets no context twice, so it is no longer than
there are contexts to meet, and the walk along it is not cut off.

Main definitions:
* `Program.Ends`, the contexts from which a chain ends;
* `Program.Grounded`, the programs whose nominal types, protocols and conformances lie at the
  end of such chains, and `Program.NamesPlaced`, those whose types name only such declarations;
* `Program.WalksEnd`, no walk for a type is cut off.

Main facts: `ends_iff`, `Ends.walk_eq`, `Grounded.walksEnd`, and `WalksEnd.ends` in return.
-/
import Mathlib.Data.List.Perm.Subperm
import NameMangling.Proofs.BuiltPrograms

namespace NameMangling

/-- The kinds of declarations that a nominal type may lie in, and of nominal types themselves:
modules, nominal types and aliases. -/
def DeclKind.isPlaceOfTypes (k : DeclKind) : Bool :=
  k.isModule || k.isNominal || k == .typeAlias

namespace Program

/-! ## Chains of contexts -/

/-- What a context is has been added to the program. -/
def Has (p : Program) : Context → Prop
  | .decl d => d.index < p.decls.size
  | .closure c => c.index < p.closures.size
  | _ => True

instance (p : Program) : DecidablePred p.Has
  | .decl d => inferInstanceAs (Decidable (d.index < p.decls.size))
  | .closure c => inferInstanceAs (Decidable (c.index < p.closures.size))
  | .initializer _ | .defaultArgument .. | .accessor .. => inferInstanceAs (Decidable True)

/-- From a context `next` leads to an end, through contexts of the program. -/
inductive Ends (p : Program) (next : Context → Option Context) : Context → Prop
  | intro {c : Context} (there : p.Has c) (after : ∀ c', next c = some c' → Ends p next c') :
    Ends p next c

variable {p : Program} {next : Context → Option Context} {c c' x y : Context} {n k : Nat}

theorem walk_of_some (h : next c = some c') : walk next (n + 1) c = c :: walk next n c' := by
  rw [walk, h]
  rfl

theorem walk_of_none (h : next c = none) : walk next (n + 1) c = [c] := by
  rw [walk, h]
  rfl

/-- What comes after a context that is met is met one step later. -/
theorem mem_walk_succ (hx : x ∈ walk next n c) (hy : next x = some y) :
    y ∈ walk next (n + 1) c := by
  induction n generalizing c with
  | zero => cases hx
  | succ n ih =>
    cases hc : next c with
    | none =>
      rw [walk_of_none hc, List.mem_singleton] at hx
      rw [hx, hc] at hy
      cases hy
    | some c' =>
      rw [walk_of_some hc, List.mem_cons] at hx
      rw [walk_of_some hc]
      rcases hx with rfl | hx
      · rw [hc] at hy
        cases hy
        exact List.mem_cons_of_mem _ (by rw [walk]; exact List.mem_cons_self)
      · exact List.mem_cons_of_mem _ (ih hx)

/-- A walk that was not cut off is not changed by more steps. -/
theorem walk_eq_of_length_lt (h : (walk next n c).length < n) (hle : n ≤ k) :
    walk next k c = walk next n c := by
  induction n generalizing c k with
  | zero => cases h
  | succ n ih =>
    obtain ⟨k, rfl⟩ : ∃ k', k = k' + 1 := ⟨k - 1, by omega⟩
    cases hc : next c with
    | none => rw [walk_of_none hc, walk_of_none hc]
    | some c' =>
      rw [walk_of_some hc] at h ⊢
      rw [walk_of_some hc, ih (by simpa using h) (by omega)]

/-- Where a walk through the program is not cut off, the chain ends. -/
theorem ends_of_length_lt (h : (walk next n c).length < n)
    (hthere : ∀ x ∈ walk next n c, p.Has x) : p.Ends next c := by
  induction n generalizing c with
  | zero => cases h
  | succ n ih =>
    refine ⟨hthere c (by rw [walk]; exact List.mem_cons_self), fun c' hc => ?_⟩
    rw [walk_of_some hc] at h hthere
    exact ih (by simpa using h) fun x hx => hthere x (List.mem_cons_of_mem _ hx)

/-- A walk has no more steps than its bound allows. -/
theorem length_walk_le (next : Context → Option Context) (n : Nat) (c : Context) :
    (walk next n c).length ≤ n := by
  induction n generalizing c with
  | zero => exact Nat.le_refl 0
  | succ n ih =>
    cases hc : next c with
    | none => simp [walk_of_none hc]
    | some c' => simpa [walk_of_some hc] using ih c'

/-- Where one more step leads no further, the chain ends. -/
theorem ends_of_walk_succ_eq (h : walk next (n + 1) c = walk next n c)
    (hthere : ∀ x ∈ walk next n c, p.Has x) : p.Ends next c := by
  refine ends_of_length_lt (n := n + 1) ?_ (h ▸ hthere)
  rw [h]
  exact Nat.lt_succ_of_le (length_walk_le next n c)

namespace Ends

theorem there (h : p.Ends next c) : p.Has c := by
  cases h with
  | intro there => exact there

theorem after (h : p.Ends next c) (hc : next c = some c') : p.Ends next c' := by
  cases h with
  | intro _ after => exact after c' hc

/-- What is met on a chain that ends is of the program. -/
theorem has_of_mem (h : p.Ends next c) (hx : x ∈ walk next n c) : p.Has x := by
  induction n generalizing c with
  | zero => cases hx
  | succ n ih =>
    cases hc : next c with
    | none =>
      rw [walk_of_none hc, List.mem_singleton] at hx
      exact hx ▸ h.there
    | some c' =>
      rw [walk_of_some hc, List.mem_cons] at hx
      rcases hx with rfl | hx
      · exact h.there
      · exact ih (h.after hc) hx

/-- A chain that ends does not come back to where it starts. -/
theorem notMem_walk (h : p.Ends next c) (hc : next c = some c') : c ∉ walk next n c' := by
  induction h generalizing c' n with
  | @intro c _ _ ih =>
    intro hmem
    cases n with
    | zero => cases hmem
    | succ n =>
      cases hc' : next c' with
      | none =>
        rw [walk_of_none hc', List.mem_singleton] at hmem
        rw [hmem, hc'] at hc
        cases hc
      | some c'' =>
        rw [walk_of_some hc', List.mem_cons] at hmem
        rcases hmem with rfl | hmem
        · -- one step leads to itself
          exact ih c hc (n := 1) hc (by rw [walk]; exact List.mem_cons_self)
        · -- the rest comes back to `c`, and so to what is after it
          exact ih c' hc hc' (mem_walk_succ hmem hc)

/-- A chain that ends meets nothing twice. -/
theorem nodup_walk (h : p.Ends next c) (n : Nat) : (walk next n c).Nodup := by
  induction n generalizing c with
  | zero => exact List.nodup_nil
  | succ n ih =>
    cases hc : next c with
    | none =>
      rw [walk_of_none hc]
      simp
    | some c' =>
      rw [walk_of_some hc]
      exact List.nodup_cons.mpr ⟨h.notMem_walk hc, ih (h.after hc)⟩

end Ends

/-! ## The contexts to meet -/

/-- The closures of a program. -/
def closureIds (p : Program) : List ClosureId := (List.range p.closures.size).map ClosureId.mk

/-- The contexts that a walk from a declaration can meet: declarations and closures, and
where these are. -/
def contexts (p : Program) : List Context :=
  p.declIds.map .decl ++ p.closureIds.map .closure
    ++ (p.declIds.filterMap (fun d => (p.decl d).parent)
      ++ p.closureIds.map fun c => (p.closure c).parent)

/-- There are at most two contexts for each declaration and each closure. -/
theorem length_contexts_le (p : Program) :
    p.contexts.length ≤ 2 * (p.decls.size + p.closures.size) := by
  have hparents := List.length_filterMap_le (fun d => (p.decl d).parent) p.declIds
  simp only [contexts, List.length_append, List.length_map, closureIds, declIds,
    List.length_range] at hparents ⊢
  omega

theorem decl_mem_contexts {d : DeclId} (h : p.Has (.decl d)) : .decl d ∈ p.contexts := by
  simp [contexts, mem_declIds.mpr h]

/-- The context around a context is one to meet. -/
theorem parent_mem_contexts (hx : p.Has x) (hy : p.Has y) (h : p.parent? x = some y) :
    y ∈ p.contexts := by
  cases x with
  | decl d =>
    exact List.mem_append_right _ (List.mem_append_left _
      (List.mem_filterMap.mpr ⟨d, mem_declIds.mpr hx, h⟩))
  | closure c =>
    cases h
    have hc : c ∈ p.closureIds := List.mem_map.mpr ⟨c.index, List.mem_range.mpr hx, rfl⟩
    exact List.mem_append_right _ (List.mem_append_right _ (List.mem_map_of_mem hc))
  | initializer | defaultArgument | accessor =>
    cases h
    exact decl_mem_contexts hy

/-- Steps that go to the context around or to a declaration. -/
def StepsOut (p : Program) (next : Context → Option Context) : Prop :=
  ∀ x y, next x = some y → p.parent? x = some y ∨ ∃ d, y = .decl d

theorem stepsOut_parent? (p : Program) : p.StepsOut p.parent? := fun _ _ h => .inl h

/-- The way to the signature around a context is a way out of it. -/
theorem stepsOut_signatureParent? (p : Program) : p.StepsOut p.signatureParent? := by
  intro x y h
  unfold signatureParent? at h
  split at h
  · split at h
    · cases h
    · cases h
    · cases h
      exact .inr ⟨_, rfl⟩
    · exact .inl h
  · exact .inl h

namespace Ends

variable {d : DeclId}

/-- A way that ends stays among the contexts of the program. -/
theorem walk_subset (h : p.Ends next c) (hnext : p.StepsOut next) (hc : c ∈ p.contexts)
    (n : Nat) : walk next n c ⊆ p.contexts := by
  induction n generalizing c with
  | zero => simp [walk]
  | succ n ih =>
    cases hc' : next c with
    | none =>
      rw [walk_of_none hc']
      simpa using hc
    | some c' =>
      rw [walk_of_some hc']
      refine List.cons_subset.mpr ⟨hc, ih (h.after hc') ?_⟩
      rcases hnext c c' hc' with hparent | ⟨d, rfl⟩
      · exact parent_mem_contexts h.there (h.after hc').there hparent
      · exact decl_mem_contexts (h.after hc').there

/-- A chain that ends is no longer than there are contexts to meet. -/
theorem length_walk_le (h : p.Ends next (.decl d)) (hnext : p.StepsOut next) (n : Nat) :
    (walk next n (.decl d)).length + 2 ≤ p.walkBound := by
  have hsubset := h.walk_subset hnext (decl_mem_contexts h.there) n
  have hlength := (List.subperm_of_subset (h.nodup_walk n) hsubset).length_le
  have hcontexts := p.length_contexts_le
  unfold walkBound
  omega

/-- The walk along a chain that ends is not cut off. -/
theorem walk_eq (h : p.Ends next (.decl d)) (hnext : p.StepsOut next) (hle : p.walkBound ≤ n) :
    walk next n (.decl d) = walk next p.walkBound (.decl d) := by
  have hlength := h.length_walk_le hnext p.walkBound
  exact walk_eq_of_length_lt (by omega) hle

end Ends

/-- A chain from a declaration ends exactly if a walk along it is not cut off and meets
nothing that is not of the program. -/
theorem ends_iff (hnext : p.StepsOut next) {d : DeclId} : p.Ends next (.decl d) ↔
    (walk next p.walkBound (.decl d)).length < p.walkBound ∧
      ∀ x ∈ walk next p.walkBound (.decl d), p.Has x := by
  constructor
  · intro h
    have hlength := h.length_walk_le hnext p.walkBound
    exact ⟨by omega, fun x hx => h.has_of_mem hx⟩
  · rintro ⟨hlength, hthere⟩
    exact ends_of_length_lt hlength hthere

instance (d : DeclId) : Decidable (p.Ends p.parent? (.decl d)) :=
  decidable_of_iff _ (ends_iff p.stepsOut_parent?).symm

instance (d : DeclId) : Decidable (p.Ends p.signatureParent? (.decl d)) :=
  decidable_of_iff _ (ends_iff p.stepsOut_signatureParent?).symm

/-! ## Programs whose chains end -/

/-- A context that nominal types may lie in. -/
def isPlaceOfTypes (p : Program) : Context → Bool
  | .decl d => (p.kindOf d).isPlaceOfTypes
  | _ => false

/-- A declaration lies in modules, nominal types and aliases only, and there are finitely many
around it. -/
structure LiesInTypes (p : Program) (d : DeclId) : Prop where
  ends : p.Ends p.parent? (.decl d)
  places : ∀ c ∈ p.ancestors (.decl d), p.isPlaceOfTypes c = true

instance (d : DeclId) : Decidable (p.LiesInTypes d) :=
  decidable_of_iff (p.Ends p.parent? (.decl d) ∧
    ∀ c ∈ p.ancestors (.decl d), p.isPlaceOfTypes c = true)
    ⟨fun h => ⟨h.1, h.2⟩, fun h => ⟨h.1, h.2⟩⟩

/-- Some type names a declaration as the one of a nominal type. -/
def NamesNominal (p : Program) (d : DeclId) : Prop :=
  ∃ e ∈ p.types.entries, e.node.nominal?.map (·.decl) = some d

/-- Chains of contexts end: nominal types, protocols among them, lie in modules, nominal types
and aliases; the declaration a conformance is on and its protocol may lie anywhere. -/
structure Grounded (p : Program) : Prop where
  nominal : ∀ d, (p.kindOf d).isNominal = true → p.LiesInTypes d
  context : ∀ c : ConformanceId, c.index < p.conformances.size →
    p.Ends p.parent? (.decl (p.rootOf c).context)
  protocol : ∀ c : ConformanceId, c.index < p.conformances.size →
    p.Ends p.parent? (.decl (p.rootOf c).protocol)

/-- The declarations that types name have a place.  A type may name what is no nominal type, of
which `Grounded` says nothing: an alias lies in modules, nominal types and aliases, too, and the
chains from anything else end. -/
structure NamesPlaced (p : Program) : Prop where
  aliased : ∀ d, p.NamesNominal d → p.kindOf d = .typeAlias → p.LiesInTypes d
  other : ∀ d, p.NamesNominal d → (p.kindOf d).isNominal = false → p.kindOf d ≠ .typeAlias →
    p.Ends p.parent? (.decl d) ∧ p.Ends p.signatureParent? (.decl d)

/-- A declaration that was never added is no nominal type. -/
theorem lt_of_isNominal {d : DeclId} (h : (p.kindOf d).isNominal = true) :
    d.index < p.decls.size := by
  by_contra hd
  rw [kindOf, decl_of_size_le (Nat.le_of_not_lt hd)] at h
  cases h

instance : Decidable p.Grounded :=
  decidable_of_iff
    ((∀ d ∈ p.declIds, (p.kindOf d).isNominal = true → p.LiesInTypes d) ∧
      ∀ c ∈ p.conformanceIds, p.Ends p.parent? (.decl (p.rootOf c).context) ∧
        p.Ends p.parent? (.decl (p.rootOf c).protocol))
    ⟨fun ⟨hnominal, hconformances⟩ =>
      { nominal := fun d hd => hnominal d (mem_declIds.mpr (lt_of_isNominal hd)) hd
        context := fun c hc => (hconformances c (mem_conformanceIds.mpr hc)).1
        protocol := fun c hc => (hconformances c (mem_conformanceIds.mpr hc)).2 },
    fun h =>
      ⟨fun d _ => h.nominal d, fun c hc =>
        ⟨h.context c (mem_conformanceIds.mp hc), h.protocol c (mem_conformanceIds.mp hc)⟩⟩⟩

instance : Decidable p.NamesPlaced :=
  decidable_of_iff
    (∀ e ∈ p.types.entries, ∀ d ∈ e.node.nominal?.map NominalType.decl,
      (p.kindOf d = .typeAlias → p.LiesInTypes d) ∧
        ((p.kindOf d).isNominal = false → p.kindOf d ≠ .typeAlias →
          p.Ends p.parent? (.decl d) ∧ p.Ends p.signatureParent? (.decl d)))
    ⟨fun h =>
      { aliased := fun d ⟨e, he, hd⟩ => (h e he d hd).1
        other := fun d ⟨e, he, hd⟩ => (h e he d hd).2 },
    fun h e he d hd => ⟨h.aliased d ⟨e, he, hd⟩, h.other d ⟨e, he, hd⟩⟩⟩

/-- No walk for a type is cut off: those from the declarations that types name, those from
the protocols and declarations of conformances, those to the root of a conformance and those
through the types around a type all come to the same with more steps. -/
structure WalksEnd (p : Program) : Prop where
  parents : ∀ d, p.NamesNominal d → ∀ n ≥ p.walkBound,
    walk p.parent? n (.decl d) = p.ancestors (.decl d)
  signatures : ∀ d, p.NamesNominal d → ∀ n ≥ p.walkBound,
    walk p.signatureParent? n (.decl d) = walk p.signatureParent? p.walkBound (.decl d)
  contexts : ∀ c : ConformanceId, c.index < p.conformances.size → ∀ n ≥ p.walkBound,
    walk p.parent? n (.decl (p.rootOf c).context) = p.ancestors (.decl (p.rootOf c).context)
  protocols : ∀ c : ConformanceId, c.index < p.conformances.size → ∀ n ≥ p.walkBound,
    walk p.parent? n (.decl (p.rootOf c).protocol) = p.ancestors (.decl (p.rootOf c).protocol)
  roots : ∀ c : ConformanceId, c.index < p.conformances.size → ∀ n ≥ p.conformances.size + 1,
    p.rootWithin n c = p.rootOf c
  levels : ∀ t : TypeId, t.index < p.types.size → ∀ n ≥ p.types.size,
    p.argLevelsUp n t = p.argLevelsUp p.types.size t

theorem mem_ancestors (p : Program) (c : Context) : c ∈ p.ancestors c := by
  rw [ancestors, walkBound, walk]
  exact List.mem_cons_self

theorem LiesInTypes.place {d : DeclId} (h : p.LiesInTypes d) :
    (p.kindOf d).isPlaceOfTypes = true :=
  h.places (.decl d) (p.mem_ancestors _)

/-- The context around a declaration in types is a declaration in types. -/
theorem LiesInTypes.parent {d : DeclId} (h : p.LiesInTypes d)
    (hc : p.parent? (.decl d) = some c) : ∃ q, c = .decl q ∧
      p.ancestors (.decl d) = .decl d :: p.ancestors (.decl q) ∧ p.LiesInTypes q := by
  have hancestors : p.ancestors (.decl d) = .decl d :: walk p.parent? p.walkBound c := by
    rw [ancestors, ← h.ends.walk_eq p.stepsOut_parent? (Nat.le_succ _), walk_of_some hc]
  have hplaces := h.places
  rw [hancestors] at hplaces
  have hfirst := hplaces c (List.mem_cons_of_mem _ (p.mem_ancestors c))
  cases c with
  | decl q =>
    exact ⟨q, rfl, hancestors, h.ends.after hc, fun x hx => hplaces x (List.mem_cons_of_mem _ hx)⟩
  | closure | initializer | defaultArgument | accessor => cases hfirst

/-- From a declaration in types the search for a signature ends. -/
theorem LiesInTypes.endsSignature {d : DeclId} (h : p.LiesInTypes d) :
    p.Ends p.signatureParent? (.decl d) := by
  have hends := h.ends
  generalize hx : Context.decl d = x at hends
  induction hends generalizing d with
  | intro there _ ih =>
    subst hx
    refine ⟨there, fun c hc => ?_⟩
    have hplace := h.place
    have hparent : p.parent? (.decl d) = some c := by
      unfold signatureParent? at hc
      dsimp only at hc
      split at hc
      · cases hc
      · cases hc
      · rename_i hkind
        rw [hkind] at hplace
        cases hplace
      · exact hc
    obtain ⟨q, rfl, -, hq⟩ := h.parent hparent
    exact ih _ hparent hq rfl

/-- The parts of a type include what it is nested in and its arguments. -/
theorem nominal_children {n : TypeNode} {nominal : NominalType} (h : n.nominal? = some nominal) :
    n.children = nominal.parent.toList ++ nominal.args := by
  cases n <;> cases h <;> simp [TypeNode.children]

/-- A conformance that is inherited is one of the program. -/
theorem getElem?_of_inherited {c base : ConformanceId} {t : TypeId}
    (hc : p.conformance c = .inherited base t) :
    p.conformances[c.index]? = some (.inherited base t) := by
  unfold conformance at hc
  cases hget : p.conformances[c.index]? with
  | none => rw [hget] at hc; cases hc
  | some x => rw [hget] at hc; exact congrArg some hc

namespace Sound

variable {c base : ConformanceId} {t : TypeId}

/-- Any two bounds above the number of a conformance lead to the same root. -/
theorem rootWithin_eq (h : p.Sound) (hn : c.index < n) (hk : c.index < k) :
    p.rootWithin n c = p.rootWithin k c := by
  induction n generalizing c k with
  | zero => cases hn
  | succ n ih =>
    obtain ⟨k, rfl⟩ : ∃ k', k = k' + 1 := ⟨k - 1, by omega⟩
    rw [rootWithin, rootWithin]
    cases hc : p.conformance c with
    | declared root => rfl
    | inherited base type =>
      have hbase := h.base_lt _ _ _ (getElem?_of_inherited hc)
      exact ih (by omega) (by omega)

/-- Any two bounds above the place of a type give the same arguments. -/
theorem argLevelsUp_eq (h : p.Sound) (ht : t.index < p.types.size) (hn : t.index < n)
    (hk : t.index < k) : p.argLevelsUp n t = p.argLevelsUp k t := by
  induction n generalizing t k with
  | zero => cases hn
  | succ n ih =>
    obtain ⟨k, rfl⟩ : ∃ k', k = k' + 1 := ⟨k - 1, by omega⟩
    rw [argLevelsUp, argLevelsUp]
    cases hnominal : (p.types.node t).nominal? with
    | none => rfl
    | some nominal =>
      cases hparent : nominal.parent with
      | none => simp [hparent]
      | some u =>
        have hu : u ∈ (p.types.node t).children := by
          simp [nominal_children hnominal, hparent]
        have hlt := h.settled.parts_lt ht hu
        have hsame : p.argLevelsUp n u = p.argLevelsUp k u :=
          ih (Nat.lt_trans hlt ht) (by omega) (by omega)
        simp only [hparent, Option.map_some, hsame]

/-- An inherited conformance has the root of the one that it is inherited from. -/
theorem rootOf_inherited (h : p.Sound) (hc : p.conformance c = .inherited base t) :
    p.rootOf c = p.rootOf base := by
  have hget := getElem?_of_inherited hc
  have hbase := h.base_lt _ _ _ hget
  have hsize := (Array.getElem?_eq_some_iff.1 hget).1
  rw [rootOf, rootWithin, hc]
  exact h.rootWithin_eq (by omega) (by omega)

end Sound

/-- The chains from the declarations that types name end. -/
theorem NamesPlaced.ends (h : p.NamesPlaced) (hgrounded : p.Grounded) {d : DeclId}
    (hd : p.NamesNominal d) :
    p.Ends p.parent? (.decl d) ∧ p.Ends p.signatureParent? (.decl d) := by
  by_cases halias : p.kindOf d = .typeAlias
  · have hlies := h.aliased d hd halias
    exact ⟨hlies.ends, hlies.endsSignature⟩
  · cases hkind : (p.kindOf d).isNominal with
    | true =>
      have hlies := hgrounded.nominal d hkind
      exact ⟨hlies.ends, hlies.endsSignature⟩
    | false => exact h.other d hd hkind halias

/-- In a program that is sound and grounded, and whose types name declarations with a place, no
walk for a type is cut off. -/
theorem Grounded.walksEnd (h : p.Grounded) (hnames : p.NamesPlaced) (hsound : p.Sound) :
    p.WalksEnd where
  parents _ hd _ hn := (hnames.ends h hd).1.walk_eq p.stepsOut_parent? hn
  signatures _ hd _ hn := (hnames.ends h hd).2.walk_eq p.stepsOut_signatureParent? hn
  contexts c hc _ hn := (h.context c hc).walk_eq p.stepsOut_parent? hn
  protocols c hc _ hn := (h.protocol c hc).walk_eq p.stepsOut_parent? hn
  roots _ _ _ _ := hsound.rootWithin_eq (by omega) (by omega)
  levels _ ht _ _ := hsound.argLevelsUp_eq ht (by omega) ht

/-- That the chains from what types name end is needed as well: if no walk is cut off, they do. -/
theorem WalksEnd.ends (h : p.WalksEnd) {d : DeclId} (hd : p.NamesNominal d)
    (hparents : ∀ x ∈ p.ancestors (.decl d), p.Has x)
    (hsignatures : ∀ x ∈ walk p.signatureParent? p.walkBound (.decl d), p.Has x) :
    p.Ends p.parent? (.decl d) ∧ p.Ends p.signatureParent? (.decl d) :=
  ⟨ends_of_walk_succ_eq (h.parents d hd _ (Nat.le_succ _)) hparents,
    ends_of_walk_succ_eq (h.signatures d hd _ (Nat.le_succ _)) hsignatures⟩

end Program

end NameMangling
