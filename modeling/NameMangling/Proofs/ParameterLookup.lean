/-
# Looking up parameters

A signature lists its parameters in order, whatever the order and the repetitions in which they
are given, so a parameter is found at its place and nothing else is found.  Whatever goes by the
place of a parameter is then right, as the replacements of substitutions are.

Main facts:
* `GenericSignature.position?_eq_some_iff`: parameters are found where they stand;
* `GenericSignature.maxDepth?_ofParams`: the last parameter is one of the deepest;
* `GenericSignature.lookup_exact`: these, and what substitutions put in the place of parameters.
-/
import NameMangling.Program
import NameMangling.Proofs.OrderedSearch

namespace NameMangling.GenericSignature

variable {s : GenericSignature} {key : ParamKey} {i : Nat}

/-! ## Places -/

/-- A parameter is found where it stands, and nothing else is found. -/
theorem position?_eq_some_iff : s.position? key = some i ↔ s.params[i]? = some key :=
  Ordered.search?_eq_some_iff ParamKey.before_asymm s.ordered

theorem position?_eq_none_iff : s.position? key = none ↔ key ∉ s.params := by
  rw [← s.contains_iff, contains, Option.isSome_iff_ne_none, not_not]

theorem mem_ofParams (params : List ParamKey) (requirements : List Requirement) :
    key ∈ (ofParams params requirements).params ↔ key ∈ params := Ordered.mem_distinct

/-! ## Depths -/

/-- The last of the parameters in order has the greatest depth of those that were given. -/
theorem maxDepth?_ofParams (params : List ParamKey) (requirements : List Requirement) :
    (ofParams params requirements).maxDepth? = (params.map (·.depth)).max? := by
  rw [maxDepth?]
  cases hlast : (ofParams params requirements).params.getLast? with
  | none =>
    have hnone : ∀ key, key ∉ params := by
      intro key hkey
      rw [← mem_ofParams params requirements, List.getLast?_eq_none_iff.1 hlast] at hkey
      cases hkey
    rw [List.eq_nil_iff_forall_not_mem.2 hnone]
    rfl
  | some last =>
    rw [Option.map_some, eq_comm, List.max?_eq_some_iff]
    constructor
    · have hmem := List.mem_of_getLast? hlast
      exact List.mem_map_of_mem ((mem_ofParams params requirements).1 hmem)
    · -- deeper parameters come later, so none is deeper than the last
      intro depth hdepth
      obtain ⟨key, hkey, rfl⟩ := List.mem_map.1 hdepth
      exact ParamKey.depth_le_getLast (ofParams params requirements).ordered hlast
        ((mem_ofParams params requirements).2 hkey)

/-! ## Replacements -/

/-- The replacement of a parameter stands at the place of the parameter. -/
theorem replacement?_of_getElem? {p : Program} {m : Substitutions}
    (hlength : m.replacements.length = (p.signature m.signature).params.length)
    (hkey : (p.signature m.signature).params[i]? = some key) :
    ∃ t, m.replacements[i]? = some t ∧ p.replacement? m key = some t := by
  have hlt : i < m.replacements.length := hlength ▸ (List.getElem?_eq_some_iff.1 hkey).1
  have hplace := List.getElem?_eq_getElem hlt
  refine ⟨_, hplace, ?_⟩
  rw [Program.replacement?, position?_eq_some_iff.2 hkey, Option.bind_some, hplace]

/-- What is no parameter has no replacement. -/
theorem replacement?_of_notMem {p : Program} {m : Substitutions}
    (hkey : key ∉ (p.signature m.signature).params) : p.replacement? m key = none := by
  rw [Program.replacement?, position?_eq_none_iff.2 hkey, Option.bind_none]

/-! ## Exactness -/

/-- The lookup of parameters is exact.  A signature has the parameters that were given for it,
each of them once, outer ones first and by their indices within a depth.  The search answers with
the place of a parameter and finds nothing else, and the greatest depth is that of all parameters
given.  So substitutions with one replacement for each parameter put the replacement at its place
for a parameter, and nothing for anything else. -/
theorem lookup_exact (params : List ParamKey) (requirements : List Requirement) :
    let s := ofParams params requirements
    (s.params.Pairwise fun a b => a.depth < b.depth ∨ a.depth = b.depth ∧ a.index < b.index) ∧
      (∀ key, key ∈ s.params ↔ key ∈ params) ∧
      (∀ (key : ParamKey) (i : Nat), s.position? key = some i ↔ s.params[i]? = some key) ∧
      (∀ key, s.contains key = true ↔ key ∈ params) ∧
      s.maxDepth? = (params.map (·.depth)).max? ∧
      ∀ (p : Program) (m : Substitutions), p.signature m.signature = s →
        m.replacements.length = s.params.length →
          (∀ (i : Nat) (key : ParamKey), s.params[i]? = some key →
            ∃ t, m.replacements[i]? = some t ∧ p.replacement? m key = some t) ∧
          ∀ key, key ∉ params → p.replacement? m key = none := by
  intro s
  have hmem (key : ParamKey) : key ∈ s.params ↔ key ∈ params := mem_ofParams params requirements
  refine ⟨?_, hmem, fun key i => position?_eq_some_iff, fun key => ?_,
    maxDepth?_ofParams params requirements, fun p m hsignature hlength => ?_⟩
  · exact List.Pairwise.imp (fun {a b} => ParamKey.before_iff.1) s.ordered
  · rw [contains_iff, hmem]
  · rw [← hsignature] at hlength hmem ⊢
    refine ⟨fun i key => replacement?_of_getElem? hlength, fun key hkey => ?_⟩
    exact replacement?_of_notMem (hkey ∘ (hmem key).1)

/-- Four parameters, the deepest given first and another one twice, with the substitutions of
four types for them. -/
theorem lookup_exact_repetition :
    let params : List ParamKey := [⟨1, 0⟩, ⟨0, 1⟩, ⟨0, 0⟩, ⟨0, 1⟩, ⟨0, 7⟩]
    let s := ofParams params []
    let p := (Program.empty.addSignature s).2
    let m : Substitutions := ⟨⟨0⟩, [⟨1⟩, ⟨2⟩, ⟨3⟩, ⟨4⟩], []⟩
    p.signature m.signature = s ∧ m.replacements.length = s.params.length ∧
      s.position? ⟨1, 0⟩ = some 3 ∧ s.contains ⟨0, 2⟩ = false ∧ s.maxDepth? = some 1 ∧
      p.replacement? m ⟨0, 7⟩ = some ⟨3⟩ ∧ p.replacement? m ⟨1, 1⟩ = none := by
  intro params s p m
  have hsignature : p.signature m.signature = s := by decide +kernel
  have hlength : m.replacements.length = s.params.length := by decide +kernel
  obtain ⟨-, -, hposition, hcontains, hdepth, hreplacement⟩ := lookup_exact params []
  obtain ⟨hplaced, hnone⟩ := hreplacement p m hsignature hlength
  obtain ⟨t, ht, hseventh⟩ := hplaced 2 ⟨0, 7⟩ (by decide +kernel)
  refine ⟨hsignature, hlength, (hposition _ _).2 (by decide +kernel), ?_, hdepth,
    hseventh.trans ht.symm, hnone _ (by decide +kernel)⟩
  rw [← Bool.not_eq_true, hcontains]
  decide +kernel

end NameMangling.GenericSignature
