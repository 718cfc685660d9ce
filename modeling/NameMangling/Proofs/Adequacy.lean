/-
# The bound of a program is enough

Spelling is cut off at a bound that is taken from the size of the program.  A phrase leads to
types, declarations, contexts and conformances that the program stores or mentions, under the
signatures of declarations, if it starts with these or with a few others.  There are so few of
them that the bound is never what keeps writing from coming to an end: where it ends at all, with
a symbol or a refusal, it ends so with less.

Main definitions:
* `Roots`, what writing starts with;
* `Program.mentioned` and `Program.surroundings`, the declarations and contexts that a program
  leads to;
* `Program.vocabulary`, the phrases made of these;
* `Grammar.catalogue`, the list of these phrases.

Main facts: `Grammar.Finishes.within_depthBound`, `Grammar.Writes.within_depthBound`.
-/
import Mathlib.Algebra.Order.Ring.Canonical
import Mathlib.Tactic.GCongr
import Mathlib.Tactic.Ring
import NameMangling.Proofs.CanonicalGate
import NameMangling.Proofs.DepthBound

namespace NameMangling

/-- The declaration that an opaque result type belongs to. -/
def DeclKind.naming? : DeclKind → Option DeclId
  | opaqueResult naming => some naming
  | _ => none

/-- What writing starts with beside types: a few contexts, and the signature of a scope. -/
structure Roots where
  contexts : List Context := []
  signature : Option SignatureId := none
  few : contexts.length ≤ 2 := by simp

namespace Program

variable (p : Program) (R : Roots)

/-! ## What a program leads to -/

/-- The types of a program. -/
def typeIds : List TypeId := (List.range p.types.size).map TypeId.mk

/-- The contexts in which declarations and closures lie, and those to start with. -/
def places : List Context :=
  R.contexts ++ (p.declIds.filterMap (fun d => (p.decl d).parent) ++
    (p.closureIds.map (fun c => (p.closure c).parent) ++ [.decl ⟨0⟩]))

/-- The declarations of a program and those that are only mentioned. -/
def mentioned : List DeclId :=
  p.declIds ++ ((p.places R).filterMap Context.decl? ++
    (p.declIds.filterMap (fun d => (p.kindOf d).naming?) ++
      p.conformanceIds.map (fun c => (p.rootOf c).context)))

/-- The contexts that a program leads to. -/
def surroundings : List Context := p.places R ++ (p.mentioned R).map .decl

/-- What a program leads to: its types, and what it mentions, starting with some roots. -/
def vocabulary : Vocabulary where
  type _ := True
  part t := t ∈ p.typeIds
  decl d := d ∈ p.mentioned R
  context c := c ∈ p.surroundings R
  signature s := s ∈ R.signature :: none :: p.declIds.map fun d => (p.decl d).signature
  owner d := d ∈ none :: p.declIds.map some

variable {p R} {c c' : Context} {d : DeclId} {t : TypeId}

theorem mem_typeIds : t ∈ p.typeIds ↔ t.index < p.types.size := by
  cases t
  simp [typeIds]

theorem mem_closureIds {c : ClosureId} : c ∈ p.closureIds ↔ c.index < p.closures.size := by
  cases c
  simp [closureIds]

/-- A declaration with a parent is one of the program. -/
theorem lt_of_parent (h : (p.decl d).parent = some c) : d.index < p.decls.size := by
  by_contra hd
  rw [decl_of_size_le (Nat.le_of_not_lt hd)] at h
  cases h

/-- A declaration with a type is one of the program. -/
theorem lt_of_interfaceType (h : (p.decl d).interfaceType = some t) : d.index < p.decls.size := by
  by_contra hd
  rw [decl_of_size_le (Nat.le_of_not_lt hd)] at h
  cases h

theorem parent_mem_places (h : (p.decl d).parent = some c) : c ∈ p.places R :=
  List.mem_append_right _ (List.mem_append_left _
    (List.mem_filterMap.mpr ⟨d, mem_declIds.mpr (lt_of_parent h), h⟩))

/-- The context around a closure is a place, also for a closure that was never added. -/
theorem closureParent_mem_places (c : ClosureId) : (p.closure c).parent ∈ p.places R := by
  refine List.mem_append_right _ (List.mem_append_right _ ?_)
  by_cases hc : c.index < p.closures.size
  · exact List.mem_append_left _ (List.mem_map.mpr ⟨c, mem_closureIds.mpr hc, rfl⟩)
  · rw [closure, Array.getElem?_eq_none (Nat.le_of_not_lt hc)]
    exact List.mem_append_right _ (List.mem_singleton.mpr rfl)

theorem mem_mentioned_of_lt (h : d.index < p.decls.size) : d ∈ p.mentioned R :=
  List.mem_append_left _ (mem_declIds.mpr h)

theorem mem_mentioned_of_places (hc : c ∈ p.places R) (hd : c.decl? = some d) : d ∈ p.mentioned R :=
  List.mem_append_right _ (List.mem_append_left _ (List.mem_filterMap.mpr ⟨c, hc, hd⟩))

theorem mem_surroundings_of_mentioned (h : d ∈ p.mentioned R) : .decl d ∈ p.surroundings R :=
  List.mem_append_right _ (List.mem_map_of_mem h)

theorem mem_surroundings_of_root (h : c ∈ R.contexts) : c ∈ p.surroundings R :=
  List.mem_append_left _ (List.mem_append_left _ h)

/-- What the contexts belong to that a program leads to is mentioned. -/
theorem mem_mentioned_of_surroundings (hc : c ∈ p.surroundings R) (hd : c.decl? = some d) :
    d ∈ p.mentioned R := by
  rcases List.mem_append.mp hc with hc | hc
  · exact mem_mentioned_of_places hc hd
  · obtain ⟨x, hx, rfl⟩ := List.mem_map.mp hc
    cases hd
    exact hx

/-- The contexts around those that a program leads to are among these. -/
theorem parent?_mem_surroundings (hc : c ∈ p.surroundings R) (h : p.parent? c = some c') :
    c' ∈ p.surroundings R := by
  cases c with
  | decl d => exact List.mem_append_left _ (parent_mem_places h)
  | closure c =>
    cases h
    exact List.mem_append_left _ (closureParent_mem_places c)
  | initializer d | defaultArgument d _ | accessor d _ =>
    cases h
    exact mem_surroundings_of_mentioned (mem_mentioned_of_surroundings hc rfl)

/-- The way out of a context that a program leads to stays among such contexts. -/
theorem walk_subset_surroundings (hc : c ∈ p.surroundings R) (n : Nat) :
    walk p.parent? n c ⊆ p.surroundings R := by
  induction n generalizing c with
  | zero => simp [walk]
  | succ n ih =>
    cases hc' : p.parent? c with
    | none =>
      rw [walk_of_none hc']
      simpa using hc
    | some c' =>
      rw [walk_of_some hc']
      exact List.cons_subset.mpr ⟨hc, ih (parent?_mem_surroundings hc hc')⟩

/-- The module of a mentioned declaration is mentioned. -/
theorem moduleOf_mem_mentioned {m : DeclId} (hd : d ∈ p.mentioned R)
    (hm : p.moduleOf (.decl d) = some m) : m ∈ p.mentioned R := by
  obtain ⟨c, hc, hcm⟩ := List.exists_of_findSome?_eq_some hm
  have hmem := walk_subset_surroundings (mem_surroundings_of_mentioned hd) _ hc
  unfold module? at hcm
  split at hcm
  · split at hcm
    · cases hcm
      exact mem_mentioned_of_surroundings hmem rfl
    · cases hcm
  · cases hcm

/-- What a program says of what it leads to is something it leads to. -/
theorem closed_vocabulary (hp : p.Sound) : (p.vocabulary R).Closed p where
  type_of_part _ _ := trivial
  part_of_type t _ hkind := by
    refine mem_typeIds.mpr (Arena.lt_of_node_ne fun hnode => ?_)
    rw [Arena.kind, hnode] at hkind
    cases hkind
  child t ht u hu := by
    have ht := mem_typeIds.mp ht
    exact mem_typeIds.mpr (Nat.lt_trans (hp.settled.parts_lt ht hu) ht)
  desugared _ _ _ _ := trivial
  canonical t := mem_typeIds.mpr
    (Arena.Settled.lt_of_isCanonical hp.nonempty (hp.settled.isCanonical_canonical hp.nonempty t))
  interface _ _ _ := trivial
  closure _ := trivial
  operand _ _ _ _ _ := trivial
  added _ hd := mem_mentioned_of_lt hd
  conforming c hc := List.mem_append_right _ (List.mem_append_right _ (List.mem_append_right _
    (List.mem_map.mpr ⟨c, mem_conformanceIds.mpr hc, rfl⟩)))
  module _ _ hd hm := moduleOf_mem_mentioned hd hm
  decl_of_context _ hc := mem_mentioned_of_surroundings hc rfl
  decl_context _ _ hc hd := mem_surroundings_of_mentioned (mem_mentioned_of_surroundings hc hd)
  parent _ _ hc := List.mem_append_left _ (parent_mem_places hc)
  closureParent c := List.mem_append_left _ (closureParent_mem_places c)
  naming d n hkind := by
    have hd : d.index < p.decls.size := by
      refine lt_of_kindOf_ne fun hmodule => ?_
      rw [hkind] at hmodule
      cases hmodule
    refine mem_surroundings_of_mentioned (List.mem_append_right _ (List.mem_append_right _
      (List.mem_append_left _ (List.mem_filterMap.mpr ⟨d, mem_declIds.mpr hd, ?_⟩))))
    rw [hkind]
    rfl
  noSignature := List.mem_cons_of_mem _ List.mem_cons_self
  ownSignature d := by
    refine List.mem_cons_of_mem _ ?_
    by_cases hd : d.index < p.decls.size
    · exact List.mem_cons_of_mem _ (List.mem_map.mpr ⟨d, mem_declIds.mpr hd, rfl⟩)
    · rw [decl_of_size_le (Nat.le_of_not_lt hd)]
      exact List.mem_cons_self
  owner _ _ ht := List.mem_cons_of_mem _ (List.mem_map_of_mem (mem_declIds.mpr
    (lt_of_interfaceType ht)))

/-! ## How much that is -/

variable (p R)

/-- There are at most as many places as declarations and closures, two to start with and one for
closures that were never added. -/
theorem length_places_le : (p.places R).length ≤ p.decls.size + p.closures.size + 3 := by
  have hparents := List.length_filterMap_le (fun d => (p.decl d).parent) p.declIds
  have hfew := R.few
  simp only [places, List.length_append, List.length_map, closureIds, declIds, List.length_range,
    List.length_singleton] at hparents ⊢
  omega

/-- A declaration is mentioned for itself, as a place or for an opaque result, or by a
conformance. -/
theorem length_mentioned_le : (p.mentioned R).length ≤
    3 * p.decls.size + p.closures.size + p.conformances.size + 3 := by
  have hplaces := p.length_places_le R
  have hdecls := List.length_filterMap_le Context.decl? (p.places R)
  have hnaming := List.length_filterMap_le (fun d => (p.kindOf d).naming?) p.declIds
  simp only [mentioned, List.length_append, List.length_map, conformanceIds, declIds,
    List.length_range] at hnaming ⊢
  omega

/-- The contexts that a program leads to are places and mentioned declarations. -/
theorem length_surroundings_le : (p.surroundings R).length ≤
    4 * p.decls.size + 2 * p.closures.size + p.conformances.size + 6 := by
  have hplaces := p.length_places_le R
  have hmentioned := p.length_mentioned_le R
  simp only [surroundings, List.length_append, List.length_map]
  omega

end Program

/-! ## The phrases to meet -/

namespace Grammar

variable {g : Grammar} {R : Roots} {w : Spelling} {n : Nat} {scope : Scope} {t : TypeId}
  {d : DeclId} {ps : List Piece} {s s' : Progress} {e : Option Refusal}

variable (g R)

/-- The scopes of phrases that a program leads to. -/
def scopes : List Scope :=
  ((R.signature :: none :: g.program.declIds.map fun d => (g.program.decl d).signature) ×ˢ
    (none :: g.program.declIds.map some)).map fun x => ⟨x.1, x.2⟩

/-- The conformances of its types that a program leads to. -/
def refs : List ConformanceRef :=
  (g.program.conformanceIds ×ˢ g.program.typeIds).map fun x => .declared x.1 x.2

/-- The phrases that a program leads to, apart from conformances that have to be derived. -/
def phrases : List Phrase :=
  g.program.typeIds.map .type ++ (g.program.typeIds.map (fun t => .body (.type t)) ++
    ((g.program.surroundings R).map .context ++
      ((g.program.mentioned R).map (fun d => .body (.decl d)) ++
        ((none :: g.program.typeIds.map some) ×ˢ g.refs).map fun x => .conformance x.1 x.2)))

variable {g R}

/-- A type that was never built has no phrases inside. -/
theorem lt_of_needs_type (h : g.Needs w (n + 1) (g.production scope (.type t)) s) :
    t.index < g.program.types.size := by
  by_contra ht
  have hnode := Arena.node_of_size_le (Nat.le_of_not_lt ht)
  -- a type that was never built reads as the empty tuple, whose spelling is one token
  have hproduction : g.production scope (.type t) = [.fail (.nonCanonicalType t)] ∨
      g.production scope (.type t) = [.op .emptyTuple] := by
    show g.type scope t = _ ∨ g.type scope t = _
    unfold type
    rw [hnode]
    split
    · exact .inl rfl
    · exact .inr rfl
  have hleast := h.least 0 n.succ_pos
  rcases hproduction with hfail | htoken
  · rw [hfail] at hleast
    exact hleast _ (.fail _)
  · rw [htoken] at hleast
    exact hleast none (finishes_none.mpr ⟨_, .token .nil⟩)

/-- The phrases in their scopes that a program leads to. -/
def scopedPhrases (g : Grammar) (R : Roots) : List (Scope × Phrase) := g.scopes R ×ˢ g.phrases R

section

variable (hscope : (g.program.vocabulary R).HasScope scope)
include hscope

/-- A phrase is listed with any scope that a program leads to. -/
theorem mem_scopedPhrases {p : Phrase} (hp : p ∈ g.phrases R) :
    (scope, p) ∈ g.scopedPhrases R := by
  refine List.mem_product.mpr ⟨List.mem_map.mpr ⟨(scope.signature, scope.owner), ?_, rfl⟩, hp⟩
  exact List.mem_product.mpr ⟨hscope.signature, hscope.owner⟩

/-- A type that unfolds anything has been built, and is listed. -/
theorem listed_type (t : TypeId) : g.Listed (g.scopedPhrases R) scope (.type t) := by
  intro w n s h
  have ht := Program.mem_typeIds.mpr (lt_of_needs_type h)
  exact mem_scopedPhrases hscope (List.mem_append_left _ (List.mem_map_of_mem ht))

/-- The body of a mentioned declaration is listed. -/
theorem listed_body_decl (hd : d ∈ g.program.mentioned R) :
    g.Listed (g.scopedPhrases R) scope (.body (.decl d)) := by
  intro w n s _
  refine mem_scopedPhrases hscope ?_
  simp only [phrases, List.mem_append]
  exact .inr (.inr (.inr (.inl (List.mem_map.mpr ⟨d, hd, rfl⟩))))

/-- In a conformance that has to be derived all phrases are listed. -/
theorem listed_derived (subject : Option TypeId) (q : DeclId) :
    Opens (g.Listed (g.scopedPhrases R))
      (g.production scope (.conformance subject (.fromSignature q))) := by
  cases subject with
  | none => exact .fail _
  | some t =>
    show Opens _ (g.derivedConformance scope t q)
    unfold derivedConformance
    split
    · refine .flatMap fun step _ => opens_conformanceStep (listed_type hscope step.subject) ?_
      refine fun d => opens_protocol fun hkind => listed_body_decl hscope ?_
      refine Program.mem_mentioned_of_lt (Program.lt_of_kindOf_ne fun hmodule => ?_)
      rw [hmodule] at hkind
      cases hkind
    · exact .fail _

end

/-- A phrase that the program leads to is listed unless it has no phrases inside, or all that are
inside are listed. -/
theorem listed_or_opens {p : Phrase} (hp : (g.program.vocabulary R).Has g.program scope p) :
    g.Listed (g.scopedPhrases R) scope p ∨
      Opens (g.Listed (g.scopedPhrases R)) (g.production scope p) := by
  obtain ⟨hscope, hphrase⟩ := hp
  have hlisted (hmem : p ∈ g.phrases R) : g.Listed (g.scopedPhrases R) scope p :=
    fun _ _ _ _ => mem_scopedPhrases hscope hmem
  unfold phrases at hlisted
  simp only [List.mem_append] at hlisted
  cases p with
  | type t => exact .inl (listed_type hscope t)
  | context c => exact .inl (hlisted (.inr (.inr (.inl (List.mem_map_of_mem hphrase)))))
  | body key =>
    cases key with
    | type t => exact .inl (hlisted (.inr (.inl (List.mem_map.mpr ⟨t, hphrase, rfl⟩))))
    | decl d => exact .inl (listed_body_decl hscope hphrase)
  | conformance subject ref =>
    obtain ⟨hsubject, href⟩ := hphrase
    cases ref with
    | declared c t =>
      refine .inl (hlisted (.inr (.inr (.inr (.inr (List.mem_map.mpr
        ⟨(subject, .declared c t), List.mem_product.mpr ⟨?_, ?_⟩, rfl⟩))))))
      · cases subject with
        | none => exact List.mem_cons_self
        | some t => exact List.mem_cons_of_mem _ (List.mem_map_of_mem (hsubject t rfl))
      · exact List.mem_map.mpr
          ⟨(c, t), List.mem_product.mpr ⟨Program.mem_conformanceIds.mpr href.1, href.2⟩, rfl⟩
    -- the only phrase that is not listed: what it is derived from is
    | fromSignature q => exact .inr (listed_derived hscope subject q)

/-- The phrases and the nodes that a program leads to. -/
def catalogue (hp : g.program.Sound) (R : Roots) :
    Catalogue g ((g.program.vocabulary R).Has g.program) where
  phrases := g.scopedPhrases R
  nodes := g.program.typeIds.map .type ++ (g.program.mentioned R).map .decl
  production _ _ := (Program.closed_vocabulary hp).production
  listed _ _ := listed_or_opens
  mem_nodes scope key hkey := by
    obtain ⟨-, hkey⟩ := hkey
    cases key with
    | type t => exact List.mem_append_left _ (List.mem_map_of_mem hkey)
    | decl d => exact List.mem_append_right _ (List.mem_map_of_mem hkey)

end Grammar

/-! ## The bound -/

/-- A bound on the phrases in their scopes that `t` types, `d` declarations, `c` closures and `f`
conformances lead to. -/
def phraseCount (t d c f : Nat) : Nat :=
  (d + 2) * (d + 1) * (2 * t + 7 * d + 3 * c + 2 * f + 9 + (t + 1) * (f * t))

/-- A scope is about two declarations, and a conformance about two types and a conformance, all
of which share the size of the program. -/
theorem phraseCount_le {t d c f n : Nat} (hsum : t + d + c + f + 2 ≤ n) :
    16 * phraseCount t d c f ≤ n ^ 5 + 112 * n ^ 3 := by
  -- the two declarations of a scope go with the two types of a conformance
  have hpair {x y : Nat} (hxy : x + y ≤ n) : 4 * (x * y) ≤ n * n := by
    calc 4 * (x * y) = 4 * x * y := by ring
      _ ≤ (x + y) ^ 2 := four_mul_le_sq_add x y
      _ ≤ n ^ 2 := Nat.pow_le_pow_left hxy 2
      _ = n * n := by ring
  have hconformances : 16 * ((d + 2) * (d + 1) * ((t + 1) * (f * t))) ≤ n ^ 5 := by
    calc 16 * ((d + 2) * (d + 1) * ((t + 1) * (f * t)))
        = 4 * ((d + 1) * (t + 1)) * (4 * ((d + 2) * t)) * f := by ring
      _ ≤ n * n * (n * n) * n :=
          Nat.mul_le_mul (Nat.mul_le_mul (hpair (by omega)) (hpair (by omega))) (by omega)
      _ = n ^ 5 := by ring
  have hothers : 16 * ((d + 2) * (d + 1) * (2 * t + 7 * d + 3 * c + 2 * f + 9)) ≤ 112 * n ^ 3 := by
    calc 16 * ((d + 2) * (d + 1) * (2 * t + 7 * d + 3 * c + 2 * f + 9))
        ≤ 16 * (n * n * (7 * n)) := by gcongr <;> omega
      _ = 112 * n ^ 3 := by ring
  calc 16 * phraseCount t d c f
      = 16 * ((d + 2) * (d + 1) * ((t + 1) * (f * t))) +
          16 * ((d + 2) * (d + 1) * (2 * t + 7 * d + 3 * c + 2 * f + 9)) := by
        unfold phraseCount
        ring
    _ ≤ n ^ 5 + 112 * n ^ 3 := Nat.add_le_add hconformances hothers

/-- Twice the phrases in their scopes, each with as many nodes as may have numbers, stay below
the bound. -/
theorem phraseCount_mul_le {t d c f n : Nat} (hsum : t + d + c + f + 2 ≤ n) (hn : 14 ≤ n) :
    2 * (phraseCount t d c f * (t + 3 * d + c + f + 4)) + 4 ≤ n ^ 6 := by
  have hfour : 336 * n ^ 4 ≤ 2 * n ^ 6 := by
    calc 336 * n ^ 4 ≤ 2 * (14 * 14) * n ^ 4 := by gcongr; omega
      _ ≤ 2 * (n * n) * n ^ 4 := by gcongr
      _ = 2 * n ^ 6 := by ring
  have hproduct : 16 * (phraseCount t d c f * (t + 3 * d + c + f + 4)) ≤ 5 * n ^ 6 := by
    calc 16 * (phraseCount t d c f * (t + 3 * d + c + f + 4))
        = 16 * phraseCount t d c f * (t + 3 * d + c + f + 4) := by ring
      _ ≤ (n ^ 5 + 112 * n ^ 3) * (3 * n) := Nat.mul_le_mul (phraseCount_le hsum) (by omega)
      _ = 3 * n ^ 6 + 336 * n ^ 4 := by ring
      _ ≤ 5 * n ^ 6 := by omega
  have hone : 14 ^ 6 ≤ n ^ 6 := Nat.pow_le_pow_left hn 6
  omega

namespace Program

/-- Every program has the types that are there from the start. -/
theorem Built.twelve_le {p : Program} (h : p.Built) : 12 ≤ p.types.size := by
  have hpacks := h.sound.packs.size
  obtain ⟨⟨steps, -, rfl⟩, -⟩ := h
  have hempty : empty.pool.items.size = 12 := by decide +kernel
  rw [← hpacks, ← hempty]
  exact (empty.within_build steps).items

end Program

namespace Grammar

variable {g : Grammar} {R : Roots} {w : Spelling} {n : Nat} {ps : List Piece} {s s' : Progress}
  {e : Option Refusal}

/-- The number of phrases in their scopes is bounded by the sizes of the parts of the program. -/
theorem length_scopedPhrases_le (g : Grammar) (R : Roots) : (g.scopedPhrases R).length ≤
    phraseCount g.program.types.size g.program.decls.size g.program.closures.size
      g.program.conformances.size := by
  have hmentioned := g.program.length_mentioned_le R
  have hsurroundings := g.program.length_surroundings_le R
  have hscopes : (g.scopes R).length =
      (g.program.decls.size + 2) * (g.program.decls.size + 1) := by
    simp only [scopes, Program.declIds, List.length_map, List.length_product, List.length_cons,
      List.length_range]
  have hrefs : g.refs.length = g.program.conformances.size * g.program.types.size := by
    simp only [refs, Program.conformanceIds, Program.typeIds, List.length_map, List.length_product,
      List.length_range]
  rw [scopedPhrases, List.length_product, hscopes, phraseCount]
  apply Nat.mul_le_mul_left
  simp only [phrases, List.length_append, List.length_map, List.length_product, List.length_cons,
    hrefs, Program.typeIds, List.length_range]
  omega

/-- Writing phrases that the program leads to ends with less than the bound of the program, if it
ends. -/
theorem Finishes.within_depthBound (hbuilt : g.program.Built)
    (hps : Opens ((g.program.vocabulary R).Has g.program) ps) (h : g.Finishes w n ps {} e) :
    g.Finishes w (g.depthBound - 2) ps {} e := by
  have hlists : (catalogue hbuilt.sound R).Lists {} := nofun
  refine (Catalogue.finishes_within hlists hps h).mono ?_
  have htypes := hbuilt.twelve_le
  have hphrases := g.length_scopedPhrases_le R
  have hnodes : (g.program.typeIds.map NodeKey.type ++
      (g.program.mentioned R).map NodeKey.decl).length + 1 ≤
        g.program.types.size + 3 * g.program.decls.size + g.program.closures.size +
          g.program.conformances.size + 4 := by
    have hmentioned := g.program.length_mentioned_le R
    simp only [List.length_append, List.length_map, Program.typeIds, List.length_range]
    omega
  -- from here on it is counting: the phrases that are listed, times the numbers there can be
  have hproduct := Nat.mul_le_mul hphrases hnodes
  have hbound := phraseCount_mul_le (t := g.program.types.size) (d := g.program.decls.size)
    (c := g.program.closures.size) (f := g.program.conformances.size) (n := g.subjects)
    (by unfold subjects; omega) (by unfold subjects; omega)
  show 2 * ((g.scopedPhrases R).length * ((g.program.typeIds.map NodeKey.type ++
    (g.program.mentioned R).map NodeKey.decl).length + 1)) + 2 ≤ g.subjects ^ 6 - 2
  omega

/-- What can be written of phrases that the program leads to can be written with less than the
bound of the program. -/
theorem Writes.within_depthBound (hbuilt : g.program.Built)
    (hps : Opens ((g.program.vocabulary R).Has g.program) ps) (h : g.Writes w n ps {} s') :
    g.Writes w (g.depthBound - 2) ps {} s' := by
  obtain ⟨s₁, hwrites⟩ :=
    finishes_none.mp ((finishes_none.mpr ⟨s', h⟩).within_depthBound hbuilt hps)
  exact hwrites.agree h ▸ hwrites

/-- Every program leads to all types, in the outermost scope. -/
theorem opens_vocabulary_type (g : Grammar) (R : Roots) (t : TypeId) :
    Opens ((g.program.vocabulary R).Has g.program) [.type outermost t] :=
  .cons ⟨⟨List.mem_cons_of_mem _ List.mem_cons_self, List.mem_cons_self⟩, trivial⟩ .nil

end Grammar

end NameMangling
