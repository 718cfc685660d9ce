/-
# The bound of a program is enough for every request

A request starts with types, with at most two declarations or contexts, and with the signature
of a scope.  From these its plan leads to what the program stores and mentions.  So the bound of
the program is never what keeps a request from its answer: whatever answer there is with some
bound, a symbol or a refusal, is the one with the bound of the program, and a request that is cut
off with this bound is cut off with all.

Main definition: `Grammar.roots`, what a request starts with.

Main facts:
* `Session.requestWithin_eq_request` and `Session.request_tooDeep_iff`, for requests;
* `Mangler.mangleInFull_of_writes`, for symbols without references.
-/
import NameMangling.Proofs.Adequacy

namespace NameMangling

/-! ## Plans -/

namespace Grammar

variable {g : Grammar} {P : Scope → Phrase → Prop} {R : Roots}

/-- The variant of an entity opens nothing. -/
theorem opens_variant (kind : EntityVariant) : Opens P kind.pieces := by
  cases kind
  case plain => exact .nil
  all_goals exact .op _ .nil

/-- The expansion of a thunk opens nothing. -/
theorem opens_expansion (e : Expansion) : Opens P e.pieces := by
  cases e with
  | minimal => exact .op _ .nil
  | maximal => exact .nil

/-- The function that is differentiated opens nothing. -/
theorem opens_differentiated (differentiated : String) :
    Opens P (differentiatedPieces differentiated) := by
  unfold differentiatedPieces
  split
  · exact .token _ .nil
  · exact .token _ (.op _ .nil)

theorem opens_indexSubset (s : IndexSubset) : Opens P s.pieces := .map fun _ _ => trivial

/-- The names that a binding binds open nothing. -/
theorem opens_boundNames (ds : List DeclId) : Opens P (g.boundNames ds) := by
  unfold boundNames
  split
  · exact .nil
  · exact opens_declName _
  · refine .markFirst fun ps hps => ?_
    obtain ⟨d, -, rfl⟩ := List.mem_map.mp hps
    exact opens_declName d

theorem hasScope_outermost (R : Roots) : (g.program.vocabulary R).HasScope outermost :=
  ⟨List.mem_cons_of_mem _ List.mem_cons_self, List.mem_cons_self⟩

theorem hasScope_under (R : Roots) : (g.program.vocabulary R).HasScope (under R.signature) :=
  ⟨List.mem_cons_self, List.mem_cons_self⟩

/-- What a request starts with beside types. -/
def roots (g : Grammar) : Request → Roots
  | .entity d _ | .globalVariable d | .initializer d | .backingInitializer d | .defaultArgument d _
  | .typeContextReference d _ | .declReference d _ => { contexts := [.decl d] }
  | .globalInit binding _ _ => { contexts := [(g.program.binding binding).parent] }
  | .vtableThunk base derived => { contexts := [.decl derived, .decl base] }
  | .witnessTable c | .closureWitnessThunk c _ | .witnessThunk c (.accessor _ _) =>
    { contexts := [.decl (g.program.rootOf c).context], signature := g.conformanceSignature c }
  | .witnessThunk c (.decl d) =>
    { contexts := [.decl (g.program.rootOf c).context, .decl d]
      signature := g.conformanceSignature c }
  | .reabstractionThunk _ _ _ s | .completionHandler _ _ s _ => { signature := s }
  | .keyPathGetter k | .keyPathSetter k =>
    { contexts := [.decl k.storage], signature := k.signature }
  | .keyPathEquals k | .keyPathHash k => { signature := k.signature }
  | .derivativeFunction _ _ c | .linearMap _ _ c | .generatedDecl _ _ _ _ c
  | .differentiabilityWitness _ _ c => { signature := c.signature }
  | _ => {}

section

variable (h : (g.program.vocabulary R).Closed g.program)
include h

/-- A conformance as declared, where its module and its signature are roots. -/
theorem opens_rooted {c : ConformanceId} (hs : g.conformanceSignature c = R.signature)
    (hcontext : .decl (g.program.rootOf c).context ∈ R.contexts) :
    Opens ((g.program.vocabulary R).Has g.program) (g.protocolConformance outermost c) :=
  h.protocolConformance (hasScope_outermost R) (hs ▸ (hasScope_under R).signature) trivial
    (h.decl_of_context _ (Program.mem_surroundings_of_root hcontext))

/-- Types in the scope of the root signature, and that signature. -/
theorem opens_signed {s : Option SignatureId} (hs : s = R.signature) (ts : List TypeId) :
    Opens ((g.program.vocabulary R).Has g.program)
      (ts.map (.type (under s)) ++ g.signatureIfAny outermost s) := by
  subst hs
  refine .append (.map fun t _ => ⟨hasScope_under R, trivial⟩) ?_
  exact h.signatureIfAny (hasScope_outermost R) (hasScope_under R).signature

/-- A derivative opens what its code opens, and its signature. -/
theorem opens_derivative (differentiated : String) {code : List Piece}
    (hcode : Opens ((g.program.vocabulary R).Has g.program) code) {c : DerivativeConfig}
    (hs : c.signature = R.signature) :
    Opens ((g.program.vocabulary R).Has g.program) (g.derivative differentiated code c) :=
  ((opens_differentiated _).append hcode).append (((opens_indexSubset _).append
    (.op _ (opens_indexSubset _))).append (.op _ (opens_signed h hs [])))

/-- The accessor of a key path component opens its storage, its type and its arguments. -/
theorem opens_keyPathAccessor {k : KeyPathComponent} (hs : k.signature = R.signature)
    (hstorage : .decl k.storage ∈ R.contexts) (operator : Operator) :
    Opens ((g.program.vocabulary R).Has g.program) (g.keyPathAccessor k operator) := by
  have hunder : (g.program.vocabulary R).HasScope (under k.signature) := hs ▸ hasScope_under R
  have hbase : (Piece.type (under k.signature) k.base).Opens
      ((g.program.vocabulary R).Has g.program) := ⟨hunder, trivial⟩
  refine (((h.entity (hasScope_outermost R) (Program.mem_surroundings_of_root hstorage)).append
    (opens_signed h hs [])).append (.cons hbase ?_)).append (.op _ (opens_expansion _))
  split
  · exact .ite (opens_argLevel fun _ _ => ⟨hunder, trivial⟩) .nil
  · exact .nil

end

variable {r : Request} {plan : Plan}

/-- A plan opens phrases that the program leads to, starting with what the request names. -/
theorem opens_plan (hp : g.program.Sound) (hplan : g.plan r = .ok plan) :
    Opens ((g.program.vocabulary (g.roots r)).Has g.program) plan.pieces := by
  have h : (g.program.vocabulary (g.roots r)).Closed g.program := Program.closed_vocabulary hp
  have hout := hasScope_outermost (g := g) (g.roots r)
  have hroot {c : Context} (hc : c ∈ (g.roots r).contexts) :
      (g.program.vocabulary (g.roots r)).context c := Program.mem_surroundings_of_root hc
  -- one case for each kind of request; the contexts and conformances that it names are roots
  cases r <;> unfold Grammar.plan at hplan <;> dsimp only at hplan
  case entity =>
    cases hplan
    exact (opens_variant _).append (h.entity hout (hroot List.mem_cons_self))
  case closure =>
    cases hplan
    exact (opens_variant _).append (h.closureEntity hout _)
  case constructor =>
    obtain ⟨-, -, hplan⟩ := bind_ok hplan
    cases hplan
    exact (opens_variant _).append (h.constructor hout _ _)
  case destructor =>
    obtain ⟨-, -, hplan⟩ := bind_ok hplan
    cases hplan
    exact (opens_variant _).append (h.destructor hout _ _)
  case ivarInitializer =>
    obtain ⟨-, -, hplan⟩ := bind_ok hplan
    cases hplan
    exact ((opens_variant _).append (h.nominal hout _)).append (.op _ .nil)
  case accessor =>
    cases hplan
    exact (opens_variant _).append (h.accessor hout _ _)
  case globalGetter =>
    obtain ⟨-, -, hplan⟩ := bind_ok hplan
    cases hplan
    exact h.value hout _ _ _
  case globalVariable =>
    obtain ⟨-, -, hplan⟩ := bind_ok hplan
    cases hplan
    exact h.entity hout (hroot List.mem_cons_self)
  case defaultArgument =>
    obtain ⟨-, -, hplan⟩ := bind_ok hplan
    cases hplan
    exact (h.entity hout (hroot List.mem_cons_self)).append (.op _ (.token _ .nil))
  case initializer | backingInitializer =>
    obtain ⟨-, -, hplan⟩ := bind_ok hplan
    cases hplan
    exact (h.entity hout (hroot List.mem_cons_self)).append (.op _ .nil)
  case nominalType | localTypeDecl =>
    obtain ⟨-, -, hplan⟩ := bind_ok hplan
    cases hplan
    exact h.nominal hout _
  case globalInit =>
    obtain ⟨ds, -, hplan⟩ := bind_ok hplan
    cases hplan
    exact .append (.cons ⟨hout, hroot List.mem_cons_self⟩ (opens_boundNames _)) (.op _ .nil)
  case declType =>
    cases hplan
    exact (h.declType hout _).append (.op _ .nil)
  case vtableThunk =>
    cases hplan
    have hbase := h.entity hout (hroot (List.mem_cons_of_mem _ List.mem_cons_self))
    exact ((h.entity hout (hroot List.mem_cons_self)).append hbase).append (.op _ .nil)
  case constructorVtableThunk =>
    obtain ⟨-, -, hplan⟩ := bind_ok hplan
    obtain ⟨-, -, hplan⟩ := bind_ok hplan
    cases hplan
    exact ((h.constructor hout _ _).append (h.constructor hout _ _)).append (.op _ .nil)
  case witnessTable =>
    cases hplan
    exact (opens_rooted h rfl List.mem_cons_self).append (.op _ .nil)
  case witnessThunk c requirement =>
    cases hplan
    cases requirement with
    | decl d =>
      have hdecl := h.entity hout (hroot (List.mem_cons_of_mem _ List.mem_cons_self))
      exact ((opens_rooted h rfl List.mem_cons_self).append hdecl).append (.op _ .nil)
    | accessor storage kind =>
      exact ((opens_rooted h rfl List.mem_cons_self).append (h.accessor hout _ _)).append
        (.op _ .nil)
  case closureWitnessThunk =>
    cases hplan
    exact ((opens_rooted h rfl List.mem_cons_self).append (h.closureEntity hout _)).append
      (.op _ .nil)
  case reabstractionThunk | completionHandler =>
    cases hplan
    exact (opens_signed h rfl _).append (.op _ .nil)
  case keyPathGetter | keyPathSetter =>
    obtain ⟨-, -, hplan⟩ := bind_ok hplan
    cases hplan
    exact opens_keyPathAccessor h rfl List.mem_cons_self _
  case keyPathEquals | keyPathHash =>
    cases hplan
    exact (opens_signed h rfl _).append (.op _ (opens_expansion _))
  case derivativeFunction | linearMap | differentiabilityWitness =>
    cases hplan
    exact opens_derivative h _ (.op _ (.op _ .nil)) rfl
  case generatedDecl =>
    cases hplan
    exact opens_derivative h _ (.op _ (.op _ (.op _ (.token _ .nil)))) rfl
  case typeForDebugger t context =>
    cases hplan
    refine .cons ⟨⟨?_, hout.owner⟩, trivial⟩ (.op _ .nil)
    cases context with
    | none => exact h.noSignature
    | some c => exact h.hasSignatureOf c
  case typeForTypeName | typeWithoutLead | typeReference =>
    cases hplan
    exact .cons ⟨hout, trivial⟩ .nil
  case opaqueTypeDescriptor =>
    cases hplan
    exact (h.opaqueDecl hout _).append (.op _ .nil)
  case opaqueTypeDecl =>
    cases hplan
    exact h.opaqueDecl hout _
  case opaqueTypeDeclOf =>
    obtain ⟨d, -, hplan⟩ := bind_ok hplan
    cases hplan
    exact h.opaqueDecl hout _
  case foreignRuntimeName =>
    obtain ⟨-, -, hplan⟩ := bind_ok hplan
    cases hplan
    unfold foreignRuntimePlan
    dsimp only
    split
    · exact .token _ .nil
    · exact h.nominal hout _
  case typeContextReference =>
    obtain ⟨-, -, hplan⟩ := bind_ok hplan
    cases hplan
    exact h.context hout (hroot List.mem_cons_self)
  case declReference =>
    cases hplan
    exact h.entity hout (hroot List.mem_cons_self)
  case accessorReference =>
    cases hplan
    exact h.accessor hout _ _

end Grammar

/-! ## Answers -/

namespace Mangler

variable {m : Mangler} {r : Request} {plan : Plan} {w : Spelling} {n : Nat}

/-- Writing the plan of a request ends with the bound of the program, if it ends with any. -/
theorem finishes_plan (hbuilt : m.program.Built) (hplan : m.plan r = .ok plan)
    {e : Option Refusal} (h : (m.grammar plan.keepsSugar).Finishes w n plan.pieces {} e) :
    (m.grammar plan.keepsSugar).Finishes w (m.grammar plan.keepsSugar).depthBound
      plan.pieces {} e := by
  have hopens := Grammar.opens_plan (g := m.grammar false) hbuilt.sound hplan
  exact (h.within_depthBound (g := m.grammar plan.keepsSugar) hbuilt hopens).mono (Nat.sub_le _ _)

/-- The plan of a request that can be written with some bound is written with that of the
program. -/
theorem writes_plan (hbuilt : m.program.Built) (hplan : m.plan r = .ok plan) {p : Progress}
    (h : (m.grammar plan.keepsSugar).Writes w n plan.pieces {} p) :
    (m.grammar plan.keepsSugar).Writes w (m.grammar plan.keepsSugar).depthBound
      plan.pieces {} p := by
  obtain ⟨p', hwrites⟩ :=
    Grammar.finishes_none.mp (finishes_plan hbuilt hplan (Grammar.finishes_none.mpr ⟨p, h⟩))
  exact hwrites.agree h ▸ hwrites

/-- What can be written in full with some bound is the answer in full. -/
theorem mangleInFull_of_writes (hbuilt : m.program.Built) (hplan : m.plan r = .ok plan)
    {p : Progress} (h : (m.grammar plan.keepsSugar).Writes
      { placesReferent := m.placesReferent plan, refersBack := false } n plan.pieces {} p) :
    m.mangleInFull r = .ok (symbol plan.lead p.tokens.toList) := by
  have hwrite : m.writeInFull plan = .ok () p :=
    Grammar.pieces_ok_iff.mpr (writes_plan hbuilt hplan h)
  simp only [mangleInFull, hplan, hwrite]

end Mangler

namespace Session

variable {s : Session} {r : Request} {n : Nat}

/-- A request without a plan is refused with every bound. -/
theorem requestWithin_of_plan_error {e : Refusal} (hplan : s.mangler.plan r = .error e) (n : Nat) :
    (s.requestWithin n r).1 = .error (.refused e) := by
  unfold requestWithin
  cases hcommand : s.commandWithin n r with
  | error e' =>
    rw [s.plan_of_command_error hcommand] at hplan
    cases hplan
    rfl
  | ok c =>
    obtain ⟨plan, hplan', -⟩ := s.body_endAlike hcommand
    rw [hplan] at hplan'
    cases hplan'

/-- A request that is answered with some bound has this answer with that of the program. -/
theorem requestWithin_eq_request (hbuilt : s.mangler.program.Built)
    (h : (s.requestWithin n r).1 ≠ .error .tooDeep) :
    (s.requestWithin n r).1 = (s.request r).1 := by
  have hrequest : s.requestWithin (s.mangler.grammar false).depthBound r = s.request r := rfl
  rw [← hrequest]
  cases hplan : s.mangler.plan r with
  | error e => rw [requestWithin_of_plan_error hplan, requestWithin_of_plan_error hplan]
  | ok plan =>
    rw [requestWithin_eq hplan] at h ⊢
    rw [requestWithin_eq hplan]
    obtain ⟨e, hends⟩ := Grammar.exists_finishes_iff.mpr fun s' (hrun :
      s.mangler.writeWithin n plan = .error .tooDeep s') => h (by rw [hrun])
    have hbound := Mangler.finishes_plan hbuilt hplan hends
    -- writing ends the same way with any bound that is not met: with the same state, or for the
    -- same reason
    cases e with
    | none =>
      obtain ⟨p, hp⟩ := Grammar.finishes_none.mp hends
      have hwrite : s.mangler.writeWithin n plan = .ok () p := Grammar.pieces_ok_iff.mpr hp
      have hwrite' : s.mangler.writeWithin (s.mangler.grammar false).depthBound plan = .ok () p :=
        Grammar.pieces_ok_iff.mpr (Mangler.writes_plan hbuilt hplan hp)
      rw [hwrite, hwrite']
    | some e =>
      obtain ⟨p, hrefused⟩ := hends
      obtain ⟨p', hrefused'⟩ := hbound
      have hwrite : s.mangler.writeWithin n plan = .error (.refused e) p := hrefused
      have hwrite' : s.mangler.writeWithin (s.mangler.grammar false).depthBound plan =
        .error (.refused e) p' := hrefused'
      rw [hwrite, hwrite']

/-- The bound of a program is never what keeps a request from its answer: a request that is cut
off with it is cut off with every bound. -/
theorem request_tooDeep_iff (hbuilt : s.mangler.program.Built) :
    (s.request r).1 = .error .tooDeep ↔ ∀ n, (s.requestWithin n r).1 = .error .tooDeep := by
  refine ⟨fun h n => ?_, fun h => h (s.mangler.grammar false).depthBound⟩
  by_contra hn
  exact hn ((requestWithin_eq_request hbuilt hn).trans h)

end Session

end NameMangling
