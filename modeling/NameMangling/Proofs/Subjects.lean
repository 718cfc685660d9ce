/-
# The declaration that a symbol names

The symbol of a nominal type or of an opaque result type has a subject, the declaration it
names, which never becomes a placeholder of itself, however often it is met.  The symbol of
an entity has none: for a nominal type or an opaque result type that is accepted as a
placeholder, it is that placeholder and nothing else, the same text for all declarations.

Main definitions:
* `Request.Names`, the requests that name a declaration;
* `Mangler.PlacesNamed`, when the symbol of an entity is a placeholder of that entity.

Main facts: `Session.named_placed_iff`, `Session.entity_placed_as_itself`.
-/
import NameMangling.Proofs.Leads
import NameMangling.Proofs.Ledgers
import NameMangling.Proofs.NominalPaths

namespace NameMangling

/-- The requests whose symbol names a declaration: it as an entity, as a nominal type with the
global lead or without, or as an opaque result type with or without its descriptor. -/
inductive Request.Names (d : DeclId) : Request → Prop
  | entity (kind : EntityVariant) : Names d (.entity d kind)
  | nominalType : Names d (.nominalType d)
  | localTypeDecl : Names d (.localTypeDecl d)
  | opaqueTypeDecl : Names d (.opaqueTypeDecl d)
  | opaqueTypeDescriptor : Names d (.opaqueTypeDescriptor d)

/-- The tokens of a variant of an entity symbol. -/
def EntityVariant.tokens : EntityVariant → List Token
  | plain => []
  | asyncHandler => [.op .asyncHandler]
  | dynamicThunk => [.op .dynamicThunk]
  | nativeToForeign => [.op .nativeToForeign]
  | foreignToNative => [.op .foreignToNative]

theorem EntityVariant.pieces_eq (kind : EntityVariant) : kind.pieces = kind.tokens.map .token := by
  cases kind <;> rfl

/-- What follows a variant is placed where the symbol of the variant alone would end. -/
theorem EntityVariant.placements_tokens (kind : EntityVariant) (t : Token) :
    placements 2 (kind.tokens ++ [t]) =
      placements (Mangler.symbol "$q" kind.tokens).utf8ByteSize [t] := by
  cases kind <;> rfl

/-! ## The entity of a nominal type or an opaque result type -/

/-- An eligible referent is the one its declaration is. -/
theorem Referent.ofDecl_of_eligible {p : Program} {x : Referent} (h : x.Eligible p) :
    Referent.ofDecl p x.decl = .ok x := by
  unfold ofDecl
  cases x with
  | opaqueResult d =>
    obtain ⟨naming, hkind⟩ := h
    simp only [decl, hkind]
  | nominal d =>
    have hnominal : (p.kindOf d).isNominal = true := h
    simp only [decl]
    cases hkind : p.kindOf d <;> rw [hkind] at hnominal <;> cases hnominal <;> rfl

namespace Grammar

variable {g : Grammar} {w : Spelling} {scope : Scope} {d : DeclId} {n : Nat} {s : Progress}

/-- A nominal type as an entity is a context, and that is the nominal type. -/
theorem entity_of_isNominal (scope : Scope) (hnominal : (g.program.kindOf d).isNominal = true) :
    g.entity scope d = [.context scope (.decl d)] ∧
      g.production scope (.context (.decl d)) = g.nominal scope d := by
  show _ ∧ g.declContext scope d = _
  unfold entity declContext
  cases hkind : g.program.kindOf d <;> rw [hkind] at hnominal <;> cases hnominal <;>
    exact ⟨rfl, rfl⟩

theorem depthBound_pos (g : Grammar) : 0 < g.depthBound :=
  lt_of_lt_of_le (by decide) g.five_le_depthBound

/-- An entity that becomes a placeholder is written as that placeholder. -/
theorem writes_entity_placed (hn : 0 < n) {x : Referent}
    (hx : Referent.ofDecl g.program d = .ok x)
    (hplaces : w.placesReferent x = true)
    (hreserved : (g.program.kindOf d).isNominal = true → g.standardName? d = none) :
    g.Writes w n (g.entity scope d) s (s.emit (.placeholder x)) := by
  obtain ⟨n, rfl⟩ := Nat.exists_eq_add_one.2 hn
  have hshort (scope : Scope) : w.shorthand? s (.decl d) (some x) = some (.placeholder x) := by
    unfold Spelling.shorthand?
    rw [Option.filter_some, if_pos hplaces]
  have hnode (n : Nat) : g.Writes w n [.node scope (.decl d) (some x)] s
      (s.emit (.placeholder x)) := .short (hshort scope) .nil
  have hofDecl := hx
  unfold Referent.ofDecl at hx
  -- opaque results and nominal types become placeholders, and nothing else
  split at hx
  · rename_i naming hkind
    have hentity : g.entity scope d = [.node scope (.decl d) (some x)] := by
      unfold entity opaqueDecl
      rw [hkind]
      simp only [hofDecl]
    rw [hentity]
    exact hnode _
  · split at hx
    · rename_i hnominal
      cases hx
      obtain ⟨hentity, hcontext⟩ := entity_of_isNominal scope hnominal
      rw [hentity]
      refine .phrase ?_ .nil
      rw [hcontext, nominal_eq_node hnominal (hreserved hnominal)]
      exact hnode _
    · cases hx

/-- The entity of a nominal type with a reserved spelling is that spelling. -/
theorem writes_entity_reserved (hn : 0 < n)
    (hnominal : (g.program.kindOf d).isNominal = true)
    {name : StandardName} (hstandard : g.standardName? d = some name) :
    g.Writes w n (g.entity scope d) s (s.emit (.op (.standard name))) := by
  obtain ⟨n, rfl⟩ := Nat.exists_eq_add_one.2 hn
  obtain ⟨hentity, hcontext⟩ := entity_of_isNominal scope hnominal
  rw [hentity]
  refine .phrase ?_ .nil
  rw [hcontext, nominal_eq_reserved hnominal hstandard]
  exact .token .nil

end Grammar

namespace Mangler

variable {m : Mangler} {d : DeclId}

/-- A plan that is written is carried out as the tokens and placeholders written. -/
theorem carryOut_of_writes {plan : Plan} {s : Progress}
    (h : (m.grammar plan.keepsSugar).Writes { placesReferent := m.placesReferent plan }
      (m.grammar plan.keepsSugar).depthBound plan.pieces {} s) :
    m.carryOut plan = (.ok (symbol plan.lead s.tokens.toList),
      placements plan.lead.utf8ByteSize s.tokens.toList) := by
  have hwrite : m.write plan = .ok () s := Grammar.pieces_ok_iff.2 h
  unfold carryOut
  rw [hwrite]

/-- A plan of tokens is carried out as these tokens. -/
theorem carryOut_tokens {plan : Plan} {ts : List Token} (h : plan.pieces = ts.map .token) :
    m.carryOut plan = (.ok (symbol plan.lead ts), placements plan.lead.utf8ByteSize ts) := by
  obtain ⟨s, hwrites⟩ := Grammar.exists_writes_tokens (g := m.grammar plan.keepsSugar)
    (w := { placesReferent := m.placesReferent plan })
    (n := (m.grammar plan.keepsSugar).depthBound) ts {}
  have hwritten : s.tokens.toList = ts := (Grammar.writes_tokens hwrites).1
  rw [carryOut_of_writes (h ▸ hwrites), hwritten]

variable (m) in
/-- The plan for an entity. -/
def entityPlan (d : DeclId) (kind : EntityVariant) : Plan :=
  { pieces := kind.pieces ++ (m.grammar false).entity Grammar.outermost d }

/-- An entity that is written as one token is answered by that token behind its variant. -/
theorem carryOut_entityPlan {kind : EntityVariant} {t : Token}
    (h : ∀ s, (m.grammar false).Writes
      { placesReferent := m.placesReferent (m.entityPlan d kind) }
      (m.grammar false).depthBound ((m.grammar false).entity Grammar.outermost d) s (s.emit t)) :
    m.carryOut (m.entityPlan d kind) = (.ok (symbol "$q" (kind.tokens ++ [t])),
      placements 2 (kind.tokens ++ [t])) := by
  obtain ⟨s, htokens⟩ := Grammar.exists_writes_tokens (g := m.grammar false)
    (w := { placesReferent := m.placesReferent (m.entityPlan d kind) })
    (n := (m.grammar false).depthBound) kind.tokens {}
  have hpieces : (m.grammar false).Writes
      { placesReferent := m.placesReferent (m.entityPlan d kind) }
      (m.grammar false).depthBound (m.entityPlan d kind).pieces {} (s.emit t) := by
    show Grammar.Writes _ _ _ (kind.pieces ++ _) _ _
    rw [kind.pieces_eq]
    exact Grammar.writes_append.2 ⟨s, htokens, h s⟩
  have hwritten : (s.emit t).tokens.toList = kind.tokens ++ [t] := by
    rw [Progress.emit_tokens, Array.toList_push, (Grammar.writes_tokens htokens).1]
    rfl
  rw [carryOut_of_writes hpieces, hwritten]
  rfl

variable (m) in
/-- The referent of a declaration becomes a placeholder where the symbol names it as an entity:
placeholders are on, the referent is accepted, and no reserved spelling goes before it. -/
structure PlacesNamed (d : DeclId) (x : Referent) : Prop where
  allows : m.options.allowsPlaceholders = true
  referent : Referent.ofDecl m.program d = .ok x
  accepts : m.accepts x = true
  unreserved : (m.program.kindOf d).isNominal = true → (m.grammar false).standardName? d = none

/-- The whole symbol of such an entity is the placeholder. -/
theorem carryOut_entityPlan_placed {x : Referent} (h : m.PlacesNamed d x) (kind : EntityVariant) :
    m.carryOut (m.entityPlan d kind) = (.ok (symbol "$q" (kind.tokens ++ [.placeholder x])),
      [⟨x, (symbol "$q" kind.tokens).utf8ByteSize⟩]) := by
  have hplaces : m.placesReferent (m.entityPlan d kind) x = true := by
    simp [placesReferent, entityPlan, h.allows, h.accepts]
  rw [carryOut_entityPlan fun _ => Grammar.writes_entity_placed (Grammar.depthBound_pos _)
    h.referent hplaces h.unreserved, kind.placements_tokens]
  rfl

/-- An entity that has itself as a placeholder is such an entity. -/
theorem placesNamed_of_mem {kind : EntityVariant} {e : Placement}
    (he : e ∈ (m.carryOut (m.entityPlan d kind)).2) (hd : e.referent.decl = d) :
    m.PlacesNamed d e.referent := by
  have hplan : m.plan (.entity d kind) = .ok (m.entityPlan d kind) := rfl
  obtain ⟨hplaces, heligible⟩ := of_mem_carryOut hplan he
  simp only [placesReferent, Bool.and_eq_true] at hplaces
  refine ⟨hplaces.1.1.1, ?_, hplaces.2, ?_⟩
  · have hofDecl := Referent.ofDecl_of_eligible heligible
    rwa [hd] at hofDecl
  · intro hnominal
    cases hstandard : (m.grammar false).standardName? d with
    | none => rfl
    | some name =>
      -- the reserved spelling is all that is written, and it is no placeholder
      exfalso
      have hcarried : m.carryOut (m.entityPlan d kind) =
          (.ok (symbol "$q" (kind.tokens ++ [.op (.standard name)])),
            placements 2 (kind.tokens ++ [.op (.standard name)])) := by
        apply carryOut_entityPlan
        intro s
        exact Grammar.writes_entity_reserved (Grammar.depthBound_pos _) hnominal hstandard
      rw [hcarried, kind.placements_tokens] at he
      cases he

end Mangler

namespace Session

variable {d : DeclId} {r : Request}

/-- The symbols of nominal types and opaque result types have the declaration they name as
their subject. -/
theorem subject_of_names {m : Mangler} (hr : r.Names d) {plan : Plan} (h : m.plan r = .ok plan) :
    (∃ kind, r = .entity d kind) ∨ plan.subject = some d := by
  unfold Mangler.plan Grammar.plan at h
  cases hr with
  | entity kind => exact .inl ⟨kind, rfl⟩
  | nominalType | localTypeDecl =>
    obtain ⟨-, -, h⟩ := Grammar.bind_ok h
    cases h
    exact .inr rfl
  | opaqueTypeDecl | opaqueTypeDescriptor =>
    cases h
    exact .inr rfl

/-- Which symbols have the declaration they name as a placeholder.  Symbols of nominal types
and opaque result types never do.  The symbol of an entity does exactly where its referent is
accepted and no reserved spelling goes before it, and then the placeholder is all there is
behind the variant, one text for all declarations of its sort. -/
theorem named_placed_iff (m : Mangler) (history : List Request) (hr : r.Names d)
    {text : String} (h : ((m.inUse history).request r).1 = .ok text) :
    let ledger := ((m.inUse history).request r).2.ledger
    ((∃ e ∈ ledger, e.referent.decl = d) ↔ ∃ kind x, r = .entity d kind ∧ m.PlacesNamed d x) ∧
    ∀ kind x, r = .entity d kind → m.PlacesNamed d x →
      text = Mangler.symbol "$q" (kind.tokens ++ [.placeholder x]) ∧
        ledger = [⟨x, (Mangler.symbol "$q" kind.tokens).utf8ByteSize⟩] := by
  intro ledger
  have hmangler : (m.inUse history).mangler = m := Mangler.mangler_inUse history
  rw [request_eq_mangle, hmangler] at h
  obtain ⟨plan, -, hplan, -⟩ := Mangler.mangle_eq_ok.1 h
  have hledger : ledger = (m.carryOut plan).2 := by
    rw [← hmangler] at hplan ⊢
    exact ledger_of_plan hplan
  -- a symbol that places what it names is the placeholder behind the variant
  have hentity (kind : EntityVariant) (x : Referent) (hentity : r = .entity d kind)
      (hplaced : m.PlacesNamed d x) :
      text = Mangler.symbol "$q" (kind.tokens ++ [.placeholder x]) ∧
        ledger = [⟨x, (Mangler.symbol "$q" kind.tokens).utf8ByteSize⟩] := by
    subst hentity
    obtain rfl : m.entityPlan d kind = plan := Except.ok.inj hplan
    have hcarried := Mangler.carryOut_entityPlan_placed hplaced kind
    rw [Mangler.mangle_of_plan hplan, hcarried] at h
    cases h
    exact ⟨rfl, hledger.trans (congrArg Prod.snd hcarried)⟩
  refine ⟨⟨?_, ?_⟩, hentity⟩
  · rintro ⟨e, he, hd⟩
    rw [hledger] at he
    rcases subject_of_names hr hplan with ⟨kind, rfl⟩ | hsubject
    · obtain rfl : m.entityPlan d kind = plan := Except.ok.inj hplan
      exact ⟨kind, e.referent, rfl, Mangler.placesNamed_of_mem he hd⟩
    · -- the subject of a plan is never placed
      have hplaces := (Mangler.of_mem_carryOut hplan he).1
      simp [Mangler.placesReferent, hsubject, hd] at hplaces
  · rintro ⟨kind, x, hkind, hplaced⟩
    rw [(hentity kind x hkind hplaced).2]
    exact ⟨_, List.mem_cons_self, Referent.decl_of_ofDecl hplaced.referent⟩

/-- With placeholders on, the asynchronous handler of the struct `S` is a placeholder, and the
symbol of the type `S` is not. -/
theorem named_placed_iff_struct :
    let m : Mangler := { program := placedProgram, options := { allowsPlaceholders := true } }
    let s := m.inUse [.typeForTypeName ⟨0⟩]
    let handler : Request := .entity ⟨1⟩ .asyncHandler
    let type : Request := .nominalType ⟨1⟩
    handler.Names ⟨1⟩ ∧ (s.request handler).1 = .ok "$qTa\x01\x00\x00\x00\x00" ∧
      (∃ e ∈ (s.request handler).2.ledger, e.referent.decl = ⟨1⟩) ∧
      type.Names ⟨1⟩ ∧ (s.request type).1 = .ok "$q1M1SV" ∧
      ¬ ∃ e ∈ (s.request type).2.ledger, e.referent.decl = ⟨1⟩ := by
  intro m s handler type
  have hhandler : (s.request handler).1 = .ok "$qTa\x01\x00\x00\x00\x00" := by decide +kernel
  have htype : (s.request type).1 = .ok "$q1M1SV" := by decide +kernel
  have hplaced : m.PlacesNamed ⟨1⟩ (.nominal ⟨1⟩) := ⟨rfl, rfl, rfl, fun _ => by decide +kernel⟩
  refine ⟨.entity _, hhandler, ?_, .nominalType, htype, ?_⟩
  · exact (named_placed_iff m _ (.entity _) hhandler).1.2 ⟨_, _, rfl, hplaced⟩
  · intro hself
    obtain ⟨kind, x, hkind, -⟩ := (named_placed_iff m _ .nominalType htype).1.1 hself
    cases hkind

/-- The symbol of a struct as an entity is a placeholder of that struct, where its symbol as a
type spells it out. -/
theorem entity_placed_as_itself :
    let m : Mangler := { program := placedProgram, options := { allowsPlaceholders := true } }
    let entity := (m.inUse []).request (.entity ⟨1⟩ .plain)
    entity.1 = .ok "$q\x01\x00\x00\x00\x00" ∧
      ¬ (∀ e ∈ entity.2.ledger, e.referent.decl ≠ ⟨1⟩) ∧
      ((m.inUse []).request (.nominalType ⟨1⟩)).1 = .ok "$q1M1SV" := by
  decide +kernel

end Session

end NameMangling
