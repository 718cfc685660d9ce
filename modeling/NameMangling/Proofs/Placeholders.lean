/-
# Placeholders do not interfere

Productions and plans are the same whether placeholders are allowed or not, and whatever is
accepted as one.  The choice is made at each node, so nothing but the placeholders that are
written tells two such manglers apart: where none is written they give the same symbols, and
where some are they are accepted ones, of declarations that can be looked up by address.

Main definitions:
* `Mangler.placing`, a mangler with other settings for placeholders;
* `Progress.PlacesOnly`, the invariant that only accepted and eligible referents are placed;
* `Request.spellsOut`, the requests whose symbols never have placeholders.

Main fact: `placeholders_isolated`.
-/
import NameMangling.Proofs.Sessions

namespace NameMangling

/-! ## Grammars with and without placeholders -/

namespace Grammar

/-- The grammar with placeholders allowed or not. -/
def allowing (g : Grammar) (allows : Bool) : Grammar :=
  { g with options := { g.options with allowsPlaceholders := allows } }

variable (g : Grammar) (allows : Bool)

/-- The rows of parameters do not ask whether placeholders are allowed. -/
theorem parameterList_allowing (scope : Scope) (ps : List Parameter)
    (labels : List (Option Name)) :
    (g.allowing allows).parameterList scope ps labels = g.parameterList scope ps labels := by
  induction ps generalizing labels with
  | nil => rfl
  | cons p ps ih => exact congrArg _ (ih labels.tail)

/-- A function type is the same row of pieces, whether placeholders are allowed or not. -/
theorem function_allowing : (g.allowing allows).function = g.function := by
  funext scope t labels
  unfold function parameters
  simp only [parameterList_allowing]
  rfl

/-- The type of a declaration does not ask whether placeholders are allowed. -/
theorem declType_allowing : (g.allowing allows).declType = g.declType := by
  funext scope d
  unfold declType
  simp only [function_allowing]
  rfl

/-- An entity does not ask whether placeholders are allowed. -/
theorem entity_allowing : (g.allowing allows).entity = g.entity := by
  funext scope d
  unfold entity value constructor
  simp only [declType_allowing]
  rfl

/-- An accessor does not ask whether placeholders are allowed. -/
theorem accessor_allowing : (g.allowing allows).accessor = g.accessor := by
  funext scope storage kind
  unfold accessor
  simp only [declType_allowing]
  rfl

/-- A context does not ask whether placeholders are allowed. -/
theorem context_allowing : (g.allowing allows).context = g.context := by
  funext scope c
  unfold context declContext
  simp only [entity_allowing, accessor_allowing]
  rfl

/-- No production asks whether placeholders are allowed. -/
theorem production_allowing : (g.allowing allows).production = g.production := by
  funext scope p
  unfold production structural declBody
  simp only [function_allowing, entity_allowing, context_allowing]
  rfl

/-- No plan asks whether placeholders are allowed. -/
theorem plan_allowing : (g.allowing allows).plan = g.plan := by
  funext r
  unfold plan value constructor witnessTarget keyPathAccessor
  simp only [declType_allowing, entity_allowing, accessor_allowing, context_allowing]
  rfl

/-- With one way of writing nodes, a phrase is spelled alike by both grammars. -/
theorem spell_allowing (w : Spelling) (n : Nat) :
    (g.allowing allows).spell w n = g.spell w n := by
  induction n with
  | zero => rfl
  | succ n ih =>
    funext scope p
    rw [spell, spell, ih, production_allowing]

/-- With one way of writing nodes, a row of pieces is spelled alike by both grammars. -/
theorem spellPieces_allowing : (g.allowing allows).spellPieces = g.spellPieces := by
  funext w ps
  unfold spellPieces
  rw [spell_allowing]
  rfl

end Grammar

/-! ## What is placed -/

/-- What has been written when spelling ends, in one way or the other. -/
def Spelling.finalProgress : EStateM.Result Failure Progress Unit → Progress
  | .ok _ s | .error _ s => s

/-- All placeholders that have been written are for eligible referents that are to become
placeholders. -/
def Progress.PlacesOnly (g : Grammar) (w : Spelling) (s : Progress) : Prop :=
  ∀ r, .placeholder r ∈ s.tokens → w.placesReferent r = true ∧ r.Eligible g.program

namespace Progress.PlacesOnly

variable {g : Grammar} {w : Spelling} {s : Progress}

theorem empty : PlacesOnly g w {} := by simp [PlacesOnly]

/-- A token keeps the invariant if it is no placeholder, or one that may be placed. -/
theorem emit (hs : s.PlacesOnly g w) {t : Token}
    (ht : ∀ r, t = .placeholder r → w.placesReferent r = true ∧ r.Eligible g.program) :
    (s.emit t).PlacesOnly g w := by
  intro r hr
  rw [emit_tokens, Array.mem_push] at hr
  exact hr.elim (hs r) fun h => ht r h.symm

theorem complete (hs : s.PlacesOnly g w) (key : NodeKey) (start : Nat) :
    (s.complete key start).PlacesOnly g w := by
  rwa [PlacesOnly, complete_tokens]

end Progress.PlacesOnly

namespace Spelling

variable {g : Grammar} {w : Spelling} {unfold : Scope → Phrase → Speller Unit} {s : Progress}

/-- One piece, whether it is written or not, places no more than it may, if the phrases in it
do not. -/
theorem piece_placesOnly (hunfold : ∀ scope p s, s.PlacesOnly g w →
      (finalProgress (unfold scope p s)).PlacesOnly g w) {piece : Piece}
    (hpiece : piece.Alike g piece) (hs : s.PlacesOnly g w) :
    (finalProgress (w.piece unfold piece s)).PlacesOnly g w := by
  cases hpiece with
  | token direct =>
    refine hs.emit ?_
    rintro r rfl
    cases direct
  | phrase => exact hunfold _ _ s hs
  | fail => exact hs
  | @node scope _ key r eligible =>
    have hrun := Encoder.Implements.run_piece_node w unfold scope key r s
    change w.piece unfold (.node scope key r) s = _ at hrun
    rw [hrun]
    cases hshort : w.shorthand? s key r with
    | some t =>
      refine hs.emit ?_
      rintro r' rfl
      -- a placeholder is for a referent that is wanted and eligible; a reference is none
      rcases shorthand?_eq_some hshort with ⟨r'', hr, hplaces, heq⟩ | ⟨-, n, -, heq⟩
      · cases heq
        exact ⟨hplaces, eligible r' hr⟩
      · cases heq
    | none =>
      have hbody := hunfold scope (.body key) s hs
      dsimp only [EStateM.run]
      cases hspelled : unfold scope (.body key) s with
      | ok _ s₁ =>
        rw [hspelled] at hbody
        exact hbody.complete key _
      | error e s₁ =>
        rw [hspelled] at hbody
        exact hbody

/-- Some pieces in a row place no more than they may, however far they are written. -/
theorem pieces_placesOnly (hunfold : ∀ scope p s, s.PlacesOnly g w →
      (finalProgress (unfold scope p s)).PlacesOnly g w) {ps : List Piece}
    (hps : Alike g ps ps) (hs : s.PlacesOnly g w) :
    (finalProgress (w.pieces unfold ps s)).PlacesOnly g w := by
  induction ps generalizing s with
  | nil => exact hs
  | cons first rest ih =>
    cases hps with | cons hfirst hrest =>
    have hs₁ := piece_placesOnly hunfold hfirst hs
    rw [pieces]
    simp only [bind, EStateM.bind]
    cases hpiece : w.piece unfold first s with
    | ok _ s₁ =>
      rw [hpiece] at hs₁
      exact ih hrest hs₁
    | error e s₁ =>
      rw [hpiece] at hs₁
      exact hs₁

end Spelling

namespace Grammar

variable {g : Grammar} {w : Spelling}

/-- Spelling a phrase keeps the invariant, whether it ends well or not. -/
theorem spell_placesOnly (n : Nat) (scope : Scope) (p : Phrase) (s : Progress)
    (hs : s.PlacesOnly g w) :
    (Spelling.finalProgress (g.spell w n scope p s)).PlacesOnly g w := by
  induction n generalizing scope p s with
  | zero => exact hs
  | succ n ih => exact Spelling.pieces_placesOnly ih (alike_production_self p) hs

/-- Spelling from the beginning places eligible referents that are to become placeholders,
and no others. -/
theorem spellPieces_placesOnly {ps : List Piece} (hps : Alike g ps ps) :
    (Spelling.finalProgress (g.spellPieces w ps {})).PlacesOnly g w :=
  Spelling.pieces_placesOnly (spell_placesOnly _) hps .empty

end Grammar

/-- What the ledger has is a placeholder among the tokens. -/
theorem mem_of_mem_placements {ts : List Token} {offset : Nat} {e : Placement}
    (h : e ∈ placements offset ts) : .placeholder e.referent ∈ ts := by
  induction ts generalizing offset with
  | nil => cases h
  | cons t ts ih =>
    cases t with
    | placeholder r =>
      rcases List.mem_cons.mp h with rfl | h
      · exact List.mem_cons_self
      · exact List.mem_cons_of_mem _ (ih h)
    | _ => exact List.mem_cons_of_mem _ (ih h)

/-! ## Requests without placeholders -/

/-- The requests whose symbols never have placeholders: cross references, and the names that
the foreign runtime knows types by. -/
def Request.spellsOut : Request → Bool
  | .typeReference .. | .typeContextReference .. | .declReference .. | .accessorReference ..
  | .foreignRuntimeName _ => true
  | _ => false

/-- A plan that leaves no choice about placeholders: it forbids them, or copies a text. -/
def Plan.SpellsOut (plan : Plan) : Prop :=
  plan.allowsPlaceholders = false ∨ ∃ text, plan.pieces = [.token (.verbatim text)]

/-- The plan of such a request forbids placeholders, or copies a text. -/
theorem Grammar.spellsOut_plan {g : Grammar} {r : Request} {plan : Plan}
    (h : g.plan r = .ok plan) (hr : r.spellsOut = true) : plan.SpellsOut := by
  cases r <;> unfold Grammar.plan at h <;> dsimp only at h
  case typeReference => cases h; exact .inl rfl
  case typeContextReference => obtain ⟨-, -, h⟩ := bind_ok h; cases h; exact .inl rfl
  case declReference => cases h; exact .inl rfl
  case accessorReference => cases h; exact .inl rfl
  case foreignRuntimeName d =>
    obtain ⟨-, -, h⟩ := bind_ok h
    cases h
    unfold foreignRuntimePlan
    dsimp only
    split
    · exact .inr ⟨_, rfl⟩
    · exact .inl rfl
  all_goals cases hr

/-! ## Manglers with other settings -/

namespace Mangler

variable {m : Mangler}

/-- The mangler with placeholders allowed or not, and with other referents accepted. -/
def placing (m : Mangler) (allows : Bool) (accepts : Referent → Bool) : Mangler :=
  { m with options := { m.options with allowsPlaceholders := allows }, accepts }

/-- The ledger of a plan has eligible referents that are to become placeholders. -/
theorem of_mem_carryOut {r : Request} {plan : Plan} (h : m.plan r = .ok plan) {e : Placement}
    (he : e ∈ (m.carryOut plan).2) :
    m.placesReferent plan e.referent = true ∧ e.referent.Eligible m.program := by
  have hplaced : (Spelling.finalProgress (m.write plan)).PlacesOnly (m.grammar plan.keepsSugar)
      { placesReferent := m.placesReferent plan } :=
    Grammar.spellPieces_placesOnly (Mangler.alike_plan h _)
  refine hplaced e.referent ?_
  unfold carryOut at he
  cases hwrite : m.write plan with
  | ok _ s =>
    rw [hwrite] at he
    exact Array.mem_toList_iff.mp (mem_of_mem_placements he)
  | error _ s =>
    rw [hwrite] at he
    exact Array.mem_toList_iff.mp (mem_of_mem_placements he)

/-- Where no referent is to become a placeholder the ledger stays empty. -/
theorem carryOut_eq_nil {r : Request} {plan : Plan} (h : m.plan r = .ok plan)
    (hplaces : ∀ x, m.placesReferent plan x = false) : (m.carryOut plan).2 = [] := by
  refine List.eq_nil_iff_forall_not_mem.mpr fun e he => ?_
  have hplaced := (of_mem_carryOut h he).1
  rw [hplaces] at hplaced
  cases hplaced

variable {allows allows' : Bool} {accepts accepts' : Referent → Bool}

/-- The plan of a request does not depend on the settings for placeholders. -/
theorem plan_placing (r : Request) : (m.placing allows accepts).plan r = m.plan r := by
  have h : ((m.grammar false).allowing allows).plan = (m.grammar false).plan :=
    Grammar.plan_allowing _ _
  exact congrFun h r

/-- What a mangler with other settings writes depends on which referents it places only. -/
theorem write_placing (plan : Plan) : (m.placing allows accepts).write plan =
    (m.grammar plan.keepsSugar).spellPieces
      { placesReferent := (m.placing allows accepts).placesReferent plan } plan.pieces {} := by
  have h : ((m.grammar plan.keepsSugar).allowing allows).spellPieces =
      (m.grammar plan.keepsSugar).spellPieces := Grammar.spellPieces_allowing _ _
  rw [← h]
  rfl

/-- Settings that place the same referents of a plan carry it out alike. -/
theorem carryOut_placing_eq {plan : Plan}
    (h : (m.placing allows accepts).placesReferent plan =
      (m.placing allows' accepts').placesReferent plan) :
    (m.placing allows accepts).carryOut plan = (m.placing allows' accepts').carryOut plan := by
  unfold carryOut
  rw [write_placing, write_placing, h]

/-- A plan that copies a text is carried out without placeholders. -/
theorem carryOut_of_verbatim {plan : Plan} {text : String}
    (h : plan.pieces = [.token (.verbatim text)]) :
    m.carryOut plan = (.ok (symbol plan.lead [.verbatim text]), []) := by
  have hwrite : m.write plan = .ok () (Progress.emit {} (.verbatim text)) := by
    unfold write
    rw [h]
    rfl
  unfold carryOut
  rw [hwrite]
  rfl

theorem placesReferent_of_forbids {plan : Plan} (h : plan.allowsPlaceholders = false)
    (x : Referent) : m.placesReferent plan x = false := by
  simp [placesReferent, h]

/-- A plan that leaves no choice is carried out alike with all settings. -/
theorem carryOut_placing_of_spellsOut {plan : Plan} (h : plan.SpellsOut) :
    (m.placing allows accepts).carryOut plan = (m.placing allows' accepts').carryOut plan := by
  rcases h with hforbids | ⟨text, hpieces⟩
  · refine carryOut_placing_eq ?_
    funext x
    rw [placesReferent_of_forbids hforbids, placesReferent_of_forbids hforbids]
  · rw [carryOut_of_verbatim hpieces, carryOut_of_verbatim hpieces]

/-- The ledger of a plan that leaves no choice is empty. -/
theorem ledger_of_spellsOut {r : Request} {plan : Plan} (h : m.plan r = .ok plan)
    (hplan : plan.SpellsOut) : (m.carryOut plan).2 = [] := by
  rcases hplan with hforbids | ⟨text, hpieces⟩
  · exact carryOut_eq_nil h (placesReferent_of_forbids hforbids)
  · rw [carryOut_of_verbatim hpieces]

/-- Settings that carry out the plan of a request alike name it alike. -/
theorem mangle_placing_eq {r : Request} (h : ∀ plan, m.plan r = .ok plan →
      (m.placing allows accepts).carryOut plan = (m.placing allows' accepts').carryOut plan) :
    (m.placing allows accepts).mangle r = (m.placing allows' accepts').mangle r := by
  unfold mangle answer
  rw [plan_placing, plan_placing]
  cases hplan : m.plan r with
  | error e => rfl
  | ok plan => exact congrArg Prod.fst (h plan hplan)

/-- Accepting nothing comes to the same as not allowing placeholders. -/
theorem mangle_placing_none (r : Request) :
    (m.placing true fun _ => false).mangle r = (m.placing false accepts).mangle r := by
  refine mangle_placing_eq fun plan _ => carryOut_placing_eq ?_
  funext x
  simp [placesReferent, placing]

/-- The settings do not matter to a request that is answered without placeholders. -/
theorem mangle_placing_of_spellsOut {r : Request} (hr : r.spellsOut = true) :
    (m.placing allows accepts).mangle r = m.mangle r := by
  show _ = (m.placing m.options.allowsPlaceholders m.accepts).mangle r
  exact mangle_placing_eq fun _ hplan =>
    carryOut_placing_of_spellsOut (Grammar.spellsOut_plan hplan hr)

/-- A mangler in use: a session after some requests. -/
def inUse (m : Mangler) (history : List Request) : Session :=
  let fresh : Session := { mangler := m, nodes := ⟨[], List.nodup_nil⟩ }
  fresh.afterAll history

theorem mangler_inUse (history : List Request) : (m.inUse history).mangler = m :=
  (Session.afterAll_keeps _ history).1

end Mangler

/-! ## Sessions -/

namespace Session

variable {s : Session} {r : Request}

/-- A request that is begun has a plan, and the ledger it leaves is that of the plan. -/
theorem exists_plan (h : (s.command r).isOk = true) : ∃ plan,
    s.mangler.plan r = .ok plan ∧ (s.request r).2.ledger = (s.mangler.carryOut plan).2 := by
  cases hcommand : s.command r with
  | error e =>
    rw [hcommand] at h
    cases h
  | ok c =>
    obtain ⟨plan, hplan, -⟩ := s.body_endAlike_write hcommand
    have hledger : (s.request r).2.ledger = (s.mangler.answer s.ledger r).2 :=
      congrArg Prod.snd (s.request_eq_answer r)
    refine ⟨plan, hplan, ?_⟩
    rw [hledger, Mangler.answer, hplan]

/-- Where nothing is accepted a request leaves an empty ledger empty. -/
theorem ledger_request_eq_nil (hnone : ∀ plan x, s.mangler.placesReferent plan x = false)
    (hs : s.ledger = []) : (s.request r).2.ledger = [] := by
  cases hcommand : s.command r with
  | error e =>
    unfold request
    rw [hcommand]
    exact hs
  | ok c =>
    obtain ⟨plan, hplan, hledger⟩ := exists_plan (s := s) (r := r) (by rw [hcommand]; rfl)
    rw [hledger]
    exact Mangler.carryOut_eq_nil hplan (hnone plan)

/-- Where nothing is placed the ledger stays empty through any history. -/
theorem ledger_afterAll_eq_nil (hnone : ∀ plan x, s.mangler.placesReferent plan x = false)
    (hs : s.ledger = []) (history : List Request) : (s.afterAll history).ledger = [] := by
  induction history generalizing s with
  | nil => exact hs
  | cons r history ih =>
    refine ih ?_ (ledger_request_eq_nil hnone hs)
    rw [(s.request_keeps r).1]
    exact hnone

/-- Placeholders do not interfere where they are off or rejected.  Where every referent is
rejected, symbols are those of a mangler that allows no placeholders, and the ledger is empty.
Cross references and foreign runtime names do not depend on what is allowed and accepted, and
leave an empty ledger once they are begun.  After any request that is begun, the ledger has
accepted referents only, each a struct, an enum, a class, a protocol or an opaque type. -/
theorem placeholders_isolated (m : Mangler) (history : List Request) (r : Request) :
    (∀ accepts history',
      let rejecting := ((m.placing true fun _ => false).inUse history).request r
      let off := ((m.placing false accepts).inUse history').request r
      rejecting.1 = off.1 ∧ rejecting.2.ledger = []) ∧
    (r.spellsOut = true → ∀ allows accepts history',
      let s := (m.placing allows accepts).inUse history'
      (s.request r).1 = ((m.inUse history).request r).1 ∧
        ((s.command r).isOk = true → (s.request r).2.ledger = [])) ∧
    (((m.inUse history).command r).isOk = true →
      ∀ e ∈ ((m.inUse history).request r).2.ledger,
        m.accepts e.referent = true ∧ e.referent.Eligible m.program) := by
  refine ⟨?_, ?_, ?_⟩
  · intro accepts history' rejecting off
    -- what rejects every referent places none, as if placeholders were off
    have hnone (plan : Plan) (x : Referent) :
        (m.placing true fun _ => false).placesReferent plan x = false := by
      simp [Mangler.placesReferent, Mangler.placing]
    constructor
    · rw [request_eq_mangle, request_eq_mangle, Mangler.mangler_inUse, Mangler.mangler_inUse]
      exact Mangler.mangle_placing_none r
    · refine ledger_request_eq_nil ?_ (ledger_afterAll_eq_nil hnone rfl history)
      rw [Mangler.mangler_inUse]
      exact hnone
  · intro hr allows accepts history' s
    constructor
    · rw [request_eq_mangle, request_eq_mangle, Mangler.mangler_inUse, Mangler.mangler_inUse]
      exact Mangler.mangle_placing_of_spellsOut hr
    · intro hbegun
      obtain ⟨plan, hplan, hledger⟩ := exists_plan hbegun
      rw [hledger]
      exact Mangler.ledger_of_spellsOut hplan (Grammar.spellsOut_plan hplan hr)
  · intro hbegun e he
    obtain ⟨plan, hplan, hledger⟩ := exists_plan hbegun
    rw [hledger] at he
    have hplaced := Mangler.of_mem_carryOut hplan he
    rw [Mangler.mangler_inUse] at hplaced
    simp only [Mangler.placesReferent, Bool.and_eq_true] at hplaced
    exact ⟨hplaced.1.2, hplaced.2⟩

/-- A module `M` with a struct `S`, a class `C` and a property of type `(C, S, S)`. -/
def mixedProgram : Program :=
  let p := Program.empty
  let (module, p) := p.addNamed .nativeModule "M" none
  let (struct, p) := p.addNamed .structType "S" (some (.decl module))
  let (reference, p) := p.addNamed .classType "C" (some (.decl module))
  let (value, p) := p.addType (.nominal struct none)
  let (object, p) := p.addType (.nominal reference none)
  let (triple, p) := p.addType (.tuple [⟨none, object⟩, ⟨none, value⟩, ⟨none, value⟩])
  let (property, p) := p.addNamed .property "p" (some (.decl module))
  p.updateDecl property fun d => { d with interfaceType := some triple }

/-- Where only the class is accepted the struct is spelled out, and numbered as if there were
no class; a cross reference to the property spells out both. -/
theorem placeholders_isolated_mixed :
    let m : Mangler :=
      { program := mixedProgram
        options := { allowsPlaceholders := true }
        accepts := fun x => x == .nominal ⟨2⟩ }
    let entity : Request := .entity ⟨3⟩ .plain
    let reference : Request := .declReference ⟨3⟩ "c:"
    ((m.inUse [reference]).command entity).isOk = true ∧
      ((m.inUse [reference]).request entity).1 =
        .ok "$q1M1p\x01\x00\x00\x00\x00_Aa1SVAbtvp" ∧
      ((m.inUse [reference]).request entity).2.ledger = [⟨.nominal ⟨2⟩, 6⟩] ∧
      (∀ e ∈ ((m.inUse [reference]).request entity).2.ledger,
        m.accepts e.referent = true ∧ e.referent.Eligible m.program) ∧
      (((m.placing true fun _ => false).inUse [reference]).request entity).1 =
        (((m.placing false m.accepts).inUse []).request entity).1 ∧
      reference.spellsOut = true ∧
      (((m.placing true m.accepts).inUse [entity]).command reference).isOk = true ∧
      (((m.placing true m.accepts).inUse [entity]).request reference).1 =
        .ok "c:1M1pAa1CC_Aa1SVActvp" ∧
      (((m.placing true m.accepts).inUse [entity]).request reference).2.ledger = [] := by
  intro m entity reference
  have hentity : ((m.inUse [reference]).command entity).isOk = true := by decide +kernel
  have hreference :
      (((m.placing true m.accepts).inUse [entity]).command reference).isOk = true := by
    decide +kernel
  obtain ⟨hrejecting, -, haccepted⟩ := placeholders_isolated m [reference] entity
  obtain ⟨-, hspelled, -⟩ := placeholders_isolated m [] reference
  have hreferred := hspelled rfl true m.accepts [entity]
  refine ⟨hentity, ?_, ?_, haccepted hentity, (hrejecting m.accepts []).1, rfl, hreference, ?_,
    hreferred.2 hreference⟩
  all_goals decide +kernel

end Session

end NameMangling
