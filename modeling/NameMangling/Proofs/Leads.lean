/-
# Leads

The text that a symbol starts with is put in front of its body and is never read: no
production looks at what has been written before it, and only the ledger measures it.  A
cross reference and the symbol for linking are therefore one body after two leads, where
placeholders are off, and the full symbol of a nominal type is its local name behind the
global lead, with every placeholder as much later as that lead is long.

Main definitions:
* `Mangler.body`, what is written behind the lead of a plan;
* `Answer.SameBody`, the relation of two answers that differ in their leads only.

Main fact: `Session.bodies_independent_of_leads`.
-/
import NameMangling.Proofs.Placeholders

namespace NameMangling

/-! ## Answers with two leads -/

/-- Two answers have one body behind two leads, or they are the same failure. -/
structure Answer.SameBody (lead lead' : String) (a a' : Answer) : Prop where
  ok_iff : ∀ body, a = .ok (lead ++ body) ↔ a' = .ok (lead' ++ body)
  error_iff : ∀ e, a = .error e ↔ a' = .error e
  starts : ∀ text, a = .ok text → ∃ body, text = lead ++ body

/-- One body behind two leads, whether it is an answer or a refusal. -/
theorem Answer.SameBody.of_map {lead lead' : String} (body : Answer) :
    SameBody lead lead' (body.map (lead ++ ·)) (body.map (lead' ++ ·)) := by
  cases body with
  | error e => exact ⟨fun _ => by simp [Except.map], fun _ => Iff.rfl, fun _ h => by cases h⟩
  | ok text =>
    refine ⟨fun body => ?_, fun e => by simp [Except.map], fun t h => ⟨text, ?_⟩⟩
    · simp only [Except.map, Except.ok.injEq]
      rw [String.append_right_inj, String.append_right_inj]
    · cases h
      rfl

/-! ## Placements behind a longer text -/

/-- A placement that stands some bytes later. -/
def Placement.later (bytes : Nat) (e : Placement) : Placement :=
  { e with offset := e.offset + bytes }

/-- Tokens that start later have their placeholders as much later. -/
theorem placements_later (bytes offset : Nat) (ts : List Token) :
    placements (offset + bytes) ts = (placements offset ts).map (Placement.later bytes) := by
  induction ts generalizing offset with
  | nil => rfl
  | cons t ts ih =>
    have hrest : placements (offset + bytes + t.width) ts =
        (placements (offset + t.width) ts).map (Placement.later bytes) := by
      rw [show offset + bytes + t.width = offset + t.width + bytes from by omega, ih]
    cases t with
    | placeholder r => exact congrArg (_ :: ·) hrest
    | _ => exact hrest

namespace Mangler

variable {m : Mangler}

/-! ## The body of a plan -/

variable (m) in
/-- What a plan has behind its lead, or why it has nothing. -/
def body (plan : Plan) : Answer :=
  match m.write plan with
  | .ok _ s => .ok (String.ofList (spellAll s.tokens.toList))
  | .error e _ => .error e

/-- The answer to a plan is its body behind the lead. -/
theorem carryOut_fst (plan : Plan) :
    (m.carryOut plan).1 = (m.body plan).map (plan.lead ++ ·) := by
  unfold carryOut body
  cases m.write plan <;> rfl

/-- Plans that are written alike, from other places on, have the same placeholders there. -/
theorem carryOut_snd_later {plan plan' : Plan} (hwrite : m.write plan = m.write plan')
    {bytes : Nat} (hlead : plan.lead.utf8ByteSize = plan'.lead.utf8ByteSize + bytes) :
    (m.carryOut plan).2 = (m.carryOut plan').2.map (Placement.later bytes) := by
  unfold carryOut
  rw [hwrite, hlead]
  cases m.write plan' <;> exact placements_later _ _ _

/-- How a plan is written depends on its pieces, its mode and what it places. -/
theorem write_congr {plan plan' : Plan} (hpieces : plan.pieces = plan'.pieces)
    (hmode : plan.keepsSugar = plan'.keepsSugar)
    (hplaces : m.placesReferent plan = m.placesReferent plan') :
    m.write plan = m.write plan' := by
  unfold write
  rw [hpieces, hmode, hplaces]

/-- Where placeholders are off no plan places any. -/
theorem placesReferent_of_off (hoff : m.options.allowsPlaceholders = false) (plan : Plan) :
    m.placesReferent plan = fun _ => false := by
  funext r
  simp [placesReferent, hoff]

/-- The answer to a request is that to its plan. -/
theorem mangle_of_plan {r : Request} {plan : Plan} (h : m.plan r = .ok plan) :
    m.mangle r = (m.carryOut plan).1 := by
  unfold mangle answer
  rw [h]

/-- Requests whose plans are written alike have the same body behind their leads. -/
theorem sameBody_of_plan {r r' : Request} {plan plan' : Plan} (h : m.plan r = .ok plan)
    (h' : m.plan r' = .ok plan') (hwrite : m.write plan = m.write plan') :
    Answer.SameBody plan.lead plan'.lead (m.mangle r) (m.mangle r') := by
  have hbody : m.body plan = m.body plan' := by
    unfold body
    rw [hwrite]
  rw [mangle_of_plan h, mangle_of_plan h', carryOut_fst, carryOut_fst, hbody]
  exact .of_map _

/-- Where placeholders are off, plans with the same pieces have the same body. -/
theorem sameBody_of_pieces (hoff : m.options.allowsPlaceholders = false) (r r' : Request)
    {plan plan' : Plan} (h : m.plan r = .ok plan) (h' : m.plan r' = .ok plan')
    (hpieces : plan.pieces = plan'.pieces) (hmode : plan.keepsSugar = plan'.keepsSugar) :
    Answer.SameBody plan.lead plan'.lead (m.mangle r) (m.mangle r') := by
  apply sameBody_of_plan h h'
  apply write_congr hpieces hmode
  rw [placesReferent_of_off hoff, placesReferent_of_off hoff]

/-! ## Nominal types -/

variable (m) in
/-- The plan for a nominal type, behind the global lead or without one. -/
def nominalPlan (lead : String) (d : DeclId) : Plan :=
  { lead, subject := some d, pieces := (m.grammar false).nominal Grammar.outermost d }

/-- The two names of a nominal type are written by one plan with two leads, and both are
refused for any other declaration. -/
theorem plan_nominal_cases (d : DeclId) :
    (m.program.kindOf d).isNominal = true ∧ m.plan (.nominalType d) = .ok (m.nominalPlan "$q" d) ∧
        m.plan (.localTypeDecl d) = .ok (m.nominalPlan "" d) ∨
      (m.program.kindOf d).isNominal = false ∧
        m.plan (.nominalType d) = .error (.unexpectedEntity d .aNominal) ∧
        m.plan (.localTypeDecl d) = .error (.unexpectedEntity d .aNominal) := by
  have hexpect : (m.grammar false).expectNominal d =
      if (m.program.kindOf d).isNominal then .ok ()
        else .error (.unexpectedEntity d .aNominal) := rfl
  have hglobal : m.plan (.nominalType d) =
      (m.grammar false).expectNominal d >>= fun _ => .ok (m.nominalPlan "$q" d) := rfl
  have hlocal : m.plan (.localTypeDecl d) =
      (m.grammar false).expectNominal d >>= fun _ => .ok (m.nominalPlan "" d) := rfl
  rw [hglobal, hlocal, hexpect]
  by_cases hkind : (m.program.kindOf d).isNominal = true
  · left
    rw [if_pos hkind]
    exact ⟨hkind, rfl, rfl⟩
  · right
    rw [if_neg hkind]
    exact ⟨by simpa using hkind, rfl, rfl⟩

theorem write_nominalPlan (lead lead' : String) (d : DeclId) :
    m.write (m.nominalPlan lead d) = m.write (m.nominalPlan lead' d) := rfl

end Mangler

namespace Session

variable {s : Session} {r : Request}

/-- A request without a plan leaves the session as it is. -/
theorem request_of_plan_error {e : Refusal} (h : s.mangler.plan r = .error e) :
    (s.request r).2 = s := by
  unfold request
  cases hcommand : s.command r with
  | error e => rfl
  | ok c =>
    obtain ⟨plan, hplan, -⟩ := s.body_endAlike_write hcommand
    rw [h] at hplan
    cases hplan

/-- A request with a plan leaves the ledger of that plan. -/
theorem ledger_of_plan {plan : Plan} (h : s.mangler.plan r = .ok plan) :
    (s.request r).2.ledger = (s.mangler.carryOut plan).2 := by
  have hledger : (s.request r).2.ledger = (s.mangler.answer s.ledger r).2 :=
    congrArg Prod.snd (s.request_eq_answer r)
  rw [hledger, Mangler.answer, h]

/-- The body of a symbol does not depend on its lead, whatever was asked before.  Where
placeholders are off, a cross reference to a declaration, an accessor or a type has the body
of the symbol of that entity or of the name of that type behind the lead it is given, or
fails as that does.  Whether placeholders are on or off, the symbol of a nominal type is its
local name behind the global lead; every placeholder then stands two bytes later, and for
any other declaration both requests are refused and leave the sessions as they are. -/
theorem bodies_independent_of_leads (m : Mangler) (history history' : List Request) :
    let s := m.inUse history
    let s' := m.inUse history'
    (m.options.allowsPlaceholders = false →
      (∀ d lead, Answer.SameBody lead "$q"
        (s.request (.declReference d lead)).1 (s'.request (.entity d .plain)).1) ∧
      (∀ storage kind lead, Answer.SameBody lead "$q"
        (s.request (.accessorReference storage kind lead)).1
        (s'.request (.accessor storage kind .plain)).1) ∧
      (∀ t lead, Answer.SameBody lead ""
        (s.request (.typeReference t lead)).1 (s'.request (.typeForTypeName t)).1)) ∧
    ∀ d, Answer.SameBody "$q" ""
        (s.request (.nominalType d)).1 (s'.request (.localTypeDecl d)).1 ∧
      if (m.program.kindOf d).isNominal then
        (s.request (.nominalType d)).2.ledger =
          (s'.request (.localTypeDecl d)).2.ledger.map (Placement.later 2)
      else
        (s.request (.nominalType d)).2 = s ∧ (s'.request (.localTypeDecl d)).2 = s' := by
  intro s s'
  have hs : s.mangler = m := Mangler.mangler_inUse history
  have hs' : s'.mangler = m := Mangler.mangler_inUse history'
  constructor
  · intro hoff
    simp only [request_eq_mangle, hs, hs']
    -- without placeholders the pieces alone decide, and they are the same
    refine ⟨fun d lead => ?_, fun storage kind lead => ?_, fun t lead => ?_⟩
    · exact Mangler.sameBody_of_pieces hoff (.declReference d lead) (.entity d .plain)
        rfl rfl rfl rfl
    · exact Mangler.sameBody_of_pieces hoff (.accessorReference storage kind lead)
        (.accessor storage kind .plain) rfl rfl rfl rfl
    · exact Mangler.sameBody_of_pieces hoff (.typeReference t lead) (.typeForTypeName t)
        rfl rfl rfl rfl
  · intro d
    rw [request_eq_mangle, request_eq_mangle, hs, hs']
    rcases m.plan_nominal_cases d with ⟨hkind, hglobal, hlocal⟩ | ⟨hkind, hglobal, hlocal⟩
    · refine ⟨Mangler.sameBody_of_plan hglobal hlocal (Mangler.write_nominalPlan _ _ d), ?_⟩
      rw [if_pos hkind, ledger_of_plan (hs.symm ▸ hglobal), ledger_of_plan (hs'.symm ▸ hlocal),
        hs, hs']
      -- the two plans differ in the lead only, which is two bytes long for the one
      have hlead : "$q".utf8ByteSize = "".utf8ByteSize + 2 := by decide
      exact Mangler.carryOut_snd_later (Mangler.write_nominalPlan _ _ d) hlead
    · have hrefused : Answer.SameBody "$q" "" (m.mangle (.nominalType d))
          (m.mangle (.localTypeDecl d)) := by
        unfold Mangler.mangle Mangler.answer
        rw [hglobal, hlocal]
        exact .of_map (.error (.refused (.unexpectedEntity d .aNominal)))
      refine ⟨hrefused, ?_⟩
      rw [if_neg (by simp [hkind])]
      exact ⟨request_of_plan_error (hs.symm ▸ hglobal), request_of_plan_error (hs'.symm ▸ hlocal)⟩

/-- The program with a property of type `(C, S, S)` and an enum `E` inside the struct `S`. -/
def nestedProgram : Program := (mixedProgram.addNamed .enumType "E" (some (.decl ⟨1⟩))).2

/-- Without placeholders the property has one body behind both leads.  With them the symbol of
the enum and its local name both leave a place for the struct, and the lead of the symbol moves
that place from the start to the third byte. -/
theorem bodies_independent_of_leads_mixed :
    let m : Mangler := { program := nestedProgram }
    let s := m.inUse [.nominalType ⟨1⟩]
    let placing := (m.placing true fun _ => true).inUse [.typeForTypeName ⟨14⟩]
    m.options.allowsPlaceholders = false ∧
      (s.request (.declReference ⟨3⟩ "c:")).1 = .ok ("c:" ++ "1M1pAa1CC_Aa1SVActvp") ∧
      ((m.inUse []).request (.entity ⟨3⟩ .plain)).1 = .ok ("$q" ++ "1M1pAa1CC_Aa1SVActvp") ∧
      Answer.SameBody "c:" "$q" (s.request (.declReference ⟨3⟩ "c:")).1
        ((m.inUse []).request (.entity ⟨3⟩ .plain)).1 ∧
      (m.program.kindOf ⟨4⟩).isNominal = true ∧
      (placing.request (.nominalType ⟨4⟩)).1 = .ok ("$q" ++ "\x01\x00\x00\x00\x001EO") ∧
      (placing.request (.localTypeDecl ⟨4⟩)).1 = .ok "\x01\x00\x00\x00\x001EO" ∧
      (placing.request (.nominalType ⟨4⟩)).2.ledger = [⟨.nominal ⟨1⟩, 2⟩] ∧
      (placing.request (.localTypeDecl ⟨4⟩)).2.ledger = [⟨.nominal ⟨1⟩, 0⟩] ∧
      (placing.request (.nominalType ⟨4⟩)).2.ledger =
        (placing.request (.localTypeDecl ⟨4⟩)).2.ledger.map (Placement.later 2) := by
  intro m s placing
  have hoff : m.options.allowsPlaceholders = false := rfl
  have hnominal : (m.program.kindOf ⟨4⟩).isNominal = true := by decide +kernel
  have hlater := ((bodies_independent_of_leads (m.placing true fun _ => true)
    [.typeForTypeName ⟨14⟩] [.typeForTypeName ⟨14⟩]).2 ⟨4⟩).2
  refine ⟨hoff, ?_, ?_, ((bodies_independent_of_leads m [.nominalType ⟨1⟩] []).1 hoff).1 ⟨3⟩ "c:",
    hnominal, ?_, ?_, ?_, ?_, (if_pos hnominal).mp hlater⟩
  all_goals decide +kernel

end Session

end NameMangling
