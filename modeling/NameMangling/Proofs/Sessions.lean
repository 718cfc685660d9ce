/-
# Sessions answer as the mangler does

A session writes text, numbers nodes, and opens and closes scopes.  All of this comes to
what the grammar says: a request is answered by a session exactly as `Mangler.answer` has
it, and nothing that an earlier request has left shows.

Main definition: `Session.requestWithin`, the answer to a request with a bound of one's own on
the nesting of phrases.

Main facts:
* `request_eq_answer`: the answer and the ledger are those of the grammar;
* `request_independent`: after any history a session answers as a fresh one.
-/
import NameMangling.Proofs.Commands

namespace NameMangling

/-- Write the pieces of a plan with at most `n` nested phrases. -/
def Mangler.writeWithin (m : Mangler) (n : Nat) (plan : Plan) :
    EStateM.Result Failure Progress Unit :=
  let w : Spelling := { placesReferent := m.placesReferent plan }
  w.pieces ((m.grammar plan.keepsSugar).spell w n) plan.pieces {}

namespace Session

variable (s : Session)

/-! ## One request -/

/-- The command for a request in which at most `n` phrases may be nested. -/
def commandWithin (n : Nat) (r : Request) : Except Refusal Command :=
  s.mangler.command (Encoder.encode n) r

/-- Answer a request with at most `n` nested phrases. -/
def requestWithin (n : Nat) (r : Request) : Answer × Session :=
  match s.commandWithin n r with
  | .error e => (.error (.refused e), s)
  | .ok c => s.perform c

/-- A session that begins a command follows the grammar of the plan, in no scope. -/
theorem start_follows {c : Command} {p : Plan} {copies : Prop} {w : Spelling} {depth : Nat}
    (h : c.Carries copies s.mangler w depth p) :
    (s.start c).Follows (s.mangler.grammar p.keepsSugar)
      { placesReferent := s.mangler.placesReferent p } {} where
  grammar := by
    rw [← h.keepsSugar]
    rfl
  spelling := by
    have hplaces : (s.start c).spelling.placesReferent = s.mangler.placesReferent p := by
      funext r
      simp only [spelling, spellsOut, start, begin, Mangler.placesReferent,
        h.allowsPlaceholders, h.subject, Bool.not_or, Bool.not_not, bne]
    exact congrArg (fun places => ({ placesReferent := places } : Spelling)) hplaces
  scope := rfl

/-- A session that has just begun mirrors that nothing has been written. -/
theorem start_mirrors (c : Command) : (s.start c).Mirrors (s.start c) {} where
  wrote := .nil _
  number? _ := rfl
  size := rfl

/-- Commands and plans correspond: both are refused alike, or the one carries out the other. -/
theorem commandWithin_corresponds (n : Nat) (w : Spelling) (r : Request) :
    Corresponds (r.copiesText s.mangler.program = true) s.mangler w n (s.commandWithin n r)
      (s.mangler.plan r) :=
  Mangler.command_corresponds (fun _ => Encoder.encode_unfolds _ _ w _) r id

/-- A request that a session refuses has no plan. -/
theorem plan_of_command_error {r : Request} {e : Refusal} {n : Nat}
    (h : s.commandWithin n r = .error e) : s.mangler.plan r = .error e := by
  have hcorresponds := s.commandWithin_corresponds n {} r
  rw [h] at hcorresponds
  generalize s.mangler.plan r = plan at hcorresponds
  cases hcorresponds
  rfl

/-- A request that a session begins has a plan, and its body ends as the spelling of that. -/
theorem body_endAlike {r : Request} {c : Command} {n : Nat} (h : s.commandWithin n r = .ok c) :
    ∃ plan, s.mangler.plan r = .ok plan ∧ c.lead = plan.lead ∧
      Encoder.EndAlike (r.copiesText s.mangler.program = true) (s.start c) (s.start c) ()
        (c.body.run (s.start c)) (s.mangler.writeWithin n plan) := by
  cases hplan : s.mangler.plan r with
  | error e =>
    have hcorresponds := s.commandWithin_corresponds n {} r
    rw [h, hplan] at hcorresponds
    nomatch hcorresponds
  | ok plan =>
    have hcorresponds := s.commandWithin_corresponds n
      { placesReferent := s.mangler.placesReferent plan } r
    rw [h, hplan] at hcorresponds
    cases hcorresponds with
    | taken hcarries =>
      exact ⟨plan, rfl, hcarries.lead,
        hcarries.body (s.start_follows hcarries) (s.start_mirrors c)⟩

/-- A request that a session begins with the bound of the program has a plan, and its body ends
as the writing of that. -/
theorem body_endAlike_write {r : Request} {c : Command} (h : s.command r = .ok c) :
    ∃ plan, s.mangler.plan r = .ok plan ∧ c.lead = plan.lead ∧
      Encoder.EndAlike (r.copiesText s.mangler.program = true) (s.start c) (s.start c) ()
        (c.body.run (s.start c)) (s.mangler.write plan) :=
  s.body_endAlike h

/-- A session answers a request, and remembers placeholders, as the grammar says. -/
theorem request_eq_answer (r : Request) :
    ((s.request r).1, (s.request r).2.ledger) = s.mangler.answer s.ledger r := by
  unfold request Mangler.answer
  cases hcommand : s.command r with
  | error e => rw [s.plan_of_command_error (n := (s.mangler.grammar false).depthBound) hcommand]
  | ok c =>
    obtain ⟨plan, hplan, hlead, hends⟩ := s.body_endAlike_write hcommand
    rw [hplan]
    dsimp only
    unfold perform Mangler.carryOut
    generalize c.body.run (s.start c) = result, s.mangler.write plan = result' at hends
    cases hends with
    | ok hframe hmirrors =>
      simp only [hmirrors.wrote.text, hmirrors.wrote.ledger, ← hlead]
      rfl
    | error e hframe hmirrors =>
      simp only [hmirrors.wrote.ledger, ← hlead]
      rfl

/-- The symbol a session answers with is that of the grammar. -/
theorem request_eq_mangle (r : Request) : (s.request r).1 = s.mangler.mangle r := by
  have h := congrArg Prod.fst (s.request_eq_answer r)
  rw [Mangler.mangle]
  refine h.trans ?_
  unfold Mangler.answer
  cases s.mangler.plan r <;> rfl

/-! ## Many requests -/

/-- The session after some requests, answered with a symbol or not. -/
def afterAll (s : Session) (history : List Request) : Session :=
  history.foldl (fun s r => (s.request r).2) s

/-- What a request leaves is a mangler in use as before, whose numbers are dense. -/
theorem request_keeps (r : Request) : (s.request r).2.mangler = s.mangler ∧
    (s.nodes.Dense → (s.request r).2.nodes.Dense) := by
  unfold request
  cases hcommand : s.command r with
  | error e => exact ⟨rfl, id⟩
  | ok c =>
    obtain ⟨plan, -, -, hends⟩ := s.body_endAlike_write hcommand
    dsimp only
    unfold perform
    generalize c.body.run (s.start c) = result, s.mangler.write plan = result' at hends
    cases hends with
    | ok hframe => exact ⟨hframe.mangler, fun _ => hframe.dense NodeTable.dense_empty⟩
    | error e hframe => exact ⟨hframe.mangler, fun _ => hframe.dense NodeTable.dense_empty⟩

/-- Sessions keep their mangler and number nodes without gaps through any history. -/
theorem afterAll_keeps (history : List Request) : (s.afterAll history).mangler = s.mangler ∧
    (s.nodes.Dense → (s.afterAll history).nodes.Dense) := by
  induction history generalizing s with
  | nil => exact ⟨rfl, id⟩
  | cons r history ih =>
    obtain ⟨hmangler, hdense⟩ := s.request_keeps r
    obtain ⟨hmangler', hdense'⟩ := ih (s.request r).2
    exact ⟨hmangler'.trans hmangler, fun h => hdense' (hdense h)⟩

variable {s} in
/-- What begins depends on the mangler alone. -/
theorem start_eq_of_mangler_eq {t : Session} (h : s.mangler = t.mangler) (c : Command) :
    s.start c = t.start c := by
  simp only [start, begin, h]

/-- Sessions of one mangler answer a request alike: each refuses it and stays as it is, or
all are the same afterwards. -/
theorem request_of_mangler_eq {s t : Session} (h : s.mangler = t.mangler) (r : Request) :
    (s.request r).1 = (t.request r).1 ∧
      match t.command r with
      | .error _ => (s.request r).2 = s
      | .ok _ => (s.request r).2 = (t.request r).2 := by
  have hcommand : s.command r = t.command r := by
    unfold command
    rw [h]
  unfold request
  rw [hcommand]
  cases t.command r with
  | error e => exact ⟨rfl, rfl⟩
  | ok c =>
    dsimp only
    unfold perform
    rw [start_eq_of_mangler_eq h]
    exact ⟨rfl, rfl⟩

/-- Requests are independent.  After any history a session answers as a fresh one; it is
left as the history left it by a request that is refused before it begins, and by any other
request as that would have left a fresh session, its ledger included. -/
theorem request_independent (m : Mangler) (history : List Request) (r : Request) :
    let fresh : Session := { mangler := m }
    ((fresh.afterAll history).request r).1 = (fresh.request r).1 ∧
      match fresh.command r with
      | .error _ => ((fresh.afterAll history).request r).2 = fresh.afterAll history
      | .ok _ => ((fresh.afterAll history).request r).2 = (fresh.request r).2 :=
  request_of_mangler_eq (afterAll_keeps _ history).1 r

end Session

end NameMangling
