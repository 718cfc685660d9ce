/-
# The mangler

A mangler names things of one program.  `Mangler.mangle` answers a request with a symbol,
or with the reason why there is none; `Mangler.answer` also tells which placeholders were
written and where, or, for a request that is refused before it begins, which were
remembered.
-/
import NameMangling.Spelling
import NameMangling.Symbol.Plan

namespace NameMangling

/-- A program, the settings, and the referents that may become placeholders. -/
structure Mangler where
  program : Program
  options : Options := {}
  accepts : Referent → Bool := fun _ => true

/-- A symbol, or why there is none. -/
abbrev Answer := Except Failure String

namespace Mangler

variable (m : Mangler)

/-- The grammar of symbols in which sugar is accepted as the settings say, or anyway. -/
def grammar (keepsSugar : Bool) : Grammar where
  program := m.program
  options := m.options
  acceptsSugar := m.options.keepsSugar || keepsSugar

/-- The plan for a request. -/
def plan (r : Request) : Except Refusal Plan := (m.grammar false).plan r

/-- Whether a referent becomes a placeholder in a symbol with the given plan. -/
def placesReferent (plan : Plan) (r : Referent) : Bool :=
  m.options.allowsPlaceholders && plan.allowsPlaceholders && plan.subject != some r.decl
    && m.accepts r

/-- Write the pieces of a plan. -/
def write (plan : Plan) : EStateM.Result Failure Progress Unit :=
  (m.grammar plan.keepsSugar).spellPieces { placesReferent := m.placesReferent plan }
    plan.pieces {}

/-- The symbol that some tokens make after the given text. -/
def symbol (lead : String) (tokens : List Token) : String :=
  lead ++ String.ofList (spellAll tokens)

/-- The answer to a plan, and the placeholders that were written. -/
def carryOut (plan : Plan) : Answer × List Placement :=
  let placed (s : Progress) := placements plan.lead.utf8ByteSize s.tokens.toList
  match m.write plan with
  | .ok _ s => (.ok (symbol plan.lead s.tokens.toList), placed s)
  | .error e s => (.error e, placed s)

/-- The answer to a request, and the placeholders to be remembered after it, where
`ledger` is what was remembered before. -/
def answer (ledger : List Placement) (r : Request) : Answer × List Placement :=
  match m.plan r with
  | .error e => (.error (.refused e), ledger)
  | .ok plan => m.carryOut plan

/-- The symbol for a request, or why there is none. -/
def mangle (r : Request) : Answer := (m.answer [] r).1

end Mangler

end NameMangling
