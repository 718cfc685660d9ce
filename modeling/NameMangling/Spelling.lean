/-
# Spelling

Spelling a phrase means writing its production from left to right, unfolding the phrases in
it.  What has been written so far is `Progress`: the tokens, and the nodes completed, in the
order of their completion, each with its number and the place of its spelling.  A node met
again is written as a reference to its number; a node that may be looked up by address is
written as a placeholder.  What has been written stays written: spelling only appends.

Main definitions:
* `Grammar.spell`, the spelling of a phrase by at most so many nested unfoldings;
* `Grammar.spellPieces`, the spelling of some pieces, with a bound taken from the program;
* `Spelling`, the two choices a reader of the symbol has to know.
-/
import NameMangling.Grammar

namespace NameMangling

/-- A node that has been spelled, by tokens `start` to `stop`, the latter excluded. -/
structure CompletedNode where
  key : NodeKey
  number : Nat
  start : Nat
  stop : Nat
deriving DecidableEq, Inhabited

/-- What has been written so far, and how many numbers have been given to nodes. -/
structure Progress where
  tokens : Array Token := #[]
  nodes : Array CompletedNode := #[]
  numbered : Nat := 0
deriving DecidableEq, Inhabited

namespace Progress

/-- The number of a completed node. -/
def number? (s : Progress) (key : NodeKey) : Option Nat :=
  (s.nodes.find? (·.key == key)).map (·.number)

/-- Write a token. -/
def emit (s : Progress) (t : Token) : Progress := { s with tokens := s.tokens.push t }

/-- Record that a node has been spelled from token `start` on.  It gets the next number,
unless it has been spelled before, when it keeps the number it has. -/
def complete (s : Progress) (key : NodeKey) (start : Nat) : Progress :=
  match s.number? key with
  | some n => { s with nodes := s.nodes.push ⟨key, n, start, s.tokens.size⟩ }
  | none =>
    { s with
      nodes := s.nodes.push ⟨key, s.numbered, start, s.tokens.size⟩
      numbered := s.numbered + 1 }

end Progress

/-- Why spelling stops early: there is nothing right to write, or the phrases are nested too
deeply. -/
inductive Failure
  | refused (e : Refusal)
  | tooDeep
deriving DecidableEq, Inhabited

/-- Writing, which keeps what was written also when it fails. -/
abbrev Speller := EStateM Failure Progress

/-- How nodes are written: which referents become placeholders, and whether nodes met again
become references. -/
structure Spelling where
  placesReferent : Referent → Bool := fun _ => false
  refersBack : Bool := true

namespace Spelling

variable (w : Spelling)

/-- What a node is written as instead of its spelling, if anything. -/
def shorthand? (s : Progress) (key : NodeKey) (referent : Option Referent) : Option Token :=
  match referent.filter w.placesReferent with
  | some r => some (.placeholder r)
  | none => if w.refersBack then (s.number? key).map .backReference else none

/-- Write a piece, where `unfold` writes the phrases in it. -/
def piece (unfold : Scope → Phrase → Speller Unit) : Piece → Speller Unit
  | .token t => modify (·.emit t)
  | .phrase scope p => unfold scope p
  | .node scope key referent => do
    let s ← get
    match w.shorthand? s key referent with
    | some t => modify (·.emit t)
    | none =>
      unfold scope (.body key)
      modify (·.complete key s.tokens.size)
  | .fail e => throw (.refused e)

/-- Write some pieces in a row. -/
def pieces (unfold : Scope → Phrase → Speller Unit) : List Piece → Speller Unit
  | [] => pure ()
  | first :: rest => do
    w.piece unfold first
    pieces unfold rest

end Spelling

namespace Grammar

variable (g : Grammar)

/-- The spelling of a phrase in which at most `depth` phrases are nested. -/
def spell (w : Spelling) : Nat → Scope → Phrase → Speller Unit
  | 0, _, _ => throw .tooDeep
  | depth + 1, scope, p => w.pieces (spell w depth) (g.production scope p)

/-- The number of things a phrase can be about. -/
def subjects : Nat :=
  g.program.types.size + g.program.decls.size + g.program.closures.size
    + g.program.signatures.size + g.program.conformances.size + 2

/-- A bound on the nesting of phrases.  A phrase names at most three things and its scope
two, and a phrase can be met inside itself in the same scope only after some further node
has been completed. -/
def depthBound : Nat := g.subjects.pow 6

/-- The spelling of some pieces. -/
def spellPieces (w : Spelling) (ps : List Piece) : Speller Unit :=
  w.pieces (g.spell w g.depthBound) ps

end Grammar

end NameMangling
