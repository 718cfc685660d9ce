/-
# Productions

Every phrase has one production in every scope.  Productions do not recurse: what a phrase
is made of stands in its production as further phrases, and unfolding these is left to
whoever spells them.
-/
import NameMangling.Grammar.Entities

namespace NameMangling.Grammar

variable (g : Grammar)

/-- A declaration that is a node, spelled out: a module by its name, a nominal type or an
alias by its context and name, an opaque result type by the declaration it belongs to. -/
def declBody (scope : Scope) (d : DeclId) : List Piece :=
  match g.program.kindOf d with
  | .nativeModule => g.declName d
  | .opaqueResult naming => g.entity scope naming ++ [.op .opaqueDecl]
  | kind =>
    match nominalOperator? kind with
    | some operator => g.contextOf scope d ++ g.declName d ++ [.op operator]
    | none => [.fail (.unexpectedEntity d .nominalOrAlias)]

/-- What a phrase is made of. -/
def production (scope : Scope) : Phrase → List Piece
  | .type t => g.type scope t
  | .context c => g.context scope c
  | .conformance subject ref => g.conformance scope subject ref
  | .body (.type t) => g.structural scope t
  | .body (.decl d) => g.declBody scope d

end NameMangling.Grammar
