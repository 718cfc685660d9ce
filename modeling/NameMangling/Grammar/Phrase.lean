/-
# Phrases and pieces

The right-hand side of a production of the symbol grammar is a list of pieces, written
from left to right.  A piece is a token, a phrase to be spelled in place, a node, or the
reason why there is nothing to write.

A node is a phrase worth naming: after it has been spelled once in a symbol, it may be
written as a reference back to that spelling.  A node that can be looked up by address may
be written as a placeholder instead.

Phrases are spelled in a scope, which is lexical: the pieces of a production say in which
scope each phrase is spelled, and nothing that happens inside changes the scope outside.
-/
import NameMangling.Grammar.Token
import NameMangling.Generics
import NameMangling.Refusal

namespace NameMangling

/-- What surrounds a phrase: the generic signature that parameters are checked against, if
any, and the declaration whose type is being spelled, if any. -/
structure Scope where
  signature : Option SignatureId := none
  owner : Option DeclId := none
deriving DecidableEq, Inhabited

/-- What a node is the spelling of. -/
inductive NodeKey
  | type (t : TypeId)
  | decl (d : DeclId)
deriving DecidableEq, Inhabited

/-- The parts of a symbol that have a production. -/
inductive Phrase
  /-- A type. -/
  | type (t : TypeId)
  /-- A context, as the place of a declaration. -/
  | context (c : Context)
  /-- A conformance as it is used; the type that conforms, where it is known. -/
  | conformance (subject : Option TypeId) (ref : ConformanceRef)
  /-- A node spelled out. -/
  | body (key : NodeKey)
deriving DecidableEq, Inhabited

/-- The units of a production. -/
inductive Piece
  | token (t : Token)
  | phrase (scope : Scope) (p : Phrase)
  | node (scope : Scope) (key : NodeKey) (referent : Option Referent)
  | fail (e : Refusal)
deriving DecidableEq, Inhabited

namespace Piece

/-- The piece that writes an operator. -/
def op (o : Operator) : Piece := token (.op o)

/-- The piece that spells a type. -/
def type (scope : Scope) (t : TypeId) : Piece := phrase scope (.type t)

/-- The piece that spells a context. -/
def context (scope : Scope) (c : Context) : Piece := phrase scope (.context c)

end Piece

/-- Some items in a row, with a mark after the first. -/
def markFirst : List (List Piece) → List Piece
  | [] => []
  | first :: rest => first ++ .op .firstOfList :: rest.flatten

/-- A list of items: the mark of the empty list, or the items with a mark after the first. -/
def listPieces (items : List (List Piece)) : List Piece :=
  if items.isEmpty then [.op .emptyList] else markFirst items

end NameMangling
