/-
# Encoders

A session is a mangler in use: the text it is writing, the numbers it has given to nodes,
where it has put placeholders, and the scope and the mode it is writing in.  An encoder
appends to the text of a session, or stops with a failure.  What it opens on the way, the
binding of a generic signature or the declaration whose type is being written, it closes
again, also when it stops early.

This module holds what all encoders share:
* `Session`, the state, and `Encoder`, the programs on it;
* `write`, `refuse`, the tokens of a symbol and the end of an attempt at one;
* `node`, a part of a symbol that is written once and referred back to later;
* `place?`, a declaration that may be written as a placeholder;
* `binding` and `owned`, the two scopes.
-/
import NameMangling.Mangler.Basic

namespace NameMangling

/-! ## Numbered nodes -/

/-- The numbers that have been given to nodes, of which a node has at most one. -/
structure NodeTable where
  entries : List (NodeKey × Nat) := []
  distinct : (entries.map Prod.fst).Nodup := by simp

namespace NodeTable

/-- How many nodes have a number. -/
def size (t : NodeTable) : Nat := t.entries.length

/-- The number of a node, if it has one. -/
def number? (t : NodeTable) (key : NodeKey) : Option Nat :=
  (t.entries.find? (·.1 == key)).map (·.2)

/-- A node without a number is not in the table. -/
theorem notMem_of_number?_eq_none {t : NodeTable} {key : NodeKey} (h : t.number? key = none) :
    key ∉ t.entries.map Prod.fst := by
  simp only [number?, Option.map_eq_none_iff, List.find?_eq_none, beq_iff_eq] at h
  rintro member
  obtain ⟨e, listed, named⟩ := List.mem_map.mp member
  exact h e listed named

/-- Give a node the next number, unless it has one. -/
def register (t : NodeTable) (key : NodeKey) : NodeTable :=
  if h : t.number? key = none then
    { entries := t.entries ++ [(key, t.size)]
      distinct := by
        have := notMem_of_number?_eq_none h
        grind [t.distinct] }
  else t

end NodeTable

/-! ## Sessions -/

/-- A mangler in use. -/
structure Session where
  mangler : Mangler
  /-- What has been written of the symbol. -/
  text : String := ""
  /-- The nodes of the symbol that have been written. -/
  nodes : NodeTable := {}
  /-- The placeholders of the last request that was begun. -/
  ledger : List Placement := []
  /-- The signatures that have been bound, innermost first; nothing is checked against an
  absent one. -/
  bindings : List (Option SignatureId) := []
  /-- The declaration whose own type is being written. -/
  owner : Option DeclId := none
  /-- Whether sugar is accepted. -/
  acceptsSugar : Bool := false
  /-- Whether placeholders may be written. -/
  allowsPlaceholders : Bool := false
  /-- The declaration that the symbol names, which is never a placeholder. -/
  subject : Option DeclId := none

namespace Session

variable (s : Session)

/-- The grammar that is being written. -/
def grammar : Grammar where
  program := s.mangler.program
  options := s.mangler.options
  acceptsSugar := s.acceptsSugar

/-- The scope that is being written in. -/
def scope : Scope where
  signature := s.bindings.head?.join
  owner := s.owner

/-- Whether a declaration is not considered for a placeholder. -/
def spellsOut (d : DeclId) : Bool := !s.allowsPlaceholders || s.subject == some d

/-- Append a token to the text. -/
def append (t : Token) : Session := { s with text := s.text ++ String.ofList t.spelling }

/-- Append a placeholder and remember where it stands. -/
def appendPlaceholder (r : Referent) : Session :=
  { s.append (.placeholder r) with ledger := s.ledger ++ [⟨r, s.text.utf8ByteSize⟩] }

/-- Give a node a number. -/
def register (key : NodeKey) : Session := { s with nodes := s.nodes.register key }

/-- Bind a signature, or nothing, for what follows. -/
def bind (signature : Option SignatureId) : Session :=
  { s with bindings := signature :: s.bindings }

/-- Undo the last binding. -/
def unbind : Session := { s with bindings := s.bindings.tail }

/-- Say whose type is written next. -/
def own (d : Option DeclId) : Session := { s with owner := d }

end Session

/-! ## Encoders -/

/-- A program that writes to a session; what has been written stays also when it fails. -/
abbrev Encoder := EStateM Failure Session

namespace Encoder

variable {α : Type}

/-- The grammar that is being written. -/
def grammar : Encoder Grammar := return (← get).grammar

/-- The scope that is being written in. -/
def scope : Encoder Scope := return (← get).scope

/-- Write a token. -/
def write (t : Token) : Encoder Unit := modify (·.append t)

/-- Write an operator. -/
def op (o : Operator) : Encoder Unit := write (.op o)

/-- Write some tokens. -/
def writeAll (ts : List Token) : Encoder Unit := ts.forM write

/-- Stop because there is nothing right to write. -/
def refuse (e : Refusal) : Encoder α := throw (.refused e)

/-! ## Rows -/

/-- Write some items in a row. -/
def row : List (Encoder Unit) → Encoder Unit
  | [] => pure ()
  | first :: rest => do
    first
    row rest

/-- Write some items in a row, with a mark after the first. -/
def markFirst : List (Encoder Unit) → Encoder Unit
  | [] => pure ()
  | first :: rest => do
    first
    op .firstOfList
    row rest

/-- Write a list of items: the mark of the empty list, or the items with a mark after the
first. -/
def list (items : List (Encoder Unit)) : Encoder Unit :=
  if items.isEmpty then op .emptyList else markFirst items

/-! ## Nodes and placeholders -/

/-- Refer back to a node, and tell whether that was possible. -/
def referBack (key : NodeKey) : Encoder Bool := do
  match (← get).nodes.number? key with
  | some n =>
    write (.backReference n)
    return true
  | none => return false

/-- Write a placeholder for a declaration, and tell whether there may be one. -/
def place? (d : DeclId) : Encoder Bool := do
  let s ← get
  if s.spellsOut d then return false
  match Referent.ofDecl s.mangler.program d with
  | .error e => refuse e
  | .ok r =>
    if s.mangler.accepts r then
      modify (·.appendPlaceholder r)
      return true
    else return false

/-- Write a node: refer back to it if it has been written, otherwise write it by `body` and
give it a number. -/
def node (key : NodeKey) (body : Encoder Unit) : Encoder Unit := do
  if ← referBack key then return
  body
  modify (·.register key)

/-! ## Scopes -/

/-- Run an encoder with a signature bound. -/
def binding (signature : Option SignatureId) (body : Encoder α) : Encoder α := do
  modify (·.bind signature)
  try body finally modify (·.unbind)

/-- Run an encoder for the type of a declaration. -/
def owned (d : DeclId) (body : Encoder α) : Encoder α := do
  let outer := (← get).owner
  modify (·.own (some d))
  try body finally modify (·.own outer)

end Encoder

end NameMangling
