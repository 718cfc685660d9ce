/-
# Programs

A program is a family of append-only tables: names, types, declarations, closures,
pattern bindings, generic signatures and conformances.  `Program.empty` holds only the
empty name and the builtin types; the `add` functions hand out the next handle of their
table, except that equal signatures share one.  Types are kept twice, as nodes to walk
through and packed, and `Program.addType` builds both.

Reading is total: a handle that was never handed out reads as a default entry.
-/
import NameMangling.Name
import NameMangling.Types
import NameMangling.Decl
import NameMangling.Generics
import NameMangling.Conformance

namespace NameMangling

/-- A program, as a symbol mangler sees it. -/
structure Program where
  names : NameTable
  types : Arena
  pool : Pool
  decls : Array Decl
  closures : Array Closure
  bindings : Array PatternBinding
  signatureTable : Interner GenericSignature
  conformances : Array Conformance
  standardModule : Option DeclId
deriving DecidableEq, Inhabited

namespace Program

/-- The program without declarations. -/
def empty : Program where
  names := {}
  types := Arena.initial
  pool := Pool.initial
  decls := #[]
  closures := #[]
  bindings := #[]
  signatureTable := {}
  conformances := #[]
  standardModule := none

/-! ## Reading -/

/-- The text of a name. -/
def text (p : Program) (n : Name) : String := p.names.text n

/-- A declaration. -/
def decl (p : Program) (d : DeclId) : Decl := p.decls[d.index]?.getD {}

/-- A declaration that was never added is an empty one. -/
theorem decl_of_size_le {p : Program} {d : DeclId} (h : p.decls.size ≤ d.index) :
    p.decl d = {} := by
  rw [decl, Array.getElem?_eq_none h]
  rfl

/-- What a declaration declares. -/
def kindOf (p : Program) (d : DeclId) : DeclKind := (p.decl d).kind

/-- A closure. -/
def closure (p : Program) (c : ClosureId) : Closure := p.closures[c.index]?.getD {}

/-- A pattern binding. -/
def binding (p : Program) (b : BindingId) : PatternBinding := p.bindings[b.index]?.getD {}

/-- The generic signatures, in the order in which they were added. -/
def signatures (p : Program) : Array GenericSignature := p.signatureTable.values

/-- A generic signature. -/
def signature (p : Program) (s : SignatureId) : GenericSignature :=
  p.signatures[s.index]?.getD default

/-- A conformance. -/
def conformance (p : Program) (c : ConformanceId) : Conformance :=
  p.conformances[c.index]?.getD (.declared {})

/-- All declarations, in the order in which they were added. -/
def declIds (p : Program) : List DeclId := (List.range p.decls.size).map DeclId.mk

/-- All conformances, in the order in which they were added. -/
def conformanceIds (p : Program) : List ConformanceId :=
  (List.range p.conformances.size).map ConformanceId.mk

/-- The declarations are those with a place in the program. -/
theorem mem_declIds {p : Program} {d : DeclId} : d ∈ p.declIds ↔ d.index < p.decls.size := by
  constructor
  · intro h
    obtain ⟨i, hi, rfl⟩ := List.mem_map.mp h
    exact List.mem_range.mp hi
  · intro h
    exact List.mem_map.mpr ⟨d.index, List.mem_range.mpr h, rfl⟩

/-- The conformances are those with a place in the program. -/
theorem mem_conformanceIds {p : Program} {c : ConformanceId} :
    c ∈ p.conformanceIds ↔ c.index < p.conformances.size := by
  constructor
  · intro h
    obtain ⟨i, hi, rfl⟩ := List.mem_map.mp h
    exact List.mem_range.mp hi
  · intro h
    exact List.mem_map.mpr ⟨c.index, List.mem_range.mpr h, rfl⟩

/-- Whether a declaration is the standard library module. -/
def isStandardModule (p : Program) (d : DeclId) : Bool := p.standardModule == some d

/-- The protocol a declaration is, as the list of its associated conformances. -/
def associatedConformances? (p : Program) (d : DeclId) : Option (List AssociatedConformance) :=
  match p.kindOf d with
  | .protocolType associated => some associated
  | _ => none

/-! ## Adding -/

/-- The name of a text. -/
def intern (p : Program) (s : String) : Name × Program :=
  let (n, names) := p.names.intern s
  (n, { p with names })

/-- Build a type. -/
def addType (p : Program) (n : TypeNode) : TypeId × Program :=
  let (t, types) := p.types.construct n
  (t, { p with types, pool := (p.pool.construct n).2 })

/-- Build several types, from left to right. -/
def addTypes (p : Program) : List TypeNode → List TypeId × Program
  | [] => ([], p)
  | n :: rest =>
    let (t, p) := p.addType n
    let (ts, p) := p.addTypes rest
    (t :: ts, p)

/-- Add a declaration. -/
def addDecl (p : Program) (d : Decl) : DeclId × Program :=
  (⟨p.decls.size⟩, { p with decls := p.decls.push d })

/-- Change a declaration in place. -/
def updateDecl (p : Program) (d : DeclId) (change : Decl → Decl) : Program :=
  { p with decls := p.decls.modify d.index change }

/-- Add a declaration with a name and a parent and nothing else. -/
def addNamed (p : Program) (kind : DeclKind) (name : String) (parent : Option Context) :
    DeclId × Program :=
  let (n, p) := p.intern name
  p.addDecl { kind, name := some n, parent }

/-- Add a closure. -/
def addClosure (p : Program) (c : Closure) : ClosureId × Program :=
  (⟨p.closures.size⟩, { p with closures := p.closures.push c })

/-- Add a pattern binding. -/
def addBinding (p : Program) (b : PatternBinding) : BindingId × Program :=
  (⟨p.bindings.size⟩, { p with bindings := p.bindings.push b })

/-- The handle of a signature, which is added unless an equal one is there. -/
def addSignature (p : Program) (s : GenericSignature) : SignatureId × Program :=
  let (i, signatureTable) := p.signatureTable.intern s
  (⟨i⟩, { p with signatureTable })

/-- Add a conformance. -/
def addConformance (p : Program) (c : Conformance) : ConformanceId × Program :=
  (⟨p.conformances.size⟩, { p with conformances := p.conformances.push c })

/-- Make a declaration the standard library module. -/
def setStandardModule (p : Program) (d : DeclId) : Program := { p with standardModule := some d }

end Program

end NameMangling
