/-
# Handles

A program is a family of tables; a handle is a position in one of them.  Each
table has a handle type of its own, so a handle can only be used where it belongs.
Handles appear in diagnostics, and `TypeId.debugText` and `DeclId.debugText` say how.
-/

namespace NameMangling

/-- Position of a type in the type arena. -/
structure TypeId where
  index : Nat
deriving DecidableEq, Inhabited

/-- Position of a declaration. -/
structure DeclId where
  index : Nat
deriving DecidableEq, Inhabited

/-- Position of a closure expression. -/
structure ClosureId where
  index : Nat
deriving DecidableEq, Inhabited

/-- Position of a pattern binding. -/
structure BindingId where
  index : Nat
deriving DecidableEq, Inhabited

/-- Position of a generic signature. -/
structure SignatureId where
  index : Nat
deriving DecidableEq, Inhabited

/-- Position of a protocol conformance. -/
structure ConformanceId where
  index : Nat
deriving DecidableEq, Inhabited

/-! ## Builtin types -/

namespace TypeId

/-- The empty tuple, the first type of every arena. -/
def emptyTuple : TypeId := ⟨0⟩

/-- The names of the types that every arena starts with, in order. -/
def builtinNames : List String :=
  ["()", "Builtin.Int8", "Builtin.Int16", "Builtin.Int32", "Builtin.Int64", "Builtin.Word",
   "Builtin.FPIEEE32", "Builtin.FPIEEE64", "Builtin.RawPointer", "Builtin.NativeObject",
   "Builtin.UnknownObject", "Builtin.BridgeObject"]

/-- The number of types that every arena starts with. -/
def builtinCount : Nat := 12

/-- Whether the type is one that every arena starts with. -/
def isBuiltin (t : TypeId) : Bool := t.index < builtinCount

/-- The name of a type that every arena starts with. -/
def builtinName? (t : TypeId) : Option String := builtinNames[t.index]?

/-- The position that stands for the absence of a type; no arena reaches it. -/
def absent : TypeId := ⟨4294967295⟩

/-- A type as diagnostics write it: builtin types by name, the others by position. -/
def debugText (t : TypeId) : String :=
  if t = absent then "Idx::NONE"
  else match t.builtinName? with
    | some name => "Idx(" ++ name ++ ")"
    | none => "Idx(" ++ toString t.index ++ ")"

end TypeId

/-- A declaration as diagnostics write it. -/
def DeclId.debugText (d : DeclId) : String := "DeclId(" ++ toString d.index ++ ")"

end NameMangling
