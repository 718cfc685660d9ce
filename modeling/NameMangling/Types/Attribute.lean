/-
# Attributes of types

The closed choices that types are built with: how a function value is represented,
how parameters and results are passed, what may be differentiated, the keys of generic
parameters with their order, and the parts of tuples and functions.
-/
import NameMangling.Name
import NameMangling.Handle

namespace NameMangling

/-- How a function value is represented. -/
inductive FunctionRepr
  | native | noEscape | block | cFunctionPointer | thin
deriving DecidableEq, Inhabited

/-- Which derivatives a function type promises. -/
inductive Differentiability
  | none | normal | linear | forward | reverse
deriving DecidableEq, Inhabited

/-- Who owns the context of a lowered function. -/
inductive ContextOwnership
  | thin | owned | guaranteed
deriving DecidableEq, Inhabited

/-- How a lowered parameter is passed. -/
inductive Passing
  | indirect | mutable | owned | guaranteed
deriving DecidableEq, Inhabited

/-- How a lowered result is returned. -/
inductive Returning
  | indirect | owned | unowned
deriving DecidableEq, Inhabited

/-- The attributes of one function parameter.  These are the bits of the set that have a name; a
bit without a name means nothing, so it is left out. -/
structure ParamFlags where
  isInout : Bool := false
  isVariadic : Bool := false
  isAutoclosure : Bool := false
  isOwned : Bool := false
  isShared : Bool := false
deriving DecidableEq, Inhabited

namespace ParamFlags

/-- Whether a parameter is passed plainly. -/
def isPlain (f : ParamFlags) : Bool := f == {}

end ParamFlags

/-- Position of a generic parameter: nesting depth, then index within that depth. -/
structure ParamKey where
  depth : Nat
  index : Nat
deriving DecidableEq, Inhabited

namespace ParamKey

/-- Outer parameters come first, and within a depth smaller indices do. -/
def before (a b : ParamKey) : Bool :=
  a.depth < b.depth || (a.depth == b.depth && a.index < b.index)

theorem before_iff {a b : ParamKey} :
    a.before b = true ↔ a.depth < b.depth ∨ a.depth = b.depth ∧ a.index < b.index := by
  simp [before]

/-- Of two keys at most one is before the other. -/
theorem before_asymm (a b : ParamKey) (h : a.before b) : b.before a = false := by
  rw [Bool.eq_false_iff, ne_eq, before_iff]
  rw [before_iff] at h
  omega

theorem before_irrefl (a : ParamKey) : a.before a = false := by
  rw [Bool.eq_false_iff, ne_eq, before_iff]
  omega

theorem before_trans (a b c : ParamKey) (h : a.before b) (h' : b.before c) : a.before c := by
  rw [before_iff] at h h' ⊢
  omega

/-- Of two different keys one is before the other. -/
theorem before_total (a b : ParamKey) (hne : a ≠ b) (h : a.before b = false) : b.before a := by
  rw [Bool.eq_false_iff, ne_eq, before_iff] at h
  rw [before_iff]
  have hparts : ¬ (a.depth = b.depth ∧ a.index = b.index) := by
    rintro ⟨hdepth, hindex⟩
    cases a
    cases b
    exact hne (by simp_all)
  omega

end ParamKey

/-- One element of a tuple type. -/
structure TupleElement where
  label : Option Name
  type : TypeId
deriving DecidableEq, Inhabited

/-- One parameter of a function type. -/
structure Parameter where
  type : TypeId
  flags : ParamFlags := {}
deriving DecidableEq, Inhabited

/-- A function type. -/
structure FunctionType where
  params : List Parameter
  result : TypeId
  repr : FunctionRepr := .native
  isThrowing : Bool := false
  isAsync : Bool := false
  differentiability : Differentiability := .none
deriving DecidableEq, Inhabited

/-- A function type with explicit passing conventions. -/
structure LoweredFunction where
  callee : ContextOwnership
  repr : FunctionRepr := .native
  isAsync : Bool := false
  params : List (Passing × TypeId)
  results : List (Returning × TypeId)
  error : Option TypeId := none
deriving DecidableEq, Inhabited

/-- A protocol composition, possibly with a superclass or a class bound. -/
structure Composition where
  protocols : List DeclId
  superclass : Option TypeId := none
  anyObject : Bool := false
deriving DecidableEq, Inhabited

end NameMangling
