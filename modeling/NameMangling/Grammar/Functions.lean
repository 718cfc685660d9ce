/-
# Function types

    function-type ::= type params 'K'? 'Ya'? ('Yj' kind)? repr
    params        ::= 'y' | type | param '_' param* 't'
    param         ::= identifier? type flag*
    lowered       ::= type* 'I' callee ('B' | 'C')? 'H'? passing* ('r' returning)* 'zo'? '_'

A single plain parameter stands without list marks, unless it is a tuple, which could then
be taken for separate parameters.
-/
import NameMangling.Grammar.Basic

namespace NameMangling

namespace ParamFlags

/-- The operators of the attributes a parameter has. -/
def operators (f : ParamFlags) : List Operator :=
  (if f.isInout then [.inoutParam] else [])
    ++ (if f.isOwned then [.ownedParam] else [])
    ++ (if f.isShared then [.sharedParam] else [])
    ++ (if f.isVariadic then [.variadicParam] else [])
    ++ (if f.isAutoclosure then [.autoclosureParam] else [])

end ParamFlags

namespace Differentiability

/-- The operator of a promise of derivatives. -/
def operators : Differentiability → List Operator
  | none => []
  | normal => [.differentiable]
  | linear => [.linear]
  | forward => [.forwardDifferentiable]
  | reverse => [.reverseDifferentiable]

end Differentiability

namespace FunctionType

/-- The operators of the attributes of a function type. -/
def operators (f : FunctionType) : List Operator :=
  (if f.isThrowing then [.throwing] else [])
    ++ (if f.isAsync then [.async] else [])
    ++ f.differentiability.operators
    ++ [.repr f.repr]

end FunctionType

namespace LoweredFunction

/-- The operators of a lowered function type, which follow all its types. -/
def operators (f : LoweredFunction) : List Operator :=
  [.lowered, .callee f.callee]
    ++ (match f.repr with
        | .block => [.loweredBlock]
        | .cFunctionPointer => [.loweredCPointer]
        | _ => [])
    ++ (if f.isAsync then [.loweredAsync] else [])
    ++ f.params.map (.passed ·.1)
    ++ f.results.map (.returned ·.1)
    ++ (if f.error.isSome then [.errorResult] else [])
    ++ [.loweredEnd]

/-- A lowered function type: the types of its parameters and results, then its operators. -/
def pieces (scope : Scope) (f : LoweredFunction) : List Piece :=
  (f.params.map (·.2) ++ f.results.map (·.2) ++ f.error.toList).map (.type scope)
    ++ f.operators.map .op

end LoweredFunction

namespace Grammar

variable (g : Grammar)

/-- A label, where there is one. -/
def label : Option Name → List Piece
  | some n => [.token (.identifier (g.program.text n))]
  | none => []

/-- One parameter of a list. -/
def parameter (scope : Scope) (p : Parameter) (l : Option Name) : List Piece :=
  g.label l ++ .type scope p.type :: p.flags.operators.map .op

/-- Parameters with their labels; labels beyond the parameters are ignored, and parameters
beyond the labels have none. -/
def parameterList (scope : Scope) : List Parameter → List (Option Name) → List (List Piece)
  | [], _ => []
  | p :: ps, labels =>
    g.parameter scope p (labels.head?.getD none) :: parameterList scope ps labels.tail

/-- Whether a parameter is written without list marks. -/
def standsAlone (p : Parameter) (l : Option Name) : Bool :=
  l.isNone && p.flags.isPlain && g.program.types.kind p.type != .tuple

/-- The parameters of a function type. -/
def parameters (scope : Scope) (ps : List Parameter) (labels : List (Option Name)) : List Piece :=
  let list := markFirst (g.parameterList scope ps labels) ++ [.op .tuple]
  match ps with
  | [] => [.op .emptyList]
  | [p] => if g.standsAlone p (labels.head?.getD none) then [.type scope p.type] else list
  | _ => list

/-- A function type, with labels for its parameters when it is the type of a declaration. -/
def function (scope : Scope) (t : TypeId) (labels : List (Option Name)) : List Piece :=
  match (g.program.types.node t).function? with
  | some f =>
    .type scope f.result :: g.parameters scope f.params labels ++ f.operators.map .op
  | none => [.fail (.unexpectedType t .function)]

end Grammar

end NameMangling
