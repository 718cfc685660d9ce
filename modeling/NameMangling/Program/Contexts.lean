/-
# Contexts of a program

Declarations nest: from a context one gets to the context around it, and so on up to
a module.  The walk is cut off after as many steps as there are contexts to visit, so
it is total; on a program whose parents form no cycle the cut is never reached.

Main operations:
* `Program.ancestors`, a context and all contexts around it, innermost first;
* `Program.moduleOf`, the module a context belongs to;
* `Program.signatureOf`, the innermost generic signature in scope.
-/
import NameMangling.Program.Basic

namespace NameMangling.Program

/-- The context around a context. -/
def parent? (p : Program) : Context → Option Context
  | .decl d => (p.decl d).parent
  | .closure c => some (p.closure c).parent
  | .initializer property => some (.decl property)
  | .defaultArgument owner _ => some (.decl owner)
  | .accessor storage _ => some (.decl storage)

/-- A bound on the length of a walk through contexts without repetition: a walk visits
stored parents and the declarations these belong to. -/
def walkBound (p : Program) : Nat := 2 * (p.decls.size + p.closures.size) + 2

/-- The contexts met when following `next`, the start included. -/
def walk (next : Context → Option Context) : Nat → Context → List Context
  | 0, _ => []
  | n + 1, c => c :: ((next c).map (walk next n)).getD []

/-- A context and the contexts around it, innermost first. -/
def ancestors (p : Program) (c : Context) : List Context := walk p.parent? p.walkBound c

/-- The module a context is, if it is one. -/
def module? (p : Program) : Context → Option DeclId
  | .decl d => if (p.kindOf d).isModule then some d else none
  | _ => none

/-- The module a context belongs to. -/
def moduleOf (p : Program) (c : Context) : Option DeclId := (p.ancestors c).findSome? p.module?

/-! ## Generic signatures in scope -/

/-- The signature a context brings into scope by itself; a module brings none. -/
def ownSignature? (p : Program) : Context → Option SignatureId
  | .decl d => if (p.kindOf d).isModule then none else (p.decl d).signature
  | _ => none

/-- Where to look for a signature after a context that brings none: around it, except that
an extension sees the signature of the type it extends, and a module sees nothing. -/
def signatureParent? (p : Program) (c : Context) : Option Context :=
  match c with
  | .decl d =>
    match p.kindOf d with
    | .nativeModule | .foreignModule => none
    | .extension extended => some (.decl extended)
    | _ => p.parent? c
  | _ => p.parent? c

/-- The innermost generic signature in scope. -/
def signatureOf (p : Program) (c : Context) : Option SignatureId :=
  (walk p.signatureParent? p.walkBound c).findSome? p.ownSignature?

/-- The signature in scope around a declaration. -/
def outerSignature (p : Program) (d : DeclId) : Option SignatureId :=
  (p.decl d).parent.bind p.signatureOf

/-- The parameters that a declaration adds to those of its context. -/
def ownParams (p : Program) (d : DeclId) : List ParamKey :=
  match (p.decl d).signature with
  | none => []
  | some s =>
    match p.outerSignature d with
    | none => (p.signature s).params
    | some outer => (p.signature s).params.filter fun key => !(p.signature outer).contains key

/-! ## Related declarations -/

/-- The protocol an associated type is declared in. -/
def protocolOf? (p : Program) (associatedType : DeclId) : Option DeclId :=
  match (p.decl associatedType).parent with
  | some (.decl d) => if (p.kindOf d).isProtocol then some d else none
  | _ => none

/-- The opaque result type that belongs to a declaration. -/
def opaqueResultOf? (p : Program) (naming : DeclId) : Option DeclId :=
  p.declIds.find? fun d => p.kindOf d == .opaqueResult naming

/-- The parent of a declaration, if it is a nominal declaration with a signature in scope. -/
def genericParent? (p : Program) (d : DeclId) : Option DeclId :=
  match (p.decl d).parent with
  | some (.decl q) =>
    if (p.kindOf q).isNominal && (p.signatureOf (.decl q)).isSome then some q else none
  | _ => none

end NameMangling.Program
