/-
# Declared interface types

The interface type of a nominal declaration is the declaration applied to the generic
parameters it introduces, nested in the interface type of its parent when the parent is
a nominal declaration with parameters in scope.
-/
import NameMangling.Program.Contexts

namespace NameMangling.Program

/-- The interface type of a declaration inside at most `n` generic parents. -/
def interfaceTypeWithin (p : Program) : Nat → DeclId → TypeId × Program
  | 0, d => p.addType (.nominal d none)
  | n + 1, d =>
    let (parent, p') :=
      match p.genericParent? d with
      | some q => let (t, p') := p.interfaceTypeWithin n q; (some t, p')
      | none => (none, p)
    match p.ownParams d with
    | [] => p'.addType (.nominal d parent)
    | keys =>
      let (args, p') := p'.addTypes (keys.map .genericParam)
      p'.addType (.boundGeneric d parent args)

/-- The interface type of a nominal declaration. -/
def interfaceType (p : Program) (d : DeclId) : TypeId × Program :=
  p.interfaceTypeWithin p.decls.size d

end NameMangling.Program
