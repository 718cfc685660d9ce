/-
# Grammars

The productions of the symbol grammar depend on the program that is being named and on the
options.  This module holds what all productions share: names, modules and nominal
declarations.

    module    ::= 's' | 'So' | decl-name
    nominal   ::= context decl-name ('V' | 'O' | 'C' | 'P' | 'a')
              ::= standard-library spelling
    decl-name ::= (identifier | 'Xn') ('L' index | identifier 'LL')?
-/
import NameMangling.Grammar.Phrase
import NameMangling.Program
import NameMangling.Options

namespace NameMangling

namespace Referent

/-- The referent a declaration is: a nominal type or an opaque result type. -/
def ofDecl (p : Program) (d : DeclId) : Except Refusal Referent :=
  match p.kindOf d with
  | .opaqueResult _ => .ok (.opaqueResult d)
  | kind => if kind.isNominal then .ok (.nominal d) else .error (.ineligibleReferent d)

end Referent

/-- What the productions depend on: the program, the options, and whether sugar is
accepted. -/
structure Grammar where
  program : Program
  options : Options
  acceptsSugar : Bool
deriving Inhabited

namespace Grammar

variable (g : Grammar)

/-! ## Names -/

/-- The identifier of a declaration, or the stand-in for a missing name. -/
def identifierPieces (d : DeclId) : List Piece :=
  let decl := g.program.decl d
  let foreign :=
    if g.options.usesForeignNames && decl.flags.isForeignVisible then decl.foreignName else none
  match foreign.or decl.name with
  | some n => [.token (.identifier (g.program.text n))]
  | none => if g.options.allowsNameless then [.op .nameless] else [.fail (.namelessEntity d)]

/-- The discriminator of a declaration: that of its local context, else that of its file. -/
def discriminatorPieces (d : DeclId) : List Piece :=
  match (g.program.decl d).localDiscriminator, (g.program.decl d).privateDiscriminator with
  | some n, _ => [.op .localName, .token (.index n)]
  | none, some file => [.token (.identifier (g.program.text file)), .op .privateName]
  | none, none => []

/-- The name of a declaration with its discriminator. -/
def declName (d : DeclId) : List Piece := g.identifierPieces d ++ g.discriminatorPieces d

/-! ## Modules -/

/-- The context around a declaration. -/
def contextOf (scope : Scope) (d : DeclId) : List Piece :=
  match (g.program.decl d).parent with
  | some c => [.context scope c]
  | none => [.fail (.unexpectedEntity d .insideModule)]

/-- A module. -/
def moduleDecl (scope : Scope) (d : DeclId) : List Piece :=
  if g.program.isStandardModule d then [.op .standardModule]
  else match g.program.kindOf d with
    | .foreignModule => [.op .foreignModule]
    | .nativeModule => [.node scope (.decl d) none]
    | _ => [.fail (.unexpectedEntity d .aModule)]

/-- The module that a declaration belongs to. -/
def moduleOf (scope : Scope) (d : DeclId) : List Piece :=
  match g.program.moduleOf (.decl d) with
  | some m => g.moduleDecl scope m
  | none => [.fail (.unexpectedEntity d .insideModule)]

/-! ## Nominal declarations -/

/-- The operator of a nominal type or an alias. -/
def nominalOperator? : DeclKind → Option Operator
  | .structType => some .structType
  | .enumType => some .enumType
  | .classType => some .classType
  | .protocolType _ => some .protocolType
  | .typeAlias => some .typeAlias
  | _ => none

/-- The spelling reserved for a declaration of the standard library. -/
def standardName? (d : DeclId) : Option StandardName :=
  match (g.program.decl d).parent with
  | some (.decl m) =>
    if g.program.isStandardModule m then
      (g.program.decl d).name.bind fun n => StandardName.ofText? (g.program.text n)
    else none
  | _ => none

/-- A nominal type or alias declaration: by its reserved spelling, or as a node, which for
a nominal type may become a placeholder. -/
def nominal (scope : Scope) (d : DeclId) : List Piece :=
  match nominalOperator? (g.program.kindOf d) with
  | none => [.fail (.unexpectedEntity d .nominalOrAlias)]
  | some operator =>
    match g.standardName? d with
    | some name => [.op (.standard name)]
    | none =>
      if operator = .typeAlias then [.node scope (.decl d) none]
      else match Referent.ofDecl g.program d with
        | .ok r => [.node scope (.decl d) (some r)]
        | .error e => [.fail e]

/-- A protocol. -/
def protocol (scope : Scope) (d : DeclId) : List Piece :=
  if (g.program.kindOf d).isProtocol then g.nominal scope d
  else [.fail (.unexpectedEntity d .aProtocol)]

end Grammar

end NameMangling
