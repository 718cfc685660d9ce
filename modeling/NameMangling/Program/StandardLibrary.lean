/-
# The standard library

The declarations of the standard library module that have a spelling of their own in
symbols.  `Program.installStandardLibrary` declares them all and marks the module;
`StandardLibrary` keeps their handles.
-/
import NameMangling.Program.Basic

namespace NameMangling

/-- The handles of the standard library declarations. -/
structure StandardLibrary where
  moduleDecl : DeclId
  int : DeclId
  uint : DeclId
  bool : DeclId
  double : DeclId
  float : DeclId
  string : DeclId
  character : DeclId
  optional : DeclId
  array : DeclId
  dictionary : DeclId
  set : DeclId
  equatable : DeclId
  hashable : DeclId
deriving DecidableEq, Inhabited

namespace Program

/-- Add a nominal declaration of the standard library module. -/
private def addStandard (p : Program) (root : DeclId) (kind : DeclKind) (name : String)
    (signature : Option SignatureId) : DeclId × Program :=
  let (n, p) := p.intern name
  p.addDecl { kind, name := some n, parent := some (.decl root), signature }

/-- Make a nominal type without parameters conform to some protocols. -/
private def addConformances (p : Program) (d : DeclId) (protocols : List DeclId) : Program :=
  let (type, p) := p.addType (.nominal d none)
  protocols.foldl (fun p protocol =>
    (p.addConformance (.declared { type, protocol, context := d })).2) p

/-- Declare the standard library: its module, the protocols `Equatable` and `Hashable`,
the plain types, which conform to both, and the generic types.  The elements of a set and
the keys of a dictionary have to be hashable. -/
def installStandardLibrary (p : Program) : StandardLibrary × Program :=
  let (root, p) := p.addNamed .nativeModule "Std" none
  let p := p.setStandardModule root
  let (equatable, p) := p.addStandard root (.protocolType []) "Equatable" none
  let (hashable, p) := p.addStandard root (.protocolType []) "Hashable" none
  let (param, p) := p.addType (.genericParam ⟨0, 0⟩)
  let isHashable : Requirement := ⟨param, .conformance hashable⟩
  let (oneParam, p) := p.addSignature (.ofParams [⟨0, 0⟩] [])
  let (hashableParam, p) := p.addSignature (.ofParams [⟨0, 0⟩] [isHashable])
  let (hashableKey, p) := p.addSignature (.ofParams [⟨0, 0⟩, ⟨0, 1⟩] [isHashable])
  let (int, p) := p.addStandard root .structType "Int" none
  let (uint, p) := p.addStandard root .structType "UInt" none
  let (bool, p) := p.addStandard root .structType "Bool" none
  let (double, p) := p.addStandard root .structType "Double" none
  let (float, p) := p.addStandard root .structType "Float" none
  let (string, p) := p.addStandard root .structType "String" none
  let (character, p) := p.addStandard root .structType "Character" none
  let (optional, p) := p.addStandard root .enumType "Optional" (some oneParam)
  let (array, p) := p.addStandard root .structType "Array" (some oneParam)
  let (set, p) := p.addStandard root .structType "Set" (some hashableParam)
  let (dictionary, p) := p.addStandard root .structType "Dictionary" (some hashableKey)
  let p := [int, uint, bool, double, float, string, character].foldl
    (fun p d => p.addConformances d [equatable, hashable]) p
  ({ moduleDecl := root, int, uint, bool, double, float, string, character,
     optional, array, dictionary, set, equatable, hashable }, p)

end Program

namespace StandardLibrary

/-- `Optional<wrapped>`, or `wrapped?` when it is written with sugar. -/
def optionalOf (l : StandardLibrary) (p : Program) (wrapped : TypeId) (sugar : Bool) :
    TypeId × Program :=
  let (t, p) := p.addType (.boundGeneric l.optional none [wrapped])
  if sugar then p.addType (.optionalSugar wrapped t) else (t, p)

/-- `Array<element>`, or `[element]` when it is written with sugar. -/
def arrayOf (l : StandardLibrary) (p : Program) (element : TypeId) (sugar : Bool) :
    TypeId × Program :=
  let (t, p) := p.addType (.boundGeneric l.array none [element])
  if sugar then p.addType (.arraySugar element t) else (t, p)

/-- `Dictionary<key, value>`, or `[key: value]` when it is written with sugar. -/
def dictionaryOf (l : StandardLibrary) (p : Program) (key value : TypeId) (sugar : Bool) :
    TypeId × Program :=
  let (t, p) := p.addType (.boundGeneric l.dictionary none [key, value])
  if sugar then p.addType (.dictionarySugar key value t) else (t, p)

end StandardLibrary

end NameMangling
