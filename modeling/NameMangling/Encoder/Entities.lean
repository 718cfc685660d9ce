/-
# Encoders of entities and contexts

One encoder for each production of declarations, closures, accessors and contexts, and
`encode`, which ties all encoders together.
-/
import NameMangling.Encoder.Types

namespace NameMangling.Encoder

variable (unfold : Phrase → Encoder Unit)

/-! ## Types of declarations -/

/-- The interface type of a declaration, checked against the signature of the declaration and
relative to it, and what its signature adds to that of its context; a generic value that is
not a function is marked. -/
def declType (d : DeclId) : Encoder Unit := do
  let g ← grammar
  match (g.program.decl d).interfaceType with
  | none => refuse (.unexpectedEntity d .typed)
  | some t =>
    let isFunction := g.program.types.kind t == .function
    owned d (binding (g.program.signatureOf (.decl d)) (
      if isFunction then function unfold t (g.program.decl d).labels else subtype unfold t))
    match (g.program.decl d).signature with
    | none => pure ()
    | some s =>
      let isGeneric ← signature unfold s (g.program.outerSignature d)
      if isGeneric && !isFunction then op .genericValue

/-! ## Entities -/

/-- The mark of a static member. -/
def staticMark (d : DeclId) : Encoder Unit := do
  let g ← grammar
  if (g.program.decl d).flags.isStatic then op .static

/-- A declaration with a type: a function, property, subscript or enum element. -/
def value (d : DeclId) (isNamed : Bool) (operator : Operator) : Encoder Unit := do
  contextOf unfold d
  if isNamed then declName d
  declType unfold d
  op operator
  staticMark d

/-- A constructor, by its allocating or its initializing entry point. -/
def constructor (d : DeclId) (allocating : Bool) : Encoder Unit := do
  contextOf unfold d
  declType unfold d
  op (if allocating then .allocator else .initializer)

/-- A destructor, by its deallocating or its destroying entry point. -/
def destructor (d : DeclId) (deallocating : Bool) : Encoder Unit := do
  contextOf unfold d
  op (if deallocating then .deallocator else .destructor)

/-- A declaration as a symbol of its own; what has no such symbol is written as a context. -/
def entity (d : DeclId) : Encoder Unit := do
  let g ← grammar
  match g.program.kindOf d with
  | .func => value unfold d true .func
  | .property => value unfold d true .property
  | .subscript => value unfold d false .subscript
  | .enumElement => value unfold d true .enumElement
  | .constructor => constructor unfold d true
  | .destructor => destructor unfold d true
  | .associatedType => do
    contextOf unfold d
    declName d
    op .associatedType
  | .opaqueResult _ => opaqueDecl unfold d
  | _ => unfold (.context (.decl d))

/-- A closure. -/
def closure (c : ClosureId) : Encoder Unit := do
  let g ← grammar
  let closure := g.program.closure c
  unfold (.context closure.parent)
  binding (g.program.signatureOf (.closure c)) (subtype unfold closure.type)
  op (if closure.isImplicit then .implicitClosure else .closure)
  write (.index closure.discriminator)

/-- An accessor of a property or subscript. -/
def accessor (storage : DeclId) (kind : AccessorKind) : Encoder Unit := do
  let g ← grammar
  let ending (operator : Operator) : Encoder Unit := do
    declType unfold storage
    op operator
    op (.accessor kind)
    staticMark storage
  match g.program.kindOf storage with
  | .property => do
    contextOf unfold storage
    declName storage
    ending .propertyAccessor
  | .subscript => do
    contextOf unfold storage
    ending .subscriptAccessor
  | _ => refuse (.unexpectedEntity storage .storage)

/-! ## Contexts -/

/-- An extension is written out only when it lives in another module than the type it
extends or adds requirements; otherwise its members belong to the type. -/
def extension (d extended : DeclId) : Encoder Unit := do
  let g ← grammar
  let own := (g.program.decl d).signature
  let outer := g.program.signatureOf (.decl extended)
  let isConstrained := own.isSome && own != outer
  let isSameModule := g.program.moduleOf (.decl d) == g.program.moduleOf (.decl extended)
  nominal unfold extended
  if isSameModule && !isConstrained then return
  moduleOf unfold d
  let isGeneric ← match own with
    | some s => signature unfold s outer
    | none => pure false
  op (if isGeneric then .constrainedExtension else .extension)

/-- A declaration as the context of others. -/
def declContext (d : DeclId) : Encoder Unit := do
  let g ← grammar
  match g.program.kindOf d with
  | .nativeModule | .foreignModule => moduleDecl unfold d
  | .extension extended => extension unfold d extended
  | .structType | .enumType | .classType | .protocolType _ | .typeAlias => nominal unfold d
  | _ => entity unfold d

/-- A context. -/
def context : Context → Encoder Unit
  | .decl d => declContext unfold d
  | .closure c => closure unfold c
  | .initializer property => do
    entity unfold property
    op .initializerBody
  | .defaultArgument owner i => do
    entity unfold owner
    op .defaultArgument
    write (.index i)
  | .accessor storage kind => accessor unfold storage kind

/-! ## Phrases -/

/-- A declaration that is a node, written out. -/
def declBody (d : DeclId) : Encoder Unit := do
  let g ← grammar
  match g.program.kindOf d with
  | .nativeModule => declName d
  | .opaqueResult naming => do
    entity unfold naming
    op .opaqueDecl
  | kind =>
    match Grammar.nominalOperator? kind with
    | some operator => do
      contextOf unfold d
      declName d
      op operator
    | none => refuse (.unexpectedEntity d .nominalOrAlias)

/-- A phrase, where `unfold` writes the phrases in it. -/
def phrase : Phrase → Encoder Unit
  | .type t => type unfold t
  | .context c => context unfold c
  | .conformance subject ref => conformance unfold subject ref
  | .body (.type t) => structural unfold t
  | .body (.decl d) => declBody unfold d

/-- A phrase in which at most `depth` phrases are nested. -/
def encode : Nat → Phrase → Encoder Unit
  | 0, _ => throw .tooDeep
  | depth + 1, p => phrase (encode depth) p

end NameMangling.Encoder
