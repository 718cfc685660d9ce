/-
# Encoders of names, signatures, conformances and types

One encoder for each production of names, generic signatures, conformances, function types
and types.  A type, a context, a conformance as used and a node spelled out can be met
inside each other to any depth; they are written by `unfold`.
-/
import NameMangling.Encoder.Basic

namespace NameMangling.Encoder

/-! ## Names -/

/-- The identifier of a declaration, or the stand-in for a missing name. -/
def identifier (d : DeclId) : Encoder Unit := do
  let g ← grammar
  let decl := g.program.decl d
  let foreign :=
    if g.options.usesForeignNames && decl.flags.isForeignVisible then decl.foreignName else none
  match foreign.or decl.name with
  | some n => write (.identifier (g.program.text n))
  | none => if g.options.allowsNameless then op .nameless else refuse (.namelessEntity d)

/-- The name of a declaration with its discriminator. -/
def declName (d : DeclId) : Encoder Unit := do
  let g ← grammar
  identifier d
  match (g.program.decl d).localDiscriminator, (g.program.decl d).privateDiscriminator with
  | some n, _ =>
    op .localName
    write (.index n)
  | none, some file =>
    write (.identifier (g.program.text file))
    op .privateName
  | none, none => pure ()

variable (unfold : Phrase → Encoder Unit)

/-- A type. -/
def subtype (t : TypeId) : Encoder Unit := unfold (.type t)

/-- A node of the symbol, written out when it is met for the first time. -/
def nodeOf (key : NodeKey) : Encoder Unit := node key (unfold (.body key))

/-- The context around a declaration. -/
def contextOf (d : DeclId) : Encoder Unit := do
  let g ← grammar
  match (g.program.decl d).parent with
  | some c => unfold (.context c)
  | none => refuse (.unexpectedEntity d .insideModule)

/-! ## Modules -/

/-- A module. -/
def moduleDecl (d : DeclId) : Encoder Unit := do
  let g ← grammar
  if g.program.isStandardModule d then op .standardModule
  else match g.program.kindOf d with
    | .foreignModule => op .foreignModule
    | .nativeModule => nodeOf unfold (.decl d)
    | _ => refuse (.unexpectedEntity d .aModule)

/-- The module that a declaration belongs to. -/
def moduleOf (d : DeclId) : Encoder Unit := do
  let g ← grammar
  match g.program.moduleOf (.decl d) with
  | some m => moduleDecl unfold m
  | none => refuse (.unexpectedEntity d .insideModule)

/-! ## Nominal declarations -/

/-- A nominal type or alias declaration. -/
def nominal (d : DeclId) : Encoder Unit := do
  let g ← grammar
  match Grammar.nominalOperator? (g.program.kindOf d) with
  | none => refuse (.unexpectedEntity d .nominalOrAlias)
  | some operator =>
    match g.standardName? d with
    | some name => op (.standard name)
    | none =>
      if operator = .typeAlias then nodeOf unfold (.decl d)
      else if ← place? d then return
      else nodeOf unfold (.decl d)

/-- A protocol. -/
def protocol (d : DeclId) : Encoder Unit := do
  let g ← grammar
  if (g.program.kindOf d).isProtocol then nominal unfold d
  else refuse (.unexpectedEntity d .aProtocol)

/-- The declaration of an opaque result type. -/
def opaqueDecl (d : DeclId) : Encoder Unit := do
  let g ← grammar
  match g.program.kindOf d with
  | .opaqueResult _ => if ← place? d then return else nodeOf unfold (.decl d)
  | _ => refuse (.unexpectedEntity d .anOpaqueResult)

/-! ## Generic parameters and signatures -/

/-- A generic parameter, which has to belong to the bound signature, if there is one. -/
def genericParam (key : ParamKey) : Encoder Unit := do
  let g ← grammar
  let scope ← scope
  let isBound := scope.signature.all fun s => (g.program.signature s).contains key
  if isBound then writeAll key.tokens else refuse (.unboundParameter key)

/-- A requirement. -/
def requirement (r : Requirement) : Encoder Unit := do
  subtype unfold r.subject
  match r.demand with
  | .conformance p =>
    protocol unfold p
    op .conformanceRequirement
  | .sameType other =>
    subtype unfold other
    op .sameTypeRequirement
  | .superclass bound =>
    subtype unfold bound
    op .superclassRequirement
  | .layout constraint =>
    op .layoutRequirement
    writeAll constraint.tokens

/-- What a signature adds to that of its context.  Tells whether that is anything. -/
def signature (s : SignatureId) (context : Option SignatureId) : Encoder Bool := do
  let g ← grammar
  let d := g.delta s context
  if d.isEmpty then return false
  binding (some s) (row (d.requirements.map (requirement unfold)))
  writeAll d.countTokens
  op .signature
  return true

/-- A signature without context, where there is one. -/
def signatureIfAny : Option SignatureId → Encoder Unit
  | some s => do
    let _ ← signature unfold s none
  | none => pure ()

/-! ## Conformances -/

/-- A conformance as declared. -/
def protocolConformance (c : ConformanceId) : Encoder Unit := do
  let g ← grammar
  let root := g.program.rootOf c
  let s := g.conformanceSignature c
  binding s do
    subtype unfold (g.program.conformance c).type
    protocol unfold root.protocol
    moduleOf unfold root.context
  signatureIfAny unfold s

/-- A declared conformance applied to a type. -/
def declaredConformance (c : ConformanceId) (t : TypeId) : Encoder Unit := do
  let g ← grammar
  let root := g.program.rootOf c
  subtype unfold t
  protocol unfold root.protocol
  moduleOf unfold root.context
  list ((g.program.conditionalConformances c t).map fun (subject, ref) =>
    unfold (.conformance (some subject) ref))
  op .declaredConformance

/-- One step of a derivation. -/
def conformanceStep : AccessStep → Encoder Unit
  | .root subject p i => do
    subtype unfold subject
    protocol unfold p
    op .requirementStep
    write (.index i)
  | .associated subject p i => do
    subtype unfold subject
    protocol unfold p
    op .associatedStep
    write (.index i)

/-- The conformance of a type parameter, by its derivation from the bound signature. -/
def derivedConformance (subject : TypeId) (p : DeclId) : Encoder Unit := do
  let g ← grammar
  let scope ← scope
  match scope.signature.bind fun s => g.program.accessPath s subject p with
  | some path => row (path.map (conformanceStep unfold))
  | none => refuse (.missingConformancePath subject p)

/-- A conformance as used. -/
def conformance (subject : Option TypeId) : ConformanceRef → Encoder Unit
  | .declared c t => declaredConformance unfold c t
  | .fromSignature p =>
    match subject with
    | some t => derivedConformance unfold t p
    | none => refuse (.unexpectedEntity p .knownConformance)

/-- Retroactive conformances, each with the requirement it meets. -/
def retroactive (refs : List (ConformanceRef × Nat)) : Encoder Unit :=
  row (refs.map fun (ref, i) => do
    unfold (.conformance none ref)
    op .retroactive
    write (.index i))

/-! ## Function types -/

/-- A label, where there is one. -/
def label : Option Name → Encoder Unit
  | some n => do
    let g ← grammar
    write (.identifier (g.program.text n))
  | none => pure ()

/-- One parameter of a list. -/
def parameter (p : Parameter) (l : Option Name) : Encoder Unit := do
  label l
  subtype unfold p.type
  row (p.flags.operators.map op)

/-- Parameters with their labels. -/
def parameterList : List Parameter → List (Option Name) → List (Encoder Unit)
  | [], _ => []
  | p :: ps, labels =>
    parameter unfold p (labels.head?.getD none) :: parameterList ps labels.tail

/-- The parameters of a function type. -/
def parameters (ps : List Parameter) (labels : List (Option Name)) : Encoder Unit := do
  let g ← grammar
  let list : Encoder Unit := do
    markFirst (parameterList unfold ps labels)
    op .tuple
  match ps with
  | [] => op .emptyList
  | [p] => if g.standsAlone p (labels.head?.getD none) then subtype unfold p.type else list
  | _ => list

/-- A function type, with labels for its parameters when it is the type of a declaration. -/
def function (t : TypeId) (labels : List (Option Name)) : Encoder Unit := do
  let g ← grammar
  match (g.program.types.node t).function? with
  | some f =>
    subtype unfold f.result
    parameters unfold f.params labels
    row (f.operators.map op)
  | none => refuse (.unexpectedType t .function)

/-- A lowered function type: the types of its parameters and results, then its operators. -/
def lowered (f : LoweredFunction) : Encoder Unit := do
  row (f.params.map fun (_, t) => subtype unfold t)
  row (f.results.map fun (_, t) => subtype unfold t)
  row (f.error.toList.map (subtype unfold))
  row (f.operators.map op)

/-! ## Types -/

/-- The arguments of one nesting level. -/
def argLevel (args : List TypeId) : Encoder Unit := list (args.map (subtype unfold))

/-- A nominal type with arguments, on its own level or that of an enclosing type.  An
optional type is written after the type it wraps. -/
def boundGeneric (t : TypeId) (n : NominalType) : Encoder Unit := do
  let g ← grammar
  let conformances := g.retroactiveOf t
  let plain : Encoder Unit := do
    nominal unfold n.decl
    row ((g.program.argLevels t).map (argLevel unfold))
    retroactive unfold conformances
    op .boundGeneric
  match n.parent, n.args with
  | none, [wrapped] =>
    if conformances.isEmpty && g.isOptional n.decl then
      subtype unfold wrapped
      op .optionalOf
    else plain
  | _, _ => plain

/-- A tuple type. -/
def tuple (elements : List TupleElement) : Encoder Unit := do
  markFirst (elements.map fun e => do
    label e.label
    subtype unfold e.type)
  op .tuple

/-- A protocol composition; its class bound is not written beside a superclass. -/
def composition (c : Composition) : Encoder Unit := do
  list (c.protocols.map (protocol unfold))
  match c.superclass with
  | some t =>
    subtype unfold t
    op .superclassComposition
  | none => op (if c.anyObject then .classComposition else .composition)

/-- A member of a type parameter. -/
def dependentMember (base : TypeId) (member : DeclId) : Encoder Unit := do
  let g ← grammar
  match (g.program.decl member).name, g.program.protocolOf? member with
  | none, _ => refuse (.namelessEntity member)
  | some _, none => refuse (.unexpectedEntity member .associatedType)
  | some n, some p =>
    subtype unfold base
    let scope ← scope
    if g.elides scope base p then
      write (.identifier (g.program.text n))
      op .member
    else
      protocol unfold p
      write (.identifier (g.program.text n))
      op .memberOfProtocol

/-- An opaque result type. -/
def opaqueResult (d : DeclId) (ordinal : Nat) (args : List TypeId) : Encoder Unit := do
  let g ← grammar
  opaqueDecl unfold d
  argLevel unfold args
  match g.program.signatureOf (.decl d) with
  | some s => retroactive unfold (g.retroactive (g.program.substitutions s args).conformances)
  | none => pure ()
  op .opaqueResult
  write (.index ordinal)

/-- What a reader answers for a type that its kind says the reader is for. -/
def payload {α : Type} (t : TypeId) (expected : TypeExpectation) (read : Option α)
    (f : α → Encoder Unit) : Encoder Unit :=
  match read with
  | some a => f a
  | none => refuse (.unexpectedType t expected)

/-- A type that is a node, written out. -/
def structural (t : TypeId) : Encoder Unit := do
  let g ← grammar
  let v := g.program.types.view t
  match v.kind with
  | .nominal | .boundGeneric => payload t .nominal v.nominal (boundGeneric unfold t)
  | .tuple => payload t .tuple v.tuple (tuple unfold)
  | .function => function unfold t []
  | .lowered => payload t .lowered v.lowered (lowered unfold)
  | .metatype =>
    payload t .metatype v.instanceType fun instanceType => do
      subtype unfold instanceType
      op .metatype
  | .existentialMetatype =>
    payload t .existentialMetatype v.instanceType fun instanceType => do
      subtype unfold instanceType
      op .existentialMetatype
  | .existential => payload t .existential v.existential (composition unfold)
  | .dependentMember =>
    payload t .dependentMember v.dependentMember fun (base, member) =>
      dependentMember unfold base member
  | .opaqueResult =>
    payload t .opaqueResult v.opaqueResult fun r => opaqueResult unfold r.decl r.ordinal r.args
  | _ => refuse (.unexpectedType t .structural)

/-- An alias keeps its name unless it is generic, in which case the type it stands for is
written. -/
def aliased (d : DeclId) (underlying : TypeId) : Encoder Unit := do
  let g ← grammar
  if (g.program.signatureOf (.decl d)).isNone then nominal unfold d
  else subtype unfold underlying

/-- An opaque result of the declaration whose type is written, by its number. -/
def ownResult : Nat → Encoder Unit
  | 0 => op .ownResult
  | ordinal + 1 => do
    op .ownLaterResult
    write (.index ordinal)

/-- A builtin type with a width. -/
def builtin (operator : Operator) (width : Nat) : Encoder Unit := do
  op operator
  write (.count width)

/-- A type, read by the readers for its kind. -/
def type (t : TypeId) : Encoder Unit := do
  let g ← grammar
  let scope ← scope
  let v := g.program.types.view t
  if !g.acceptsSugar && !g.program.types.isCanonical t then refuse (.nonCanonicalType t)
  else match v.kind with
    | .aliased | .paren | .optionalSugar | .arraySugar | .dictionarySugar =>
      match v.aliased, v.desugared with
      | some (d, _), some desugared => aliased unfold d desugared
      | none, some desugared => subtype unfold desugared
      | _, none => refuse (.nonCanonicalType t)
    | .emptyTuple => op .emptyTuple
    | .builtinInt => builtin .builtinInt (v.builtinWidth.getD 0)
    | .builtinFloat => builtin .builtinFloat (v.builtinWidth.getD 0)
    | .builtinWord => op .builtinWord
    | .rawPointer => op .rawPointer
    | .nativeObject => op .nativeObject
    | .unknownObject => op .unknownObject
    | .bridgeObject => op .bridgeObject
    | .genericParam => payload t .genericParam v.genericParam genericParam
    | .nominal =>
      match v.nominal.filter (·.parent.isNone) with
      | some n => nominal unfold n.decl
      | none => nodeOf unfold (.type t)
    | .opaqueResult =>
      if v.opaqueResult.any fun r => g.isOwnResult scope r.decl then
        payload t .opaqueResult v.opaqueResult fun r => ownResult r.ordinal
      else nodeOf unfold (.type t)
    | _ => nodeOf unfold (.type t)

end NameMangling.Encoder
