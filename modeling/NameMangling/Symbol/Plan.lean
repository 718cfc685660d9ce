/-
# Plans

A request is first turned into a plan: the text its symbol starts with, the pieces that
follow, and what is special about spelling them.  Here requests are refused that do not fit
the program, before anything is written.

Main definition: `Grammar.plan`.
-/
import NameMangling.Symbol.Request
import NameMangling.Grammar

namespace NameMangling

/-- How the symbol of a request is written. -/
structure Plan where
  /-- The text in front of everything else. -/
  lead : String := "$q"
  /-- Whether sugar is accepted, whatever the options say. -/
  keepsSugar : Bool := false
  /-- The declaration that the symbol names, which is never a placeholder. -/
  subject : Option DeclId := none
  /-- Whether placeholders may be written at all. -/
  allowsPlaceholders : Bool := true
  /-- What is spelled. -/
  pieces : List Piece
deriving DecidableEq, Inhabited

/-- The operator of a variant of an entity symbol. -/
def EntityVariant.pieces : EntityVariant → List Piece
  | plain => []
  | asyncHandler => [.op .asyncHandler]
  | dynamicThunk => [.op .dynamicThunk]
  | nativeToForeign => [.op .nativeToForeign]
  | foreignToNative => [.op .foreignToNative]

/-- The mark of a helper for code that other modules may inline. -/
def Expansion.pieces : Expansion → List Piece
  | minimal => [.op .minimalExpansion]
  | maximal => []

/-! ## Derivatives -/

/-- The operator of a derivative function. -/
def DerivativeKind.operator : DerivativeKind → Operator
  | forward => .forwardDerivative
  | reverse => .reverseDerivative

/-- The operator of a linear map. -/
def LinearMapMode.operator : LinearMapMode → Operator
  | differential => .differential
  | pullback => .pullback

/-- The operator of a generated declaration. -/
def GeneratedDecl.operator : GeneratedDecl → Operator
  | linearMapStruct => .linearMapStruct
  | branchingTraceEnum => .branchingTraceEnum

/-- The operator of a differentiability witness. -/
def WitnessKind.operator : WitnessKind → Operator
  | normal => .normalWitness
  | linear => .linearWitness
  | forward => .forwardWitness
  | reverse => .reverseWitness

/-- An index subset, one letter for each number below its capacity. -/
def IndexSubset.pieces (s : IndexSubset) : List Piece :=
  (List.range s.capacity).map fun i => .op (if s.contains i then .indexIn else .indexOut)

/-- The function a derivative belongs to: a symbol without its lead, copied as it is, or
any other name as an identifier. -/
def differentiatedPieces (differentiated : String) : List Piece :=
  match differentiated.toList with
  | '$' :: 'q' :: rest => [.token (.verbatim (String.ofList rest))]
  | _ => [.token (.identifier differentiated), .op .foreignFunction]

namespace Grammar

variable (g : Grammar)

/-- The scope in which symbols start: no signature, and no declaration being spelled. -/
def outermost : Scope := {}

/-- A scope that checks parameters against a signature, where there is one. -/
def under (s : Option SignatureId) : Scope := { signature := s }

/-- What a derivative is taken with respect to, and its signature. -/
def derivativeConfig (c : DerivativeConfig) : List Piece :=
  c.parameters.pieces ++ .op .parameterIndices :: c.results.pieces ++ .op .resultIndices ::
    g.signatureIfAny outermost c.signature

/-- A synthesized derivative artifact: the differentiated function, its operators, the
configuration. -/
def derivative (differentiated : String) (code : List Piece) (c : DerivativeConfig) : List Piece :=
  differentiatedPieces differentiated ++ code ++ g.derivativeConfig c

/-! ## Key paths -/

/-- A key path accessor; only those of subscripts have arguments. -/
def keyPathAccessor (k : KeyPathComponent) (operator : Operator) : List Piece :=
  let args :=
    match k.substitutions with
    | some subs =>
      if g.program.kindOf k.storage = .subscript then
        argLevel (under k.signature) subs.replacements
      else []
    | none => []
  g.entity outermost k.storage ++ g.signatureIfAny outermost k.signature
    ++ .type (under k.signature) k.base :: args ++ .op operator :: k.expansion.pieces

/-- A helper for the index values of a subscript. -/
def keyPathIndexHelper (k : KeyPathIndices) (operator : Operator) : List Piece :=
  k.indices.map (.type (under k.signature)) ++ g.signatureIfAny outermost k.signature
    ++ .op operator :: k.expansion.pieces

/-! ## Thunks -/

/-- The requirement that a witness thunk meets. -/
def witnessTarget : WitnessTarget → List Piece
  | .decl d => g.entity outermost d
  | .accessor storage kind => g.accessor outermost storage kind

/-- The names of the variables of a pattern binding entry, with a mark after the first when
there are more. -/
def boundNames : List DeclId → List Piece
  | [] => []
  | [d] => g.declName d
  | ds => markFirst (ds.map g.declName)

/-! ## Plans -/

/-- Refuse a declaration of the wrong kind. -/
def expect (d : DeclId) (expected : DeclExpectation) (accepts : DeclKind → Bool) :
    Except Refusal Unit :=
  if accepts (g.program.kindOf d) then .ok () else .error (.unexpectedEntity d expected)

/-- Refuse a declaration that is not a property. -/
def expectProperty (d : DeclId) : Except Refusal Unit :=
  g.expect d .aProperty (· == .property)

/-- Refuse a declaration that is not a constructor. -/
def expectConstructor (d : DeclId) : Except Refusal Unit :=
  g.expect d .aConstructor (· == .constructor)

/-- Refuse a declaration that is not a nominal type. -/
def expectNominal (d : DeclId) : Except Refusal Unit :=
  g.expect d .aNominal DeclKind.isNominal

/-- Refuse a declaration that is neither a property nor a subscript. -/
def expectStorage (d : DeclId) : Except Refusal Unit :=
  g.expect d .storage DeclKind.isStorage

/-- Refuse an index of a parameter that a declaration does not have. -/
def expectParameter (owner : DeclId) (index : Nat) : Except Refusal Unit :=
  match (g.program.decl owner).interfaceType.bind fun t => (g.program.types.node t).function? with
  | none => .error (.unexpectedEntity owner .functionTyped)
  | some f =>
    if index < f.params.length then .ok () else .error (.invalidIndex index f.params.length)

/-- The variables of an entry of a pattern binding, of which there has to be one. -/
def entryVariables (b : PatternBinding) (entry : Nat) : Except Refusal (List DeclId) :=
  match b.entries[entry]? with
  | none => .error (.invalidIndex entry b.entries.length)
  | some [] => .error (.emptyPatternEntry entry)
  | some ds => .ok ds

/-- The opaque result type that belongs to a declaration. -/
def expectOpaqueResult (naming : DeclId) : Except Refusal DeclId :=
  match g.program.opaqueResultOf? naming with
  | some d => .ok d
  | none => .error (.unexpectedEntity naming .opaqueNaming)

/-- The name under which the foreign runtime knows a nominal type: its foreign name where
it is visible and has one, otherwise a symbol with a lead of its own. -/
def foreignRuntimePlan (d : DeclId) : Plan :=
  let decl := g.program.decl d
  match if decl.flags.isForeignVisible then decl.foreignName else none with
  | some n => { lead := "", pieces := [.token (.verbatim (g.program.text n))] }
  | none => { lead := "_Qt", allowsPlaceholders := false, pieces := g.nominal outermost d }

/-- The plan for a request, or the reason why the request does not fit the program. -/
def plan : Request → Except Refusal Plan
  | .entity d kind => .ok { pieces := kind.pieces ++ g.entity outermost d }
  | .closure c kind => .ok { pieces := kind.pieces ++ g.closure outermost c }
  | .constructor d allocating kind => do
    g.expectConstructor d
    return { pieces := kind.pieces ++ g.constructor outermost d allocating }
  | .destructor d deallocating kind => do
    g.expect d .aDestructor (· == .destructor)
    return { pieces := kind.pieces ++ g.destructor outermost d deallocating }
  | .ivarInitializer d destroyer kind => do
    g.expect d .aClass (· == .classType)
    let operator : Operator := if destroyer then .ivarDestroyer else .ivarInitializer
    return { pieces := kind.pieces ++ g.nominal outermost d ++ [.op operator] }
  | .accessor storage accessor kind =>
    .ok { pieces := kind.pieces ++ g.accessor outermost storage accessor }
  | .globalGetter d => do
    g.expectProperty d
    return { pieces := g.value outermost d true .globalGetter }
  | .globalVariable d => do
    g.expectProperty d
    return { pieces := g.entity outermost d }
  | .defaultArgument owner index => do
    g.expectParameter owner index
    return { pieces := g.context outermost (.defaultArgument owner index) }
  | .initializer d => do
    g.expectProperty d
    return { pieces := g.context outermost (.initializer d) }
  | .backingInitializer d => do
    g.expectProperty d
    return { pieces := g.entity outermost d ++ [.op .backingInitializer] }
  | .nominalType d => do
    g.expectNominal d
    return { subject := some d, pieces := g.nominal outermost d }
  | .localTypeDecl d => do
    g.expectNominal d
    return { lead := "", subject := some d, pieces := g.nominal outermost d }
  | .globalInit binding entry isFunction => do
    let b := g.program.binding binding
    let ds ← entryVariables b entry
    let operator : Operator := if isFunction then .globalInitFunction else .globalInitToken
    return { pieces := .context outermost b.parent :: g.boundNames ds ++ [.op operator] }
  | .declType d => .ok { pieces := g.declType outermost d ++ [.op .declType] }
  | .vtableThunk base derived =>
    .ok { pieces := g.entity outermost derived ++ g.entity outermost base ++ [.op .vtableThunk] }
  | .constructorVtableThunk base derived allocating => do
    g.expectConstructor base
    g.expectConstructor derived
    return { pieces := g.constructor outermost derived allocating
      ++ g.constructor outermost base allocating ++ [.op .vtableThunk] }
  | .witnessTable c =>
    .ok { pieces := g.protocolConformance outermost c ++ [.op .witnessTable] }
  | .witnessThunk c requirement =>
    .ok { pieces := g.protocolConformance outermost c ++ g.witnessTarget requirement
      ++ [.op .witnessThunk] }
  | .closureWitnessThunk c closure =>
    .ok { pieces := g.protocolConformance outermost c ++ g.closure outermost closure
      ++ [.op .witnessThunk] }
  | .reabstractionThunk source target self signature =>
    let operator : Operator := if self.isSome then .methodReabstraction else .reabstraction
    .ok { pieces := (source :: target :: self.toList).map (.type (under signature))
      ++ g.signatureIfAny outermost signature ++ [.op operator] }
  | .completionHandler block result signature isPredefined =>
    let operator : Operator := if isPredefined then .predefinedHandler else .completionHandler
    .ok { pieces := [block, result].map (.type (under signature))
      ++ g.signatureIfAny outermost signature ++ [.op operator] }
  | .keyPathGetter k => do
    g.expectStorage k.storage
    return { pieces := g.keyPathAccessor k .keyPathGetter }
  | .keyPathSetter k => do
    g.expectStorage k.storage
    return { pieces := g.keyPathAccessor k .keyPathSetter }
  | .keyPathEquals k => .ok { pieces := g.keyPathIndexHelper k .keyPathEquals }
  | .keyPathHash k => .ok { pieces := g.keyPathIndexHelper k .keyPathHash }
  | .derivativeFunction differentiated kind config =>
    .ok { pieces := g.derivative differentiated [.op .derivative, .op kind.operator] config }
  | .linearMap differentiated kind config =>
    .ok { pieces := g.derivative differentiated [.op .derivative, .op kind.operator] config }
  | .generatedDecl differentiated decl kind block config =>
    let code : List Piece :=
      [.op .derivative, .op decl.operator, .op kind.operator, .token (.index block)]
    .ok { pieces := g.derivative differentiated code config }
  | .differentiabilityWitness differentiated kind config =>
    .ok { pieces := g.derivative differentiated [.op .derivativeWitness, .op kind.operator] config }
  | .typeForDebugger t context =>
    let scope := under (context.bind g.program.signatureOf)
    .ok { keepsSugar := true, pieces := [.type scope t, .op .declType] }
  | .typeForTypeName t =>
    .ok { lead := "", pieces := [.type outermost (g.program.types.canonical t)] }
  | .typeWithoutLead t => .ok { lead := "", pieces := [.type outermost t] }
  | .opaqueTypeDescriptor d =>
    .ok { subject := some d, pieces := g.opaqueDecl outermost d ++ [.op .opaqueDescriptor] }
  | .opaqueTypeDecl d => .ok { subject := some d, pieces := g.opaqueDecl outermost d }
  | .opaqueTypeDeclOf naming => do
    let d ← g.expectOpaqueResult naming
    return { subject := some d, pieces := g.opaqueDecl outermost d }
  | .foreignRuntimeName d => do
    g.expectNominal d
    return g.foreignRuntimePlan d
  | .typeReference t lead =>
    .ok { lead, allowsPlaceholders := false,
          pieces := [.type outermost (g.program.types.canonical t)] }
  | .typeContextReference d lead => do
    g.expect d .typeContext DeclKind.isTypeContext
    return { lead, allowsPlaceholders := false, pieces := g.context outermost (.decl d) }
  | .declReference d lead =>
    .ok { lead, allowsPlaceholders := false, pieces := g.entity outermost d }
  | .accessorReference storage kind lead =>
    .ok { lead, allowsPlaceholders := false, pieces := g.accessor outermost storage kind }

end Grammar

end NameMangling
