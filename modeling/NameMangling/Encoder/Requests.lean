/-
# Encoders of requests

A request that fits the program becomes a command: the text its symbol starts with, the mode
it is written in, and the encoder that writes it.

Main definition: `Mangler.command`.
-/
import NameMangling.Encoder.Entities

namespace NameMangling

/-- How the symbol of a request is written. -/
structure Command where
  /-- The text in front of everything else. -/
  lead : String := "$q"
  /-- Whether sugar is accepted, whatever the options say. -/
  keepsSugar : Bool := false
  /-- The declaration that the symbol names, which is never a placeholder. -/
  subject : Option DeclId := none
  /-- Whether placeholders may be written at all. -/
  allowsPlaceholders : Bool := true
  /-- What writes the symbol. -/
  body : Encoder Unit

namespace Encoder

/-- The operator of a variant of an entity symbol. -/
def variant : EntityVariant → Encoder Unit
  | .plain => pure ()
  | .asyncHandler => op .asyncHandler
  | .dynamicThunk => op .dynamicThunk
  | .nativeToForeign => op .nativeToForeign
  | .foreignToNative => op .foreignToNative

/-- The mark of a helper for code that other modules may inline. -/
def expansion : Expansion → Encoder Unit
  | .minimal => op .minimalExpansion
  | .maximal => pure ()

/-- An index subset, one letter for each number below its capacity. -/
def indexSubset (s : IndexSubset) : Encoder Unit :=
  row ((List.range s.capacity).map fun i => op (if s.contains i then .indexIn else .indexOut))

/-- The function a derivative belongs to: a symbol without its lead, copied as it is, or
any other name as an identifier. -/
def differentiated (name : String) : Encoder Unit :=
  match name.toList with
  | '$' :: 'q' :: rest => write (.verbatim (String.ofList rest))
  | _ => do
    write (.identifier name)
    op .foreignFunction

/-- The names of the variables of a pattern binding entry, with a mark after the first when
there are more. -/
def boundNames : List DeclId → Encoder Unit
  | [] => pure ()
  | [d] => declName d
  | ds => markFirst (ds.map declName)

variable (unfold : Phrase → Encoder Unit)

/-! ## Derivatives -/

/-- What a derivative is taken with respect to, and its signature. -/
def derivativeConfig (c : DerivativeConfig) : Encoder Unit := do
  indexSubset c.parameters
  op .parameterIndices
  indexSubset c.results
  op .resultIndices
  signatureIfAny unfold c.signature

/-- A synthesized derivative artifact: the differentiated function, its operators, the
configuration. -/
def derivative (name : String) (code : Encoder Unit) (c : DerivativeConfig) : Encoder Unit := do
  differentiated name
  code
  derivativeConfig unfold c

/-! ## Key paths -/

/-- A key path accessor; only those of subscripts have arguments. -/
def keyPathAccessor (k : KeyPathComponent) (operator : Operator) : Encoder Unit := do
  let g ← grammar
  entity unfold k.storage
  signatureIfAny unfold k.signature
  binding k.signature do
    subtype unfold k.base
    match k.substitutions with
    | some subs =>
      if g.program.kindOf k.storage = .subscript then argLevel unfold subs.replacements
    | none => pure ()
  op operator
  expansion k.expansion

/-- A helper for the index values of a subscript. -/
def keyPathIndexHelper (k : KeyPathIndices) (operator : Operator) : Encoder Unit := do
  binding k.signature (row (k.indices.map (subtype unfold)))
  signatureIfAny unfold k.signature
  op operator
  expansion k.expansion

/-! ## Thunks -/

/-- The requirement that a witness thunk meets. -/
def witnessTarget : WitnessTarget → Encoder Unit
  | .decl d => entity unfold d
  | .accessor storage kind => accessor unfold storage kind

/-- A thunk between types: the types, the signature they are under, the operator. -/
def thunk (types : List TypeId) (s : Option SignatureId) (operator : Operator) :
    Encoder Unit := do
  binding s (row (types.map (subtype unfold)))
  signatureIfAny unfold s
  op operator

end Encoder

/-! ## Commands -/

namespace Mangler

open Encoder

variable (m : Mangler) (unfold : Phrase → Encoder Unit)

/-- The name under which the foreign runtime knows a nominal type: its foreign name where
it is visible and has one, otherwise a symbol with a lead of its own. -/
def foreignRuntimeCommand (d : DeclId) : Command :=
  let decl := m.program.decl d
  match if decl.flags.isForeignVisible then decl.foreignName else none with
  | some n => { lead := "", body := Encoder.write (.verbatim (m.program.text n)) }
  | none => { lead := "_Qt", allowsPlaceholders := false, body := nominal unfold d }

/-- The command for a request, or the reason why the request does not fit the program. -/
def command (r : Request) : Except Refusal Command :=
  let g := m.grammar false
  match r with
  | .entity d kind =>
    .ok { body := do variant kind; entity unfold d }
  | .closure c kind =>
    .ok { body := do variant kind; Encoder.closure unfold c }
  | .constructor d allocating kind => do
    g.expectConstructor d
    return { body := do variant kind; constructor unfold d allocating }
  | .destructor d deallocating kind => do
    g.expect d .aDestructor (· == .destructor)
    return { body := do variant kind; destructor unfold d deallocating }
  | .ivarInitializer d destroyer kind => do
    g.expect d .aClass (· == .classType)
    let operator : Operator := if destroyer then .ivarDestroyer else .ivarInitializer
    return { body := do variant kind; nominal unfold d; op operator }
  | .accessor storage accessor kind =>
    .ok { body := do variant kind; Encoder.accessor unfold storage accessor }
  | .globalGetter d => do
    g.expectProperty d
    return { body := value unfold d true .globalGetter }
  | .globalVariable d => do
    g.expectProperty d
    return { body := entity unfold d }
  | .defaultArgument owner index => do
    g.expectParameter owner index
    return { body := context unfold (.defaultArgument owner index) }
  | .initializer d => do
    g.expectProperty d
    return { body := context unfold (.initializer d) }
  | .backingInitializer d => do
    g.expectProperty d
    return { body := do entity unfold d; op .backingInitializer }
  | .nominalType d => do
    g.expectNominal d
    return { subject := some d, body := nominal unfold d }
  | .localTypeDecl d => do
    g.expectNominal d
    return { lead := "", subject := some d, body := nominal unfold d }
  | .globalInit binding entry isFunction => do
    let b := g.program.binding binding
    let ds ← Grammar.entryVariables b entry
    let operator : Operator := if isFunction then .globalInitFunction else .globalInitToken
    return { body := do unfold (.context b.parent); boundNames ds; op operator }
  | .declType d =>
    .ok { body := do Encoder.declType unfold d; op .declType }
  | .vtableThunk base derived =>
    .ok { body := do entity unfold derived; entity unfold base; op .vtableThunk }
  | .constructorVtableThunk base derived allocating => do
    g.expectConstructor base
    g.expectConstructor derived
    return { body := do
      constructor unfold derived allocating
      constructor unfold base allocating
      op .vtableThunk }
  | .witnessTable c =>
    .ok { body := do protocolConformance unfold c; op .witnessTable }
  | .witnessThunk c requirement =>
    .ok { body := do
      protocolConformance unfold c
      witnessTarget unfold requirement
      op .witnessThunk }
  | .closureWitnessThunk c k =>
    .ok { body := do
      protocolConformance unfold c
      Encoder.closure unfold k
      op .witnessThunk }
  | .reabstractionThunk source target self signature =>
    let operator : Operator := if self.isSome then .methodReabstraction else .reabstraction
    .ok { body := thunk unfold (source :: target :: self.toList) signature operator }
  | .completionHandler block result signature isPredefined =>
    let operator : Operator := if isPredefined then .predefinedHandler else .completionHandler
    .ok { body := thunk unfold [block, result] signature operator }
  | .keyPathGetter k => do
    g.expectStorage k.storage
    return { body := keyPathAccessor unfold k .keyPathGetter }
  | .keyPathSetter k => do
    g.expectStorage k.storage
    return { body := keyPathAccessor unfold k .keyPathSetter }
  | .keyPathEquals k => .ok { body := keyPathIndexHelper unfold k .keyPathEquals }
  | .keyPathHash k => .ok { body := keyPathIndexHelper unfold k .keyPathHash }
  | .derivativeFunction name kind config =>
    .ok { body := derivative unfold name (do op .derivative; op kind.operator) config }
  | .linearMap name kind config =>
    .ok { body := derivative unfold name (do op .derivative; op kind.operator) config }
  | .generatedDecl name decl kind block config =>
    let code : Encoder Unit := do
      op .derivative
      op decl.operator
      op kind.operator
      Encoder.write (.index block)
    .ok { body := derivative unfold name code config }
  | .differentiabilityWitness name kind config =>
    .ok { body := derivative unfold name (do op .derivativeWitness; op kind.operator) config }
  | .typeForDebugger t context =>
    .ok { keepsSugar := true
          body := do
            binding (context.bind g.program.signatureOf) (subtype unfold t)
            op .declType }
  | .typeForTypeName t =>
    .ok { lead := "", body := subtype unfold (g.program.types.canonical t) }
  | .typeWithoutLead t => .ok { lead := "", body := subtype unfold t }
  | .opaqueTypeDescriptor d =>
    .ok { subject := some d, body := do opaqueDecl unfold d; op .opaqueDescriptor }
  | .opaqueTypeDecl d => .ok { subject := some d, body := opaqueDecl unfold d }
  | .opaqueTypeDeclOf naming => do
    let d ← g.expectOpaqueResult naming
    return { subject := some d, body := opaqueDecl unfold d }
  | .foreignRuntimeName d => do
    g.expectNominal d
    return m.foreignRuntimeCommand unfold d
  | .typeReference t lead =>
    .ok { lead, allowsPlaceholders := false
          body := subtype unfold (g.program.types.canonical t) }
  | .typeContextReference d lead => do
    g.expect d .typeContext DeclKind.isTypeContext
    return { lead, allowsPlaceholders := false, body := context unfold (.decl d) }
  | .declReference d lead =>
    .ok { lead, allowsPlaceholders := false, body := entity unfold d }
  | .accessorReference storage kind lead =>
    .ok { lead, allowsPlaceholders := false
          body := Encoder.accessor unfold storage kind }

end Mangler

end NameMangling
