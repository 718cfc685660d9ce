/-
# Packed words

Types are stored as words of 32 bits.  A handle is its position, an attribute is the
position of its choice, flags are single bits.  What a node is made of takes either one
word or a row of words, and readers take such a row apart again.

Main definitions:
* `TypeNode.payload`, the words of a node;
* the readers `nominalOf?`, `elementsOf`, `functionOf?`, `loweredOf?`, `compositionOf?`,
  `memberOf?`, `opaqueResultOf?` and `aliasOf?`, one for each layout.
-/
import NameMangling.Types.View

namespace NameMangling

/-! ## Handles -/

/-- The word of a type. -/
def TypeId.word (t : TypeId) : UInt32 := .ofNat t.index

/-- The type of a word. -/
def TypeId.ofWord (w : UInt32) : TypeId := ⟨w.toNat⟩

/-- The word of a type that may be absent. -/
def TypeId.optionWord : Option TypeId → UInt32
  | some t => t.word
  | none => absent.word

/-- The type of a word that may stand for the absence of one. -/
def TypeId.ofOptionWord (w : UInt32) : Option TypeId :=
  if w = absent.word then none else some (.ofWord w)

/-- The word of a declaration. -/
def DeclId.word (d : DeclId) : UInt32 := .ofNat d.index

/-- The declaration of a word. -/
def DeclId.ofWord (w : UInt32) : DeclId := ⟨w.toNat⟩

/-- The word of a tuple label; no label and the empty one share a word. -/
def Name.labelWord : Option Name → UInt32
  | some n => .ofNat n.slot
  | none => 0

/-- The tuple label of a word. -/
def Name.ofLabelWord (w : UInt32) : Option Name := if w = 0 then none else some ⟨w.toNat⟩

/-! ## Attributes -/

/-- The choices of an attribute, in the order of their words, and the choice that all other
words stand for. -/
structure Choices (α : Type) where
  choices : List α
  fallback : α

namespace Choices

variable {α : Type}

/-- The word of a choice. -/
def word [DecidableEq α] (c : Choices α) (a : α) : UInt32 := .ofNat (c.choices.idxOf a)

/-- The choice of a word. -/
def ofWord (c : Choices α) (w : UInt32) : α := c.choices[w.toNat]?.getD c.fallback

end Choices

/-- Representations of function values. -/
def FunctionRepr.all : Choices FunctionRepr :=
  ⟨[.native, .noEscape, .block, .cFunctionPointer, .thin], .native⟩

/-- Kinds of differentiability. -/
def Differentiability.all : Choices Differentiability :=
  ⟨[.none, .normal, .linear, .forward, .reverse], .none⟩

/-- Owners of contexts. -/
def ContextOwnership.all : Choices ContextOwnership :=
  ⟨[.thin, .owned, .guaranteed], .guaranteed⟩

/-- Ways of passing parameters. -/
def Passing.all : Choices Passing := ⟨[.indirect, .mutable, .owned, .guaranteed], .guaranteed⟩

/-- Ways of returning results. -/
def Returning.all : Choices Returning := ⟨[.indirect, .owned, .unowned], .owned⟩

/-- Whether a bit of a word is set. -/
def hasBit (w : UInt32) (i : UInt32) : Bool := w &&& (1 <<< i) != 0

/-- The attributes of a function type, which share one word. -/
structure FunctionAttributes where
  repr : FunctionRepr := .native
  isThrowing : Bool := false
  isAsync : Bool := false
  differentiability : Differentiability := .none
deriving DecidableEq, Inhabited

namespace FunctionAttributes

/-- The word of the attributes: the representation in bits 0 to 2, throwing in bit 3, async
in bit 4, differentiability in bits 5 to 7. -/
def word (a : FunctionAttributes) : UInt32 :=
  FunctionRepr.all.word a.repr ||| a.isThrowing.toUInt32 <<< 3 ||| a.isAsync.toUInt32 <<< 4
    ||| Differentiability.all.word a.differentiability <<< 5

/-- The attributes of a word. -/
def ofWord (w : UInt32) : FunctionAttributes where
  repr := FunctionRepr.all.ofWord (w &&& 7)
  isThrowing := hasBit w 3
  isAsync := hasBit w 4
  differentiability := Differentiability.all.ofWord (w >>> 5 &&& 7)

end FunctionAttributes

/-- The attributes of a function type. -/
def FunctionType.attributes (fn : FunctionType) : FunctionAttributes :=
  ⟨fn.repr, fn.isThrowing, fn.isAsync, fn.differentiability⟩

namespace ParamFlags

/-- The word of parameter flags, one bit for each. -/
def word (f : ParamFlags) : UInt32 :=
  f.isInout.toUInt32 ||| f.isVariadic.toUInt32 <<< 1 ||| f.isAutoclosure.toUInt32 <<< 2
    ||| f.isOwned.toUInt32 <<< 3 ||| f.isShared.toUInt32 <<< 4

/-- The parameter flags of a word; other bits are dropped. -/
def ofWord (w : UInt32) : ParamFlags where
  isInout := hasBit w 0
  isVariadic := hasBit w 1
  isAutoclosure := hasBit w 2
  isOwned := hasBit w 3
  isShared := hasBit w 4

end ParamFlags

namespace ParamKey

/-- The word of a parameter: the depth in the upper half, the index in the lower one. -/
def word (k : ParamKey) : UInt32 :=
  UInt32.ofNat k.depth <<< 16 ||| (UInt32.ofNat k.index &&& 0xFFFF)

/-- The parameter of a word. -/
def ofWord (w : UInt32) : ParamKey := ⟨(w >>> 16).toNat, (w &&& 0xFFFF).toNat⟩

end ParamKey

/-! ## Layouts -/

/-- What is stored for a node beside its kind: a word of its own, or a row of words. -/
inductive Payload
  | word (w : UInt32)
  | row (ws : List UInt32)
deriving DecidableEq, Inhabited

/-- The words of a payload. -/
def Payload.words : Payload → List UInt32
  | word w => [w]
  | row ws => ws

namespace TypeNode

/-- The payload of a node.  Lists of parts without an end mark come last or behind their
length, and a sugar node begins with the type it stands for. -/
def payload : TypeNode → Payload
  | emptyTuple | builtinWord | rawPointer | nativeObject | unknownObject | bridgeObject => .word 0
  | builtinInt width | builtinFloat width => .word (.ofNat width)
  | metatype t | existentialMetatype t => .word t.word
  | genericParam key => .word key.word
  | nominal decl parent => .row [decl.word, TypeId.optionWord parent]
  | boundGeneric decl parent args =>
    .row (decl.word :: TypeId.optionWord parent :: args.map (·.word))
  | tuple elements => .row (elements.flatMap fun e => [Name.labelWord e.label, e.type.word])
  | function fn =>
    .row (fn.attributes.word ::
      (fn.params.flatMap fun p => [p.type.word, p.flags.word]) ++ [fn.result.word])
  | lowered fn =>
    .row ([ContextOwnership.all.word fn.callee, FunctionAttributes.word { repr := fn.repr },
        fn.isAsync.toUInt32, .ofNat fn.params.length]
      ++ (fn.params.flatMap fun p => [Passing.all.word p.1, p.2.word])
      ++ .ofNat fn.results.length
      :: (fn.results.flatMap fun r => [Returning.all.word r.1, r.2.word])
      ++ [TypeId.optionWord fn.error])
  | existential c =>
    .row (TypeId.optionWord c.superclass :: c.anyObject.toUInt32
      :: (Ordered.distinct (·.index < ·.index) c.protocols).map (·.word))
  | dependentMember base member => .row [base.word, member.word]
  | opaqueResult decl ordinal args => .row (decl.word :: .ofNat ordinal :: args.map (·.word))
  | aliased decl underlying => .row [underlying.word, decl.word]
  | paren inner => .row [inner.word]
  | optionalSugar part desugared | arraySugar part desugared =>
    .row [desugared.word, part.word]
  | dictionarySugar key value desugared => .row [desugared.word, key.word, value.word]

end TypeNode

/-! ## Readers -/

/-- The words of a row in pairs; an odd last word is dropped. -/
def pairsOf : List UInt32 → List (UInt32 × UInt32)
  | w :: w' :: rest => (w, w') :: pairsOf rest
  | _ => []

/-- The first words of a row and the others, if there are enough of them. -/
def splitRow? (n : Nat) (ws : List UInt32) : Option (List UInt32 × List UInt32) :=
  if n ≤ ws.length then some (ws.take n, ws.drop n) else none

/-- The nominal type of a row. -/
def nominalOf? : List UInt32 → Option NominalType
  | decl :: parent :: args =>
    some ⟨.ofWord decl, TypeId.ofOptionWord parent, args.map TypeId.ofWord⟩
  | _ => none

/-- The tuple elements of a row. -/
def elementsOf (ws : List UInt32) : List TupleElement :=
  (pairsOf ws).map fun (label, type) => ⟨Name.ofLabelWord label, .ofWord type⟩

/-- The function type of a row: the first word and the last one apart, the parameters are in
between. -/
def functionOf? : List UInt32 → Option FunctionType
  | [] => none
  | attributes :: rest => rest.getLast?.map fun result =>
    let a := FunctionAttributes.ofWord attributes
    { params := (pairsOf rest.dropLast).map fun (type, flags) =>
        ⟨.ofWord type, ParamFlags.ofWord flags⟩
      result := .ofWord result
      repr := a.repr
      isThrowing := a.isThrowing
      isAsync := a.isAsync
      differentiability := a.differentiability }

/-- The lowered function type of a row. -/
def loweredOf? : List UInt32 → Option LoweredFunction
  | callee :: attributes :: isAsync :: paramCount :: rest => do
    let (params, rest) ← splitRow? (paramCount.toNat * 2) rest
    let resultCount ← rest.head?
    let (results, rest) ← splitRow? (resultCount.toNat * 2) rest.tail
    return {
      callee := ContextOwnership.all.ofWord callee
      repr := (FunctionAttributes.ofWord attributes).repr
      isAsync := isAsync != 0
      params := (pairsOf params).map fun (c, t) => (Passing.all.ofWord c, .ofWord t)
      results := (pairsOf results).map fun (c, t) => (Returning.all.ofWord c, .ofWord t)
      error := rest.head?.bind TypeId.ofOptionWord }
  | _ => none

/-- The protocol composition of a row. -/
def compositionOf? : List UInt32 → Option Composition
  | superclass :: anyObject :: protocols =>
    some ⟨protocols.map DeclId.ofWord, TypeId.ofOptionWord superclass, anyObject != 0⟩
  | _ => none

/-- The base and the associated type of a row. -/
def memberOf? : List UInt32 → Option (TypeId × DeclId)
  | [base, member] => some (.ofWord base, .ofWord member)
  | _ => none

/-- The opaque result type of a row. -/
def opaqueResultOf? : List UInt32 → Option OpaqueResult
  | decl :: ordinal :: args => some ⟨.ofWord decl, ordinal.toNat, args.map TypeId.ofWord⟩
  | _ => none

/-- The alias declaration and the underlying type of a row. -/
def aliasOf? : List UInt32 → Option (DeclId × TypeId)
  | [underlying, decl] => some (.ofWord decl, .ofWord underlying)
  | _ => none

end NameMangling
