/-
# Operators

The letters of the symbol grammar.  Symbols are in postfix form: the parts of a phrase
come first and an operator says what they make.  `Operator.letters` is the table of all
spellings; they consist of letters and the underscore alone.
-/
import NameMangling.Types.Attribute
import NameMangling.Decl

namespace NameMangling

/-- Declarations of the standard library with a spelling of their own. -/
inductive StandardName
  | int | uint | bool | double | float | string | character
  | array | dictionary | set | optional | equatable | hashable
deriving DecidableEq, Inhabited

namespace StandardName

/-- The names that have a spelling of their own. -/
def all : List StandardName :=
  [int, uint, bool, double, float, string, character, array, dictionary, set, optional,
   equatable, hashable]

/-- The name as the standard library declares it. -/
def text : StandardName → String
  | int => "Int"
  | uint => "UInt"
  | bool => "Bool"
  | double => "Double"
  | float => "Float"
  | string => "String"
  | character => "Character"
  | array => "Array"
  | dictionary => "Dictionary"
  | set => "Set"
  | optional => "Optional"
  | equatable => "Equatable"
  | hashable => "Hashable"

/-- The spelling of the declaration. -/
def letters : StandardName → String
  | int => "Si"
  | uint => "Su"
  | bool => "Sb"
  | double => "Sd"
  | float => "Sf"
  | string => "SS"
  | character => "SJ"
  | array => "Sa"
  | dictionary => "SD"
  | set => "Sh"
  | optional => "Sq"
  | equatable => "SQ"
  | hashable => "SH"

/-- The standard library declaration of a given name. -/
def ofText? (s : String) : Option StandardName := all.find? (·.text == s)

end StandardName

/-- The operators of the grammar. -/
inductive Operator
  -- types
  | emptyTuple | builtinInt | builtinFloat | builtinWord
  | rawPointer | nativeObject | unknownObject | bridgeObject
  | emptyList | firstOfList
  | tuple | metatype | existentialMetatype
  | composition | superclassComposition | classComposition
  | boundGeneric | optionalOf | retroactive
  | member | memberOfProtocol
  | opaqueResult | ownResult | ownLaterResult
  | firstParam | outerParam | innerParam
  -- function types
  | throwing | async
  | differentiable | linear | forwardDifferentiable | reverseDifferentiable
  | repr (r : FunctionRepr)
  | inoutParam | ownedParam | sharedParam | variadicParam | autoclosureParam
  | lowered | callee (c : ContextOwnership) | loweredBlock | loweredCPointer | loweredAsync
  | passed (c : Passing) | returned (c : Returning) | errorResult | loweredEnd
  -- declarations
  | standardModule | foreignModule | standard (name : StandardName)
  | structType | enumType | classType | protocolType | typeAlias
  | extension | constrainedExtension
  | nameless | localName | privateName
  | opaqueDecl | initializerBody | defaultArgument
  | func | property | subscript | enumElement | associatedType
  | allocator | initializer | deallocator | destructor
  | static | genericValue
  | closure | implicitClosure
  | propertyAccessor | subscriptAccessor | accessor (kind : AccessorKind)
  -- generic signatures
  | conformanceRequirement | sameTypeRequirement | superclassRequirement | layoutRequirement
  | unknownLayout | refCountedLayout | nativeRefCountedLayout | classLayout | nativeClassLayout
  | trivialLayout | exactSizeLayout | atMostSizeLayout
  | paramCounts | signature
  -- conformances
  | declaredConformance | requirementStep | associatedStep
  -- symbols
  | asyncHandler | dynamicThunk | nativeToForeign | foreignToNative
  | ivarDestroyer | ivarInitializer | globalGetter | backingInitializer
  | globalInitFunction | globalInitToken | declType
  | vtableThunk | witnessTable | witnessThunk
  | reabstraction | methodReabstraction | predefinedHandler | completionHandler
  | keyPathGetter | keyPathSetter | keyPathEquals | keyPathHash | minimalExpansion
  | opaqueDescriptor
  -- derivatives
  | foreignFunction | derivative | derivativeWitness
  | forwardDerivative | reverseDerivative | differential | pullback
  | linearMapStruct | branchingTraceEnum
  | normalWitness | linearWitness | forwardWitness | reverseWitness
  | indexIn | indexOut | parameterIndices | resultIndices
deriving DecidableEq, Inhabited

namespace Operator

/-- How an operator is written. -/
def letters : Operator → String
  | emptyTuple => "yt"
  | builtinInt => "Bi"
  | builtinFloat => "Bf"
  | builtinWord => "Bw"
  | rawPointer => "Bp"
  | nativeObject => "Bo"
  | unknownObject => "BO"
  | bridgeObject => "Bb"
  | emptyList => "y"
  | firstOfList => "_"
  | tuple => "t"
  | metatype => "m"
  | existentialMetatype => "Xp"
  | composition => "p"
  | superclassComposition => "Xc"
  | classComposition => "Xl"
  | boundGeneric => "G"
  | optionalOf => "Sg"
  | retroactive => "g"
  | member => "Qa"
  | memberOfProtocol => "QA"
  | opaqueResult => "Qo"
  | ownResult => "Qr"
  | ownLaterResult => "QR"
  | firstParam => "x"
  | outerParam => "q"
  | innerParam => "qd"
  | throwing => "K"
  | async => "Ya"
  | differentiable => "Yjd"
  | linear => "Yjl"
  | forwardDifferentiable => "Yjf"
  | reverseDifferentiable => "Yjr"
  | repr .native => "c"
  | repr .noEscape => "Xe"
  | repr .block => "XB"
  | repr .cFunctionPointer => "XC"
  | repr .thin => "Xf"
  | inoutParam => "z"
  | ownedParam => "n"
  | sharedParam => "h"
  | variadicParam => "d"
  | autoclosureParam => "Xk"
  | lowered => "I"
  | callee .thin => "t"
  | callee .owned => "x"
  | callee .guaranteed => "g"
  | loweredBlock => "B"
  | loweredCPointer => "C"
  | loweredAsync => "H"
  | passed .indirect => "n"
  | passed .mutable => "l"
  | passed .owned => "x"
  | passed .guaranteed => "g"
  | returned .indirect => "rr"
  | returned .owned => "ro"
  | returned .unowned => "rd"
  | errorResult => "zo"
  | loweredEnd => "_"
  | standardModule => "s"
  | foreignModule => "So"
  | standard name => name.letters
  | structType => "V"
  | enumType => "O"
  | classType => "C"
  | protocolType => "P"
  | typeAlias => "a"
  | extension => "E"
  | constrainedExtension => "XE"
  | nameless => "Xn"
  | localName => "L"
  | privateName => "LL"
  | opaqueDecl => "QO"
  | initializerBody => "fi"
  | defaultArgument => "fA"
  | func => "F"
  | property => "vp"
  | subscript => "ip"
  | enumElement => "fO"
  | associatedType => "Qy"
  | allocator => "fC"
  | initializer => "fc"
  | deallocator => "fD"
  | destructor => "fd"
  | static => "Z"
  | genericValue => "u"
  | closure => "fU"
  | implicitClosure => "fu"
  | propertyAccessor => "v"
  | subscriptAccessor => "i"
  | accessor .get => "g"
  | accessor .set => "s"
  | accessor .read => "r"
  | accessor .modify => "M"
  | accessor .willSet => "w"
  | accessor .didSet => "W"
  | accessor .address => "lu"
  | accessor .mutableAddress => "au"
  | accessor .init => "i"
  | conformanceRequirement => "Rp"
  | sameTypeRequirement => "Rs"
  | superclassRequirement => "Rb"
  | layoutRequirement => "Rl"
  | unknownLayout => "U"
  | refCountedLayout => "R"
  | nativeRefCountedLayout => "N"
  | classLayout => "C"
  | nativeClassLayout => "D"
  | trivialLayout => "T"
  | exactSizeLayout => "e"
  | atMostSizeLayout => "m"
  | paramCounts => "r"
  | signature => "l"
  | declaredConformance => "HC"
  | requirementStep => "HD"
  | associatedStep => "HI"
  | asyncHandler => "Ta"
  | dynamicThunk => "TD"
  | nativeToForeign => "To"
  | foreignToNative => "TO"
  | ivarDestroyer => "fE"
  | ivarInitializer => "fe"
  | globalGetter => "vG"
  | backingInitializer => "fP"
  | globalInitFunction => "WZ"
  | globalInitToken => "Wz"
  | declType => "D"
  | vtableThunk => "TV"
  | witnessTable => "WP"
  | witnessThunk => "TW"
  | reabstraction => "TR"
  | methodReabstraction => "Ty"
  | predefinedHandler => "TZ"
  | completionHandler => "Tz"
  | keyPathGetter => "TK"
  | keyPathSetter => "Tk"
  | keyPathEquals => "TH"
  | keyPathHash => "Th"
  | minimalExpansion => "q"
  | opaqueDescriptor => "MQ"
  | foreignFunction => "Xx"
  | derivative => "TJ"
  | derivativeWitness => "WJ"
  | forwardDerivative => "f"
  | reverseDerivative => "r"
  | differential => "d"
  | pullback => "p"
  | linearMapStruct => "l"
  | branchingTraceEnum => "b"
  | normalWitness => "d"
  | linearWitness => "l"
  | forwardWitness => "f"
  | reverseWitness => "r"
  | indexIn => "S"
  | indexOut => "U"
  | parameterIndices => "p"
  | resultIndices => "r"

end Operator

end NameMangling
