/-
# Tokens

A symbol is a sequence of tokens.  Every token has one spelling, `Token.spelling`, and a
symbol is the concatenation of the spellings of its tokens.

Numbers count from zero and are written in decimal with an underscore after them; an
index writes zero as the underscore alone, so that the commonest index is the shortest.
Names that would be misread are escaped byte by byte.
-/
import NameMangling.Grammar.Operator

namespace NameMangling

/-! ## Numbers -/

/-- The decimal digits of a number. -/
def decimal (n : Nat) : List Char := Nat.toDigits 10 n

/-- A number with its end marked. -/
def spellCount (n : Nat) : List Char := decimal n ++ ['_']

/-- An index: nothing for zero, else the number before it; then the end mark. -/
def spellIndex : Nat → List Char
  | 0 => ['_']
  | n + 1 => spellCount n

/-- The number of nodes that are referred back to by a single letter. -/
def shortReferences : Nat := 26

/-- A reference to the node completed as number `n`, counted from zero. -/
def spellBackReference (n : Nat) : List Char :=
  'A' :: if n < shortReferences then [Char.ofNat ('a'.toNat + n)]
    else spellCount (n - shortReferences)

/-! ## Identifiers -/

/-- The bytes of a text in UTF-8. -/
def utf8Bytes (s : String) : List UInt8 := s.toList.flatMap String.utf8EncodeChar

/-- Whether a byte is a decimal digit. -/
def isDigitByte (b : UInt8) : Bool := 48 ≤ b.toNat && b.toNat ≤ 57

/-- Whether a byte is an ASCII letter, a digit or the underscore. -/
def isPlainByte (b : UInt8) : Bool :=
  isDigitByte b || (65 ≤ b.toNat && b.toNat ≤ 90) || (97 ≤ b.toNat && b.toNat ≤ 122)
    || b.toNat == 95

/-- Whether a text stands for itself in a symbol: it is not empty, does not start with a
digit, and has only plain bytes. -/
def isPlain : List UInt8 → Bool
  | [] => false
  | b :: rest => !isDigitByte b && (b :: rest).all isPlainByte

/-- A byte written out as a dollar sign and two hexadecimal digits. -/
def hexByte (b : UInt8) : List Char :=
  ['$', Nat.digitChar (b.toNat / 16), Nat.digitChar (b.toNat % 16)]

/-- A byte that may stand for itself does, any other is written out. -/
def escapeByte (b : UInt8) : List Char :=
  if isPlainByte b then [Char.ofNat b.toNat] else hexByte b

/-- The escaped form of a text; its first byte is written out also when it is a digit. -/
def escape : List UInt8 → List Char
  | [] => []
  | b :: rest =>
    (if isDigitByte b then hexByte b else escapeByte b) ++ rest.flatMap escapeByte

/-- An identifier: its length and its text, or a zero and the same for the escaped text. -/
def spellIdentifier (s : String) : List Char :=
  let bytes := utf8Bytes s
  if isPlain bytes then decimal bytes.length ++ s.toList
  else '0' :: (decimal (escape bytes).length ++ escape bytes)

/-! ## Placeholders -/

/-- A declaration that may be written as a placeholder. -/
inductive Referent
  | nominal (decl : DeclId)
  | opaqueResult (decl : DeclId)
deriving DecidableEq, Inhabited

namespace Referent

/-- The declaration a placeholder stands for. -/
def decl : Referent → DeclId
  | nominal d | opaqueResult d => d

/-- The character a placeholder starts with. -/
def marker : Referent → Char
  | nominal _ => '\x01'
  | opaqueResult _ => '\x02'

/-- A placeholder: its marker and room for an address. -/
def spelling (r : Referent) : List Char := [r.marker, '\x00', '\x00', '\x00', '\x00']

end Referent

/-! ## Tokens -/

/-- The units a symbol is made of. -/
inductive Token
  | op (o : Operator)
  | identifier (text : String)
  | index (n : Nat)
  | count (n : Nat)
  | backReference (n : Nat)
  | placeholder (r : Referent)
  | verbatim (text : String)
deriving DecidableEq, Inhabited

namespace Token

/-- The characters of a token. -/
def spelling : Token → List Char
  | op o => o.letters.toList
  | identifier text => spellIdentifier text
  | index n => spellIndex n
  | count n => spellCount n
  | backReference n => spellBackReference n
  | placeholder r => r.spelling
  | verbatim text => text.toList

/-- The length of a token in bytes. -/
def width (t : Token) : Nat := t.spelling.foldl (fun n c => n + c.utf8Size) 0

end Token

/-- A placeholder and the byte offset in the symbol at which it stands. -/
structure Placement where
  referent : Referent
  offset : Nat
deriving DecidableEq, Inhabited

/-- The placeholders among some tokens, the first of which starts at `offset`. -/
def placements (offset : Nat) : List Token → List Placement
  | [] => []
  | .placeholder r :: rest =>
    ⟨r, offset⟩ :: placements (offset + (Token.placeholder r).width) rest
  | t :: rest => placements (offset + t.width) rest

/-- The text that some tokens spell. -/
def spellAll (tokens : List Token) : List Char := tokens.flatMap Token.spelling

end NameMangling
