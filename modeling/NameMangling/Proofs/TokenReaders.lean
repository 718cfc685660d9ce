/-
# Reading tokens

A symbol is read from its front, and has no separators: where a token ends has to be seen from
the token itself.  A number ends with an underscore.  An identifier begins with its length, which
no digit follows, and an escaped text is written byte by byte in codes of which none begins
another.

Main definitions:
* `TextReader`, what takes a value off the front of a text;
* `Decodes`, that a reader takes off exactly what was spelled, whatever follows;
* `readCount`, `readIndex`, `readBackReference` and `readIdentifier`, one reader for each token.

Main facts: `decodes_count`, `decodes_index`, `decodes_backReference`, `decodes_identifier`.
-/
import NameMangling.Grammar.Token

namespace NameMangling

/-! ## Readers -/

/-- Takes a value off the front of a text; the rest of the text is left. -/
abbrev TextReader (α : Type) := List Char → Option (α × List Char)

/-- Of a spelling and whatever follows it, the reader takes off the spelling. -/
def Decodes {α : Type} (read : TextReader α) (spell : α → List Char) : Prop :=
  ∀ (a : α) (rest : List Char), read (spell a ++ rest) = some (a, rest)

namespace Decodes

variable {α : Type} {read : TextReader α} {spell : α → List Char} {a b : α} {x y : List Char}

/-- Two texts that begin with spellings are equal only if the spellings and the rests are. -/
theorem append_inj (h : Decodes read spell) (heq : spell a ++ x = spell b ++ y) :
    a = b ∧ x = y := by
  have hread := congrArg read heq
  rw [h, h, Option.some.injEq, Prod.mk.injEq] at hread
  exact hread

/-- No spelling begins another one. -/
theorem prefix_iff (h : Decodes read spell) : spell a <+: spell b ↔ a = b := by
  constructor
  · rintro ⟨x, hx⟩
    exact (h.append_inj (hx.trans (List.append_nil _).symm)).1
  · rintro rfl
    exact List.prefix_refl _

/-- A row of spellings is determined by its text. -/
theorem flatMap_eq_iff (h : Decodes read spell) (hne : ∀ a, spell a ≠ []) {as bs : List α} :
    as.flatMap spell = bs.flatMap spell ↔ as = bs := by
  refine ⟨fun heq => ?_, fun heq => by rw [heq]⟩
  have hempty : ∀ {cs : List α}, [] = cs.flatMap spell → cs = [] := by
    intro cs hcs
    cases cs with
    | nil => rfl
    | cons c cs => exact absurd (List.append_eq_nil_iff.1 hcs.symm).1 (hne c)
  induction as generalizing bs with
  | nil => exact (hempty heq).symm
  | cons a as ih =>
    cases bs with
    | nil => exact hempty heq.symm
    | cons b bs =>
      obtain ⟨rfl, hrest⟩ := h.append_inj heq
      rw [ih hrest]

end Decodes

/-! ## Numbers -/

theorem isDigit_of_mem_decimal {n : Nat} {c : Char} (h : c ∈ decimal n) : c.isDigit = true :=
  Nat.isDigit_of_mem_toDigits (by omega) (by omega) h

theorem decimal_ne_nil (n : Nat) : decimal n ≠ [] := Nat.toDigits_ne_nil

/-- A number begins with a digit. -/
theorem head?_decimal (n : Nat) : ∃ c, (decimal n).head? = some c ∧ c.isDigit = true := by
  cases h : decimal n with
  | nil => exact absurd h (decimal_ne_nil n)
  | cons c cs => exact ⟨c, rfl, isDigit_of_mem_decimal (n := n) (by simp [h])⟩

/-- A positive number does not begin with a zero. -/
theorem head?_decimal_ne_zero {n : Nat} (hn : 0 < n) : (decimal n).head? ≠ some '0' := by
  induction n using Nat.strongRecOn with
  | _ n ih =>
    unfold decimal
    rw [Nat.toDigits_eq_if (by omega)]
    split
    · rename_i hlt
      intro h
      rw [List.head?_cons, Option.some.injEq] at h
      have hall : ∀ k, k < 10 → 0 < k → Nat.digitChar k ≠ '0' := by decide
      exact hall n hlt hn h
    · rename_i hge
      have hsmaller := ih (n / 10) (by omega) (by omega)
      have hsome : (Nat.toDigits 10 (n / 10)).head?.isSome = true :=
        List.isSome_head?.2 (decimal_ne_nil (n / 10))
      rw [List.head?_append, Option.or_of_isSome hsome]
      exact hsmaller

/-- The number that the digits at the front of a text make; there has to be one. -/
def readDecimal : TextReader Nat := fun cs =>
  let digits := cs.takeWhile Char.isDigit
  if digits = [] then none
  else some (Nat.ofDigitChars 10 digits 0, cs.dropWhile Char.isDigit)

/-- A number is read where no digit follows it. -/
theorem readDecimal_append (n : Nat) {rest : List Char}
    (hrest : ∀ c ∈ rest.head?, c.isDigit = false) :
    readDecimal (decimal n ++ rest) = some (n, rest) := by
  have hdigits : ∀ c ∈ decimal n, c.isDigit = true := fun c => isDigit_of_mem_decimal
  have hstop : rest.takeWhile Char.isDigit = [] ∧ rest.dropWhile Char.isDigit = rest := by
    cases rest with
    | nil => exact ⟨rfl, rfl⟩
    | cons c cs =>
      have hc : c.isDigit = false := hrest c rfl
      simp [hc]
  unfold readDecimal
  simp only [List.takeWhile_append_of_pos hdigits, List.dropWhile_append_of_pos hdigits, hstop.1,
    hstop.2, List.append_nil, if_neg (decimal_ne_nil n)]
  rw [decimal, Nat.ofDigitChars_ten_toDigits]

/-- A number and its end mark. -/
def readCount : TextReader Nat := fun cs =>
  match readDecimal cs with
  | some (n, '_' :: rest) => some (n, rest)
  | _ => none

/-- A number is read up to its end mark. -/
theorem decodes_count : Decodes readCount spellCount := by
  intro n rest
  have hread : readDecimal (decimal n ++ '_' :: rest) = some (n, '_' :: rest) :=
    readDecimal_append n (by rintro c ⟨⟩; rfl)
  unfold readCount spellCount
  rw [List.append_assoc, List.singleton_append, hread]
  rfl

/-- An index: the end mark alone is zero, and a number stands for the one after it. -/
def readIndex : TextReader Nat
  | '_' :: rest => some (0, rest)
  | cs => (readCount cs).map fun (n, rest) => (n + 1, rest)

/-- An index is read by what comes first: the end mark, or a digit. -/
theorem decodes_index : Decodes readIndex spellIndex := by
  intro n rest
  cases n with
  | zero => rfl
  | succ n =>
    have hread : readCount (spellIndex (n + 1) ++ rest) = some (n, rest) := decodes_count n rest
    unfold readIndex
    split
    · -- a number does not begin with the end mark
      rename_i rest' heq
      obtain ⟨c, hc, hdigit⟩ := head?_decimal n
      have hhead := congrArg List.head? heq
      rw [spellIndex, spellCount, List.append_assoc, List.head?_append, hc] at hhead
      cases hhead
      cases hdigit
    · rw [hread]
      rfl

/-- The letter of an early node. -/
def referenceLetter (n : Nat) : Char := Char.ofNat ('a'.toNat + n)

/-- The letter of an early node is a small letter, so no digit. -/
theorem referenceLetter_eq (n : Nat) (hn : n < shortReferences) :
    (referenceLetter n).toNat = 97 + n ∧ (referenceLetter n).isDigit = false := by
  have hall : ∀ n, n < 26 →
      (referenceLetter n).toNat = 97 + n ∧ (referenceLetter n).isDigit = false := by decide
  exact hall n hn

/-- A reference to a node: a letter stands for an early one, and a number for a later one. -/
def readBackReference : TextReader Nat
  | 'A' :: c :: rest =>
    if c.isDigit then (readCount (c :: rest)).map fun (n, rest) => (shortReferences + n, rest)
    else some (c.toNat - 97, rest)
  | _ => none

/-- A reference is read by its second character: a letter, or a digit. -/
theorem decodes_backReference : Decodes readBackReference spellBackReference := by
  intro n rest
  unfold spellBackReference
  by_cases hn : n < shortReferences
  · obtain ⟨hvalue, hletter⟩ := referenceLetter_eq n hn
    rw [if_pos hn]
    show readBackReference ('A' :: referenceLetter n :: rest) = some (n, rest)
    simp only [readBackReference, hletter, Bool.false_eq_true, if_false, hvalue,
      Nat.add_sub_cancel_left]
  · -- a later reference goes on with a digit
    have hread := decodes_count (n - shortReferences) rest
    obtain ⟨c, hc, hdigit⟩ := head?_decimal (n - shortReferences)
    have hhead : (spellCount (n - shortReferences) ++ rest).head? = some c := by
      rw [spellCount, List.append_assoc, List.head?_append, hc, Option.some_or]
    obtain ⟨cs, hcs⟩ := List.head?_eq_some_iff.1 hhead
    rw [if_neg hn, List.cons_append, hcs]
    rw [hcs] at hread
    simp only [readBackReference, hdigit, if_true, hread, Option.map_some]
    rw [Nat.add_sub_cancel' (Nat.le_of_not_lt hn)]

/-! ## Bytes -/

/-- A plain byte is the code of a plain character, and of no other. -/
theorem charOfPlainByte {b : UInt8} (hb : isPlainByte b = true) :
    (Char.ofNat b.toNat).toNat = b.toNat ∧ Char.ofNat b.toNat ≠ '$' ∧
      ((Char.ofNat b.toNat).isDigit = true → isDigitByte b = true) := by
  have hall : ∀ n, n < 128 → (Char.ofNat n).toNat = n ∧ (Char.ofNat n = '$' → n = 36) ∧
      ((Char.ofNat n).isDigit = true → 48 ≤ n ∧ n ≤ 57) := by decide +kernel
  have hsmall : b.toNat < 128 ∧ b.toNat ≠ 36 := by
    simp only [isPlainByte, isDigitByte, Bool.or_eq_true, Bool.and_eq_true, decide_eq_true_eq,
      beq_iff_eq] at hb
    omega
  obtain ⟨hvalue, hdollar, hdigit⟩ := hall b.toNat hsmall.1
  refine ⟨hvalue, fun h => hsmall.2 (hdollar h), fun h => ?_⟩
  simpa [isDigitByte] using hdigit h

/-- A byte is written as itself or out. -/
theorem escapeByte_eq (b : UInt8) :
    escapeByte b = hexByte b ∨ isPlainByte b = true ∧ escapeByte b = [Char.ofNat b.toNat] := by
  unfold escapeByte
  split
  · rename_i hb
    exact .inr ⟨hb, rfl⟩
  · exact .inl rfl

/-- The code of a first byte, which is written out also when it is a digit. -/
theorem firstCode_eq (b : UInt8) :
    (if isDigitByte b then hexByte b else escapeByte b) = hexByte b ∨
      isPlainByte b = true ∧
        (if isDigitByte b then hexByte b else escapeByte b) = [Char.ofNat b.toNat] := by
  split
  · exact .inl rfl
  · exact escapeByte_eq b

/-- An escaped text does not begin with a digit. -/
theorem head?_escape (bs : List UInt8) : ∀ c ∈ (escape bs).head?, c.isDigit = false := by
  cases bs with
  | nil => simp [escape]
  | cons b bs =>
    intro c hc
    rw [escape] at hc
    by_cases hb : isDigitByte b = true
    · rw [if_pos hb, hexByte] at hc
      cases hc
      rfl
    · rw [if_neg hb] at hc
      -- a byte is escaped to a letter and its code, or left if it is plain and no digit
      rcases escapeByte_eq b with hcode | ⟨hplain, hcode⟩
      · rw [hcode, hexByte] at hc
        cases hc
        rfl
      · rw [hcode, List.singleton_append] at hc
        cases hc
        rw [Bool.eq_false_iff]
        exact fun hdigit => hb ((charOfPlainByte hplain).2.2 hdigit)

/-- The value of a hexadecimal digit. -/
def hexDigit? (c : Char) : Option Nat := (List.range 16).find? fun n => Nat.digitChar n == c

theorem hexDigit?_digitChar {n : Nat} (hn : n < 16) : hexDigit? (Nat.digitChar n) = some n := by
  have hall : ∀ n, n < 16 → hexDigit? (Nat.digitChar n) = some n := by decide
  exact hall n hn

/-- The bytes of an escaped text. -/
def unescape? : List Char → Option (List UInt8)
  | [] => some []
  | '$' :: high :: low :: cs => do
    let h ← hexDigit? high
    let l ← hexDigit? low
    let bs ← unescape? cs
    return UInt8.ofNat (16 * h + l) :: bs
  | c :: cs => if c = '$' then none else (unescape? cs).map (UInt8.ofNat c.toNat :: ·)

/-- A code at the front of a text gives its byte. -/
theorem unescape?_code {b : UInt8} {code : List Char} {cs : List Char} {bs : List UInt8}
    (hcode : code = hexByte b ∨ isPlainByte b = true ∧ code = [Char.ofNat b.toNat])
    (hrest : unescape? cs = some bs) : unescape? (code ++ cs) = some (b :: bs) := by
  have hb := b.toNat_lt
  rcases hcode with rfl | ⟨hplain, rfl⟩
  · have hvalue : UInt8.ofNat (16 * (b.toNat / 16) + b.toNat % 16) = b := by
      rw [Nat.div_add_mod, UInt8.ofNat_toNat]
    show unescape? ('$' :: Nat.digitChar (b.toNat / 16) :: Nat.digitChar (b.toNat % 16) :: cs) = _
    simp only [unescape?, hexDigit?_digitChar (n := b.toNat / 16) (by omega),
      hexDigit?_digitChar (n := b.toNat % 16) (by omega), hrest, Option.bind_eq_bind,
      Option.bind_some, hvalue]
    rfl
  · obtain ⟨hvalue, hdollar, -⟩ := charOfPlainByte hplain
    rw [List.singleton_append, unescape?, if_neg hdollar, hrest, Option.map_some, hvalue,
      UInt8.ofNat_toNat]
    exact fun _ _ _ hc _ => hdollar hc

/-- An escaped text is read back byte by byte. -/
theorem unescape?_escape (bs : List UInt8) : unescape? (escape bs) = some bs := by
  have hcodes : ∀ bs : List UInt8, unescape? (bs.flatMap escapeByte) = some bs := by
    intro bs
    induction bs with
    | nil => rfl
    | cons b bs ih => exact unescape?_code (escapeByte_eq b) ih
  cases bs with
  | nil => rfl
  | cons b bs => exact unescape?_code (firstCode_eq b) (hcodes bs)

/-! ## Identifiers -/

/-- A character made of plain bytes is one byte. -/
theorem utf8EncodeChar_of_plain {c : Char}
    (h : ∀ b ∈ String.utf8EncodeChar c, isPlainByte b = true) :
    ∃ b, String.utf8EncodeChar c = [b] ∧ b.toNat = c.toNat := by
  -- the first of several bytes is at least 192, and no such byte is plain
  have hlarge : ∀ k n : Nat, 192 ≤ k → k + n < 256 →
      isPlainByte (UInt8.ofNat (n + k)) = false := by
    intro k n hk hn
    have hvalue : (UInt8.ofNat (n + k)).toNat = n + k := by
      rw [UInt8.toNat_ofNat']
      omega
    simp only [isPlainByte, isDigitByte, hvalue, Bool.or_eq_false_iff, Bool.and_eq_false_iff,
      decide_eq_false_iff_not, beq_eq_false_iff_ne]
    omega
  unfold String.utf8EncodeChar at h ⊢
  dsimp only at h ⊢
  split at h
  · rename_i hsmall
    refine ⟨_, by rw [if_pos hsmall], ?_⟩
    rw [UInt8.toNat_ofNat']
    show c.toNat % 2 ^ 8 = c.toNat
    change c.toNat ≤ 127 at hsmall
    omega
  · split at h
    · have hfirst := h _ List.mem_cons_self
      rw [hlarge 192 _ (by omega) (by omega)] at hfirst
      cases hfirst
    · split at h
      · have hfirst := h _ List.mem_cons_self
        rw [hlarge 224 _ (by omega) (by omega)] at hfirst
        cases hfirst
      · have hfirst := h _ List.mem_cons_self
        rw [hlarge 240 _ (by omega) (by omega)] at hfirst
        cases hfirst

/-- A text of plain bytes has as many bytes as characters. -/
theorem length_flatMap_of_plain {cs : List Char}
    (h : ∀ b ∈ cs.flatMap String.utf8EncodeChar, isPlainByte b = true) :
    (cs.flatMap String.utf8EncodeChar).length = cs.length := by
  induction cs with
  | nil => rfl
  | cons c cs ih =>
    rw [List.flatMap_cons] at h ⊢
    obtain ⟨b, hb, -⟩ :=
      utf8EncodeChar_of_plain fun b hb => h b (List.mem_append_left _ hb)
    rw [hb, List.length_append, ih fun b hb => h b (List.mem_append_right _ hb),
      List.length_singleton, List.length_cons, Nat.add_comm]

/-- A plain text is not empty, begins with no digit and has plain bytes only. -/
theorem isPlain_iff {bs : List UInt8} : isPlain bs = true ↔
    ∃ b rest, bs = b :: rest ∧ isDigitByte b = false ∧ ∀ b' ∈ bs, isPlainByte b' = true := by
  cases bs with
  | nil => simp [isPlain]
  | cons b rest => simp [isPlain]

/-- A plain text has as many characters as bytes. -/
theorem length_of_isPlain {s : String} (h : isPlain (utf8Bytes s) = true) :
    (utf8Bytes s).length = s.toList.length := by
  obtain ⟨_, _, -, -, hplain⟩ := isPlain_iff.1 h
  exact length_flatMap_of_plain hplain

/-- A plain text does not begin with a digit. -/
theorem head?_of_isPlain {s : String} (h : isPlain (utf8Bytes s) = true) :
    s.toList ≠ [] ∧ ∀ c ∈ s.toList.head?, c.isDigit = false := by
  obtain ⟨b, rest, hbytes, hdigit, hplain⟩ := isPlain_iff.1 h
  unfold utf8Bytes at hbytes hplain
  cases hs : s.toList with
  | nil => simp [hs] at hbytes
  | cons c cs =>
    refine ⟨List.cons_ne_nil _ _, ?_⟩
    intro c' hc'
    cases hc'
    rw [hs, List.flatMap_cons] at hbytes hplain
    -- the first character is the first byte, which is plain and no digit
    obtain ⟨b', hb', hvalue⟩ :=
      utf8EncodeChar_of_plain fun b hb => hplain b (List.mem_append_left _ hb)
    rw [hb', List.singleton_append, List.cons.injEq] at hbytes
    rw [hbytes.1] at hvalue
    rw [Bool.eq_false_iff]
    intro hc
    rw [Char.isDigit_iff_toNat] at hc
    rw [Bool.eq_false_iff] at hdigit
    exact hdigit (by simpa [isDigitByte, hvalue] using hc)

/-- A length: a zero in front is all of it, as no other length begins with one. -/
def readLength : TextReader Nat
  | '0' :: rest => some (0, rest)
  | cs => readDecimal cs

/-- A text behind its length. -/
def readSized : TextReader (List Char) := fun cs => do
  let (n, rest) ← readLength cs
  if n ≤ rest.length then some (rest.take n, rest.drop n) else none

/-- A text is read behind its length, if it does not begin with a digit. -/
theorem readSized_append {cs : List Char} (hcs : ∀ c ∈ cs.head?, c.isDigit = false)
    (rest : List Char) : readSized (decimal cs.length ++ (cs ++ rest)) = some (cs, rest) := by
  have hlength : readLength (decimal cs.length ++ (cs ++ rest)) = some (cs.length, cs ++ rest) := by
    unfold readLength
    cases cs with
    | nil => rfl
    | cons d ds =>
      split
      · -- a positive length does not begin with a zero
        rename_i rest' heq
        obtain ⟨c, hc, -⟩ := head?_decimal (d :: ds).length
        have hhead := congrArg List.head? heq
        rw [List.head?_append, hc] at hhead
        exact absurd (hc.trans hhead) (head?_decimal_ne_zero (Nat.succ_pos _))
      · exact readDecimal_append _ hcs
  unfold readSized
  rw [hlength]
  simp

/-- An identifier: a text behind its length, or a zero and the same for the escaped text. -/
def readIdentifier : TextReader String
  | '0' :: cs => do
    let (code, rest) ← readSized cs
    let bytes ← unescape? code
    let text ← String.fromUTF8? bytes.toByteArray
    return (text, rest)
  | cs => (readSized cs).map fun (text, rest) => (String.ofList text, rest)

/-- The bytes of a text are read as that text. -/
theorem fromUTF8?_utf8Bytes (s : String) :
    String.fromUTF8? (utf8Bytes s).toByteArray = some s := by
  have hbytes : (utf8Bytes s).toByteArray = s.toByteArray := String.utf8Encode_toList
  rw [hbytes, String.fromUTF8?, dif_pos s.isValidUTF8]
  rfl

/-- An identifier is read back, whether it stands plain or escaped. -/
theorem decodes_identifier : Decodes readIdentifier spellIdentifier := by
  intro s rest
  unfold spellIdentifier
  dsimp only
  by_cases hs : isPlain (utf8Bytes s) = true
  · obtain ⟨hne, hhead⟩ := head?_of_isPlain hs
    have hread := readSized_append hhead rest
    rw [if_pos hs, length_of_isPlain hs, List.append_assoc]
    unfold readIdentifier
    split
    · -- the length is positive
      rename_i cs heq
      obtain ⟨c, hc, -⟩ := head?_decimal s.toList.length
      have hfirst := congrArg List.head? heq
      rw [List.head?_append, hc] at hfirst
      exact absurd (hc.trans hfirst) (head?_decimal_ne_zero (List.length_pos_iff.2 hne))
    · simp only [hread, Option.map_some, String.ofList_toList]
  · have hread := readSized_append (head?_escape (utf8Bytes s)) rest
    rw [if_neg hs, List.cons_append, List.append_assoc]
    simp only [readIdentifier, hread, unescape?_escape, fromUTF8?_utf8Bytes, Option.bind_eq_bind,
      Option.bind_some]
    rfl

/-- What follows may begin with a digit: the length tells where the identifier ends. -/
example : readIdentifier "05a$2bb0_".toList = some ("a+b", ['0', '_']) := by decide +kernel

end NameMangling
