/-
# Tokens decode uniquely

Identifiers, indices, back-references and generic parameters are read back from any text that
begins with them.  So no spelling of one sort begins another one, and rows of identifiers have
different texts.

Numbers are counted in words of 32 bits, and most tokens write a number below their own.  The
texts are given here a second time with a subtraction of words that has no result below zero:
they are always there, and they are the spellings of the tokens.

Main definitions:
* `readParam`, the reader of generic parameters;
* `indexText?`, `backReferenceText?` and `paramText?`, the texts of words.

Main facts: `identifiers_decodable`, `numeric_tokens_decodable`.
-/
import NameMangling.Grammar.Generics
import NameMangling.Proofs.Ledgers

namespace NameMangling

/-! ## Identifiers -/

/-- An identifier can be read off any text that begins with it.  So none begins another one, and
a row of identifiers is determined by its text.  It is made of letters, digits, underscores and
dollar signs, and begins with a digit. -/
theorem identifiers_decodable :
    Decodes readIdentifier (fun s => (Token.identifier s).spelling) ∧
      (∀ s t : String, spellIdentifier s <+: spellIdentifier t ↔ s = t) ∧
      (∀ ss ts : List String,
        spellAll (ss.map .identifier) = spellAll (ts.map .identifier) ↔ ss = ts) ∧
      ∀ s : String, IsSymbolText (spellIdentifier s) ∧
        ∃ c, (spellIdentifier s).head? = some c ∧ c.isDigit = true := by
  have hne : ∀ s, spellIdentifier s ≠ [] := by
    intro s hs
    obtain ⟨c, hc, -⟩ := head?_spellIdentifier s
    rw [hs] at hc
    cases hc
  have hrow : ∀ ss : List String, spellAll (ss.map .identifier) = ss.flatMap spellIdentifier := by
    intro ss
    rw [spellAll, List.flatMap_map]
    rfl
  refine ⟨decodes_identifier, fun s t => decodes_identifier.prefix_iff, fun ss ts => ?_,
    fun s => ⟨.identifier s, head?_spellIdentifier s⟩⟩
  rw [hrow, hrow]
  exact decodes_identifier.flatMap_eq_iff hne

/-! ## Generic parameters -/

/-- A generic parameter: `x`, or one or two indices behind their letters. -/
def readParam : TextReader ParamKey
  | 'x' :: rest => some (⟨0, 0⟩, rest)
  | 'q' :: 'd' :: cs => do
    let (depth, cs) ← readIndex cs
    let (index, rest) ← readIndex cs
    return (⟨depth + 1, index⟩, rest)
  | 'q' :: cs => (readIndex cs).map fun (index, rest) => (⟨0, index + 1⟩, rest)
  | _ => none

/-- The text of a generic parameter. -/
def ParamKey.spelling (key : ParamKey) : List Char := spellAll key.tokens

namespace ParamKey

theorem spelling_outer (index : Nat) : spelling ⟨0, index + 1⟩ = 'q' :: spellIndex index := by
  show 'q' :: (spellIndex index ++ []) = _
  rw [List.append_nil]

/-- A parameter of an inner level is spelled by the depth and the index. -/
theorem spelling_inner (depth index : Nat) :
    spelling ⟨depth + 1, index⟩ = 'q' :: 'd' :: (spellIndex depth ++ spellIndex index) := by
  show 'q' :: 'd' :: (spellIndex depth ++ (spellIndex index ++ [])) = _
  rw [List.append_nil]

end ParamKey

/-- Whatever follows a generic parameter, it is read off. -/
theorem decodes_param : Decodes readParam ParamKey.spelling := by
  rintro ⟨depth, index⟩ rest
  cases depth with
  | zero =>
    cases index with
    | zero => rfl
    | succ index =>
      have hread := decodes_index index rest
      rw [ParamKey.spelling_outer, List.cons_append]
      unfold readParam
      split
      · simp_all
      · -- an index does not begin with a letter
        rename_i cs heq
        obtain ⟨c, hc, hfirst⟩ := head?_spellIndex index
        have hhead := congrArg List.head? (List.cons.inj heq).2
        rw [List.head?_append, hc] at hhead
        cases hhead
        rcases hfirst with hdigit | hmark
        · cases hdigit
        · cases hmark
      · rename_i cs _ heq
        rw [← (List.cons.inj heq).2, hread]
        rfl
      · simp_all
  | succ depth =>
    have houter := decodes_index depth (spellIndex index ++ rest)
    have hinner := decodes_index index rest
    rw [ParamKey.spelling_inner, List.cons_append, List.cons_append, List.append_assoc]
    simp only [readParam, houter, hinner, Option.bind_eq_bind, Option.bind_some]
    rfl

/-! ## Words -/

/-- The difference of two words, if it is not below zero. -/
def difference? (a b : UInt32) : Option UInt32 := if b ≤ a then some (a - b) else none

/-- A difference that is there is that of the numbers. -/
theorem difference?_eq_some {a b : UInt32} (h : b ≤ a) :
    ∃ c, difference? a b = some c ∧ c.toNat = a.toNat - b.toNat :=
  ⟨a - b, if_pos h, UInt32.toNat_sub_of_le _ _ h⟩

/-- The text of an index: an index above zero is the number before it. -/
def indexText? (n : UInt32) : Option (List Char) :=
  if 0 < n then (difference? n 1).map fun k => spellCount k.toNat else some ['_']

/-- The text of a back-reference: a letter, or from 26 on the number that far. -/
def backReferenceText? (n : UInt32) : Option (List Char) :=
  if n < 26 then some ['A', Char.ofNat ('a'.toNat + n.toNat)]
  else (difference? n 26).map fun k => 'A' :: spellCount k.toNat

/-- The text of a generic parameter at a depth and an index. -/
def paramText? (depth index : UInt32) : Option (List Char) :=
  if depth = 0 then
    if index = 0 then some ['x']
    else do
      let before ← difference? index 1
      let text ← indexText? before
      return 'q' :: text
  else do
    let before ← difference? depth 1
    let outer ← indexText? before
    let inner ← indexText? index
    return 'q' :: 'd' :: (outer ++ inner)

/-- A word that is not zero has one before it. -/
theorem exists_difference?_one {n : UInt32} (hn : n ≠ 0) :
    ∃ k, difference? n 1 = some k ∧ n.toNat = k.toNat + 1 := by
  have hpos : n.toNat ≠ 0 := fun hzero => hn (UInt32.toNat_inj.1 hzero)
  have hle : (1 : UInt32) ≤ n := by
    rw [UInt32.le_iff_toNat_le]
    exact Nat.one_le_iff_ne_zero.2 hpos
  obtain ⟨k, hk, hvalue⟩ := difference?_eq_some hle
  change k.toNat = n.toNat - 1 at hvalue
  exact ⟨k, hk, by omega⟩

/-- With checked subtraction the text of an index is always there, and is its spelling. -/
theorem indexText?_eq (n : UInt32) : indexText? n = some (spellIndex n.toNat) := by
  unfold indexText?
  by_cases hn : n = 0
  · subst hn
    rfl
  · have hpos : 0 < n := UInt32.pos_iff_ne_zero.2 hn
    obtain ⟨k, hk, hvalue⟩ := exists_difference?_one hn
    rw [if_pos hpos, hk, hvalue]
    rfl

/-- With checked subtraction the text of a reference is always there, and is its spelling. -/
theorem backReferenceText?_eq (n : UInt32) :
    backReferenceText? n = some (spellBackReference n.toNat) := by
  unfold backReferenceText? spellBackReference
  by_cases hn : n < 26
  · have hshort : n.toNat < shortReferences := UInt32.lt_iff_toNat_lt.1 hn
    rw [if_pos hn, if_pos hshort]
  · have hle : (26 : UInt32) ≤ n := UInt32.not_lt.1 hn
    have hlong : ¬ n.toNat < shortReferences := fun h => hn (UInt32.lt_iff_toNat_lt.2 h)
    obtain ⟨k, hk, hvalue⟩ := difference?_eq_some hle
    rw [if_neg hn, if_neg hlong, hk, Option.map_some, hvalue]
    rfl

/-- With checked subtraction the text of a parameter is always there, and is its spelling. -/
theorem paramText?_eq (depth index : UInt32) :
    paramText? depth index = some (ParamKey.spelling ⟨depth.toNat, index.toNat⟩) := by
  unfold paramText?
  by_cases hdepth : depth = 0
  · subst hdepth
    by_cases hindex : index = 0
    · subst hindex
      rfl
    · obtain ⟨k, hk, hvalue⟩ := exists_difference?_one hindex
      rw [if_pos rfl, if_neg hindex, hk, hvalue]
      show (indexText? k).bind _ = some (ParamKey.spelling ⟨0, k.toNat + 1⟩)
      rw [indexText?_eq, ParamKey.spelling_outer]
      rfl
  · obtain ⟨k, hk, hvalue⟩ := exists_difference?_one hdepth
    rw [if_neg hdepth, hk, hvalue, ParamKey.spelling_inner]
    simp only [Option.bind_eq_bind, Option.bind_some, indexText?_eq]
    rfl

/-! ## Numeric tokens -/

/-- Indices, back-references and generic parameters can be read off any text that begins with
them, so none of a sort begins another one of the sort.  For numbers of 32 bits they are what is
written with subtractions that have no result below zero. -/
theorem numeric_tokens_decodable :
    (Decodes readIndex (fun n => (Token.index n).spelling) ∧
      (∀ n m : Nat, spellIndex n <+: spellIndex m ↔ n = m) ∧
      ∀ n : UInt32, indexText? n = some (Token.index n.toNat).spelling) ∧
    (Decodes readBackReference (fun n => (Token.backReference n).spelling) ∧
      (∀ n m : Nat, spellBackReference n <+: spellBackReference m ↔ n = m) ∧
      ∀ n : UInt32, backReferenceText? n = some (Token.backReference n.toNat).spelling) ∧
    Decodes readParam (fun key => spellAll key.tokens) ∧
      (∀ key key' : ParamKey, spellAll key.tokens <+: spellAll key'.tokens ↔ key = key') ∧
      ∀ depth index : UInt32, paramText? depth index =
        some (spellAll (ParamKey.tokens ⟨depth.toNat, index.toNat⟩)) :=
  ⟨⟨decodes_index, fun _ _ => decodes_index.prefix_iff, indexText?_eq⟩,
    ⟨decodes_backReference, fun _ _ => decodes_backReference.prefix_iff, backReferenceText?_eq⟩,
    decodes_param, fun _ _ => decodes_param.prefix_iff, paramText?_eq⟩

end NameMangling
