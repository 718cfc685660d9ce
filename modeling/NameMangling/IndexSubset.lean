/-
# Index subsets

A subset of the numbers below a capacity, kept as bits in words of 64: number `i` is bit
`i % 64` of word `i / 64`.  There are as many words as give every number below the capacity a
bit; the bits that the last word has beyond these are never set.

Main operations:
* `IndexSubset.ofList`, the subset of the numbers in a list;
* `IndexSubset.contains` and `IndexSubset.toList`, its members.
-/

namespace NameMangling

/-! ## Words of 64 bits -/

/-- The word in which only the bit of number `i` is set. -/
def memberBit (i : Nat) : UInt64 := 1 <<< (i % 64).toUInt64

/-- Whether number `i` belongs by its word: whether its bit is set. -/
def hasMember (w : UInt64) (i : Nat) : Bool := w &&& memberBit i != 0

/-- The bit of a member is a power of two, by its place in the word. -/
theorem toNat_memberBit (i : Nat) : (memberBit i).toNat = 1 <<< (i % 64) := by
  have hlt : i % 64 < 64 := Nat.mod_lt i (by decide)
  have hpow : 2 ^ (i % 64) < 2 ^ 64 := Nat.pow_lt_pow_right (by decide) hlt
  have hshift : (i % 64).toUInt64.toNat = i % 64 := by
    show (i % 64) % 2 ^ 64 = i % 64
    omega
  rw [memberBit, UInt64.toNat_shiftLeft, hshift, Nat.mod_mod, UInt64.toNat_one, Nat.one_shiftLeft,
    Nat.mod_eq_of_lt hpow]

/-- The word of a number has one bit. -/
theorem testBit_memberBit (i j : Nat) : (memberBit i).toNat.testBit j = decide (i % 64 = j) := by
  rw [toNat_memberBit, Nat.one_shiftLeft, Nat.testBit_two_pow]

/-- A word has a member if it has the bit at the place of the member. -/
theorem hasMember_eq_testBit (w : UInt64) (i : Nat) : hasMember w i = w.toNat.testBit (i % 64) := by
  suffices h : w &&& memberBit i = 0 ↔ w.toNat.testBit (i % 64) = false by
    rw [Bool.eq_iff_iff, hasMember, bne_iff_ne, ne_eq, h, Bool.not_eq_false]
  rw [← UInt64.toNat_inj, UInt64.toNat_and]
  constructor
  · intro h
    have hbit := congrArg (Nat.testBit · (i % 64)) h
    simpa [Nat.testBit_and, testBit_memberBit] using hbit
  · intro h
    refine Nat.eq_of_testBit_eq fun j => ?_
    by_cases hj : i % 64 = j
    · simp [← hj, h]
    · simp [Nat.testBit_and, testBit_memberBit, hj]

@[simp]
theorem hasMember_zero (i : Nat) : hasMember 0 i = false := by
  rw [hasMember_eq_testBit]
  exact Nat.zero_testBit _

/-- Setting the bit of one number sets the bit of that number only. -/
theorem hasMember_or_memberBit (w : UInt64) (i j : Nat) :
    hasMember (w ||| memberBit i) j = (hasMember w j || decide (i % 64 = j % 64)) := by
  rw [hasMember_eq_testBit, hasMember_eq_testBit, UInt64.toNat_or, Nat.testBit_or,
    testBit_memberBit]

/-! ## Subsets -/

/-- A subset of the numbers below `capacity`; the bit of number `i` in its word tells whether
`i` belongs. -/
structure IndexSubset where
  capacity : Nat
  words : Array UInt64
  size_words : words.size = (capacity + 63) / 64
  spare : ∀ i, capacity ≤ i → ∀ h : i / 64 < words.size, hasMember words[i / 64] i = false
deriving DecidableEq

namespace IndexSubset

/-- There is a word for every number below the capacity. -/
theorem wordIndex_lt (s : IndexSubset) {i : Nat} (h : i < s.capacity) :
    i / 64 < s.words.size := by
  rw [s.size_words]
  omega

/-- The empty subset. -/
def empty (capacity : Nat) : IndexSubset where
  capacity := capacity
  words := Array.replicate ((capacity + 63) / 64) 0
  size_words := Array.size_replicate
  spare i _ h := by rw [Array.getElem_replicate, hasMember_zero]

instance : Inhabited IndexSubset := ⟨empty 0⟩

/-- Put `i` into the subset; numbers out of range are left out. -/
def insert (s : IndexSubset) (i : Nat) : IndexSubset :=
  if hi : i < s.capacity then
    have := s.wordIndex_lt hi
    { capacity := s.capacity
      words := s.words.set (i / 64) (s.words[i / 64] ||| memberBit i)
      size_words := (Array.size_set _).trans s.size_words
      spare := by
        intro j hj hindex
        rw [Array.size_set] at hindex
        have hold := s.spare j hj hindex
        rw [Array.getElem_set]
        split
        · rename_i hword
          simp only [hword, hasMember_or_memberBit, hold, Bool.false_or, decide_eq_false_iff_not]
          omega
        · exact hold }
  else s

/-- The subset of the numbers in a list, those out of range left out. -/
def ofList (capacity : Nat) (indices : List Nat) : IndexSubset :=
  indices.foldl insert (empty capacity)

/-- Whether `i` belongs to the subset. -/
def contains (s : IndexSubset) (i : Nat) : Bool :=
  if hi : i < s.capacity then
    have := s.wordIndex_lt hi
    hasMember s.words[i / 64] i
  else false

/-- The members in increasing order. -/
def toList (s : IndexSubset) : List Nat := (List.range s.capacity).filter s.contains

end IndexSubset

end NameMangling
