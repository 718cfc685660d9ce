/-
# Members of index subsets

A subset is put together bit by bit, and its bits say exactly which numbers were put into it:
none is lost at the end of a word or behind the last one, and none that is out of range is left
behind in the last word.  So subsets of one capacity with the same members have the same words.

Main facts:
* `IndexSubset.contains_insert`, `IndexSubset.contains_ofList`: what belongs;
* `IndexSubset.eq_iff`: subsets are their members;
* `IndexSubset.ofList_exact`: both together.
-/
import Mathlib.Data.List.Basic
import NameMangling.IndexSubset

namespace NameMangling.IndexSubset

variable {s s' : IndexSubset} {i j : Nat}

/-! ## Membership -/

theorem contains_eq_of_lt (hi : i < s.capacity) (hword : i / 64 < s.words.size) :
    s.contains i = hasMember s.words[i / 64] i := dif_pos hi

theorem contains_eq_false (hi : ¬ i < s.capacity) : s.contains i = false := dif_neg hi

/-- The empty subset has no members. -/
theorem contains_empty (capacity i : Nat) : (empty capacity).contains i = false := by
  by_cases hi : i < capacity
  · have hword : i / 64 < (empty capacity).words.size := (empty capacity).wordIndex_lt hi
    have hzero : (empty capacity).words[i / 64] = 0 := Array.getElem_replicate _
    rw [contains_eq_of_lt hi hword, hzero, hasMember_zero]
  · exact contains_eq_false hi

theorem capacity_insert (s : IndexSubset) (i : Nat) : (s.insert i).capacity = s.capacity := by
  unfold insert
  split <;> rfl

theorem insert_of_not_lt (hi : ¬ i < s.capacity) : s.insert i = s := dif_neg hi

/-- Putting in a number that is in range sets its bit. -/
theorem words_insert (hi : i < s.capacity) (hword : i / 64 < s.words.size) :
    (s.insert i).words = s.words.set (i / 64) (s.words[i / 64] ||| memberBit i) hword := by
  rw [insert, dif_pos hi]

/-- Putting in a number makes that number belong, if it is in range, and no other one. -/
theorem contains_insert (s : IndexSubset) (i j : Nat) :
    (s.insert i).contains j = true ↔ s.contains j = true ∨ j < s.capacity ∧ j = i := by
  by_cases hj : j < s.capacity
  · by_cases hi : i < s.capacity
    · have hiword := s.wordIndex_lt hi
      have hjword := s.wordIndex_lt hj
      have hj' : j < (s.insert i).capacity := by rwa [capacity_insert]
      rw [contains_eq_of_lt hj hjword, contains_eq_of_lt hj' ((s.insert i).wordIndex_lt hj')]
      simp only [words_insert hi hiword, Array.getElem_set]
      split
      · -- numbers of one word are the same if they have the same bit
        rename_i hsame
        have hbit : i % 64 = j % 64 ↔ j = i := by omega
        simp only [hasMember_or_memberBit, Bool.or_eq_true, decide_eq_true_eq, hbit, hsame, hj,
          true_and]
      · rename_i hother
        have hne : j ≠ i := by
          rintro rfl
          exact hother rfl
        simp [hne]
    · have hne : j ≠ i := by
        rintro rfl
        exact hi hj
      rw [insert_of_not_lt hi]
      simp [hne]
  · have hj' : ¬ j < (s.insert i).capacity := by rwa [capacity_insert]
    simp [contains_eq_false hj, contains_eq_false hj', hj]

/-- The numbers of a list are put in one after the other, by induction on the list. -/
theorem contains_foldl (s : IndexSubset) (indices : List Nat) (j : Nat) :
    (indices.foldl insert s).contains j = true ↔
      s.contains j = true ∨ j < s.capacity ∧ j ∈ indices := by
  induction indices generalizing s with
  | nil => simp
  | cons i indices ih =>
    rw [List.foldl_cons, ih, contains_insert, capacity_insert, List.mem_cons]
    tauto

/-- Setting bits does not change the capacity. -/
theorem capacity_ofList (capacity : Nat) (indices : List Nat) :
    (ofList capacity indices).capacity = capacity := by
  have hfold : ∀ s : IndexSubset, (indices.foldl insert s).capacity = s.capacity := by
    induction indices with
    | nil => exact fun _ => rfl
    | cons i indices ih => exact fun s => (ih (s.insert i)).trans (capacity_insert s i)
  exact hfold (empty capacity)

/-- The subset of a list has the members of the list that are in range. -/
theorem contains_ofList (capacity : Nat) (indices : List Nat) (i : Nat) :
    (ofList capacity indices).contains i = true ↔ i < capacity ∧ i ∈ indices := by
  rw [ofList, contains_foldl, contains_empty]
  simp only [Bool.false_eq_true, false_or]
  exact Iff.rfl

/-! ## Equality -/

/-- Words with the same members are the same. -/
theorem eq_of_hasMember_eq {w w' : UInt64} {k : Nat}
    (h : ∀ i, i / 64 = k → hasMember w i = hasMember w' i) : w = w' := by
  rw [← UInt64.toNat_inj]
  refine Nat.eq_of_testBit_eq fun j => ?_
  by_cases hj : j < 64
  · have hindex := h (64 * k + j) (by omega)
    have hbit : (64 * k + j) % 64 = j := by omega
    rwa [hasMember_eq_testBit, hasMember_eq_testBit, hbit] at hindex
  · -- a word has no further bits
    have hle : 2 ^ 64 ≤ 2 ^ j := Nat.pow_le_pow_right (by decide) (Nat.le_of_not_lt hj)
    rw [Nat.testBit_lt_two_pow (Nat.lt_of_lt_of_le w.toNat_lt hle),
      Nat.testBit_lt_two_pow (Nat.lt_of_lt_of_le w'.toNat_lt hle)]

/-- Subsets are the same exactly if they have one capacity and the same members. -/
theorem eq_iff : s = s' ↔ s.capacity = s'.capacity ∧ ∀ i, s.contains i = s'.contains i := by
  constructor
  · rintro rfl
    exact ⟨rfl, fun _ => rfl⟩
  · rintro ⟨hcapacity, hmembers⟩
    have hwords : s.words = s'.words := by
      refine Array.ext (by rw [s.size_words, s'.size_words, hcapacity]) fun k hk hk' => ?_
      refine eq_of_hasMember_eq (k := k) ?_
      rintro i rfl
      -- the bits that stand for no number are clear in both
      by_cases hi : i < s.capacity
      · have hindex := hmembers i
        rwa [contains_eq_of_lt hi hk, contains_eq_of_lt (hcapacity ▸ hi) hk'] at hindex
      · have hspare := Nat.le_of_not_lt hi
        rw [s.spare i hspare hk, s'.spare i (hcapacity ▸ hspare) hk']
    cases s
    cases s'
    cases hcapacity
    cases hwords
    rfl

/-! ## Exactness -/

/-- The list has the members and nothing else. -/
theorem mem_toList : i ∈ s.toList ↔ s.contains i = true := by
  rw [toList, List.mem_filter, List.mem_range, and_iff_right_iff_imp]
  intro h
  by_contra hi
  rw [contains_eq_false hi] at h
  cases h

/-- The members are listed in increasing order. -/
theorem pairwise_toList (s : IndexSubset) : s.toList.Pairwise (· < ·) :=
  List.pairwise_lt_range.filter _

/-- Index subsets are exact bit sets.  The subset of a list, in whatever order and however often
it has its numbers, contains those that are in range and no others, and lists them once each in
increasing order.  A number in range has its bit in a word that is there, and subsets are the
same exactly if they have one capacity and the same members. -/
theorem ofList_exact :
    (∀ (capacity : Nat) (indices : List Nat),
      let s := ofList capacity indices
      s.capacity = capacity ∧ (∀ i, s.contains i = true ↔ i < capacity ∧ i ∈ indices) ∧
        s.toList.Pairwise (· < ·) ∧ ∀ i, i ∈ s.toList ↔ i < capacity ∧ i ∈ indices) ∧
    ∀ s s' : IndexSubset, (∀ i, i < s.capacity → i / 64 < s.words.size) ∧
      (s = s' ↔ s.capacity = s'.capacity ∧ ∀ i, s.contains i = s'.contains i) := by
  refine ⟨fun capacity indices => ?_, fun s s' => ⟨fun i => s.wordIndex_lt, eq_iff⟩⟩
  refine ⟨capacity_ofList capacity indices, contains_ofList capacity indices,
    pairwise_toList _, fun i => ?_⟩
  rw [mem_toList, contains_ofList]

/-- The last number of the first word, the first one of the second word and the last one in range
belong.  Behind that the second word has bits left, which numbers out of range do not set. -/
theorem ofList_exact_words :
    let s := ofList 70 [69, 64, 200, 63, 70, 64]
    69 < s.capacity ∧ 69 / 64 < s.words.size ∧
      (∀ i, s.contains i = true ↔ i < 70 ∧ i ∈ [69, 64, 200, 63, 70, 64]) ∧
      s.words = #[0x8000000000000000, 0x21] ∧ s.toList = [63, 64, 69] ∧
      s = ofList 70 [63, 64, 69] ∧ s ≠ ofList 71 [63, 64, 69] := by
  intro s
  obtain ⟨-, hmembers, -, -⟩ := ofList_exact.1 70 [69, 64, 200, 63, 70, 64]
  have hlast : 69 < s.capacity := by decide +kernel
  obtain ⟨hword, hsame⟩ := ofList_exact.2 s (ofList 70 [63, 64, 69])
  refine ⟨hlast, hword 69 hlast, hmembers, by decide +kernel, by decide +kernel, ?_, ?_⟩
  · refine hsame.2 ⟨rfl, fun i => ?_⟩
    rw [Bool.eq_iff_iff, hmembers, (ofList_exact.1 70 [63, 64, 69]).2.1]
    simp only [List.mem_cons, List.not_mem_nil, or_false]
    omega
  · intro h
    have hwider := (ofList_exact.2 s (ofList 71 [63, 64, 69])).2.1 h
    exact absurd hwider.1 (by decide +kernel)

end NameMangling.IndexSubset
