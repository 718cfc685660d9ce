/-
# Interners

However often and in whatever order values are met, an interner holds each of them once, in the
order in which they were first met, and its index stays the inverse of its list.  So the slot of
a value is its place among the distinct values met so far, which no later meeting changes.

Main definitions:
* `Interner.Holds`, an interner that has met some values;
* `Faithful`, handles that stand for values.

Main facts: `Interner.Holds.intern`, one more meeting; `Interner.Holds.internAll`, a run of
meetings; `Interner.Holds.faithful`, the handles of a run.
-/
import Mathlib.Data.List.Basic
import NameMangling.Name

namespace NameMangling

/-- Handles that were issued for values stand for them: equal ones were issued for equal values
only, and each is read as its value. -/
structure Faithful {α ι : Type} (issued : List (α × ι)) (read : ι → α) : Prop where
  eq_iff : ∀ {x y : α} {i j : ι}, (x, i) ∈ issued → (y, j) ∈ issued → (i = j ↔ x = y)
  reads : ∀ {x : α} {i : ι}, (x, i) ∈ issued → read i = x

namespace Interner

variable {α : Type} [BEq α] {t : Interner α} {met : List α} {x : α} {i : Nat}

/-- An interner that has met some values, in order: it lists them at their first occurrences, and
the index gives the slots of what is listed. -/
structure Holds (t : Interner α) (met : List α) : Prop where
  values : t.values.toList = met.eraseDups
  slot?_eq_some_iff : ∀ {x : α} {i : Nat}, t.slot? x = some i ↔ t.value? i = some x

/-- A value that has been met is not listed again. -/
theorem eraseDups_concat_of_mem [LawfulBEq α] (hx : x ∈ met) :
    (met ++ [x]).eraseDups = met.eraseDups := by
  rw [List.eraseDups_append, List.removeAll, List.filter_singleton]
  simp [hx]

/-- A value is listed when it is met for the first time. -/
theorem eraseDups_concat_of_notMem [LawfulBEq α] (hx : x ∉ met) :
    (met ++ [x]).eraseDups = met.eraseDups ++ [x] := by
  rw [List.eraseDups_append, List.removeAll, List.filter_singleton]
  simp [hx, List.eraseDups_cons]

theorem holds_empty : ({} : Interner α).Holds [] where
  values := rfl
  slot?_eq_some_iff := by simp [slot?, value?]

namespace Holds

theorem size_eq (h : t.Holds met) : t.size = met.eraseDups.length := by
  rw [← h.values]
  rfl

theorem value?_eq (h : t.Holds met) (i : Nat) : t.value? i = met.eraseDups[i]? := by
  rw [← h.values, value?, Array.getElem?_toList]

variable [LawfulBEq α]

/-- A value has a slot exactly if it has been met. -/
theorem slot?_eq_none_iff (h : t.Holds met) : t.slot? x = none ↔ x ∉ met := by
  rw [Option.eq_none_iff_forall_ne_some]
  simp only [ne_eq, h.slot?_eq_some_iff, h.value?_eq]
  rw [← not_exists, ← List.mem_iff_getElem?, List.mem_eraseDups]

/-- The slot of a value that has been met is its place among the distinct ones. -/
theorem slot?_of_mem (h : t.Holds met) (hx : x ∈ met) :
    t.slot? x = some (met.eraseDups.idxOf x) := by
  rw [h.slot?_eq_some_iff, h.value?_eq]
  exact List.getElem?_idxOf (List.mem_eraseDups.2 hx)

/-- The place of a value that has been met holds it. -/
theorem value?_idxOf (h : t.Holds met) (hx : x ∈ met) :
    t.value? (met.eraseDups.idxOf x) = some x :=
  h.slot?_eq_some_iff.1 (h.slot?_of_mem hx)

/-- With a new value in the next slot the index is still the inverse of the list. -/
theorem lookup_push (h : t.Holds met) (hx : x ∉ met) {y : α} :
    ((x, t.size) :: t.index).lookup y = some i ↔ (t.values.push x)[i]? = some y := by
  -- the value has no slot yet, and the next slot has no value
  have hnew : ∀ j : Nat, t.values[j]? ≠ some x := by
    intro j hj
    have hslot := h.slot?_eq_some_iff.2 hj
    rw [h.slot?_eq_none_iff.2 hx] at hslot
    cases hslot
  have hnext : t.index.lookup y ≠ some t.values.size := by
    intro hslot
    have hvalue := h.slot?_eq_some_iff.1 hslot
    rw [value?, Array.getElem?_size] at hvalue
    cases hvalue
  rw [List.lookup_cons, Array.getElem?_push, size]
  by_cases hi : i = t.values.size
  · -- the next slot is that of the new value and of no other one
    by_cases hy : y = x
    · simp [hi, hy]
    · simp [hi, hnext, beq_false_of_ne hy, Ne.symm hy]
  · by_cases hy : y = x
    · simp [hi, hy, hnew, Ne.symm hi]
    · rw [beq_false_of_ne hy, if_neg hi]
      exact h.slot?_eq_some_iff

/-- One more meeting keeps the list and the index inverse to each other. -/
theorem intern (h : t.Holds met) (x : α) : (t.intern x).2.Holds (met ++ [x]) := by
  unfold Interner.intern
  by_cases hx : x ∈ met
  · rw [h.slot?_of_mem hx]
    exact ⟨h.values.trans (eraseDups_concat_of_mem hx).symm, h.slot?_eq_some_iff⟩
  · rw [h.slot?_eq_none_iff.2 hx]
    refine ⟨?_, h.lookup_push hx⟩
    rw [Array.toList_push, h.values, eraseDups_concat_of_notMem hx]

/-- A place among distinct values is not changed by what is met later. -/
theorem slot_append (hx : x ∈ met) (more : List α) :
    (met ++ more).eraseDups.idxOf x = met.eraseDups.idxOf x := by
  rw [List.eraseDups_append, List.idxOf_append, if_pos (List.mem_eraseDups.2 hx)]

/-- The slot of a meeting is the place of the value among the distinct ones. -/
theorem intern_fst (h : t.Holds met) (x : α) :
    (t.intern x).1 = (met ++ [x]).eraseDups.idxOf x := by
  unfold Interner.intern
  by_cases hx : x ∈ met
  · rw [h.slot?_of_mem hx, slot_append hx]
  · have hplace : (met.eraseDups ++ [x]).idxOf x = met.eraseDups.length := by
      rw [List.idxOf_append, if_neg (hx ∘ List.mem_eraseDups.1), List.idxOf_cons_self,
        Nat.zero_add]
    rw [h.slot?_eq_none_iff.2 hx, h.size_eq, eraseDups_concat_of_notMem hx, hplace]

/-- After a run of meetings, by induction on the run: the interner has met all of them, and their
slots are the places of their first occurrences. -/
theorem internAll (h : t.Holds met) (xs : List α) :
    (t.internAll xs).2.Holds (met ++ xs) ∧
      (t.internAll xs).1 = xs.map (met ++ xs).eraseDups.idxOf := by
  induction xs generalizing t met with
  | nil => exact ⟨(List.append_nil met).symm ▸ h, rfl⟩
  | cons x xs ih =>
    obtain ⟨hholds, hslots⟩ := ih (h.intern x)
    have happend : met ++ x :: xs = met ++ [x] ++ xs := by simp
    rw [happend]
    refine ⟨hholds, ?_⟩
    rw [List.map_cons, slot_append (by simp), ← h.intern_fst, ← hslots]
    rfl

/-- The handles of a run of meetings, which say the slots, stand for the values, and go on doing
so whatever is met later. -/
theorem faithful {ι : Type} (h : t.Holds met) (xs more : List α) (absent : α) {handle : Nat → ι}
    {slot : ι → Nat} (hslot : ∀ i, slot (handle i) = i) :
    Faithful (xs.zip ((t.internAll xs).1.map handle)) fun i =>
      (((t.internAll xs).2.internAll more).2.value? (slot i)).getD absent := by
  obtain ⟨hholds, hslots⟩ := h.internAll xs
  have hlater := (hholds.internAll more).1
  -- every handle is that of the place where its value was met first
  have hissued : ∀ {x i}, (x, i) ∈ xs.zip ((t.internAll xs).1.map handle) →
      x ∈ met ++ xs ∧ i = handle ((met ++ xs).eraseDups.idxOf x) := by
    intro x i hmem
    rw [hslots, List.map_map, ← List.map_prod_left_eq_zip, List.mem_map] at hmem
    obtain ⟨y, hy, heq⟩ := hmem
    obtain ⟨rfl, rfl⟩ := Prod.mk.inj heq
    exact ⟨List.mem_append_right met hy, rfl⟩
  constructor
  · intro x y i j hx hy
    obtain ⟨hmem, rfl⟩ := hissued hx
    obtain ⟨-, rfl⟩ := hissued hy
    rw [(Function.LeftInverse.injective hslot).eq_iff,
      List.idxOf_inj (List.mem_eraseDups.2 hmem)]
  · intro x i hx
    obtain ⟨hmem, rfl⟩ := hissued hx
    rw [hslot, ← slot_append hmem more, hlater.value?_idxOf (List.mem_append_left more hmem),
      Option.getD_some]

end Holds

end Interner

end NameMangling
