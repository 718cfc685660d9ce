/-
# Ordered lists without repetition

`distinct before xs` lists the members of `xs` once each, in the order of `before`.
It is built by insertion, so a list and any rearrangement of it give the same result.

`search? before x xs` is the place of `x` in such a list, found by halving what is left
to search.
-/

namespace NameMangling.Ordered

variable {α : Type} [DecidableEq α]

/-- Put `x` in front of the first member it comes before, unless it is there already. -/
def insert (before : α → α → Bool) (x : α) : List α → List α
  | [] => [x]
  | y :: ys =>
    if x = y then y :: ys
    else if before x y then x :: y :: ys
    else y :: insert before x ys

/-- The members of a list, once each and in order. -/
def distinct (before : α → α → Bool) : List α → List α
  | [] => []
  | x :: xs => insert before x (distinct before xs)

variable {before : α → α → Bool}

/-- Inserting adds the element and keeps the others. -/
theorem mem_insert {x y : α} {l : List α} : y ∈ insert before x l ↔ y = x ∨ y ∈ l := by
  induction l with
  | nil => simp [insert]
  | cons z l ih =>
    rw [insert]
    split
    · simp_all
    · split
      · simp
      · simp only [List.mem_cons, ih]
        exact or_left_comm

/-- Listing without repetition keeps all elements. -/
theorem mem_distinct {y : α} {l : List α} : y ∈ distinct before l ↔ y ∈ l := by
  induction l with
  | nil => simp [distinct]
  | cons x l ih => rw [distinct, mem_insert, ih, List.mem_cons]

/-- Inserting keeps a list in order, if the order is transitive and total. -/
theorem pairwise_insert (trans : ∀ x y z, before x y → before y z → before x z)
    (total : ∀ x y, x ≠ y → before x y = false → before y x) {x : α} {l : List α}
    (h : l.Pairwise (before · ·)) : (insert before x l).Pairwise (before · ·) := by
  induction l with
  | nil => simp [insert]
  | cons y l ih =>
    obtain ⟨hy, hl⟩ := List.pairwise_cons.1 h
    rw [insert]
    split
    · exact h
    · rename_i hne
      split
      · rename_i hxy
        refine List.pairwise_cons.2 ⟨fun z hz => ?_, h⟩
        rcases List.mem_cons.1 hz with rfl | hz
        · exact hxy
        · exact trans x y z hxy (hy z hz)
      · rename_i hxy
        refine List.pairwise_cons.2 ⟨fun z hz => ?_, ih hl⟩
        -- behind the head there is the new element or one that was there
        rcases mem_insert.1 hz with rfl | hz
        · exact total z y hne (by simpa using hxy)
        · exact hy z hz

/-- Members are listed in order. -/
theorem pairwise_distinct (trans : ∀ x y z, before x y → before y z → before x z)
    (total : ∀ x y, x ≠ y → before x y = false → before y x) (l : List α) :
    (distinct before l).Pairwise (before · ·) := by
  induction l with
  | nil => exact .nil
  | cons x l ih => exact pairwise_insert trans total ih

/-- A list in order is kept as it is. -/
theorem distinct_eq_self (irrefl : ∀ x, before x x = false) {l : List α}
    (h : l.Pairwise (before · ·)) : distinct before l = l := by
  induction l with
  | nil => rfl
  | cons x l ih =>
    obtain ⟨hx, hl⟩ := List.pairwise_cons.1 h
    rw [distinct, ih hl]
    cases l with
    | nil => rfl
    | cons y l =>
      have hxy := hx y (by simp)
      have hne : x ≠ y := by
        rintro rfl
        rw [irrefl] at hxy
        cases hxy
      rw [insert, if_neg hne, if_pos hxy]

/-! ## Search -/

/-- The place of `x`, if it is among the `size` places from `base` on.  While there is more
than one of them, they are halved: `x` stands below the middle if it comes before what is
there, and from the middle on otherwise. -/
def narrow (before : α → α → Bool) (x : α) (xs : List α) (base size : Nat) : Nat :=
  if size ≤ 1 then base
  else
    let middle := base + size / 2
    let isBelow := xs[middle]?.any (before x)
    narrow before x xs (if isBelow then base else middle) (size - size / 2)
termination_by size

/-- The place of a member of an ordered list. -/
def search? (before : α → α → Bool) (x : α) (xs : List α) : Option Nat :=
  let place := narrow before x xs 0 xs.length
  if xs[place]? = some x then some place else none

end NameMangling.Ordered
