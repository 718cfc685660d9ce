/-
# Reading symbols

A symbol is in postfix form, so it can be read from left to right with a stack: the parts of
a phrase are on the stack when its operator is met.  A reader is a function that takes such
a step, and since it is a function two readings of one symbol end alike.  To follow
references a reader keeps the table of the nodes that have been completed, which the writer
has as well.

Main definitions:
* `Reader`, a stack, a memory and the tokens to be read, and `Leads`, the readings;
* `Progress.table`, the numbered nodes in the order of their numbers.

Main facts:
* `Leads.eq_of_stuck`: readings that cannot go on have come to the same end;
* `Writes.tabled`: what is written refers to the nodes of the table.
-/
import Mathlib.Logic.Relation
import NameMangling.Proofs.Writing

namespace NameMangling

/-! ## Readers -/

/-- The state of a reader: what has been understood, what has to be remembered, and what is
still to be read. -/
structure Reader (ι τ : Type) where
  stack : List ι
  memory : τ
  input : List Token

section

variable {ι τ : Type} {step : Reader ι τ → Option (Reader ι τ)} {c c' d d' e : Reader ι τ}

/-- One state comes after another one in some number of steps. -/
def Leads (step : Reader ι τ → Option (Reader ι τ)) : Reader ι τ → Reader ι τ → Prop :=
  Relation.ReflTransGen fun c c' => step c = some c'

theorem Leads.refl (c : Reader ι τ) : Leads step c c := Relation.ReflTransGen.refl

theorem Leads.single (h : step c = some d) : Leads step c d := Relation.ReflTransGen.single h

theorem Leads.trans (h : Leads step c c') (h' : Leads step c' d) : Leads step c d :=
  Relation.ReflTransGen.trans h h'

theorem Leads.head (h : step c = some e) (h' : Leads step e d) : Leads step c d :=
  Relation.ReflTransGen.head h h'

theorem Leads.tail (h : Leads step c c') (h' : step c' = some d) : Leads step c d :=
  Relation.ReflTransGen.tail h h'

/-- From where the reader stops it leads nowhere else. -/
theorem Leads.eq_of_step_eq_none (h : Leads step c d) (hc : step c = none) : c = d := by
  rcases Relation.ReflTransGen.cases_head h with rfl | ⟨c', hc', -⟩
  · rfl
  · rw [hc] at hc'
    cases hc'

/-- Two readings that cannot go on have come to the same end. -/
theorem Leads.eq_of_stuck (h : Leads step c d) (h' : Leads step c d') (hd : step d = none)
    (hd' : step d' = none) : d = d' := by
  have hunique : Relator.RightUnique fun c c' => step c = some c' := by
    intro a b b' hb hb'
    rw [hb] at hb'
    exact Option.some.inj hb'
  rcases Relation.ReflTransGen.total_of_right_unique hunique h h' with hle | hle
  · exact Leads.eq_of_step_eq_none hle hd
  · exact (Leads.eq_of_step_eq_none hle hd').symm

end

/-! ## Tables -/

/-- Give a node the next number, unless it has one. -/
def register (key : NodeKey) (table : List NodeKey) : List NodeKey :=
  if key ∈ table then table else table ++ [key]

/-- Registering a node numbers it, unless it has a number, and no other node. -/
theorem idxOf?_register (key k : NodeKey) (table : List NodeKey) :
    (register key table).idxOf? k =
      (table.idxOf? k).or (if k = key then some table.length else none) := by
  have happend : ∀ table : List NodeKey, (table ++ [key]).idxOf? k =
      (table.idxOf? k).or (if k = key then some table.length else none) := by
    intro table
    unfold List.idxOf?
    rw [List.findIdx?_append]
    by_cases hk : k = key
    · simp [hk]
    · simp [hk, Ne.symm hk]
  unfold register
  split
  · rename_i hmem
    by_cases hk : k = key
    · subst hk
      rw [Option.or_of_isSome (List.isSome_idxOf?.2 hmem)]
    · rw [if_neg hk, Option.or_none]
  · exact happend table

/-- A node is found in the place of its number. -/
theorem getElem?_of_idxOf? {table : List NodeKey} {key : NodeKey} {n : Nat}
    (h : table.idxOf? key = some n) : table[n]? = some key := by
  obtain ⟨hlt, hkey, -⟩ := List.idxOf?_eq_some_iff.1 h
  rw [List.getElem?_eq_getElem hlt, hkey]

namespace Progress

/-- The numbered nodes in the order of their numbers. -/
def table (s : Progress) : List NodeKey :=
  s.nodes.toList.foldl (fun table node => register node.key table) []

@[simp] theorem table_emit (s : Progress) (t : Token) : (s.emit t).table = s.table := rfl

/-- Completing a node registers it in the table. -/
@[simp] theorem table_complete (s : Progress) (key : NodeKey) (start : Nat) :
    (s.complete key start).table = register key s.table := by
  unfold table
  rw [complete_nodes, Array.toList_push, List.foldl_append]
  rfl

/-- The numbers of nodes are their places in the table. -/
structure Tabled (s : Progress) : Prop where
  number : ∀ key, s.number? key = s.table.idxOf? key
  numbered : s.numbered = s.table.length

theorem Tabled.empty : Tabled {} := ⟨fun _ => rfl, rfl⟩

theorem Tabled.emit {s : Progress} (hs : s.Tabled) (t : Token) : (s.emit t).Tabled :=
  ⟨hs.number, hs.numbered⟩

/-- Completing a node keeps its number and its place in the table together. -/
theorem Tabled.complete {s : Progress} (hs : s.Tabled) (key : NodeKey) (start : Nat) :
    (s.complete key start).Tabled where
  number k := by
    rw [number?_complete, table_complete, idxOf?_register, hs.number, hs.numbered]
  numbered := by
    rw [complete_numbered, table_complete, hs.number, hs.numbered]
    unfold register
    by_cases hmem : key ∈ s.table
    · rw [if_pos (List.isSome_idxOf?.2 hmem), if_pos hmem]
    · rw [if_neg (by simpa using hmem), if_neg hmem, List.length_append, List.length_singleton]

end Progress

namespace Grammar

variable {g : Grammar} {w : Spelling} {n : Nat} {ps qs : List Piece} {s s' : Progress}

/-- What is written refers to the nodes of the table. -/
theorem Writes.tabled (h : g.Writes w n ps s s') (hs : s.Tabled) : s'.Tabled := by
  induction h with
  | nil => exact hs
  | token _ ih => exact ih (hs.emit _)
  | phrase _ _ ihp ih => exact ih (ihp hs)
  | short _ _ ih => exact ih (hs.emit _)
  | spelled _ _ _ ihb ih => exact ih ((ihb hs).complete _ _)

/-! ## Pieces in a row -/

/-- Rows are written one behind the other. -/
theorem writes_append : g.Writes w n (ps ++ qs) s s' ↔
    ∃ s₁, g.Writes w n ps s s₁ ∧ g.Writes w n qs s₁ s' := by
  constructor
  · intro h
    induction ps generalizing s with
    | nil => exact ⟨s, .nil, h⟩
    | cons p ps ih =>
      cases h with
      | token after =>
        obtain ⟨s₁, h₁, h₂⟩ := ih after
        exact ⟨s₁, .token h₁, h₂⟩
      | phrase inside after =>
        obtain ⟨s₁, h₁, h₂⟩ := ih after
        exact ⟨s₁, .phrase inside h₁, h₂⟩
      | short shorthand after =>
        obtain ⟨s₁, h₁, h₂⟩ := ih after
        exact ⟨s₁, .short shorthand h₁, h₂⟩
      | spelled noShorthand inside after =>
        obtain ⟨s₁, h₁, h₂⟩ := ih after
        exact ⟨s₁, .spelled noShorthand inside h₁, h₂⟩
  · rintro ⟨s₁, h₁, h₂⟩
    induction h₁ with
    | nil => exact h₂
    | token _ ih => exact .token (ih h₂)
    | phrase inside _ _ ih => exact .phrase inside (ih h₂)
    | short shorthand _ ih => exact .short shorthand (ih h₂)
    | spelled noShorthand inside _ _ ih => exact .spelled noShorthand inside (ih h₂)

/-- Tokens can be written at every depth. -/
theorem exists_writes_tokens (ts : List Token) (s : Progress) :
    ∃ s', g.Writes w n (ts.map .token) s s' := by
  induction ts generalizing s with
  | nil => exact ⟨s, .nil⟩
  | cons t ts ih =>
    obtain ⟨s', h⟩ := ih (s.emit t)
    exact ⟨s', .token h⟩

/-- Writing tokens adds them and completes no node. -/
theorem writes_tokens {ts : List Token} (h : g.Writes w n (ts.map .token) s s') :
    s'.tokens.toList = s.tokens.toList ++ ts ∧ s'.nodes = s.nodes := by
  induction ts generalizing s with
  | nil =>
    cases h
    simp
  | cons t ts ih =>
    cases h with | token after =>
    obtain ⟨htokens, hnodes⟩ := ih after
    exact ⟨by simp [htokens], hnodes⟩

/-- Tokens complete no node. -/
theorem writes_tokens_table {ts : List Token} (h : g.Writes w n (ts.map .token) s s') :
    s'.table = s.table := by
  unfold Progress.table
  rw [(writes_tokens h).2]

end Grammar

end NameMangling
