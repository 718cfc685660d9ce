/-
# Cutting a symbol into tokens

Different operators may have the same letters, and some letters begin others.  What a
letter means depends on the tokens before it, and of those little has to be remembered: the
lexical mode.  In one mode no spelling of a token begins the spelling of another one, but
for three pairs, and these are told apart by the token that follows.

Main definitions:
* `Mode.next`, the tokens that may stand in a mode, and the mode after them;
* `Lexes`, the token lists that end in the mode they may start with.

Main fact: `Lexes.begins_or_begins`: of two token lists with the same text one begins the
other.
-/
import Mathlib.Data.List.Infix
import NameMangling.Proofs.Spellings

namespace NameMangling

/-! ## Modes -/

/-- What has to be remembered of the tokens so far: whether a number or an index must
follow, whether an empty list has just been written, and how far a lowered function type
has been written. -/
inductive Mode
  | free | listEmpty | count | index | indices | callee | conventions
deriving DecidableEq

/-- The operators that types and the places of nominal declarations are written with. -/
def typeOperators : List Operator :=
  [.emptyTuple, .builtinInt, .builtinFloat, .builtinWord, .rawPointer, .nativeObject,
   .unknownObject, .bridgeObject, .emptyList, .firstOfList, .tuple, .metatype,
   .existentialMetatype, .composition, .superclassComposition, .classComposition,
   .boundGeneric, .firstParam, .outerParam, .innerParam, .throwing, .async, .differentiable,
   .linear, .forwardDifferentiable, .reverseDifferentiable, .repr .native, .repr .noEscape,
   .repr .block, .repr .cFunctionPointer, .repr .thin, .inoutParam, .ownedParam,
   .sharedParam, .variadicParam, .autoclosureParam, .lowered, .structType, .enumType,
   .classType, .protocolType, .localName, .privateName]

/-- The operators that a lowered function type ends with. -/
def conventionOperators : List Operator :=
  [.loweredBlock, .loweredCPointer, .loweredAsync, .passed .indirect, .passed .mutable,
   .passed .owned, .passed .guaranteed, .returned .indirect, .returned .owned,
   .returned .unowned, .errorResult, .loweredEnd]

namespace Mode

/-- The operators that may stand in a mode.  A list that is empty is not closed as a tuple
is. -/
def operators : Mode → List Operator
  | free => typeOperators
  | listEmpty => typeOperators.erase .tuple
  | callee => [.callee .thin, .callee .owned, .callee .guaranteed]
  | conventions => conventionOperators
  | _ => []

/-- The mode after an operator. -/
def after : Mode → Operator → Mode
  | callee, _ => conventions
  | conventions, .loweredEnd => free
  | conventions, _ => conventions
  | _, .emptyList => listEmpty
  | _, .builtinInt | _, .builtinFloat => count
  | _, .outerParam | _, .localName => index
  | _, .innerParam => indices
  | _, .lowered => callee
  | _, _ => free

/-- The mode after a token, if the token may stand in the mode. -/
def next (μ : Mode) : Token → Option Mode
  | .op o => if o ∈ μ.operators then some (μ.after o) else none
  | .identifier _ | .backReference _ => if μ = free ∨ μ = listEmpty then some free else none
  | .count _ => if μ = count then some free else none
  | .index _ => if μ = index then some free else if μ = indices then some index else none
  | _ => none

/-- The letters that no token in a mode begins with, although they continue the spelling of
the operator before. -/
def barred : Mode → List Char
  | listEmpty => ['t']
  | index => ['d', 'L']
  | _ => []

end Mode

/-- The token lists that may stand in a mode and end where any token may follow. -/
inductive Lexes : Mode → List Token → Prop
  | nil : Lexes .free []
  | cons {μ ν : Mode} {t : Token} {ts : List Token} (step : μ.next t = some ν)
      (rest : Lexes ν ts) : Lexes μ (t :: ts)

/-! ## Operators of a mode -/

namespace Mode

variable {μ ν ν' : Mode}

/-- The letters of an operator begin those of another one in three cases, and the longer
one goes on with a letter that is barred after the shorter one. -/
theorem typeOperators_begin : ∀ o ∈ typeOperators, ∀ o' ∈ typeOperators,
    o.letters.toList <+: o'.letters.toList →
      o = o' ∨ o'.letters.toList ∈ (free.after o).barred.map (o.letters.toList ++ [·]) := by
  decide +kernel

theorem conventionOperators_begin : ∀ o ∈ conventionOperators, ∀ o' ∈ conventionOperators,
    o.letters.toList <+: o'.letters.toList → o = o' := by
  decide +kernel

theorem calleeOperators_begin : ∀ o ∈ callee.operators, ∀ o' ∈ callee.operators,
    o.letters.toList <+: o'.letters.toList → o = o' := by
  decide +kernel

theorem mem_of_listEmpty {o : Operator} (ho : o ∈ listEmpty.operators) : o ∈ typeOperators := by
  change o ∈ typeOperators.erase .tuple at ho
  exact List.mem_of_mem_erase ho

/-- Where the letters of one operator begin those of another, the other goes on with a letter that
is barred. -/
theorem operators_begin {o o' : Operator} (ho : o ∈ μ.operators) (ho' : o' ∈ μ.operators)
    (h : o.letters.toList <+: o'.letters.toList) :
    o = o' ∨ o'.letters.toList ∈ (μ.after o).barred.map (o.letters.toList ++ [·]) := by
  cases μ with
  | free => exact typeOperators_begin o ho o' ho' h
  | listEmpty =>
    have hafter : listEmpty.after o = free.after o := by cases o <;> rfl
    rw [hafter]
    exact typeOperators_begin o (mem_of_listEmpty ho) o' (mem_of_listEmpty ho') h
  | callee => exact .inl (calleeOperators_begin o ho o' ho' h)
  | conventions => exact .inl (conventionOperators_begin o ho o' ho' h)
  | _ => cases ho

/-- No operator of a mode begins with a digit, or with the letter of references. -/
theorem head?_letters {o : Operator} (ho : o ∈ μ.operators) :
    ∃ c, o.letters.toList.head? = some c ∧ c.isDigit = false ∧ c ≠ 'A' ∧ c ∉ μ.barred := by
  -- the operators are finitely many: their letters are looked through
  have htype : ∀ o ∈ typeOperators, o.letters.toList.head?.any fun c =>
      !c.isDigit && c != 'A' && (o == .tuple || c != 't') := by decide +kernel
  have hrest : ∀ o ∈ callee.operators ++ conventionOperators, o.letters.toList.head?.any fun c =>
      !c.isDigit && c != 'A' := by decide +kernel
  simp only [Option.any_eq_true, Bool.and_eq_true, Bool.or_eq_true, Bool.not_eq_true',
    bne_iff_ne, beq_iff_eq] at htype hrest
  cases μ with
  | free =>
    obtain ⟨c, hc, ⟨hdigit, hA⟩, -⟩ := htype o ho
    exact ⟨c, hc, hdigit, hA, List.not_mem_nil⟩
  | listEmpty =>
    obtain ⟨c, hc, ⟨hdigit, hA⟩, ht⟩ := htype o (mem_of_listEmpty ho)
    have hne : o ≠ .tuple := by
      rintro rfl
      exact absurd ho (by decide)
    exact ⟨c, hc, hdigit, hA, by simpa [barred] using ht.resolve_left hne⟩
  | callee =>
    obtain ⟨c, hc, hdigit, hA⟩ := hrest o (List.mem_append_left _ ho)
    exact ⟨c, hc, hdigit, hA, List.not_mem_nil⟩
  | conventions =>
    obtain ⟨c, hc, hdigit, hA⟩ := hrest o (List.mem_append_right _ ho)
    exact ⟨c, hc, hdigit, hA, List.not_mem_nil⟩
  | _ => cases ho

/-! ## Tokens of a mode -/

/-- What tokens are possible in a mode. -/
theorem next_eq_some {t : Token} (h : μ.next t = some ν) :
    (∃ o ∈ μ.operators, t = .op o ∧ ν = μ.after o) ∨
      (∃ s, t = .identifier s ∧ (μ = free ∨ μ = listEmpty) ∧ ν = free) ∨
      (∃ n, t = .backReference n ∧ (μ = free ∨ μ = listEmpty) ∧ ν = free) ∨
      (∃ n, t = .count n ∧ μ = count ∧ ν = free) ∨
      (∃ n, t = .index n ∧ (μ = index ∧ ν = free ∨ μ = indices ∧ ν = index)) := by
  unfold next at h
  split at h
  · split at h
    · rename_i o ho
      exact .inl ⟨o, ho, rfl, by simpa using h.symm⟩
    · cases h
  · rename_i s
    split at h
    · exact .inr (.inl ⟨s, rfl, by assumption, by simpa using h.symm⟩)
    · cases h
  · rename_i n
    split at h
    · exact .inr (.inr (.inl ⟨n, rfl, by assumption, by simpa using h.symm⟩))
    · cases h
  · rename_i n
    split at h
    · exact .inr (.inr (.inr (.inl ⟨n, rfl, by assumption, by simpa using h.symm⟩)))
    · cases h
  · rename_i n
    split at h
    · exact .inr (.inr (.inr (.inr ⟨n, rfl, .inl ⟨by assumption, by simpa using h.symm⟩⟩)))
    · split at h
      · exact .inr (.inr (.inr (.inr ⟨n, rfl, .inr ⟨by assumption, by simpa using h.symm⟩⟩)))
      · cases h
  · cases h

/-- Digits and the underscore are never barred. -/
theorem ne_of_mem_barred {c : Char} (h : c ∈ μ.barred) : c.isDigit = false ∧ c ≠ '_' := by
  cases μ with
  | listEmpty =>
    rw [show c = 't' by simpa [barred] using h]
    decide
  | index =>
    rcases show c = 'd' ∨ c = 'L' by simpa [barred] using h with rfl | rfl <;> decide
  | _ => cases h

/-- A token does not begin with a letter that is barred in its mode. -/
theorem head?_spelling {t : Token} (h : μ.next t = some ν) :
    ∃ c, t.spelling.head? = some c ∧ c ∉ μ.barred := by
  obtain ⟨o, ho, rfl, -⟩ | ⟨s, rfl, hμ, -⟩ | ⟨n, rfl, hμ, -⟩ | ⟨n, rfl, rfl, -⟩ |
    ⟨n, rfl, hμ⟩ := next_eq_some h
  · obtain ⟨c, hc, -, -, hbarred⟩ := head?_letters ho
    exact ⟨c, hc, hbarred⟩
  · obtain ⟨c, hc, hdigit⟩ := head?_spellIdentifier s
    refine ⟨c, hc, fun hbarred => ?_⟩
    rw [(ne_of_mem_barred hbarred).1] at hdigit
    cases hdigit
  · refine ⟨'A', rfl, ?_⟩
    rcases hμ with rfl | rfl <;> decide
  · obtain ⟨c, hc, -⟩ := head?_spellCount n
    exact ⟨c, hc, List.not_mem_nil⟩
  · obtain ⟨c, hc, hindex⟩ := head?_spellIndex n
    refine ⟨c, hc, fun hbarred => ?_⟩
    obtain ⟨hdigit, hunderscore⟩ := ne_of_mem_barred hbarred
    rcases hindex with h | h
    · rw [h] at hdigit
      cases hdigit
    · exact hunderscore h

/-- Two operators in the place of one: the shorter one is followed by what is barred. -/
theorem operator_append_inj {o o' : Operator} (ho : o ∈ μ.operators) (ho' : o' ∈ μ.operators)
    {x y : List Char} (h : o.letters.toList ++ x = o'.letters.toList ++ y) :
    (o = o' ∧ x = y) ∨ (∃ c ∈ (μ.after o).barred, x.head? = some c) ∨
      ∃ c ∈ (μ.after o').barred, y.head? = some c := by
  have hbegin : o.letters.toList <+: o.letters.toList ++ x := List.prefix_append _ _
  have hbegin' : o'.letters.toList <+: o.letters.toList ++ x := h ▸ List.prefix_append _ _
  rcases List.prefix_or_prefix_of_prefix hbegin hbegin' with hle | hle
  · rcases operators_begin ho ho' hle with rfl | hlonger
    · exact .inl ⟨rfl, List.append_cancel_left h⟩
    · obtain ⟨c, hc, hletters⟩ := List.mem_map.1 hlonger
      rw [← hletters, List.append_assoc] at h
      exact .inr (.inl ⟨c, hc, by rw [List.append_cancel_left h]; rfl⟩)
  · rcases operators_begin ho' ho hle with rfl | hlonger
    · exact .inl ⟨rfl, List.append_cancel_left h⟩
    · obtain ⟨c, hc, hletters⟩ := List.mem_map.1 hlonger
      rw [← hletters, List.append_assoc] at h
      exact .inr (.inr ⟨c, hc, by rw [← List.append_cancel_left h]; rfl⟩)

/-- A token of another sort does not begin like an operator. -/
theorem operator_ne {o : Operator} (ho : o ∈ μ.operators) {t : Token} {x y : List Char}
    (ht : ∃ c, t.spelling.head? = some c ∧ (c.isDigit = true ∨ c = 'A')) :
    (Token.op o).spelling ++ x ≠ t.spelling ++ y := by
  intro h
  obtain ⟨c, hc, hother⟩ := ht
  obtain ⟨c', hc', hdigit, hA, -⟩ := head?_letters ho
  have hhead := congrArg List.head? h
  rw [List.head?_append, List.head?_append, hc, Token.spelling, hc', Option.some_or,
    Option.some_or, Option.some.injEq] at hhead
  subst hhead
  rcases hother with h | h
  · rw [hdigit] at h
    cases h
  · exact hA h

/-- Two tokens that may stand in one place and begin the same text are the same, unless
something barred follows one of them. -/
theorem next_append_inj {t t' : Token} (ht : μ.next t = some ν) (ht' : μ.next t' = some ν')
    {x y : List Char} (h : t.spelling ++ x = t'.spelling ++ y) :
    (t = t' ∧ x = y) ∨ (∃ c ∈ ν.barred, x.head? = some c) ∨
      ∃ c ∈ ν'.barred, y.head? = some c := by
  have hidentifier : ∀ s, ∃ c, (Token.identifier s).spelling.head? = some c ∧
      (c.isDigit = true ∨ c = 'A') := by
    intro s
    obtain ⟨c, hc, hdigit⟩ := head?_spellIdentifier s
    exact ⟨c, hc, .inl hdigit⟩
  have hreference : ∀ n, ∃ c, (Token.backReference n).spelling.head? = some c ∧
      (c.isDigit = true ∨ c = 'A') := fun n => ⟨'A', rfl, .inr rfl⟩
  have hmixed : ∀ {s : String} {n : Nat} {x y : List Char},
      spellIdentifier s ++ x ≠ spellBackReference n ++ y := by
    intro s n x y h
    obtain ⟨c, hc, hdigit⟩ := head?_spellIdentifier s
    have hhead := congrArg List.head? h
    rw [List.head?_append, hc] at hhead
    cases hhead
    cases hdigit
  -- one case for each pair of kinds of tokens
  obtain ⟨o, ho, rfl, rfl⟩ | ⟨s, rfl, hμ, -⟩ | ⟨n, rfl, hμ, -⟩ | ⟨n, rfl, hμ, -⟩ |
    ⟨n, rfl, hμ⟩ := next_eq_some ht <;>
  obtain ⟨o', ho', rfl, rfl⟩ | ⟨s', rfl, hμ', -⟩ | ⟨n', rfl, hμ', -⟩ | ⟨n', rfl, hμ', -⟩ |
    ⟨n', rfl, hμ'⟩ := next_eq_some ht'
  case inl.inl =>
    rcases operator_append_inj ho ho' h with ⟨rfl, hxy⟩ | hbarred
    · exact .inl ⟨rfl, hxy⟩
    · exact .inr hbarred
  case inl.inr.inl => exact absurd h (operator_ne ho (hidentifier s'))
  case inl.inr.inr.inl => exact absurd h (operator_ne ho (hreference n'))
  case inr.inl.inl => exact absurd h.symm (operator_ne ho' (hidentifier s))
  case inr.inr.inl.inl => exact absurd h.symm (operator_ne ho' (hreference n))
  case inr.inl.inr.inl =>
    obtain ⟨rfl, hxy⟩ := spellIdentifier_append_inj h
    exact .inl ⟨rfl, hxy⟩
  case inr.inl.inr.inr.inl => exact absurd h hmixed
  case inr.inr.inl.inr.inl => exact absurd h.symm hmixed
  case inr.inr.inl.inr.inr.inl =>
    obtain ⟨rfl, hxy⟩ := spellBackReference_append_inj h
    exact .inl ⟨rfl, hxy⟩
  case inr.inr.inr.inl.inr.inr.inr.inl =>
    obtain ⟨rfl, hxy⟩ := spellCount_append_inj h
    exact .inl ⟨rfl, hxy⟩
  case inr.inr.inr.inr.inr.inr.inr.inr =>
    obtain ⟨rfl, hxy⟩ := spellIndex_append_inj h
    exact .inl ⟨rfl, hxy⟩
  -- the other pairs belong to different modes
  all_goals
    exfalso
    clear ht ht' h hidentifier hreference hmixed
    cases μ <;> simp_all [operators]

end Mode

/-! ## Texts -/

namespace Lexes

variable {μ : Mode} {ts us : List Token} {x y : List Char}

/-- After a barred letter is possible, something must follow, and it begins otherwise. -/
theorem head?_notMem_barred (h : Lexes μ ts) {c : Char} (hc : c ∈ μ.barred) :
    (spellAll ts ++ x).head? ≠ some c := by
  cases h with
  | nil => cases hc
  | @cons _ ν t ts step _ =>
    obtain ⟨c', hc', hbarred⟩ := Mode.head?_spelling step
    rw [spellAll, List.flatMap_cons, List.append_assoc, List.head?_append, hc', Option.some_or]
    rintro ⟨⟩
    exact hbarred hc

/-- Of two token lists with the same text one begins the other. -/
theorem begins_or_begins (h : Lexes μ ts) (h' : Lexes μ us)
    (htext : spellAll ts ++ x = spellAll us ++ y) : ts <+: us ∨ us <+: ts := by
  induction h generalizing us with
  | nil => exact .inl (List.nil_prefix)
  | @cons μ ν t ts step rest ih =>
    cases h' with
    | nil => exact .inr (List.nil_prefix)
    | @cons _ ν' u us step' rest' =>
      rw [spellAll, List.flatMap_cons, List.append_assoc, spellAll, List.flatMap_cons,
        List.append_assoc] at htext
      obtain ⟨rfl, hrest⟩ | ⟨c, hc, hhead⟩ | ⟨c, hc, hhead⟩ :=
        Mode.next_append_inj step step' htext
      · rw [step] at step'
        cases step'
        rcases ih rest' hrest with hle | hle
        · exact .inl (List.cons_prefix_cons.2 ⟨rfl, hle⟩)
        · exact .inr (List.cons_prefix_cons.2 ⟨rfl, hle⟩)
      · exact absurd hhead (rest.head?_notMem_barred hc)
      · exact absurd hhead (rest'.head?_notMem_barred hc)

/-- What lexes has no empty tokens. -/
theorem spelling_ne_nil (h : Lexes μ ts) : ∀ t ∈ ts, t.spelling ≠ [] := by
  induction h with
  | nil => simp
  | cons step _ ih =>
    obtain ⟨c, hc, -⟩ := Mode.head?_spelling step
    intro t ht
    rcases List.mem_cons.1 ht with rfl | ht
    · intro hnil
      rw [hnil] at hc
      cases hc
    · exact ih t ht

/-- A token list that begins another one of the same text is that list. -/
theorem eq_of_begins (h : Lexes μ us) (hbegin : ts <+: us) (htext : spellAll ts = spellAll us) :
    ts = us := by
  obtain ⟨more, rfl⟩ := hbegin
  rw [spellAll, spellAll, List.flatMap_append, List.self_eq_append_right] at htext
  cases more with
  | nil => rw [List.append_nil]
  | cons t more =>
    rw [List.flatMap_cons, List.append_eq_nil_iff] at htext
    exact absurd htext.1 (h.spelling_ne_nil t (by simp))

/-- A text is cut into tokens in one way. -/
theorem eq_of_spellAll_eq (h : Lexes μ ts) (h' : Lexes μ us) (htext : spellAll ts = spellAll us) :
    ts = us := by
  rcases begins_or_begins (x := []) (y := []) h h' (by rw [htext]) with hbegin | hbegin
  · exact h'.eq_of_begins hbegin htext
  · exact (h.eq_of_begins hbegin htext.symm).symm

end Lexes

end NameMangling
