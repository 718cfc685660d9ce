/-
# Outlines

In a symbol a label stands in front of what it labels, and nothing says how much that is.
In front of a list it cannot be told from a label of the first item of the list.  What can
be read off a symbol is its outline: the tree of its lists, where labels are at the leaves.

Main definitions:
* `Outline`, its tokens `Outline.tokens`, and the outline of a function type with its name
  in front of it, `FunctionOutline`;
* `readOutline`, the step of a reader of outlines.

Main facts: `Outline.Readable.eq_of_spellAll_eq` and `FunctionOutline.Readable.eq_of_text`,
outlines that are spelled alike are equal.
-/
import NameMangling.Proofs.TypeReader

namespace NameMangling

/-! ## Outlines -/

/-- What can be read of types with labels: a type without parts or a reference, with the
labels in front of it, a list of at least one item, and an item with a flag. -/
inductive Outline
  | leaf (labels : List String) (node : TypeNode)
  | again (labels : List String) (number : Nat)
  | list (first : Outline) (rest : List Outline)
  | flagged (item : Outline) (flag : Operator)

mutual

/-- The tokens of an outline. -/
def Outline.tokens : Outline → List Token
  | .leaf labels node => labels.map .identifier ++ leafTokens node
  | .again labels n => labels.map .identifier ++ [.backReference n]
  | .list first rest => first.tokens ++ .op .firstOfList :: (tokensOf rest ++ [.op .tuple])
  | .flagged item flag => item.tokens ++ [.op flag]

/-- The tokens of some outlines in a row. -/
def tokensOf : List Outline → List Token
  | [] => []
  | o :: os => o.tokens ++ tokensOf os

end

/-- An item with some flags. -/
def Outline.withFlags (o : Outline) (flags : List Operator) : Outline := flags.foldl .flagged o

/-- The flags of an item are written behind it. -/
theorem Outline.tokens_withFlags (o : Outline) (flags : List Operator) :
    (o.withFlags flags).tokens = o.tokens ++ flags.map .op := by
  induction flags generalizing o with
  | nil => exact (List.append_nil _).symm
  | cons flag flags ih =>
    apply (ih (.flagged o flag)).trans
    simp [tokens]

/-- What can be read of a function type with labels: its parameters, if it has any, its
result, which comes first, and its marks. -/
structure FunctionOutline where
  result : Outline
  params : Option Outline
  marks : List Operator

/-- The tokens of the parameters of a function. -/
def paramTokens : Option Outline → List Token
  | none => [.op .emptyList]
  | some o => o.tokens

/-- The tokens of the outline of a function type. -/
def FunctionOutline.tokens (f : FunctionOutline) : List Token :=
  f.result.tokens ++ (paramTokens f.params ++ f.marks.map .op)

/-! ## The reader -/

/-- What is on the stack: outlines, an empty list, the mark after the first item of a list,
and the marks of a function. -/
inductive OutlineItem
  | outline (o : Outline)
  | nothing
  | first
  | mark (o : Operator)

/-- A reader of outlines, which remembers the labels of the leaf to come. -/
abbrev OutlineReader := Reader OutlineItem (List String)

/-- The list whose items are on the stack, and what is below it. -/
def popOutlines : List Outline → List OutlineItem → Option (Outline × List OutlineItem)
  | os, .first :: .outline o :: σ => some (.list o os, σ)
  | os, .outline o :: σ => popOutlines (o :: os) σ
  | _, _ => none

/-- Read an operator.  Discriminators, which come first, are passed over; that of a file is
taken for a label until its operator is met. -/
def readOutlineOperator (o : Operator) (σ : List OutlineItem) (labels : List String)
    (rest : List Token) : Option OutlineReader :=
  match leaf? (.op o :: rest) with
  | some (n, rest) => some ⟨.outline (.leaf labels n) :: σ, [], rest⟩
  | none =>
    if o.isMark then some ⟨.mark o :: σ, labels, rest⟩
    else match o, σ with
      | .emptyList, σ => some ⟨.nothing :: σ, labels, rest⟩
      | .firstOfList, σ => some ⟨.first :: σ, labels, rest⟩
      | .tuple, σ => (popOutlines [] σ).map fun (o, σ) => ⟨.outline o :: σ, labels, rest⟩
      | .privateName, σ => some ⟨σ, labels.dropLast, rest⟩
      | .localName, σ =>
        match rest with
        | .index _ :: rest => some ⟨σ, labels, rest⟩
        | _ => none
      | flag, .outline o :: σ =>
        if flag.flag?.isSome then some ⟨.outline (.flagged o flag) :: σ, labels, rest⟩ else none
      | _, _ => none

/-- One step of the reader, which stops after the last mark of a function. -/
def readOutline (c : OutlineReader) : Option OutlineReader :=
  match c.stack, c.input with
  | .mark (.repr _) :: _, _ => none
  | σ, .identifier x :: rest => some ⟨σ, c.memory ++ [x], rest⟩
  | σ, .backReference n :: rest => some ⟨.outline (.again c.memory n) :: σ, [], rest⟩
  | σ, .op o :: rest => readOutlineOperator o σ c.memory rest
  | _, _ => none

/-- Stacks with which the reader goes on. -/
def IsRunning (σ : List OutlineItem) : Prop := ∀ r σ', σ ≠ .mark (.repr r) :: σ'

section

variable {σ : List OutlineItem} {labels : List String} {rest : List Token}

theorem isRunning_cons {x : OutlineItem} (hx : ∀ o, x ≠ .mark o) : IsRunning (x :: σ) := by
  rintro r σ' ⟨⟩
  exact hx _ rfl

/-- Items that are no marks leave a stack with which the reader goes on. -/
theorem isRunning_append {xs : List OutlineItem} (hxs : ∀ x ∈ xs, ∀ o, x ≠ .mark o)
    (hσ : IsRunning σ) : IsRunning (xs ++ σ) := by
  cases xs with
  | nil => exact hσ
  | cons x xs => exact isRunning_cons (hxs x (by simp))

/-- An identifier is remembered as a label. -/
theorem readOutline_identifier (hσ : IsRunning σ) (x : String) :
    readOutline ⟨σ, labels, .identifier x :: rest⟩ = some ⟨σ, labels ++ [x], rest⟩ := by
  unfold readOutline
  split <;> simp_all [IsRunning]

/-- A reference is an item of its own, with the labels in front of it. -/
theorem readOutline_backReference (hσ : IsRunning σ) (n : Nat) :
    readOutline ⟨σ, labels, .backReference n :: rest⟩ =
      some ⟨.outline (.again labels n) :: σ, [], rest⟩ := by
  unfold readOutline
  split <;> simp_all [IsRunning]

/-- Operators are left to the reader of operators as long as the reader goes on. -/
theorem readOutline_op (hσ : IsRunning σ) (o : Operator) :
    readOutline ⟨σ, labels, .op o :: rest⟩ = readOutlineOperator o σ labels rest := by
  unfold readOutline
  split <;> simp_all [IsRunning]

/-- Labels are remembered. -/
theorem leads_labels (hσ : IsRunning σ) (more : List String) :
    Leads readOutline ⟨σ, labels, more.map .identifier ++ rest⟩ ⟨σ, labels ++ more, rest⟩ := by
  induction more generalizing labels with
  | nil =>
    rw [List.append_nil]
    exact .refl _
  | cons x more ih =>
    refine .head (readOutline_identifier hσ x) ?_
    have hlater : Leads readOutline ⟨σ, labels ++ [x], more.map .identifier ++ rest⟩ _ := ih
    rw [List.append_assoc] at hlater
    exact hlater

/-- Labels may stand in front of anything that lexes freely. -/
theorem lexes_labels (h : Lexes .free rest) (more : List String) :
    Lexes .free (more.map .identifier ++ rest) := by
  induction more with
  | nil => exact h
  | cons x more ih => exact .cons rfl ih

end

/-! ## Reading outlines -/

/-- Outlines that are read as themselves. -/
structure Outline.Readable (o : Outline) : Prop where
  leads : ∀ σ rest, IsRunning σ →
    Leads readOutline ⟨σ, [], o.tokens ++ rest⟩ ⟨.outline o :: σ, [], rest⟩
  lexes : ∀ rest, Lexes .free rest → Lexes .free (o.tokens ++ rest)

section

variable {o : Outline} {os : List Outline} {n : TypeNode} {flag : Operator}

/-- A type without parts is read as itself, with its labels. -/
theorem readable_leaf (labels : List String) (h : n.isLeaf = true) :
    (Outline.leaf labels n).Readable := by
  obtain ⟨o, ts, htokens, -, hleaf⟩ := leaf?_leafTokens h
  constructor
  · intro σ rest hσ
    rw [Outline.tokens, List.append_assoc, htokens]
    refine (leads_labels hσ labels).tail ((readOutline_op hσ o).trans ?_)
    show readOutlineOperator o σ ([] ++ labels) (ts ++ rest) = _
    unfold readOutlineOperator
    rw [hleaf]
    rfl
  · intro rest hrest
    rw [Outline.tokens, List.append_assoc, htokens]
    exact lexes_labels (lexes_of_leaf? (hleaf rest) hrest) labels

/-- A reference is read as itself, with its labels. -/
theorem readable_again (labels : List String) (k : Nat) : (Outline.again labels k).Readable := by
  constructor
  · intro σ rest hσ
    rw [Outline.tokens, List.append_assoc]
    exact (leads_labels hσ labels).tail (readOutline_backReference hσ k)
  · intro rest hrest
    rw [Outline.tokens, List.append_assoc]
    exact lexes_labels (.cons rfl hrest) labels

/-- A flag behind an item is read as that of the item. -/
theorem readable_flagged (ho : o.Readable) (hflag : flag.flag?.isSome) :
    (Outline.flagged o flag).Readable := by
  constructor
  · intro σ rest hσ
    rw [Outline.tokens, List.append_assoc]
    refine (ho.leads σ _ hσ).tail ((readOutline_op (isRunning_cons (by simp)) flag).trans ?_)
    cases flag <;> first
      | cases hflag; done
      | rfl
  · intro rest hrest
    rw [Outline.tokens, List.append_assoc]
    obtain ⟨say, hsay⟩ := Option.isSome_iff_exists.1 hflag
    exact ho.lexes _ (lexes_operator (mem_of_flag? hsay).1 (mem_of_flag? hsay).2 hrest)

/-- Flags are read one by one, each as a flag of the same item. -/
theorem readable_withFlags {flags : List Operator} (ho : o.Readable)
    (hflags : ∀ flag ∈ flags, flag.flag?.isSome) : (o.withFlags flags).Readable := by
  induction flags generalizing o with
  | nil => exact ho
  | cons flag flags ih =>
    exact ih (readable_flagged ho (hflags flag (by simp))) fun f hf => hflags f (by simp [hf])

/-- Outlines in a row are read from left to right. -/
theorem leads_tokensOf {σ : List OutlineItem} {rest : List Token} (hos : ∀ o ∈ os, o.Readable)
    (hσ : IsRunning σ) : Leads readOutline ⟨σ, [], tokensOf os ++ rest⟩
      ⟨(os.map .outline).reverse ++ σ, [], rest⟩ := by
  induction os generalizing σ with
  | nil => exact .refl _
  | cons o os ih =>
    rw [tokensOf, List.append_assoc]
    apply ((hos o (by simp)).leads σ _ hσ).trans
    have hlater := ih (fun o' ho' => hos o' (by simp [ho']))
      (σ := .outline o :: σ) (isRunning_cons (by simp))
    rw [List.map_cons, List.reverse_cons, List.append_assoc]
    exact hlater

/-- Readable outlines in a row lex freely in front of anything that does. -/
theorem lexes_tokensOf {rest : List Token} (hos : ∀ o ∈ os, o.Readable)
    (hrest : Lexes .free rest) : Lexes .free (tokensOf os ++ rest) := by
  induction os with
  | nil => exact hrest
  | cons o os ih =>
    rw [tokensOf, List.append_assoc]
    exact (hos o (by simp)).lexes _ (ih fun o' ho' => hos o' (by simp [ho']))

/-- The items of a list are found on the stack again, the last one first. -/
theorem popOutlines_eq (o : Outline) (os : List Outline) (σ : List OutlineItem) :
    popOutlines [] ((os.map .outline).reverse ++ .first :: .outline o :: σ) =
      some (.list o os, σ) := by
  have hcollect : ∀ (ys zs : List Outline),
      popOutlines zs (ys.map .outline ++ .first :: .outline o :: σ) =
        some (.list o (ys.reverse ++ zs), σ) := by
    intro ys
    induction ys with
    | nil => exact fun zs => rfl
    | cons y ys ih =>
      intro zs
      rw [List.map_cons, List.cons_append, popOutlines, ih]
      simp
  have hlist := hcollect os.reverse []
  rw [List.reverse_reverse, List.append_nil, List.map_reverse] at hlist
  exact hlist

/-- A list of readable items is read as itself. -/
theorem readable_list (ho : o.Readable) (hos : ∀ o' ∈ os, o'.Readable) :
    (Outline.list o os).Readable := by
  have htokens : ∀ rest, (Outline.list o os).tokens ++ rest =
      o.tokens ++ .op .firstOfList :: (tokensOf os ++ .op .tuple :: rest) := by
    simp [Outline.tokens]
  constructor
  · intro σ rest hσ
    rw [htokens]
    have hfirst := ho.leads σ (.op .firstOfList :: (tokensOf os ++ .op .tuple :: rest)) hσ
    have hrest : Leads readOutline
        ⟨.first :: .outline o :: σ, [], tokensOf os ++ .op .tuple :: rest⟩ _ :=
      leads_tokensOf hos (isRunning_cons (by simp))
    refine (hfirst.tail (readOutline_op (isRunning_cons (by simp)) _)).trans (hrest.tail ?_)
    -- the operator of tuples takes the items off the stack, back to the mark of the first one
    have hrunning : IsRunning ((os.map .outline).reverse ++ .first :: .outline o :: σ) :=
      isRunning_append (by simp) (isRunning_cons (by simp))
    apply (readOutline_op hrunning _).trans
    show (popOutlines [] _).map _ = _
    rw [popOutlines_eq]
    rfl
  · intro rest hrest
    rw [htokens]
    exact ho.lexes _ (.cons rfl (lexes_tokensOf hos (.cons rfl hrest)))

/-- Outlines that are spelled alike are equal. -/
theorem Outline.Readable.eq_of_spellAll_eq {o' : Outline} (ho : o.Readable) (ho' : o'.Readable)
    (h : spellAll o.tokens = spellAll o'.tokens) : o = o' := by
  have hlexes : ∀ {x : Outline}, x.Readable → Lexes .free x.tokens := by
    intro x hx
    have hall := hx.lexes [] .nil
    rwa [List.append_nil] at hall
  have htokens := Lexes.eq_of_spellAll_eq (hlexes ho) (hlexes ho') h
  have hrunning : IsRunning [] := by
    rintro r σ ⟨⟩
  have hleads := ho.leads [] [] hrunning
  have hleads' := ho'.leads [] [] hrunning
  rw [← htokens] at hleads'
  simpa using congrArg Reader.stack (hleads.eq_of_stuck hleads' rfl rfl)

end

/-! ## Reading function types -/

/-- The item that the parameters of a function are read as. -/
def paramItem : Option Outline → OutlineItem
  | none => .nothing
  | some o => .outline o

namespace FunctionOutline

/-- What is on the stack when a function type has been read. -/
def stack (f : FunctionOutline) : List OutlineItem :=
  (f.marks.map .mark).reverse ++ [paramItem f.params, .outline f.result]

/-- The parts of a function type are on the stack. -/
theorem stack_injective : Function.Injective stack := by
  rintro ⟨result, params, marks⟩ ⟨result', params', marks'⟩ h
  obtain ⟨hmarks, hparts⟩ := List.append_inj' h rfl
  have hmarks' : marks = marks' := by
    refine List.map_injective_iff.2 ?_ (List.reverse_injective hmarks)
    rintro o o' ⟨⟩
    rfl
  simp only [List.cons.injEq, and_true, OutlineItem.outline.injEq] at hparts
  obtain ⟨hparams, hresult⟩ := hparts
  have hparams' : params = params' := by
    cases params <;> cases params' <;> simp_all [paramItem]
  rw [hmarks', hparams', hresult]

/-- Outlines of function types that are read as themselves: the representation of the
function comes last. -/
structure Readable (f : FunctionOutline) : Prop where
  result : f.result.Readable
  params : ∀ o ∈ f.params, o.Readable
  marks : ∃ os r, f.marks = os ++ [.repr r] ∧ ∀ o ∈ os, o.mark?.isSome

/-- What may stand in front of a function type: the discriminator of a declaration. -/
inductive IsDiscriminator : List Token → Prop
  | nil : IsDiscriminator []
  | localName (n : Nat) : IsDiscriminator [.op .localName, .index n]
  | privateName (x : String) : IsDiscriminator [.identifier x, .op .privateName]

variable {f f' : FunctionOutline} {ds ds' rest : List Token}

/-- The discriminator of a declaration is passed over. -/
theorem leads_discriminator (rest : List Token) (h : IsDiscriminator ds) :
    Leads readOutline ⟨[], [], ds ++ rest⟩ ⟨[], [], rest⟩ := by
  cases h with
  | nil => exact .refl _
  | localName n => exact .single rfl
  | privateName x => exact .head rfl (.single rfl)

/-- A discriminator lexes in front of anything that does. -/
theorem lexes_discriminator (h : IsDiscriminator ds) (hrest : Lexes .free rest) :
    Lexes .free (ds ++ rest) := by
  cases h with
  | nil => exact hrest
  | localName n => exact .cons rfl (.cons rfl hrest)
  | privateName x => exact .cons rfl (.cons rfl hrest)

/-- Marks are read one by one until the representation of the function. -/
theorem leads_marks {os : List Operator} (r : FunctionRepr) {σ : List OutlineItem}
    (hσ : IsRunning σ) (hos : ∀ o ∈ os, o.mark?.isSome) :
    Leads readOutline ⟨σ, [], (os ++ [Operator.repr r]).map .op ++ rest⟩
      ⟨((os ++ [Operator.repr r]).map .mark).reverse ++ σ, [], rest⟩ := by
  induction os generalizing σ with
  | nil => exact .single (readOutline_op hσ _)
  | cons o os ih =>
    have ho := hos o (by simp)
    -- no mark is a representation, so the function goes on
    have hrunning : IsRunning (.mark o :: σ) := by
      rintro r' σ' ⟨⟩
      cases ho
    have hlater := ih hrunning fun o' ho' => hos o' (by simp [ho'])
    refine .head (e := ⟨.mark o :: σ, [], (os ++ [Operator.repr r]).map .op ++ rest⟩) ?_ ?_
    · apply (readOutline_op hσ o).trans
      cases o <;> first
        | cases ho; done
        | rfl
    · simpa using hlater

/-- The reader takes a readable function type from an empty stack to its parts and marks. -/
theorem Readable.leads (hf : f.Readable) :
    Leads readOutline ⟨[], [], f.tokens ++ rest⟩ ⟨f.stack, [], rest⟩ := by
  obtain ⟨os, r, hmarks, hos⟩ := hf.marks
  have hrunning : IsRunning [] := by
    rintro r σ ⟨⟩
  have hresult := hf.result.leads [] (paramTokens f.params ++ (f.marks.map .op ++ rest)) hrunning
  have hparams : Leads readOutline
      ⟨[.outline f.result], [], paramTokens f.params ++ (f.marks.map .op ++ rest)⟩
      ⟨[paramItem f.params, .outline f.result], [], f.marks.map .op ++ rest⟩ := by
    cases hcase : f.params with
    | none => exact .single (readOutline_op (isRunning_cons (by simp)) _)
    | some o => exact (hf.params o hcase).leads _ _ (isRunning_cons (by simp))
  -- the stack holds the result and the parameters when the marks begin
  have hitem : IsRunning [paramItem f.params, .outline f.result] := by
    refine isRunning_cons fun o => ?_
    cases f.params <;> simp [paramItem]
  rw [tokens, List.append_assoc, List.append_assoc]
  apply (hresult.trans hparams).trans
  rw [stack, hmarks]
  exact leads_marks r hitem hos

/-- The tokens of a readable function type lex by themselves. -/
theorem Readable.lexes (hf : f.Readable) : Lexes .free f.tokens := by
  obtain ⟨os, r, hmarks, hos⟩ := hf.marks
  have hlast : Lexes .free (f.marks.map .op) := by
    rw [hmarks]
    clear hmarks
    induction os with
    | nil => exact lexes_operator (mem_repr r).1 (mem_repr r).2 .nil
    | cons o os ih =>
      obtain ⟨say, hsay⟩ := Option.isSome_iff_exists.1 (hos o (by simp))
      exact lexes_operator (mem_of_mark? hsay).1 (mem_of_mark? hsay).2
        (ih fun o' ho' => hos o' (by simp [ho']))
  apply hf.result.lexes _
  cases hcase : f.params with
  | none =>
    -- an empty list must not be followed by the mark of a tuple
    refine .cons rfl ?_
    obtain ⟨o, ts, hcons, hne⟩ : ∃ o ts, f.marks.map Token.op = .op o :: ts ∧ o ≠ .tuple := by
      rw [hmarks]
      cases os with
      | nil => exact ⟨_, _, rfl, by simp⟩
      | cons o os =>
        refine ⟨_, _, rfl, ?_⟩
        rintro rfl
        cases hos _ List.mem_cons_self
    rw [hcons] at hlast ⊢
    exact hlast.listEmpty (by simpa using hne)
  | some o => exact (hf.params o hcase).lexes _ hlast

/-- Outlines of function types that begin one text are equal. -/
theorem Readable.eq_of_text (hf : f.Readable) (hf' : f'.Readable) (hds : IsDiscriminator ds)
    (hds' : IsDiscriminator ds') {x y : List Char}
    (h : spellAll (ds ++ f.tokens) ++ x = spellAll (ds' ++ f'.tokens) ++ y) : f = f' := by
  -- the reader stops at the end of the shorter one
  have hshorter : ∀ {f f' : FunctionOutline} {ds ds' : List Token}, f.Readable → f'.Readable →
      IsDiscriminator ds → IsDiscriminator ds' → ds ++ f.tokens <+: ds' ++ f'.tokens →
      f = f' := by
    intro f f' ds ds' hf hf' hds hds' ⟨more, hmore⟩
    have hleads := (leads_discriminator (f.tokens ++ more) hds).trans hf.leads
    have hleads' := (leads_discriminator (f'.tokens ++ []) hds').trans hf'.leads
    rw [← List.append_assoc, hmore] at hleads
    rw [List.append_nil] at hleads'
    have hstuck : ∀ {f : FunctionOutline} rest, f.Readable →
        readOutline ⟨f.stack, [], rest⟩ = none := by
      intro f rest hf
      obtain ⟨os, r, hmarks, -⟩ := hf.marks
      rw [stack, hmarks, List.map_append, List.reverse_append]
      rfl
    have hend := hleads.eq_of_stuck hleads' (hstuck _ hf) (hstuck _ hf')
    exact stack_injective (congrArg Reader.stack hend)
  rcases Lexes.begins_or_begins (lexes_discriminator hds hf.lexes)
    (lexes_discriminator hds' hf'.lexes) h with hle | hle
  · exact hshorter hf hf' hds hds' hle
  · exact (hshorter hf' hf hds' hds hle).symm

end FunctionOutline

end NameMangling
