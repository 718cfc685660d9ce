/-
# Types with labels

Tuples of labelled elements and functions of labelled arguments are written as their
outlines.  A label in front of a tuple is handed on to the first element of the tuple, and
a tuple met again is its number, with the labels in front of it.

Main definitions:
* `Program.Labelled`, the types that are made of labelled tuples;
* `Grammar.outlineWithin` and `Grammar.outlineFunction`, the outlines of types and of
  function types.

Main facts:
* `outlines_type`: what is written for a type are the tokens of its outline;
* `outline_readable`: the outline is read as itself.
-/
import NameMangling.Proofs.Outlines
import NameMangling.Proofs.ReadingTypes

namespace NameMangling

/-! ## Types -/

/-- Labels that are names of the program. -/
def Program.HasLabel (p : Program) (l : Option Name) : Prop := ∀ n ∈ l, n.slot < p.names.size

/-- The types made of builtin types and generic parameters by tuples, whose elements may
have labels. -/
inductive Program.Labelled (p : Program) : TypeId → Prop
  | leaf {t : TypeId} (ht : t.index < p.types.size)
      (h : (p.types.node t).isLeaf = true) : Labelled p t
  | tuple {t : TypeId} {elements : List TupleElement} (ht : t.index < p.types.size)
      (h : p.types.node t = .tuple elements) (hlabels : ∀ e ∈ elements, p.HasLabel e.label)
      (helements : ∀ e ∈ elements, Labelled p e.type) : Labelled p t

theorem Program.Labelled.lt {p : Program} {t : TypeId} (h : p.Labelled t) :
    t.index < p.types.size := by
  cases h <;> assumption

/-- Whether a node is that of a type without parts, or of a tuple with labels that are names
of the program. -/
def Program.isLabelledNode (p : Program) : TypeNode → Bool
  | .tuple elements => elements.all fun e => e.label.all fun n => n.slot < p.names.size
  | n => n.isLeaf

/-- If the first types of a program have such nodes, they are labelled: their parts are
among them. -/
theorem Program.labelled_of_nodes {p : Program} (ha : p.types.Shared) {n : Nat}
    (hn : n ≤ p.types.size) (h : ∀ i < n, p.isLabelledNode (p.types.node ⟨i⟩) = true) :
    ∀ i < n, p.Labelled ⟨i⟩ := by
  intro i hi
  -- the elements of a tuple stand in front of it
  induction i using Nat.strongRecOn with
  | _ i ih =>
    have hlt : i < p.types.size := Nat.lt_of_lt_of_le hi hn
    have hnode := h i hi
    unfold isLabelledNode at hnode
    split at hnode
    · rename_i elements htuple
      refine .tuple hlt htuple (fun e he n hl => ?_) fun e he => ?_
      · have hall := List.all_eq_true.1 hnode e he
        rw [hl] at hall
        simpa using hall
      · have hpart := ha.parts_lt (t := ⟨i⟩) hlt (u := e.type)
          (by rw [htuple]; exact List.mem_map_of_mem he)
        exact ih e.type.index hpart (Nat.lt_trans hpart hi)
    · exact .leaf hlt hnode

/-! ## Outlines of types -/

/-- An item of a list: an element of a tuple or a parameter of a function. -/
structure ListItem where
  labels : List String
  type : TypeId
  flags : List Operator

/-- The same items with more labels in front of the first one. -/
def handOn (labels : List String) : List ListItem → List ListItem
  | [] => []
  | i :: is => { i with labels := labels ++ i.labels } :: is

/-- The outlines of some items, where `outline` gives the outlines of types and the table
after them. -/
def outlineItems (outline : List NodeKey → List String → TypeId → Outline × List NodeKey) :
    List NodeKey → List ListItem → List Outline × List NodeKey
  | table, [] => ([], table)
  | table, i :: is =>
    let (o, table) := outline table i.labels i.type
    let (os, table) := outlineItems outline table is
    (o.withFlags i.flags :: os, table)

/-- A list of some outlines; there is no list of none. -/
def listOutline : List Outline → Outline
  | [] => .leaf [] .emptyTuple
  | o :: os => .list o os

namespace Grammar

variable (g : Grammar)

/-- The text of a label. -/
def labelTexts (l : Option Name) : List String := l.toList.map g.program.text

/-- The elements of a tuple. -/
def elementItems (elements : List TupleElement) : List ListItem :=
  elements.map fun e => ⟨g.labelTexts e.label, e.type, []⟩

/-- The outline of a type of which at most so many tuples are nested, with labels in front
of it, and the table after it. -/
def outlineWithin : Nat → List NodeKey → List String → TypeId → Outline × List NodeKey
  | 0, table, labels, t => (.leaf labels (g.program.types.node t), table)
  | n + 1, table, labels, t =>
    match g.program.types.node t with
    | .tuple elements =>
      match table.idxOf? (.type t) with
      | some k => (.again labels k, table)
      | none =>
        let (os, table) := outlineItems (outlineWithin n) table
          (handOn labels (g.elementItems elements))
        (listOutline os, register (.type t) table)
    | node => (.leaf labels node, table)

/-- The outline of a type, with labels in front of it, and the table after it. -/
def outlineIn (table : List NodeKey) (labels : List String) (t : TypeId) :
    Outline × List NodeKey :=
  g.outlineWithin g.program.types.size table labels t

/-- The parameters of a function with their labels. -/
def parameterItems : List Parameter → List (Option Name) → List ListItem
  | [], _ => []
  | q :: qs, labels =>
    ⟨g.labelTexts (labels.head?.getD none), q.type, q.flags.operators⟩
      :: parameterItems qs labels.tail

/-- The outline of the parameters of a function. -/
def outlineParams (table : List NodeKey) (qs : List Parameter) (labels : List (Option Name)) :
    Option Outline :=
  let list := listOutline (outlineItems g.outlineIn table (g.parameterItems qs labels)).1
  match qs with
  | [] => none
  | [q] => if g.standsAlone q (labels.head?.getD none) then some (g.outlineIn table [] q.type).1
      else some list
  | _ => some list

/-- The outline of a function type with labels for its parameters. -/
def outlineFunction (table : List NodeKey) (f : FunctionType) (labels : List (Option Name)) :
    FunctionOutline :=
  let (result, table) := g.outlineIn table [] f.result
  { result, params := g.outlineParams table f.params labels, marks := f.operators }

end Grammar

/-! ## Reading the outlines -/

section

variable {g : Grammar} {k : Nat} {t : TypeId}

/-- The outline of a type without parts. -/
theorem outlineWithin_leaf (h : (g.program.types.node t).isLeaf = true) (table : List NodeKey)
    (labels : List String) :
    g.outlineWithin k table labels t = (.leaf labels (g.program.types.node t), table) := by
  cases k with
  | zero => rfl
  | succ k =>
    rw [Grammar.outlineWithin]
    split
    · rename_i hnode
      rw [hnode] at h
      cases h
    · rfl

/-- The items have outlines that are read as themselves if their types have. -/
theorem readable_outlineItems {is : List ListItem}
    {outline : List NodeKey → List String → TypeId → Outline × List NodeKey}
    (htypes : ∀ i ∈ is, ∀ table labels, (outline table labels i.type).1.Readable)
    (hflags : ∀ i ∈ is, ∀ flag ∈ i.flags, flag.flag?.isSome) (table : List NodeKey) :
    ∀ o ∈ (outlineItems outline table is).1, o.Readable := by
  induction is generalizing table with
  | nil => simp [outlineItems]
  | cons i is ih =>
    have hrest := ih (fun j hj => htypes j (by simp [hj])) (fun j hj => hflags j (by simp [hj]))
      (outline table i.labels i.type).2
    intro o ho
    rcases List.mem_cons.1 ho with rfl | ho
    · exact readable_withFlags (htypes i (by simp) _ _) (hflags i (by simp))
    · exact hrest o ho

/-- A list of readable items is readable, the empty one as a type without parts. -/
theorem readable_listOutline {os : List Outline} (h : ∀ o ∈ os, o.Readable) :
    (listOutline os).Readable := by
  cases os with
  | nil => exact readable_leaf [] rfl
  | cons o os => exact readable_list (h o (by simp)) fun o' ho' => h o' (by simp [ho'])

/-- Handing labels on changes neither the types nor the flags of the items. -/
theorem mem_handOn {labels : List String} {is : List ListItem} {i : ListItem}
    (h : i ∈ handOn labels is) : ∃ j ∈ is, i.type = j.type ∧ i.flags = j.flags := by
  cases is with
  | nil => cases h
  | cons j is =>
    rcases List.mem_cons.1 h with rfl | h
    · exact ⟨j, by simp, rfl, rfl⟩
    · exact ⟨i, by simp [h], rfl, rfl⟩

/-- The outline of a type is read as itself.  Tuples stand behind their elements, so that
no bound is met. -/
theorem outline_readable (ha : g.program.types.Shared) (h : g.program.Labelled t)
    (hk : t.index < k) (table : List NodeKey) (labels : List String) :
    (g.outlineWithin k table labels t).1.Readable := by
  induction k generalizing t table labels with
  | zero => omega
  | succ k ih =>
    cases h with
    | leaf ht h =>
      rw [outlineWithin_leaf h]
      exact readable_leaf labels h
    | @tuple _ elements ht h _ helements =>
      rw [Grammar.outlineWithin, h]
      dsimp only
      split
      · exact readable_again labels _
      · refine readable_listOutline (readable_outlineItems ?_ ?_ table)
        · intro i hi table' labels'
          obtain ⟨j, hj, htype, -⟩ := mem_handOn hi
          obtain ⟨e, he, rfl⟩ := List.mem_map.1 hj
          rw [htype]
          refine ih (helements e he) ?_ table' labels'
          -- an element stands in front of its tuple, so one level less is enough for it
          have hlt := ha.parts_lt ht (u := e.type)
            (by rw [h]; exact List.mem_map_of_mem he)
          omega
        · intro i hi
          obtain ⟨j, hj, -, hflags⟩ := mem_handOn hi
          obtain ⟨e, -, rfl⟩ := List.mem_map.1 hj
          rw [hflags]
          simp

end

/-! ## Writing the outlines -/

/-- The pieces of an item of a list. -/
def ListItem.pieces (scope : Scope) (i : ListItem) : List Piece :=
  (i.labels.map Token.identifier).map .token ++ ([.type scope i.type] ++ i.flags.map .op)

/-- Types whose outlines are what is written for them, and the table after them is the one
after their outline. -/
def Outlines (g : Grammar) (n : Nat) (scope : Scope)
    (outline : List NodeKey → List String → TypeId → Outline × List NodeKey) (t : TypeId) : Prop :=
  ∀ s s' : Progress, s.Tabled → g.Writes {} n [.type scope t] s s' → ∀ labels, ∃ new,
    s'.tokens.toList = s.tokens.toList ++ new ∧
      (outline s.table labels t).1.tokens = labels.map .identifier ++ new ∧
      s'.table = (outline s.table labels t).2

section

variable {g : Grammar} {n k : Nat} {scope : Scope} {t : TypeId} {s s' : Progress}
  {outline : List NodeKey → List String → TypeId → Outline × List NodeKey} {is : List ListItem}

/-- An item with more labels in front of it. -/
theorem outlines_item {i : ListItem} (hi : Outlines g n scope outline i.type) (hs : s.Tabled)
    (h : g.Writes {} n (i.pieces scope) s s') (labels : List String) : ∃ new,
      s'.tokens.toList = s.tokens.toList ++ new ∧
        ((outline s.table (labels ++ i.labels) i.type).1.withFlags i.flags).tokens =
          labels.map .identifier ++ new ∧
        s'.table = (outline s.table (labels ++ i.labels) i.type).2 := by
  obtain ⟨s₁, hlabels, hrest⟩ := Grammar.writes_append.1 h
  obtain ⟨s₂, htype, hflags⟩ := Grammar.writes_append.1 hrest
  obtain ⟨new, hnew, houtline, htable⟩ := hi s₁ s₂ (hlabels.tabled hs) htype (labels ++ i.labels)
  have hflags' : g.Writes {} n ((i.flags.map Token.op).map .token) s₂ s' := by
    rw [List.map_map]
    exact hflags
  rw [Grammar.writes_tokens_table hlabels] at houtline htable
  refine ⟨i.labels.map .identifier ++ (new ++ i.flags.map .op), ?_, ?_, ?_⟩
  · rw [(Grammar.writes_tokens hflags').1, hnew, (Grammar.writes_tokens hlabels).1]
    simp
  · rw [Outline.tokens_withFlags, houtline]
    simp
  · rw [Grammar.writes_tokens_table hflags', htable]

/-- Items in a row. -/
theorem outlines_items (his : ∀ i ∈ is, Outlines g n scope outline i.type) (hs : s.Tabled)
    (h : g.Writes {} n (is.map (ListItem.pieces scope)).flatten s s') : ∃ new,
      s'.tokens.toList = s.tokens.toList ++ new ∧
        tokensOf (outlineItems outline s.table is).1 = new ∧
        s'.table = (outlineItems outline s.table is).2 := by
  induction is generalizing s with
  | nil =>
    cases h
    exact ⟨[], (List.append_nil _).symm, rfl, rfl⟩
  | cons i is ih =>
    obtain ⟨s₁, hfirst, hrest⟩ := Grammar.writes_append.1 h
    obtain ⟨new, hnew, houtline, htable⟩ := outlines_item (his i (by simp)) hs hfirst []
    obtain ⟨new', hnew', houtline', htable'⟩ :=
      ih (fun j hj => his j (by simp [hj])) (hfirst.tabled hs) hrest
    rw [List.nil_append] at houtline htable
    -- the rest is outlined with the table that the first item leaves
    rw [htable] at houtline' htable'
    refine ⟨new ++ new', by rw [hnew', hnew, List.append_assoc], ?_, htable'⟩
    rw [outlineItems]
    dsimp only [tokensOf]
    rw [houtline']
    exact congrArg (· ++ new') houtline

/-- A list, with labels in front of it. -/
theorem outlines_list (his : ∀ i ∈ is, Outlines g n scope outline i.type) (hne : is ≠ [])
    (hs : s.Tabled)
    (h : g.Writes {} n (markFirst (is.map (ListItem.pieces scope)) ++ [.op .tuple]) s s')
    (labels : List String) : ∃ new,
      s'.tokens.toList = s.tokens.toList ++ new ∧
        (listOutline (outlineItems outline s.table (handOn labels is)).1).tokens =
          labels.map .identifier ++ new ∧
        s'.table = (outlineItems outline s.table (handOn labels is)).2 := by
  cases is with
  | nil => exact absurd rfl hne
  | cons i is =>
    obtain ⟨s₃, hitems, hclose⟩ := Grammar.writes_append.1 h
    obtain ⟨s₁, hfirst, hrest⟩ := Grammar.writes_append.1 hitems
    cases hrest with | token hrest =>
    cases hclose with | token hclose =>
    cases hclose
    -- the labels that are handed on go to the first item, in front of the mark of the list
    obtain ⟨new, hnew, houtline, htable⟩ := outlines_item (his i (by simp)) hs hfirst labels
    obtain ⟨new', hnew', houtline', htable'⟩ :=
      outlines_items (fun j hj => his j (by simp [hj])) ((hfirst.tabled hs).emit _) hrest
    rw [Progress.table_emit, htable] at houtline' htable'
    refine ⟨new ++ .op .firstOfList :: (new' ++ [.op .tuple]), ?_, ?_, htable'⟩
    · simp [hnew', hnew]
    · rw [handOn, outlineItems]
      dsimp only [listOutline, Outline.tokens]
      rw [houtline', houtline]
      simp

theorem label_eq (l : Option Name) :
    g.label l = ((g.labelTexts l).map Token.identifier).map .token := by
  cases l <;> rfl

/-- What is written for a type are the tokens of its outline, but for the labels in front
of it. -/
theorem outlines_type (ha : g.program.types.Shared) (h : g.program.Labelled t)
    (hk : t.index < k) : Outlines g n scope (g.outlineWithin k) t := by
  induction n using Nat.strongRecOn generalizing t k with
  | _ n ih =>
    intro s s' hs hwrites labels
    cases hwrites with | @phrase m _ _ _ _ _ _ inside after =>
    cases after
    change g.Writes {} m (g.type scope t) s s' at inside
    cases h with
    | leaf ht h =>
      rw [outlineWithin_leaf h]
      rcases type_eq_leafTokens scope h with ⟨e, htype⟩ | htype <;> rw [htype] at inside
      · cases inside
      · refine ⟨_, (Grammar.writes_tokens inside).1, rfl, Grammar.writes_tokens_table inside⟩
    | @tuple _ elements ht h _ helements =>
      obtain ⟨k, rfl⟩ : ∃ k', k = k' + 1 := ⟨k - 1, by omega⟩
      rcases type_eq (g := g) scope t with htype | htype <;> rw [htype] at inside
      · cases inside
      rw [h] at inside
      rw [Grammar.outlineWithin, h]
      dsimp only
      cases inside with
      -- a tuple met again is written as its number
      | short shorthand after =>
        cases after
        obtain ⟨r, -, hplaces, -⟩ | ⟨-, number, hnumber, rfl⟩ :=
          Spelling.shorthand?_eq_some shorthand
        · cases hplaces
        · rw [hs.number] at hnumber
          rw [hnumber]
          exact ⟨[.backReference number], by simp, rfl, rfl⟩
      | @spelled d _ _ _ _ _ s₁ _ noShorthand inside after =>
        cases after
        have hnumber := Spelling.number?_of_shorthand?_eq_none rfl noShorthand
        rw [hs.number] at hnumber
        rw [hnumber]
        have hpieces : g.production scope (.body (.type t)) =
            markFirst ((g.elementItems elements).map (ListItem.pieces scope)) ++ [.op .tuple] := by
          show g.structural scope t = _
          simp [Grammar.structural, h, Grammar.tuple, Grammar.elementItems, ListItem.pieces,
            label_eq, Function.comp_def]
        have hne : g.elementItems elements ≠ [] := by
          intro hnil
          rw [List.map_eq_nil_iff.1 hnil] at h
          exact ha.nonempty _ (Array.mem_of_getElem? (Arena.Shared.entry_mem ht)) h
        -- elements are spelled at smaller depths and stand before the tuple
        have hitems : ∀ i ∈ g.elementItems elements,
            Outlines g d scope (g.outlineWithin k) i.type := by
          intro i hi
          obtain ⟨e, he, rfl⟩ := List.mem_map.1 hi
          have hlt := ha.parts_lt ht (u := e.type) (by rw [h]; exact List.mem_map_of_mem he)
          exact ih d (by omega) (helements e he) (Nat.lt_of_lt_of_le hlt (Nat.le_of_lt_succ hk))
        rw [hpieces] at inside
        obtain ⟨new, hnew, houtline, htable⟩ := outlines_list hitems hne hs inside labels
        refine ⟨new, by rw [Progress.complete_tokens, hnew], houtline, ?_⟩
        rw [Progress.table_complete, htable]

end

end NameMangling
