/-
# Recovering labels

Where labels stand in front of types without parts only, the outline of a type tells the
type, and the outline of a function type tells the function type and its labels.  Elsewhere
two types may have one outline.

Main definitions: `Program.LabelsLeaves` and `Program.FunctionLabelsLeaves`, the types and
functions without a label in front of a tuple.

Main facts:
* `outlineWithin_injective`: types without a label in front of a tuple are told by their
  outlines;
* `outlineFunction_injective`: so are function types and the labels of their arguments.
-/
import NameMangling.Proofs.LabelledFunctions

namespace NameMangling

/-! ## Labels in front of leaves -/

/-- The types made of tuples that have no label in front of a tuple. -/
inductive Program.LabelsLeaves (p : Program) : TypeId → Prop
  | leaf {t : TypeId} (h : (p.types.node t).isLeaf = true) : LabelsLeaves p t
  | tuple {t : TypeId} {elements : List TupleElement} (h : p.types.node t = .tuple elements)
      (hlabels : ∀ e ∈ elements, e.label ≠ none → p.types.kind e.type ≠ .tuple)
      (helements : ∀ e ∈ elements, LabelsLeaves p e.type) : LabelsLeaves p t

/-- The functions that have no label in front of a tuple, be it that of an argument or of an
element. -/
structure Program.FunctionLabelsLeaves (p : Program) (f : FunctionType)
    (labels : List (Option Name)) : Prop where
  params : ∀ q ∈ f.params, p.LabelsLeaves q.type
  result : p.LabelsLeaves f.result
  arguments : ∀ x ∈ f.params.zip labels, x.2 ≠ none → p.types.kind x.1.type ≠ .tuple

/-- Labels for some parameters, one for each. -/
structure Program.HasLabels (p : Program) (qs : List Parameter) (labels : List (Option Name)) :
    Prop where
  length : labels.length = qs.length
  names : ∀ l ∈ labels, p.HasLabel l

/-- The label of the first parameter, and those of the others. -/
theorem Program.HasLabels.exists_cons {p : Program} {q : Parameter} {qs : List Parameter}
    {labels : List (Option Name)} (h : p.HasLabels (q :: qs) labels) :
    ∃ l ls, labels = l :: ls ∧ p.HasLabel l ∧ p.HasLabels qs ls := by
  cases labels with
  | nil => cases h.length
  | cons l ls =>
    have hnames : ∀ l' ∈ ls, p.HasLabel l' := fun l' hl' => h.names l' (by simp [hl'])
    exact ⟨l, ls, rfl, h.names l (by simp), Nat.succ.inj h.length, hnames⟩

/-- Items that have no label in front of a tuple. -/
structure ListItem.LabelsLeaves (p : Program) (i : ListItem) : Prop where
  type : p.LabelsLeaves i.type
  labels : p.types.kind i.type = .tuple → i.labels = []

/-! ## Items -/

namespace Outline

/-- An item without its flags, and the flags. -/
def unflag : Outline → Outline × List Operator
  | .flagged item flag => (item.unflag.1, item.unflag.2 ++ [flag])
  | o => (o, [])

/-- Flags that are added stand behind those that an item has. -/
theorem unflag_withFlags (o : Outline) (flags : List Operator) :
    (o.withFlags flags).unflag = (o.unflag.1, o.unflag.2 ++ flags) := by
  induction flags generalizing o with
  | nil =>
    rw [List.append_nil]
    rfl
  | cons flag flags ih =>
    apply (ih (.flagged o flag)).trans
    rw [unflag, List.append_assoc]
    rfl

/-- What an item and its flags are can be told if the item has no flags of its own. -/
theorem withFlags_injective {o o' : Outline} {flags flags' : List Operator}
    (ho : o.unflag = (o, [])) (ho' : o'.unflag = (o', []))
    (h : o.withFlags flags = o'.withFlags flags') : o = o' ∧ flags = flags' := by
  have hunflag := congrArg unflag h
  rw [unflag_withFlags, unflag_withFlags, ho, ho'] at hunflag
  exact Prod.mk.inj hunflag

end Outline

section

variable {outline : List NodeKey → List String → TypeId → Outline × List NodeKey}
  {is js : List ListItem} {table : List NodeKey}

/-- Items in a row are told by their outlines if their types are, with the labels in front
of them.  The table after an item is that of its outline, so both rows go on with the same
one. -/
theorem outlineItems_injective
    (hunflag : ∀ table labels t,
      (outline table labels t).1.unflag = ((outline table labels t).1, []))
    (htypes : ∀ i ∈ is, ∀ j ∈ js, ∀ table,
      (outline table i.labels i.type).1 = (outline table j.labels j.type).1 →
        i.type = j.type ∧ i.labels = j.labels)
    (h : (outlineItems outline table is).1 = (outlineItems outline table js).1) : is = js := by
  -- item by item: equal first outlines give equal first items, and these the same table
  induction is generalizing js table with
  | nil =>
    cases js with
    | nil => rfl
    | cons j js => cases h
  | cons i is ih =>
    cases js with
    | nil => cases h
    | cons j js =>
      obtain ⟨hfirst, hrest⟩ := List.cons.inj h
      have hij : i = j := by
        obtain ⟨houtline, hflags⟩ :=
          Outline.withFlags_injective (hunflag _ _ _) (hunflag _ _ _) hfirst
        obtain ⟨htype, hlabels⟩ := htypes i (by simp) j (by simp) table houtline
        cases i
        cases j
        simp_all
      subst hij
      have hlater := ih (fun i' hi' j' hj' => htypes i' (by simp [hi']) j' (by simp [hj'])) hrest
      rw [hlater]

/-- Items have outlines, so that a list of them is a list of outlines. -/
theorem exists_outlineItems_eq_cons
    (outline : List NodeKey → List String → TypeId → Outline × List NodeKey)
    (table : List NodeKey) (h : is ≠ []) :
    ∃ o os, (outlineItems outline table is).1 = o :: os := by
  cases is with
  | nil => exact absurd rfl h
  | cons i is => exact ⟨_, _, rfl⟩

end

/-! ## Types -/

/-- The kind of a tuple is that of tuples. -/
theorem kind_tuple {a : Arena} {t : TypeId} {elements : List TupleElement}
    (h : a.node t = .tuple elements) : a.kind t = .tuple := by
  rw [Arena.kind, h]
  rfl

/-- A type without parts is no tuple. -/
theorem kind_ne_tuple {a : Arena} {t : TypeId} (h : (a.node t).isLeaf = true) :
    a.kind t ≠ .tuple := by
  intro hkind
  rw [TypeNode.isLeaf] at h
  change (a.node t).kind = .tuple at hkind
  rw [hkind] at h
  cases h

/-- A tuple of types without parts has no label in front of a tuple. -/
theorem Program.LabelsLeaves.of_leaves {p : Program} {t : TypeId} {elements : List TupleElement}
    (h : p.types.node t = .tuple elements)
    (hleaves : ∀ e ∈ elements, (p.types.node e.type).isLeaf = true) : p.LabelsLeaves t :=
  .tuple h (fun e he _ => kind_ne_tuple (hleaves e he)) fun e he => .leaf (hleaves e he)

/-- A labelled type that is no tuple has no parts. -/
theorem Program.Labelled.isLeaf {p : Program} {t : TypeId} (h : p.Labelled t)
    (hkind : p.types.kind t ≠ .tuple) : (p.types.node t).isLeaf = true := by
  cases h with
  | leaf _ h => exact h
  | tuple _ h => exact absurd (kind_tuple h) hkind

section

variable {g : Grammar} {k : Nat} {t u : TypeId} {table : List NodeKey}

/-- The outline of a type ends in no flag. -/
theorem unflag_outlineWithin (table : List NodeKey) (labels : List String) (t : TypeId) :
    (g.outlineWithin k table labels t).1.unflag = ((g.outlineWithin k table labels t).1, []) := by
  have hlist : ∀ os : List Outline, (listOutline os).unflag = (listOutline os, []) := by
    intro os
    cases os <;> rfl
  cases k with
  | zero => rfl
  | succ k =>
    rw [Grammar.outlineWithin]
    split
    · split
      · rfl
      · exact hlist _
    · rfl

/-- Labels are told by their texts. -/
theorem labelTexts_injective (hnames : g.program.names.Built) {l l' : Option Name}
    (hl : g.program.HasLabel l) (hl' : g.program.HasLabel l')
    (h : g.labelTexts l = g.labelTexts l') : l = l' := by
  cases l with
  | none =>
    cases l' with
    | none => rfl
    | some n' => cases h
  | some n =>
    cases l' with
    | none => cases h
    | some n' =>
      have htext : g.program.text n = g.program.text n' := (List.cons.inj h).1
      rw [hnames.eq_of_text_eq (hl n rfl) (hl' n' rfl) htext]

/-- The elements of a tuple are told by their items, as labels are by their texts. -/
theorem elementItems_injective (hnames : g.program.names.Built)
    {elements elements' : List TupleElement} (hl : ∀ e ∈ elements, g.program.HasLabel e.label)
    (hl' : ∀ e ∈ elements', g.program.HasLabel e.label)
    (h : g.elementItems elements = g.elementItems elements') : elements = elements' := by
  induction elements generalizing elements' with
  | nil => exact (List.map_eq_nil_iff.1 h.symm).symm
  | cons e elements ih =>
    cases elements' with
    | nil => cases h
    | cons e' elements' =>
      obtain ⟨hfirst, hrest⟩ := List.cons.inj h
      have hlater := ih (fun x hx => hl x (by simp [hx])) (fun x hx => hl' x (by simp [hx])) hrest
      obtain ⟨hlabels, htype, -⟩ := ListItem.mk.inj hfirst
      -- labels are told by their texts, since the names are interned
      have hlabel := labelTexts_injective hnames (hl e (by simp)) (hl' e' (by simp)) hlabels
      have hfirst' : e = e' := by
        obtain ⟨l, x⟩ := e
        obtain ⟨l', x'⟩ := e'
        exact congrArg₂ TupleElement.mk hlabel htype
      rw [hfirst', hlater]

/-- The elements of a tuple that has no label in front of a tuple. -/
theorem labelsLeaves_elementItems {elements : List TupleElement}
    (h : g.program.LabelsLeaves t) (hnode : g.program.types.node t = .tuple elements) :
    ∀ i ∈ g.elementItems elements, i.LabelsLeaves g.program := by
  intro i hi
  obtain ⟨e, he, rfl⟩ := List.mem_map.1 hi
  cases h with
  | leaf h =>
    rw [hnode] at h
    cases h
  | tuple h hlabels helements =>
    rw [hnode] at h
    cases h
    refine ⟨helements e he, fun hkind => ?_⟩
    -- a tuple element that is a tuple itself has no label
    by_cases hnone : e.label = none
    · show g.labelTexts e.label = []
      rw [hnone]
      rfl
    · exact absurd hkind (hlabels e he hnone)

theorem handOn_nil (is : List ListItem) : handOn [] is = is := by
  cases is <;> rfl

/-- A tuple has elements, as the empty one is a builtin type. -/
theorem elementItems_ne_nil (ha : g.program.types.Shared) {elements : List TupleElement}
    (ht : t.index < g.program.types.size) (h : g.program.types.node t = .tuple elements) :
    g.elementItems elements ≠ [] := by
  intro hnil
  rw [List.map_eq_nil_iff.1 hnil] at h
  exact ha.nonempty _ (Array.mem_of_getElem? (Arena.Shared.entry_mem ht)) h

/-- The outline of a tuple without labels in front of it is a reference to the tuple, or
the list of its elements. -/
theorem outlineWithin_tuple (ha : g.program.types.Shared) {elements : List TupleElement}
    (ht : t.index < g.program.types.size) (h : g.program.types.node t = .tuple elements)
    (k : Nat) (table : List NodeKey) :
    (∃ n, table[n]? = some (.type t) ∧
      (g.outlineWithin (k + 1) table [] t).1 = .again [] n) ∨
    ∃ o os, (outlineItems (g.outlineWithin k) table (g.elementItems elements)).1 = o :: os ∧
      (g.outlineWithin (k + 1) table [] t).1 = .list o os := by
  rw [Grammar.outlineWithin, h]
  dsimp only
  split
  · rename_i n hn
    exact .inl ⟨n, getElem?_of_idxOf? hn, rfl⟩
  · obtain ⟨o, os, hcons⟩ := exists_outlineItems_eq_cons (g.outlineWithin k) table
      (elementItems_ne_nil ha ht h)
    refine .inr ⟨o, os, hcons, ?_⟩
    rw [handOn_nil, hcons]
    rfl

/-- The outline of a tuple is not that of a type without parts. -/
theorem outlineWithin_tuple_ne_leaf (ha : g.program.types.Shared) {elements : List TupleElement}
    (ht : t.index < g.program.types.size) (h : g.program.types.node t = .tuple elements)
    {labels : List String} {n : TypeNode} :
    (g.outlineWithin (k + 1) table [] t).1 ≠ .leaf labels n := by
  rcases outlineWithin_tuple ha ht h k table with ⟨n, -, hagain⟩ | ⟨o, os, -, hlist⟩
  · rw [hagain]
    exact nofun
  · rw [hlist]
    exact nofun

/-- Tuples are told by their outlines if the types of their elements are, with the labels in
front of them. -/
theorem eq_of_outlineWithin_tuple_eq (hnames : g.program.names.Built)
    (ha : g.program.types.Shared) {elements elements' : List TupleElement}
    (ht : t.index < g.program.types.size) (hnode : g.program.types.node t = .tuple elements)
    (hnamed : ∀ e ∈ elements, g.program.HasLabel e.label)
    (hu : u.index < g.program.types.size) (hnode' : g.program.types.node u = .tuple elements')
    (hnamed' : ∀ e ∈ elements', g.program.HasLabel e.label)
    (htypes : ∀ i ∈ g.elementItems elements, ∀ j ∈ g.elementItems elements', ∀ table,
      (g.outlineWithin k table i.labels i.type).1 = (g.outlineWithin k table j.labels j.type).1 →
        i.type = j.type ∧ i.labels = j.labels)
    (h : (g.outlineWithin (k + 1) table [] t).1 = (g.outlineWithin (k + 1) table [] u).1) :
    t = u := by
  rcases outlineWithin_tuple ha ht hnode k table with ⟨n, hn, ho⟩ | ⟨o, os, hos, ho⟩ <;>
    rcases outlineWithin_tuple ha hu hnode' k table with ⟨n', hn', ho'⟩ | ⟨o', os', hos', ho'⟩ <;>
    rw [ho, ho'] at h
  · -- both are references to one place of the table
    obtain ⟨-, hplace⟩ := Outline.again.inj h
    rw [hplace, hn'] at hn
    cases hn
    rfl
  · cases h
  · cases h
  · obtain ⟨hfirst, hrest⟩ := Outline.list.inj h
    have hrows : (outlineItems (g.outlineWithin k) table (g.elementItems elements)).1 =
        (outlineItems (g.outlineWithin k) table (g.elementItems elements')).1 := by
      rw [hos, hos', hfirst, hrest]
    have hitems := outlineItems_injective unflag_outlineWithin htypes hrows
    have helements := elementItems_injective hnames hnamed hnamed' hitems
    apply ha.eq_of_node_eq ht hu
    rw [hnode, hnode', helements]

/-- Types without a label in front of a tuple are told by their outlines, and so are the
labels in front of them. -/
theorem outlineWithin_injective (hnames : g.program.names.Built) (ha : g.program.types.Shared)
    {labels labels' : List String} (ht : g.program.Labelled t) (hu : g.program.Labelled u)
    (hleaves : g.program.LabelsLeaves t) (hleaves' : g.program.LabelsLeaves u)
    (hlabels : g.program.types.kind t = .tuple → labels = [])
    (hlabels' : g.program.types.kind u = .tuple → labels' = [])
    (h : (g.outlineWithin k table labels t).1 = (g.outlineWithin k table labels' u).1) :
    t = u ∧ labels = labels' := by
  induction k generalizing t u table labels labels' with
  | zero =>
    obtain ⟨hsame, hnode⟩ := Outline.leaf.inj h
    exact ⟨ha.eq_of_node_eq ht.lt hu.lt hnode, hsame⟩
  | succ k ih =>
    cases ht with
    | leaf ht hleaf =>
      rw [outlineWithin_leaf hleaf] at h
      cases hu with
      | leaf hu hleaf' =>
        rw [outlineWithin_leaf hleaf'] at h
        obtain ⟨hsame, hnode⟩ := Outline.leaf.inj h
        exact ⟨ha.eq_of_node_eq ht hu hnode, hsame⟩
      | tuple hu hnode' =>
        -- a tuple has elements, so its outline is a list or a reference
        rw [hlabels' (kind_tuple hnode')] at h
        exact absurd h.symm (outlineWithin_tuple_ne_leaf ha hu hnode')
    | tuple ht hnode hnamed helements =>
      have hnone := hlabels (kind_tuple hnode)
      subst hnone
      cases hu with
      | leaf hu hleaf' =>
        rw [outlineWithin_leaf hleaf'] at h
        exact absurd h (outlineWithin_tuple_ne_leaf ha ht hnode)
      | tuple hu hnode' hnamed' helements' =>
        have hnone := hlabels' (kind_tuple hnode')
        subst hnone
        refine ⟨?_, rfl⟩
        apply eq_of_outlineWithin_tuple_eq hnames ha ht hnode hnamed hu hnode' hnamed' _ h
        intro i hi j hj table' hij
        have hi' := labelsLeaves_elementItems hleaves hnode i hi
        have hj' := labelsLeaves_elementItems hleaves' hnode' j hj
        refine ih ?_ ?_ hi'.type hj'.type hi'.labels hj'.labels hij
        · obtain ⟨e, he, rfl⟩ := List.mem_map.1 hi
          exact helements e he
        · obtain ⟨e, he, rfl⟩ := List.mem_map.1 hj
          exact helements' e he

end

/-! ## Functions -/

section

variable {g : Grammar} {table : List NodeKey}

/-- The attributes of a parameter are told by its flags. -/
theorem operators_flags_injective {f f' : ParamFlags} (h : f.operators = f'.operators) :
    f = f' := by
  rw [← (operators_flags f).2, h, (operators_flags f').2]

/-- The attributes of a function type are told by its marks. -/
theorem operators_marks_injective {f f' : FunctionType} (hparams : f.params = f'.params)
    (hresult : f.result = f'.result) (h : f.operators = f'.operators) : f = f' := by
  obtain ⟨os, hos, -, hf⟩ := operators_marks f
  obtain ⟨os', hos', -, hf'⟩ := operators_marks f'
  rw [hos, hos'] at h
  obtain ⟨hmarks, hlast⟩ := List.append_inj' h rfl
  have hrepr : f.repr = f'.repr := by simpa using hlast
  rw [← hf, ← hf', hmarks, hparams, hresult, hrepr]

/-- Parameters and their labels are told by their items. -/
theorem parameterItems_injective (hnames : g.program.names.Built) {qs qs' : List Parameter}
    {labels labels' : List (Option Name)} (hlabels : g.program.HasLabels qs labels)
    (hlabels' : g.program.HasLabels qs' labels')
    (h : g.parameterItems qs labels = g.parameterItems qs' labels') :
    qs = qs' ∧ labels = labels' := by
  induction qs generalizing qs' labels labels' with
  | nil =>
    cases qs' with
    | nil =>
      have hnil := List.length_eq_zero_iff.1 hlabels.length
      have hnil' := List.length_eq_zero_iff.1 hlabels'.length
      exact ⟨rfl, hnil.trans hnil'.symm⟩
    | cons q' qs' => cases h
  | cons q qs ih =>
    cases qs' with
    | nil => cases h
    | cons q' qs' =>
      obtain ⟨l, ls, rfl, hl, hls⟩ := hlabels.exists_cons
      obtain ⟨l', ls', rfl, hl', hls'⟩ := hlabels'.exists_cons
      obtain ⟨hfirst, hrest⟩ := List.cons.inj h
      obtain ⟨htexts, htype, hflags⟩ := ListItem.mk.inj hfirst
      have hlabel : l = l' := labelTexts_injective hnames hl hl' htexts
      -- a parameter is its type and its flags, which are told by their operators
      have hq : q = q' := by
        obtain ⟨t, f⟩ := q
        obtain ⟨t', f'⟩ := q'
        exact congrArg₂ Parameter.mk htype (operators_flags_injective hflags)
      obtain ⟨hqs, hrest'⟩ := ih hls hls' hrest
      rw [hq, hqs, hlabel, hrest']
      exact ⟨rfl, rfl⟩

/-- The parameters of a function that has no label in front of a tuple. -/
theorem labelsLeaves_parameterItems {qs : List Parameter} {labels : List (Option Name)}
    (hqs : ∀ q ∈ qs, g.program.LabelsLeaves q.type)
    (harguments : ∀ x ∈ qs.zip labels, x.2 ≠ none → g.program.types.kind x.1.type ≠ .tuple) :
    ∀ i ∈ g.parameterItems qs labels, i.LabelsLeaves g.program := by
  induction qs generalizing labels with
  | nil => exact nofun
  | cons q qs ih =>
    intro i hi
    rcases List.mem_cons.1 hi with rfl | hi
    · -- a parameter whose type is a tuple has no label
      refine ⟨hqs q (by simp), fun hkind => ?_⟩
      cases labels with
      | nil => rfl
      | cons l labels =>
        cases l with
        | none => rfl
        | some n => exact absurd hkind (harguments (q, some n) (by simp) nofun)
    · refine ih (fun q' hq' => hqs q' (by simp [hq'])) (fun x hx => ?_) i hi
      cases labels with
      | nil =>
        rw [List.tail_nil, List.zip_nil_right] at hx
        cases hx
      | cons l labels => exact harguments x (List.mem_cons_of_mem _ hx)

/-- Parameters are nothing, a single type, or a list. -/
theorem outlineParams_cases (table : List NodeKey) {qs : List Parameter}
    {labels : List (Option Name)} (hlength : labels.length = qs.length) :
    (qs = [] ∧ g.outlineParams table qs labels = none) ∨
    (∃ t, qs = [⟨t, {}⟩] ∧ labels = [none] ∧ g.program.types.kind t ≠ .tuple ∧
      g.outlineParams table qs labels = some (g.outlineIn table [] t).1) ∨
    ∃ o os, (outlineItems g.outlineIn table (g.parameterItems qs labels)).1 = o :: os ∧
      g.outlineParams table qs labels = some (.list o os) := by
  have hlist : qs ≠ [] → g.outlineParams table qs labels =
        some (listOutline (outlineItems g.outlineIn table (g.parameterItems qs labels)).1) →
      ∃ o os, (outlineItems g.outlineIn table (g.parameterItems qs labels)).1 = o :: os ∧
        g.outlineParams table qs labels = some (.list o os) := by
    intro hne h
    obtain ⟨o, os, hcons⟩ := exists_outlineItems_eq_cons g.outlineIn table
      (parameterItems_ne_nil (g := g) labels hne)
    refine ⟨o, os, hcons, ?_⟩
    rw [h, hcons]
    rfl
  cases qs with
  | nil => exact .inl ⟨rfl, rfl⟩
  | cons q qs =>
    cases qs with
    | nil =>
      obtain ⟨l, rfl⟩ := List.length_eq_one_iff.1 hlength
      -- a parameter stands alone only without a label, and never if it is a tuple
      by_cases halone : g.standsAlone q l = true
      · have hcases := halone
        simp only [Grammar.standsAlone, Bool.and_eq_true, Option.isNone_iff_eq_none, bne_iff_ne,
          ParamFlags.isPlain, beq_iff_eq] at hcases
        obtain ⟨⟨rfl, hflags⟩, hkind⟩ := hcases
        obtain ⟨t, f⟩ := q
        change f = {} at hflags
        subst hflags
        exact .inr (.inl ⟨t, rfl, rfl, hkind, if_pos halone⟩)
      · exact .inr (.inr (hlist (by simp) (if_neg halone)))
    | cons q' qs => exact .inr (.inr (hlist (by simp) rfl))

/-- Parameters are told by their outline if no label is in front of a tuple. -/
theorem outlineParams_injective (hnames : g.program.names.Built) (ha : g.program.types.Shared)
    {qs qs' : List Parameter} {labels labels' : List (Option Name)}
    (hqs : ∀ q ∈ qs, g.program.Labelled q.type) (hqs' : ∀ q ∈ qs', g.program.Labelled q.type)
    (hlabels : g.program.HasLabels qs labels) (hlabels' : g.program.HasLabels qs' labels')
    (hleaves : ∀ i ∈ g.parameterItems qs labels, i.LabelsLeaves g.program)
    (hleaves' : ∀ i ∈ g.parameterItems qs' labels', i.LabelsLeaves g.program)
    (h : g.outlineParams table qs labels = g.outlineParams table qs' labels') :
    qs = qs' ∧ labels = labels' := by
  have hleaf : ∀ {t : TypeId}, g.program.Labelled t → g.program.types.kind t ≠ .tuple →
      (g.outlineIn table [] t).1 = .leaf [] (g.program.types.node t) := by
    intro t ht hkind
    rw [Grammar.outlineIn, outlineWithin_leaf (ht.isLeaf hkind)]
  -- nothing, a single type and a list have different outlines
  rcases outlineParams_cases table hlabels.length with
    ⟨rfl, ho⟩ | ⟨t, rfl, rfl, hkind, ho⟩ | ⟨o, os, hitems, ho⟩ <;>
  rcases outlineParams_cases table hlabels'.length with
    ⟨rfl, ho'⟩ | ⟨t', rfl, rfl, hkind', ho'⟩ | ⟨o', os', hitems', ho'⟩ <;>
  rw [ho, ho'] at h
  · have hnil := List.length_eq_zero_iff.1 hlabels.length
    have hnil' := List.length_eq_zero_iff.1 hlabels'.length
    exact ⟨rfl, hnil.trans hnil'.symm⟩
  · cases h
  · cases h
  · cases h
  · have ht : g.program.Labelled t := hqs _ List.mem_cons_self
    have ht' : g.program.Labelled t' := hqs' _ List.mem_cons_self
    rw [hleaf ht hkind, hleaf ht' hkind'] at h
    obtain ⟨-, hnode⟩ := Outline.leaf.inj (Option.some.inj h)
    rw [ha.eq_of_node_eq ht.lt ht'.lt hnode]
    exact ⟨rfl, rfl⟩
  · rw [hleaf (hqs _ List.mem_cons_self) hkind] at h
    cases h
  · cases h
  · rw [hleaf (hqs' _ List.mem_cons_self) hkind'] at h
    cases h
  · obtain ⟨hfirst, hrest⟩ := Outline.list.inj (Option.some.inj h)
    have hrows : (outlineItems g.outlineIn table (g.parameterItems qs labels)).1 =
        (outlineItems g.outlineIn table (g.parameterItems qs' labels')).1 := by
      rw [hitems, hitems', hfirst, hrest]
    apply parameterItems_injective hnames hlabels hlabels'
    refine outlineItems_injective unflag_outlineWithin (fun i hi j hj table' hij => ?_) hrows
    obtain ⟨q, hq, htype, -⟩ := mem_parameterItems hi
    obtain ⟨q', hq', htype', -⟩ := mem_parameterItems hj
    have hi' := hleaves i hi
    have hj' := hleaves' j hj
    exact outlineWithin_injective hnames ha (htype ▸ hqs q hq) (htype' ▸ hqs' q' hq')
      hi'.type hj'.type hi'.labels hj'.labels hij

/-- Function types and labels are told by their outlines if no label is in front of a
tuple. -/
theorem outlineFunction_injective (hnames : g.program.names.Built)
    (ha : g.program.types.Shared) {f f' : FunctionType} {labels labels' : List (Option Name)}
    (hf : g.program.LabelledFunction f) (hf' : g.program.LabelledFunction f')
    (hlabels : g.program.HasLabels f.params labels)
    (hlabels' : g.program.HasLabels f'.params labels')
    (hleaves : g.program.FunctionLabelsLeaves f labels)
    (hleaves' : g.program.FunctionLabelsLeaves f' labels')
    (h : g.outlineFunction table f labels = g.outlineFunction table f' labels') :
    f = f' ∧ labels = labels' := by
  obtain ⟨hresults, hparams, hmarks⟩ := FunctionOutline.mk.inj h
  obtain ⟨hresult, -⟩ := outlineWithin_injective hnames ha hf.result hf'.result
    hleaves.result hleaves'.result (fun _ => rfl) (fun _ => rfl) hresults
  rw [hresult] at hparams
  obtain ⟨hqs, hsame⟩ := outlineParams_injective hnames ha hf.params hf'.params hlabels hlabels'
    (labelsLeaves_parameterItems hleaves.params hleaves.arguments)
    (labelsLeaves_parameterItems hleaves'.params hleaves'.arguments) hparams
  exact ⟨operators_marks_injective hqs hresult hmarks, hsame⟩

end

end NameMangling
