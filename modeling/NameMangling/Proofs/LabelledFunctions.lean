/-
# Function types with labels

The type of a function declaration is written with the labels of its arguments.  Parameters
that stand in a list are items like the elements of a tuple, and a list of parameters is
written as a tuple of them would be.

Main facts:
* `outlines_function`: what is written for a function type are the tokens of its outline;
* `outlineFunction_readable`: the outline is read as itself.
-/
import NameMangling.Proofs.LabelledTypes
import NameMangling.Proofs.ReadingFunctions

namespace NameMangling

/-- Function types over types with labels. -/
structure Program.LabelledFunction (p : Program) (f : FunctionType) : Prop where
  params : ∀ q ∈ f.params, p.Labelled q.type
  result : p.Labelled f.result

section

variable {g : Grammar} {n : Nat} {scope : Scope} {f : FunctionType}

/-! ## Parameters -/

/-- Parameters as items, which have the types and flags of the parameters. -/
theorem mem_parameterItems {qs : List Parameter} {labels : List (Option Name)} {i : ListItem}
    (h : i ∈ g.parameterItems qs labels) :
    ∃ q ∈ qs, i.type = q.type ∧ i.flags = q.flags.operators := by
  induction qs generalizing labels with
  | nil => cases h
  | cons q qs ih =>
    rcases List.mem_cons.1 h with rfl | h
    · exact ⟨q, by simp, rfl, rfl⟩
    · obtain ⟨q', hq', hitem⟩ := ih h
      exact ⟨q', by simp [hq'], hitem⟩

/-- The rows of the parameters are those of their items. -/
theorem parameterList_eq_items (qs : List Parameter) (labels : List (Option Name)) :
    g.parameterList scope qs labels =
      (g.parameterItems qs labels).map (ListItem.pieces scope) := by
  induction qs generalizing labels with
  | nil => rfl
  | cons q qs ih =>
    rw [Grammar.parameterList, Grammar.parameterItems, List.map_cons, ih]
    apply congrArg (· :: _)
    rw [Grammar.parameter, label_eq]
    rfl

/-- There are items where there are parameters. -/
theorem parameterItems_ne_nil {qs : List Parameter} (labels : List (Option Name))
    (hne : qs ≠ []) : g.parameterItems qs labels ≠ [] := by
  cases qs with
  | nil => exact absurd rfl hne
  | cons q qs => simp [Grammar.parameterItems]

/-- Parameters are written as their outline says. -/
theorem outlines_parameters (ha : g.program.types.Shared) {qs : List Parameter}
    {labels : List (Option Name)} (hqs : ∀ q ∈ qs, g.program.Labelled q.type) {s s' : Progress}
    (hs : s.Tabled) (h : g.Writes {} n (g.parameters scope qs labels) s s') :
    s'.tokens.toList = s.tokens.toList ++ paramTokens (g.outlineParams s.table qs labels) := by
  -- several parameters, and a single one that cannot stand alone, are written as a list
  have hlist : qs ≠ [] →
      g.Writes {} n (markFirst (g.parameterList scope qs labels) ++ [.op .tuple]) s s' →
      s'.tokens.toList = s.tokens.toList ++
        (listOutline (outlineItems g.outlineIn s.table (g.parameterItems qs labels)).1).tokens := by
    intro hne hwrites
    have hitems : ∀ i ∈ g.parameterItems qs labels, Outlines g n scope g.outlineIn i.type := by
      intro i hi
      obtain ⟨q, hq, htype, -⟩ := mem_parameterItems hi
      rw [htype]
      exact outlines_type ha (hqs q hq) (hqs q hq).lt
    rw [parameterList_eq_items] at hwrites
    obtain ⟨new, hnew, houtline, -⟩ :=
      outlines_list hitems (parameterItems_ne_nil labels hne) hs hwrites []
    have hhand : handOn [] (g.parameterItems qs labels) = g.parameterItems qs labels := by
      cases g.parameterItems qs labels <;> rfl
    rw [hhand] at houtline
    rw [houtline]
    exact hnew
  cases qs with
  | nil =>
    cases h with | token after =>
    cases after
    simp [Grammar.outlineParams, paramTokens]
  | cons q qs =>
    cases qs with
    | nil =>
      unfold Grammar.parameters at h
      unfold Grammar.outlineParams
      dsimp only at h ⊢
      split at h
      · rename_i halone
        rw [if_pos halone]
        have hq := hqs q (by simp)
        obtain ⟨new, hnew, houtline, -⟩ := outlines_type ha hq hq.lt s s' hs h []
        rw [hnew]
        exact congrArg (s.tokens.toList ++ ·) houtline.symm
      · rename_i halone
        rw [if_neg halone]
        exact hlist (by simp) h
    | cons q' qs => exact hlist (by simp) h

/-! ## Function types -/

/-- What is written for a function type with labels are the tokens of its outline. -/
theorem outlines_function (ha : g.program.types.Shared) {t : TypeId}
    (hnode : g.program.types.node t = .function f) (hf : g.program.LabelledFunction f)
    {labels : List (Option Name)} {s s' : Progress} (hs : s.Tabled)
    (h : g.Writes {} n (g.function scope t labels) s s') :
    s'.tokens.toList = s.tokens.toList ++ (g.outlineFunction s.table f labels).tokens := by
  have hpieces : g.function scope t labels =
      [.type scope f.result] ++ (g.parameters scope f.params labels
        ++ (f.operators.map Token.op).map .token) := by
    simp [Grammar.function, hnode, TypeNode.function?, Piece.op, Function.comp_def]
  rw [hpieces] at h
  -- the result comes first, then the parameters with the table that it leaves
  obtain ⟨s₁, hresult, hrest⟩ := Grammar.writes_append.1 h
  obtain ⟨s₂, hparams, hmarks⟩ := Grammar.writes_append.1 hrest
  obtain ⟨new, hnew, houtline, htable⟩ :=
    outlines_type ha hf.result hf.result.lt s s₁ hs hresult []
  have hparams' := outlines_parameters ha hf.params (hresult.tabled hs) hparams
  rw [(Grammar.writes_tokens hmarks).1, hparams', hnew, htable]
  have hnew' : (g.outlineIn s.table [] f.result).1.tokens = new := houtline
  dsimp only [Grammar.outlineFunction, FunctionOutline.tokens]
  rw [hnew', List.append_assoc, List.append_assoc]
  rfl

/-- The outline of a function type is read as itself. -/
theorem outlineFunction_readable (ha : g.program.types.Shared)
    (hf : g.program.LabelledFunction f) (table : List NodeKey) (labels : List (Option Name)) :
    (g.outlineFunction table f labels).Readable where
  result := outline_readable ha hf.result hf.result.lt table []
  params := by
    -- the items of a list are types that are labelled, with flags that are operators
    have hlist : ∀ table', (listOutline (outlineItems g.outlineIn table'
        (g.parameterItems f.params labels)).1).Readable := by
      intro table'
      refine readable_listOutline (readable_outlineItems ?_ ?_ table')
      · intro i hi table₁ labels'
        obtain ⟨q, hq, htype, -⟩ := mem_parameterItems hi
        rw [htype]
        exact outline_readable ha (hf.params q hq) (hf.params q hq).lt table₁ labels'
      · intro i hi
        obtain ⟨q, -, -, hflags⟩ := mem_parameterItems hi
        rw [hflags]
        exact (operators_flags q.flags).1
    intro o ho
    simp only [Grammar.outlineFunction, Grammar.outlineParams, Option.mem_def] at ho
    split at ho
    · cases ho
    · rename_i q hparams
      have hq := hf.params q (by simp [hparams])
      split at ho
      · cases ho
        exact outline_readable ha hq hq.lt _ _
      · cases ho
        exact hlist _
    · cases ho
      exact hlist _
  marks := by
    obtain ⟨os, hos, hmarks, -⟩ := operators_marks f
    exact ⟨os, f.repr, hos, hmarks⟩

end

end NameMangling
