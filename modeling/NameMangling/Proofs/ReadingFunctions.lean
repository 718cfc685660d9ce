/-
# Reading function types

The flags of a parameter are read after its type, and the marks of a function after its
parameters, until its representation completes it.  A lowered function has all its types
first, and what is said of them is gathered until its end mark.

Main facts: `reads_function` and `reads_lowered`.
-/
import NameMangling.Proofs.ReadingTypes

namespace NameMangling

section

variable {g : Grammar} {n : Nat} {scope : Scope} {p : Program} {σ : List TypeItem}
  {table : List NodeKey} {rest : List Token} {t u : TypeId}

/-! ## Parameters -/

/-- Some flags and what operators say beside them. -/
def withFlags (f : ParamFlags) (os : List Operator) : ParamFlags :=
  os.foldl (fun f o => (o.flag?.getD id) f) f

theorem operators_flags (f : ParamFlags) :
    (∀ o ∈ f.operators, o.flag?.isSome) ∧ withFlags {} f.operators = f := by
  obtain ⟨_ | _, _ | _, _ | _, _ | _, _ | _⟩ := f <;> exact ⟨by decide, rfl⟩

/-- A flag makes a parameter of the item below it, or adds to one. -/
theorem readTypeOperator_flag {o : Operator} {say : ParamFlags → ParamFlags}
    (ho : o.flag? = some say) (x : TypeItem) : p.readTypeOperator o (x :: σ) table rest =
      (p.parameterOf? x).map fun q =>
        ⟨.parameter { q with flags := say q.flags } :: σ, table, rest⟩ := by
  cases o <;> first
    | cases ho; done
    | cases ho; rfl

/-- Flags are read one by one. -/
theorem leads_flags {os : List Operator} (hos : ∀ o ∈ os, o.flag?.isSome) (q : Parameter) :
    Leads p.readToken ⟨.parameter q :: σ, table, os.map .op ++ rest⟩
      ⟨.parameter { q with flags := withFlags q.flags os } :: σ, table, rest⟩ := by
  induction os generalizing q with
  | nil => exact .refl _
  | cons o os ih =>
    obtain ⟨say, hsay⟩ := Option.isSome_iff_exists.1 (hos o (by simp))
    have hlater := ih (fun o' ho' => hos o' (by simp [ho'])) { q with flags := say q.flags }
    refine .head ((readToken_op (by rintro f σ' ⟨⟩) o).trans (readTypeOperator_flag hsay _)) ?_
    have hflags : withFlags q.flags (o :: os) = withFlags (say q.flags) os := by
      simp [withFlags, hsay]
    rw [hflags]
    exact hlater

/-- The item a parameter is read as: one that is passed plainly is its type. -/
def parameterItem (p : Program) (q : Parameter) : TypeItem :=
  if q.flags = {} then .key (p.keyOf q.type) else .parameter q

/-- A type that is read is a parameter that is passed plainly. -/
theorem parameterOf?_key (ha : p.types.Shared) (hu : u.index < p.types.size) :
    p.parameterOf? (.key (p.keyOf u)) = some { type := u } := by
  show (p.typeOf? (.key (p.keyOf u))).map _ = _
  rw [Program.typeOf?_keyOf ha hu]
  rfl

/-- The item of a parameter is read as the parameter. -/
theorem parameterOf?_parameterItem (ha : p.types.Shared) {q : Parameter}
    (hq : q.type.index < p.types.size) : p.parameterOf? (parameterItem p q) = some q := by
  obtain ⟨u, flags⟩ := q
  unfold parameterItem
  dsimp only
  split
  · rename_i hflags
    rw [parameterOf?_key ha hq, hflags]
  · rfl

/-- A parameter without a label is read as its item: the type, and then its flags. -/
theorem reads_parameter (ha : g.program.types.Shared) {q : Parameter}
    (hq : ReadsType g n q.type) :
    ReadsPieces g n (g.parameter scope q none) Quiet [parameterItem g.program q] := by
  obtain ⟨u, flags⟩ := q
  obtain ⟨hos, hflags⟩ := operators_flags flags
  have hpieces : g.parameter scope ⟨u, flags⟩ none =
      [.type scope u] ++ (flags.operators.map Token.op).map .token := by
    simp [Grammar.parameter, Grammar.label, Piece.op, Function.comp_def]
  rw [hpieces]
  refine (hq.quiet scope).close (fun rest hrest => ?_) (fun σ table rest hσ hrest => ?_) ?_
  · cases hcase : flags.operators with
    | nil => exact hrest
    | cons o os =>
      have ho := hos o (by simp [hcase])
      cases o <;> first | rfl | cases ho
  · unfold parameterItem
    dsimp only
    split
    · rename_i hplain
      rw [hplain]
      exact .refl _
    · rename_i hplain
      have hkey := parameterOf?_key (p := g.program) ha hq.built
      -- the first flag makes a parameter of the type
      cases hcase : flags.operators with
      | nil =>
        rw [hcase] at hflags
        exact absurd hflags.symm hplain
      | cons o os =>
        obtain ⟨say, hsay⟩ := Option.isSome_iff_exists.1 (hos o (by simp [hcase]))
        refine .head (e := ⟨.parameter ⟨u, say {}⟩ :: σ, table, os.map .op ++ rest⟩) ?_ ?_
        · refine (readToken_op hσ o).trans ((readTypeOperator_flag hsay _).trans ?_)
          rw [hkey]
          rfl
        · have hlater : Leads g.program.readToken
              ⟨.parameter ⟨u, say {}⟩ :: σ, table, os.map .op ++ rest⟩
              ⟨.parameter ⟨u, withFlags (say {}) os⟩ :: σ, table, rest⟩ :=
            leads_flags (fun o' ho' => hos o' (by simp [hcase, ho'])) _
          have hall : withFlags (say {}) os = flags := by
            rw [hcase] at hflags
            simpa [withFlags, hsay] using hflags
          rw [hall] at hlater
          exact hlater
  · unfold parameterItem
    split <;> simp

/-- A list in front of marks is read as a list of parameters. -/
theorem readTypeOperator_parameters {τ xs : List TypeItem} {ps : List Parameter}
    (hlist : popList [] τ = some (xs, σ)) (hrest : marksFollow rest = true)
    (hxs : xs.mapM p.parameterOf? = some ps) :
    p.readTypeOperator .tuple τ table rest = some ⟨.parameters ps :: σ, table, rest⟩ := by
  show (popList [] τ).bind _ = _
  rw [hlist, Option.bind_some]
  dsimp only
  rw [hrest, hxs]
  rfl

/-- Without labels the rows of the parameters do not depend on their places. -/
theorem parameterList_eq (ps : List Parameter) :
    g.parameterList scope ps [] = ps.map fun q => g.parameter scope q none := by
  induction ps with
  | nil => rfl
  | cons q ps ih => exact congrArg _ ih

/-- Parameters that marks follow are read as themselves. -/
theorem reads_parameters (scope : Scope) (ha : g.program.types.Shared) {ps : List Parameter}
    (hps : ∀ q ∈ ps, ReadsType g n q.type) : ∃ x,
      ReadsPieces g n (g.parameters scope ps []) (fun rest => marksFollow rest = true) [x] ∧
      (∀ f, x ≠ .marks f) ∧ ∀ σ, g.program.popParameters (x :: σ) = some (ps, σ) := by
  have hlist : ps ≠ [] → ReadsPieces g n
      (markFirst (ps.map fun q => g.parameter scope q none) ++ [Token.op .tuple].map .token)
      (fun rest => marksFollow rest = true) [.parameters ps] := by
    intro hne
    refine (readsPieces_markFirst fun q hq => reads_parameter ha (hps q hq)).close
      (fun _ _ => rfl) (fun σ table rest hσ hrest => ?_) (by simp)
    refine .single ((readToken_op hσ _).trans (readTypeOperator_parameters
      (popList_listItems (by simpa using hne) ?_) hrest ?_))
    · intro x hx
      obtain ⟨q, -, rfl⟩ := List.mem_map.1 hx
      unfold parameterItem
      split <;> simp
    · have hmap := mapM_map_eq_some (h := id) fun q hq =>
        parameterOf?_parameterItem (q := q) ha (hps q hq).built
      rwa [List.map_id] at hmap
  -- nothing, a parameter that may stand alone, or a list
  cases ps with
  | nil =>
    refine ⟨.emptyList, ?_, by simp, fun σ => rfl⟩
    refine readsPieces_tokens [.op .emptyList] (fun _ _ => rfl) ?_ (by simp)
    exact fun σ table rest hσ _ => .single (readToken_op hσ _)
  | cons q ps =>
    cases ps with
    | nil =>
      unfold Grammar.parameters
      dsimp only
      split
      · rename_i halone
        obtain ⟨hplain, hkind⟩ : q.flags = {} ∧ g.program.types.kind q.type ≠ .tuple := by
          simpa [Grammar.standsAlone, ParamFlags.isPlain] using halone
        have hq := hps q (by simp)
        refine ⟨.key (g.program.keyOf q.type), (hq.reads scope).mono fun _ _ h => ?_, by simp, ?_⟩
        · exact absurd h hkind
        · intro σ
          show (g.program.typeOf? (.key (g.program.keyOf q.type))).map _ = _
          rw [Program.typeOf?_keyOf ha hq.built]
          obtain ⟨u, flags⟩ := q
          rw [show flags = {} from hplain]
          rfl
      · rw [parameterList_eq]
        exact ⟨.parameters [q], hlist (by simp), by simp, fun σ => rfl⟩
    | cons q' ps =>
      unfold Grammar.parameters
      rw [parameterList_eq]
      exact ⟨.parameters (q :: q' :: ps), hlist (by simp), by simp, fun σ => rfl⟩

/-! ## Function types -/

/-- A function type and what marks say beside it. -/
def withMarks (f : FunctionType) (os : List Operator) : FunctionType :=
  os.foldl (fun f o => (o.mark?.getD id) f) f

/-- The operators of a function type are marks and its representation; they say all but
its types. -/
theorem operators_marks (f : FunctionType) : ∃ os, f.operators = os ++ [.repr f.repr] ∧
    (∀ o ∈ os, o.mark?.isSome) ∧
    ({ withMarks { params := [], result := .emptyTuple } os with
        params := f.params, result := f.result, repr := f.repr } : FunctionType) = f := by
  obtain ⟨ps, u, r, _ | _, _ | _, _ | _ | _ | _ | _⟩ := f <;>
    exact ⟨_, rfl, List.all_eq_true.1 rfl, rfl⟩

theorem isMark_of_mark? {o : Operator} (ho : o.mark?.isSome) : o.isMark = true := by
  cases o <;> first | rfl | cases ho

/-- A mark is gathered with those before it. -/
theorem readTypeOperator_mark {o : Operator} {say : FunctionType → FunctionType}
    (ho : o.mark? = some say) : p.readTypeOperator o σ table rest =
      some ⟨.marks (say (popMarks σ).1) :: (popMarks σ).2, table, rest⟩ := by
  cases o <;> first
    | cases ho; done
    | cases ho; rfl

/-- Marks are read one by one. -/
theorem leads_marks (table : List NodeKey) (rest : List Token) {os : List Operator}
    (hos : ∀ o ∈ os, o.mark?.isSome) (hσ : IsReady σ) :
    ∃ σ', Leads p.readToken ⟨σ, table, os.map .op ++ rest⟩ ⟨σ', table, rest⟩ ∧ IsReady σ' ∧
      popMarks σ' = (withMarks (popMarks σ).1 os, (popMarks σ).2) := by
  induction os generalizing σ with
  | nil => exact ⟨σ, .refl _, hσ, rfl⟩
  | cons o os ih =>
    obtain ⟨say, hsay⟩ := Option.isSome_iff_exists.1 (hos o (by simp))
    obtain ⟨σ', hleads, hready, hmarks⟩ := ih (fun o' ho' => hos o' (by simp [ho']))
      (σ := .marks (say (popMarks σ).1) :: (popMarks σ).2) (by rintro f σ' ⟨⟩)
    refine ⟨σ', .head ((readToken_op hσ o).trans (readTypeOperator_mark hsay)) hleads, hready, ?_⟩
    rw [hmarks]
    simp [withMarks, hsay, popMarks]

/-- The representation ends a function, whose parameters, result and marks are on the stack. -/
theorem readTypeOperator_repr {r : FunctionRepr} {τ τ' : List TypeItem} {f : FunctionType}
    {ps : List Parameter} (hmarks : popMarks τ = (f, τ'))
    (hps : p.popParameters τ' = some (ps, .key (p.keyOf u) :: σ))
    (hu : p.typeOf? (.key (p.keyOf u)) = some u) : p.readTypeOperator (.repr r) τ table rest =
      p.complete (.function { f with params := ps, result := u, repr := r }) σ table rest := by
  show (p.popParameters (popMarks τ).2).bind _ = _
  rw [hmarks, hps, Option.bind_some]
  dsimp only
  rw [hu]
  rfl

/-- A function type is read as itself if its parameters and its result are. -/
theorem reads_function (ha : g.program.types.Shared) (ht : t.index < g.program.types.size)
    {f : FunctionType} (h : g.program.types.node t = .function f)
    (hparams : ∀ q ∈ f.params, ReadsType g n q.type) (hresult : ReadsType g n f.result)
    {ok : List Token → Prop} : ReadsBody g n (g.structural scope t) ok (.type t) := by
  obtain ⟨x, hread, hx, hpop⟩ := reads_parameters scope ha hparams
  obtain ⟨os, hos, hmarks, hf⟩ := operators_marks f
  have hpieces : g.structural scope t =
      ([.type scope f.result] ++ g.parameters scope f.params [])
        ++ (f.operators.map Token.op).map .token := by
    simp [Grammar.structural, h, Grammar.function, TypeNode.function?, Piece.op,
      Function.comp_def]
  rw [hpieces, hos]
  refine readsBody_of_parts _ ((hresult.quiet scope).append hread fun _ hrest => hrest)
    (fun rest _ => ?_) fun σ table rest hσ _ => ?_
  · cases os with
    | nil => rfl
    | cons o os => exact isMark_of_mark? (hmarks o (by simp))
  · rw [List.map_append, List.append_assoc (os.map Token.op)]
    obtain ⟨τ, hleads, hτ, hpopMarks⟩ := leads_marks (p := g.program) table
      (.op (.repr f.repr) :: rest) hmarks hσ
    refine hleads.tail ((readToken_op hτ _).trans ?_)
    have hblank : popMarks ([x] ++ [.key (g.program.keyOf f.result)] ++ σ) =
        ({ params := [], result := .emptyTuple },
          [x] ++ [.key (g.program.keyOf f.result)] ++ σ) := by
      cases x <;> first | rfl | exact absurd rfl (hx _)
    rw [hblank] at hpopMarks
    refine (readTypeOperator_repr hpopMarks (hpop _)
      (Program.typeOf?_keyOf ha hresult.built)).trans ?_
    rw [hf]
    exact complete_node ha ht h

/-! ## Lowered function types -/

/-- A lowered function and what operators say beside it. -/
def withConventions (f : LoweredFunction) (os : List Operator) : LoweredFunction :=
  os.foldl (fun f o => (o.convention?.getD id) f) f

/-- What is known of a lowered function before its types are filled in. -/
def LoweredFunction.outline (f : LoweredFunction) : LoweredFunction :=
  { f with
    params := f.params.map fun q => (q.1, .emptyTuple)
    results := f.results.map fun r => (r.1, .emptyTuple)
    error := f.error.map fun _ => .emptyTuple }

/-- The types of a lowered function, in the order in which they are spelled. -/
def LoweredFunction.types (f : LoweredFunction) : List TypeId :=
  f.params.map (·.2) ++ f.results.map (·.2) ++ f.error.toList

theorem withConventions_append (f : LoweredFunction) (os os' : List Operator) :
    withConventions f (os ++ os') = withConventions (withConventions f os) os' :=
  List.foldl_append

/-- The conventions of parameters are read one by one, with the types still to be filled in. -/
theorem withConventions_passed (f : LoweredFunction) (qs : List (Passing × TypeId)) :
    withConventions f (qs.map fun q => .passed q.1) =
      { f with params := f.params ++ qs.map fun q => (q.1, .emptyTuple) } := by
  induction qs generalizing f with
  | nil => simp [withConventions]
  | cons q qs ih =>
    apply (ih _).trans
    simp [Operator.convention?]

/-- The conventions of results are read one by one, with the types still to be filled in. -/
theorem withConventions_returned (f : LoweredFunction) (rs : List (Returning × TypeId)) :
    withConventions f (rs.map fun r => .returned r.1) =
      { f with results := f.results ++ rs.map fun r => (r.1, .emptyTuple) } := by
  induction rs generalizing f with
  | nil => simp [withConventions]
  | cons r rs ih =>
    apply (ih _).trans
    simp [Operator.convention?]

/-- The operators of the representation of a lowered function. -/
def reprOperators : FunctionRepr → List Operator
  | .block => [.loweredBlock]
  | .cFunctionPointer => [.loweredCPointer]
  | _ => []

/-- The operators of a lowered function say all but its types. -/
theorem operators_conventions {f : LoweredFunction}
    (hrepr : f.repr = .native ∨ f.repr = .block ∨ f.repr = .cFunctionPointer) :
    ∃ os, f.operators = .lowered :: .callee f.callee :: (os ++ [.loweredEnd]) ∧
      (∀ o ∈ os, o.convention?.isSome) ∧
      withConventions { callee := f.callee, params := [], results := [] } os = f.outline := by
  obtain ⟨callee, repr, isAsync, qs, rs, error⟩ := f
  refine ⟨reprOperators repr ++ (if isAsync then [.loweredAsync] else [])
    ++ qs.map (fun q => .passed q.1) ++ rs.map (fun r => .returned r.1)
    ++ (if error.isSome then [.errorResult] else []), ?_, ?_, ?_⟩
  · cases repr <;> simp [LoweredFunction.operators, reprOperators]
  · intro o ho
    have hpassed : ∀ q ∈ qs, (Operator.passed q.1).convention?.isSome := fun _ _ => rfl
    have hreturned : ∀ r ∈ rs, (Operator.returned r.1).convention?.isSome := fun _ _ => rfl
    simp only [List.mem_append, List.mem_map] at ho
    obtain (((ho | ho) | ⟨q, hq, rfl⟩) | ⟨r, hr, rfl⟩) | ho := ho
    · cases repr <;> simp [reprOperators] at ho <;> rw [ho] <;> rfl
    · cases isAsync <;> simp at ho
      rw [ho]
      rfl
    · exact hpassed q hq
    · exact hreturned r hr
    · cases error <;> simp at ho
      rw [ho]
      rfl
  · simp only [withConventions_append, withConventions_passed, withConventions_returned]
    obtain rfl | rfl | rfl : repr = .native ∨ repr = .block ∨ repr = .cFunctionPointer := hrepr
    all_goals
      cases isAsync <;> cases error <;>
        simp [withConventions, reprOperators, Operator.convention?, LoweredFunction.outline]

/-- Pairs are put together again from their parts, whatever comes behind the second ones. -/
theorem zip_fst_snd {α β : Type} (xs : List (α × β)) (ys : List β) :
    (xs.map (·.1)).zip (xs.map (·.2) ++ ys) = xs := by
  induction xs with
  | nil => rfl
  | cons x xs ih => simp [ih]

/-- Filling in the types gives the lowered function back. -/
theorem fill_outline (f : LoweredFunction) : f.outline.fill f.types = f := by
  obtain ⟨callee, repr, isAsync, qs, rs, error⟩ := f
  have hparams := zip_fst_snd qs (rs.map (·.2) ++ error.toList)
  have hresults := zip_fst_snd rs error.toList
  have hdrop : (qs.map (·.2) ++ (rs.map (·.2) ++ error.toList)).drop qs.length =
      rs.map (·.2) ++ error.toList := List.drop_left' (by simp)
  cases error <;> simp_all [LoweredFunction.fill, LoweredFunction.outline,
    LoweredFunction.types, Function.comp_def]

/-- The outline of a lowered function says how many types are to be filled in. -/
theorem arity_outline (f : LoweredFunction) : f.outline.arity = f.types.length := by
  obtain ⟨callee, repr, isAsync, qs, rs, error⟩ := f
  cases error <;>
    simp [LoweredFunction.arity, LoweredFunction.outline, LoweredFunction.types, Nat.add_assoc]

/-- What is said of a lowered function is gathered. -/
theorem leads_conventions {os : List Operator} (hos : ∀ o ∈ os, o.convention?.isSome)
    (f : LoweredFunction) : Leads p.readToken ⟨.lowering f :: σ, table, os.map .op ++ rest⟩
      ⟨.lowering (withConventions f os) :: σ, table, rest⟩ := by
  induction os generalizing f with
  | nil => exact .refl _
  | cons o os ih =>
    obtain ⟨say, hsay⟩ := Option.isSome_iff_exists.1 (hos o (by simp))
    refine .head (e := ⟨.lowering (say f) :: σ, table, os.map .op ++ rest⟩) ?_ ?_
    · show p.readConvention f o σ table (os.map .op ++ rest) = _
      -- the operator at the end says nothing of the function, so this one is none
      have hend : o ≠ .loweredEnd := by
        rintro rfl
        cases hsay
      rw [Program.readConvention, if_neg hend, hsay]
      rfl
    · have hlater := ih (fun o' ho' => hos o' (by simp [ho'])) (say f)
      have hall : withConventions f (o :: os) = withConventions (say f) os := by
        simp [withConventions, hsay]
      rw [hall]
      exact hlater

/-- A lowered function with a representation that is spelled is read as itself if its types
are. -/
theorem reads_lowered (ha : g.program.types.Shared) (ht : t.index < g.program.types.size)
    {f : LoweredFunction} (h : g.program.types.node t = .lowered f)
    (hrepr : f.repr = .native ∨ f.repr = .block ∨ f.repr = .cFunctionPointer)
    (htypes : ∀ u ∈ f.types, ReadsType g n u) {ok : List Token → Prop} :
    ReadsBody g n (g.structural scope t) ok (.type t) := by
  obtain ⟨os, hos, hconventions, hf⟩ := operators_conventions hrepr
  have hpieces : g.structural scope t = (f.types.map fun u => [.type scope u]).flatten
      ++ (f.operators.map Token.op).map .token := by
    have hflatten : ∀ us : List TypeId,
        (us.map fun u => [Piece.type scope u]).flatten = us.map (.type scope) := by
      intro us
      induction us with
      | nil => rfl
      | cons u us ih => exact congrArg _ ih
    rw [hflatten, List.map_map, Grammar.structural, h]
    rfl
  rw [hpieces, hos]
  refine readsBody_of_parts _ (readsPieces_flatten fun u hu => (htypes u hu).quiet scope)
    (fun _ _ => rfl) fun σ table rest hσ _ => ?_
  refine .head (e := ⟨.lowering { callee := f.callee, params := [], results := [] } ::
    ((typeItems g.program f.types).reverse ++ σ), table,
      (os ++ [Operator.loweredEnd]).map .op ++ rest⟩) (readToken_op hσ _) ?_
  rw [List.map_append, List.append_assoc (os.map Token.op)]
  apply (leads_conventions hconventions _).tail
  rw [hf]
  -- the types of the function are just below it
  have hlength : f.outline.arity = (typeItems g.program f.types).reverse.length := by
    rw [arity_outline, typeItems, List.length_reverse, List.length_map]
  show g.program.readConvention f.outline .loweredEnd _ table rest = _
  rw [Program.readConvention, if_pos rfl, List.take_left' hlength.symm,
    List.drop_left' hlength.symm, List.reverse_reverse,
    mapM_typeItems ha fun u hu => (htypes u hu).built, Option.bind_some, fill_outline]
  exact complete_node ha ht h

end

end NameMangling
