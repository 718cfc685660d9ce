/-
# Reading types

A reader for symbols of types without labels.  It finds types and declarations of the
program by what it has read of them.  Two things it can tell only by the next token:
whether an identifier names a nominal type, which its operator follows, and whether a list
is a tuple or the parameters of a function, which the marks of the function follow.

Main definitions: `TypeItem`, what is on the stack, and `Program.readToken`, the step of
the reader.

Main fact: `lexes_of_leads`: what can be read to its end can stand in a symbol.
-/
import NameMangling.Proofs.Lexing
import NameMangling.Proofs.Reading

namespace NameMangling

/-! ## Attributes -/

namespace Operator

/-- What an operator after a parameter says of it. -/
def flag? : Operator → Option (ParamFlags → ParamFlags)
  | inoutParam => some ({ · with isInout := true })
  | ownedParam => some ({ · with isOwned := true })
  | sharedParam => some ({ · with isShared := true })
  | variadicParam => some ({ · with isVariadic := true })
  | autoclosureParam => some ({ · with isAutoclosure := true })
  | _ => none

/-- What an operator after the parameters says of a function, up to its representation,
which comes last. -/
def mark? : Operator → Option (FunctionType → FunctionType)
  | throwing => some ({ · with isThrowing := true })
  | async => some ({ · with isAsync := true })
  | differentiable => some ({ · with differentiability := .normal })
  | linear => some ({ · with differentiability := .linear })
  | forwardDifferentiable => some ({ · with differentiability := .forward })
  | reverseDifferentiable => some ({ · with differentiability := .reverse })
  | _ => none

/-- What an operator says of a lowered function; the types are filled in at the end. -/
def convention? : Operator → Option (LoweredFunction → LoweredFunction)
  | loweredBlock => some ({ · with repr := .block })
  | loweredCPointer => some ({ · with repr := .cFunctionPointer })
  | loweredAsync => some ({ · with isAsync := true })
  | passed c => some fun f => { f with params := f.params ++ [(c, .emptyTuple)] }
  | returned c => some fun f => { f with results := f.results ++ [(c, .emptyTuple)] }
  | errorResult => some ({ · with error := some .emptyTuple })
  | _ => none

/-- Whether an operator belongs to the marks that follow the parameters of a function. -/
def isMark : Operator → Bool
  | repr _ => true
  | o => o.mark?.isSome

/-- The operators that follow the name of a nominal type. -/
def isNominal : Operator → Bool
  | structType | enumType | classType | protocolType => true
  | _ => false

end Operator

/-- Whether the marks of a function come next. -/
def marksFollow : List Token → Bool
  | .op o :: _ => o.isMark
  | _ => false

/-! ## The reader -/

/-- What is on the stack: types and declarations, parameters with their flags, a whole list
of parameters, what is known of a function, the mark after the first item of a list, and
the mark of an empty list. -/
inductive TypeItem
  | key (key : NodeKey)
  | parameter (p : Parameter)
  | parameters (ps : List Parameter)
  | marks (f : FunctionType)
  | lowering (f : LoweredFunction)
  | first
  | emptyList
deriving DecidableEq

/-- A reader of types, which remembers the nodes that have been completed. -/
abbrev TypeReader := Reader TypeItem (List NodeKey)

/-- The items of a list on the stack, and what is below it. -/
def popList : List TypeItem → List TypeItem → Option (List TypeItem × List TypeItem)
  | items, .first :: x :: σ => some (x :: items, σ)
  | _, .emptyList :: _ => none
  | items, x :: σ => popList (x :: items) σ
  | _, [] => none

/-- The declaration an item is. -/
def TypeItem.decl? : TypeItem → Option DeclId
  | key (.decl d) => some d
  | _ => none

/-- The declarations of a list that may be empty. -/
def popDecls : List TypeItem → Option (List DeclId × List TypeItem)
  | .emptyList :: σ => some ([], σ)
  | σ => (popList [] σ).bind fun (xs, σ) => (xs.mapM TypeItem.decl?).map (·, σ)

/-- What is known of a function from the marks read so far, and what is below them. -/
def popMarks : List TypeItem → FunctionType × List TypeItem
  | .marks f :: σ => (f, σ)
  | σ => ({ params := [], result := .emptyTuple }, σ)

/-- The nodes of types without parts, read off their tokens. -/
def leaf? : List Token → Option (TypeNode × List Token)
  | .op .emptyTuple :: rest => some (.emptyTuple, rest)
  | .op .builtinInt :: .count n :: rest => some (.builtinInt n, rest)
  | .op .builtinFloat :: .count n :: rest => some (.builtinFloat n, rest)
  | .op .builtinWord :: rest => some (.builtinWord, rest)
  | .op .rawPointer :: rest => some (.rawPointer, rest)
  | .op .nativeObject :: rest => some (.nativeObject, rest)
  | .op .unknownObject :: rest => some (.unknownObject, rest)
  | .op .bridgeObject :: rest => some (.bridgeObject, rest)
  | .op .firstParam :: rest => some (.genericParam ⟨0, 0⟩, rest)
  | .op .outerParam :: .index i :: rest => some (.genericParam ⟨0, i + 1⟩, rest)
  | .op .innerParam :: .index d :: .index i :: rest => some (.genericParam ⟨d + 1, i⟩, rest)
  | _ => none

/-- The tokens of a type without parts. -/
def leafTokens : TypeNode → List Token
  | .emptyTuple => [.op .emptyTuple]
  | .builtinInt n => [.op .builtinInt, .count n]
  | .builtinFloat n => [.op .builtinFloat, .count n]
  | .builtinWord => [.op .builtinWord]
  | .rawPointer => [.op .rawPointer]
  | .nativeObject => [.op .nativeObject]
  | .unknownObject => [.op .unknownObject]
  | .bridgeObject => [.op .bridgeObject]
  | .genericParam key => key.tokens
  | _ => []

/-- Whether a node is that of a type without parts. -/
def TypeNode.isLeaf (n : TypeNode) : Bool := n.kind.isBuiltin || n.kind == .genericParam

/-- The tokens of a type without parts begin with an operator, which is not a mark, and are
read at once. -/
theorem leaf?_leafTokens {n : TypeNode} (h : n.isLeaf = true) :
    ∃ o ts, leafTokens n = .op o :: ts ∧ o.isMark = false ∧
      ∀ rest, leaf? (.op o :: (ts ++ rest)) = some (n, rest) := by
  cases n with
  | genericParam key =>
    obtain ⟨depth, index⟩ := key
    cases depth with
    | zero =>
      cases index with
      | zero => exact ⟨_, _, rfl, rfl, fun _ => rfl⟩
      | succ index => exact ⟨_, _, rfl, rfl, fun _ => rfl⟩
    | succ depth => exact ⟨_, _, rfl, rfl, fun _ => rfl⟩
  | _ =>
    first
      | cases h; done
      | exact ⟨_, _, rfl, rfl, fun _ => rfl⟩

/-- A lowered function with the given types of its parameters and results. -/
def LoweredFunction.fill (f : LoweredFunction) (ts : List TypeId) : LoweredFunction :=
  { f with
    params := (f.params.map (·.1)).zip ts
    results := (f.results.map (·.1)).zip (ts.drop f.params.length)
    error := if f.error.isSome then ts.getLast? else none }

/-- The number of types in a lowered function. -/
def LoweredFunction.arity (f : LoweredFunction) : Nat :=
  f.params.length + f.results.length + f.error.toList.length

namespace Program

variable (p : Program)

/-- The type an item is; the declaration of a nominal type stands for the type. -/
def typeOf? : TypeItem → Option TypeId
  | .key (.type t) => some t
  | .key (.decl d) => p.types.find? (.nominal d none)
  | _ => none

/-- The parameter an item is; a type stands for a plain one. -/
def parameterOf? : TypeItem → Option Parameter
  | .parameter q => some q
  | x => (p.typeOf? x).map fun t => { type := t }

/-- The parameters of a function: none, a list, or a single one without list marks. -/
def popParameters : List TypeItem → Option (List Parameter × List TypeItem)
  | .emptyList :: σ => some ([], σ)
  | .parameters ps :: σ => some (ps, σ)
  | x :: σ => (p.typeOf? x).map fun t => ([{ type := t }], σ)
  | [] => none

/-- The module of a name. -/
def nativeModule? (x : String) : Option DeclId :=
  p.declIds.find? fun d =>
    p.kindOf d == .nativeModule && (p.decl d).name.any (p.text · == x)

/-- The nominal declaration of a name in a module or another declaration. -/
def member? (c : DeclId) (x : String) : Option DeclId :=
  p.declIds.find? fun d =>
    (p.kindOf d).isNominal && (p.decl d).parent == some (.decl c)
      && (p.decl d).name.any (p.text · == x)

/-- Go on with a type that is a node and has been completed. -/
def complete (n : TypeNode) (σ : List TypeItem) (table : List NodeKey) (rest : List Token) :
    Option TypeReader :=
  (p.types.find? n).map fun t => ⟨.key (.type t) :: σ, register (.type t) table, rest⟩

/-- Read a name: of a file, of a nominal type, or of a module. -/
def readName (x : String) (σ : List TypeItem) (table : List NodeKey) :
    List Token → Option TypeReader
  | .op .privateName :: rest =>
    match σ with
    | .key key :: σ => some ⟨.key key :: σ, table, rest⟩
    | _ => none
  | rest =>
    match rest with
    | .op o :: rest' =>
      if o.isNominal then
        match σ with
        | .key (.decl c) :: σ =>
          (p.member? c x).map fun d => ⟨.key (.decl d) :: σ, register (.decl d) table, rest'⟩
        | _ => none
      else (p.nativeModule? x).map fun d => ⟨.key (.decl d) :: σ, register (.decl d) table, rest⟩
    | _ => (p.nativeModule? x).map fun d => ⟨.key (.decl d) :: σ, register (.decl d) table, rest⟩

/-- Read an operator that has parts on the stack. -/
def readOperator (o : Operator) (σ : List TypeItem) (table : List NodeKey) (rest : List Token) :
    Option TypeReader :=
  match o, σ with
  | .emptyList, σ => some ⟨.emptyList :: σ, table, rest⟩
  | .firstOfList, σ => some ⟨.first :: σ, table, rest⟩
  | .localName, .key key :: σ =>
    match rest with
    | .index _ :: rest => some ⟨.key key :: σ, table, rest⟩
    | _ => none
  | .tuple, σ =>
    (popList [] σ).bind fun (xs, σ) =>
      if marksFollow rest then
        (xs.mapM p.parameterOf?).map fun ps => ⟨.parameters ps :: σ, table, rest⟩
      else
        (xs.mapM p.typeOf?).bind fun ts => p.complete (.tuple (ts.map (⟨none, ·⟩))) σ table rest
  | .metatype, x :: σ => (p.typeOf? x).bind fun t => p.complete (.metatype t) σ table rest
  | .existentialMetatype, x :: σ =>
    (p.typeOf? x).bind fun t => p.complete (.existentialMetatype t) σ table rest
  | .boundGeneric, σ =>
    (popList [] σ).bind fun (xs, σ) =>
      match σ with
      | .key (.decl d) :: σ =>
        (xs.mapM p.typeOf?).bind fun ts => p.complete (.boundGeneric d none ts) σ table rest
      | _ => none
  | .composition, σ =>
    (popDecls σ).bind fun (ds, σ) => p.complete (.existential ⟨ds, none, false⟩) σ table rest
  | .classComposition, σ =>
    (popDecls σ).bind fun (ds, σ) => p.complete (.existential ⟨ds, none, true⟩) σ table rest
  | .superclassComposition, x :: σ =>
    (p.typeOf? x).bind fun t => (popDecls σ).bind fun (ds, σ) =>
      p.complete (.existential ⟨ds, some t, false⟩) σ table rest
  | .lowered, σ =>
    match rest with
    | .op (.callee c) :: rest =>
      some ⟨.lowering { callee := c, params := [], results := [] } :: σ, table, rest⟩
    | _ => none
  | .repr r, σ =>
    (p.popParameters (popMarks σ).2).bind fun (ps, σ') =>
      match σ' with
      | x :: σ' => (p.typeOf? x).bind fun t =>
        p.complete (.function { (popMarks σ).1 with params := ps, result := t, repr := r }) σ'
          table rest
      | [] => none
  | _, _ => none

/-- Read an operator of a lowered function, which is complete at the end mark. -/
def readConvention (f : LoweredFunction) (o : Operator) (σ : List TypeItem)
    (table : List NodeKey) (rest : List Token) : Option TypeReader :=
  if o = .loweredEnd then
    ((σ.take f.arity).reverse.mapM p.typeOf?).bind fun ts =>
      p.complete (.lowered (f.fill ts)) (σ.drop f.arity) table rest
  else o.convention?.map fun say => ⟨.lowering (say f) :: σ, table, rest⟩

/-- Read an operator where no lowered function is being read. -/
def readTypeOperator (o : Operator) (σ : List TypeItem) (table : List NodeKey)
    (rest : List Token) : Option TypeReader :=
  match leaf? (.op o :: rest) with
  | some (n, rest) => (p.types.find? n).map fun t => ⟨.key (.type t) :: σ, table, rest⟩
  | none =>
    match o.flag?, σ with
    | some say, x :: σ =>
      (p.parameterOf? x).map fun q =>
        ⟨.parameter { q with flags := say q.flags } :: σ, table, rest⟩
    | some _, [] => none
    | none, σ =>
      match o.mark? with
      | some say => some ⟨.marks (say (popMarks σ).1) :: (popMarks σ).2, table, rest⟩
      | none => p.readOperator o σ table rest

/-- One step of the reader. -/
def readToken (c : TypeReader) : Option TypeReader :=
  match c.stack, c.input with
  | .lowering f :: σ, .op o :: rest => p.readConvention f o σ c.memory rest
  | .lowering _ :: _, _ => none
  | σ, .op o :: rest => p.readTypeOperator o σ c.memory rest
  | σ, .identifier x :: rest => p.readName x σ c.memory rest
  | σ, .backReference n :: rest => (c.memory[n]?).map fun key => ⟨.key key :: σ, c.memory, rest⟩
  | _, _ => none

end Program

/-! ## What can be read -/

/-- The lexical mode in which a reader goes on. -/
def modeOf : List TypeItem → Mode
  | .emptyList :: _ => .listEmpty
  | .lowering _ :: _ => .conventions
  | _ => .free

section

variable {p : Program} {o : Operator} {σ : List TypeItem} {table : List NodeKey}
  {ts rest : List Token} {c d : TypeReader}

/-- Where anything may stand that begins a type, it may also stand after an empty list,
unless it closes a tuple. -/
theorem Lexes.listEmpty {t : Token} (h : Lexes .free (t :: ts)) (ht : t ≠ .op .tuple) :
    Lexes .listEmpty (t :: ts) := by
  cases h with | cons step rest =>
  refine .cons ?_ rest
  obtain ⟨o, ho, rfl, rfl⟩ | ⟨s, rfl, -, rfl⟩ | ⟨n, rfl, -, rfl⟩ | ⟨n, -, hμ, -⟩ | ⟨n, -, hμ⟩ :=
    Mode.next_eq_some step
  · have hmem : o ∈ Mode.listEmpty.operators := by
      refine (List.mem_erase_of_ne ?_).2 ho
      rintro rfl
      exact ht rfl
    have hafter : Mode.listEmpty.after o = Mode.free.after o := by cases o <;> rfl
    rw [Mode.next, if_pos hmem, hafter]
  · rfl
  · rfl
  · cases hμ
  · simp at hμ

/-- A type without parts lexes by its own operator and what that asks for. -/
theorem lexes_of_leaf? {n : TypeNode} (h : leaf? ts = some (n, rest)) (hrest : Lexes .free rest) :
    Lexes .free ts := by
  unfold leaf? at h
  split at h <;> cases h
  case h_2 | h_3 | h_10 => exact .cons rfl (.cons rfl hrest)
  case h_11 => exact .cons rfl (.cons rfl (.cons rfl hrest))
  all_goals exact .cons rfl hrest

/-- An operator that neither asks for something certain to follow nor ends an empty list. -/
theorem lexes_operator (ho : o ∈ typeOperators) (hafter : Mode.free.after o = .free)
    (hrest : Lexes .free rest) : Lexes .free (.op o :: rest) :=
  .cons (by rw [Mode.next, if_pos (show o ∈ Mode.free.operators from ho), hafter]) hrest

theorem mem_of_flag? {say : ParamFlags → ParamFlags} (h : o.flag? = some say) :
    o ∈ typeOperators ∧ Mode.free.after o = .free := by
  cases o <;> first | cases h; done | exact ⟨by decide, rfl⟩

theorem mem_of_mark? {say : FunctionType → FunctionType} (h : o.mark? = some say) :
    o ∈ typeOperators ∧ Mode.free.after o = .free := by
  cases o <;> first | cases h; done | exact ⟨by decide, rfl⟩

theorem mem_repr (r : FunctionRepr) :
    .repr r ∈ typeOperators ∧ Mode.free.after (.repr r) = .free := by
  cases r <;> exact ⟨by decide, rfl⟩

theorem mem_of_isNominal (h : o.isNominal = true) :
    o ∈ typeOperators ∧ Mode.free.after o = .free := by
  cases o <;> first | cases h; done | exact ⟨by decide, rfl⟩

/-- A convention is an operator of lowered functions and asks for nothing behind it. -/
theorem mem_of_convention? {say : LoweredFunction → LoweredFunction}
    (h : o.convention? = some say) :
    o ∈ conventionOperators ∧ Mode.conventions.after o = .conventions := by
  cases o with
  | passed c => cases c <;> exact ⟨by decide, rfl⟩
  | returned c => cases c <;> exact ⟨by decide, rfl⟩
  | _ => first | cases h; done | exact ⟨by decide, rfl⟩

/-- Completing a node reads nothing more. -/
theorem lexes_of_complete {n : TypeNode} (h : p.complete n σ table rest = some d)
    (hd : Lexes (modeOf d.stack) d.input) : Lexes .free rest := by
  unfold Program.complete at h
  obtain ⟨t, -, rfl⟩ := Option.map_eq_some_iff.1 h
  exact hd

/-- What is read as a name lexes as an identifier, with the operator behind it if there is one. -/
theorem lexes_of_readName {x : String} (h : p.readName x σ table rest = some d)
    (hd : Lexes (modeOf d.stack) d.input) : Lexes .free (.identifier x :: rest) := by
  refine .cons rfl ?_
  unfold Program.readName at h
  split at h
  · split at h
    · cases h
      exact .cons rfl hd
    · cases h
  · split at h
    · split at h
      · rename_i hnominal
        split at h
        · obtain ⟨e, -, rfl⟩ := Option.map_eq_some_iff.1 h
          exact lexes_operator (mem_of_isNominal hnominal).1 (mem_of_isNominal hnominal).2 hd
        · cases h
      · obtain ⟨e, -, rfl⟩ := Option.map_eq_some_iff.1 h
        exact hd
    · obtain ⟨e, -, rfl⟩ := Option.map_eq_some_iff.1 h
      exact hd

/-- What the reader of operators accepts lexes, operator by operator. -/
theorem lexes_of_readOperator (h : p.readOperator o σ table rest = some d)
    (hd : Lexes (modeOf d.stack) d.input) : Lexes .free (.op o :: rest) := by
  unfold Program.readOperator at h
  -- one case for each operator, in the order of the definition
  split at h
  · cases h
    exact .cons rfl hd
  · cases h
    exact .cons rfl hd
  · split at h
    · cases h
      exact .cons rfl (.cons rfl hd)
    · cases h
  · obtain ⟨⟨xs, σ'⟩, -, h⟩ := Option.bind_eq_some_iff.1 h
    dsimp only at h
    refine .cons rfl ?_
    split at h
    · obtain ⟨ps, -, rfl⟩ := Option.map_eq_some_iff.1 h
      exact hd
    · obtain ⟨ts, -, h⟩ := Option.bind_eq_some_iff.1 h
      exact lexes_of_complete h hd
  · obtain ⟨t, -, h⟩ := Option.bind_eq_some_iff.1 h
    exact .cons rfl (lexes_of_complete h hd)
  · obtain ⟨t, -, h⟩ := Option.bind_eq_some_iff.1 h
    exact .cons rfl (lexes_of_complete h hd)
  · obtain ⟨⟨xs, σ'⟩, -, h⟩ := Option.bind_eq_some_iff.1 h
    dsimp only at h
    split at h
    · obtain ⟨ts, -, h⟩ := Option.bind_eq_some_iff.1 h
      exact .cons rfl (lexes_of_complete h hd)
    · cases h
  · obtain ⟨⟨ds, σ'⟩, -, h⟩ := Option.bind_eq_some_iff.1 h
    exact .cons rfl (lexes_of_complete h hd)
  · obtain ⟨⟨ds, σ'⟩, -, h⟩ := Option.bind_eq_some_iff.1 h
    exact .cons rfl (lexes_of_complete h hd)
  · obtain ⟨t, -, h⟩ := Option.bind_eq_some_iff.1 h
    obtain ⟨⟨ds, σ'⟩, -, h⟩ := Option.bind_eq_some_iff.1 h
    exact .cons rfl (lexes_of_complete h hd)
  · split at h
    · rename_i c _
      cases h
      exact .cons rfl (.cons (by cases c <;> rfl) hd)
    · cases h
  · rename_i r
    obtain ⟨⟨ps, σ'⟩, -, h⟩ := Option.bind_eq_some_iff.1 h
    dsimp only at h
    split at h
    · obtain ⟨t, -, h⟩ := Option.bind_eq_some_iff.1 h
      exact lexes_operator (mem_repr r).1 (mem_repr r).2 (lexes_of_complete h hd)
    · cases h
  · cases h

/-- What is read as an operator of a type lexes: a type without parts, a flag, a mark or another
operator. -/
theorem lexes_of_readTypeOperator (h : p.readTypeOperator o σ table rest = some d)
    (hd : Lexes (modeOf d.stack) d.input) : Lexes .free (.op o :: rest) := by
  unfold Program.readTypeOperator at h
  split at h
  · rename_i n rest' hleaf
    obtain ⟨t, -, rfl⟩ := Option.map_eq_some_iff.1 h
    exact lexes_of_leaf? hleaf hd
  · split at h
    · rename_i hflag
      obtain ⟨q, -, rfl⟩ := Option.map_eq_some_iff.1 h
      exact lexes_operator (mem_of_flag? hflag).1 (mem_of_flag? hflag).2 hd
    · cases h
    · split at h
      · rename_i hmark
        cases h
        exact lexes_operator (mem_of_mark? hmark).1 (mem_of_mark? hmark).2 hd
      · exact lexes_of_readOperator h hd

/-- A convention lexes among conventions, and the end of them leads back to a free mode. -/
theorem lexes_of_readConvention {f : LoweredFunction}
    (h : p.readConvention f o σ table rest = some d) (hd : Lexes (modeOf d.stack) d.input) :
    Lexes .conventions (.op o :: rest) := by
  unfold Program.readConvention at h
  split at h
  · rename_i hend
    subst hend
    obtain ⟨ts, -, h⟩ := Option.bind_eq_some_iff.1 h
    exact .cons rfl (lexes_of_complete h hd)
  · obtain ⟨say, hsay, rfl⟩ := Option.map_eq_some_iff.1 h
    obtain ⟨hmem, hafter⟩ := mem_of_convention? hsay
    have hnext : Mode.conventions.next (.op o) = some .conventions := by
      rw [Mode.next, if_pos (show o ∈ Mode.conventions.operators from hmem), hafter]
    exact .cons hnext hd

/-- An empty list is not closed as a tuple. -/
theorem readTypeOperator_tuple_emptyList :
    p.readTypeOperator .tuple (.emptyList :: σ) table rest = none := rfl

/-- The mode is a free one unless a lowered function is being read, or an empty list has
just been, which is not closed as a tuple. -/
theorem lexes_modeOf {t : Token} (hlex : Lexes .free (t :: rest))
    (hlowering : ∀ f σ', σ ≠ .lowering f :: σ')
    (htuple : ∀ σ', σ = .emptyList :: σ' → t ≠ .op .tuple) : Lexes (modeOf σ) (t :: rest) := by
  unfold modeOf
  split
  · exact hlex.listEmpty (htuple _ rfl)
  · exact absurd rfl (hlowering _ _)
  · exact hlex

/-- What one step of the reader accepts lexes in the mode of its stack. -/
theorem lexes_of_step (h : p.readToken c = some d) (hd : Lexes (modeOf d.stack) d.input) :
    Lexes (modeOf c.stack) c.input := by
  obtain ⟨σ, table, input⟩ := c
  unfold Program.readToken at h
  dsimp only at h ⊢
  split at h
  · exact lexes_of_readConvention h hd
  · cases h
  · rename_i o rest hlowering
    refine lexes_modeOf (lexes_of_readTypeOperator h hd) (fun f σ' => ?_) ?_
    · rintro rfl
      exact hlowering _ _ rfl
    · rintro σ' rfl ⟨⟩
      rw [readTypeOperator_tuple_emptyList] at h
      cases h
  · rename_i x rest hlowering
    refine lexes_modeOf (lexes_of_readName h hd) (fun f σ' => ?_) (by simp)
    rintro rfl
    exact hlowering _ _ rfl
  · rename_i n rest hlowering
    obtain ⟨key, -, rfl⟩ := Option.map_eq_some_iff.1 h
    refine lexes_modeOf (.cons rfl hd) (fun f σ' => ?_) (by simp)
    rintro rfl
    exact hlowering _ _ rfl
  · cases h

/-- What can be read to its end can stand in a symbol. -/
theorem lexes_of_leads (h : Leads p.readToken c d) (hinput : d.input = [])
    (hstack : modeOf d.stack = .free) : Lexes (modeOf c.stack) c.input := by
  induction h using Relation.ReflTransGen.head_induction_on with
  | refl =>
    rw [hinput, hstack]
    exact .nil
  | head hstep _ ih => exact lexes_of_step hstep ih

end

end NameMangling
