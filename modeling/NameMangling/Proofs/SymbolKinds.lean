/-
# The variant of an entity symbol

The symbols of entities, closures, constructors, destructors, initializers of instance variables
and accessors come in five variants.  The operator of the variant stands right behind the lead,
with nothing before what it belongs to, and the plain variant has no operator.  Still the variant
can be read off every such symbol: the operators begin with `T`, and no declaration does.  A
declaration begins with the place it stands in, and the outermost place is the name of a module,
a reserved spelling, a reference back or a placeholder.

Main definitions:
* `Token.beginsDecl`, the tokens a declaration may begin with, and `Grammar.BeginsDecl`, the
  pieces that begin in such a way;
* `EntityVariant.ofSymbol`, the reader of the variant.

Main facts:
* `Grammar.Writes.wroteDecl`: what begins as a declaration is written so;
* `Mangler.ofSymbol_of_mangle`: the reader is right;
* `Session.variant_read_off`: symbols of different variants differ.
-/
import NameMangling.Proofs.ReservedNames
import NameMangling.Proofs.Subjects

namespace NameMangling

/-! ## Beginnings -/

/-- A token that a declaration may begin with. -/
def Token.beginsDecl : Token → Bool
  | identifier _ | backReference _ | placeholder _ => true
  | op .nameless | op .standardModule | op .foreignModule | op (.standard _) => true
  | _ => false

/-- A piece that a declaration may begin with. -/
def Piece.beginsDecl : Piece → Bool
  | token t => t.beginsDecl
  | phrase _ (.context _) => true
  | node _ (.decl _) _ => true
  | fail _ => true
  | _ => false

/-- No declaration begins with the letter that the operators of variants begin with. -/
theorem Token.head?_spelling_of_beginsDecl {t : Token} (h : t.beginsDecl = true) :
    ∃ c, t.spelling.head? = some c ∧ c ≠ 'T' := by
  cases t with
  | identifier text =>
    obtain ⟨c, hc, hdigit⟩ := head?_spellIdentifier text
    exact ⟨c, hc, fun hT => by rw [hT] at hdigit; cases hdigit⟩
  | backReference n => exact ⟨'A', rfl, by decide⟩
  | placeholder r =>
    have hmarker : r.marker ≠ 'T' := by
      cases r
      · exact (by decide : '\x01' ≠ 'T')
      · exact (by decide : '\x02' ≠ 'T')
    exact ⟨r.marker, rfl, hmarker⟩
  | op o =>
    unfold beginsDecl at h
    split at h <;> first | (rename_i heq; cases heq) | cases h
    · exact ⟨'X', rfl, by decide⟩
    · exact ⟨'s', rfl, by decide⟩
    · exact ⟨'S', rfl, by decide⟩
    · rename_i name
      exact ⟨'S', name.head?_letters name.mem_all, by decide⟩
  | index n => cases h
  | count n => cases h
  | verbatim text => cases h

namespace Grammar

/-- Pieces that begin as a declaration does. -/
def BeginsDecl (ps : List Piece) : Prop := ps.head?.any Piece.beginsDecl = true

variable {g : Grammar} {w : Spelling} {ps : List Piece} {n : Nat} {s s' : Progress}

/-- What begins as a declaration does so whatever comes behind. -/
theorem BeginsDecl.append (h : BeginsDecl ps) (more : List Piece) : BeginsDecl (ps ++ more) := by
  cases ps with
  | nil => cases h
  | cons first rest => exact h

/-! ## Productions -/

variable (scope : Scope) (d : DeclId)

theorem beginsDecl_contextOf : BeginsDecl (g.contextOf scope d) := by
  unfold contextOf
  split <;> rfl

/-- The name of a declaration begins with its identifier, or the stand-in for one. -/
theorem beginsDecl_declName : BeginsDecl (g.declName d) := by
  refine BeginsDecl.append ?_ _
  unfold identifierPieces
  dsimp only
  split
  · rfl
  · split <;> rfl

/-- A module is an operator or a node that a declaration may begin with. -/
theorem beginsDecl_moduleDecl : BeginsDecl (g.moduleDecl scope d) := by
  unfold moduleDecl
  split
  · rfl
  · split <;> rfl

/-- A nominal declaration begins with a reserved spelling or with its own node. -/
theorem beginsDecl_nominal : BeginsDecl (g.nominal scope d) := by
  unfold nominal
  split
  · rfl
  · split
    · rfl
    · split
      · rfl
      · split <;> rfl

/-- The declaration of an opaque result begins with its own node. -/
theorem beginsDecl_opaqueDecl : BeginsDecl (g.opaqueDecl scope d) := by
  unfold opaqueDecl
  split
  · split <;> rfl
  · rfl

theorem beginsDecl_value (isNamed : Bool) (operator : Operator) :
    BeginsDecl (g.value scope d isNamed operator) :=
  (((beginsDecl_contextOf scope d).append _).append _).append _

theorem beginsDecl_constructor (allocating : Bool) :
    BeginsDecl (g.constructor scope d allocating) :=
  ((beginsDecl_contextOf scope d).append _).append _

theorem beginsDecl_destructor (deallocating : Bool) :
    BeginsDecl (g.destructor scope d deallocating) :=
  (beginsDecl_contextOf scope d).append _

/-- An entity begins with its context, or with the node of an opaque result. -/
theorem beginsDecl_entity : BeginsDecl (g.entity scope d) := by
  unfold entity
  split
  · exact beginsDecl_value scope d _ _
  · exact beginsDecl_value scope d _ _
  · exact beginsDecl_value scope d _ _
  · exact beginsDecl_value scope d _ _
  · exact beginsDecl_constructor scope d _
  · exact beginsDecl_destructor scope d _
  · exact ((beginsDecl_contextOf scope d).append _).append _
  · exact beginsDecl_opaqueDecl scope d
  · rfl

theorem beginsDecl_closure (c : ClosureId) : BeginsDecl (g.closure scope c) := rfl

/-- An accessor begins with the context of its storage. -/
theorem beginsDecl_accessor (kind : AccessorKind) : BeginsDecl (g.accessor scope d kind) := by
  unfold accessor
  dsimp only
  split
  · exact ((beginsDecl_contextOf scope d).append _).append _
  · exact (beginsDecl_contextOf scope d).append _
  · rfl

/-- A context that is a declaration begins as that declaration. -/
theorem beginsDecl_declContext : BeginsDecl (g.declContext scope d) := by
  unfold declContext
  split
  · exact beginsDecl_moduleDecl scope d
  · exact beginsDecl_moduleDecl scope d
  · rename_i extended _
    exact (beginsDecl_nominal scope extended).append _
  · exact beginsDecl_nominal scope d
  · exact beginsDecl_nominal scope d
  · exact beginsDecl_nominal scope d
  · exact beginsDecl_nominal scope d
  · exact beginsDecl_nominal scope d
  · exact beginsDecl_entity scope d

/-- Every context begins as a declaration does. -/
theorem beginsDecl_context (c : Context) : BeginsDecl (g.context scope c) := by
  cases c with
  | decl d => exact beginsDecl_declContext scope d
  | closure c => exact beginsDecl_closure scope c
  | initializer d => exact (beginsDecl_entity scope d).append _
  | defaultArgument d i => exact (beginsDecl_entity scope d).append _
  | accessor d kind => exact beginsDecl_accessor scope d kind

/-- The body of a declaration begins with its name or with its context. -/
theorem beginsDecl_declBody : BeginsDecl (g.declBody scope d) := by
  unfold declBody
  split
  · exact beginsDecl_declName d
  · rename_i naming _
    exact (beginsDecl_entity scope naming).append _
  · split
    · exact ((beginsDecl_contextOf scope d).append _).append _
    · rfl

end Grammar

/-! ## What is written -/

/-- From one progress to another, something has been written that begins as a declaration. -/
def Progress.WroteDecl (s s' : Progress) : Prop :=
  ∃ t rest, s'.tokens.toList = s.tokens.toList ++ t :: rest ∧ t.beginsDecl = true

/-- What is written afterwards stands behind. -/
theorem Progress.WroteDecl.extends {s s₁ s' : Progress} (h : s.WroteDecl s₁)
    (hextends : s₁.Extends s') : s.WroteDecl s' := by
  obtain ⟨t, rest, htokens, ht⟩ := h
  obtain ⟨more, hmore⟩ := hextends.tokens
  exact ⟨t, rest ++ more, by rw [← hmore, htokens]; simp, ht⟩

theorem Progress.wroteDecl_emit (s : Progress) {t : Token} (ht : t.beginsDecl = true) :
    s.WroteDecl (s.emit t) := ⟨t, [], by simp, ht⟩

/-- What begins as a declaration is written so: the first phrase is opened until a token comes
first, and what is written afterwards comes behind. -/
theorem Grammar.Writes.wroteDecl {g : Grammar} {w : Spelling} {n : Nat} {ps : List Piece}
    {s s' : Progress} (h : g.Writes w n ps s s') (hps : BeginsDecl ps) : s.WroteDecl s' := by
  -- on the way down there is always a context or the body of a declaration to open
  induction h with
  | nil => cases hps
  | @token n t rest s s' after ih => exact (s.wroteDecl_emit hps).extends after.extends
  | @phrase n scope p rest s s₁ s' inside after ihinside ihafter =>
    cases p with
    | context c => exact (ihinside (beginsDecl_context scope c)).extends after.extends
    | type t => cases hps
    | conformance subject ref => cases hps
    | body key => cases hps
  | @short n scope key r t rest s s' hshorthand after ih =>
    have ht : t.beginsDecl = true := by
      rcases Spelling.shorthand?_eq_some hshorthand with ⟨x, -, -, rfl⟩ | ⟨-, i, -, rfl⟩ <;> rfl
    exact (s.wroteDecl_emit ht).extends after.extends
  | @spelled n scope key r rest s s₁ s' hnone inside after ihinside ihafter =>
    cases key with
    | type t => cases hps
    | decl d =>
      exact (ihinside (beginsDecl_declBody scope d)).extends
        ((Progress.Extends.complete s₁ (.decl d) s.tokens.size).trans after.extends)

/-! ## Variants -/

/-- The variant that is read off what stands behind the lead of a symbol. -/
def EntityVariant.ofLetters : List Char → EntityVariant
  | 'T' :: 'a' :: _ => asyncHandler
  | 'T' :: 'D' :: _ => dynamicThunk
  | 'T' :: 'o' :: _ => nativeToForeign
  | 'T' :: 'O' :: _ => foreignToNative
  | _ => plain

/-- The variant that is read off a symbol. -/
def EntityVariant.ofSymbol (text : String) : EntityVariant := ofLetters (text.toList.drop 2)

/-- A variant can be read where what follows does not begin as the operator of one. -/
theorem EntityVariant.ofLetters_append (kind : EntityVariant) {x : List Char} {c : Char}
    (hc : x.head? = some c) (hT : c ≠ 'T') : ofLetters (spellAll kind.tokens ++ x) = kind := by
  cases kind with
  | plain =>
    cases x with
    | nil => cases hc
    | cons c' rest =>
      cases hc
      show ofLetters (c :: rest) = plain
      unfold ofLetters
      split <;> first | rfl | (rename_i heq; cases heq; exact absurd rfl hT)
  | asyncHandler => rfl
  | dynamicThunk => rfl
  | nativeToForeign => rfl
  | foreignToNative => rfl

/-- The variant that is asked for, in the requests that have variants. -/
def Request.variant? : Request → Option EntityVariant
  | .entity _ kind | .closure _ kind | .constructor _ _ kind | .destructor _ _ kind
  | .ivarInitializer _ _ kind | .accessor _ _ kind => some kind
  | _ => none

/-- The plan of such a request: the operator of the variant, then a declaration. -/
theorem Grammar.plan_of_variant {g : Grammar} {r : Request} {kind : EntityVariant} {plan : Plan}
    (hr : r.variant? = some kind) (h : g.plan r = .ok plan) :
    ∃ ps, plan = { pieces := kind.pieces ++ ps } ∧ BeginsDecl ps := by
  cases r <;> cases hr
  case entity d =>
    cases h
    exact ⟨_, rfl, beginsDecl_entity _ d⟩
  case closure c =>
    cases h
    exact ⟨_, rfl, beginsDecl_closure _ c⟩
  case constructor d allocating =>
    obtain ⟨-, -, h⟩ := bind_ok h
    cases h
    exact ⟨_, rfl, beginsDecl_constructor _ d allocating⟩
  case destructor d deallocating =>
    obtain ⟨-, -, h⟩ := bind_ok h
    cases h
    exact ⟨_, rfl, beginsDecl_destructor _ d deallocating⟩
  case ivarInitializer d destroyer =>
    -- the operator of the initializer comes behind the class
    obtain ⟨-, -, h⟩ := bind_ok h
    cases h
    exact ⟨_, by rw [List.append_assoc], (beginsDecl_nominal _ d).append _⟩
  case accessor storage accessor =>
    cases h
    exact ⟨_, rfl, beginsDecl_accessor _ storage accessor⟩

/-- The reader reads the variant that was asked for. -/
theorem Mangler.ofSymbol_of_mangle {m : Mangler} {r : Request} {kind : EntityVariant}
    {text : String} (hr : r.variant? = some kind) (h : m.mangle r = .ok text) :
    EntityVariant.ofSymbol text = kind := by
  obtain ⟨plan, s, hplan, hwrites, rfl⟩ := exists_writes_of_mangle h
  obtain ⟨ps, rfl, hps⟩ := Grammar.plan_of_variant hr hplan
  obtain ⟨s₁, hvariant, hdecl⟩ := Grammar.writes_append.1 hwrites
  rw [kind.pieces_eq] at hvariant
  have hvariant : s₁.tokens.toList = kind.tokens := (Grammar.writes_tokens hvariant).1
  obtain ⟨t, rest, htokens, ht⟩ := hdecl.wroteDecl hps
  obtain ⟨c, hc, hT⟩ := Token.head?_spelling_of_beginsDecl ht
  -- behind the lead stand the letters of the variant, and then a declaration
  have hletters : (symbol "$q" s.tokens.toList).toList.drop 2 =
      spellAll kind.tokens ++ spellAll (t :: rest) := by
    simp only [htokens, hvariant, symbol, spellAll_append, String.toList_append,
      String.toList_ofList]
    rfl
  unfold EntityVariant.ofSymbol
  rw [hletters]
  refine kind.ofLetters_append (c := c) ?_ hT
  rw [spellAll, List.flatMap_cons, List.head?_append, hc, Option.some_or]

namespace Session

/-- The variant of the symbol of an entity, a closure, a constructor, a destructor, an
initializer of instance variables or an accessor can be read off it, whatever the programs, the
settings and the requests before.  So symbols of different variants differ. -/
theorem variant_read_off (m m' : Mangler) (history history' : List Request) {r r' : Request}
    {kind kind' : EntityVariant} {text text' : String} (hr : r.variant? = some kind)
    (hr' : r'.variant? = some kind') (h : ((m.inUse history).request r).1 = .ok text)
    (h' : ((m'.inUse history').request r').1 = .ok text') :
    EntityVariant.ofSymbol text = kind ∧ EntityVariant.ofSymbol text' = kind' ∧
      (kind ≠ kind' → text ≠ text') := by
  rw [request_eq_mangle, Mangler.mangler_inUse] at h h'
  have hkind := Mangler.ofSymbol_of_mangle hr h
  have hkind' := Mangler.ofSymbol_of_mangle hr' h'
  refine ⟨hkind, hkind', fun hne htext => hne ?_⟩
  rw [← hkind, ← hkind', htext]

/-- A struct that is a placeholder, and its dynamic thunk where the struct is spelled out: the
plain variant has no letter of its own and is told by what follows the lead. -/
theorem variant_read_off_struct :
    let m : Mangler := { program := placedProgram, options := { allowsPlaceholders := true } }
    let m' : Mangler := { program := placedProgram }
    let plain : Request := .entity ⟨1⟩ .plain
    let thunk : Request := .entity ⟨1⟩ .dynamicThunk
    plain.variant? = some .plain ∧ thunk.variant? = some .dynamicThunk ∧
      ((m.inUse []).request plain).1 = .ok "$q\x01\x00\x00\x00\x00" ∧
      ((m'.inUse [plain]).request thunk).1 = .ok "$qTD1M1SV" ∧
      EntityVariant.ofSymbol "$qTD1M1SV" = .dynamicThunk ∧
      "$q\x01\x00\x00\x00\x00" ≠ "$qTD1M1SV" := by
  intro m m' plain thunk
  have hplain : ((m.inUse []).request plain).1 = .ok "$q\x01\x00\x00\x00\x00" := by
    decide +kernel
  have hthunk : ((m'.inUse [plain]).request thunk).1 = .ok "$qTD1M1SV" := by decide +kernel
  have hvariant : plain.variant? = some .plain := rfl
  have hvariant' : thunk.variant? = some .dynamicThunk := rfl
  obtain ⟨-, hread, hne⟩ := variant_read_off m m' [] [plain] hvariant hvariant' hplain hthunk
  exact ⟨hvariant, hvariant', hplain, hthunk, hread, hne (by decide)⟩

end Session

end NameMangling
