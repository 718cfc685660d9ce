/-
# Names of derivatives

The symbol of a derivative, a linear map, a declaration generated for one or a
differentiability witness is the name of the function it belongs to, a code for what it is, and
a letter for each parameter and each result.  Nothing separates these, and a function that is
itself such an artifact is copied as it is.  Still the symbol can be read, from its end on: the
letters of the results and of the parameters are runs of `S` and `U`, with which no code ends,
and the last letter of a code tells how long the code is.

Main definitions:
* `DerivativeArtifact`, what can be asked for of a function, and `DerivativeArtifact.request`;
* `IndexSubset.Same`, two subsets of one capacity with the same members.

Main facts:
* `append_inj_of_last_run`, `DerivativeArtifact.append_code_inj`: the parts are told apart;
* `Mangler.mangle_artifact`: the symbol of an artifact;
* `Session.derivative_names_injective`: equal symbols are of equal artifacts.
-/
import NameMangling.Proofs.Subjects

namespace NameMangling

/-! ## Runs at the end -/

/-- A run of characters of one sort is determined by the whole, where a character of another
sort follows. -/
theorem append_inj_of_run {p : Char → Bool} {ds ds' x x' : List Char}
    (hds : ∀ c ∈ ds, p c = true) (hds' : ∀ c ∈ ds', p c = true)
    (hx : ∀ c ∈ x.head?, p c = false) (hx' : ∀ c ∈ x'.head?, p c = false)
    (h : ds ++ x = ds' ++ x') : ds = ds' ∧ x = x' := by
  have htake : ∀ ds x : List Char, (∀ c ∈ ds, p c = true) →
      (∀ c ∈ x.head?, p c = false) → (ds ++ x).takeWhile p = ds := by
    intro ds x hds hx
    rw [List.takeWhile_append_of_pos hds]
    cases x with
    | nil => simp
    | cons c x =>
      rw [List.takeWhile_cons_of_neg (by simpa using hx c rfl), List.append_nil]
  have heq : ds = ds' := by rw [← htake ds x hds hx, h, htake ds' x' hds' hx']
  subst heq
  exact ⟨rfl, List.append_cancel_left h⟩

/-- A run of characters of one sort is determined by the whole, where it stands at the end
behind a character of another sort. -/
theorem append_inj_of_last_run {p : Char → Bool} {x x' ds ds' : List Char}
    (hds : ∀ c ∈ ds, p c = true) (hds' : ∀ c ∈ ds', p c = true)
    (hx : ∀ c ∈ x.getLast?, p c = false) (hx' : ∀ c ∈ x'.getLast?, p c = false)
    (h : x ++ ds = x' ++ ds') : x = x' ∧ ds = ds' := by
  have hreverse := congrArg List.reverse h
  rw [List.reverse_append, List.reverse_append] at hreverse
  obtain ⟨hrun, hrest⟩ := append_inj_of_run (p := p) (by simpa using hds) (by simpa using hds')
    (by simpa using hx) (by simpa using hx') hreverse
  exact ⟨List.reverse_injective hrest, List.reverse_injective hrun⟩

/-- An index at the end is told from what stands before it, unless that ends with a digit. -/
theorem append_spellIndex_inj {n m : Nat} {x y : List Char}
    (hx : ∀ c ∈ x.getLast?, c.isDigit = false) (hy : ∀ c ∈ y.getLast?, c.isDigit = false)
    (h : x ++ spellIndex n = y ++ spellIndex m) : x = y ∧ n = m := by
  have hdigits : ∀ k, ∃ ds, spellIndex k = ds ++ ['_'] ∧ ∀ c ∈ ds, c.isDigit = true := by
    intro k
    cases k with
    | zero => exact ⟨[], rfl, by simp⟩
    | succ k => exact ⟨decimal k, rfl, fun c => isDigit_of_mem_decimal⟩
  obtain ⟨ds, hn, hds⟩ := hdigits n
  obtain ⟨ds', hm, hds'⟩ := hdigits m
  rw [hn, hm, ← List.append_assoc, ← List.append_assoc] at h
  obtain ⟨rfl, rfl⟩ := append_inj_of_last_run hds hds' hx hy (List.append_cancel_right h)
  have hindex : spellIndex n ++ [] = spellIndex m ++ [] := by rw [hn, hm]
  exact ⟨rfl, (spellIndex_append_inj hindex).1⟩

/-! ## Index subsets -/

namespace IndexSubset

/-- Two subsets of one capacity have the same members. -/
structure Same (s s' : IndexSubset) : Prop where
  capacity : s.capacity = s'.capacity
  members : ∀ i, s.contains i = s'.contains i

/-- The tokens of an index subset. -/
def tokens (s : IndexSubset) : List Token :=
  (List.range s.capacity).map fun i => .op (if s.contains i then .indexIn else .indexOut)

theorem pieces_eq (s : IndexSubset) : s.pieces = s.tokens.map .token := by
  rw [pieces, tokens, List.map_map]
  rfl

/-- One letter for each number: whether it is a member. -/
theorem spellAll_tokens (s : IndexSubset) :
    spellAll s.tokens = (List.range s.capacity).map fun i => if s.contains i then 'S' else 'U' := by
  unfold spellAll tokens
  rw [List.flatMap_map, ← List.flatMap_pure_eq_map]
  congr 1
  funext i
  show (if s.contains i then Operator.indexIn else .indexOut).letters.toList = _
  cases h : s.contains i <;> simp [h] <;> rfl

/-- A letter of an index subset. -/
def isLetter (c : Char) : Bool := c == 'S' || c == 'U'

/-- An index subset is written in its own two letters. -/
theorem isLetter_of_mem {s : IndexSubset} : ∀ c ∈ spellAll s.tokens, isLetter c = true := by
  intro c hc
  rw [spellAll_tokens] at hc
  obtain ⟨i, -, rfl⟩ := List.mem_map.1 hc
  cases s.contains i <;> rfl

theorem Same.tokens_eq {s s' : IndexSubset} (h : s.Same s') : s.tokens = s'.tokens := by
  simp only [tokens, h.capacity, h.members]

/-- Subsets that are written alike are the same. -/
theorem same_of_spellAll_eq {s s' : IndexSubset} (h : spellAll s.tokens = spellAll s'.tokens) :
    s.Same s' := by
  rw [spellAll_tokens, spellAll_tokens] at h
  have hcapacity : s.capacity = s'.capacity := by simpa using congrArg List.length h
  refine ⟨hcapacity, fun i => ?_⟩
  by_cases hi : i < s.capacity
  · rw [← hcapacity] at h
    have hletter := List.map_inj_left.1 h i (List.mem_range.2 hi)
    cases hs : s.contains i <;> cases hs' : s'.contains i <;> simp [hs, hs'] at hletter <;> rfl
  · simp [contains, hi, hcapacity ▸ hi]

end IndexSubset

/-! ## Codes -/

/-- What can be asked for of a function that is differentiated. -/
inductive DerivativeArtifact
  | function (kind : DerivativeKind)
  | linearMap (kind : LinearMapMode)
  | generatedDecl (decl : GeneratedDecl) (kind : LinearMapMode) (block : Nat)
  | witness (kind : WitnessKind)
deriving DecidableEq, Inhabited

namespace DerivativeArtifact

/-- The request for an artifact of the function with the given name. -/
def request (differentiated : String) (config : DerivativeConfig) : DerivativeArtifact → Request
  | function kind => .derivativeFunction differentiated kind config
  | linearMap kind => .linearMap differentiated kind config
  | generatedDecl decl kind block => .generatedDecl differentiated decl kind block config
  | witness kind => .differentiabilityWitness differentiated kind config

/-- The tokens that tell what an artifact is. -/
def code : DerivativeArtifact → List Token
  | function kind => [.op .derivative, .op kind.operator]
  | linearMap kind => [.op .derivative, .op kind.operator]
  | generatedDecl decl kind block =>
    [.op .derivative, .op decl.operator, .op kind.operator, .index block]
  | witness kind => [.op .derivativeWitness, .op kind.operator]

/-- The block that a declaration has been generated for. -/
def block? : DerivativeArtifact → Option Nat
  | generatedDecl _ _ block => some block
  | _ => none

/-- The letters of a code, without the index of the block. -/
def mark : DerivativeArtifact → List Char
  | function .forward => ['T', 'J', 'f']
  | function .reverse => ['T', 'J', 'r']
  | linearMap .differential => ['T', 'J', 'd']
  | linearMap .pullback => ['T', 'J', 'p']
  | generatedDecl .linearMapStruct .differential _ => ['T', 'J', 'l', 'd']
  | generatedDecl .linearMapStruct .pullback _ => ['T', 'J', 'l', 'p']
  | generatedDecl .branchingTraceEnum .differential _ => ['T', 'J', 'b', 'd']
  | generatedDecl .branchingTraceEnum .pullback _ => ['T', 'J', 'b', 'p']
  | witness .normal => ['W', 'J', 'd']
  | witness .linear => ['W', 'J', 'l']
  | witness .forward => ['W', 'J', 'f']
  | witness .reverse => ['W', 'J', 'r']

/-- The code of an artifact is its mark, with the index of the block if it has one. -/
theorem spellAll_code (a : DerivativeArtifact) :
    spellAll a.code = a.mark ++ (a.block?.map spellIndex).getD [] := by
  cases a with
  | function kind => cases kind <;> rfl
  | linearMap kind => cases kind <;> rfl
  | witness kind => cases kind <;> rfl
  | generatedDecl decl kind block =>
    simp only [spellAll, code, List.flatMap_cons, List.flatMap_nil, List.append_nil]
    cases decl <;> cases kind <;> rfl

/-- A mark ends with a letter that neither an index nor an index subset has. -/
theorem getLast?_append_mark (x : List Char) (a : DerivativeArtifact) :
    ∃ c, (x ++ a.mark).getLast? = some c ∧ c.isDigit = false ∧
      IndexSubset.isLetter c = false ∧ c ≠ '_' := by
  have hmark : ∃ c, a.mark.getLast? = some c ∧ c.isDigit = false ∧
      IndexSubset.isLetter c = false ∧ c ≠ '_' := by
    rcases a with (_ | _) | (_ | _) | ⟨_ | _, _ | _, block⟩ | (_ | _ | _ | _) <;>
      exact ⟨_, rfl, rfl, rfl, by decide⟩
  obtain ⟨c, hlast, hc⟩ := hmark
  exact ⟨c, by rw [List.getLast?_append, hlast, Option.some_or], hc⟩

/-- A mark is longer where the index of a block follows. -/
theorem length_mark (a : DerivativeArtifact) :
    a.mark.length = if a.block?.isSome then 4 else 3 := by
  rcases a with (_ | _) | (_ | _) | ⟨_ | _, _ | _, block⟩ | (_ | _ | _ | _) <;> rfl

/-- An artifact is told by its mark and its block. -/
theorem eq_of_mark_eq {a a' : DerivativeArtifact} (hblock : a.block? = a'.block?)
    (hmark : a.mark = a'.mark) : a = a' := by
  -- no two of the twelve marks are the same
  rcases a with (_ | _) | (_ | _) | ⟨_ | _, _ | _, block⟩ | (_ | _ | _ | _) <;>
    rcases a' with (_ | _) | (_ | _) | ⟨_ | _, _ | _, block'⟩ | (_ | _ | _ | _) <;>
    simp_all [mark, block?]

theorem getLast?_append_spellIndex (x : List Char) (n : Nat) :
    (x ++ spellIndex n).getLast? = some '_' := by
  cases n <;> simp [spellIndex, spellCount]

/-- A code does not end with a letter of an index subset. -/
theorem isLetter_getLast?_append_code (x : List Char) (a : DerivativeArtifact) :
    ∀ c ∈ (x ++ spellAll a.code).getLast?, IndexSubset.isLetter c = false := by
  intro c hc
  rw [spellAll_code, ← List.append_assoc] at hc
  cases hblock : a.block? with
  | some block =>
    rw [hblock, Option.map_some, Option.getD_some, getLast?_append_spellIndex] at hc
    cases hc
    rfl
  | none =>
    obtain ⟨c', hlast, -, hletter, -⟩ := getLast?_append_mark x a
    rw [hblock, Option.map_none, Option.getD_none, List.append_nil, hlast] at hc
    cases hc
    exact hletter

/-- A code is told from what stands before it. -/
theorem append_code_inj {a a' : DerivativeArtifact} {x x' : List Char}
    (h : x ++ spellAll a.code = x' ++ spellAll a'.code) : x = x' ∧ a = a' := by
  rw [spellAll_code, spellAll_code, ← List.append_assoc, ← List.append_assoc] at h
  have hdigit (x : List Char) (a : DerivativeArtifact) :
      ∀ c ∈ (x ++ a.mark).getLast?, c.isDigit = false := by
    intro c hc
    obtain ⟨c', hlast, hdigit, -⟩ := getLast?_append_mark x a
    rw [hlast] at hc
    cases hc
    exact hdigit
  -- only with a block does a code end with an underscore
  have hmixed {x x' : List Char} {a : DerivativeArtifact} {block : Nat} :
      x ++ spellIndex block ≠ x' ++ a.mark := by
    intro h
    obtain ⟨c, hlast, -, -, hc⟩ := getLast?_append_mark x' a
    rw [← h, getLast?_append_spellIndex] at hlast
    cases hlast
    exact hc rfl
  have hmarks : x ++ a.mark = x' ++ a'.mark ∧ a.block? = a'.block? := by
    cases hblock : a.block? <;> cases hblock' : a'.block? <;>
      simp only [hblock, hblock', Option.map_some, Option.map_none, Option.getD_some,
        Option.getD_none, List.append_nil] at h
    · exact ⟨h, rfl⟩
    · exact absurd h.symm hmixed
    · exact absurd h hmixed
    · obtain ⟨hmark, rfl⟩ := append_spellIndex_inj (hdigit x a) (hdigit x' a') h
      exact ⟨hmark, rfl⟩
  obtain ⟨hx, hmark⟩ :=
    List.append_inj' hmarks.1 (by rw [length_mark, length_mark, hmarks.2])
  exact ⟨hx, eq_of_mark_eq hmarks.2 hmark⟩

end DerivativeArtifact

/-! ## Names of functions -/

/-- Whether the name of a function is a symbol. -/
def IsSymbol (name : String) : Prop := ∃ rest, name = "$q" ++ rest

/-- The tokens of the function that a derivative belongs to. -/
def differentiatedTokens (differentiated : String) : List Token :=
  match differentiated.toList with
  | '$' :: 'q' :: rest => [.verbatim (String.ofList rest)]
  | _ => [.identifier differentiated, .op .foreignFunction]

theorem toList_symbol (rest : String) : ("$q" ++ rest).toList = '$' :: 'q' :: rest.toList := by
  rw [String.toList_append]
  rfl

theorem isSymbol_of_toList {name : String} {rest : List Char}
    (h : name.toList = '$' :: 'q' :: rest) : IsSymbol name :=
  ⟨String.ofList rest, String.toList_inj.1 (by rw [h, toList_symbol, String.toList_ofList])⟩

/-- A symbol is copied behind its lead. -/
theorem differentiated_of_isSymbol (rest : String) :
    differentiatedTokens ("$q" ++ rest) = [.verbatim rest] ∧
      differentiatedPieces ("$q" ++ rest) = [.token (.verbatim rest)] := by
  constructor
  · simp only [differentiatedTokens, toList_symbol, String.ofList_toList]
  · simp only [differentiatedPieces, toList_symbol, String.ofList_toList]

/-- A name that is no symbol is written as an identifier and marked as foreign. -/
theorem differentiated_of_not_isSymbol {name : String} (h : ¬IsSymbol name) :
    differentiatedTokens name = [.identifier name, .op .foreignFunction] ∧
      differentiatedPieces name = [.token (.identifier name), .op .foreignFunction] := by
  constructor
  · unfold differentiatedTokens
    split
    · rename_i hname
      exact absurd (isSymbol_of_toList hname) h
    · rfl
  · unfold differentiatedPieces
    split
    · rename_i hname
      exact absurd (isSymbol_of_toList hname) h
    · rfl

/-- The pieces for what is differentiated are its tokens. -/
theorem differentiatedPieces_eq (name : String) :
    differentiatedPieces name = (differentiatedTokens name).map .token := by
  by_cases hname : IsSymbol name
  · obtain ⟨rest, rfl⟩ := hname
    obtain ⟨htokens, hpieces⟩ := differentiated_of_isSymbol rest
    rw [hpieces, htokens]
    rfl
  · obtain ⟨htokens, hpieces⟩ := differentiated_of_not_isSymbol hname
    rw [hpieces, htokens]
    rfl

/-- A name is read off its tokens by who knows whether it is a symbol. -/
theorem eq_of_spellAll_differentiated_eq {name name' : String}
    (hsymbol : IsSymbol name ↔ IsSymbol name')
    (h : spellAll (differentiatedTokens name) = spellAll (differentiatedTokens name')) :
    name = name' := by
  by_cases hname : IsSymbol name
  · obtain ⟨rest', rfl⟩ := hsymbol.1 hname
    obtain ⟨rest, rfl⟩ := hname
    rw [(differentiated_of_isSymbol rest).1, (differentiated_of_isSymbol rest').1] at h
    have hrest : rest.toList ++ [] = rest'.toList ++ [] := h
    rw [String.toList_inj.1 (List.append_cancel_right hrest)]
  · rw [(differentiated_of_not_isSymbol hname).1,
      (differentiated_of_not_isSymbol (hsymbol.not.1 hname)).1] at h
    exact (spellIdentifier_append_inj h).1

/-! ## Symbols of artifacts -/

namespace DerivativeArtifact

/-- The tokens of an artifact: the function, the code, the parameters and the results. -/
def tokens (name : String) (config : DerivativeConfig) (a : DerivativeArtifact) : List Token :=
  differentiatedTokens name ++ a.code ++ config.parameters.tokens ++ [.op .parameterIndices]
    ++ config.results.tokens ++ [.op .resultIndices]

/-- The text of an artifact is made of its five parts and the two marks behind the subsets. -/
theorem spellAll_tokens (name : String) (config : DerivativeConfig) (a : DerivativeArtifact) :
    spellAll (a.tokens name config) = spellAll (differentiatedTokens name) ++ spellAll a.code
      ++ spellAll config.parameters.tokens ++ ['p'] ++ spellAll config.results.tokens ++ ['r'] := by
  simp only [tokens, spellAll_append]
  rfl

/-- An artifact is read off its symbol: the results, the parameters, the code and the name, in
this order. -/
theorem eq_of_spellAll_tokens_eq {a a' : DerivativeArtifact} {name name' : String}
    {config config' : DerivativeConfig} (hsymbol : IsSymbol name ↔ IsSymbol name')
    (h : spellAll (a.tokens name config) = spellAll (a'.tokens name' config')) :
    a = a' ∧ name = name' ∧ config.parameters.Same config'.parameters ∧
      config.results.Same config'.results := by
  simp only [spellAll_tokens] at h
  -- what stands before a run of index letters ends with a `p` or with a code
  have hend (x : List Char) : ∀ c ∈ (x ++ ['p']).getLast?, IndexSubset.isLetter c = false := by
    simp [IndexSubset.isLetter]
  obtain ⟨hfront, hresults⟩ := append_inj_of_last_run IndexSubset.isLetter_of_mem
    IndexSubset.isLetter_of_mem (hend _) (hend _) (List.append_cancel_right h)
  obtain ⟨hcode, hparameters⟩ := append_inj_of_last_run IndexSubset.isLetter_of_mem
    IndexSubset.isLetter_of_mem (isLetter_getLast?_append_code _ a)
    (isLetter_getLast?_append_code _ a') (List.append_cancel_right hfront)
  obtain ⟨hname, rfl⟩ := append_code_inj hcode
  exact ⟨rfl, eq_of_spellAll_differentiated_eq hsymbol hname,
    IndexSubset.same_of_spellAll_eq hparameters, IndexSubset.same_of_spellAll_eq hresults⟩

/-- Without a signature, the pieces of an artifact are its tokens. -/
theorem plan_request (g : Grammar) (name : String) {config : DerivativeConfig}
    (hsignature : config.signature = none) (a : DerivativeArtifact) :
    g.plan (a.request name config) = .ok { pieces := (a.tokens name config).map .token } := by
  have hpieces : g.derivative name (a.code.map .token) config =
      (a.tokens name config).map .token := by
    simp only [Grammar.derivative, Grammar.derivativeConfig, hsignature, Grammar.signatureIfAny,
      tokens, differentiatedPieces_eq, IndexSubset.pieces_eq, List.map_append, List.append_assoc]
    rfl
  rw [← hpieces]
  cases a <;> rfl

end DerivativeArtifact

/-- What has no signature always has a symbol, whatever the program and the settings. -/
theorem Mangler.mangle_artifact (m : Mangler) (name : String) {config : DerivativeConfig}
    (hsignature : config.signature = none) (a : DerivativeArtifact) :
    m.mangle (a.request name config) = .ok (symbol "$q" (a.tokens name config)) := by
  rw [mangle_of_plan (DerivativeArtifact.plan_request _ name hsignature a), carryOut_tokens rfl]

namespace Session

/-- Two artifacts without signatures, of functions that are both given by their symbols or both
not, have the same symbol if and only if they are the same artifact of the same function, with
respect to the same parameters and results. -/
theorem derivative_names_injective (m m' : Mangler) (history history' : List Request)
    (a a' : DerivativeArtifact) {name name' : String} {config config' : DerivativeConfig}
    (hsignature : config.signature = none) (hsignature' : config'.signature = none)
    (hsymbol : IsSymbol name ↔ IsSymbol name') :
    ∃ text text', ((m.inUse history).request (a.request name config)).1 = .ok text ∧
      ((m'.inUse history').request (a'.request name' config')).1 = .ok text' ∧
      (text = text' ↔ a = a' ∧ name = name' ∧ config.parameters.Same config'.parameters ∧
        config.results.Same config'.results) := by
  refine ⟨Mangler.symbol "$q" (a.tokens name config), Mangler.symbol "$q" (a'.tokens name' config'),
    ?_, ?_, ?_, ?_⟩
  · rw [request_eq_mangle, Mangler.mangler_inUse, Mangler.mangle_artifact m name hsignature]
  · rw [request_eq_mangle, Mangler.mangler_inUse, Mangler.mangle_artifact m' name' hsignature']
  · intro htext
    -- the lead is the same, so the tokens spell the same text
    refine DerivativeArtifact.eq_of_spellAll_tokens_eq hsymbol ?_
    simpa [Mangler.symbol, String.ofList_inj] using htext
  · rintro ⟨rfl, rfl, hparameters, hresults⟩
    rw [DerivativeArtifact.tokens, DerivativeArtifact.tokens, hparameters.tokens_eq,
      hresults.tokens_eq]

/-- The reverse derivative of a forward derivative of `f`, and the pullback of `f`: the text of
one function is a beginning of that of the other, and the symbols differ. -/
theorem derivative_names_injective_nested :
    let m : Mangler := { program := .empty }
    let config : DerivativeConfig := { parameters := .ofList 2 [0], results := .ofList 1 [0] }
    let derivative := (DerivativeArtifact.function .reverse).request "$q1fXxTJfSUpSr" config
    let pullback := (DerivativeArtifact.linearMap .pullback).request "$q1fXx" config
    config.signature = none ∧ (IsSymbol "$q1fXxTJfSUpSr" ↔ IsSymbol "$q1fXx") ∧
      ((m.inUse []).request derivative).1 = .ok "$q1fXxTJfSUpSrTJrSUpSr" ∧
      ((m.inUse [derivative]).request pullback).1 = .ok "$q1fXxTJpSUpSr" ∧
      ((m.inUse []).request derivative).1 ≠ ((m.inUse [derivative]).request pullback).1 := by
  intro m config derivative pullback
  have hsymbol : IsSymbol "$q1fXxTJfSUpSr" ↔ IsSymbol "$q1fXx" :=
    iff_of_true ⟨"1fXxTJfSUpSr", by decide +kernel⟩ ⟨"1fXx", by decide +kernel⟩
  refine ⟨rfl, hsymbol, by decide +kernel, by decide +kernel, fun hequal => ?_⟩
  have hsignature : config.signature = none := rfl
  obtain ⟨text, text', htext, htext', hiff⟩ := derivative_names_injective m m [] [derivative]
    (.function .reverse) (.linearMap .pullback) hsignature hsignature hsymbol
  have hsame : text = text' := Except.ok.inj (htext.symm.trans (hequal.trans htext'))
  cases (hiff.1 hsame).1

end Session

end NameMangling
