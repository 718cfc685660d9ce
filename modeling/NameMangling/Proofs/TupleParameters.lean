/-
# A tuple as the only parameter

A function that takes one tuple and a function that takes the elements of that tuple are
different types.  In a debugger name the only parameter stands without list marks, unless it
is a tuple, so that it is not taken for a list of parameters.  Whether it is a tuple is asked
of the type as it is written: a tuple in parentheses is none, although what is spelled is what
the parentheses enclose.

Main definitions:
* `Program.TupleParameter`, the two functions;
* `Mangler.nodesIn`, the nodes that are completed when a request is answered.

Main fact: `tupleParameter_merged_iff`, which tells when the two have one debugger name.
-/
import NameMangling.Proofs.BuiltPrograms
import NameMangling.Proofs.TypeTexts

namespace NameMangling

/-! ## The two functions -/

/-- A type in so many pairs of parentheses. -/
inductive Arena.Parens (a : Arena) : Nat → TypeId → TypeId → Prop
  | none {u : TypeId} : a.Parens 0 u u
  | paren {k : Nat} {v v' u : TypeId} (node : a.node v = .paren v') (inner : a.Parens k v' u) :
      a.Parens (k + 1) v u

/-- A function that takes a tuple of at least two elements, in so many pairs of parentheses,
and one that takes the elements, with one result and no attributes. -/
structure Program.TupleParameter (p : Program) (k : Nat) (u : TypeId)
    (elements : List TupleElement) (r packed spread : TypeId) : Prop where
  tuple : p.types.node u = .tuple elements
  two_le : 2 ≤ elements.length
  packed : ∃ v, p.types.Parens k v u ∧
    p.types.node packed = .function { params := [⟨v, {}⟩], result := r }
  spread : p.types.node spread =
    .function { params := elements.map fun e => ⟨e.type, {}⟩, result := r }

/-- What is written behind the only parameter, a tuple in so many pairs of parentheses. -/
def closingTokens (k : Nat) : List Token := if k = 0 then [.op .firstOfList, .op .tuple] else []

/-! ## Lists with and without labels -/

/-- The length of the text that has been written. -/
def Progress.textLength (s : Progress) : Nat := (spellAll s.tokens.toList).length

namespace Progress

variable {s s' : Progress}

theorem textLength_of_tokens {new : List Token} (h : s'.tokens.toList = s.tokens.toList ++ new) :
    s'.textLength = s.textLength + (spellAll new).length := by
  rw [textLength, textLength, h, spellAll_append, List.length_append]

end Progress

namespace Grammar

variable {g : Grammar} {w : Spelling} {n : Nat} {scope : Scope} {s s' : Progress}

/-- Where the first row can be written the second one can, from any state that numbers nodes
alike, and its text is shorter by at least so much. -/
def Shortens (g : Grammar) (w : Spelling) (n less : Nat) (ps qs : List Piece) : Prop :=
  ∀ s s' u, g.Writes w n ps s s' → s.SameNumbers u → ∃ u', g.Writes w n qs u u' ∧
    s'.SameNumbers u' ∧ less + s.textLength + u'.textLength ≤ s'.textLength + u.textLength

namespace Shortens

variable {ps ps' qs qs' : List Piece} {less less' : Nat}

/-- From states that number nodes alike the same pieces have texts of the same length. -/
theorem refl (ps : List Piece) : g.Shortens w n 0 ps ps := by
  intro s s' u h hsu
  obtain ⟨u', new, hwrites, hsame, htokens, htokens'⟩ := h.of_sameNumbers hsu
  refine ⟨u', hwrites, hsame, ?_⟩
  rw [Progress.textLength_of_tokens htokens, Progress.textLength_of_tokens htokens']
  omega

/-- What is saved in two rows adds up. -/
theorem append (h : g.Shortens w n less ps qs) (h' : g.Shortens w n less' ps' qs') :
    g.Shortens w n (less + less') (ps ++ ps') (qs ++ qs') := by
  intro s s' u hwrites hsu
  obtain ⟨s₁, hfirst, hrest⟩ := writes_append.1 hwrites
  obtain ⟨u₁, hfirst', hsame₁, hlength₁⟩ := h s s₁ u hfirst hsu
  obtain ⟨u', hrest', hsame, hlength⟩ := h' s₁ s' u₁ hrest hsame₁
  exact ⟨u', writes_append.2 ⟨u₁, hfirst', hrest'⟩, hsame, by omega⟩

/-- Leaving out a label saves something. -/
theorem label (l : Option Name) : g.Shortens w n (if l.isSome then 1 else 0) (g.label l) [] := by
  intro s s' u hwrites hsu
  cases l with
  | none =>
    cases hwrites
    exact ⟨u, .nil, hsu, by simp⟩
  | some x =>
    cases hwrites with | token after =>
    cases after
    refine ⟨u, .nil, hsu.emit_left _, ?_⟩
    -- a label is spelled with its length at least
    have hpos : 0 < (spellIdentifier (g.program.text x)).length := by
      obtain ⟨c, hc, -⟩ := head?_spellIdentifier (g.program.text x)
      cases h : spellIdentifier (g.program.text x) with
      | nil => rw [h] at hc; cases hc
      | cons => simp
    have hlength : (s.emit (.identifier (g.program.text x))).textLength =
        s.textLength + (spellIdentifier (g.program.text x)).length := by
      simp [Progress.textLength, spellAll, Token.spelling]
    simp only [Option.isSome_some, if_true]
    omega

/-- An element without its label. -/
theorem element (e : TupleElement) : g.Shortens w n (if e.label.isSome then 1 else 0)
    (g.label e.label ++ [.type scope e.type]) [.type scope e.type] :=
  (label e.label).append (refl [.type scope e.type])

/-- Leaving out the labels of some elements saves something for each of them. -/
theorem elements (scope : Scope) (es : List TupleElement) :
    g.Shortens w n (es.countP fun e => e.label.isSome)
      (es.map fun e => g.label e.label ++ [.type scope e.type]).flatten
      (es.map fun e => [Piece.type scope e.type]).flatten := by
  induction es with
  | nil => exact refl []
  | cons e es ih =>
    rw [List.countP_cons, Nat.add_comm]
    exact (element e).append ih

end Shortens

/-- The elements of a tuple as a list of parameters. -/
def spreadPieces (scope : Scope) (es : List TupleElement) : List Piece :=
  markFirst (es.map fun e => [.type scope e.type]) ++ [.op .tuple]

/-- A tuple is written like its elements as parameters, but for labels. -/
theorem shortens_tuple (es : List TupleElement) :
    g.Shortens w n (es.countP fun e => e.label.isSome) (g.tuple scope es)
      (spreadPieces scope es) := by
  have hlist : g.Shortens w n (es.countP fun e => e.label.isSome)
      (markFirst (es.map fun e => g.label e.label ++ [.type scope e.type]))
      (markFirst (es.map fun e => [.type scope e.type])) := by
    cases es with
    | nil => exact .refl []
    | cons e es =>
      have hrest := (Shortens.refl (g := g) (w := w) (n := n) [.op .firstOfList]).append
        (.elements scope es)
      rw [Nat.zero_add] at hrest
      rw [List.countP_cons, Nat.add_comm]
      exact (Shortens.element e).append hrest
  exact hlist.append (.refl [.op .tuple])

/-- A tuple without labels is written as its elements would be as parameters. -/
theorem tuple_eq_spreadPieces {es : List TupleElement} (h : ∀ e ∈ es, e.label = none) :
    g.tuple scope es = spreadPieces scope es := by
  have hitems : (es.map fun e => g.label e.label ++ [.type scope e.type]) =
      es.map fun e => [.type scope e.type] :=
    List.map_congr_left fun e he => by rw [h e he]; rfl
  rw [tuple, hitems, spreadPieces]

/-! ## Parameters -/

/-- Parameters that are passed plainly and without labels are their types. -/
theorem parameterList_plain (es : List TupleElement) :
    g.parameterList scope (es.map fun e => ⟨e.type, {}⟩) [] =
      es.map fun e => [.type scope e.type] := by
  induction es with
  | nil => rfl
  | cons e es ih =>
    rw [List.map_cons, parameterList, List.map_cons]
    exact congrArg₂ List.cons rfl ih

/-- Two or more parameters are a list. -/
theorem parameters_spread {es : List TupleElement} (h : 2 ≤ es.length) :
    g.parameters scope (es.map fun e => ⟨e.type, {}⟩) [] = spreadPieces scope es := by
  match es, h with
  | e :: e' :: es, _ =>
    rw [spreadPieces, ← parameterList_plain]
    rfl

/-- The only parameter is a list where it is a tuple that is written without parentheses. -/
theorem parameters_packed {k : Nat} {v u : TypeId} {es : List TupleElement}
    (h : g.program.types.Parens k v u) (hu : g.program.types.node u = .tuple es) :
    g.parameters scope [⟨v, {}⟩] [] = .type scope v :: (closingTokens k).map .token := by
  cases h with
  | none =>
    have halone : g.standsAlone ⟨v, {}⟩ none = false := by
      simp [standsAlone, Arena.kind, hu, TypeNode.kind]
    show (if g.standsAlone ⟨v, {}⟩ none then _ else _) = _
    rw [halone]
    rfl
  | @paren k v v' u hnode inner =>
    have halone : g.standsAlone ⟨v, {}⟩ none = true := by
      simp [standsAlone, Arena.kind, hnode, TypeNode.kind, ParamFlags.isPlain]
    show (if g.standsAlone ⟨v, {}⟩ none then _ else _) = _
    rw [halone]
    rfl

/-- A tuple in parentheses is written as the tuple. -/
theorem writes_parens (hsugar : g.acceptsSugar = true) {k : Nat} {v u : TypeId}
    {es : List TupleElement} (h : g.program.types.Parens k v u)
    (hu : g.program.types.node u = .tuple es) (hwrites : g.Writes w n [.type scope v] s s') :
    ∃ j, j ≤ n ∧ g.Writes w j [.node scope (.type u) none] s s' := by
  -- parentheses are passed over one by one, each at the cost of one phrase
  induction h generalizing n with
  | @none u =>
    cases hwrites with | @phrase j _ _ _ _ _ _ inside after =>
    cases after
    refine ⟨j, Nat.le_succ j, ?_⟩
    have hproduction : g.production scope (.type u) = [.node scope (.type u) none] := by
      simp only [production, type, hsugar, hu]
      rfl
    rwa [hproduction] at inside
  | @paren k v v' u hnode inner ih =>
    cases hwrites with | @phrase j _ _ _ _ _ _ inside after =>
    cases after
    have hproduction : g.production scope (.type v) = [.type scope v'] := by
      simp only [production, type, hsugar, hnode]
      rfl
    rw [hproduction] at inside
    obtain ⟨j', hle, hnodeWrites⟩ := ih hu inside
    exact ⟨j', by omega, hnodeWrites⟩

end Grammar

/-! ## A reference is not a list -/

/-- Behind an underscore of a text that ends in underscores there are only underscores. -/
theorem eq_underscore_of_append {pre before after : List Char} {j : Nat} (hpre : '_' ∉ pre)
    (h : pre ++ List.replicate j '_' = before ++ '_' :: after) : ∀ c ∈ after, c = '_' := by
  -- the underscore lies among those at the end, since there is none before them
  rcases List.append_eq_append_iff.1 h with ⟨more, -, hafter⟩ | ⟨more, hbefore, hafter⟩
  · intro c hc
    have hmem : c ∈ List.replicate j '_' := by
      rw [hafter]
      exact List.mem_append_right _ (List.mem_cons_of_mem _ hc)
    exact List.eq_of_mem_replicate hmem
  · cases more with
    | nil =>
      intro c hc
      have hmem : c ∈ List.replicate j '_' := by
        rw [List.nil_append] at hafter
        rw [← hafter]
        exact List.mem_cons_of_mem _ hc
      exact List.eq_of_mem_replicate hmem
    | cons c more =>
      obtain ⟨rfl, -⟩ := List.cons.inj hafter
      exact absurd (hbefore ▸ List.mem_append_right _ List.mem_cons_self) hpre

/-- In a reference underscores stand only at the end. -/
theorem spellBackReference_eq (i : Nat) :
    ∃ pre j, '_' ∉ pre ∧ spellBackReference i = pre ++ List.replicate j '_' := by
  by_cases hi : i < shortReferences
  · refine ⟨['A', referenceLetter i], 0, ?_, ?_⟩
    · have hletter : ∀ i, i < shortReferences → '_' ≠ referenceLetter i := by decide
      simpa using hletter i hi
    · simp [spellBackReference, hi, referenceLetter]
  · refine ⟨'A' :: decimal (i - shortReferences), 1, ?_, ?_⟩
    · intro hmem
      rcases List.mem_cons.1 hmem with h | h
      · cases h
      · cases isDigit_of_mem_decimal h
    · simp [spellBackReference, hi, spellCount]

/-- A reference to a tuple is not the list of its elements. -/
theorem spellAll_backReference_ne {i k : Nat} {before after : List Token}
    (hafter : HasLetter after) : spellAll (.backReference i :: closingTokens k) ≠
      spellAll (before ++ .op .firstOfList :: (after ++ [.op .tuple])) := by
  -- a reference ends in its only underscores, but a list has a letter behind its mark
  obtain ⟨pre, j, hpre, hreference⟩ := spellBackReference_eq i
  have hlist : spellAll (before ++ .op .firstOfList :: (after ++ [.op .tuple])) =
      spellAll before ++ '_' :: (spellAll after ++ ['t']) := by
    simp only [spellAll, List.flatMap_cons, List.flatMap_append]
    rfl
  rw [hlist]
  intro h
  cases k with
  | zero =>
    have hclosed : spellAll (.backReference i :: closingTokens 0) =
        pre ++ List.replicate (j + 1) '_' ++ ['t'] := by
      rw [List.replicate_succ', ← List.append_assoc pre, ← hreference, List.append_assoc]
      rfl
    have hcancel : pre ++ List.replicate (j + 1) '_' =
        spellAll before ++ '_' :: spellAll after := by
      rw [hclosed] at h
      exact List.append_cancel_right (h.trans (List.append_assoc (spellAll before)
        ('_' :: spellAll after) ['t']).symm)
    obtain ⟨c, hc, hne⟩ := hafter
    exact hne (eq_underscore_of_append hpre hcancel c hc)
  | succ k =>
    have hopen : spellAll (.backReference i :: closingTokens (k + 1)) =
        pre ++ List.replicate j '_' := by
      rw [← hreference]
      exact List.append_nil _
    have ht := eq_underscore_of_append hpre (hopen.symm.trans h) 't' (by simp)
    cases ht

namespace Grammar

variable {g : Grammar} {w : Spelling} {n : Nat} {scope : Scope} {s s' : Progress}

/-- Two or more parameters have a mark after the first, and a letter behind it. -/
theorem spread_tokens {es : List TupleElement} (h : 2 ≤ es.length)
    (hwrites : g.Writes w n (spreadPieces scope es) s s') : ∃ before after, HasLetter after ∧
      s'.tokens.toList =
        s.tokens.toList ++ (before ++ .op .firstOfList :: (after ++ [.op .tuple])) := by
  match es, h with
  | e :: e' :: es, _ =>
    have hpieces : spreadPieces scope (e :: e' :: es) = [.type scope e.type] ++
        (.op .firstOfList :: ((.type scope e'.type ::
          (es.map fun e => [Piece.type scope e.type]).flatten) ++ [.op .tuple])) := rfl
    rw [hpieces] at hwrites
    obtain ⟨s₁, hfirst, hrest⟩ := writes_append.1 hwrites
    cases hrest with | token hrest =>
    obtain ⟨s₂, hmiddle, hlast⟩ := writes_append.1 hrest
    cases hlast with | token hlast =>
    cases hlast
    obtain ⟨before, hbefore⟩ := hfirst.extends.tokens
    obtain ⟨after, hafter, hletter⟩ := hmiddle.exists_letter (.type _ _)
    refine ⟨before, after, hletter, ?_⟩
    simp [hafter, ← hbefore]

end Grammar

/-! ## Debugger names -/

namespace Mangler

variable {m : Mangler} {context : Option Context} {t u r packed spread : TypeId} {k n : Nat}
  {elements : List TupleElement} {x : String}

/-- The nodes that are completed when a request is answered with a symbol. -/
def nodesIn (m : Mangler) (r : Request) : List NodeKey :=
  ((m.written? r).map Progress.table).getD []

/-- How nodes are written in debugger names. -/
def debuggerSpelling (m : Mangler) : Spelling where
  placesReferent := m.placesReferent { keepsSugar := true, pieces := [] }

/-- The scope of a debugger name. -/
def debuggerScope (m : Mangler) (context : Option Context) : Scope :=
  Grammar.under (context.bind m.program.signatureOf)

/-- A debugger name is the type in the scope of its context, with an operator behind it. -/
theorem written?_debugger {s : Progress} :
    m.written? (.typeForDebugger t context) = some s ↔
      (m.grammar true).Writes m.debuggerSpelling (m.grammar true).depthBound
        [.type (m.debuggerScope context) t, .op .declType] {} s := by
  rw [written?_eq_some]
  constructor
  · rintro ⟨plan, hplan, h⟩
    cases hplan
    exact h
  · intro h
    exact ⟨_, rfl, h⟩

/-- The nodes that are completed when a type is spelled for a debugger. -/
theorem nodesIn_eq {s : Progress} (hn : n ≤ (m.grammar true).depthBound)
    (h : (m.grammar true).Writes m.debuggerSpelling n [.type (m.debuggerScope context) t] {} s) :
    m.nodesIn (.typeForDebugger t context) = s.table := by
  have hwritten : m.written? (.typeForDebugger t context) = some (s.emit (.op .declType)) :=
    written?_debugger.2 (Grammar.writes_append.2 ⟨s, h.mono hn, .token .nil⟩)
  rw [nodesIn, hwritten]
  rfl

/-- The debugger name of a function type. -/
theorem mangle_debugger_eq_ok {f : FunctionType} (ht : m.program.types.node t = .function f) :
    m.mangle (.typeForDebugger t context) = .ok x ↔
      ∃ n s, n + 2 = (m.grammar true).depthBound ∧
        (m.grammar true).Writes m.debuggerSpelling n
          ((m.grammar true).function (m.debuggerScope context) t []) {} s ∧
        x = symbol "$q" (s.tokens.toList ++ [.op .declType]) := by
  have hsugar : (m.grammar true).acceptsSugar = true := by simp [grammar]
  have hnode : (m.grammar true).program.types.node t = .function f := ht
  have htype : (m.grammar true).production (m.debuggerScope context) (.type t) =
      [.node (m.debuggerScope context) (.type t) none] := by
    simp only [Grammar.production, Grammar.type, hsugar, hnode]
    rfl
  have hbody : (m.grammar true).production (m.debuggerScope context) (.body (.type t)) =
      (m.grammar true).function (m.debuggerScope context) t [] := by
    simp only [Grammar.production, Grammar.structural, hnode]
  rw [mangle_eq_ok]
  constructor
  · -- down from the type to its node and on to its body, and back up in the other direction
    rintro ⟨plan, s, hplan, hwritten, rfl⟩
    cases hplan
    generalize hdepth : (m.grammar true).depthBound = depth at *
    have hwrites := written?_debugger.1 hwritten
    rw [hdepth] at hwrites
    cases hwrites with | phrase inside after =>
    rw [htype] at inside
    cases inside with
    | short hshort => cases hshort
    | spelled _ hfunction hnil =>
      cases hnil
      cases after with | token after =>
      cases after
      rw [hbody] at hfunction
      exact ⟨_, _, rfl, hfunction, by simp⟩
  · rintro ⟨n, s, hn, hfunction, rfl⟩
    refine ⟨_, (s.complete (.type t) 0).emit (.op .declType), rfl, written?_debugger.2 ?_,
      by simp⟩
    rw [← hn]
    refine .phrase ?_ (.token .nil)
    rw [htype]
    refine .spelled rfl ?_ .nil
    rw [hbody]
    exact hfunction

end Mangler

/-! ## The names of the two functions -/

namespace Grammar

variable {g : Grammar} {w : Spelling} {n k : Nat} {scope : Scope} {s s' : Progress}
  {u r packed spread : TypeId} {elements : List TupleElement}

/-- The function that takes a tuple is written as its result, the tuple and what follows. -/
theorem writes_packed (hsugar : g.acceptsSugar = true)
    (h : g.program.TupleParameter k u elements r packed spread)
    (hwrites : g.Writes w n (g.function scope packed []) {} s) :
    ∃ s₁ s₂ j, g.Writes w n [.type scope r] {} s₁ ∧ j ≤ n ∧
      g.Writes w j [.node scope (.type u) none] s₁ s₂ ∧
      s.tokens.toList = s₂.tokens.toList ++ (closingTokens k ++ [.op (.repr .native)]) := by
  obtain ⟨v, hparens, hnode⟩ := h.packed
  have hpieces : g.function scope packed [] = [.type scope r] ++
      ([.type scope v] ++ (closingTokens k ++ [Token.op (.repr .native)]).map .token) := by
    unfold function
    rw [hnode, List.map_append]
    simp only [TypeNode.function?, parameters_packed hparens h.tuple]
    rfl
  rw [hpieces] at hwrites
  obtain ⟨s₁, hresult, hrest⟩ := writes_append.1 hwrites
  obtain ⟨s₂, htuple, hclosing⟩ := writes_append.1 hrest
  obtain ⟨j, hj, hnode⟩ := writes_parens hsugar hparens h.tuple htuple
  exact ⟨s₁, s₂, j, hresult, hj, hnode, (writes_tokens hclosing).1⟩

/-- The function that takes the elements is written as its result and the elements. -/
theorem writes_spread (h : g.program.TupleParameter k u elements r packed spread) :
    g.Writes w n (g.function scope spread []) {} s ↔
      ∃ s₁ s₂, g.Writes w n [.type scope r] {} s₁ ∧
        g.Writes w n (spreadPieces scope elements) s₁ s₂ ∧ s = s₂.emit (.op (.repr .native)) := by
  have hpieces : g.function scope spread [] =
      [.type scope r] ++ (spreadPieces scope elements ++ [.op (.repr .native)]) := by
    unfold function
    rw [h.spread]
    simp only [TypeNode.function?, parameters_spread h.two_le]
    rfl
  rw [hpieces, writes_append]
  constructor
  · rintro ⟨s₁, hresult, hrest⟩
    obtain ⟨s₂, helements, hlast⟩ := writes_append.1 hrest
    cases hlast with | token hlast =>
    cases hlast
    exact ⟨s₁, s₂, hresult, helements, rfl⟩
  · rintro ⟨s₁, s₂, hresult, helements, rfl⟩
    exact ⟨s₁, hresult, writes_append.2 ⟨s₂, helements, .token .nil⟩⟩

/-- A tuple that has been completed is written as a reference, any other one is spelled out. -/
theorem writes_tuple_node (hback : w.refersBack = true)
    (hu : g.program.types.node u = .tuple elements)
    (h : g.Writes w n [.node scope (.type u) none] s s') :
    (∃ i, s.number? (.type u) = some i ∧
        s'.tokens.toList = s.tokens.toList ++ [.backReference i]) ∨
      s.number? (.type u) = none ∧ ∃ j s₁, j ≤ n ∧
        g.Writes w j (g.tuple scope elements) s s₁ ∧ s'.tokens = s₁.tokens := by
  cases h with
  | short hshort after =>
    cases after
    -- a type is no referent, so it is no placeholder
    obtain ⟨_, hr, -⟩ | ⟨-, i, hi, rfl⟩ := Spelling.shorthand?_eq_some hshort
    · cases hr
    · exact .inl ⟨i, hi, by simp⟩
  | @spelled j _ _ _ _ _ s₁ _ hnone inside after =>
    cases after
    have hbody : g.production scope (.body (.type u)) = g.tuple scope elements := by
      simp only [production, structural, hu]
    rw [hbody] at inside
    exact .inr ⟨Spelling.number?_of_shorthand?_eq_none hback hnone, j, s₁, Nat.le_succ j, inside,
      by simp⟩

end Grammar

namespace Mangler

variable {m : Mangler} {context : Option Context} {u r packed spread : TypeId} {k n : Nat}
  {elements : List TupleElement} {s s' : Progress}

/-- Where the two have one text the tuple is spelled out in parentheses and without labels. -/
theorem of_same_text (h : m.program.TupleParameter k u elements r packed spread)
    {scope : Scope} (hs : (m.grammar true).Writes m.debuggerSpelling n
      ((m.grammar true).function scope packed []) {} s)
    (hs' : (m.grammar true).Writes m.debuggerSpelling n
      ((m.grammar true).function scope spread []) {} s')
    (htext : spellAll s.tokens.toList = spellAll s'.tokens.toList) :
    0 < k ∧ (∀ e ∈ elements, e.label = none) ∧ ∃ s₁,
      (m.grammar true).Writes m.debuggerSpelling n [.type scope r] {} s₁ ∧
        s₁.number? (.type u) = none := by
  obtain ⟨s₁, s₂, j, hresult, hj, hnode, htokens⟩ :=
    Grammar.writes_packed (g := m.grammar true) (by simp [grammar]) h hs
  obtain ⟨t₁, t₂, hresult', hspread, rfl⟩ := Grammar.writes_spread (g := m.grammar true) h |>.1 hs'
  obtain rfl := hresult.unique hresult'
  rw [htokens, Progress.emit_tokens, Array.toList_push, ← List.append_assoc, spellAll_append,
    spellAll_append t₂.tokens.toList] at htext
  have htext := List.append_cancel_right htext
  obtain ⟨i, -, hreference⟩ | ⟨hnew, i, t, hi, htuple, hsame⟩ :=
    Grammar.writes_tuple_node (g := m.grammar true) rfl h.tuple hnode
  · -- a reference is not taken for the list of the elements
    exfalso
    obtain ⟨before, after, hletter, hlist⟩ := Grammar.spread_tokens h.two_le hspread
    rw [hreference, hlist, List.append_assoc, spellAll_append, spellAll_append s₁.tokens.toList]
      at htext
    exact spellAll_backReference_ne hletter (List.append_cancel_left htext)
  · -- list marks and labels would make the text longer
    obtain ⟨t', hspread', -, hlength⟩ := Grammar.shortens_tuple elements _ _ s₁ htuple (.refl s₁)
    obtain rfl := (hspread'.mono (Nat.le_trans hi hj)).unique hspread
    have hequal := congrArg List.length htext
    rw [spellAll_append, List.length_append, hsame] at hequal
    unfold Progress.textLength at hlength
    have hnolabel : (elements.countP fun e => e.label.isSome) = 0 := by omega
    have hclosing : (spellAll (closingTokens k)).length = 0 := by omega
    refine ⟨Nat.pos_of_ne_zero ?_, ?_, s₁, hresult, hnew⟩
    · rintro rfl
      cases hclosing
    · simpa using hnolabel

/-- The function that takes a tuple and the one that takes its elements have one debugger name
exactly if the tuple is in parentheses, has no labels, and is not met in the result. -/
theorem tupleParameter_merged_iff
    (h : m.program.TupleParameter k u elements r packed spread) (context : Option Context) :
    (∃ x, m.mangle (.typeForDebugger packed context) = .ok x ∧
        m.mangle (.typeForDebugger spread context) = .ok x) ↔
      (∃ x, m.mangle (.typeForDebugger packed context) = .ok x) ∧ 0 < k ∧
        (∀ e ∈ elements, e.label = none) ∧
        NodeKey.type u ∉ m.nodesIn (.typeForDebugger r context) := by
  obtain ⟨v, -, hpacked⟩ := h.packed
  constructor
  · rintro ⟨x, hx, hx'⟩
    obtain ⟨n, s, hn, hs, rfl⟩ := (mangle_debugger_eq_ok hpacked).1 hx
    obtain ⟨n', s', hn', hs', htext⟩ := (mangle_debugger_eq_ok h.spread).1 hx'
    obtain rfl : n' = n := by omega
    have htext := symbol_injective htext
    rw [spellAll_append, spellAll_append s'.tokens.toList] at htext
    obtain ⟨hk, hlabels, s₁, hresult, hnew⟩ :=
      of_same_text h hs hs' (List.append_cancel_right htext)
    refine ⟨⟨_, hx⟩, hk, hlabels, ?_⟩
    rw [nodesIn_eq (by omega) hresult]
    have htabled := hresult.tabled .empty
    rw [htabled.number] at hnew
    simpa using hnew
  · rintro ⟨⟨x, hx⟩, hk, hlabels, hnew⟩
    refine ⟨x, hx, ?_⟩
    obtain ⟨n, s, hn, hs, rfl⟩ := (mangle_debugger_eq_ok hpacked).1 hx
    obtain ⟨s₁, s₂, j, hresult, hj, hnode, htokens⟩ :=
      Grammar.writes_packed (g := m.grammar true) (by simp [grammar]) h hs
    rw [nodesIn_eq (by omega) hresult] at hnew
    -- not met in the result, the tuple has no number yet and is spelled out
    obtain ⟨i, hi, -⟩ | ⟨-, i, t, hi, htuple, hsame⟩ :=
      Grammar.writes_tuple_node (g := m.grammar true) rfl h.tuple hnode
    · rw [(hresult.tabled .empty).number] at hi
      exact absurd (List.isSome_idxOf?.1 (by rw [hi]; rfl)) hnew
    · rw [Grammar.tuple_eq_spreadPieces (g := m.grammar true) hlabels] at htuple
      refine (mangle_debugger_eq_ok h.spread).2 ⟨n, t.emit (.op (.repr .native)), hn,
        (Grammar.writes_spread (g := m.grammar true) h).2
          ⟨s₁, t, hresult, htuple.mono (Nat.le_trans hi hj), rfl⟩, ?_⟩
      rw [htokens, hsame, closingTokens, if_neg (by omega)]
      simp

/-- The tuple of two builtin integers, by itself and in parentheses, and functions that take it
or its elements, with the empty tuple and the tuple as their results. -/
def tupleParameterProgram : Program :=
  Program.empty.build
    [.type (.tuple [⟨none, ⟨1⟩⟩, ⟨none, ⟨2⟩⟩]), .type (.paren ⟨12⟩),
      .type (.function { params := [⟨⟨13⟩, {}⟩], result := ⟨0⟩ }),
      .type (.function { params := [⟨⟨1⟩, {}⟩, ⟨⟨2⟩, {}⟩], result := ⟨0⟩ }),
      .type (.function { params := [⟨⟨13⟩, {}⟩], result := ⟨12⟩ }),
      .type (.function { params := [⟨⟨1⟩, {}⟩, ⟨⟨2⟩, {}⟩], result := ⟨12⟩ })]

theorem tupleParameterProgram_parens : tupleParameterProgram.types.Parens 1 ⟨13⟩ ⟨12⟩ :=
  .paren (by decide +kernel) .none

/-- Where the tuple is the result as well it is referred to as a parameter, and the names
differ. -/
theorem tupleParameter_merged_iff_result :
    let m : Mangler := { program := tupleParameterProgram }
    m.program.TupleParameter 1 ⟨12⟩ [⟨none, ⟨1⟩⟩, ⟨none, ⟨2⟩⟩] ⟨12⟩ ⟨18⟩ ⟨19⟩ ∧
      m.mangle (.typeForDebugger ⟨18⟩ none) = .ok "$qBi8__Bi16_tAacD" ∧
      m.mangle (.typeForDebugger ⟨19⟩ none) = .ok "$qBi8__Bi16_tBi8__Bi16_tcD" ∧
      ((∃ x, m.mangle (.typeForDebugger ⟨18⟩ none) = .ok x ∧
          m.mangle (.typeForDebugger ⟨19⟩ none) = .ok x) ↔
        (∃ x, m.mangle (.typeForDebugger ⟨18⟩ none) = .ok x) ∧ 0 < 1 ∧
          (∀ e ∈ [(⟨none, ⟨1⟩⟩ : TupleElement), ⟨none, ⟨2⟩⟩], e.label = none) ∧
          NodeKey.type ⟨12⟩ ∉ m.nodesIn (.typeForDebugger ⟨12⟩ none)) := by
  intro m
  have hfunctions : m.program.TupleParameter 1 ⟨12⟩ [⟨none, ⟨1⟩⟩, ⟨none, ⟨2⟩⟩] ⟨12⟩ ⟨18⟩ ⟨19⟩ :=
    ⟨by decide +kernel, by decide, ⟨⟨13⟩, tupleParameterProgram_parens, by decide +kernel⟩,
      by decide +kernel⟩
  exact ⟨hfunctions, by decide +kernel, by decide +kernel,
    tupleParameter_merged_iff hfunctions none⟩

/-- A tuple in parentheses and its elements as parameters have one debugger name. -/
theorem tupleParameter_merged :
    let m : Mangler := { program := tupleParameterProgram }
    m.program.TupleParameter 1 ⟨12⟩ [⟨none, ⟨1⟩⟩, ⟨none, ⟨2⟩⟩] ⟨0⟩ ⟨15⟩ ⟨16⟩ ∧
      m.mangle (.typeForDebugger ⟨15⟩ none) = .ok "$qytBi8__Bi16_tcD" ∧
      m.mangle (.typeForDebugger ⟨16⟩ none) = .ok "$qytBi8__Bi16_tcD" := by
  intro m
  exact ⟨⟨by decide +kernel, by decide, ⟨⟨13⟩, tupleParameterProgram_parens, by decide +kernel⟩,
    by decide +kernel⟩, by decide +kernel, by decide +kernel⟩

end Mangler

end NameMangling
