/-
# Repeated types

A canonical type that is spelled first of all leaves its node with a number: a plain nominal
type that of its declaration, any other type that is a node its own, whatever nodes its parts
have completed on the way.  From then on it is written as a reference to that number.  Builtin
types, generic parameters and the reserved types of the standard library are no nodes; they are
as short as a reference and are written out each time.

Main definitions:
* `Grammar.nodeOf?`, the node under which a canonical type is found again;
* `Grammar.Repeats`, the tokens that a type is written with from some state on.

Main fact: `Session.repeated_types_refer_back`.
-/
import NameMangling.Proofs.Adequacy
import NameMangling.Proofs.CompositionOrder
import NameMangling.Proofs.Leads
import NameMangling.Proofs.NominalPaths

namespace NameMangling

/-- A tuple of canonical types is canonical. -/
theorem Arena.Settled.isCanonical_tuple {a : Arena} {u : TypeId} (ha : a.Settled)
    {elements : List TupleElement} (hu : a.node u = .tuple elements)
    (h : ∀ e ∈ elements, a.isCanonical e.type = true) : a.isCanonical u = true := by
  have hlt : u.index < a.size := lt_of_node_ne (by simp [hu])
  rw [ha.isCanonical_iff_parts hlt, hu]
  refine ⟨rfl, fun v hv => ?_⟩
  obtain ⟨e, he, rfl⟩ := List.mem_map.mp hv
  exact h e he

namespace Program

/-- To the program with conformances, the tuple of three copies of `B<A<I>>`. -/
def copiesSteps : List BuildStep :=
  conformanceSteps ++ [.type (.tuple (List.replicate 3 ⟨none, ⟨16⟩⟩))]

/-- The program with a tuple of copies. -/
def copiesProgram : Program := empty.build copiesSteps

theorem copiesProgram_built : copiesProgram.Built :=
  ⟨⟨copiesSteps, by decide +kernel, rfl⟩, by decide +kernel⟩

end Program

/-! ## Writing a type again -/

namespace Grammar

variable {g : Grammar} {w : Spelling} {n k : Nat} {scope : Scope} {t u : TypeId} {key : NodeKey}
  {s s₁ s' : Progress} {again : List Token}

/-- The node under which a canonical type is found again, if it is one: its declaration for a
nominal type by itself, unless that has a reserved spelling, and else the type. -/
def nodeOf? (g : Grammar) (t : TypeId) : Option NodeKey :=
  match g.program.types.node t with
  | .emptyTuple | .builtinInt _ | .builtinFloat _ | .builtinWord | .rawPointer | .nativeObject
  | .unknownObject | .bridgeObject | .genericParam _ => none
  | .nominal d none => if (g.standardName? d).isSome then none else some (.decl d)
  | _ => some (.type t)

/-- A nominal declaration is written as its reserved spelling or as its node. -/
theorem nominal_cases (g : Grammar) (scope : Scope) (d : DeclId) :
    (∃ e, g.nominal scope d = [.fail e]) ∨
    (g.standardName? d).isSome = true ∧ (∃ token, g.nominal scope d = [.token token]) ∨
    (g.standardName? d).isSome = false ∧ ∃ r, g.nominal scope d = [.node scope (.decl d) r] := by
  unfold nominal
  split
  · exact .inl ⟨_, rfl⟩
  · split
    · rename_i name hname
      exact .inr (.inl ⟨by rw [hname]; rfl, _, rfl⟩)
    · rename_i hname
      have hnone : (g.standardName? d).isSome = false := by rw [hname]; rfl
      split
      · exact .inr (.inr ⟨hnone, _, rfl⟩)
      · split
        · exact .inr (.inr ⟨hnone, _, rfl⟩)
        · exact .inl ⟨_, rfl⟩

/-- A type without sugar that is accepted is refused for another reason, or it is written in
tokens alone, or as its node. -/
theorem type_cases (hsugar : (g.program.types.node t).desugared? = none)
    (haccepts : (!g.acceptsSugar && !g.program.types.isCanonical t) = false)
    (howner : scope.owner = none) :
    (∃ e, g.type scope t = [.fail e]) ∨
    g.nodeOf? t = none ∧ (∃ tokens : List Token, g.type scope t = tokens.map .token) ∨
    ∃ key r, g.nodeOf? t = some key ∧ g.type scope t = [.node scope key r] := by
  unfold type nodeOf?
  rw [if_neg (by simp [haccepts])]
  cases hnode : g.program.types.node t with
  | emptyTuple => exact .inr (.inl ⟨rfl, [.op .emptyTuple], rfl⟩)
  | builtinInt width => exact .inr (.inl ⟨rfl, [.op .builtinInt, .count width], rfl⟩)
  | builtinFloat width => exact .inr (.inl ⟨rfl, [.op .builtinFloat, .count width], rfl⟩)
  | builtinWord => exact .inr (.inl ⟨rfl, [.op .builtinWord], rfl⟩)
  | rawPointer => exact .inr (.inl ⟨rfl, [.op .rawPointer], rfl⟩)
  | nativeObject => exact .inr (.inl ⟨rfl, [.op .nativeObject], rfl⟩)
  | unknownObject => exact .inr (.inl ⟨rfl, [.op .unknownObject], rfl⟩)
  | bridgeObject => exact .inr (.inl ⟨rfl, [.op .bridgeObject], rfl⟩)
  | genericParam key =>
    dsimp only
    unfold genericParam
    dsimp only
    split
    · exact .inr (.inl ⟨rfl, key.tokens, rfl⟩)
    · exact .inl ⟨_, rfl⟩
  | nominal d parent =>
    cases parent with
    | some v => exact .inr (.inr ⟨_, _, rfl, rfl⟩)
    | none =>
      dsimp only
      -- a reserved name is written as one token, and is no node
      rcases g.nominal_cases scope d with hfail | ⟨hname, token, htoken⟩ | ⟨hname, r, hr⟩
      · exact .inl hfail
      · exact .inr (.inl ⟨by rw [if_pos hname], [token], htoken⟩)
      · exact .inr (.inr ⟨.decl d, r, by rw [hname]; rfl, hr⟩)
  | opaqueResult d ordinal args =>
    dsimp only
    rw [if_neg (by simp [isOwnResult, howner])]
    exact .inr (.inr ⟨_, _, rfl, rfl⟩)
  | aliased | paren | optionalSugar | arraySugar | dictionarySugar =>
    rw [hnode] at hsugar
    cases hsugar
  | metatype | existentialMetatype | boundGeneric | tuple | function | lowered | existential
    | dependentMember => exact .inr (.inr ⟨_, _, rfl, rfl⟩)

/-- Where `s` has given numbers to nodes, and as long as no others get any, the type is written
with the given tokens. -/
def Repeats (g : Grammar) (w : Spelling) (t : TypeId) (s : Progress) (again : List Token) :
    Prop :=
  ∀ u : Progress, u.number? = s.number? → ∃ u', g.Writes w 1 [.type outermost t] u u' ∧
    u'.tokens.toList = u.tokens.toList ++ again ∧ u'.number? = s.number?

/-- Copies of a type are written one after the other. -/
theorem Repeats.copies (h : g.Repeats w t s again) (k : Nat) {u : Progress}
    (hu : u.number? = s.number?) :
    ∃ u', g.Writes w 1 (List.replicate k (.type outermost t)) u u' ∧
      u'.tokens.toList = u.tokens.toList ++ (List.replicate k again).flatten ∧
      u'.number? = s.number? := by
  induction k generalizing u with
  | zero => exact ⟨u, .nil, by simp, hu⟩
  | succ k ih =>
    obtain ⟨u₁, hfirst, htokens₁, hnumbers₁⟩ := h u hu
    obtain ⟨u', hrest, htokens, hnumbers⟩ := ih hnumbers₁
    refine ⟨u', ?_, ?_, hnumbers⟩
    · rw [List.replicate_succ, ← List.singleton_append]
      exact writes_append.mpr ⟨u₁, hfirst, hrest⟩
    · rw [htokens, htokens₁, List.replicate_succ, List.flatten_cons, List.append_assoc]

/-- A type that is written in tokens alone is always written so. -/
theorem repeats_tokens {tokens : List Token} (h : g.type outermost t = tokens.map .token)
    (s : Progress) : g.Repeats w t s tokens := by
  intro u hu
  obtain ⟨u', hwrites⟩ := exists_writes_tokens (g := g) (w := w) (n := 0) tokens u
  obtain ⟨htokens, hnodes⟩ := writes_tokens hwrites
  refine ⟨u', .phrase ?_ .nil, htokens, ?_⟩
  · show g.Writes w 0 (g.type outermost t) u u'
    rw [h]
    exact hwrites
  · rw [← hu]
    funext key
    rw [Progress.number?, hnodes]
    rfl

/-- A type whose node has a number is written as a reference to it. -/
theorem repeats_reference (hplaces : w.placesReferent = fun _ => false)
    (hback : w.refersBack = true) {r : Option Referent}
    (h : g.type outermost t = [.node outermost key r]) (hk : s.number? key = some k) :
    g.Repeats w t s [.backReference k] := by
  intro u hu
  have hshort : w.shorthand? u key r = some (.backReference k) := by
    simp [Spelling.shorthand?, hplaces, hback, hu, hk]
  refine ⟨u.emit (.backReference k), .phrase ?_ .nil, by simp, hu⟩
  show g.Writes w 0 (g.type outermost t) u _
  rw [h]
  exact .short hshort .nil

/-- A node that has been written has a number, unless it was written as a placeholder. -/
theorem Writes.number?_of_node (hplaces : w.placesReferent = fun _ => false) {r : Option Referent}
    (h : g.Writes w n [.node scope key r] s s') : ∃ k, s'.number? key = some k := by
  cases h with
  | short hshort after =>
    cases after
    obtain ⟨r', -, hplaced, -⟩ | ⟨-, k, hk, -⟩ := Spelling.shorthand?_eq_some hshort
    · rw [hplaces] at hplaced
      cases hplaced
    · exact ⟨k, hk⟩
  | @spelled _ _ _ _ _ _ s₁ _ hnone inside after =>
    cases after
    rw [Progress.number?_complete, if_pos rfl]
    cases s₁.number? key with
    | some k => exact ⟨k, rfl⟩
    | none => exact ⟨_, rfl⟩

/-- What a type is written with once it has been spelled first of all: what it was spelled with,
or a reference to its node. -/
theorem Writes.repeats (hplaces : w.placesReferent = fun _ => false) (hback : w.refersBack = true)
    (hsugar : (g.program.types.node t).desugared? = none)
    (haccepts : (!g.acceptsSugar && !g.program.types.isCanonical t) = false)
    (h : g.Writes w n (g.type outermost t) {} s) :
    g.nodeOf? t = none ∧ g.Repeats w t s s.tokens.toList ∨
      ∃ key k, g.nodeOf? t = some key ∧ s.number? key = some k ∧
        g.Repeats w t s [.backReference k] := by
  have howner : outermost.owner = none := rfl
  -- tokens are written again, a node is referred back to
  rcases type_cases hsugar haccepts howner with
    ⟨e, hfail⟩ | ⟨hnode, tokens, htokens⟩ | ⟨key, r, hnode, hr⟩
  · rw [hfail] at h
    nomatch h
  · left
    have hwrites := h
    rw [htokens] at hwrites
    have hwritten : s.tokens.toList = tokens := (writes_tokens hwrites).1
    exact ⟨hnode, hwritten ▸ repeats_tokens htokens s⟩
  · right
    have hwrites := h
    rw [hr] at hwrites
    obtain ⟨k, hk⟩ := hwrites.number?_of_node hplaces
    exact ⟨key, k, hnode, hk, repeats_reference hplaces hback hr hk⟩

/-! ## Tuples of copies -/

/-- The body of a tuple of equal types is the type, the mark of the list and the type again and
again. -/
theorem production_tuple_body {k : Nat}
    (hu : g.program.types.node u = .tuple (List.replicate (k + 1) ⟨none, t⟩)) :
    g.production outermost (.body (.type u)) = [.type outermost t] ++
      ([.op .firstOfList] ++ (List.replicate k (.type outermost t) ++ [.op .tuple])) := by
  simp [production, structural, hu, tuple, List.replicate_succ, markFirst, label]

/-- A tuple of copies of a type is written as the first copy and what it is repeated with. -/
theorem Writes.tuple (hu : g.program.types.node u = .tuple (List.replicate (k + 1) ⟨none, t⟩))
    (haccepts : (!g.acceptsSugar && !g.program.types.isCanonical u) = false)
    (h : g.Writes w (n + 1) [.type outermost t] {} s) (hagain : g.Repeats w t s again) :
    ∃ s', g.Writes w (n + 3) [.type outermost u] {} s' ∧
      s'.tokens.toList = s.tokens.toList ++ [.op .firstOfList] ++
        (List.replicate k again).flatten ++ [.op .tuple] ∧
      ∀ key i, s.number? key = some i → s'.number? key = some i := by
  have hnode : g.production outermost (.type u) = [.node outermost (.type u) none] := by
    show g.type outermost u = _
    unfold type
    rw [if_neg (by simp [haccepts]), hu]
  -- the copies behind the first one complete nothing new, so the numbers stand
  obtain ⟨s₁, hcopies, htokens, hnumbers⟩ := hagain.copies k (u := s.emit (.op .firstOfList)) rfl
  refine ⟨(s₁.emit (.op .tuple)).complete (.type u) 0, ?_, ?_, fun key i hi => ?_⟩
  · have hbody : g.Writes w (n + 1) (g.production outermost (.body (.type u))) {}
        (s₁.emit (.op .tuple)) := by
      rw [production_tuple_body hu]
      refine writes_append.mpr ⟨s, h, writes_append.mpr ⟨_, .token .nil, ?_⟩⟩
      exact writes_append.mpr ⟨s₁, hcopies.mono (Nat.le_add_left 1 n), .token .nil⟩
    refine .phrase ?_ .nil
    rw [hnode]
    exact .spelled (shorthand?_empty rfl) hbody .nil
  · rw [Progress.complete_tokens, Progress.emit_tokens, Array.toList_push, htokens]
    simp
  · rw [Progress.number?_complete, Progress.number?_emit, hnumbers, hi]
    rfl

/-- Where a canonical type can be written, so can the tuple of copies of it: as the type, and then
for each further copy as what the type is repeated with. -/
theorem exists_writes_copies (hbuilt : g.program.Built)
    (hplaces : w.placesReferent = fun _ => false) (hback : w.refersBack = true)
    (ht : g.program.types.isCanonical t = true)
    (hu : g.program.types.node u = .tuple (List.replicate (k + 1) ⟨none, t⟩))
    (h : g.Writes w g.depthBound [.type outermost t] {} s) :
    ∃ again s', g.Writes w g.depthBound [.type outermost u] {} s' ∧
      s'.tokens.toList = s.tokens.toList ++ [.op .firstOfList] ++
        (List.replicate k again).flatten ++ [.op .tuple] ∧
      match g.nodeOf? t with
      | none => again = s.tokens.toList
      | some key => ∃ i, s.number? key = some i ∧ s'.number? key = some i ∧
          again = [.backReference i] := by
  have hp := hbuilt.sound
  have haccepts {v : TypeId} (hv : g.program.types.isCanonical v = true) :
      (!g.acceptsSugar && !g.program.types.isCanonical v) = false := by
    rw [hv, Bool.not_true, Bool.and_false]
  have hcopies : g.program.types.isCanonical u = true :=
    hp.settled.isCanonical_tuple hu fun e he => by rw [List.eq_of_mem_replicate he]; exact ht
  -- the tuple nests the type two levels deeper, for which the bound leaves room
  obtain ⟨n, hn⟩ := Nat.exists_eq_add_of_le' g.five_le_depthBound
  have hwrites := h.within_depthBound hbuilt (g.opens_vocabulary_type {} t)
  rw [hn, show n + 5 - 2 = n + 2 + 1 from rfl] at hwrites
  have htype : g.Writes w (n + 2) (g.type outermost t) {} s := by
    cases hwrites with
    | phrase inside after =>
      cases after
      exact inside
  have hsugar := hp.settled.desugared?_of_isCanonical hp.nonempty ht
  rw [hn]
  rcases htype.repeats hplaces hback hsugar (haccepts ht) with
    ⟨hnode, hagain⟩ | ⟨key, i, hnode, hi, hagain⟩
  · obtain ⟨s', htuple, htokens, -⟩ := hwrites.tuple hu (haccepts hcopies) hagain
    refine ⟨_, s', htuple, htokens, ?_⟩
    rw [hnode]
  · obtain ⟨s', htuple, htokens, hnumbers⟩ := hwrites.tuple hu (haccepts hcopies) hagain
    refine ⟨_, s', htuple, htokens, ?_⟩
    rw [hnode]
    exact ⟨i, hi, hnumbers key i hi, rfl⟩

end Grammar

/-! ## Symbols -/

namespace Mangler

/-- The text of a tuple of copies. -/
theorem symbol_copies (first again : List Token) (k : Nat) :
    symbol "" (first ++ [.op .firstOfList] ++ (List.replicate k again).flatten ++ [.op .tuple]) =
      symbol "" first ++ "_" ++ String.join (List.replicate k (symbol "" again)) ++ "t" := by
  have hsymbol (ts : List Token) : (symbol "" ts).toList = spellAll ts := by simp [symbol]
  have hjoin : (List.replicate k (symbol "" again)).flatMap String.toList =
      (List.replicate k (spellAll again)).flatten := by
    simp [List.flatMap_def, hsymbol]
  have hmark : spellAll [.op .firstOfList] = "_".toList := rfl
  have hend : spellAll [.op .tuple] = "t".toList := rfl
  apply String.ext
  rw [hsymbol, spellAll_append, spellAll_append, spellAll_append, spellAll_flatten,
    List.map_replicate, hmark, hend, String.toList_append, String.toList_append,
    String.toList_append, String.toList_join, hjoin, hsymbol]

/-- Where placeholders are off a type without a lead is written as the grammar says. -/
theorem written?_typeWithoutLead {m : Mangler} (hoff : m.options.allowsPlaceholders = false)
    {t : TypeId} {p : Progress} : m.written? (.typeWithoutLead t) = some p ↔
      (m.grammar false).Writes { placesReferent := fun _ => false } (m.grammar false).depthBound
        [.type Grammar.outermost t] {} p := by
  rw [written?_eq_some]
  constructor
  · rintro ⟨plan, hplan, hwrites⟩
    cases hplan
    rw [placesReferent_of_off hoff] at hwrites
    exact hwrites
  · intro hwrites
    refine ⟨_, rfl, ?_⟩
    rw [placesReferent_of_off hoff]
    exact hwrites

end Mangler

namespace Session

variable {s : Session} {r : Request}

/-- A request that is answered with a symbol leaves the numbers that spelling has given. -/
theorem number?_of_written {p : Progress} (h : s.mangler.written? r = some p) (key : NodeKey) :
    (s.request r).2.nodes.number? key = p.number? key := by
  obtain ⟨plan, hplan, hwrites⟩ := Mangler.written?_eq_some.1 h
  have hwrite : s.mangler.write plan = .ok () p := Grammar.pieces_ok_iff.2 hwrites
  unfold request
  cases hcommand : s.command r with
  | error e =>
    rw [s.plan_of_command_error (n := (s.mangler.grammar false).depthBound) hcommand] at hplan
    cases hplan
  | ok c =>
    obtain ⟨plan', hplan', -, hends⟩ := s.body_endAlike_write hcommand
    rw [hplan] at hplan'
    cases hplan'
    dsimp only
    unfold perform
    -- the plan is written, so the body of the command ends as well, with the same numbers
    rw [hwrite] at hends
    generalize c.body.run (s.start c) = result at hends
    cases hends with
    | ok hframe hmirrors => exact hmirrors.number? key

/-- Repetition collapses to references.  Where placeholders are off and a canonical type has a
symbol, the tuple of `n` copies of it is written as that symbol, a mark, and `n - 1` times what
stands for a repeated type: the symbol once more for what is no node, and otherwise a reference
to the number that the first copy has left for its node, alone as well as in the tuple. -/
theorem repeated_types_refer_back (m : Mangler) (history history' : List Request)
    (hbuilt : m.program.Built) (hoff : m.options.allowsPlaceholders = false) {t u : TypeId}
    (ht : m.program.types.isCanonical t = true) {n : Nat} (hn : 2 ≤ n)
    (hu : m.program.types.node u = .tuple (List.replicate n ⟨none, t⟩)) {text : String}
    (htext : ((m.inUse history).request (.typeWithoutLead t)).1 = .ok text) :
    let single := (m.inUse history).request (.typeWithoutLead t)
    let copies := (m.inUse history').request (.typeWithoutLead u)
    ∃ again, copies.1 = .ok (text ++ "_" ++ String.join (List.replicate (n - 1) again) ++ "t") ∧
      match (m.grammar false).nodeOf? t with
      | none => again = text
      | some key => ∃ k, single.2.nodes.number? key = some k ∧
          copies.2.nodes.number? key = some k ∧ again = String.ofList (spellBackReference k) := by
  intro single copies
  have hs : (m.inUse history).mangler = m := Mangler.mangler_inUse history
  have hs' : (m.inUse history').mangler = m := Mangler.mangler_inUse history'
  obtain ⟨k, rfl⟩ := Nat.exists_eq_add_of_le' (Nat.le_of_succ_le hn)
  rw [request_eq_mangle, hs] at htext
  obtain ⟨plan, p, hplan, hp, rfl⟩ := Mangler.mangle_eq_ok.1 htext
  cases hplan
  obtain ⟨again, p', hwrites, htokens, hagain⟩ := Grammar.exists_writes_copies hbuilt rfl rfl ht hu
    ((Mangler.written?_typeWithoutLead hoff).1 hp)
  have hp' := (Mangler.written?_typeWithoutLead hoff).2 hwrites
  -- both sessions number nodes as the grammar does
  have hsingle : ∀ key, single.2.nodes.number? key = p.number? key :=
    number?_of_written (hs.symm ▸ hp)
  have hcopies : ∀ key, copies.2.nodes.number? key = p'.number? key :=
    number?_of_written (hs'.symm ▸ hp')
  refine ⟨Mangler.symbol "" again, ?_, ?_⟩
  · show ((m.inUse history').request (.typeWithoutLead u)).1 = _
    rw [request_eq_mangle, hs']
    refine Mangler.mangle_eq_ok.2 ⟨_, p', rfl, hp', ?_⟩
    rw [htokens]
    exact (Mangler.symbol_copies _ _ _).symm
  · simp only [hsingle, hcopies]
    cases hnode : (m.grammar false).nodeOf? t with
    | none =>
      rw [hnode] at hagain
      have hagain : again = p.tokens.toList := hagain
      rw [hagain]
    | some key =>
      rw [hnode] at hagain
      obtain ⟨i, hi, hi', rfl⟩ := hagain
      exact ⟨i, hi, hi', by simp [Mangler.symbol, spellAll, Token.spelling]⟩

/-- `B<A<I>>`, which relies on a conformance from another module and completes eight nodes, three
times. -/
theorem repeated_types_refer_back_conformances :
    let m : Mangler := { program := .copiesProgram }
    let s := m.inUse [.nominalType ⟨5⟩]
    let text := "1M1BVAa1AVAa1IV_G_AeAa1PP1NAdAfAgyHC_HCg_G"
    m.program.Built ∧ m.options.allowsPlaceholders = false ∧
      m.program.types.isCanonical ⟨16⟩ = true ∧
      m.program.types.node ⟨17⟩ = .tuple (List.replicate 3 ⟨none, ⟨16⟩⟩) ∧
      (s.request (.typeWithoutLead ⟨16⟩)).1 = .ok text ∧
      (s.request (.typeWithoutLead ⟨16⟩)).2.nodes.number? (.type ⟨16⟩) = some 7 ∧
      (s.request (.typeWithoutLead ⟨17⟩)).1 = .ok (text ++ "_" ++ "AhAh" ++ "t") := by
  intro m s text
  have hcanonical : m.program.types.isCanonical ⟨16⟩ = true := by decide +kernel
  have hnode : m.program.types.node ⟨17⟩ = .tuple (List.replicate 3 ⟨none, ⟨16⟩⟩) := by
    decide +kernel
  have htext : (s.request (.typeWithoutLead ⟨16⟩)).1 = .ok text := by decide +kernel
  have hnumber : (s.request (.typeWithoutLead ⟨16⟩)).2.nodes.number? (.type ⟨16⟩) = some 7 := by
    decide +kernel
  have hkey : (m.grammar false).nodeOf? ⟨16⟩ = some (.type ⟨16⟩) := by decide +kernel
  refine ⟨Program.copiesProgram_built, rfl, hcanonical, hnode, htext, hnumber, ?_⟩
  obtain ⟨again, hcopies, hagain⟩ := repeated_types_refer_back m [.nominalType ⟨5⟩]
    [.nominalType ⟨5⟩] Program.copiesProgram_built rfl hcanonical (by decide) hnode htext
  rw [hkey] at hagain
  obtain ⟨k, hk, -, rfl⟩ := hagain
  obtain rfl : k = 7 := Option.some.inj (hk.symm.trans hnumber)
  exact hcopies

end Session

end NameMangling
