/-
# The order of protocols in names

Two programs that declare the same protocols give a composition of them one name if they
declare them in the same relative order, whatever else they declare and in between.  If the
relative orders differ, so do the names.

Main definition: `SameOrder`, that two programs declare protocols in one relative order.

Main facts:
* `eq_of_compositionTokens_eq`: the protocols and their order can be read off a name;
* `Mangler.compositionName_sameOrder`: the name follows the order of declaration;
* `compositionName_otherOrder`: two programs that give one composition two names.
-/
import Mathlib.Data.List.Pairwise
import Mathlib.Data.List.Sort
import NameMangling.Proofs.Compositions

namespace NameMangling

variable {xs ys : List QualifiedName} {table : List ListedNode}

/-! ## One order, one text -/

section Texts

variable {placeholder? placeholder?' : QualifiedName → Option Referent}

/-- The text of rows one behind the other is made of the texts of the rows. -/
theorem spellAll_flatten (rows : List (List Token)) :
    spellAll rows.flatten = (rows.map spellAll).flatten := by
  induction rows with
  | nil => rfl
  | cons row rows ih =>
    rw [List.flatten_cons, spellAll_append, ih, List.map_cons, List.flatten_cons]

/-- The text of a list is made of the texts of its items. -/
theorem spellAll_listTokens_congr {items items' : List (List Token)}
    (h : items.map spellAll = items'.map spellAll) :
    spellAll (listTokens items) = spellAll (listTokens items') := by
  cases items with
  | nil =>
    cases items' with
    | nil => rfl
    | cons => cases h
  | cons first rest =>
    cases items' with
    | nil => cases h
    | cons first' rest' =>
      obtain ⟨hfirst, hrest⟩ := List.cons.inj h
      have hmark : ∀ items : List (List Token), spellAll (.op .firstOfList :: items.flatten) =
          spellAll [.op .firstOfList] ++ (items.map spellAll).flatten := by
        intro items
        rw [← spellAll_flatten, ← spellAll_append, List.singleton_append]
      rw [listTokens, listTokens, spellAll_append, spellAll_append, hfirst, hmark, hmark, hrest]

/-- Placeholders that look the same make the same texts. -/
theorem map_spellAll_rowTokens (h : ∀ x ∈ xs,
    (placeholder? x).map Referent.spelling = (placeholder?' x).map Referent.spelling) :
    (rowTokens placeholder? table xs).map spellAll =
      (rowTokens placeholder?' table xs).map spellAll := by
  induction xs generalizing table with
  | nil => rfl
  | cons x xs ih =>
    -- the first protocol leaves both tables the same, which the rest is written with
    have hfirst : spellAll (protocolTokens placeholder? table x) =
          spellAll (protocolTokens placeholder?' table x) ∧
        tableAfter placeholder? table x = tableAfter placeholder?' table x := by
      have hx := h x (by simp)
      unfold protocolTokens tableAfter
      cases hr : placeholder? x <;> cases hr' : placeholder?' x <;> rw [hr, hr'] at hx
      case none.none => exact ⟨rfl, rfl⟩
      case some.some =>
        refine ⟨?_, rfl⟩
        simpa [spellAll, Token.spelling] using hx
      all_goals cases hx
    rw [rowTokens, rowTokens, List.map_cons, List.map_cons, hfirst.1, hfirst.2,
      ih fun y hy => h y (by simp [hy])]

/-- The text of a composition depends on what its placeholders look like only. -/
theorem spellAll_compositionTokens (h : ∀ x ∈ xs,
    (placeholder? x).map Referent.spelling = (placeholder?' x).map Referent.spelling)
    (anyObject : Bool) : spellAll (compositionTokens placeholder? xs anyObject) =
      spellAll (compositionTokens placeholder?' xs anyObject) := by
  rw [compositionTokens, compositionTokens, spellAll_append, spellAll_append,
    spellAll_listTokens_congr (map_spellAll_rowTokens h)]

end Texts

/-! ## One text, one order -/

/-- What is written for protocols in a row without placeholders. -/
def plainRow (table : List ListedNode) (xs : List QualifiedName) : List (List Token) :=
  rowTokens (fun _ => none) table xs

/-- Some tokens would go on with a name in front of them, as they begin with what tells a
declaration apart from others of its name. -/
def continuesName : List Token → Bool
  | .op .localName :: _ | .identifier _ :: .op .privateName :: _ => true
  | _ => false

/-- Where a name ends can be seen from what follows. -/
theorem DeclName.tokens_append_inj {n n' : DeclName} {ts us : List Token}
    (h : n.tokens ++ ts = n'.tokens ++ us) (hts : continuesName ts = false)
    (hus : continuesName us = false) : n.tokens = n'.tokens ∧ ts = us := by
  obtain ⟨_, spelled, discriminator⟩ := n
  obtain ⟨_, spelled', discriminator'⟩ := n'
  -- names that end at different places differ in whether a discriminator is left over
  rcases discriminator with _ | _ | _ <;> rcases discriminator' with _ | _ | _ <;>
    simp_all [DeclName.tokens, discriminatedName, Discriminator.tokens, continuesName]
  case some.localNumber.none | some.file.none =>
    obtain ⟨-, rfl⟩ := h
    cases hus

/-- A name in front of the operator of protocols ends where it seems to end. -/
theorem continuesName_protocol (n : DeclName) (ts : List Token) :
    continuesName (n.tokens ++ .op .protocolType :: ts) = false := by
  unfold DeclName.tokens discriminatedName
  rcases n.discriminator with _ | _ | _ <;> rfl

/-- A module is told by its name, or by the number of its node. -/
theorem moduleTokens_append_inj {n n' : DeclName} {ts us : List Token}
    (h : moduleTokens table n ++ ts = moduleTokens table n' ++ us)
    (hts : continuesName ts = false) (hus : continuesName us = false) :
    n.tokens = n'.tokens ∧ ts = us := by
  unfold moduleTokens at h
  cases hi : table.idxOf? (.module n) <;> cases hj : table.idxOf? (.module n') <;>
    rw [hi, hj] at h
  case none.none => exact DeclName.tokens_append_inj h hts hus
  case some.some i j =>
    obtain ⟨hindex, hrest⟩ := List.cons.inj h
    obtain rfl : i = j := by simpa using hindex
    obtain ⟨hlt, hfirst, -⟩ := List.idxOf?_eq_some_iff.1 hi
    obtain ⟨hlt', hsecond, -⟩ := List.idxOf?_eq_some_iff.1 hj
    have hnode := hfirst.symm.trans hsecond
    obtain rfl : n = n' := by simpa using hnode
    exact ⟨rfl, hrest⟩
  -- a reference is no name
  all_goals cases (List.cons.inj h).1

/-- What is written for the names of a protocol and its module. -/
def QualifiedName.spelling (x : QualifiedName) : List Token × List Token :=
  (x.module.tokens, x.name.tokens)

/-- What is written for a protocol without a placeholder. -/
def plainTokens (table : List ListedNode) (x : QualifiedName) : List Token :=
  protocolTokens (fun _ => none) table x

/-- A protocol is told by what is written for it, up to what is spelled alike, and so is where
it ends. -/
theorem plainTokens_append_inj {x y : QualifiedName} {ts us : List Token}
    (h : plainTokens table x ++ ts = plainTokens table y ++ us) :
    x.spelling = y.spelling ∧ ts = us := by
  simp only [plainTokens, protocolTokens, List.append_assoc, List.singleton_append] at h
  obtain ⟨hmodule, hrest⟩ := moduleTokens_append_inj h (continuesName_protocol _ _)
    (continuesName_protocol _ _)
  obtain ⟨hname, hrest⟩ := DeclName.tokens_append_inj hrest rfl rfl
  exact ⟨Prod.ext hmodule hname, (List.cons.inj hrest).2⟩

/-- A protocol that is spelled out begins with no operator. -/
theorem plainTokens_append_ne_op (x : QualifiedName) (ts us : List Token) (o : Operator) :
    plainTokens table x ++ ts ≠ .op o :: us := by
  intro h
  unfold plainTokens protocolTokens moduleTokens at h
  dsimp only at h
  split at h <;> cases (List.cons.inj h).1

/-- Protocols in a row are told by what is written for them, up to an operator. -/
theorem eq_of_plainRow_eq {o : Operator} (halike : ∀ x ∈ xs, ∀ y ∈ ys, x.spelling = y.spelling →
    x = y) (h : (plainRow table xs).flatten ++ [.op o] = (plainRow table ys).flatten ++ [.op o]) :
    xs = ys := by
  have hcons : ∀ (x : QualifiedName) (xs : List QualifiedName) (table : List ListedNode),
      (plainRow table (x :: xs)).flatten ++ [.op o] = plainTokens table x ++
        ((plainRow (tableAfter (fun _ => none) table x) xs).flatten ++ [.op o]) := by
    intro x xs table
    rw [plainRow, rowTokens, List.flatten_cons, List.append_assoc]
    rfl
  induction xs generalizing table ys with
  | nil =>
    cases ys with
    | nil => rfl
    -- the operator behind the shorter row cannot stand for a module
    | cons y ys =>
      exact absurd ((hcons y ys table).symm.trans h.symm) (plainTokens_append_ne_op y _ _ o)
  | cons x xs ih =>
    cases ys with
    | nil => exact absurd ((hcons x xs table).symm.trans h) (plainTokens_append_ne_op x _ _ o)
    | cons y ys =>
      rw [hcons, hcons] at h
      obtain ⟨hspelling, hrest⟩ := plainTokens_append_inj h
      obtain rfl : x = y := halike x (by simp) y (by simp) hspelling
      rw [ih (fun x hx y hy => halike x (by simp [hx]) y (by simp [hy])) hrest]

/-- The protocols of a composition and their order are told by what is written. -/
theorem eq_of_compositionTokens_eq {anyObject : Bool}
    (halike : ∀ x ∈ xs, ∀ y ∈ ys, x.spelling = y.spelling → x = y)
    (h : compositionTokens (fun _ => none) xs anyObject =
      compositionTokens (fun _ => none) ys anyObject) : xs = ys := by
  let last : Operator := if anyObject then .classComposition else .composition
  have hcons : ∀ (x : QualifiedName) (xs : List QualifiedName),
      compositionTokens (fun _ => none) (x :: xs) anyObject = plainTokens [] x ++
        .op .firstOfList :: ((plainRow (tableAfter (fun _ => none) [] x) xs).flatten ++
          [.op last]) := by
    intro x xs
    rw [compositionTokens, rowTokens, listTokens, List.append_assoc]
    rfl
  cases xs with
  | nil =>
    cases ys with
    | nil => rfl
    | cons y ys =>
      exact absurd ((hcons y ys).symm.trans h.symm) (plainTokens_append_ne_op y _ _ .emptyList)
  | cons x xs =>
    cases ys with
    | nil => exact absurd ((hcons x xs).symm.trans h) (plainTokens_append_ne_op x _ _ .emptyList)
    | cons y ys =>
      rw [hcons, hcons] at h
      obtain ⟨hspelling, hrest⟩ := plainTokens_append_inj h
      obtain rfl : x = y := halike x (by simp) y (by simp) hspelling
      rw [eq_of_plainRow_eq (fun x hx y hy => halike x (by simp [hx]) y (by simp [hy]))
        (List.cons.inj hrest).2]

/-! ## Cutting a name into tokens -/

/-- A protocol that is spelled out lexes in front of anything that does. -/
theorem lexes_plainTokens_append (x : QualifiedName) {ts : List Token} (h : Lexes .free ts) :
    Lexes .free (plainTokens table x ++ ts) := by
  have hname : Lexes .free (x.name.tokens ++ .op .protocolType :: ts) :=
    lexes_discriminatedName_append _ _ (.cons rfl h)
  simp only [plainTokens, protocolTokens, List.append_assoc, List.singleton_append]
  unfold moduleTokens
  split
  · exact .cons rfl hname
  · exact lexes_discriminatedName_append _ _ hname

/-- Protocols in a row lex in front of anything that does. -/
theorem lexes_plainRow_append {ts : List Token} (h : Lexes .free ts) :
    Lexes .free ((plainRow table xs).flatten ++ ts) := by
  induction xs generalizing table with
  | nil => exact h
  | cons x xs ih =>
    rw [plainRow, rowTokens, List.flatten_cons, List.append_assoc]
    exact lexes_plainTokens_append x ih

/-- A composition that is spelled out lexes by itself. -/
theorem lexes_compositionTokens (xs : List QualifiedName) (anyObject : Bool) :
    Lexes .free (compositionTokens (fun _ => none) xs anyObject) := by
  have hlast : Lexes .free [.op (if anyObject then .classComposition else .composition)] := by
    cases anyObject <;> exact .cons rfl .nil
  cases xs with
  | nil => cases anyObject <;> exact .cons rfl (.cons rfl .nil)
  | cons x xs =>
    rw [compositionTokens, rowTokens, listTokens, List.append_assoc]
    exact lexes_plainTokens_append x (.cons rfl (lexes_plainRow_append hlast))

/-! ## Two programs -/

/-- Two programs declare some protocols in the same relative order. -/
def SameOrder (places places' : Places) (protocols : List QualifiedName) : Prop :=
  ∀ x ∈ protocols, ∀ y ∈ protocols, (places.protocol x).index < (places.protocol y).index ↔
    (places'.protocol x).index < (places'.protocol y).index

namespace Places

variable {places places' : Places} {protocols : List QualifiedName}

/-- The protocols have one order in both programs exactly if any two of them have. -/
theorem inOrder_eq_iff_sameOrder
    (hunique : ∀ x ∈ protocols, ∀ y ∈ protocols, places.protocol x = places.protocol y → x = y)
    (hunique' : ∀ x ∈ protocols, ∀ y ∈ protocols, places'.protocol x = places'.protocol y → x = y) :
    places.inOrder protocols = places'.inOrder protocols ↔ SameOrder places places' protocols := by
  have hsorted := pairwise_inOrder hunique
  have hsorted' := pairwise_inOrder hunique'
  constructor
  · -- both orders sort one list, so they agree on any two of its members
    intro heq
    rw [← heq] at hsorted'
    have hboth := hsorted.and hsorted'
    have hall := List.Pairwise.forall_of_forall_of_flip
      (R := fun x y => (places.protocol x).index < (places.protocol y).index ↔
        (places'.protocol x).index < (places'.protocol y).index)
      (fun x _ => iff_of_false (Nat.lt_irrefl _) (Nat.lt_irrefl _))
      (hboth.imp fun h => iff_of_true h.1 h.2)
      (hboth.imp fun h => iff_of_false (Nat.lt_asymm h.1) (Nat.lt_asymm h.2))
    exact fun x hx y hy => hall (mem_inOrder.2 hx) (mem_inOrder.2 hy)
  · intro horder
    have : Std.Irrefl fun x y : QualifiedName =>
        (places.protocol x).index < (places.protocol y).index :=
      ⟨fun x => Nat.lt_irrefl _⟩
    refine hsorted.eq_of_mem_iff (hsorted'.imp_of_mem fun hx hy hlt => ?_) fun x => ?_
    · exact (horder _ (mem_inOrder.1 hx) _ (mem_inOrder.1 hy)).2 hlt
    · rw [mem_inOrder, mem_inOrder]

end Places

namespace Mangler

variable {m m' : Mangler} {places places' : Places} {protocols : List QualifiedName}

/-- Without placeholders nothing is written as one. -/
theorem placeholder?_eq_none (h : m.options.allowsPlaceholders = false) :
    m.placeholder? places = fun _ => none := by
  funext x
  simp [placeholder?, Grammar.placeholder?, h]

/-- Programs whose placeholders are those of the same protocols write them alike. -/
theorem spelling_placeholder? {x : QualifiedName} (hoptions : m'.options = m.options)
    (hpolicy : m'.accepts (.nominal (places'.protocol x)) =
      m.accepts (.nominal (places.protocol x))) :
    (m.placeholder? places x).map Referent.spelling =
      (m'.placeholder? places' x).map Referent.spelling := by
  simp only [placeholder?, Grammar.placeholder?, Option.filter_some, hoptions, hpolicy]
  split <;> rfl

/-- The name of a composition follows the order in which a program declares the protocols.  Two
programs that declare the same protocols both name the composition of them; the names are the
same if the programs declare the protocols in the same relative order, and where no
placeholders are written, and no two of the protocols are spelled alike, they are the same only
then. -/
theorem compositionName_sameOrder (m m' : Mangler) (places places' : Places)
    (protocols : List QualifiedName) (anyObject : Bool) (hoptions : m'.options = m.options)
    (hbuilt : m.program.types.Built) (hbuilt' : m'.program.types.Built)
    (hdeclares : ∀ x ∈ protocols, (m.grammar false).Declares places x)
    (hdeclares' : ∀ x ∈ protocols, (m'.grammar false).Declares places' x)
    (hpolicy : ∀ x ∈ protocols, m'.accepts (.nominal (places'.protocol x)) =
      m.accepts (.nominal (places.protocol x))) :
    ∃ text text', m.compositionName (protocols.map places.protocol) anyObject = .ok text ∧
      m'.compositionName (protocols.map places'.protocol) anyObject = .ok text' ∧
      (SameOrder places places' protocols → text = text') ∧
      (m.options.allowsPlaceholders = false →
        (∀ x ∈ protocols, ∀ y ∈ protocols, x.spelling = y.spelling → x = y) → text = text' →
        SameOrder places places' protocols) := by
  refine ⟨_, _, compositionName_eq hbuilt hdeclares anyObject,
    compositionName_eq hbuilt' hdeclares' anyObject, ?_⟩
  rw [← Places.inOrder_eq_iff_sameOrder
    (fun x hx y hy => (hdeclares x hx).unique (hdeclares y hy))
    (fun x hx y hy => (hdeclares' x hx).unique (hdeclares' y hy))]
  constructor
  · intro horder
    rw [← horder, symbol, symbol, spellAll_compositionTokens fun x hx =>
      spelling_placeholder? hoptions (hpolicy x (Places.mem_inOrder.1 hx))]
  · intro hplain halike htext
    -- without placeholders the text is read back to its tokens, and these tell the order
    rw [placeholder?_eq_none hplain, placeholder?_eq_none (hoptions ▸ hplain)] at htext
    have htokens := (lexes_compositionTokens _ anyObject).eq_of_spellAll_eq
      (lexes_compositionTokens _ anyObject) (symbol_injective htext)
    exact eq_of_compositionTokens_eq (fun x hx y hy =>
      halike x (Places.mem_inOrder.1 hx) y (Places.mem_inOrder.1 hy)) htokens

end Mangler

/-! ## Programs in different orders -/

/-- To a program whose first declaration is a module, a protocol of a name in that module. -/
def addProtocol (p : Program) (n : DeclName) : Program :=
  let (name, p) := p.intern n.name
  let (spelled, p) := p.intern n.spelled
  let isRenamed := n.spelled != n.name
  let protocol : Decl :=
    { kind := .protocolType [], name := some name, parent := some (.decl ⟨0⟩),
      foreignName := if isRenamed then some spelled else none,
      flags := { isForeignVisible := isRenamed } }
  match n.discriminator with
  | none => (p.addDecl protocol).2
  | some (.localNumber i) => (p.addDecl { protocol with localDiscriminator := some i }).2
  | some (.file text) =>
    let (file, p) := p.intern text
    (p.addDecl { protocol with privateDiscriminator := some file }).2

/-- A program of one module `M` that declares protocols of the given names, in that order. -/
def protocolProgram (names : List DeclName) : Program :=
  names.foldl addProtocol (Program.empty.addNamed .nativeModule "M" none).2

/-- Where that program declares them. -/
def protocolPlaces (names : List DeclName) : Places where
  module _ := ⟨0⟩
  protocol x := ⟨names.idxOf x.name + 1⟩

/-- Adding protocols builds no type. -/
theorem protocolProgram_types_built (names : List DeclName) :
    (protocolProgram names).types.Built := by
  have hadd : ∀ (p : Program) (n : DeclName), (addProtocol p n).types = p.types := by
    intro p n
    unfold addProtocol
    rcases n.discriminator with _ | _ | _ <;> rfl
  have htypes : ∀ (names : List DeclName) (p : Program), p.types.Built →
      (names.foldl addProtocol p).types.Built := by
    intro names
    induction names with
    | nil => exact fun p h => h
    | cons n names ih => exact fun p h => ih _ ((hadd p n).symm ▸ h)
  exact htypes names _ .initial

/-- Two protocols `P`, one that the foreign runtime calls `X` and one of a file `F`.  A protocol
declared in between changes nothing, and the other order gives another name. -/
theorem compositionName_sameOrder_pair :
    let renamed : DeclName := { name := "P", spelled := "X" }
    let ofFile : DeclName := { name := "P", discriminator := some (.file "F") }
    let other : DeclName := { name := "Q" }
    let orders := [[renamed, ofFile], [renamed, other, ofFile], [ofFile, renamed]]
    let protocols : List QualifiedName := [⟨{ name := "M" }, ofFile⟩, ⟨{ name := "M" }, renamed⟩]
    let mangler (i : List DeclName) : Mangler :=
      { program := protocolProgram i, options := { usesForeignNames := true } }
    let name (i : List DeclName) :=
      (mangler i).compositionName (protocols.map (protocolPlaces i).protocol) true
    (∀ i ∈ orders, ∀ x ∈ protocols, ((mangler i).grammar false).Declares (protocolPlaces i) x) ∧
      name [renamed, ofFile] = .ok "1M1XP_Aa1P1FLLPXl" ∧
      name [renamed, ofFile] = name [renamed, other, ofFile] ∧
      name [renamed, ofFile] ≠ name [ofFile, renamed] := by
  intro renamed ofFile other orders protocols mangler name
  have hdeclares : ∀ i ∈ orders, ∀ x ∈ protocols,
      ((mangler i).grammar false).Declares (protocolPlaces i) x := by
    decide +kernel
  have horder : SameOrder (protocolPlaces [renamed, ofFile])
      (protocolPlaces [renamed, other, ofFile]) protocols := by
    unfold SameOrder
    decide +kernel
  have hother : ¬SameOrder (protocolPlaces [renamed, ofFile])
      (protocolPlaces [ofFile, renamed]) protocols := by
    unfold SameOrder
    decide +kernel
  have halike : ∀ x ∈ protocols, ∀ y ∈ protocols, x.spelling = y.spelling → x = y := by
    decide +kernel
  have htwo (i j : List DeclName) (hi : i ∈ orders) (hj : j ∈ orders) :=
    Mangler.compositionName_sameOrder (mangler i) (mangler j) (protocolPlaces i)
      (protocolPlaces j) protocols true rfl (protocolProgram_types_built i)
      (protocolProgram_types_built j) (hdeclares i hi) (hdeclares j hj) (fun _ _ => rfl)
  refine ⟨hdeclares, by decide +kernel, ?_, fun heq => ?_⟩
  · obtain ⟨x, y, hx, hy, hsame, -⟩ :=
      htwo [renamed, ofFile] [renamed, other, ofFile] (by decide) (by decide)
    exact hx.trans ((congrArg Except.ok (hsame horder)).trans hy.symm)
  · obtain ⟨x, y, hx, hy, -, honly⟩ :=
      htwo [renamed, ofFile] [ofFile, renamed] (by decide) (by decide)
    exact hother (honly rfl halike (Except.ok.inj (hx.symm.trans (heq.trans hy))))

/-- Two programs that declare protocols `P` and `Q` in different orders give the composition of
both two names. -/
theorem compositionName_otherOrder :
    let p : DeclName := { name := "P" }
    let q : DeclName := { name := "Q" }
    let m : Mangler := { program := protocolProgram [p, q] }
    let m' : Mangler := { program := protocolProgram [q, p] }
    let protocols : List QualifiedName := [⟨{ name := "M" }, p⟩, ⟨{ name := "M" }, q⟩]
    (∀ x ∈ protocols, (m.grammar false).Declares (protocolPlaces [p, q]) x) ∧
      (∀ x ∈ protocols, (m'.grammar false).Declares (protocolPlaces [q, p]) x) ∧
      m.compositionName (protocols.map (protocolPlaces [p, q]).protocol) false =
        .ok "1M1PP_Aa1QPp" ∧
      m'.compositionName (protocols.map (protocolPlaces [q, p]).protocol) false =
        .ok "1M1QP_Aa1PPp" := by
  decide +kernel

end NameMangling
