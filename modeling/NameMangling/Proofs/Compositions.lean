/-
# Names of protocol compositions

The protocols of a composition are spelled in the order in which the program declares them.
So the name of a composition is a function of the names of its protocols, taken in that
order, and of nothing else in the program.

Main definitions:
* `DeclName`, a name with its spelling and what tells it apart, `QualifiedName`, the name of a
  protocol with that of its module, and `Places`, where a program declares modules and protocols;
* `compositionTokens`, what is written for the protocols of a composition;
* `Mangler.compositionName`, the name of a composition.

Main facts:
* `Grammar.writesAs_composition`: what is written for the protocols of a composition;
* `Mangler.compositionName_eq`: the name of a composition as a function of names in order.
-/
import NameMangling.Proofs.Desugaring
import NameMangling.Proofs.Lexing
import NameMangling.Proofs.NominalPaths
import NameMangling.Proofs.Packing
import NameMangling.Proofs.Reading

namespace NameMangling

/-! ## Ordered lists -/

namespace Ordered

variable {α β : Type} [DecidableEq α] [DecidableEq β] {f : α → β} {before : β → β → Bool}

/-- An image is inserted where the item is, if no other item has it. -/
theorem insert_map {x : α} {l : List α} (hf : ∀ y ∈ l, f x = f y → x = y) :
    insert before (f x) (l.map f) = (insert (fun y z => before (f y) (f z)) x l).map f := by
  induction l with
  | nil => rfl
  | cons y l ih =>
    have hxy : f x = f y ↔ x = y := ⟨hf y (by simp), congrArg f⟩
    rw [List.map_cons, insert, insert, ih fun z hz => hf z (by simp [hz])]
    simp only [hxy]
    split
    · rfl
    · split <;> rfl

/-- Listing the images of some members is listing the members by their images. -/
theorem distinct_map {l : List α} (hf : ∀ x ∈ l, ∀ y ∈ l, f x = f y → x = y) :
    distinct before (l.map f) = (distinct (fun y z => before (f y) (f z)) l).map f := by
  induction l with
  | nil => rfl
  | cons x l ih =>
    rw [List.map_cons, distinct, ih fun y hy z hz => hf y (by simp [hy]) z (by simp [hz]),
      insert_map fun y hy => hf x (by simp) y (by simp [mem_distinct.1 hy]), distinct]

end Ordered

/-! ## Names -/

/-- The name of a declaration: the one it is declared with, the one that is written, which
differs where the name in the foreign runtime is in use, and what tells the declaration apart
from others of its name. -/
structure DeclName where
  name : String
  spelled : String := name
  discriminator : Option Discriminator := none
deriving DecidableEq

/-- The name of a protocol with that of its module. -/
structure QualifiedName where
  module : DeclName
  name : DeclName
deriving DecidableEq

/-- A node that is completed on the way: a module or a protocol. -/
inductive ListedNode
  | module (name : DeclName)
  | protocol (x : QualifiedName)
deriving DecidableEq

/-- Where a program declares the modules and the protocols of some names. -/
structure Places where
  module : DeclName → DeclId
  protocol : QualifiedName → DeclId

/-- The node of a name. -/
def Places.key (places : Places) : ListedNode → NodeKey
  | .module name => .decl (places.module name)
  | .protocol x => .decl (places.protocol x)

/-! ## Tokens -/

/-- What is written for a name. -/
def DeclName.tokens (n : DeclName) : List Token := discriminatedName n.spelled n.discriminator

/-- What is written for a module: its name, or a reference to it. -/
def moduleTokens (table : List ListedNode) (name : DeclName) : List Token :=
  match table.idxOf? (.module name) with
  | some i => [.backReference i]
  | none => name.tokens

/-- The nodes completed when one more is, in the order of their numbers. -/
def addNode (table : List ListedNode) (node : ListedNode) : List ListedNode :=
  if node ∈ table then table else table ++ [node]

/-- The nodes after one more has been completed are that node and those before. -/
theorem mem_addNode {table : List ListedNode} {a b : ListedNode} :
    b ∈ addNode table a ↔ b ∈ table ∨ b = a := by
  unfold addNode
  split
  · rename_i ha
    exact ⟨.inl, fun h => h.elim id fun h => h ▸ ha⟩
  · simp

/-- What is written for a protocol: a placeholder, or the protocol in its module. -/
def protocolTokens (placeholder? : QualifiedName → Option Referent) (table : List ListedNode)
    (x : QualifiedName) : List Token :=
  match placeholder? x with
  | some r => [.placeholder r]
  | none => moduleTokens table x.module ++ (x.name.tokens ++ [.op .protocolType])

/-- The nodes completed after a protocol; a placeholder completes none. -/
def tableAfter (placeholder? : QualifiedName → Option Referent) (table : List ListedNode)
    (x : QualifiedName) : List ListedNode :=
  match placeholder? x with
  | some _ => table
  | none => addNode (addNode table (.module x.module)) (.protocol x)

/-- Writing a protocol completes no other one. -/
theorem notMem_tableAfter {placeholder? : QualifiedName → Option Referent}
    {table : List ListedNode} {x : QualifiedName} {xs : List QualifiedName}
    (hnew : ∀ y ∈ xs, .protocol y ∉ table) (hx : x ∉ xs) :
    ∀ y ∈ xs, .protocol y ∉ tableAfter placeholder? table x := by
  intro y hy hmem
  unfold tableAfter at hmem
  split at hmem
  · exact hnew y hy hmem
  · simp only [mem_addNode, reduceCtorEq, or_false, ListedNode.protocol.injEq] at hmem
    rcases hmem with hmem | rfl
    · exact hnew y hy hmem
    · exact hx hy

/-- What is written for protocols in a row. -/
def rowTokens (placeholder? : QualifiedName → Option Referent) :
    List ListedNode → List QualifiedName → List (List Token)
  | _, [] => []
  | table, x :: xs => protocolTokens placeholder? table x ::
      rowTokens placeholder? (tableAfter placeholder? table x) xs

/-- A list of items: the mark of the empty list, or the items with a mark after the first. -/
def listTokens : List (List Token) → List Token
  | [] => [.op .emptyList]
  | first :: rest => first ++ .op .firstOfList :: rest.flatten

/-- What is written for a composition of protocols. -/
def compositionTokens (placeholder? : QualifiedName → Option Referent) (xs : List QualifiedName)
    (anyObject : Bool) : List Token :=
  listTokens (rowTokens placeholder? [] xs) ++
    [.op (if anyObject then .classComposition else .composition)]

namespace Grammar

/-- A declaration of the given name. -/
structure Named (g : Grammar) (d : DeclId) (n : DeclName) : Prop where
  name : (g.program.decl d).name.map g.program.text = some n.name
  identifier : g.identifierPieces d = [.token (.identifier n.spelled)]
  discriminator : g.program.discriminator? d = n.discriminator

/-- A protocol of the given name in an ordinary module. -/
structure Declares (g : Grammar) (places : Places) (x : QualifiedName) : Prop where
  isProtocol : (g.program.kindOf (places.protocol x)).isProtocol = true
  name : g.Named (places.protocol x) x.name
  parent : (g.program.decl (places.protocol x)).parent = some (.decl (places.module x.module))
  isModule : g.program.kindOf (places.module x.module) = .nativeModule
  notStandard : g.program.isStandardModule (places.module x.module) = false
  moduleName : g.Named (places.module x.module) x.module

instance (g : Grammar) (d : DeclId) (n : DeclName) : Decidable (g.Named d n) :=
  decidable_of_iff (_ ∧ _ ∧ _)
    ⟨fun h => ⟨h.1, h.2.1, h.2.2⟩, fun h => ⟨h.name, h.identifier, h.discriminator⟩⟩

instance (g : Grammar) (places : Places) (x : QualifiedName) : Decidable (g.Declares places x) :=
  decidable_of_iff (_ ∧ _ ∧ _ ∧ _ ∧ _ ∧ _)
    ⟨fun h => ⟨h.1, h.2.1, h.2.2.1, h.2.2.2.1, h.2.2.2.2.1, h.2.2.2.2.2⟩,
      fun h => ⟨h.isProtocol, h.name, h.parent, h.isModule, h.notStandard, h.moduleName⟩⟩

/-- The nodes of protocols that a program declares. -/
def Lists (g : Grammar) (places : Places) : ListedNode → Prop
  | .module name =>
    g.program.kindOf (places.module name) = .nativeModule ∧ g.Named (places.module name) name
  | .protocol x => g.Declares places x

variable {g : Grammar} {places : Places} {w : Spelling} {x y : QualifiedName}

theorem Named.declName {d : DeclId} {n : DeclName} (h : g.Named d n) :
    g.declName d = n.tokens.map .token := by
  rw [declName_eq_discriminatedName h.identifier, h.discriminator, DeclName.tokens]

/-- A declaration has one name. -/
theorem Named.unique {d : DeclId} {n n' : DeclName} (h : g.Named d n) (h' : g.Named d n') :
    n = n' := by
  have hname : n.name = n'.name := Option.some.inj (h.name.symm.trans h'.name)
  have hspelled : n.spelled = n'.spelled := by
    have heq := h.identifier.symm.trans h'.identifier
    simpa using heq
  have hdiscriminator := h.discriminator.symm.trans h'.discriminator
  cases n
  cases n'
  simp_all

theorem Declares.listsModule (h : g.Declares places x) : g.Lists places (.module x.module) :=
  ⟨h.isModule, h.moduleName⟩

/-- Declared protocols are told apart by their names. -/
theorem Declares.unique (hx : g.Declares places x) (hy : g.Declares places y)
    (h : places.protocol x = places.protocol y) : x = y := by
  have hname : x.name = y.name := hx.name.unique (h ▸ hy.name)
  have hmodule : places.module x.module = places.module y.module := by
    have hparent := hx.parent
    rw [h, hy.parent] at hparent
    simpa [eq_comm] using hparent
  have hmodule : x.module = y.module := hx.moduleName.unique (hmodule ▸ hy.moduleName)
  cases x
  cases y
  simp_all

/-- Listed nodes are told apart by their declarations. -/
theorem Lists.unique {a b : ListedNode} (ha : g.Lists places a) (hb : g.Lists places b)
    (h : places.key a = places.key b) : a = b := by
  cases a <;> cases b <;> rw [Places.key, Places.key, NodeKey.decl.injEq] at h
  case module.module => rw [ha.2.unique (h ▸ hb.2)]
  case module.protocol =>
    have hkind := hb.isProtocol
    rw [← h, ha.1] at hkind
    cases hkind
  case protocol.module =>
    have hkind := ha.isProtocol
    rw [h, hb.1] at hkind
    cases hkind
  case protocol.protocol => rw [Declares.unique ha hb h]

/-! ## Writing -/

/-- The nodes that have been completed. -/
structure Listing (g : Grammar) (places : Places) (table : List ListedNode) (s : Progress) :
    Prop where
  tabled : s.Tabled
  nodes : s.table = table.map places.key
  lists : ∀ node ∈ table, g.Lists places node

theorem Listing.empty : g.Listing places [] {} := ⟨.empty, rfl, by simp⟩

variable {table table' table'' : List ListedNode} {node : ListedNode} {s : Progress}

/-- A listed node has been completed exactly if its name is in the table. -/
theorem Listing.mem_map_key (h : g.Listing places table s) (hnode : g.Lists places node) :
    places.key node ∈ table.map places.key ↔ node ∈ table := by
  refine ⟨fun hmem => ?_, List.mem_map_of_mem⟩
  obtain ⟨other, hother, hkey⟩ := List.mem_map.1 hmem
  rwa [← Lists.unique (h.lists other hother) hnode hkey]

/-- Nodes have the numbers of their names. -/
theorem Listing.number?_eq (h : g.Listing places table s) (hnode : g.Lists places node) :
    s.number? (places.key node) = table.idxOf? node := by
  rw [h.tabled.number, h.nodes, List.idxOf?, List.idxOf?, List.findIdx?_map]
  have hsame : ∀ other ∈ table, (places.key other == places.key node) = (other == node) := by
    intro other hother
    rw [Bool.eq_iff_iff, beq_iff_eq, beq_iff_eq]
    exact ⟨Lists.unique (h.lists other hother) hnode, congrArg places.key⟩
  clear h
  induction table with
  | nil => rfl
  | cons other table ih =>
    rw [List.findIdx?_cons, List.findIdx?_cons, ih fun o ho => hsame o (by simp [ho]),
      Function.comp_apply, hsame other (by simp)]

theorem Listing.emit (h : g.Listing places table s) (t : Token) :
    g.Listing places table (s.emit t) :=
  ⟨h.tabled.emit t, h.nodes, h.lists⟩

/-- Completing a listed node adds its name to the table. -/
theorem Listing.complete (h : g.Listing places table s) (hnode : g.Lists places node)
    (start : Nat) : g.Listing places (addNode table node) (s.complete (places.key node) start) where
  tabled := h.tabled.complete _ start
  nodes := by
    rw [Progress.table_complete, h.nodes, register, addNode]
    simp only [h.mem_map_key hnode]
    split <;> simp
  lists := by
    intro other hother
    unfold addNode at hother
    split at hother
    · exact h.lists other hother
    · rcases List.mem_append.1 hother with hother | hother
      · exact h.lists other hother
      · rwa [List.mem_singleton.1 hother]

/-- Some pieces are written as some tokens after some nodes have been completed, whatever else
has been written, and then more nodes are. -/
def WritesAs (g : Grammar) (w : Spelling) (places : Places) (n : Nat) (ps : List Piece)
    (table : List ListedNode) (ts : List Token) (table' : List ListedNode) : Prop :=
  ∀ s, g.Listing places table s → ∃ s', g.Writes w n ps s s' ∧
    s'.tokens.toList = s.tokens.toList ++ ts ∧ g.Listing places table' s'

namespace WritesAs

variable {n : Nat} {ps qs : List Piece} {ts us : List Token} {scope : Scope}

/-- Rows that are written one after the other are written as one row. -/
theorem append (h : g.WritesAs w places n ps table ts table')
    (h' : g.WritesAs w places n qs table' us table'') :
    g.WritesAs w places n (ps ++ qs) table (ts ++ us) table'' := by
  intro s hs
  obtain ⟨s₁, hwrites, htokens, hlisting⟩ := h s hs
  obtain ⟨s₂, hwrites', htokens', hlisting'⟩ := h' s₁ hlisting
  exact ⟨s₂, writes_append.2 ⟨s₁, hwrites, hwrites'⟩, by simp [htokens', htokens], hlisting'⟩

theorem nil : g.WritesAs w places n [] table [] table := fun s hs => ⟨s, .nil, by simp, hs⟩

theorem token (t : Token) : g.WritesAs w places n [.token t] table [t] table :=
  fun s hs => ⟨s.emit t, .token .nil, by simp, hs.emit t⟩

/-- Tokens are written as they are and complete no nodes. -/
theorem tokens (ts : List Token) : g.WritesAs w places n (ts.map .token) table ts table := by
  induction ts with
  | nil => exact nil
  | cons t ts ih => exact (token t).append ih

/-- A phrase is written as its production, one level deeper. -/
theorem phrase {p : Phrase} (h : g.WritesAs w places n (g.production scope p) table ts table') :
    g.WritesAs w places (n + 1) [.phrase scope p] table ts table' := by
  intro s hs
  obtain ⟨s', hwrites, htokens, hlisting⟩ := h s hs
  exact ⟨s', .phrase hwrites .nil, htokens, hlisting⟩

/-- A node that has been completed is written as a reference. -/
theorem reference (hback : w.refersBack = true) {r : Option Referent}
    (hr : r.filter w.placesReferent = none) (hnode : g.Lists places node) {i : Nat}
    (hi : table.idxOf? node = some i) :
    g.WritesAs w places n [.node scope (places.key node) r] table [.backReference i] table := by
  intro s hs
  have hshort : w.shorthand? s (places.key node) r = some (.backReference i) := by
    simp [Spelling.shorthand?, hr, hback, hs.number?_eq hnode, hi]
  exact ⟨_, .short hshort .nil, by simp, hs.emit _⟩

/-- A node that has not been completed is spelled out. -/
theorem body (hback : w.refersBack = true) {r : Option Referent}
    (hr : r.filter w.placesReferent = none) (hnode : g.Lists places node)
    (hnew : table.idxOf? node = none)
    (h : g.WritesAs w places n (g.production scope (.body (places.key node))) table ts table') :
    g.WritesAs w places (n + 1) [.node scope (places.key node) r] table ts
      (addNode table' node) := by
  intro s hs
  obtain ⟨s', hwrites, htokens, hlisting⟩ := h s hs
  have hlong : w.shorthand? s (places.key node) r = none := by
    simp [Spelling.shorthand?, hr, hback, hs.number?_eq hnode, hnew]
  exact ⟨_, .spelled hlong hwrites .nil, by simpa using htokens, hlisting.complete hnode _⟩

/-- A node whose referent becomes a placeholder is written as that. -/
theorem placeholder {key : NodeKey} {r : Referent} (hr : w.placesReferent r = true) :
    g.WritesAs w places n [.node scope key (some r)] table [.placeholder r] table := by
  intro s hs
  have hshort : w.shorthand? s key (some r) = some (.placeholder r) := by
    rw [Spelling.shorthand?, Option.filter_some_pos hr]
  exact ⟨_, .short hshort .nil, by simp, hs.emit _⟩

end WritesAs

/-! ## Modules and protocols -/

variable (n : Nat) (scope : Scope)

/-- The module of a protocol is its name or a reference, and is completed by then. -/
theorem writesAs_module (hback : w.refersBack = true) (hx : g.Declares places x) :
    g.WritesAs w places (n + 2) (g.contextOf scope (places.protocol x)) table
      (moduleTokens table x.module) (addNode table (.module x.module)) := by
  have hcontext : g.contextOf scope (places.protocol x) =
      [.phrase scope (.context (.decl (places.module x.module)))] := by
    rw [contextOf, hx.parent]
    rfl
  have hproduction : g.production scope (.context (.decl (places.module x.module))) =
      [.node scope (places.key (.module x.module)) none] :=
    context_eq_nativeModule hx.isModule hx.notStandard
  rw [hcontext]
  refine .phrase ?_
  rw [hproduction, moduleTokens]
  -- a module is spelled out where it is met first, and referred back to later
  cases hi : table.idxOf? (.module x.module) with
  | some i =>
    have hmem : .module x.module ∈ table := List.isSome_idxOf?.1 (by rw [hi]; rfl)
    rw [addNode, if_pos hmem]
    exact .reference hback rfl hx.listsModule hi
  | none =>
    refine .body hback rfl hx.listsModule hi ?_
    have hbody : g.production scope (.body (places.key (.module x.module))) =
        x.module.tokens.map .token := by
      rw [← hx.moduleName.declName]
      exact body_nativeModule hx.isModule
    rw [hbody]
    exact .tokens _

/-- The production of a protocol that a program declares. -/
theorem Declares.protocol_eq (hx : g.Declares places x) :
    g.protocol scope (places.protocol x) = [.node scope (places.key (.protocol x))
      (some (.nominal (places.protocol x)))] := by
  have hkind := hx.isProtocol
  have hstandard : g.standardName? (places.protocol x) = none := by
    simp [standardName?, hx.parent, hx.notStandard]
  rw [protocol, if_pos hkind, nominal, hstandard, Referent.ofDecl]
  cases hk : g.program.kindOf (places.protocol x) <;> rw [hk] at hkind <;> cases hkind
  rfl

/-- The referent of a protocol, if it becomes a placeholder. -/
def placeholder? (places : Places) (w : Spelling) (x : QualifiedName) : Option Referent :=
  (some (Referent.nominal (places.protocol x))).filter w.placesReferent

/-- A protocol that has not been written yet is spelled out in its module, or placed. -/
theorem writesAs_protocol (hback : w.refersBack = true) (hx : g.Declares places x)
    (hnew : .protocol x ∉ table) :
    g.WritesAs w places (n + 3) (g.protocol scope (places.protocol x)) table
      (protocolTokens (placeholder? places w) table x)
      (tableAfter (placeholder? places w) table x) := by
  rw [hx.protocol_eq scope, protocolTokens, tableAfter]
  cases hr : placeholder? places w x with
  | some r =>
    obtain ⟨hr, hplaces⟩ := Option.filter_eq_some_iff.1 hr
    rw [hr]
    exact .placeholder hplaces
  | none =>
    have hbody : g.production scope (.body (places.key (.protocol x))) =
        g.contextOf scope (places.protocol x) ++
          (x.name.tokens.map .token ++ [.token (.op .protocolType)]) := by
      have hkind := hx.isProtocol
      rw [← hx.name.declName]
      simp only [production, Places.key, declBody]
      cases hk : g.program.kindOf (places.protocol x) <;> rw [hk] at hkind <;> cases hkind
      simp [nominalOperator?, Piece.op]
    refine .body hback hr hx (by simpa using hnew) ?_
    rw [hbody]
    exact (writesAs_module n scope hback hx).append (.append (.tokens _) (.token _))

/-- Protocols that have not been spelled, one after another. -/
theorem writesAs_row (hback : w.refersBack = true) {xs : List QualifiedName}
    (hxs : ∀ x ∈ xs, g.Declares places x) (hnodup : xs.Nodup)
    (hnew : ∀ x ∈ xs, .protocol x ∉ table) : ∃ table', g.WritesAs w places (n + 3)
      (xs.map fun x => g.protocol scope (places.protocol x)).flatten table
      (rowTokens (placeholder? places w) table xs).flatten table' := by
  induction xs generalizing table with
  | nil => exact ⟨table, .nil⟩
  | cons x xs ih =>
    obtain ⟨hx, hnodup⟩ := List.nodup_cons.1 hnodup
    have hfirst := writesAs_protocol n scope hback (hxs x (by simp)) (hnew x (by simp))
    obtain ⟨table', hrest⟩ := ih (fun y hy => hxs y (by simp [hy])) hnodup
      (notMem_tableAfter (fun y hy => hnew y (by simp [hy])) hx)
    exact ⟨table', hfirst.append hrest⟩

/-- The protocols of a composition, with a mark after the first. -/
theorem writesAs_list (hback : w.refersBack = true) {xs : List QualifiedName}
    (hxs : ∀ x ∈ xs, g.Declares places x) (hnodup : xs.Nodup) : ∃ table',
      g.WritesAs w places (n + 3)
        (listPieces (xs.map fun x => g.protocol scope (places.protocol x))) []
        (listTokens (rowTokens (placeholder? places w) [] xs)) table' := by
  cases xs with
  | nil => exact ⟨[], .token _⟩
  | cons x xs =>
    obtain ⟨hx, hnodup⟩ := List.nodup_cons.1 hnodup
    have hfirst := writesAs_protocol n scope hback (hxs x (by simp)) List.not_mem_nil
    obtain ⟨table', hrest⟩ := writesAs_row n scope hback (fun y hy => hxs y (by simp [hy])) hnodup
      (notMem_tableAfter (fun y _ => List.not_mem_nil) hx)
    exact ⟨table', hfirst.append (.append (.token _) hrest)⟩

/-- A protocol composition without a superclass. -/
theorem writesAs_composition (hback : w.refersBack = true) {xs : List QualifiedName}
    (hxs : ∀ x ∈ xs, g.Declares places x) (hnodup : xs.Nodup) (anyObject : Bool) : ∃ table',
      g.WritesAs w places (n + 3)
        (g.composition scope ⟨xs.map places.protocol, none, anyObject⟩) []
        (compositionTokens (placeholder? places w) xs anyObject) table' := by
  obtain ⟨table', hlist⟩ := writesAs_list n scope hback hxs hnodup
  refine ⟨table', ?_⟩
  rw [composition, List.map_map]
  exact hlist.append (.token _)

end Grammar

/-! ## Names of compositions -/

namespace Program

variable {p : Program}

/-- A composition without a superclass is stored with its protocols in the order of their
declarations, and it has no sugar. -/
theorem node_composition (hbuilt : p.types.Built) (protocols : List DeclId) (anyObject : Bool) :
    let r := p.addType (.existential ⟨protocols, none, anyObject⟩)
    r.2.types.node r.1 =
        .existential ⟨Ordered.distinct (·.index < ·.index) protocols, none, anyObject⟩ ∧
      r.2.types.isCanonical r.1 = true := by
  intro r
  let n : TypeNode := .existential ⟨protocols, none, anyObject⟩
  have hparts : ∀ t ∈ n.children, t.index < p.types.size := by simp [n, TypeNode.children]
  have hsettled := (hbuilt.construct n hparts).settled
  have hissued := (hbuilt.shared.1.construct hparts (.inl hbuilt.shared.2)).issued
  have hnode : (p.types.construct n).2.node (p.types.construct n).1 = n.normalise :=
    Arena.node_construct p.types (by simp [n]) (by simp [n])
  refine ⟨hnode, ?_⟩
  show (p.types.construct n).2.isCanonical (p.types.construct n).1 = true
  rw [Arena.isCanonical, beq_iff_eq]
  refine hsettled.canonical_eq_self hissued ((hsettled.hasSugar_eq_false hissued).2 ?_)
  rw [hnode]
  exact ⟨rfl, by simp [n, TypeNode.normalise, TypeNode.children]⟩

end Program

namespace Grammar

/-- The production of a type that is its own canonical form and a composition. -/
theorem type_composition {g : Grammar} {scope : Scope} {t : TypeId} {c : Composition}
    (hnode : g.program.types.node t = .existential c)
    (hcanonical : g.program.types.isCanonical t = true) :
    g.production scope (.type t) = [.node scope (.type t) none] := by
  simp [production, type, hnode, hcanonical]

end Grammar

namespace Mangler

/-- The name of a composition of protocols, with or without the class bound. -/
def compositionName (m : Mangler) (protocols : List DeclId) (anyObject : Bool) : Answer :=
  let r := m.program.addType (.existential ⟨protocols, none, anyObject⟩)
  { m with program := r.2 }.mangle (.typeWithoutLead r.1)

/-- The protocols that are written as placeholders in the name of a type. -/
def placeholder? (m : Mangler) (places : Places) : QualifiedName → Option Referent :=
  Grammar.placeholder? places
    { placesReferent := fun r => m.options.allowsPlaceholders && m.accepts r }

/-- The name of a stored composition. -/
theorem mangle_composition {m : Mangler} {t : TypeId} {places : Places} {xs : List QualifiedName}
    {anyObject : Bool}
    (hnode : m.program.types.node t = .existential ⟨xs.map places.protocol, none, anyObject⟩)
    (hcanonical : m.program.types.isCanonical t = true) (hnodup : xs.Nodup)
    (hxs : ∀ x ∈ xs, (m.grammar false).Declares places x) :
    m.mangle (.typeWithoutLead t) =
      .ok (symbol "" (compositionTokens (m.placeholder? places) xs anyObject)) := by
  let plan : Plan := { lead := "", pieces := [.type Grammar.outermost t] }
  have hplan : m.plan (.typeWithoutLead t) = .ok plan := rfl
  have hplaces : m.placesReferent plan = fun r => m.options.allowsPlaceholders && m.accepts r := by
    funext r
    have hsubject : (none != some r.decl) = true := rfl
    simp [placesReferent, plan, hsubject]
  generalize hg : m.grammar false = g at hxs
  obtain ⟨n, hn⟩ := Nat.exists_eq_add_of_le' g.five_le_depthBound
  obtain ⟨table, hcomposition⟩ := Grammar.writesAs_composition n Grammar.outermost
    (w := { placesReferent := fun r => m.options.allowsPlaceholders && m.accepts r }) rfl hxs
    hnodup anyObject
  obtain ⟨s, hwrites, htokens, -⟩ := hcomposition {} Grammar.Listing.empty
  -- three steps down: the type is a node, its body the composition, which `writesAs` describes
  have hbody : g.production Grammar.outermost (.body (.type t)) =
      g.composition Grammar.outermost ⟨xs.map places.protocol, none, anyObject⟩ := by
    subst hg
    simp only [Grammar.production, Grammar.structural]
    rw [show (m.grammar false).program.types.node t = _ from hnode]
  have htype : g.production Grammar.outermost (.type t) =
      [.node Grammar.outermost (.type t) none] := by
    subst hg
    exact Grammar.type_composition hnode hcanonical
  rw [← hbody] at hwrites
  have hspelled : g.Writes
      { placesReferent := fun r => m.options.allowsPlaceholders && m.accepts r } (n + 4)
      [.node Grammar.outermost (.type t) none] {} (s.complete (.type t) 0) :=
    .spelled rfl hwrites .nil
  rw [← htype] at hspelled
  have hwritten : m.written? (.typeWithoutLead t) =
      some (s.complete (.type t) 0) := by
    refine written?_eq_some.2 ⟨plan, hplan, ?_⟩
    rw [hplaces, show m.grammar plan.keepsSugar = g from hg, hn]
    exact .phrase hspelled .nil
  refine mangle_eq_ok.2 ⟨plan, _, hplan, hwritten, ?_⟩
  rw [Progress.complete_tokens, htokens]
  rfl

end Mangler

/-! ## The order of declaration -/

namespace Places

variable {places : Places} {protocols : List QualifiedName}

/-- Some protocols in the order in which a program declares them. -/
def inOrder (places : Places) (protocols : List QualifiedName) : List QualifiedName :=
  Ordered.distinct (fun x y => (places.protocol x).index < (places.protocol y).index) protocols

theorem mem_inOrder {x : QualifiedName} : x ∈ places.inOrder protocols ↔ x ∈ protocols :=
  Ordered.mem_distinct

variable (hunique : ∀ x ∈ protocols, ∀ y ∈ protocols, places.protocol x = places.protocol y → x = y)

include hunique

/-- The protocols of a composition in normal form are the declared ones in their order. -/
theorem distinct_map_protocol :
    Ordered.distinct (·.index < ·.index) (protocols.map places.protocol) =
      (places.inOrder protocols).map places.protocol :=
  Ordered.distinct_map hunique

/-- The order is that of the declarations. -/
theorem pairwise_inOrder : (places.inOrder protocols).Pairwise fun x y =>
    (places.protocol x).index < (places.protocol y).index := by
  have hsorted := pairwise_distinct (protocols.map places.protocol)
  rwa [distinct_map_protocol hunique, List.pairwise_map] at hsorted

/-- No protocol is listed twice. -/
theorem nodup_inOrder : (places.inOrder protocols).Nodup := by
  refine List.Pairwise.imp (fun hlt => ?_) (pairwise_inOrder hunique)
  rintro rfl
  exact Nat.lt_irrefl _ hlt

end Places

namespace Mangler

/-- The name of a composition is a function of the names of its protocols in the order of their
declarations, and of which of them are written as placeholders. -/
theorem compositionName_eq {m : Mangler} {places : Places} {protocols : List QualifiedName}
    (hbuilt : m.program.types.Built)
    (hprotocols : ∀ x ∈ protocols, (m.grammar false).Declares places x) (anyObject : Bool) :
    m.compositionName (protocols.map places.protocol) anyObject =
      .ok (symbol "" (compositionTokens (m.placeholder? places) (places.inOrder protocols)
        anyObject)) := by
  have hunique : ∀ x ∈ protocols, ∀ y ∈ protocols, places.protocol x = places.protocol y → x = y :=
    fun x hx y hy => (hprotocols x hx).unique (hprotocols y hy)
  obtain ⟨hnode, hcanonical⟩ :=
    Program.node_composition hbuilt (protocols.map places.protocol) anyObject
  rw [Places.distinct_map_protocol hunique] at hnode
  refine mangle_composition (m := { m with program := _ }) hnode hcanonical
    (Places.nodup_inOrder hunique) fun x hx => ?_
  -- adding a type changes no declaration
  obtain ⟨hkind, hname, hparent, hmodule, hstandard, hmoduleName⟩ :=
    hprotocols x (Places.mem_inOrder.1 hx)
  exact ⟨hkind, ⟨hname.1, hname.2, hname.3⟩, hparent, hmodule, hstandard,
    ⟨hmoduleName.1, hmoduleName.2, hmoduleName.3⟩⟩

end Mangler

end NameMangling
