/-
# Overloads

Two labelled types have one name exactly if they have one outline, and two functions that
differ in nothing but their types and labels have one symbol exactly if their types with
their labels have one outline.  So a name tells the labels as long as none of them stands
in front of a tuple, and two overloads may share a symbol otherwise.

Main facts:
* `labels_recoverable_iff`: what can be recovered of types, functions and labels;
* `labels_not_recoverable`: two types, and two overloads, of one name.
-/
import NameMangling.Proofs.LabelledNames

namespace NameMangling

namespace Mangler

/-! ## Recovering labels -/

/-- What can be recovered of labels: two types have one name exactly if they have one
outline, and overloads that have one symbol have one outline.  Where no label is in front of
a tuple, types are told by their names, and overloads and their labels by their symbols. -/
theorem labels_recoverable_iff (m : Mangler) (hopts : m.options = {})
    (hnames : m.program.names.Built) (htypes : m.program.types.Built) :
    (∀ t u x y, m.program.Labelled t → m.program.Labelled u →
      m.mangle (.typeWithoutLead t) = .ok x → m.mangle (.typeWithoutLead u) = .ok y →
        (x = y ↔ m.typeOutline t = m.typeOutline u) ∧
        (m.program.LabelsLeaves t → m.program.LabelsLeaves u → (x = y ↔ t = u))) ∧
    ∀ d e t u f f' x y, m.program.DeclaresFunction d t f → m.program.DeclaresFunction e u f' →
      m.program.Overload d e →
      m.mangle (.entity d .plain) = .ok x → m.mangle (.entity e .plain) = .ok y →
        (x = y → m.funcOutline d f = m.funcOutline e f') ∧
        (m.program.DifferInType d e → (x = y ↔ m.funcOutline d f = m.funcOutline e f')) ∧
        (m.program.FunctionLabelsLeaves f (m.program.decl d).labels →
          m.program.FunctionLabelsLeaves f' (m.program.decl e).labels →
          x = y → t = u ∧ (m.program.decl d).labels = (m.program.decl e).labels) := by
  have ha := htypes.shared.1
  constructor
  · intro t u x y ht hu hx hy
    have hiff := name_eq_iff hopts ha ht hu hx hy
    refine ⟨hiff, fun hleaves hleaves' => ⟨fun h => ?_, fun h => ?_⟩⟩
    · exact eq_of_typeOutline_eq hnames ha ht hu hleaves hleaves' (hiff.1 h)
    · exact hiff.2 (congrArg m.typeOutline h)
  · intro d e t u f f' x y hd he hsame hx hy
    -- one symbol gives one outline; the other clauses add what the outline leaves open
    have houtline : x = y → m.funcOutline d f = m.funcOutline e f' := by
      intro h
      subst h
      exact funcOutline_eq hopts ha hd he hsame hx hy
    refine ⟨houtline, fun hrest => ⟨houtline, ?_⟩, fun hleaves hleaves' h => ?_⟩
    · exact symbol_eq_of_funcOutline_eq hopts ha hd he hsame hrest hx hy
    · exact eq_of_funcOutline_eq hnames ha hd he hleaves hleaves' hsame (houtline h)

end Mangler

/-! ## Overloads of one symbol -/

/-- A function `f` of the first module, of the given type and with the given label. -/
def overload (t : TypeId) (l : Option Name) : Decl where
  kind := .func
  name := some ⟨4⟩
  parent := some (.decl ⟨0⟩)
  interfaceType := some t
  labels := [l]

/-- The type of functions of one parameter without a result. -/
def functionOf (u : TypeId) : FunctionType := { params := [⟨u, {}⟩], result := .emptyTuple }

/-- Two pairs of integers, the first element labelled or not. -/
def overloadPairs : List TypeNode :=
  [.tuple [⟨some ⟨1⟩, ⟨1⟩⟩, ⟨none, ⟨2⟩⟩], .tuple [⟨none, ⟨1⟩⟩, ⟨none, ⟨2⟩⟩]]

/-- Pairs of such pairs, and functions. -/
def overloadTypes : List TypeNode :=
  [.tuple [⟨none, ⟨12⟩⟩, ⟨none, ⟨3⟩⟩], .tuple [⟨some ⟨1⟩, ⟨13⟩⟩, ⟨none, ⟨3⟩⟩],
   .function (functionOf ⟨12⟩), .function (functionOf ⟨13⟩), .function (functionOf ⟨1⟩)]

/-- A module `M` with four functions `f`, two over pairs of integers and two over integers.
Labels are `a` and `b`. -/
def overloadProgram : Program :=
  { Program.empty with
    names := (({} : NameTable).internAll ["a", "b", "M", "f"]).2
    types := ((Arena.initial.constructAll overloadPairs).2.constructAll overloadTypes).2
    decls := #[{ kind := .nativeModule, name := some ⟨3⟩ }, overload ⟨16⟩ none,
      overload ⟨17⟩ (some ⟨1⟩), overload ⟨18⟩ (some ⟨1⟩), overload ⟨18⟩ (some ⟨2⟩)] }

theorem overloadProgram_names_built : overloadProgram.names.Built :=
  .internAll .initial ["a", "b", "M", "f"]

/-- The types of the program have been built. -/
theorem overloadProgram_types_built : overloadProgram.types.Built := by
  have hpairs : (Arena.initial.constructAll overloadPairs).2.Built :=
    .constructAll .initial (by decide +kernel)
  exact hpairs.constructAll (by decide +kernel)

theorem overloadProgram_labelled : ∀ i < 16, overloadProgram.Labelled ⟨i⟩ :=
  Program.labelled_of_nodes overloadProgram_types_built.shared.1 (by decide +kernel)
    (by decide +kernel)

/-- The first five names are labels. -/
theorem overloadProgram_hasLabel {n : Name} (h : n.slot < 5) :
    overloadProgram.HasLabel (some n) := by
  have hsize : overloadProgram.names.size = 5 := by decide +kernel
  rintro x ⟨⟩
  rw [hsize]
  exact h

/-- A function of a parameter without parts has no label in front of a tuple. -/
theorem Program.FunctionLabelsLeaves.of_leaf {p : Program} {u : TypeId}
    (hu : (p.types.node u).isLeaf = true) (hresult : (p.types.node .emptyTuple).isLeaf = true)
    (l : Option Name) : p.FunctionLabelsLeaves (functionOf u) [l] where
  params := by simpa [functionOf] using .leaf hu
  result := .leaf hresult
  arguments := by simpa [functionOf] using fun _ => kind_ne_tuple hu

/-- The functions of the program. -/
theorem overloadProgram_declares {d : DeclId} {t u : TypeId} {l : Option Name}
    (hd : overloadProgram.decl d = overload t l) (ht : t.index < overloadProgram.types.size)
    (hnode : overloadProgram.types.node t = .function (functionOf u)) (hu : u.index < 16)
    (hl : overloadProgram.HasLabel l) :
    overloadProgram.DeclaresFunction d t (functionOf u) where
  kind := by rw [Program.kindOf, hd]; rfl
  interfaceType := by rw [hd]; rfl
  issued := ht
  node := hnode
  labelled := by
    refine ⟨?_, overloadProgram_labelled 0 (by decide)⟩
    simpa [functionOf] using overloadProgram_labelled u.index hu
  labels := by
    rw [hd]
    refine ⟨rfl, ?_⟩
    simpa [overload] using hl

/-- Two of the declarations with different types are overloads that differ in type. -/
theorem overloadProgram_overload {d e : DeclId} {t u : TypeId} {l k : Option Name}
    (hd : overloadProgram.decl d = overload t l) (he : overloadProgram.decl e = overload u k) :
    overloadProgram.Overload d e ∧ overloadProgram.DifferInType d e := by
  refine ⟨⟨?_, ?_⟩, ⟨?_, ?_, ?_, ?_, ?_⟩⟩ <;> rw [hd] <;> first
    | rw [he]; rfl
    | exact nofun

/-- A label in front of a single type is recovered from the symbol of a function, and a
label inside a pair from the name of the pair.  A label in front of a pair is not: the
outlines are the same. -/
theorem labels_recoverable_overloads :
    let m : Mangler := { program := overloadProgram }
    m.mangle (.typeWithoutLead ⟨12⟩) ≠ m.mangle (.typeWithoutLead ⟨13⟩) ∧
      m.mangle (.entity ⟨3⟩ .plain) ≠ m.mangle (.entity ⟨4⟩ .plain) ∧
      m.typeOutline ⟨14⟩ = m.typeOutline ⟨15⟩ ∧
      m.funcOutline ⟨1⟩ (functionOf ⟨12⟩) = m.funcOutline ⟨2⟩ (functionOf ⟨13⟩) := by
  intro m
  obtain ⟨htypes, hfunctions⟩ := Mangler.labels_recoverable_iff m rfl
    overloadProgram_names_built overloadProgram_types_built
  refine ⟨?_, ?_, ?_, ?_⟩
  · have hname : m.mangle (.typeWithoutLead ⟨12⟩) = .ok "1aBi8__Bi16_t" := by decide +kernel
    have hname' : m.mangle (.typeWithoutLead ⟨13⟩) = .ok "Bi8__Bi16_t" := by decide +kernel
    have hpair : overloadProgram.types.node ⟨12⟩ =
        .tuple [⟨some ⟨1⟩, ⟨1⟩⟩, ⟨none, ⟨2⟩⟩] := by decide +kernel
    have hpair' : overloadProgram.types.node ⟨13⟩ =
        .tuple [⟨none, ⟨1⟩⟩, ⟨none, ⟨2⟩⟩] := by decide +kernel
    have hsame := (htypes ⟨12⟩ ⟨13⟩ _ _ (overloadProgram_labelled 12 (by decide))
      (overloadProgram_labelled 13 (by decide)) hname hname').2
      (.of_leaves hpair (by decide +kernel)) (.of_leaves hpair' (by decide +kernel))
    intro h
    rw [hname, hname'] at h
    exact absurd (hsame.1 (Except.ok.inj h)) (by decide)
  · have hname : m.mangle (.entity ⟨3⟩ .plain) = .ok "$q1M1fyt1aBi8__tcF" := by decide +kernel
    have hname' : m.mangle (.entity ⟨4⟩ .plain) = .ok "$q1M1fyt1bBi8__tcF" := by decide +kernel
    have hd : overloadProgram.decl ⟨3⟩ = overload ⟨18⟩ (some ⟨1⟩) := by decide +kernel
    have he : overloadProgram.decl ⟨4⟩ = overload ⟨18⟩ (some ⟨2⟩) := by decide +kernel
    have hdeclares := overloadProgram_declares (u := ⟨1⟩) hd (by decide +kernel)
      (by decide +kernel) (by decide) (overloadProgram_hasLabel (by decide))
    have hdeclares' := overloadProgram_declares (u := ⟨1⟩) he (by decide +kernel)
      (by decide +kernel) (by decide) (overloadProgram_hasLabel (by decide))
    have hleaves : ∀ l, overloadProgram.FunctionLabelsLeaves (functionOf ⟨1⟩) [l] := fun l =>
      .of_leaf (by decide +kernel) (by decide +kernel) l
    have hsame := (hfunctions ⟨3⟩ ⟨4⟩ _ _ _ _ _ _ hdeclares hdeclares'
      (overloadProgram_overload hd he).1 hname hname').2.2
      (by rw [hd]; exact hleaves _) (by rw [he]; exact hleaves _)
    intro h
    rw [hname, hname'] at h
    have hlabels := (hsame (Except.ok.inj h)).2
    rw [hd, he] at hlabels
    exact absurd hlabels (by decide)
  · have hname : m.mangle (.typeWithoutLead ⟨14⟩) = .ok "1aBi8__Bi16_t_Bi32_t" := by
      decide +kernel
    have hname' : m.mangle (.typeWithoutLead ⟨15⟩) = .ok "1aBi8__Bi16_t_Bi32_t" := by
      decide +kernel
    exact (htypes ⟨14⟩ ⟨15⟩ _ _ (overloadProgram_labelled 14 (by decide))
      (overloadProgram_labelled 15 (by decide)) hname hname').1.1 rfl
  · have hname : m.mangle (.entity ⟨1⟩ .plain) = .ok "$q1M1fyt1aBi8__Bi16_t_tcF" := by
      decide +kernel
    have hname' : m.mangle (.entity ⟨2⟩ .plain) = .ok "$q1M1fyt1aBi8__Bi16_t_tcF" := by
      decide +kernel
    have hd : overloadProgram.decl ⟨1⟩ = overload ⟨16⟩ none := by decide +kernel
    have he : overloadProgram.decl ⟨2⟩ = overload ⟨17⟩ (some ⟨1⟩) := by decide +kernel
    have hdeclares := overloadProgram_declares (u := ⟨12⟩) hd (by decide +kernel)
      (by decide +kernel) (by decide) (by rintro n ⟨⟩)
    have hdeclares' := overloadProgram_declares (u := ⟨13⟩) he (by decide +kernel)
      (by decide +kernel) (by decide) (overloadProgram_hasLabel (by decide))
    obtain ⟨hsame, hrest⟩ := overloadProgram_overload hd he
    exact ((hfunctions ⟨1⟩ ⟨2⟩ _ _ _ _ _ _ hdeclares hdeclares' hsame hname hname').2.1
      hrest).1 rfl

/-- Types and overloads that differ in what a label is in front of: `((a: Int8, Int16), Int32)`
and `(a: (Int8, Int16), Int32)`, and functions of a pair `(a: Int8, Int16)` and of a pair
`(Int8, Int16)` labelled `a`. -/
theorem labels_not_recoverable :
    let m : Mangler := { program := overloadProgram }
    (m.mangle (.typeWithoutLead ⟨14⟩) = .ok "1aBi8__Bi16_t_Bi32_t" ∧
      m.mangle (.typeWithoutLead ⟨15⟩) = .ok "1aBi8__Bi16_t_Bi32_t" ∧
      m.program.types.node ⟨14⟩ = .tuple [⟨none, ⟨12⟩⟩, ⟨none, ⟨3⟩⟩] ∧
      m.program.types.node ⟨15⟩ = .tuple [⟨some ⟨1⟩, ⟨13⟩⟩, ⟨none, ⟨3⟩⟩] ∧
      (⟨14⟩ : TypeId) ≠ ⟨15⟩) ∧
    m.mangle (.entity ⟨1⟩ .plain) = .ok "$q1M1fyt1aBi8__Bi16_t_tcF" ∧
      m.mangle (.entity ⟨2⟩ .plain) = .ok "$q1M1fyt1aBi8__Bi16_t_tcF" ∧
      (m.program.decl ⟨1⟩).parent = (m.program.decl ⟨2⟩).parent ∧
      (m.program.decl ⟨1⟩).name = (m.program.decl ⟨2⟩).name ∧
      (m.program.decl ⟨1⟩).labels ≠ (m.program.decl ⟨2⟩).labels ∧
      (m.program.decl ⟨1⟩).interfaceType ≠ (m.program.decl ⟨2⟩).interfaceType := by
  decide +kernel

end NameMangling
