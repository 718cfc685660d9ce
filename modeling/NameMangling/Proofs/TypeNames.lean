/-
# Names of types without labels

A type that has no labels can be read off its name.  The reader of such names understands
what is written for a type as that type, whatever stands around it, and it completes the
same nodes as the writer.  So two types of one name are one type.

Main facts:
* `reads_type`: what is written for a type is read as this type;
* `typeWithoutLead_injective`: types without labels that have one name are the same.
-/
import NameMangling.Proofs.ReadingFunctions

namespace NameMangling

/-! ## Reading all types -/

/-- What is written for a type without labels is read as this type.  The parts of a type
are spelled at smaller depths. -/
theorem reads_type {g : Grammar} {n : Nat} {t : TypeId} (hopts : g.options = {})
    (hp : g.program.NamesApart) (ha : g.program.types.Shared) (h : g.program.Unlabelled t) :
    ReadsType g n t := by
  induction n using Nat.strongRecOn generalizing t with
  | _ n ih =>
    refine ⟨h.lt, fun scope => readsPieces_phrase fun m hm => ?_⟩
    show ReadsPieces g m (g.type scope t) _ _
    have hparts : ∀ k, k < m → ∀ u, g.program.Unlabelled u → ReadsType g k u :=
      fun k hk u hu => ih k (by omega) hu
    cases h with
    | builtin ht h => exact reads_leaf ha ht (by simp [TypeNode.isLeaf, h])
    | param ht h => exact reads_leaf ha ht (by simp [TypeNode.isLeaf, h, TypeNode.kind])
    | nominal ht h hd =>
      rename_i d
      have hkey : g.program.keyOf t = .decl d := by
        unfold Program.keyOf
        rw [h]
      rw [hkey]
      rcases type_eq (g := g) scope t with htype | htype <;> rw [htype]
      · exact readsPieces_fail
      · rw [h]
        exact (reads_nominal hopts hp hd).mono fun _ _ => trivial
    | boundGeneric ht h hd hne hargs =>
      refine reads_node (by rw [h]; simp [TypeNode.kind]) fun k hk => ?_
      exact reads_boundGeneric hopts hp ha ht h hd hne fun u hu => hparts k hk u (hargs u hu)
    | tuple ht h hlabels helements =>
      have hkind : g.program.types.kind t = .tuple := by rw [Arena.kind, h]; rfl
      have hread : ReadsPieces g m (g.type scope t) Quiet [.key (g.program.keyOf t)] := by
        refine reads_node (by rw [h]; simp [TypeNode.kind]) fun k hk => ?_
        exact reads_tuple ha ht h hlabels fun e he => hparts k hk _ (helements e he)
      exact hread.mono fun rest hrest => hrest hkind
    | function ht h hparams hresult =>
      refine reads_node (by rw [h]; simp [TypeNode.kind]) fun k hk => ?_
      exact reads_function ha ht h (fun q hq => hparts k hk _ (hparams q hq))
        (hparts k hk _ hresult)
    | lowered ht h hrepr htypes =>
      refine reads_node (by rw [h]; simp [TypeNode.kind]) fun k hk => ?_
      exact reads_lowered ha ht h hrepr fun u hu => hparts k hk u (htypes u hu)
    | metatype ht h hu =>
      refine reads_node (by rw [h]; simp [TypeNode.kind]) fun k hk => ?_
      refine reads_wrapped (o := .metatype) (k := .metatype) ha ht (hparts k hk _ hu) h rfl ?_
        fun _ _ _ _ => rfl
      rw [Grammar.structural, h]
    | existentialMetatype ht h hu =>
      refine reads_node (by rw [h]; simp [TypeNode.kind]) fun k hk => ?_
      refine reads_wrapped (o := .existentialMetatype) (k := .existentialMetatype) ha ht
        (hparts k hk _ hu) h rfl ?_ fun _ _ _ _ => rfl
      rw [Grammar.structural, h]
    | existential ht h hbound hsuperclass =>
      refine reads_node (by rw [h]; simp [TypeNode.kind]) fun k hk => ?_
      exact reads_existential hopts hp ha ht h hbound fun u hu =>
        hparts k hk u (hsuperclass u hu)

/-! ## Names -/

section

variable {m : Mangler} {t a b : TypeId} {text : String}

/-- The name of a type is read to its end, and what is left is the type. -/
theorem leads_of_typeWithoutLead (hopts : m.options = {}) (hp : m.program.NamesApart)
    (ha : m.program.types.Shared) (ht : m.program.Unlabelled t)
    (h : m.mangle (.typeWithoutLead t) = .ok text) : ∃ tokens table,
      text = Mangler.symbol "" tokens ∧
      Leads m.program.readToken ⟨[], [], tokens⟩ ⟨[.key (m.program.keyOf t)], table, []⟩ := by
  obtain ⟨s, hwrites, rfl⟩ := Mangler.writes_of_mangle hopts rfl rfl h
  have hread := reads_type (g := m.grammar false) (t := t)
    (n := (m.grammar false).depthBound) hopts hp ha ht
  obtain ⟨new, hnew, hreads⟩ := hread.reads Grammar.outermost _ _ .empty hwrites
  refine ⟨new, s.table, by rw [hnew]; rfl, ?_⟩
  have hleads := hreads.leads [] [] (by rintro f σ ⟨⟩) fun _ => rfl
  rw [List.append_nil] at hleads
  exact hleads

/-- Types without labels that have one name are the same, where modules and nominal types
can be told by their names. -/
theorem typeWithoutLead_injective (hopts : m.options = {}) (hp : m.program.NamesApart)
    (harena : m.program.types.Built) (ha : m.program.Unlabelled a) (hb : m.program.Unlabelled b)
    (hnameA : m.mangle (.typeWithoutLead a) = .ok text)
    (hnameB : m.mangle (.typeWithoutLead b) = .ok text) : a = b := by
  have hshared := harena.shared.1
  obtain ⟨ts, table, hts, hleads⟩ := leads_of_typeWithoutLead hopts hp hshared ha hnameA
  obtain ⟨us, table', hus, hleads'⟩ := leads_of_typeWithoutLead hopts hp hshared hb hnameB
  have htext : spellAll ts = spellAll us := Mangler.symbol_injective (hts.symm.trans hus)
  have htokens : ts = us := by
    refine Lexes.eq_of_spellAll_eq (lexes_of_leads hleads rfl rfl) ?_ htext
    exact lexes_of_leads hleads' rfl rfl
  subst htokens
  -- the reader takes both to the end of one token list, and there it holds both types
  have hend := hleads.eq_of_stuck hleads' rfl rfl
  have hkey : m.program.keyOf a = m.program.keyOf b := by
    have hstack := congrArg Reader.stack hend
    simpa using hstack
  have htypeA := Program.typeOf?_keyOf hshared ha.lt
  rw [hkey, Program.typeOf?_keyOf hshared hb.lt] at htypeA
  exact (Option.some.inj htypeA).symm

end

/-- A struct `S` in a module `M`, and the type of a pair of `S` and its metatype. -/
def structProgram : Program :=
  let p := Program.empty
  let (module, p) := p.addNamed .nativeModule "M" none
  let (struct, p) := p.addNamed .structType "S" (some (.decl module))
  let (nominal, p) := p.addType (.nominal struct none)
  let (metatype, p) := p.addType (.metatype nominal)
  (p.addType (.tuple [⟨none, nominal⟩, ⟨none, metatype⟩])).2

/-- The names of the program are apart. -/
theorem structProgram_namesApart : structProgram.NamesApart where
  noStandard := rfl
  noForeign := by rintro ⟨_ | _ | i⟩ <;> exact nofun
  noConformances := rfl
  modules := by
    rintro ⟨_ | _ | i⟩ ⟨_ | _ | j⟩ x y hd he hx hy - <;> first
      | rfl
      | cases hd; done
      | cases he; done
      | cases hx; done
      | cases hy
  discriminators := by
    rintro ⟨_ | _ | i⟩ hd <;> first
      | cases hd; done
      | exact ⟨rfl, rfl⟩
  parents := by
    rintro ⟨_ | _ | i⟩ hd <;> first
      | cases hd; done
      | exact ⟨⟨0⟩, rfl, .inl rfl⟩
  siblings := by
    rintro ⟨_ | _ | i⟩ ⟨_ | _ | j⟩ x y hd he - - - - <;> first
      | rfl
      | cases hd; done
      | cases he

/-- The types of the program have been built. -/
theorem structProgram_built : structProgram.types.Built := by
  have hnominal : ((Arena.initial.construct (.nominal ⟨1⟩ none)).2).Built :=
    .construct .initial _ (by decide +kernel)
  have hmetatype := hnominal.construct (.metatype ⟨12⟩) (by decide +kernel)
  have hpair := hmetatype.construct (.tuple [⟨none, ⟨12⟩⟩, ⟨none, ⟨13⟩⟩]) (by decide +kernel)
  have htypes : structProgram.types =
      (((Arena.initial.construct (.nominal ⟨1⟩ none)).2.construct (.metatype ⟨12⟩)).2.construct
        (.tuple [⟨none, ⟨12⟩⟩, ⟨none, ⟨13⟩⟩])).2 := by decide +kernel
  rw [htypes]
  exact hpair

/-- The pair of the two structs is unlabelled. -/
theorem structProgram_pair {t : TypeId} (ht : t.index < structProgram.types.size)
    (h : structProgram.types.node t = .tuple [⟨none, ⟨12⟩⟩, ⟨none, ⟨13⟩⟩]) :
    structProgram.Unlabelled t := by
  have hnominal : structProgram.Unlabelled ⟨12⟩ :=
    .nominal (d := ⟨1⟩) (by decide +kernel) (by decide +kernel) rfl
  have hmetatype : structProgram.Unlabelled ⟨13⟩ :=
    .metatype (u := ⟨12⟩) (by decide +kernel) (by decide +kernel) hnominal
  refine .tuple ht h (by simp) ?_
  simpa using ⟨hnominal, hmetatype⟩

/-- The pair built again has the name of the first one, so it is the same type. -/
theorem typeWithoutLead_injective_pair :
    let again := (structProgram.addType (.tuple [⟨none, ⟨12⟩⟩, ⟨none, ⟨13⟩⟩])).1
    let m : Mangler := { program := structProgram }
    m.mangle (.typeWithoutLead ⟨14⟩) = .ok "1M1SV_Abmt" ∧
      m.mangle (.typeWithoutLead again) = .ok "1M1SV_Abmt" ∧ ⟨14⟩ = again := by
  intro again m
  have hpair : m.program.Unlabelled ⟨14⟩ :=
    structProgram_pair (by decide +kernel) (by decide +kernel)
  have hagain : m.program.Unlabelled again :=
    structProgram_pair (by decide +kernel) (by decide +kernel)
  have hname : m.mangle (.typeWithoutLead ⟨14⟩) = .ok "1M1SV_Abmt" := by decide +kernel
  have hnameAgain : m.mangle (.typeWithoutLead again) = .ok "1M1SV_Abmt" := by decide +kernel
  exact ⟨hname, hnameAgain, typeWithoutLead_injective rfl structProgram_namesApart
    structProgram_built hpair hagain hname hnameAgain⟩

end NameMangling
