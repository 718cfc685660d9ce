/-
# How conformances of type parameters are derived

A signature requires conformances of type parameters, and a protocol requires them of its
associated types.  So a type parameter conforms to a protocol if the signature says so, or if
it is a member `Base.A`, where `A` is declared in a protocol that demands the conformance of
`A` and that `Base` conforms to.  The search for an access path finds a derivation whenever
there is one, and each path it finds is a derivation, written from the requirement on.

Main definitions:
* `Program.Derivable`, the rules for the conformances of type parameters;
* `Program.IsAccessPath`, what a path has to be: it starts with a requirement, and each later
  step is an associated conformance of the protocol of the step before.

Main facts:
* `derivable_of_accessPathWithin` and `isAccessPath_accessPathWithin`: what is found is right;
* `Derivable.isSome_accessPathWithin`: what can be derived is found;
* `accessPath_exact`: both together.
-/
import Mathlib.Data.List.Chain
import NameMangling.Proofs.BuiltPrograms

namespace NameMangling

/-- The conformance requirements are those of all requirements that demand a conformance. -/
theorem GenericSignature.mem_conformances {s : GenericSignature} {t : TypeId} {protocol : DeclId} :
    (t, protocol) ∈ s.conformances ↔ ⟨t, .conformance protocol⟩ ∈ s.requirements := by
  rw [GenericSignature.conformances, List.mem_filterMap]
  constructor
  · rintro ⟨⟨subject, demand⟩, hmem, hr⟩
    cases demand <;> cases hr
    exact hmem
  · exact fun hmem => ⟨_, hmem, rfl⟩

namespace Program

variable {p : Program} {s : GenericSignature} {t base : TypeId} {member owner protocol : DeclId}
variable {associated : List AssociatedConformance} {i : Nat}

/-! ## Derivations -/

/-- A type is the member of a base that an associated type of a protocol names, and these are
the associated conformances of the protocol. -/
structure MemberOf (p : Program) (t base : TypeId) (member owner : DeclId)
    (associated : List AssociatedConformance) : Prop where
  node : p.types.node t = .dependentMember base member
  parent : (p.decl member).parent = some (.decl owner)
  kind : p.kindOf owner = .protocolType associated

/-- A type parameter conforms to a protocol by the requirements of a signature, directly or
through the associated conformances of a protocol that its base conforms to. -/
inductive Derivable (p : Program) (s : GenericSignature) : TypeId → DeclId → Prop
  | required {t : TypeId} {protocol : DeclId}
      (hmem : ⟨t, .conformance protocol⟩ ∈ s.requirements) : Derivable p s t protocol
  | associated {t base : TypeId} {member owner protocol : DeclId}
      {associated : List AssociatedConformance}
      (hmember : p.MemberOf t base member owner associated)
      (hmem : ⟨member, protocol⟩ ∈ associated) (hbase : Derivable p s base owner) :
      Derivable p s t protocol

/-- A step is the associated conformance, at its index, of the protocol of the step before. -/
inductive Follows (p : Program) (before : AccessStep) : AccessStep → Prop
  | associated {t : TypeId} {member protocol : DeclId} {i : Nat}
      {associated : List AssociatedConformance}
      (hmember : p.MemberOf t before.subject member before.protocol associated)
      (hi : associated.idxOf? ⟨member, protocol⟩ = some i) :
      Follows p before (.associated t protocol i)

/-- A path leads from a requirement, by its place among the conformance requirements of the
signature, to the conformance of a type to a protocol. -/
structure IsAccessPath (p : Program) (s : GenericSignature) (t : TypeId) (protocol : DeclId)
    (path : List AccessStep) : Prop where
  root : ∃ subject first i,
    path.head? = some (.root subject first i) ∧ s.conformances.idxOf? (subject, first) = some i
  follows : path.IsChain p.Follows
  last : ∃ step, path.getLast? = some step ∧ step.subject = t ∧ step.protocol = protocol

/-! ## One step of the search -/

theorem MemberOf.protocolOf?_eq (h : p.MemberOf t base member owner associated) :
    p.protocolOf? member = some owner := by
  simp [protocolOf?, h.parent, h.kind, DeclKind.isProtocol]

/-- The protocol of an associated type is the declaration around it. -/
theorem parent_of_protocolOf? (h : p.protocolOf? member = some owner) :
    (p.decl member).parent = some (.decl owner) := by
  unfold protocolOf? at h
  split at h
  · split at h <;> cases h
    assumption
  · cases h

/-- Only protocols have associated conformances. -/
theorem kindOf_of_associatedConformances?
    (h : p.associatedConformances? owner = some associated) :
    p.kindOf owner = .protocolType associated := by
  unfold associatedConformances? at h
  split at h <;> cases h
  assumption

/-- What the search does with a conformance that is not required: it reads the type as a
member, and goes on with the base. -/
theorem accessPathWithin_succ_iff {n : Nat} {path : List AccessStep}
    (hroot : s.conformances.idxOf? (t, protocol) = none) :
    p.accessPathWithin s (n + 1) t protocol = some path ↔
      ∃ base member owner associated i front, p.MemberOf t base member owner associated ∧
        associated.idxOf? ⟨member, protocol⟩ = some i ∧
        p.accessPathWithin s n base owner = some front ∧
        path = front ++ [.associated t protocol i] := by
  rw [accessPathWithin, hroot]
  simp only [Option.bind_eq_some_iff, Option.map_eq_some_iff]
  constructor
  · rintro ⟨⟨base, member⟩, hnode, owner, howner, associated, hassociated, i, hi, front, hfront,
      rfl⟩
    -- what the search looked up one after the other is what it means to be such a member
    have hmember : p.MemberOf t base member owner associated :=
      { node := by cases hn : p.types.node t <;> rw [hn] at hnode <;> cases hnode; rfl
        parent := parent_of_protocolOf? howner
        kind := kindOf_of_associatedConformances? hassociated }
    exact ⟨base, member, owner, associated, i, front, hmember, hi, hfront, rfl⟩
  · rintro ⟨base, member, owner, associated, i, front, hmember, hi, hfront, rfl⟩
    refine ⟨(base, member), by rw [hmember.node]; rfl, owner, hmember.protocolOf?_eq, associated,
      ?_, i, hi, front, hfront, rfl⟩
    rw [associatedConformances?, hmember.kind]

/-- A conformance that the signature requires is found at once. -/
theorem accessPathWithin_of_idxOf? {n : Nat}
    (hroot : s.conformances.idxOf? (t, protocol) = some i) :
    p.accessPathWithin s (n + 1) t protocol = some [.root t protocol i] := by
  rw [accessPathWithin, hroot]

/-! ## What is found is right -/

/-- A path has been found because there is a derivation. -/
theorem derivable_of_accessPathWithin {n : Nat} {path : List AccessStep}
    (h : p.accessPathWithin s n t protocol = some path) : p.Derivable s t protocol := by
  induction n generalizing t protocol path with
  | zero => cases h
  | succ n ih =>
    cases hroot : s.conformances.idxOf? (t, protocol) with
    | some i =>
      have hmem : (t, protocol) ∈ s.conformances := List.isSome_idxOf?.1 (by rw [hroot]; rfl)
      exact .required (GenericSignature.mem_conformances.1 hmem)
    | none =>
      obtain ⟨base, member, owner, associated, i, front, hmember, hi, hfront, -⟩ :=
        (accessPathWithin_succ_iff hroot).1 h
      have hmem : ⟨member, protocol⟩ ∈ associated := List.isSome_idxOf?.1 (by rw [hi]; rfl)
      exact .associated hmember hmem (ih hfront)

/-- A path that has been found is one, a step longer than the path of the base. -/
theorem isAccessPath_accessPathWithin {n : Nat} {path : List AccessStep}
    (h : p.accessPathWithin s n t protocol = some path) : p.IsAccessPath s t protocol path := by
  induction n generalizing t protocol path with
  | zero => cases h
  | succ n ih =>
    cases hroot : s.conformances.idxOf? (t, protocol) with
    | some i =>
      rw [accessPathWithin_of_idxOf? hroot] at h
      cases h
      exact
        { root := ⟨t, protocol, i, rfl, hroot⟩
          follows := .singleton _
          last := ⟨_, rfl, rfl, rfl⟩ }
    | none =>
      obtain ⟨base, member, owner, associated, i, front, hmember, hi, hfront, rfl⟩ :=
        (accessPathWithin_succ_iff hroot).1 h
      have hbase := ih hfront
      obtain ⟨subject, first, j, hhead, hj⟩ := hbase.root
      obtain ⟨step, hlast, rfl, rfl⟩ := hbase.last
      refine
        { root := ⟨subject, first, j, by simp [hhead], hj⟩
          follows := ?_
          last := ⟨_, List.getLast?_concat, rfl, rfl⟩ }
      -- the new step follows the last one of the path for the base
      refine hbase.follows.append (.singleton _) fun before hbefore after hafter => ?_
      rw [hlast] at hbefore
      cases hbefore
      cases hafter
      exact .associated hmember hi

/-! ## What can be derived is found -/

/-- A search that may go through as many types as stand up to this one finds a derivation, for
the base of a member stands before it. -/
theorem Derivable.isSome_accessPathWithin (hp : p.types.Shared) (h : p.Derivable s t protocol)
    {n : Nat} (hpos : 0 < n) (hlt : t.index < p.types.size → t.index < n) :
    (p.accessPathWithin s n t protocol).isSome := by
  induction h generalizing n with
  | @required t protocol hmem =>
    obtain ⟨n, rfl⟩ := Nat.exists_eq_add_one.2 hpos
    have hrequired := GenericSignature.mem_conformances.2 hmem
    obtain ⟨i, hi⟩ := Option.isSome_iff_exists.1 (List.isSome_idxOf?.2 hrequired)
    rw [accessPathWithin_of_idxOf? hi]
    rfl
  | @associated t base member owner protocol associated hmember hmem hbase ih =>
    obtain ⟨n, rfl⟩ := Nat.exists_eq_add_one.2 hpos
    cases hroot : s.conformances.idxOf? (t, protocol) with
    | some i =>
      rw [accessPathWithin_of_idxOf? hroot]
      rfl
    | none =>
      -- the base stands before the member, so one step less is enough for it
      have ht : t.index < p.types.size := Arena.lt_of_node_ne (by simp [hmember.node])
      have hbefore : base.index < t.index :=
        hp.parts_lt ht (by rw [hmember.node]; exact List.mem_singleton_self base)
      have htn := hlt ht
      obtain ⟨front, hfront⟩ := Option.isSome_iff_exists.1
        (ih (n := n) (by omega) fun _ => by omega)
      obtain ⟨i, hi⟩ := Option.isSome_iff_exists.1 (List.isSome_idxOf?.2 hmem)
      rw [Option.isSome_iff_exists]
      exact ⟨_, (accessPathWithin_succ_iff hroot).2
        ⟨base, member, owner, associated, i, front, hmember, hi, hfront, rfl⟩⟩

/-- In a program that has been built, a conformance has an access path if and only if it can be
derived from the signature, and the path is a derivation of it. -/
theorem accessPath_exact (hbuilt : p.Built) (sig : SignatureId) (t : TypeId) (protocol : DeclId) :
    ((p.accessPath sig t protocol).isSome ↔ p.Derivable (p.signature sig) t protocol) ∧
      ∀ path, p.accessPath sig t protocol = some path →
        p.IsAccessPath (p.signature sig) t protocol path := by
  have hp := hbuilt.sound
  refine ⟨⟨fun h => ?_, fun h => ?_⟩, fun path hpath => isAccessPath_accessPathWithin hpath⟩
  · obtain ⟨path, hpath⟩ := Option.isSome_iff_exists.1 h
    exact derivable_of_accessPathWithin hpath
  · exact h.isSome_accessPathWithin hp.settled.toShared hp.nonempty id

/-! ## A member of a member -/

/-- In a module `M` protocols `Q`, `P` with associated types `A` and `B` such that `A: P` and
`B: Q`, and a signature `<X> where X: Q, X: P` with a layout in between. -/
def associatedSteps : List BuildStep :=
  [.intern "M", .decl { kind := .nativeModule, name := some ⟨1⟩ },
    .intern "Q", .decl { kind := .protocolType [], name := some ⟨2⟩, parent := some (.decl ⟨0⟩) },
    .intern "P", .decl { name := some ⟨3⟩, parent := some (.decl ⟨0⟩) },
    .intern "A",
    .decl { kind := .associatedType, name := some ⟨4⟩, parent := some (.decl ⟨2⟩) },
    .intern "B",
    .decl { kind := .associatedType, name := some ⟨5⟩, parent := some (.decl ⟨2⟩) },
    .setDecl ⟨2⟩ { kind := .protocolType [⟨⟨3⟩, ⟨2⟩⟩, ⟨⟨4⟩, ⟨1⟩⟩], name := some ⟨3⟩,
                   parent := some (.decl ⟨0⟩) },
    .type (.genericParam ⟨0, 0⟩), .type (.dependentMember ⟨12⟩ ⟨3⟩),
    .type (.dependentMember ⟨13⟩ ⟨4⟩),
    .signature (.ofParams [⟨0, 0⟩]
      [⟨⟨12⟩, .conformance ⟨1⟩⟩, ⟨⟨12⟩, .layout .refCounted⟩, ⟨⟨12⟩, .conformance ⟨2⟩⟩])]

/-- The program with these protocols. -/
def associatedProgram : Program := empty.build associatedSteps

theorem associatedProgram_built : associatedProgram.Built :=
  ⟨⟨associatedSteps, by decide +kernel, rfl⟩, by decide +kernel⟩

/-- That `X.A.B` conforms to `Q` follows from the second conformance requirement, then by the
first and the second associated conformance of `P`. -/
theorem accessPath_exact_member :
    associatedProgram.Built ∧
      associatedProgram.accessPath ⟨0⟩ ⟨14⟩ ⟨1⟩ =
        some [.root ⟨12⟩ ⟨2⟩ 1, .associated ⟨13⟩ ⟨2⟩ 0, .associated ⟨14⟩ ⟨1⟩ 1] ∧
      associatedProgram.Derivable (associatedProgram.signature ⟨0⟩) ⟨14⟩ ⟨1⟩ ∧
      associatedProgram.IsAccessPath (associatedProgram.signature ⟨0⟩) ⟨14⟩ ⟨1⟩
        [.root ⟨12⟩ ⟨2⟩ 1, .associated ⟨13⟩ ⟨2⟩ 0, .associated ⟨14⟩ ⟨1⟩ 1] := by
  have hpath : associatedProgram.accessPath ⟨0⟩ ⟨14⟩ ⟨1⟩ =
      some [.root ⟨12⟩ ⟨2⟩ 1, .associated ⟨13⟩ ⟨2⟩ 0, .associated ⟨14⟩ ⟨1⟩ 1] := by
    decide +kernel
  obtain ⟨hiff, hexact⟩ := accessPath_exact associatedProgram_built ⟨0⟩ ⟨14⟩ ⟨1⟩
  exact ⟨associatedProgram_built, hpath, hiff.1 (by rw [hpath]; rfl), hexact _ hpath⟩

end Program

end NameMangling
