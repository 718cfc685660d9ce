/-
# Tables of names and of signatures

A program keeps the texts of its names and its generic signatures in interners.  Handles are
compared in the place of what they stand for, which is right because they stand for it: equal
texts and equal signatures, and only those, have one handle, and a handle is read as what it was
handed out for, whatever else the program has been given since.

Main definition: `Program.issuedSignatures`, the handles of the signatures that are added while
a program is built.

Main facts:
* `GenericSignature.ofParams_eq_iff`: signatures are the same if their parameters are the same set
  and their requirements the same list;
* `Program.signatureTable_build`: the table of signatures after any steps;
* `interned_tables_exact`: both tables are exact and stable.
-/
import NameMangling.Proofs.BuiltPrograms
import NameMangling.Proofs.ParameterLookup

namespace NameMangling

/-! ## Names -/

namespace NameTable

/-- A new table of names has met the empty text. -/
theorem holds_initial : ({} : NameTable).texts.Holds [""] := Interner.holds_empty.intern ""

/-- The names of some texts are their places in the order of first occurrences, in which the
empty text comes first of all. -/
theorem internAll_fst (texts : List String) : (({} : NameTable).internAll texts).1 =
    texts.map fun s => ⟨("" :: texts).eraseDups.idxOf s⟩ := by
  show ((({} : NameTable).texts.internAll texts).1).map Name.mk = _
  rw [(holds_initial.internAll texts).2, List.map_map]
  rfl

/-- A new table of names holds the empty text and each further one once. -/
theorem size_internAll (texts : List String) :
    (({} : NameTable).internAll texts).2.size =
      1 + (texts.filter (· != "")).eraseDups.length := by
  have hsize := (holds_initial.internAll texts).1.size_eq
  rw [List.singleton_append, List.eraseDups_cons, List.length_cons, Nat.add_comm] at hsize
  exact hsize

/-- A slot that has not been handed out reads as the empty text. -/
theorem text_of_notMem {texts : List String} {n : Name}
    (hn : n ∉ (({} : NameTable).internAll texts).1) :
    (({} : NameTable).internAll texts).2.text n = "" := by
  have hholds := (holds_initial.internAll texts).1
  show ((({} : NameTable).texts.internAll texts).2.value? n.slot).getD "" = ""
  cases hvalue : (({} : NameTable).texts.internAll texts).2.value? n.slot with
  | none => rfl
  | some s =>
    rw [Option.getD_some]
    by_contra hs
    -- a text in a slot was met, and the slot is the one that was handed out for it
    have hmet : s ∈ [""] ++ texts := by
      by_contra hmet
      have hslot := hholds.slot?_eq_some_iff.2 hvalue
      rw [hholds.slot?_eq_none_iff.2 hmet] at hslot
      cases hslot
    have hslot := hholds.slot?_eq_some_iff.2 hvalue
    rw [hholds.slot?_of_mem hmet, Option.some_inj] at hslot
    refine hn ?_
    rw [internAll_fst, List.mem_map]
    exact ⟨s, by simpa [hs] using hmet, congrArg Name.mk hslot⟩

end NameTable

/-! ## Signatures -/

/-- Signatures are the same if their parameters are the same set and their requirements the same
list. -/
theorem GenericSignature.ofParams_eq_iff {params params' : List ParamKey}
    {requirements requirements' : List Requirement} :
    ofParams params requirements = ofParams params' requirements' ↔
      (∀ key, key ∈ params ↔ key ∈ params') ∧ requirements = requirements' := by
  constructor
  · intro h
    refine ⟨fun key => ?_, congrArg GenericSignature.requirements h⟩
    rw [← mem_ofParams params requirements, h, mem_ofParams]
  · rintro ⟨hmem, rfl⟩
    have hparams : (ofParams params requirements).params = (ofParams params' requirements).params :=
      ParamKey.eq_of_mem_iff (ofParams params requirements).ordered
        (ofParams params' requirements).ordered fun key => by
          rw [mem_ofParams, mem_ofParams, hmem]
    exact GenericSignature.ext hparams rfl

/-- The signature that a step adds, if it adds one. -/
def BuildStep.addedSignature? : BuildStep → Option GenericSignature
  | .signature s => some s
  | _ => none

/-- The signatures that some steps add, in order. -/
def addedSignatures (steps : List BuildStep) : List GenericSignature :=
  steps.filterMap BuildStep.addedSignature?

namespace Program

/-- The signatures that are added by some steps, with the handles that are returned for them. -/
def issuedSignatures (p : Program) : List BuildStep → List (GenericSignature × SignatureId)
  | [] => []
  | step :: steps =>
    (step.addedSignature?.map fun s => (s, (p.addSignature s).1)).toList
      ++ (p.step step).issuedSignatures steps

/-- The table of signatures is built by the steps that add signatures; no other step touches it. -/
theorem signatureTable_build (p : Program) (steps : List BuildStep) :
    (p.build steps).signatureTable = (p.signatureTable.internAll (addedSignatures steps)).2 := by
  induction steps generalizing p with
  | nil => rfl
  | cons step steps ih =>
    refine (ih (p.step step)).trans ?_
    cases step <;> rfl

/-- Handles are returned as interning returns them, one for each signature that is added. -/
theorem issuedSignatures_eq (p : Program) (steps : List BuildStep) :
    p.issuedSignatures steps = (addedSignatures steps).zip
      ((p.signatureTable.internAll (addedSignatures steps)).1.map SignatureId.mk) := by
  induction steps generalizing p with
  | nil => rfl
  | cons step steps ih =>
    rw [issuedSignatures, ih (p.step step)]
    cases step <;> rfl

/-- The handles of signatures are their places in the order of first additions. -/
theorem issuedSignatures_empty (steps : List BuildStep) : empty.issuedSignatures steps =
    (addedSignatures steps).map fun s => (s, ⟨(addedSignatures steps).eraseDups.idxOf s⟩) := by
  have hslots := (Interner.holds_empty.internAll (addedSignatures steps)).2
  rw [issuedSignatures_eq, show empty.signatureTable = {} from rfl, hslots, List.map_map,
    ← List.map_prod_left_eq_zip]
  rfl

/-- Every signature is listed once. -/
theorem signatures_build (steps : List BuildStep) :
    (empty.build steps).signatures.toList = (addedSignatures steps).eraseDups := by
  rw [signatures, signatureTable_build]
  exact (Interner.holds_empty.internAll (addedSignatures steps)).1.values

/-- Handles stand for the signatures they were handed out for. -/
theorem faithful_signatures (steps further : List BuildStep) :
    Faithful (empty.issuedSignatures steps) ((empty.build steps).build further).signature := by
  have hread : ((empty.build steps).build further).signature = fun i =>
      (((empty.signatureTable.internAll (addedSignatures steps)).2.internAll
        (addedSignatures further)).2.value? i.index).getD default := by
    rw [← signatureTable_build, ← signatureTable_build]
    rfl
  rw [issuedSignatures_eq, hread]
  exact Interner.holds_empty.faithful _ _ _ fun _ => rfl

end Program

/-! ## Exactness -/

/-- The tables of names and of signatures are exact and stable.

Equal texts, and only those, have one name in a new table, and a name is read as its text after
any further texts.  Slots are handed out one after the other at the first occurrences of texts,
behind that of the empty text; a slot that has not been handed out reads as the empty text, and
there are as many slots as there are different texts.

Equal signatures, and only those, have one handle in a program, and a handle is read as its
signature after any further steps.  Signatures are listed in the order in which they were first
added; those with the same set of parameters and the same requirements are equal. -/
theorem interned_tables_exact :
    (∀ texts further : List String,
      let names := (({} : NameTable).internAll texts).1
      let table := (({} : NameTable).internAll texts).2
      Faithful (texts.zip names) (table.internAll further).2.text ∧
        names = texts.map (fun s => ⟨("" :: texts).eraseDups.idxOf s⟩) ∧
        (∀ n, n ∉ names → table.text n = "") ∧
        table.size = 1 + (texts.filter (· != "")).eraseDups.length) ∧
    (∀ steps further : List BuildStep,
      let issued := Program.empty.issuedSignatures steps
      let p := Program.empty.build steps
      Faithful issued (p.build further).signature ∧
        issued = (addedSignatures steps).map
          (fun s => (s, ⟨(addedSignatures steps).eraseDups.idxOf s⟩)) ∧
        p.signatures.toList = (addedSignatures steps).eraseDups) ∧
    ∀ (params params' : List ParamKey) (requirements requirements' : List Requirement),
      GenericSignature.ofParams params requirements = .ofParams params' requirements' ↔
        (∀ key, key ∈ params ↔ key ∈ params') ∧ requirements = requirements' := by
  refine ⟨fun texts further => ?_, fun steps further => ?_,
    fun _ _ _ _ => GenericSignature.ofParams_eq_iff⟩
  · refine ⟨?_, NameTable.internAll_fst texts, fun n => NameTable.text_of_notMem,
      NameTable.size_internAll texts⟩
    exact NameTable.holds_initial.faithful texts further "" fun _ => rfl
  · exact ⟨Program.faithful_signatures steps further, Program.issuedSignatures_empty steps,
      Program.signatures_build steps⟩

/-- A text and a signature that are met twice, the signature with its parameters in another order
and a name between the two additions. -/
theorem interned_tables_exact_repetition :
    let texts := ["b", "a", "", "b"]
    let names := (({} : NameTable).internAll texts).1
    let table := (({} : NameTable).internAll texts).2
    let s : GenericSignature := .ofParams [⟨0, 1⟩, ⟨0, 0⟩] []
    let s' : GenericSignature := .ofParams [⟨0, 0⟩, ⟨0, 1⟩, ⟨0, 0⟩] []
    let other : GenericSignature := .ofParams [⟨0, 0⟩] []
    let steps : List BuildStep := [.signature s, .intern "x", .signature other, .signature s']
    names = [⟨1⟩, ⟨2⟩, ⟨0⟩, ⟨1⟩] ∧ ("b", ⟨1⟩) ∈ texts.zip names ∧
      (table.internAll ["c"]).2.text ⟨1⟩ = "b" ∧ ⟨3⟩ ∉ names ∧ table.text ⟨3⟩ = "" ∧
      table.size = 3 ∧ Program.empty.issuedSignatures steps = [(s, ⟨0⟩), (other, ⟨1⟩), (s', ⟨0⟩)] ∧
      s = s' ∧
      ((Program.empty.build steps).build [.signature (.ofParams [] [])]).signature ⟨0⟩ = s := by
  intro texts names table s s' other steps
  obtain ⟨hnames, hsignatures, hsets⟩ := interned_tables_exact
  obtain ⟨hfaithful, hplaces, habsent, hsize⟩ := hnames texts ["c"]
  obtain ⟨hstand, hissued, -⟩ := hsignatures steps [.signature (.ofParams [] [])]
  have hmem : ("b", ⟨1⟩) ∈ texts.zip names := by decide +kernel
  have hnew : (⟨3⟩ : Name) ∉ names := by decide +kernel
  have hequal : s = s' := (hsets _ _ _ _).2 ⟨fun key => by simp [or_comm], rfl⟩
  refine ⟨hplaces.trans (by decide +kernel), hmem, hfaithful.reads hmem, hnew, habsent _ hnew,
    hsize.trans (by decide +kernel), hissued.trans (by decide +kernel), hequal, ?_⟩
  exact hstand.reads (by decide +kernel)

end NameMangling
