/-
# Programs whose nameless declarations are given a name

The identifiers in a symbol come from names of declarations, and almost nothing else does:
which contexts surround what, which signature is in scope, which conformances are found and
what they need is the same in a program whose nameless declarations have been given a name.
This module lists what a name does not matter to.

Main definition: `Program.naming`.
-/
import NameMangling.Program

namespace NameMangling.Program

/-- The program in which all declarations without a name are called `n`, if it is given. -/
def naming (p : Program) (n : Option Name) : Program :=
  { p with decls := p.decls.map fun d => { d with name := d.name.or n } }

/-- Without a name to be given the program stays as it is. -/
theorem naming_none (p : Program) : p.naming none = p := by
  simp [naming, Option.or_none]

variable (p : Program) (n : Option Name)

/-! ## What is stored -/

@[simp] theorem types_naming : (p.naming n).types = p.types := rfl

@[simp] theorem text_naming : (p.naming n).text = p.text := rfl

@[simp] theorem closure_naming : (p.naming n).closure = p.closure := rfl

@[simp] theorem binding_naming : (p.naming n).binding = p.binding := rfl

@[simp] theorem signature_naming : (p.naming n).signature = p.signature := rfl

@[simp] theorem conformance_naming : (p.naming n).conformance = p.conformance := rfl

@[simp] theorem isStandardModule_naming : (p.naming n).isStandardModule = p.isStandardModule := rfl

@[simp] theorem declIds_naming : (p.naming n).declIds = p.declIds := by
  simp [declIds, naming]

/-- Only the name of a declaration changes, and only if there is such a declaration. -/
theorem decl_naming (d : DeclId) : (p.naming n).decl d =
    if d.index < p.decls.size then { p.decl d with name := (p.decl d).name.or n } else {} := by
  unfold decl naming
  rw [Array.getElem?_map]
  split
  · rename_i h
    simp [h]
  · rename_i h
    simp [h]

/-- A declaration that has a name keeps it. -/
theorem name_naming_of_some {d : DeclId} {x : Name} (h : (p.decl d).name = some x) :
    ((p.naming n).decl d).name = some x := by
  rw [decl_naming]
  split
  · simp [h]
  · rename_i hd
    simp [decl, hd] at h

/-- A declaration that has no name gets the given one, if there is such a declaration. -/
theorem name_naming_of_none {d : DeclId} (h : (p.decl d).name = none) :
    ((p.naming n).decl d).name = if d.index < p.decls.size then n else none := by
  rw [decl_naming]
  split
  · simp [h]
  · rfl

/-- Of a declaration nothing but the name changes. -/
theorem exists_decl_naming (d : DeclId) :
    ∃ x, (p.naming n).decl d = { p.decl d with name := x } := by
  rw [decl_naming]
  split
  · exact ⟨_, rfl⟩
  · rename_i hd
    exact ⟨none, by simp [decl, hd]⟩

/-- Naming changes the kind of no declaration. -/
@[simp] theorem kindOf_naming : (p.naming n).kindOf = p.kindOf := by
  funext d
  obtain ⟨x, h⟩ := p.exists_decl_naming n d
  rw [kindOf, h, kindOf]

@[simp] theorem parent_naming (d : DeclId) : ((p.naming n).decl d).parent = (p.decl d).parent := by
  obtain ⟨x, h⟩ := p.exists_decl_naming n d
  rw [h]

/-- Naming changes the signature of no declaration. -/
@[simp] theorem ownSignature_naming (d : DeclId) :
    ((p.naming n).decl d).signature = (p.decl d).signature := by
  obtain ⟨x, h⟩ := p.exists_decl_naming n d
  rw [h]

/-- Naming changes the type of no declaration. -/
@[simp] theorem interfaceType_naming (d : DeclId) :
    ((p.naming n).decl d).interfaceType = (p.decl d).interfaceType := by
  obtain ⟨x, h⟩ := p.exists_decl_naming n d
  rw [h]

@[simp] theorem flags_naming (d : DeclId) : ((p.naming n).decl d).flags = (p.decl d).flags := by
  obtain ⟨x, h⟩ := p.exists_decl_naming n d
  rw [h]

@[simp] theorem labels_naming (d : DeclId) : ((p.naming n).decl d).labels = (p.decl d).labels := by
  obtain ⟨x, h⟩ := p.exists_decl_naming n d
  rw [h]

/-- Naming changes no local discriminator. -/
@[simp] theorem localDiscriminator_naming (d : DeclId) :
    ((p.naming n).decl d).localDiscriminator = (p.decl d).localDiscriminator := by
  obtain ⟨x, h⟩ := p.exists_decl_naming n d
  rw [h]

/-- Naming changes no file discriminator. -/
@[simp] theorem privateDiscriminator_naming (d : DeclId) :
    ((p.naming n).decl d).privateDiscriminator = (p.decl d).privateDiscriminator := by
  obtain ⟨x, h⟩ := p.exists_decl_naming n d
  rw [h]

/-- Naming changes no runtime name. -/
@[simp] theorem foreignName_naming (d : DeclId) :
    ((p.naming n).decl d).foreignName = (p.decl d).foreignName := by
  obtain ⟨x, h⟩ := p.exists_decl_naming n d
  rw [h]

/-! ## Contexts -/

/-- Naming leaves every context where it is. -/
@[simp] theorem parent?_naming : (p.naming n).parent? = p.parent? := by
  funext c
  cases c with
  | decl d => exact parent_naming p n d
  | _ => rfl

@[simp] theorem walkBound_naming : (p.naming n).walkBound = p.walkBound := by
  simp [walkBound, naming]

@[simp] theorem ancestors_naming : (p.naming n).ancestors = p.ancestors := by
  funext c
  simp only [ancestors, parent?_naming, walkBound_naming]

/-- Naming leaves the contexts that are modules, and no others. -/
@[simp] theorem module?_naming : (p.naming n).module? = p.module? := by
  funext c
  unfold module?
  rw [kindOf_naming]

@[simp] theorem moduleOf_naming : (p.naming n).moduleOf = p.moduleOf := by
  funext c
  simp only [moduleOf, ancestors_naming, module?_naming]

/-- Naming changes the own signature of no context. -/
@[simp] theorem ownSignature?_naming : (p.naming n).ownSignature? = p.ownSignature? := by
  funext c
  cases c with
  | decl d => simp only [ownSignature?, kindOf_naming, ownSignature_naming]
  | _ => rfl

/-- Naming does not change where the signature around a context is looked for. -/
@[simp] theorem signatureParent?_naming : (p.naming n).signatureParent? = p.signatureParent? := by
  funext c
  unfold signatureParent?
  simp only [kindOf_naming, parent?_naming]

@[simp] theorem signatureOf_naming : (p.naming n).signatureOf = p.signatureOf := by
  funext c
  simp only [signatureOf, signatureParent?_naming, walkBound_naming, ownSignature?_naming]

@[simp] theorem outerSignature_naming : (p.naming n).outerSignature = p.outerSignature := by
  funext d
  simp only [outerSignature, parent_naming, signatureOf_naming]

@[simp] theorem protocolOf?_naming : (p.naming n).protocolOf? = p.protocolOf? := by
  funext d
  simp only [protocolOf?, parent_naming, kindOf_naming]

@[simp] theorem opaqueResultOf?_naming : (p.naming n).opaqueResultOf? = p.opaqueResultOf? := by
  funext d
  simp only [opaqueResultOf?, declIds_naming, kindOf_naming]

/-- Naming changes no protocol's associated conformances. -/
@[simp] theorem associatedConformances?_naming :
    (p.naming n).associatedConformances? = p.associatedConformances? := by
  funext d
  simp only [associatedConformances?, kindOf_naming]

/-! ## Conformances -/

@[simp] theorem nominalOf_naming : (p.naming n).nominalOf = p.nominalOf := rfl

/-- Naming changes no type's arguments. -/
@[simp] theorem argLevels_naming : (p.naming n).argLevels = p.argLevels := by
  have hup (k : Nat) (t : TypeId) : (p.naming n).argLevelsUp k t = p.argLevelsUp k t := by
    induction k generalizing t with
    | zero => rfl
    | succ k ih => simp only [argLevelsUp, types_naming, funext ih]
  funext t
  simp only [argLevels, types_naming, hup]

@[simp] theorem flattenedArgs_naming : (p.naming n).flattenedArgs = p.flattenedArgs := by
  funext t
  simp only [flattenedArgs, types_naming, argLevels_naming]

/-- Naming does not change the root of a conformance. -/
@[simp] theorem rootOf_naming : (p.naming n).rootOf = p.rootOf := by
  have hwithin (k : Nat) (c : ConformanceId) : (p.naming n).rootWithin k c = p.rootWithin k c := by
    induction k generalizing c with
    | zero => rfl
    | succ k ih => simp only [rootWithin, conformance_naming, ih]
  exact funext (hwithin _)

/-- Naming does not change which conformance is found. -/
@[simp] theorem conformanceOf_naming : (p.naming n).conformanceOf = p.conformanceOf := by
  funext t protocol
  unfold conformanceOf
  simp only [nominalOf_naming, rootOf_naming, conformance_naming, types_naming]
  rfl

@[simp] theorem isRetroactive_naming : (p.naming n).isRetroactive = p.isRetroactive := by
  funext c
  simp only [isRetroactive, rootOf_naming, moduleOf_naming, nominalOf_naming]

/-- Naming changes no substitutions. -/
@[simp] theorem substitutions_naming : (p.naming n).substitutions = p.substitutions := by
  funext s replacements
  simp only [substitutions, signature_naming, conformanceOf_naming]
  rfl

/-- Naming does not change which types have substitutions, nor what they are. -/
@[simp] theorem substitutionsOf?_naming : (p.naming n).substitutionsOf? = p.substitutionsOf? := by
  funext t
  simp only [substitutionsOf?, nominalOf_naming, signatureOf_naming, flattenedArgs_naming,
    signature_naming, substitutions_naming]

/-- Naming changes no conditions of a conformance. -/
@[simp] theorem conditionalConformances_naming :
    (p.naming n).conditionalConformances = p.conditionalConformances := by
  funext c t
  unfold conditionalConformances
  simp only [rootOf_naming, substitutionsOf?_naming, nominalOf_naming, signatureOf_naming,
    signature_naming, types_naming, conformanceOf_naming]
  rfl

@[simp] theorem requiredProtocols_naming :
    (p.naming n).requiredProtocols = p.requiredProtocols := rfl

/-- Naming changes no access path. -/
@[simp] theorem accessPath_naming : (p.naming n).accessPath = p.accessPath := by
  have hwithin (s : GenericSignature) (k : Nat) (t : TypeId) (protocol : DeclId) :
      (p.naming n).accessPathWithin s k t protocol = p.accessPathWithin s k t protocol := by
    induction k generalizing t protocol with
    | zero => rfl
    | succ k ih =>
      simp only [accessPathWithin, types_naming, protocolOf?_naming,
        associatedConformances?_naming, ih]
  funext s t protocol
  simp only [accessPath, signature_naming, types_naming, hwithin]

end NameMangling.Program
