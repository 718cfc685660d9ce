/-
# Relaxed settings

Accepting sugar and allowing nameless declarations give symbols to requests that had none,
and change no symbol that was there: where a mangler finds no sugar and no missing name at
any depth, a mangler that would accept them writes the same.

Main definition: `Mangler.relaxed`.

Main fact: `relaxed_conservative`.
-/
import NameMangling.Proofs.Placeholders
import NameMangling.Proofs.RewordedSymbols

namespace NameMangling

/-- The settings in which also sugar is accepted, or nameless declarations are allowed. -/
def Options.relaxed (o : Options) (sugar nameless : Bool) : Options :=
  { o with
    keepsSugar := o.keepsSugar || sugar
    allowsNameless := o.allowsNameless || nameless }

namespace Mangler

/-- The mangler with relaxed settings. -/
def relaxed (m : Mangler) (sugar nameless : Bool) : Mangler :=
  { m with options := m.options.relaxed sugar nameless }

variable {m : Mangler} {sugar nameless : Bool}

/-- Relaxing the settings gives no declaration another name. -/
theorem renames_relaxed (m : Mangler) (sugar nameless : Bool) :
    Renames none m (m.relaxed sugar nameless) where
  grammar :=
    { program := m.program.naming_none.symm
      elides := rfl
      foreign := rfl
      unreserved := by simp
      strict := fun _ => rfl }
  sugar h := by simp [relaxed, Options.relaxed, h]
  placeholders := rfl
  accepts := rfl

/-- A request that has a symbol is answered alike with relaxed settings, and with the same
placeholders. -/
theorem answer_relaxed {r : Request} {text : String} (h : m.mangle r = .ok text)
    (ledger ledger' : List Placement) :
    (m.relaxed sugar nameless).answer ledger' r = m.answer ledger r := by
  obtain ⟨plan, s, hplan, hwritten, -⟩ := mangle_eq_ok.mp h
  obtain ⟨plan', hplan', hwrites⟩ := written?_eq_some.mp hwritten
  rw [hplan] at hplan'
  cases hplan'
  have hwrite : m.write plan = .ok () s := Grammar.pieces_ok_iff.mpr hwrites
  rcases (renames_relaxed m sugar nameless).ends r with ⟨e, -, he, -⟩ | ⟨plan', ps, hp, hp', hends⟩
  · rw [hplan] at he
    cases he
  · rw [hplan] at hp
    cases hp
    rw [hwrite] at hends
    generalize hr' : (m.relaxed sugar nameless).write { plan with pieces := ps } = r' at hends
    cases hends with
    | alike =>
      unfold answer
      rw [hplan, hp']
      dsimp only
      unfold carryOut
      rw [hwrite, hr', Option.map_none, Spelling.callEnd_none]
    | unnamed _ strict tolerant =>
      -- a mangler that allows nameless declarations still does when it is relaxed
      simp_all [grammar, relaxed, Options.relaxed]

end Mangler

namespace Session

/-- Relaxing the settings is conservative.  A request that is answered with a symbol is
answered with the same symbol, and the ledger it leaves is the same, if also sugar is
accepted, or nameless declarations are allowed, or both, whatever has been asked before. -/
theorem relaxed_conservative (m : Mangler) (history : List Request) (r : Request) (text : String)
    (h : ((m.inUse history).request r).1 = .ok text) (sugar nameless : Bool)
    (history' : List Request) :
    let s := ((m.relaxed sugar nameless).inUse history').request r
    s.1 = .ok text ∧ s.2.ledger = ((m.inUse history).request r).2.ledger := by
  intro s
  have hmangle : m.mangle r = .ok text := by
    rw [request_eq_mangle, Mangler.mangler_inUse] at h
    exact h
  have hstrict := (m.inUse history).request_eq_answer r
  have hrelaxed := ((m.relaxed sugar nameless).inUse history').request_eq_answer r
  rw [Mangler.mangler_inUse] at hstrict hrelaxed
  rw [Mangler.answer_relaxed hmangle (m.inUse history).ledger, ← hstrict] at hrelaxed
  exact ⟨(congrArg Prod.fst hrelaxed).trans h, congrArg Prod.snd hrelaxed⟩

/-- A module `M` with a property `p` of type `(C, ())` and a nameless property. -/
def partlyNamelessProgram : Program :=
  let p := Program.empty
  let (module, p) := p.addNamed .nativeModule "M" none
  let (reference, p) := p.addNamed .classType "C" (some (.decl module))
  let (object, p) := p.addType (.nominal reference none)
  let (pair, p) := p.addType (.tuple [⟨none, object⟩, ⟨none, .emptyTuple⟩])
  let (sugared, p) := p.addType (.paren pair)
  let (property, p) := p.addNamed .property "p" (some (.decl module))
  let p := p.updateDecl property fun d => { d with interfaceType := some pair }
  (p.addDecl { kind := .property, parent := some (.decl module), interfaceType := some sugared }).2

/-- The symbol of the property, with a placeholder for the class, is the same after a request
that only the relaxed mangler has a symbol for. -/
theorem relaxed_conservative_property :
    let m : Mangler :=
      { program := partlyNamelessProgram
        options := { allowsPlaceholders := true } }
    let named : Request := .entity ⟨2⟩ .plain
    let unnamed : Request := .entity ⟨3⟩ .plain
    ((m.inUse []).request unnamed).1 = .error (.refused (.namelessEntity ⟨3⟩)) ∧
      (((m.relaxed true true).inUse []).request unnamed).1 =
        .ok "$q1MXn\x01\x00\x00\x00\x00_yttvp" ∧
      ((m.inUse [unnamed]).request named).1 = .ok "$q1M1p\x01\x00\x00\x00\x00_yttvp" ∧
      let s := ((m.relaxed true true).inUse [unnamed]).request named
      s.1 = .ok "$q1M1p\x01\x00\x00\x00\x00_yttvp" ∧
        s.2.ledger = ((m.inUse [unnamed]).request named).2.ledger := by
  intro m named unnamed
  have h : ((m.inUse [unnamed]).request named).1 = .ok "$q1M1p\x01\x00\x00\x00\x00_yttvp" := by
    decide +kernel
  exact ⟨by decide +kernel, by decide +kernel, h,
    relaxed_conservative m [unnamed] named _ h true true [unnamed]⟩

end Session

end NameMangling
