/-
# What a signature adds

The delta of a signature against that of its context holds what the context lacks, in the
order of the signature, and nothing else.  The encoder of signatures answers with whether it
has written anything, and it has exactly where the delta is not empty: extensions and the
types of declarations are written by this answer.

Main definition: `SignatureDelta.Exact`, what the delta of two signatures is.

Main facts:
* `SignatureDelta.exact_between`: the delta of two signatures;
* `Encoder.run_signature_iff`, `Encoder.clause_of_run_signature`: what is written for it;
* `signature_delta_exact`: both together.
-/
import Mathlib.Data.List.Nodup
import NameMangling.Proofs.BuiltPrograms
import NameMangling.Proofs.OrderedSearch
import NameMangling.Proofs.Sessions

namespace NameMangling

/-! ## Deltas -/

namespace SignatureDelta

variable {s context : GenericSignature}

/-- A delta is what the context of a signature lacks. -/
structure Exact (s context : GenericSignature) (d : SignatureDelta) : Prop where
  params_sublist : d.params.Sublist s.params
  requirements_sublist : d.requirements.Sublist s.requirements
  params_new : ∀ key ∈ d.params, key ∉ context.params
  requirements_new : ∀ r ∈ d.requirements, r ∉ context.requirements
  params_covered : ∀ key ∈ s.params, key ∈ context.params ∨ key ∈ d.params
  requirements_covered : ∀ r ∈ s.requirements, r ∈ context.requirements ∨ r ∈ d.requirements
  isEmpty_iff : d.isEmpty = true ↔
    (∀ key ∈ s.params, key ∈ context.params) ∧ ∀ r ∈ s.requirements, r ∈ context.requirements
  /-- Where the signature has all parameters of its context, the new ones sort in. -/
  sorts : (∀ key ∈ context.params, key ∈ s.params) →
    (context.params ++ d.params).mergeSort (fun a b => !b.before a) = s.params
  /-- The delta of a delta is that delta. -/
  again : between (.ofParams d.params d.requirements) (some context) = d

theorem mem_params_between {key : ParamKey} :
    key ∈ (between s (some context)).params ↔ key ∈ s.params ∧ key ∉ context.params := by
  rw [between, List.mem_filter, Bool.not_eq_true', ← context.contains_iff, Bool.not_eq_true]

/-- A delta has the requirements that the context does not have. -/
theorem mem_requirements_between {r : Requirement} :
    r ∈ (between s (some context)).requirements ↔
      r ∈ s.requirements ∧ r ∉ context.requirements := by
  simp [between]

/-- A delta is empty if it has neither parameters nor requirements. -/
theorem isEmpty_eq_true {d : SignatureDelta} :
    d.isEmpty = true ↔ (∀ key, key ∉ d.params) ∧ ∀ r, r ∉ d.requirements := by
  rw [isEmpty, Bool.and_eq_true, List.isEmpty_iff, List.isEmpty_iff,
    List.eq_nil_iff_forall_not_mem, List.eq_nil_iff_forall_not_mem]

/-- The parameters of the context and the new ones are those of the signature. -/
theorem perm_params (hsub : ∀ key ∈ context.params, key ∈ s.params) :
    (context.params ++ (between s (some context)).params).Perm s.params := by
  have hdelta : (between s (some context)).params.Nodup := s.nodup.filter _
  have hnodup : (context.params ++ (between s (some context)).params).Nodup := by
    refine List.nodup_append'.2 ⟨context.nodup, hdelta, fun key hold hnew => ?_⟩
    exact (mem_params_between.1 hnew).2 hold
  refine (List.perm_ext_iff_of_nodup hnodup s.nodup).2 fun key => ?_
  rw [List.mem_append, mem_params_between]
  constructor
  · rintro (hold | ⟨hmem, -⟩)
    · exact hsub key hold
    · exact hmem
  · intro hmem
    by_cases hold : key ∈ context.params
    · exact .inl hold
    · exact .inr ⟨hmem, hold⟩

/-- Sorting the parameters of a signature restores them. -/
theorem mergeSort_eq_of_perm {keys : List ParamKey} (hperm : keys.Perm s.params) :
    keys.mergeSort (fun a b => !b.before a) = s.params := by
  -- parameters are compared the other way around, which is as good an order
  have htrans : ∀ a b c : ParamKey, (!b.before a) = true → (!c.before b) = true →
      (!c.before a) = true := by
    intro a b c hab hbc
    rw [Bool.not_eq_true'] at *
    rw [Bool.eq_false_iff, ne_eq, ParamKey.before_iff] at *
    omega
  have htotal : ∀ a b : ParamKey, (!b.before a || !a.before b) = true := by
    intro a b
    rw [Bool.or_eq_true, Bool.not_eq_true', Bool.not_eq_true']
    by_cases hab : a.before b = true
    · exact .inl (a.before_asymm b hab)
    · exact .inr (by simpa using hab)
  have hsorted : s.params.Pairwise fun a b => (!b.before a) = true := by
    refine List.Pairwise.imp (fun {a b} hab => ?_) s.ordered
    rw [a.before_asymm b hab]
    rfl
  -- two sorted lists of the same parameters are one list, since no two of them are level
  refine List.Perm.eq_of_pairwise (fun a b _ _ hab hba => ?_)
    (List.pairwise_mergeSort htrans htotal keys) hsorted ((List.mergeSort_perm keys _).trans hperm)
  rw [Bool.not_eq_true'] at hab hba
  by_contra hne
  rw [a.before_total b hne hba] at hab
  cases hab

/-- The delta of two signatures is what the one lacks of the other. -/
theorem exact_between (s context : GenericSignature) :
    Exact s context (between s (some context)) where
  params_sublist := List.filter_sublist
  requirements_sublist := List.filter_sublist
  params_new key h := (mem_params_between.1 h).2
  requirements_new r h := (mem_requirements_between.1 h).2
  params_covered key h := by
    rw [mem_params_between]
    by_cases hold : key ∈ context.params
    · exact .inl hold
    · exact .inr ⟨h, hold⟩
  requirements_covered r h := by
    rw [mem_requirements_between]
    by_cases hold : r ∈ context.requirements
    · exact .inl hold
    · exact .inr ⟨h, hold⟩
  isEmpty_iff := by
    simp only [isEmpty_eq_true, mem_params_between, mem_requirements_between, not_and,
      not_not]
  sorts hsub := mergeSort_eq_of_perm (perm_params hsub)
  again := by
    have hordered : (between s (some context)).params.Pairwise (ParamKey.before · ·) :=
      List.Pairwise.sublist List.filter_sublist s.ordered
    rw [GenericSignature.ofParams_eq hordered]
    simp only [between, List.filter_filter, Bool.and_self]

end SignatureDelta

/-! ## Clauses -/

namespace Encoder

variable {copies : Prop} {g : Grammar} {w : Spelling} {depth : Nat} {scope : Scope}
variable {unfold : Phrase → Encoder Unit} {st st' : Session} {added : Bool}
variable {s : SignatureId} {context : Option SignatureId}

/-- An encoder that ends with an operator leaves its letters at the end of the text. -/
theorem text_of_run_op {α β : Type} {e : Encoder α} {ps : List Piece} {a : α} {o : Operator}
    {b b' : β} (h : Implements copies g w depth scope e ps a) (hst : st.Follows g w scope)
    (hrun : (do let _ ← e; op o; return b : Encoder β).run st = .ok b' st') :
    b' = b ∧ ∃ text, st'.text = st.text ++ (text ++ o.letters) := by
  have hframe := h.frame hst
  unfold after at hframe
  rw [EStateM.run_bind] at hrun
  cases he : e.run st with
  | error err st₁ =>
    rw [he] at hrun
    cases hrun
  | ok a' st₁ =>
    rw [he] at hrun hframe
    cases hrun
    obtain ⟨ts, -, hwrote⟩ := hframe.wrote
    refine ⟨rfl, String.ofList (spellAll ts), ?_⟩
    show st₁.text ++ String.ofList o.letters.toList = _
    rw [hwrote.text, String.ofList_toList, String.append_assoc]

/-- The requirements and the parameter counts of a clause. -/
theorem implements_clause (hu : Unfolds copies g w depth unfold) (scope : Scope)
    (s : SignatureId) (d : SignatureDelta) :
    ∃ ps, Implements copies g w depth scope
      (do binding (some s) (row (d.requirements.map (requirement unfold)))
          writeAll d.countTokens) ps () :=
  ⟨_, .append (implements_requirements hu s _) (implements_countTokens d)⟩

/-- A signature is written as a clause where it adds something, and not at all elsewhere. -/
theorem run_signature (unfold : Phrase → Encoder Unit) (s : SignatureId)
    (context : Option SignatureId) (st : Session) :
    (signature unfold s context).run st =
      if (st.grammar.delta s context).isEmpty then .ok false st
      else
        let d := st.grammar.delta s context
        (do
          (do
            binding (some s) (row (d.requirements.map (requirement unfold)))
            writeAll d.countTokens)
          op .signature
          return true : Encoder Bool).run st := by
  unfold signature
  show (if (st.grammar.delta s context).isEmpty then _ else _ : Encoder Bool).run st = _
  split
  · rfl
  · simp only [bind_assoc]

/-- A clause ends with the operator of signatures. -/
theorem clause_of_run_signature (hu : Unfolds copies st.grammar st.spelling depth unfold)
    (hrun : (signature unfold s context).run st = .ok added st')
    (hdelta : (st.grammar.delta s context).isEmpty = false) :
    added = true ∧ ∃ clause, st'.text = st.text ++ clause ∧
      clause.toList.getLast? = some 'l' := by
  rw [run_signature, hdelta, if_neg Bool.false_ne_true] at hrun
  obtain ⟨ps, hclause⟩ := implements_clause hu st.scope s (st.grammar.delta s context)
  obtain ⟨hadded, text, htext⟩ := text_of_run_op hclause ⟨rfl, rfl, rfl⟩ hrun
  refine ⟨hadded, text ++ Operator.signature.letters, htext, ?_⟩
  rw [String.toList_append]
  exact List.getLast?_append_of_ne_nil _ (by decide)

/-- Nothing is written for a signature exactly where its delta is empty. -/
theorem run_signature_iff (hu : Unfolds copies st.grammar st.spelling depth unfold) :
    (signature unfold s context).run st = .ok false st ↔
      (st.grammar.delta s context).isEmpty = true := by
  constructor
  · intro hrun
    by_contra hdelta
    have hadded := (clause_of_run_signature hu hrun (by simpa using hdelta)).1
    cases hadded
  · intro hdelta
    rw [run_signature, if_pos hdelta]

end Encoder

/-! ## Deltas and their clauses -/

/-- The delta of a signature is exactly what its context lacks, and it is what is written.  Of
two signatures, in whatever order their parameters were given, it keeps the order of the one,
shares nothing with the other and covers the one together with it.  Whatever a session has
written, the encoder of a signature answers that there is nothing to write, and leaves the
session as it is, exactly if the delta is empty; if not, it answers, unless it fails, that it has
written a clause, and the clause ends with the operator of signatures. -/
theorem signature_delta_exact :
    (∀ (params params' : List ParamKey) (requirements requirements' : List Requirement),
      let s := GenericSignature.ofParams params requirements
      let context := GenericSignature.ofParams params' requirements'
      SignatureDelta.Exact s context (.between s (some context)) ∧
        (SignatureDelta.between s (some s)).isEmpty = true) ∧
    ∀ (st : Session) (depth : Nat) (s : SignatureId) (context : Option SignatureId),
      let d := st.grammar.delta s context
      let run := (Encoder.signature (Encoder.encode depth) s context).run st
      (run = .ok false st ↔ d.isEmpty = true) ∧
        ∀ added st', run = .ok added st' → d.isEmpty = false →
          added = true ∧ ∃ clause, st'.text = st.text ++ clause ∧
            clause.toList.getLast? = some 'l' := by
  constructor
  · intro params params' requirements requirements' s context
    refine ⟨SignatureDelta.exact_between s context, ?_⟩
    exact (SignatureDelta.exact_between s s).isEmpty_iff.2 ⟨fun _ h => h, fun _ h => h⟩
  · intro st depth s context d run
    have hunfolds := Encoder.encode_unfolds False st.grammar st.spelling depth
    refine ⟨Encoder.run_signature_iff hunfolds, fun added st' hrun hdelta => ?_⟩
    exact Encoder.clause_of_run_signature hunfolds hrun hdelta

/-- Behind two parameters of the context the new one, which was given first, sorts in; and in the
program with conformances the signature `<X where X: P>` adds a clause to `<X>`. -/
theorem signature_delta_exact_constraint :
    let s : GenericSignature := .ofParams [⟨1, 0⟩, ⟨0, 1⟩, ⟨0, 0⟩] []
    let context : GenericSignature := .ofParams [⟨0, 1⟩, ⟨0, 0⟩] []
    let st : Session := { mangler := { program := Program.conformanceProgram } }
    (∀ key ∈ context.params, key ∈ s.params) ∧
      (context.params ++ (SignatureDelta.between s (some context)).params).mergeSort
        (fun a b => !b.before a) = [⟨0, 0⟩, ⟨0, 1⟩, ⟨1, 0⟩] ∧
      (st.grammar.delta ⟨0⟩ (some ⟨1⟩)).isEmpty = false ∧
      ∃ st', (Encoder.signature (Encoder.encode 3) ⟨0⟩ (some ⟨1⟩)).run st = .ok true st' ∧
        st'.text = "x1M1PPRprl" ∧ ∃ clause, st'.text = st.text ++ clause ∧
          clause.toList.getLast? = some 'l' := by
  intro s context st
  have hsub : ∀ key ∈ context.params, key ∈ s.params := by decide
  have hdelta : (st.grammar.delta ⟨0⟩ (some ⟨1⟩)).isEmpty = false := by decide +kernel
  refine ⟨hsub, (signature_delta_exact.1 [⟨1, 0⟩, ⟨0, 1⟩, ⟨0, 0⟩] [⟨0, 1⟩, ⟨0, 0⟩] [] []).1.sorts
    hsub, hdelta, ?_⟩
  have hwritten : (match (Encoder.signature (Encoder.encode 3) ⟨0⟩ (some ⟨1⟩)).run st with
      | .ok added st' => added && st'.text == "x1M1PPRprl"
      | .error _ _ => false) = true := by decide +kernel
  cases hrun : (Encoder.signature (Encoder.encode 3) ⟨0⟩ (some ⟨1⟩)).run st with
  | error e st' =>
    rw [hrun] at hwritten
    cases hwritten
  | ok added st' =>
    rw [hrun] at hwritten
    obtain ⟨rfl, htext⟩ := Bool.and_eq_true_iff.1 hwritten
    have hclause := (signature_delta_exact.2 st 3 ⟨0⟩ (some ⟨1⟩)).2 true st' hrun hdelta
    exact ⟨st', rfl, by simpa using htext, hclause.2⟩

end NameMangling
