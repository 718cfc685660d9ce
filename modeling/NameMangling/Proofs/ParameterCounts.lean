/-
# Counts of parameters

A clause for a signature does not say which parameters are new, only how many there are at each
depth, and not even that where there is one.  This is enough where both the depths and the
indices are without gaps: parameters that fill their depths are those that are counted from the
first depth on.

Main definitions:
* `ParamKey.DenseFrom`, parameters that fill their depths;
* `ParamKey.counted`, the parameters that counts stand for.

Main facts:
* `SignatureDelta.params_eq_counted`: new parameters are those that their counts stand for;
* `Encoder.run_signature_iff_counts`: what follows the requirements in a clause;
* `parameter_counts_exact`: the counts determine the parameters.
-/
import Mathlib.Algebra.GroupWithZero.Nat
import NameMangling.Proofs.SignatureDeltas
import NameMangling.Proofs.TokenReaders

namespace NameMangling

/-! ## Counted parameters -/

namespace ParamKey

/-- Parameters that fill their depths: `first` is the shallowest of these, and the indices at a
depth, if there are any, are those below the count of the depth, which fits a word. -/
structure DenseFrom (first : Nat) (keys : List ParamKey) : Prop where
  first_mem : keys ≠ [] → ∃ index, (⟨first, index⟩ : ParamKey) ∈ keys
  first_le : ∀ key ∈ keys, first ≤ key.depth
  filled : ∀ depth, ∃ count : UInt32, ∀ index,
    (⟨depth, index⟩ : ParamKey) ∈ keys ↔ index < count.toNat

/-- The parameters that are counted depth by depth, from a first depth on. -/
def counted (first : Nat) : List UInt32 → List ParamKey
  | [] => []
  | count :: counts =>
    (List.range count.toNat).map (ParamKey.mk first) ++ counted (first + 1) counts

/-- There are as many keys as the counts say together. -/
theorem length_counted (first : Nat) (counts : List UInt32) :
    (counted first counts).length = (counts.map UInt32.toNat).sum := by
  induction counts generalizing first with
  | nil => rfl
  | cons count counts ih =>
    rw [counted, List.length_append, List.length_map, List.length_range, ih, List.map_cons,
      List.sum_cons]

/-- A key is counted if its level has a count that is greater than its index. -/
theorem mem_counted {first : Nat} {counts : List UInt32} {key : ParamKey} :
    key ∈ counted first counts ↔
      first ≤ key.depth ∧ ∃ n, counts[key.depth - first]? = some n ∧ key.index < n.toNat := by
  obtain ⟨depth, index⟩ := key
  induction counts generalizing first with
  | nil => simp [counted]
  | cons count counts ih =>
    rw [counted, List.mem_append, ih]
    rcases Nat.lt_trichotomy depth first with hlt | rfl | hgt
    · have hne : first ≠ depth := by omega
      simp [hne, Nat.not_le.2 hlt, Nat.not_le.2 (Nat.lt_succ_of_lt hlt)]
    · simp
    · have hne : first ≠ depth := by omega
      have hplace : depth - first = depth - (first + 1) + 1 := by omega
      simp [hne, hplace, Nat.le_of_lt hgt, Nat.succ_le_of_lt hgt]

/-- Counted parameters fill their depths, unless there are none at the first one. -/
theorem denseFrom_counted (first : Nat) {counts : List UInt32} (h : counts.head? ≠ some 0) :
    DenseFrom first (counted first counts) where
  first_mem hne := by
    cases counts with
    | nil => exact absurd rfl hne
    | cons count counts =>
      have hpos : 0 < count.toNat := by
        refine Nat.pos_of_ne_zero fun hzero => h ?_
        have hcount : count = 0 := UInt32.toNat_inj.1 hzero
        rw [List.head?_cons, hcount]
      exact ⟨0, mem_counted.2 ⟨Nat.le_refl first, count, by simp, hpos⟩⟩
  first_le key hkey := (mem_counted.1 hkey).1
  filled depth := by
    cases hcount : counts[depth - first]? with
    | none => exact ⟨0, fun index => by simp [mem_counted, hcount]⟩
    | some count =>
      rcases Nat.lt_or_ge depth first with hlt | hge
      · exact ⟨0, fun index => by simp [mem_counted, Nat.not_le.2 hlt]⟩
      · exact ⟨count, fun index => by simp [mem_counted, hcount, hge]⟩

/-- The parameters of one depth are in order of their indices. -/
theorem pairwise_level (depth count : Nat) :
    ((List.range count).map (ParamKey.mk depth)).Pairwise (before · ·) := by
  rw [List.pairwise_map]
  refine List.pairwise_lt_range.imp fun {i j} hij => ?_
  rw [before_iff]
  exact .inr ⟨rfl, hij⟩

/-- Counted parameters are in order. -/
theorem pairwise_counted (first : Nat) (counts : List UInt32) :
    (counted first counts).Pairwise (before · ·) := by
  induction counts generalizing first with
  | nil => exact .nil
  | cons count counts ih =>
    refine List.pairwise_append.2 ⟨pairwise_level first count.toNat, ih (first + 1), ?_⟩
    intro key hkey key' hkey'
    obtain ⟨index, -, rfl⟩ := List.mem_map.1 hkey
    rw [before_iff]
    exact .inl (Nat.lt_of_succ_le (mem_counted.1 hkey').1)

/-- Where the indices at a depth are those below a number, this is the number of parameters at
that depth. -/
theorem countP_depth {keys : List ParamKey} (h : keys.Pairwise (before · ·)) {depth count : Nat}
    (hfilled : ∀ index, (⟨depth, index⟩ : ParamKey) ∈ keys ↔ index < count) :
    keys.countP (fun key => key.depth == depth) = count := by
  have hlevel : keys.filter (fun key => key.depth == depth) =
      (List.range count).map (ParamKey.mk depth) := by
    refine eq_of_mem_iff (h.filter _) (pairwise_level depth count) fun key => ?_
    rw [List.mem_filter, beq_iff_eq, List.mem_map]
    constructor
    · rintro ⟨hkey, rfl⟩
      exact ⟨key.index, List.mem_range.2 ((hfilled key.index).1 hkey), rfl⟩
    · rintro ⟨index, hindex, rfl⟩
      exact ⟨(hfilled index).2 (List.mem_range.1 hindex), rfl⟩
  rw [List.countP_eq_length_filter, hlevel, List.length_map, List.length_range]

/-- The first of the parameters that fill their depths is at the shallowest depth. -/
theorem DenseFrom.head_depth {first : Nat} {keys : List ParamKey} (hdense : DenseFrom first keys)
    (h : keys.Pairwise (before · ·)) {key : ParamKey} (hkey : keys.head? = some key) :
    key.depth = first := by
  obtain ⟨rest, rfl⟩ := List.head?_eq_some_iff.1 hkey
  obtain ⟨index, hindex⟩ := hdense.first_mem (List.cons_ne_nil key rest)
  have hle := hdense.first_le key List.mem_cons_self
  rcases List.mem_cons.1 hindex with heq | hrest
  · rw [← heq]
  · have hbefore := (List.pairwise_cons.1 h).1 _ hrest
    rw [before_iff] at hbefore
    simp only at hbefore
    omega

end ParamKey

/-! ## Counts of new parameters -/

namespace SignatureDelta

variable {d d' : SignatureDelta} {first : Nat}

/-- The parameters that a signature adds are in order. -/
theorem pairwise_params_between (s : GenericSignature) (context : Option GenericSignature) :
    (between s context).params.Pairwise (ParamKey.before · ·) := by
  cases context with
  | none => exact s.ordered
  | some context => exact s.ordered.filter _

/-- The new parameters are those that their counts stand for. -/
theorem params_eq_counted (h : d.params.Pairwise (ParamKey.before · ·))
    (hdense : ParamKey.DenseFrom first d.params) :
    d.params = ParamKey.counted first d.countsPerDepth := by
  unfold countsPerDepth
  split
  · rename_i head last hhead hlast
    rw [hdense.head_depth h hhead]
    refine ParamKey.eq_of_mem_iff h (ParamKey.pairwise_counted _ _) fun key => ?_
    obtain ⟨count, hcount⟩ := hdense.filled key.depth
    have hnumber : UInt32.ofNatClamp (d.params.countP fun key' => key'.depth == key.depth) =
        count := by
      rw [ParamKey.countP_depth h hcount, UInt32.ofNatClamp_toNat]
    rw [ParamKey.mem_counted, List.getElem?_map]
    constructor
    · intro hkey
      have hle := hdense.first_le key hkey
      have hge := ParamKey.depth_le_getLast h hlast hkey
      refine ⟨hle, count, ?_, (hcount key.index).1 hkey⟩
      rw [List.getElem?_range (by omega), Option.map_some, Nat.add_sub_cancel' hle, hnumber]
    · rintro ⟨hle, n, hn, hindex⟩
      obtain ⟨i, hi, rfl⟩ := Option.map_eq_some_iff.1 hn
      obtain ⟨hlt, rfl⟩ := List.getElem?_eq_some_iff.1 hi
      rw [List.getElem_range, Nat.add_sub_cancel' hle, hnumber] at hindex
      exact (hcount key.index).2 hindex
  · rename_i hnone
    cases hkeys : d.params with
    | nil => rfl
    | cons key keys =>
      rw [hkeys] at hnone
      exact absurd List.getLast?_cons (hnone key _ rfl)

/-- The counts sum to the number of new parameters. -/
theorem sum_countsPerDepth (h : d.params.Pairwise (ParamKey.before · ·))
    (hdense : ParamKey.DenseFrom first d.params) :
    (d.countsPerDepth.map UInt32.toNat).sum = d.params.length := by
  conv_rhs => rw [params_eq_counted h hdense]
  rw [ParamKey.length_counted]

/-- What is written of the counts. -/
theorem spellAll_countTokens (d : SignatureDelta) : spellAll d.countTokens =
    if d.params.length = 1 then []
    else 'r' :: (d.countsPerDepth.map UInt32.toNat).flatMap spellCount := by
  unfold countTokens
  split
  · rfl
  · rw [List.flatMap_map]
    show 'r' :: (d.countsPerDepth.map _).flatMap Token.spelling = _
    rw [List.flatMap_map]
    rfl

/-- A single parameter that fills its depth is the first one of the depth. -/
theorem params_of_length_eq_one (hdense : ParamKey.DenseFrom first d.params)
    (hlength : d.params.length = 1) : d.params = [⟨first, 0⟩] := by
  obtain ⟨key, hkey⟩ := List.length_eq_one_iff.1 hlength
  obtain ⟨index, hindex⟩ := hdense.first_mem (by rw [hkey]; exact List.cons_ne_nil key [])
  obtain ⟨count, hcount⟩ := hdense.filled first
  have hzero := (hcount 0).2 (Nat.zero_lt_of_lt ((hcount index).1 hindex))
  rw [hkey] at hzero ⊢
  rw [List.mem_singleton.1 hzero]

/-- Parameters that fill their depths from one depth on have the same counts written for them
exactly if they are the same. -/
theorem spellAll_countTokens_eq_iff (h : d.params.Pairwise (ParamKey.before · ·))
    (h' : d'.params.Pairwise (ParamKey.before · ·)) (hdense : ParamKey.DenseFrom first d.params)
    (hdense' : ParamKey.DenseFrom first d'.params) :
    spellAll d.countTokens = spellAll d'.countTokens ↔ d.params = d'.params := by
  constructor
  · intro htext
    rw [spellAll_countTokens, spellAll_countTokens] at htext
    split at htext
    · rename_i hone
      split at htext
      · rename_i hone'
        rw [params_of_length_eq_one hdense hone, params_of_length_eq_one hdense' hone']
      · cases htext
    · split at htext
      · cases htext
      · have hnumbers :=
          (decodes_count.flatMap_eq_iff (fun n => by simp [spellCount])).1 (List.cons.inj htext).2
        have hcounts : d.countsPerDepth = d'.countsPerDepth :=
          List.map_injective_iff.2 (fun _ _ => UInt32.toNat_inj.1) hnumbers
        rw [params_eq_counted h hdense, params_eq_counted h' hdense', hcounts]
  · intro hparams
    unfold countTokens countsPerDepth
    rw [hparams]

end SignatureDelta

/-! ## Clauses -/

namespace Encoder

/-- Tokens are written at the end of the text, and nothing else changes. -/
theorem run_writeAll (ts : List Token) (st : Session) :
    (writeAll ts).run st = .ok () { st with text := st.text ++ String.ofList (spellAll ts) } := by
  induction ts generalizing st with
  | nil =>
    show EStateM.Result.ok () st = _
    rw [show spellAll [] = [] from rfl, String.ofList_nil, String.append_empty]
  | cons t ts ih =>
    show (writeAll ts).run (st.append t) = _
    rw [ih, show spellAll (t :: ts) = t.spelling ++ spellAll ts from rfl, String.ofList_append,
      ← String.append_assoc]
    rfl

/-- A clause is written exactly if the delta is not empty and its requirements are: the text of
the counts follows these, and the operator of signatures follows the counts. -/
theorem run_signature_iff_counts (unfold : Phrase → Encoder Unit) (s : SignatureId)
    (context : Option SignatureId) (st st' : Session) :
    let d := st.grammar.delta s context
    (signature unfold s context).run st = .ok true st' ↔
      d.isEmpty = false ∧ ∃ st₁,
        (binding (some s) (row (d.requirements.map (requirement unfold)))).run st = .ok () st₁ ∧
        st' = { st₁ with
          text := st₁.text ++ String.ofList (spellAll d.countTokens) ++ "l" } := by
  intro d
  rw [run_signature]
  cases hd : d.isEmpty with
  | true => simp
  | false =>
    rw [if_neg Bool.false_ne_true, EStateM.run_bind, EStateM.run_bind]
    cases (binding (some s) (row (d.requirements.map (requirement unfold)))).run st with
    | error e st₁ => simp
    | ok _ st₁ =>
      simp only
      rw [run_writeAll]
      constructor
      · rintro ⟨⟩
        exact ⟨trivial, st₁, rfl, rfl⟩
      · rintro ⟨-, _, ⟨⟩, rfl⟩
        rfl

end Encoder

/-! ## Parameters from their counts -/

/-- The counts in a clause determine the new parameters.  Where the new parameters of two
signatures fill their depths, from the same depth on, the counts sum to the number of new
parameters, and the same counts are written for both exactly if they have the same new parameters.
Nothing is written where one parameter is new, and otherwise a mark and the count of each depth,
between the requirements of a clause and the operator that ends it. -/
theorem parameter_counts_exact :
    (∀ (context : Option GenericSignature) (params params' : List ParamKey)
        (requirements requirements' : List Requirement) (first : Nat),
      let d := SignatureDelta.between (.ofParams params requirements) context
      let d' := SignatureDelta.between (.ofParams params' requirements') context
      ParamKey.DenseFrom first d.params → ParamKey.DenseFrom first d'.params →
        (d.countsPerDepth.map UInt32.toNat).sum = d.params.length ∧
        (d'.countsPerDepth.map UInt32.toNat).sum = d'.params.length ∧
        (spellAll d.countTokens = spellAll d'.countTokens ↔ d.params = d'.params)) ∧
    (∀ d : SignatureDelta, spellAll d.countTokens =
      if d.params.length = 1 then []
      else 'r' :: (d.countsPerDepth.map UInt32.toNat).flatMap spellCount) ∧
    ∀ (depth : Nat) (s : SignatureId) (context : Option SignatureId) (st st' : Session),
      let d := st.grammar.delta s context
      let requirement := Encoder.requirement (Encoder.encode depth)
      (Encoder.signature (Encoder.encode depth) s context).run st = .ok true st' ↔
        d.isEmpty = false ∧ ∃ st₁,
          (Encoder.binding (some s) (Encoder.row (d.requirements.map requirement))).run st =
            .ok () st₁ ∧
          st' = { st₁ with
            text := st₁.text ++ String.ofList (spellAll d.countTokens) ++ "l" } := by
  refine ⟨fun context params params' requirements requirements' first => ?_,
    SignatureDelta.spellAll_countTokens,
    fun depth => Encoder.run_signature_iff_counts (Encoder.encode depth)⟩
  intro d d' hdense hdense'
  have hparams : d.params.Pairwise (ParamKey.before · ·) :=
    SignatureDelta.pairwise_params_between (.ofParams params requirements) context
  have hparams' : d'.params.Pairwise (ParamKey.before · ·) :=
    SignatureDelta.pairwise_params_between (.ofParams params' requirements') context
  exact ⟨SignatureDelta.sum_countsPerDepth hparams hdense,
    SignatureDelta.sum_countsPerDepth hparams' hdense',
    SignatureDelta.spellAll_countTokens_eq_iff hparams hparams' hdense hdense'⟩

/-- Over `<A>`, three new parameters of which none is two levels down do not read as three of
which one is. -/
theorem parameter_counts_exact_gap :
    let context : GenericSignature := .ofParams [⟨0, 0⟩] []
    let d := SignatureDelta.between (.ofParams [⟨3, 0⟩, ⟨1, 1⟩, ⟨0, 0⟩, ⟨1, 0⟩] []) (some context)
    let d' := SignatureDelta.between (.ofParams [⟨0, 0⟩, ⟨2, 0⟩, ⟨1, 0⟩, ⟨3, 0⟩] []) (some context)
    ParamKey.DenseFrom 1 d.params ∧ ParamKey.DenseFrom 1 d'.params ∧
      (d.countsPerDepth.map UInt32.toNat).sum = 3 ∧
      spellAll d.countTokens = "r2_0_1_".toList ∧
      spellAll d.countTokens ≠ spellAll d'.countTokens := by
  intro context d d'
  have hparams : d.params = ParamKey.counted 1 [2, 0, 1] := by decide +kernel
  have hparams' : d'.params = ParamKey.counted 1 [1, 1, 1] := by decide +kernel
  have hdense : ParamKey.DenseFrom 1 d.params :=
    hparams ▸ ParamKey.denseFrom_counted 1 (by decide)
  have hdense' : ParamKey.DenseFrom 1 d'.params :=
    hparams' ▸ ParamKey.denseFrom_counted 1 (by decide)
  obtain ⟨hsum, -, htext⟩ := parameter_counts_exact.1 (some context) _ _ [] [] 1 hdense hdense'
  refine ⟨hdense, hdense', hsum.trans (by rw [hparams]; rfl), ?_, ?_⟩
  · rw [parameter_counts_exact.2.1]
    decide +kernel
  · rw [ne_eq, htext, hparams, hparams']
    decide +kernel

end NameMangling
