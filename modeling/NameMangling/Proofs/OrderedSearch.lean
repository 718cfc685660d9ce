/-
# Search in ordered lists

A generic parameter is looked up by halving the list of the parameters, which only finds it
because a signature keeps its parameters in order.

Main facts:
* `Ordered.search?_eq_some_iff`: in an ordered list every member is found where it stands;
* `GenericSignature.contains_iff`: so is every parameter of a signature.
-/
import Mathlib.Data.List.Sort
import NameMangling.Generics
import NameMangling.Proofs.Packing

namespace NameMangling

namespace Ordered

variable {α : Type} {before : α → α → Bool} {x : α} {xs : List α}

/-- A member that is among the places that are left is found there: halving never drops the
half it stands in. -/
theorem narrow_eq (asymm : ∀ y z, before y z → before z y = false)
    (hordered : xs.Pairwise (before · ·)) {base size i : Nat} (hi : xs[i]? = some x)
    (hbase : base ≤ i) (hsize : i < base + size) (hlength : base + size ≤ xs.length) :
    narrow before x xs base size = i := by
  have hafter : ∀ {j k : Nat} {y z : α}, xs[j]? = some y → xs[k]? = some z → j < k →
      before y z = true := by
    intro j k y z hj hk hlt
    obtain ⟨hjlt, rfl⟩ := List.getElem?_eq_some_iff.1 hj
    obtain ⟨hklt, rfl⟩ := List.getElem?_eq_some_iff.1 hk
    exact List.pairwise_iff_getElem.1 hordered j k hjlt hklt hlt
  fun_induction narrow before x xs base size with
  | case1 base size hle => omega
  | case2 base size hle middle isBelow ih =>
    -- what is searched for stands below the middle exactly if it comes before what is there
    have hmiddle : middle = base + size / 2 := rfl
    obtain ⟨y, hy⟩ : ∃ y, xs[middle]? = some y :=
      ⟨_, List.getElem?_eq_getElem (by omega)⟩
    have hbelow : isBelow = before x y := by
      show xs[middle]?.any (before x) = before x y
      rw [hy]
      rfl
    rw [hbelow] at ih ⊢
    by_cases hxy : before x y = true
    · -- what comes before the middle stands below it
      have hlt : i < middle := by
        refine Nat.lt_of_not_le fun hge => ?_
        rcases Nat.eq_or_lt_of_le hge with heq | hlt
        · rw [heq, hi] at hy
          cases hy
          rw [asymm x x hxy] at hxy
          cases hxy
        · have hyx := asymm y x (hafter hy hi hlt)
          rw [hxy] at hyx
          cases hyx
      rw [dif_pos hxy] at ih
      rw [if_pos hxy]
      exact ih hbase (by omega) (by omega)
    · have hge : middle ≤ i := Nat.le_of_not_lt fun hlt => hxy (hafter hi hy hlt)
      rw [dif_neg hxy] at ih
      rw [if_neg hxy]
      exact ih hge (by omega) (by omega)

variable [DecidableEq α]

/-- In an ordered list every member is found where it stands, and nothing else is found. -/
theorem search?_eq_some_iff (asymm : ∀ y z, before y z → before z y = false)
    (hordered : xs.Pairwise (before · ·)) {i : Nat} :
    search? before x xs = some i ↔ xs[i]? = some x := by
  unfold search?
  dsimp only
  constructor
  · intro h
    split at h
    · rename_i hplace
      cases h
      exact hplace
    · cases h
  · intro h
    have hlt : i < xs.length := (List.getElem?_eq_some_iff.1 h).1
    rw [narrow_eq asymm hordered h (Nat.zero_le i) (by omega) (by omega), if_pos h]

/-- In an ordered list the search finds exactly the members. -/
theorem isSome_search?_iff (asymm : ∀ y z, before y z → before z y = false)
    (hordered : xs.Pairwise (before · ·)) : (search? before x xs).isSome ↔ x ∈ xs := by
  rw [Option.isSome_iff_exists, List.mem_iff_getElem?]
  exact exists_congr fun i => search?_eq_some_iff asymm hordered

end Ordered

/-! ## Parameters -/

namespace ParamKey

/-- Parameters in order are the same list if they are the same set. -/
theorem eq_of_mem_iff {keys keys' : List ParamKey} (h : keys.Pairwise (before · ·))
    (h' : keys'.Pairwise (before · ·)) (hmem : ∀ key, key ∈ keys ↔ key ∈ keys') :
    keys = keys' := by
  have : Std.Irrefl fun a b : ParamKey => a.before b = true := ⟨fun a => by simp [before_irrefl]⟩
  have : Std.Asymm fun a b : ParamKey => a.before b = true :=
    ⟨fun a b hab => by simp [before_asymm a b hab]⟩
  exact h.eq_of_mem_iff h' hmem

/-- No parameter is deeper than the last one in order. -/
theorem depth_le_getLast {keys : List ParamKey} (h : keys.Pairwise (before · ·))
    {key last : ParamKey} (hlast : keys.getLast? = some last) (hkey : key ∈ keys) :
    key.depth ≤ last.depth := by
  obtain ⟨front, rfl⟩ := List.getLast?_eq_some_iff.1 hlast
  rcases List.mem_append.1 hkey with hkey | hkey
  · have hbefore := (List.pairwise_append.1 h).2.2 key hkey last (by simp)
    rw [before_iff] at hbefore
    omega
  · exact List.mem_singleton.1 hkey ▸ Nat.le_refl _

end ParamKey

namespace GenericSignature

/-- Making a signature of ordered parameters keeps them. -/
theorem ofParams_eq {params : List ParamKey} (h : params.Pairwise (ParamKey.before · ·))
    (requirements : List Requirement) : ofParams params requirements = ⟨params, requirements, h⟩ :=
  GenericSignature.ext (Ordered.distinct_eq_self ParamKey.before_irrefl h) rfl

variable (s : GenericSignature)

/-- No parameter occurs twice in a signature. -/
theorem nodup : s.params.Nodup := by
  refine List.Pairwise.imp (fun {a b} hbefore => ?_) s.ordered
  rintro rfl
  rw [a.before_irrefl] at hbefore
  cases hbefore

theorem contains_iff {key : ParamKey} : s.contains key = true ↔ key ∈ s.params :=
  Ordered.isSome_search?_iff ParamKey.before_asymm s.ordered

end GenericSignature

end NameMangling
