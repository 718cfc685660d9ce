/-
# Where a token ends

Every token can be read off the front of a symbol, so it can be told from what follows it.  What
a spelling begins with tells some tokens apart before they are read.

Main facts:
* `spellCount_append_inj`, `spellIndex_append_inj`, `spellBackReference_append_inj`;
* `spellIdentifier_append_inj`: an identifier can be told from what follows it.
-/
import NameMangling.Proofs.TokenReaders

namespace NameMangling

/-! ## Tokens and what follows them -/

variable {n m : Nat} {s t : String} {x y : List Char}

theorem spellCount_append_inj (h : spellCount n ++ x = spellCount m ++ y) : n = m ∧ x = y :=
  decodes_count.append_inj h

theorem spellIndex_append_inj (h : spellIndex n ++ x = spellIndex m ++ y) : n = m ∧ x = y :=
  decodes_index.append_inj h

theorem spellBackReference_append_inj
    (h : spellBackReference n ++ x = spellBackReference m ++ y) : n = m ∧ x = y :=
  decodes_backReference.append_inj h

theorem spellIdentifier_append_inj (h : spellIdentifier s ++ x = spellIdentifier t ++ y) :
    s = t ∧ x = y :=
  decodes_identifier.append_inj h

/-! ## First characters -/

theorem head?_spellCount (n : Nat) : ∃ c, (spellCount n).head? = some c ∧ c.isDigit = true := by
  obtain ⟨c, hc, hdigit⟩ := head?_decimal n
  exact ⟨c, by rw [spellCount, List.head?_append, hc, Option.some_or], hdigit⟩

/-- An index begins with a digit or is the underscore. -/
theorem head?_spellIndex (n : Nat) :
    ∃ c, (spellIndex n).head? = some c ∧ (c.isDigit = true ∨ c = '_') := by
  cases n with
  | zero => exact ⟨'_', rfl, .inr rfl⟩
  | succ n =>
    obtain ⟨c, hc, hdigit⟩ := head?_spellCount n
    exact ⟨c, hc, .inl hdigit⟩

/-- An identifier begins with a digit. -/
theorem head?_spellIdentifier (s : String) :
    ∃ c, (spellIdentifier s).head? = some c ∧ c.isDigit = true := by
  unfold spellIdentifier
  dsimp only
  split
  · obtain ⟨c, hc, hdigit⟩ := head?_decimal (utf8Bytes s).length
    exact ⟨c, by rw [List.head?_append, hc, Option.some_or], hdigit⟩
  · exact ⟨'0', rfl, rfl⟩

/-! ## Rows of tokens -/

theorem spellAll_append (ts us : List Token) :
    spellAll (ts ++ us) = spellAll ts ++ spellAll us := List.flatMap_append

end NameMangling
