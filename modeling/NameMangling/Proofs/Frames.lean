/-
# What encoders leave alone

An encoder may fail at any place, and it is run inside others whose scopes are open.  What
another encoder can rely on afterwards is a frame: the mode and the open scopes are what
they were, text and ledger have only grown, by the same tokens, and a node that has a number
keeps it.

Main definitions:
* `Session.Frame`, the frame, which composes;
* `NodeTable.Dense`, the numbers in use are those below the number of nodes.
-/
import Mathlib.Data.List.Nodup
import NameMangling.Mangler
import NameMangling.Proofs.Spellings

namespace NameMangling

/-! ## Sizes and placements of tokens -/

/-- The size of a text is the sum of the sizes of its characters. -/
theorem foldl_utf8Size (cs : List Char) (n : Nat) :
    cs.foldl (fun n c => n + c.utf8Size) n = n + (String.ofList cs).utf8ByteSize := by
  induction cs generalizing n with
  | nil => simp
  | cons c cs ih =>
    have hcons : String.ofList (c :: cs) = String.ofList [c] ++ String.ofList cs := by
      rw [← String.ofList_append, List.singleton_append]
    rw [List.foldl_cons, ih, hcons, String.utf8ByteSize_append, Nat.add_assoc]
    simp

theorem Token.width_eq (t : Token) : t.width = (String.ofList t.spelling).utf8ByteSize := by
  rw [Token.width, foldl_utf8Size, Nat.zero_add]

/-- The placeholders among tokens that follow others stand where the others end. -/
theorem placements_append (offset : Nat) (ts us : List Token) :
    placements offset (ts ++ us) = placements offset ts
      ++ placements (offset + (String.ofList (spellAll ts)).utf8ByteSize) us := by
  induction ts generalizing offset with
  | nil => simp [placements, spellAll]
  | cons t ts ih =>
    have hsize : offset + (String.ofList (spellAll (t :: ts))).utf8ByteSize
        = offset + t.width + (String.ofList (spellAll ts)).utf8ByteSize := by
      rw [Token.width_eq, Nat.add_assoc, ← String.utf8ByteSize_append, ← String.ofList_append]
      rfl
    rw [hsize, List.cons_append]
    cases t <;> simp [placements, ih]

/-! ## Numbered nodes -/

namespace NodeTable

variable (t : NodeTable) (key : NodeKey)

/-- The numbers in use are those below the number of nodes, each for one node. -/
def Dense : Prop := (t.entries.map Prod.snd).Perm (List.range t.size)

theorem dense_empty : ({} : NodeTable).Dense := by simp [Dense, size]

theorem entries_register {t : NodeTable} {key : NodeKey} (h : t.number? key = none) :
    (t.register key).entries = t.entries ++ [(key, t.size)] := by simp [register, h]

theorem register_eq_self {t : NodeTable} {key : NodeKey} {n : Nat} (h : t.number? key = some n) :
    t.register key = t := by simp [register, h]

/-- Registering a node numbers it, unless it has a number, and no other node. -/
theorem number?_register (k : NodeKey) : (t.register key).number? k =
    (t.number? k).or (if k = key then some t.size else none) := by
  cases hkey : t.number? key with
  | none =>
    have hpush : (t.register key).number? k =
        (t.number? k).or (if key = k then some t.size else none) := by
      simp only [number?, entries_register hkey, List.find?_append]
      cases t.entries.find? (·.1 == k) with
      | some e => simp
      | none => by_cases hk : key = k <;> simp [hk]
    rw [hpush]
    by_cases hk : k = key
    · rw [if_pos hk, if_pos hk.symm]
    · rw [if_neg hk, if_neg (Ne.symm hk)]
  -- a node that has a number keeps it
  | some n =>
    rw [register_eq_self hkey]
    by_cases hk : k = key
    · subst hk
      simp [hkey]
    · simp [hk]

/-- Registering a node takes a new number only if the node has none. -/
theorem size_register : (t.register key).size =
    if (t.number? key).isSome then t.size else t.size + 1 := by
  cases hkey : t.number? key with
  | none => simp [size, entries_register hkey]
  | some n => simp [register_eq_self hkey]

variable {t}

/-- Numbers without gaps stay so when a node is registered. -/
theorem Dense.register (h : t.Dense) : (t.register key).Dense := by
  cases hkey : t.number? key with
  | none =>
    have hsize : (t.register key).size = t.size + 1 := by simp [size_register, hkey]
    unfold Dense
    rw [hsize, List.range_succ, entries_register hkey, List.map_append]
    exact List.Perm.append_right [t.size] h
  | some n => rwa [register_eq_self hkey]

end NodeTable

/-! ## Frames -/

namespace Session

/-- `s'` writes the same grammar in the same mode and scopes as `s`. -/
structure SameScope (s s' : Session) : Prop where
  mangler : s'.mangler = s.mangler
  acceptsSugar : s'.acceptsSugar = s.acceptsSugar
  allowsPlaceholders : s'.allowsPlaceholders = s.allowsPlaceholders
  subject : s'.subject = s.subject
  bindings : s'.bindings = s.bindings
  owner : s'.owner = s.owner

/-- Tokens written from `s` to `s'`: the text has grown by their spelling and the ledger by
their placeholders. -/
structure Wrote (ts : List Token) (s s' : Session) : Prop where
  text : s'.text = s.text ++ String.ofList (spellAll ts)
  ledger : s'.ledger = s.ledger ++ placements s.text.utf8ByteSize ts

/-- What an encoder leaves: the scopes it found, some tokens more, and the numbers it found.
Only where `copies` holds may there be copied text among the tokens. -/
structure Frame (copies : Prop) (s s' : Session) : Prop extends SameScope s s' where
  wrote : ∃ ts, (∀ text, .verbatim text ∈ ts → copies) ∧ Wrote ts s s'
  numbers : ∀ key n, s.nodes.number? key = some n → s'.nodes.number? key = some n
  dense : s.nodes.Dense → s'.nodes.Dense

variable {s s₁ s' : Session} {copies : Prop}

namespace SameScope

theorem refl (s : Session) : SameScope s s := ⟨rfl, rfl, rfl, rfl, rfl, rfl⟩

theorem append (s : Session) (t : Token) : SameScope s (s.append t) :=
  ⟨rfl, rfl, rfl, rfl, rfl, rfl⟩

theorem appendPlaceholder (s : Session) (r : Referent) : SameScope s (s.appendPlaceholder r) :=
  ⟨rfl, rfl, rfl, rfl, rfl, rfl⟩

theorem register (s : Session) (key : NodeKey) : SameScope s (s.register key) :=
  ⟨rfl, rfl, rfl, rfl, rfl, rfl⟩

/-- What two encoders in a row leave is in the scope that was found. -/
theorem trans (h : SameScope s s₁) (h' : SameScope s₁ s') : SameScope s s' where
  mangler := h'.mangler.trans h.mangler
  acceptsSugar := h'.acceptsSugar.trans h.acceptsSugar
  allowsPlaceholders := h'.allowsPlaceholders.trans h.allowsPlaceholders
  subject := h'.subject.trans h.subject
  bindings := h'.bindings.trans h.bindings
  owner := h'.owner.trans h.owner

end SameScope

namespace Wrote

variable {ts us : List Token}

theorem nil (s : Session) : Wrote [] s s := ⟨by simp [spellAll], by simp [placements]⟩

/-- What is written in two parts is written in one. -/
theorem append (h : Wrote ts s s₁) (h' : Wrote us s₁ s') : Wrote (ts ++ us) s s' where
  text := by
    rw [h'.text, h.text, spellAll_append, String.ofList_append, String.append_assoc]
  ledger := by
    rw [h'.ledger, h.ledger, h.text, String.utf8ByteSize_append, placements_append,
      List.append_assoc]

/-- A token other than a placeholder only adds to the text. -/
theorem token (s : Session) {t : Token} (ht : ∀ r, t ≠ .placeholder r) :
    Wrote [t] s (s.append t) where
  text := by simp [Session.append, spellAll]
  ledger := by
    cases t with
    | placeholder r => exact absurd rfl (ht r)
    | _ => simp [Session.append, placements]

/-- A placeholder adds its marker to the text and an entry to the ledger. -/
theorem placeholder (s : Session) (r : Referent) :
    Wrote [.placeholder r] s (s.appendPlaceholder r) where
  text := by simp [appendPlaceholder, Session.append, spellAll]
  ledger := by simp [appendPlaceholder, placements]

end Wrote

namespace Frame

/-- An encoder that does nothing leaves a frame. -/
theorem refl (copies : Prop) (s : Session) : Frame copies s s where
  toSameScope := .refl s
  wrote := ⟨[], by simp, .nil s⟩
  numbers _ _ h := h
  dense h := h

/-- Encoders in a row leave a frame if each of them does. -/
theorem trans (h : Frame copies s s₁) (h' : Frame copies s₁ s') : Frame copies s s' where
  toSameScope := h.toSameScope.trans h'.toSameScope
  wrote := by
    obtain ⟨ts, hts, hwrote⟩ := h.wrote
    obtain ⟨us, hus, hwrote'⟩ := h'.wrote
    refine ⟨ts ++ us, ?_, hwrote.append hwrote'⟩
    intro text hmem
    exact (List.mem_append.mp hmem).elim (hts text) (hus text)
  numbers key n hn := h'.numbers key n (h.numbers key n hn)
  dense hd := h'.dense (h.dense hd)

/-- Writing tokens, whatever they do not touch. -/
theorem of_wrote {ts : List Token} (hscope : SameScope s s') (hnodes : s'.nodes = s.nodes)
    (hcopies : ∀ text, .verbatim text ∈ ts → copies) (h : Wrote ts s s') :
    Frame copies s s' where
  toSameScope := hscope
  wrote := ⟨ts, hcopies, h⟩
  numbers _ _ hn := by rw [hnodes, hn]
  dense hd := by rwa [hnodes]

/-- Appending a token that is no placeholder leaves a frame, and copies text only if the token
does. -/
theorem append (s : Session) {t : Token} (ht : ∀ r, t ≠ .placeholder r)
    (hcopies : ∀ text, t = .verbatim text → copies) : Frame copies s (s.append t) :=
  of_wrote (.append s t) rfl (fun text h => hcopies text (List.mem_singleton.mp h).symm)
    (.token s ht)

theorem placeholder (s : Session) (r : Referent) : Frame copies s (s.appendPlaceholder r) :=
  of_wrote (.appendPlaceholder s r) rfl (by simp) (.placeholder s r)

/-- Registering a node leaves a frame, as it takes no number away. -/
theorem register (s : Session) (key : NodeKey) : Frame copies s (s.register key) where
  toSameScope := .register s key
  wrote := ⟨[], by simp, (Wrote.nil s).text, (Wrote.nil s).ledger⟩
  numbers k n h := by simp [Session.register, NodeTable.number?_register, h]
  dense h := h.register key

/-- What is written with a signature bound is written to the session below the binding. -/
theorem unbind {signature : Option SignatureId} (h : Frame copies (s.bind signature) s') :
    Frame copies s s'.unbind where
  mangler := h.mangler
  acceptsSugar := h.acceptsSugar
  allowsPlaceholders := h.allowsPlaceholders
  subject := h.subject
  bindings := by rw [Session.unbind, h.bindings, Session.bind, List.tail_cons]
  owner := h.owner
  wrote := by
    obtain ⟨ts, hts, hwrote⟩ := h.wrote
    exact ⟨ts, hts, hwrote.text, hwrote.ledger⟩
  numbers := h.numbers
  dense := h.dense

/-- What is written for the type of a declaration is written to the session around it. -/
theorem disown {d : Option DeclId} (h : Frame copies (s.own d) s') :
    Frame copies s (s'.own s.owner) where
  mangler := h.mangler
  acceptsSugar := h.acceptsSugar
  allowsPlaceholders := h.allowsPlaceholders
  subject := h.subject
  bindings := h.bindings
  owner := rfl
  wrote := by
    obtain ⟨ts, hts, hwrote⟩ := h.wrote
    exact ⟨ts, hts, hwrote.text, hwrote.ledger⟩
  numbers := h.numbers
  dense := h.dense

end Frame

end Session

end NameMangling
