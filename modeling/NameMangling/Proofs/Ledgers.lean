/-
# The bytes of symbols

A symbol goes to a linker, and its placeholders are overwritten with addresses.  So every
byte of it has to be a letter, a digit, an underscore or a dollar sign, whatever the names
of the program are, but for the bytes of its placeholders, and the ledger has to tell
exactly where those are.

Main definitions:
* `isSymbolByte`, the bytes that symbols are made of;
* `ExactLedger`, a ledger tells which bytes belong to placeholders;
* `Request.givenLead`, the text of a symbol that whoever asks for it has given.

Main fact: `ledger_exact`.
-/
import Mathlib.Data.List.Pairwise
import NameMangling.Proofs.Sessions

namespace NameMangling

/-! ## The alphabet -/

/-- The bytes that symbols are made of: letters, digits, underscore and dollar sign. -/
def isSymbolByte (b : UInt8) : Bool := isPlainByte b || b.toNat == 36

/-- The bytes that no text shows: those below the space, and the one above the tilde. -/
def isControlByte (b : UInt8) : Bool := b.toNat < 32 || b.toNat == 127

/-- No byte of a symbol is a control character. -/
theorem isControlByte_eq_false {b : UInt8} (h : isSymbolByte b = true) :
    isControlByte b = false := by
  simp only [isSymbolByte, isPlainByte, isDigitByte, isControlByte, Bool.or_eq_true,
    Bool.and_eq_true, decide_eq_true_eq, beq_iff_eq, Bool.or_eq_false_iff,
    decide_eq_false_iff_not, beq_eq_false_iff_ne] at h ⊢
  omega

/-- The bytes of some characters. -/
def bytesOf (cs : List Char) : List UInt8 := cs.flatMap String.utf8EncodeChar

theorem utf8Bytes_append (s t : String) : utf8Bytes (s ++ t) = utf8Bytes s ++ utf8Bytes t := by
  simp [utf8Bytes]

theorem bytesOf_append (cs ds : List Char) : bytesOf (cs ++ ds) = bytesOf cs ++ bytesOf ds :=
  List.flatMap_append

theorem utf8Bytes_ofList (cs : List Char) : utf8Bytes (String.ofList cs) = bytesOf cs := by
  simp [utf8Bytes, bytesOf]

theorem length_utf8Bytes (s : String) : (utf8Bytes s).length = s.utf8ByteSize := by
  rw [← String.size_toByteArray, ← String.utf8Encode_toList]
  simp [utf8Bytes, List.utf8Encode]

/-- Some characters, all of whose bytes are those of symbols. -/
def IsSymbolText (cs : List Char) : Prop := ∀ b ∈ bytesOf cs, isSymbolByte b = true

namespace IsSymbolText

variable {cs ds : List Char}

theorem nil : IsSymbolText [] := by simp [IsSymbolText, bytesOf]

/-- Texts of the alphabet may be put one behind the other. -/
theorem append (h : IsSymbolText cs) (h' : IsSymbolText ds) : IsSymbolText (cs ++ ds) := by
  intro b hb
  rw [bytesOf_append] at hb
  exact (List.mem_append.mp hb).elim (h b) (h' b)

/-- A character below 128 is one byte, its code. -/
theorem of_codes (h : ∀ c ∈ cs, c.toNat < 128 ∧ isSymbolByte (UInt8.ofNat c.toNat) = true) :
    IsSymbolText cs := by
  intro b hb
  obtain ⟨c, hc, hb⟩ := List.mem_flatMap.mp hb
  obtain ⟨hsmall, hsymbol⟩ := h c hc
  have hencode : String.utf8EncodeChar c = [UInt8.ofNat c.toNat] := by
    have hle : c.val.toNat ≤ 127 := Nat.le_of_lt_succ hsmall
    unfold String.utf8EncodeChar
    simp only [hle, if_true]
    rfl
  rw [hencode, List.mem_singleton] at hb
  rwa [hb]

/-- Whether some characters are in the alphabet can be computed from their codes. -/
theorem of_all (h : cs.all fun c => c.toNat < 128 && isSymbolByte (UInt8.ofNat c.toNat)) :
    IsSymbolText cs := by
  refine of_codes fun c hc => ?_
  simpa using List.all_eq_true.mp h c hc

/-! ### Tokens -/

/-- Digits are in the alphabet. -/
theorem digits (h : ∀ c ∈ cs, c.isDigit = true) : IsSymbolText cs := by
  have hcodes : ∀ n, n < 58 → 48 ≤ n → isSymbolByte (UInt8.ofNat n) = true := by decide
  refine of_codes fun c hc => ?_
  have hdigit := Char.isDigit_iff_toNat.mp (h c hc)
  change 48 ≤ c.toNat ∧ c.toNat ≤ 57 at hdigit
  exact ⟨by omega, hcodes c.toNat (by omega) hdigit.1⟩

theorem decimal (n : Nat) : IsSymbolText (decimal n) :=
  digits fun _ hc => isDigit_of_mem_decimal hc

theorem count (n : Nat) : IsSymbolText (spellCount n) := (decimal n).append (of_all rfl)

/-- An index is the end mark, or a number and the end mark. -/
theorem index (n : Nat) : IsSymbolText (spellIndex n) := by
  cases n with
  | zero => exact of_all rfl
  | succ n => exact count n

/-- A reference is a letter and another letter or a number. -/
theorem backReference (n : Nat) : IsSymbolText (spellBackReference n) := by
  have hletters : ∀ n, n < 26 → [Char.ofNat ('a'.toNat + n)].all fun c =>
      c.toNat < 128 && isSymbolByte (UInt8.ofNat c.toNat) := by decide
  have hfirst : IsSymbolText ['A'] := of_all rfl
  unfold spellBackReference
  split
  · rename_i hshort
    exact hfirst.append (of_all (hletters n hshort))
  · exact hfirst.append (count _)

/-- The letters of every operator are in the alphabet. -/
theorem operator (o : Operator) : IsSymbolText o.letters.toList := by
  refine of_all ?_
  cases o with
  | repr r => cases r <;> rfl
  | callee c => cases c <;> rfl
  | passed c => cases c <;> rfl
  | returned c => cases c <;> rfl
  | standard name => cases name <;> rfl
  | accessor kind => cases kind <;> rfl
  | _ => rfl

/-- The code of a byte is the escape character and two hexadecimal digits. -/
theorem hexByte (b : UInt8) : IsSymbolText (hexByte b) := by
  have hdigits : ∀ n, n < 16 → (Nat.digitChar n).toNat < 128 ∧
      isSymbolByte (UInt8.ofNat (Nat.digitChar n).toNat) = true := by decide
  have hb := b.toNat_lt
  refine of_codes fun c hc => ?_
  simp only [NameMangling.hexByte, List.mem_cons, List.not_mem_nil, or_false] at hc
  rcases hc with rfl | rfl | rfl
  · decide
  · exact hdigits _ (by omega)
  · exact hdigits _ (by omega)

/-- The code of a byte in an escaped text. -/
theorem byteCode {b : UInt8} {code : List Char}
    (h : code = NameMangling.hexByte b ∨ isPlainByte b = true ∧ code = [Char.ofNat b.toNat]) :
    IsSymbolText code := by
  rcases h with rfl | ⟨hplain, rfl⟩
  · exact hexByte b
  · refine of_codes fun c hc => ?_
    obtain rfl := List.mem_singleton.mp hc
    rw [(charOfPlainByte hplain).1, UInt8.ofNat_toNat, isSymbolByte, hplain]
    simp only [isPlainByte, isDigitByte, Bool.or_eq_true, Bool.and_eq_true, decide_eq_true_eq,
      beq_iff_eq] at hplain
    exact ⟨by omega, rfl⟩

/-- An escaped text is in the alphabet, whatever its bytes are. -/
theorem escape (bs : List UInt8) : IsSymbolText (escape bs) := by
  have hrest (bs : List UInt8) : IsSymbolText (bs.flatMap escapeByte) := by
    induction bs with
    | nil => exact nil
    | cons b bs ih => exact (byteCode (escapeByte_eq b)).append ih
  cases bs with
  | nil => exact nil
  | cons b bs => exact (byteCode (firstCode_eq b)).append (hrest bs)

/-- Whatever a name is, the identifier it is written as is in the alphabet. -/
theorem identifier (text : String) : IsSymbolText (spellIdentifier text) := by
  unfold spellIdentifier
  dsimp only
  split
  · rename_i hplain
    refine (decimal _).append fun b hb => ?_
    obtain ⟨_, _, -, -, hbytes⟩ := isPlain_iff.mp hplain
    rw [isSymbolByte, hbytes b hb, Bool.true_or]
  · exact (of_all rfl : IsSymbolText ['0']).append ((decimal _).append (escape _))

/-- Every token is in the alphabet but for placeholders and copied texts. -/
theorem spelling {t : Token} (hplaceholder : ∀ r, t ≠ .placeholder r)
    (hverbatim : ∀ text, t ≠ .verbatim text) : IsSymbolText t.spelling := by
  cases t with
  | op o => exact operator o
  | identifier text => exact identifier text
  | index n => exact index n
  | count n => exact count n
  | backReference n => exact backReference n
  | placeholder r => exact absurd rfl (hplaceholder r)
  | verbatim text => exact absurd rfl (hverbatim text)

end IsSymbolText

/-! ## Ledgers -/

namespace Referent

/-- How many bytes a placeholder takes. -/
def width : Nat := 5

/-- The byte a placeholder starts with. -/
def markerByte : Referent → UInt8
  | nominal _ => 1
  | opaqueResult _ => 2

theorem bytesOf_spelling (r : Referent) : bytesOf r.spelling = [r.markerByte, 0, 0, 0, 0] := by
  cases r <;> rfl

end Referent

namespace Placement

/-- Whether a byte of a symbol belongs to a placeholder. -/
def Covers (e : Placement) (i : Nat) : Prop := e.offset ≤ i ∧ i < e.offset + Referent.width

end Placement

/-- A ledger tells which bytes, from byte `start` on, belong to placeholders.  They do not
overlap and stand in order, each is there, and every other byte is one of symbols. -/
structure ExactLedger (start : Nat) (bytes : List UInt8) (ledger : List Placement) : Prop where
  apart : ledger.Pairwise fun e e' => e.offset + Referent.width ≤ e'.offset
  inside : ∀ e ∈ ledger, start ≤ e.offset ∧ e.offset + Referent.width ≤ bytes.length
  marked : ∀ e ∈ ledger, (bytes.drop e.offset).take Referent.width =
    [e.referent.markerByte, 0, 0, 0, 0]
  plain : ∀ i b, bytes[i]? = some b → start ≤ i → (∀ e ∈ ledger, ¬ e.Covers i) →
    isSymbolByte b = true

namespace ExactLedger

variable {start : Nat} {bytes : List UInt8} {ledger : List Placement}

/-- Bytes of symbols before an exact ledger do not disturb it. -/
theorem of_plain {start' : Nat} (h : ExactLedger start' bytes ledger) (hle : start ≤ start')
    (hplain : ∀ i b, bytes[i]? = some b → start ≤ i → i < start' → isSymbolByte b = true) :
    ExactLedger start bytes ledger where
  apart := h.apart
  inside e he := ⟨Nat.le_trans hle (h.inside e he).1, (h.inside e he).2⟩
  marked := h.marked
  plain i b hb hi hcovers := by
    by_cases hlt : i < start'
    · exact hplain i b hb hi hlt
    · exact h.plain i b hb (by omega) hcovers

/-- A placeholder in front of an exact ledger. -/
theorem cons {r : Referent} (h : ExactLedger (start + Referent.width) bytes ledger)
    (hlength : start + Referent.width ≤ bytes.length)
    (hmarked : (bytes.drop start).take Referent.width = [r.markerByte, 0, 0, 0, 0]) :
    ExactLedger start bytes (⟨r, start⟩ :: ledger) where
  apart := List.pairwise_cons.mpr ⟨fun e he => (h.inside e he).1, h.apart⟩
  inside e he := by
    rcases List.mem_cons.mp he with rfl | he
    · exact ⟨Nat.le_refl _, hlength⟩
    · have := h.inside e he
      omega
  marked e he := by
    rcases List.mem_cons.mp he with rfl | he
    · exact hmarked
    · exact h.marked e he
  plain i b hb hi hcovers := by
    have hfirst := hcovers ⟨r, start⟩ List.mem_cons_self
    have hafter : start + Referent.width ≤ i := Nat.le_of_not_lt fun hlt => hfirst ⟨hi, hlt⟩
    exact h.plain i b hb hafter fun e he => hcovers e (List.mem_cons_of_mem _ he)

/-- The placeholders of tokens are an exact ledger of their text. -/
theorem of_tokens (before : List UInt8) {ts : List Token}
    (h : ∀ text, .verbatim text ∉ ts) :
    ExactLedger before.length (before ++ bytesOf (spellAll ts)) (placements before.length ts) := by
  -- token by token, with the text in front counted in
  induction ts generalizing before with
  | nil =>
    refine ⟨.nil, by simp [placements], by simp [placements], ?_⟩
    intro i b hb hi _
    have hlt := (List.getElem?_eq_some_iff.mp hb).1
    simp [spellAll, bytesOf] at hlt
    omega
  | cons t ts ih =>
    have hbytes : before ++ bytesOf (spellAll (t :: ts)) =
        (before ++ bytesOf t.spelling) ++ bytesOf (spellAll ts) := by
      rw [spellAll, List.flatMap_cons, bytesOf_append, List.append_assoc]
      rfl
    have hwidth : before.length + t.width = (before ++ bytesOf t.spelling).length := by
      rw [List.length_append, Token.width_eq, ← length_utf8Bytes, utf8Bytes_ofList]
    have hrest := ih (before ++ bytesOf t.spelling) fun text htext =>
      h text (List.mem_cons_of_mem _ htext)
    rw [hbytes]
    by_cases hplaceholder : ∃ r, t = .placeholder r
    · obtain ⟨r, rfl⟩ := hplaceholder
      have hmarker : bytesOf (Token.placeholder r).spelling = [r.markerByte, 0, 0, 0, 0] :=
        r.bytesOf_spelling
      rw [hmarker] at hrest hwidth ⊢
      rw [placements, hwidth]
      have hlength : (before ++ [r.markerByte, 0, 0, 0, 0]).length =
          before.length + Referent.width := by simp [Referent.width]
      rw [hlength] at hrest ⊢
      refine hrest.cons ?_ ?_
      · rw [List.length_append, hlength]
        omega
      · rw [List.append_assoc, List.drop_left]
        rfl
    · -- any other token is spelled in the alphabet
      have hsymbol : IsSymbolText t.spelling := .spelling (fun r hr => hplaceholder ⟨r, hr⟩)
        fun text htext => h text (htext ▸ List.mem_cons_self)
      have hplacements : placements before.length (t :: ts) =
          placements (before.length + t.width) ts := by
        cases t with
        | placeholder r => exact absurd ⟨r, rfl⟩ hplaceholder
        | _ => rfl
      rw [hplacements, hwidth]
      refine hrest.of_plain (by simp) ?_
      intro i b hb hi hlt
      rw [List.getElem?_append_left hlt, List.getElem?_append_right hi] at hb
      exact hsymbol b (List.mem_of_getElem? hb)

/-- A byte belongs to one placeholder at most. -/
theorem index_unique (h : ExactLedger start bytes ledger) {i k k' : Nat} {e e' : Placement}
    (hk : ledger[k]? = some e) (hk' : ledger[k']? = some e') (hcovers : e.Covers i)
    (hcovers' : e'.Covers i) : k = k' := by
  obtain ⟨hlt, rfl⟩ := List.getElem?_eq_some_iff.mp hk
  obtain ⟨hlt', rfl⟩ := List.getElem?_eq_some_iff.mp hk'
  have hapart := List.pairwise_iff_getElem.mp h.apart
  unfold Placement.Covers at hcovers hcovers'
  rcases Nat.lt_trichotomy k k' with hbefore | heq | hafter
  · have := hapart k k' hlt hlt' hbefore
    omega
  · exact heq
  · have := hapart k' k hlt' hlt hafter
    omega

/-- Every control byte belongs to exactly one placeholder. -/
theorem existsUnique_of_control (h : ExactLedger start bytes ledger) {i : Nat} {b : UInt8}
    (hb : bytes[i]? = some b) (hi : start ≤ i) (hcontrol : isControlByte b = true) :
    ∃! k : Nat, ∃ e : Placement, ledger[k]? = some e ∧ e.Covers i := by
  by_cases hcovers : ∃ e ∈ ledger, e.Covers i
  · obtain ⟨e, he, hcovers⟩ := hcovers
    obtain ⟨k, hk⟩ := List.mem_iff_getElem?.mp he
    refine ⟨k, ⟨e, hk, hcovers⟩, ?_⟩
    rintro k' ⟨e', hk', hcovers'⟩
    exact h.index_unique hk' hk hcovers' hcovers
  · have hplain := h.plain i b hb hi fun e he hc => hcovers ⟨e, he, hc⟩
    rw [isControlByte_eq_false hplain] at hcontrol
    cases hcontrol

end ExactLedger

/-! ## Symbols -/

/-- The text of a symbol that is given with the request. -/
def Request.givenLead : Request → String
  | .typeReference _ lead | .typeContextReference _ lead | .declReference _ lead
  | .accessorReference _ _ lead => lead
  | _ => ""

/-- A symbol starts with the given lead, or with one in the alphabet. -/
theorem Mangler.lead_of_plan {m : Mangler} {r : Request} {plan : Plan}
    (h : m.plan r = .ok plan) :
    plan.lead = r.givenLead ∨ r.givenLead = "" ∧ IsSymbolText plan.lead.toList := by
  have hglobal : IsSymbolText "$q".toList := .of_all (by decide)
  have hforeign : IsSymbolText "_Qt".toList := .of_all (by decide)
  have hnone : IsSymbolText "".toList := .of_all (by decide)
  cases r <;> unfold Mangler.plan Grammar.plan at h <;> dsimp only at h
  -- the requests that are given a lead
  case typeReference => cases h; exact .inl rfl
  case typeContextReference => obtain ⟨-, -, h⟩ := Grammar.bind_ok h; cases h; exact .inl rfl
  case declReference => cases h; exact .inl rfl
  case accessorReference => cases h; exact .inl rfl
  -- a foreign name has a lead of its own, or none
  case foreignRuntimeName d =>
    obtain ⟨-, -, h⟩ := Grammar.bind_ok h
    cases h
    refine .inr ⟨rfl, ?_⟩
    unfold Grammar.foreignRuntimePlan
    dsimp only
    split
    · exact hnone
    · exact hforeign
  case constructorVtableThunk =>
    obtain ⟨-, -, h⟩ := Grammar.bind_ok h
    obtain ⟨-, -, h⟩ := Grammar.bind_ok h
    cases h
    exact .inr ⟨rfl, hglobal⟩
  case localTypeDecl =>
    obtain ⟨-, -, h⟩ := Grammar.bind_ok h
    cases h
    exact .inr ⟨rfl, hnone⟩
  case typeForTypeName => cases h; exact .inr ⟨rfl, hnone⟩
  case typeWithoutLead => cases h; exact .inr ⟨rfl, hnone⟩
  all_goals first
    | cases h; exact .inr ⟨rfl, hglobal⟩
    | obtain ⟨_, -, h⟩ := Grammar.bind_ok h; cases h; exact .inr ⟨rfl, hglobal⟩

/-- What a session answers with: the lead of the plan and some tokens, whose placeholders
are the ledger; none of them is copied unless the request copies a text. -/
theorem Session.request_ok {s : Session} {r : Request} {text : String}
    (h : (s.request r).1 = .ok text) : ∃ plan ts, s.mangler.plan r = .ok plan ∧
      (∀ text, .verbatim text ∈ ts → r.copiesText s.mangler.program = true) ∧
      text = plan.lead ++ String.ofList (spellAll ts) ∧
      (s.request r).2.ledger = placements plan.lead.utf8ByteSize ts := by
  unfold request at h ⊢
  cases hcommand : s.command r with
  | error e =>
    rw [hcommand] at h
    cases h
  | ok c =>
    rw [hcommand] at h
    obtain ⟨plan, hplan, hlead, hends⟩ := s.body_endAlike_write hcommand
    dsimp only at h ⊢
    unfold perform at h ⊢
    generalize c.body.run (s.start c) = result, s.mangler.write plan = result' at h hends
    cases hends with
    | error e hframe hmirrors => cases h
    | ok hframe hmirrors =>
      obtain ⟨ts, hcopies, hwrote⟩ := hframe.wrote
      cases h
      refine ⟨plan, ts, hplan, hcopies, ?_, ?_⟩
      · rw [← hlead]
        exact hwrote.text
      · rw [← hlead]
        exact hwrote.ledger

/-- The ledger of a symbol is exact.  Whatever bytes the names of the program have, behind
the given lead every byte of the symbol is a letter, a digit, an underscore or a dollar sign
unless it belongs to a placeholder; the ledger lists the placeholders in order, each is at
its offset, and every control byte belongs to exactly one of them. -/
theorem Session.ledger_exact (s : Session) (r : Request)
    (hcopies : r.copiesText s.mangler.program = false) {text : String}
    (h : (s.request r).1 = .ok text) :
    r.givenLead.toList <+: text.toList ∧
      ExactLedger r.givenLead.utf8ByteSize (utf8Bytes text) (s.request r).2.ledger ∧
      ∀ i b, (utf8Bytes text)[i]? = some b → r.givenLead.utf8ByteSize ≤ i →
        isControlByte b = true →
        ∃! k : Nat, ∃ e : Placement, (s.request r).2.ledger[k]? = some e ∧ e.Covers i := by
  obtain ⟨plan, ts, hplan, hverbatim, rfl, hledger⟩ := Session.request_ok h
  have hwritten : ExactLedger (utf8Bytes plan.lead).length
      (utf8Bytes plan.lead ++ bytesOf (spellAll ts))
      (placements (utf8Bytes plan.lead).length ts) :=
    .of_tokens _ fun text htext => by
      rw [hverbatim text htext] at hcopies
      cases hcopies
  rw [hledger, utf8Bytes_append, utf8Bytes_ofList, ← length_utf8Bytes, ← length_utf8Bytes]
  have hlead := Mangler.lead_of_plan hplan
  have hexact : ExactLedger (utf8Bytes r.givenLead).length
      (utf8Bytes plan.lead ++ bytesOf (spellAll ts))
      (placements (utf8Bytes plan.lead).length ts) := by
    -- a lead that was not given is in the alphabet, and the exactness reaches over it
    rcases hlead with heq | ⟨hnone, hsymbol⟩
    · rwa [← heq]
    · rw [hnone]
      refine hwritten.of_plain (Nat.zero_le _) fun i b hb _ hlt => ?_
      rw [List.getElem?_append_left hlt] at hb
      exact hsymbol b (List.mem_of_getElem? hb)
  refine ⟨?_, hexact, fun i b hb hi hcontrol => hexact.existsUnique_of_control hb hi hcontrol⟩
  rcases hlead with heq | ⟨hnone, -⟩
  · rw [← heq, String.toList_append]
    exact List.prefix_append _ _
  · rw [hnone]
    exact List.nil_prefix

/-- A module `M` with a struct `S`, and a property of type `(S, S)` whose name is a control
character. -/
def placedProgram : Program :=
  let p := Program.empty
  let (module, p) := p.addNamed .nativeModule "M" none
  let (struct, p) := p.addNamed .structType "S" (some (.decl module))
  let (nominal, p) := p.addType (.nominal struct none)
  let (pair, p) := p.addType (.tuple [⟨none, nominal⟩, ⟨none, nominal⟩])
  let (property, p) := p.addNamed .property "\x01" (some (.decl module))
  p.updateDecl property fun d => { d with interfaceType := some pair }

/-- The control character in the name is written out, and those in the symbol are two
placeholders. -/
theorem Session.ledger_exact_pair :
    let s : Session := { mangler :=
      { program := placedProgram, options := { allowsPlaceholders := true } } }
    let r : Request := .entity ⟨2⟩ .plain
    let text := "$q1M03$01\x01\x00\x00\x00\x00_\x01\x00\x00\x00\x00tvp"
    r.copiesText s.mangler.program = false ∧ (s.request r).1 = .ok text ∧
      (s.request r).2.ledger = [⟨.nominal ⟨1⟩, 9⟩, ⟨.nominal ⟨1⟩, 15⟩] ∧
      ExactLedger 0 (utf8Bytes text) (s.request r).2.ledger := by
  intro s r text
  have hcopies : r.copiesText s.mangler.program = false := rfl
  have hok : (s.request r).1 = .ok text := by decide +kernel
  exact ⟨hcopies, hok, by decide +kernel, (s.ledger_exact r hcopies hok).2.1⟩

end NameMangling
