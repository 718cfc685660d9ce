/-
# Reading pieces

What is written for some pieces is read as items on the stack, whatever is below them and,
up to a condition on the next token, whatever comes after them.  Meanwhile the table of the
reader grows as the progress of the writer does.  So pieces in a row are read in a row, a
node is read as its body is, and a list is read as its items are.

Main definitions: `Reads` for tokens, `ReadsPieces` for pieces and `ReadsBody` for nodes.

Main facts: `ReadsPieces.append`, `readsPieces_node`, `readsBody_of_parts` and
`readsPieces_markFirst`.
-/
import NameMangling.Proofs.TypeReader

namespace NameMangling

/-! ## Steps of the reader -/

/-- Stacks on which no lowered function is being read. -/
def IsReady (σ : List TypeItem) : Prop := ∀ f σ', σ ≠ .lowering f :: σ'

/-- Items other than a lowered function being read leave a stack ready. -/
theorem isReady_append {xs σ : List TypeItem} (hxs : ∀ x ∈ xs, ∀ f, x ≠ .lowering f)
    (hσ : IsReady σ) : IsReady (xs ++ σ) := by
  cases xs with
  | nil => exact hσ
  | cons x xs =>
    rintro f σ' ⟨⟩
    exact hxs _ (by simp) f rfl

section

variable {p : Program} {σ : List TypeItem} {table : List NodeKey} {rest : List Token}

/-- On a ready stack operators are left to the reader of operators. -/
theorem readToken_op (hσ : IsReady σ) (o : Operator) :
    p.readToken ⟨σ, table, .op o :: rest⟩ = p.readTypeOperator o σ table rest := by
  cases σ with
  | nil => rfl
  | cons x σ => cases x <;> first | rfl | exact absurd rfl (hσ _ _)

/-- On a ready stack an identifier is read as a name. -/
theorem readToken_identifier (hσ : IsReady σ) (x : String) :
    p.readToken ⟨σ, table, .identifier x :: rest⟩ = p.readName x σ table rest := by
  cases σ with
  | nil => rfl
  | cons x σ => cases x <;> first | rfl | exact absurd rfl (hσ _ _)

/-- On a ready stack a reference is the node with that number. -/
theorem readToken_backReference (hσ : IsReady σ) (n : Nat) :
    p.readToken ⟨σ, table, .backReference n :: rest⟩ =
      (table[n]?).map fun key => ⟨.key key :: σ, table, rest⟩ := by
  cases σ with
  | nil => rfl
  | cons x σ => cases x <;> first | rfl | exact absurd rfl (hσ _ _)

end

/-! ## Reading pieces -/

/-- Tokens are read as some items, the last one first, while the table grows from one to
another, provided that what follows is as it should be.  The marks of a function do not
come first. -/
structure Reads (p : Program) (new : List Token) (ok : List Token → Prop)
    (table table' : List NodeKey) (xs : List TypeItem) : Prop where
  quiet : ∀ rest, ok rest → marksFollow (new ++ rest) = false
  leads : ∀ σ rest, IsReady σ → ok rest →
    Leads p.readToken ⟨σ, table, new ++ rest⟩ ⟨xs ++ σ, table', rest⟩
  items : ∀ x ∈ xs, ∀ f, x ≠ .lowering f

/-- What is written for some pieces is read as some items. -/
def ReadsPieces (g : Grammar) (n : Nat) (ps : List Piece) (ok : List Token → Prop)
    (xs : List TypeItem) : Prop :=
  ∀ s s' : Progress, s.Tabled → g.Writes {} n ps s s' → ∃ new,
    s'.tokens.toList = s.tokens.toList ++ new ∧ Reads g.program new ok s.table s'.table xs

/-- What is written for the body of a node is read as the node, which is complete then. -/
def ReadsBody (g : Grammar) (n : Nat) (ps : List Piece) (ok : List Token → Prop)
    (key : NodeKey) : Prop :=
  ∀ s s' : Progress, s.Tabled → g.Writes {} n ps s s' → ∃ new,
    s'.tokens.toList = s.tokens.toList ++ new ∧
      Reads g.program new ok s.table (register key s'.table) [.key key]

/-- Nothing has to be known of what follows, but that it does not begin with marks. -/
def Quiet (rest : List Token) : Prop := marksFollow rest = false

section

variable {g : Grammar} {n : Nat} {ps qs : List Piece} {ok ok' : List Token → Prop}
  {xs ys : List TypeItem} {key : NodeKey}

/-- Pieces in a row are read in a row. -/
theorem ReadsPieces.append (h : ReadsPieces g n ps ok xs) (h' : ReadsPieces g n qs ok' ys)
    (hok : ∀ rest, Quiet rest → ok rest) : ReadsPieces g n (ps ++ qs) ok' (ys ++ xs) := by
  intro s s' hs hwrites
  obtain ⟨s₁, hfirst, hsecond⟩ := Grammar.writes_append.1 hwrites
  obtain ⟨new, htokens, hreads⟩ := h s s₁ hs hfirst
  obtain ⟨new', htokens', hreads'⟩ := h' s₁ s' (hfirst.tabled hs) hsecond
  refine ⟨new ++ new', by rw [htokens', htokens, List.append_assoc], ?_, ?_, ?_⟩
  · intro rest hrest
    rw [List.append_assoc]
    -- what the first pieces expect to follow is what the others begin with, or what follows them
    exact hreads.quiet _ (hok _ (hreads'.quiet rest hrest))
  · intro σ rest hσ hrest
    rw [List.append_assoc, List.append_assoc]
    exact (hreads.leads σ _ hσ (hok _ (hreads'.quiet rest hrest))).trans
      (hreads'.leads _ rest (isReady_append hreads.items hσ) hrest)
  · intro x hx
    rcases List.mem_append.1 hx with hx | hx
    · exact hreads'.items x hx
    · exact hreads.items x hx

/-- What is read in front of some rests is read in front of fewer. -/
theorem ReadsPieces.mono (h : ReadsPieces g n ps ok xs) (hok : ∀ rest, ok' rest → ok rest) :
    ReadsPieces g n ps ok' xs := by
  intro s s' hs hwrites
  obtain ⟨new, htokens, hreads⟩ := h s s' hs hwrites
  exact ⟨new, htokens, fun rest hrest => hreads.quiet rest (hok rest hrest),
    fun σ rest hσ hrest => hreads.leads σ rest hσ (hok rest hrest), hreads.items⟩

/-- Nothing is read as nothing. -/
theorem readsPieces_nil : ReadsPieces g n [] Quiet [] := by
  intro s s' hs hwrites
  cases hwrites
  exact ⟨[], by simp, fun rest hrest => hrest, fun σ rest _ _ => .refl _, by simp⟩

/-- Tokens that are written as they are. -/
theorem readsPieces_tokens (ts : List Token)
    (hquiet : ∀ rest, ok rest → marksFollow (ts ++ rest) = false)
    (hleads : ∀ σ table rest, IsReady σ → ok rest →
      Leads g.program.readToken ⟨σ, table, ts ++ rest⟩ ⟨xs ++ σ, table, rest⟩)
    (hitems : ∀ x ∈ xs, ∀ f, x ≠ .lowering f) : ReadsPieces g n (ts.map .token) ok xs := by
  intro s s' hs hwrites
  obtain ⟨htokens, -⟩ := Grammar.writes_tokens hwrites
  refine ⟨ts, htokens, hquiet, fun σ rest hσ hrest => ?_, hitems⟩
  rw [Grammar.writes_tokens_table hwrites]
  exact hleads σ _ rest hσ hrest

/-- A phrase is read as its production is. -/
theorem readsPieces_phrase {scope : Scope} {p : Phrase}
    (h : ∀ m, m < n → ReadsPieces g m (g.production scope p) ok xs) :
    ReadsPieces g n [.phrase scope p] ok xs := by
  intro s s' hs hwrites
  cases hwrites with | phrase inside after =>
  cases after
  exact h _ (Nat.lt_succ_self _) s s' hs inside

/-- A node is read as its body is, or looked up in the table. -/
theorem readsPieces_node {scope : Scope} {r : Option Referent}
    (h : ∀ m, m < n → ReadsBody g m (g.production scope (.body key)) ok key) :
    ReadsPieces g n [.node scope key r] ok [.key key] := by
  intro s s' hs hwrites
  cases hwrites with
  | short shorthand after =>
    cases after
    obtain ⟨r', -, hplaces, -⟩ | ⟨-, k, hk, rfl⟩ := Spelling.shorthand?_eq_some shorthand
    · cases hplaces
    · refine ⟨[.backReference k], by simp, fun _ _ => rfl, fun σ rest hσ _ => ?_, by simp⟩
      -- the table of the reader numbers nodes as the writer does
      rw [hs.number] at hk
      refine .single ?_
      rw [List.singleton_append, readToken_backReference hσ, Progress.table_emit,
        getElem?_of_idxOf? hk]
      rfl
  | spelled noShorthand inside after =>
    cases after
    obtain ⟨new, htokens, hreads⟩ := h _ (Nat.lt_succ_self _) s _ hs inside
    refine ⟨new, by rw [Progress.complete_tokens, htokens], ?_⟩
    rw [Progress.table_complete]
    exact hreads

/-- Some last tokens make other items of those that have been read. -/
theorem Reads.close {p : Program} {new cl : List Token} {table table' table'' : List NodeKey}
    (h : Reads p new ok table table' xs) (hok : ∀ rest, ok' rest → ok (cl ++ rest))
    (hclose : ∀ σ rest, IsReady (xs ++ σ) → ok' rest →
      Leads p.readToken ⟨xs ++ σ, table', cl ++ rest⟩ ⟨ys ++ σ, table'', rest⟩)
    (hitems : ∀ y ∈ ys, ∀ f, y ≠ .lowering f) : Reads p (new ++ cl) ok' table table'' ys where
  quiet rest hrest := by
    rw [List.append_assoc]
    exact h.quiet _ (hok rest hrest)
  leads σ rest hσ hrest := by
    rw [List.append_assoc]
    exact (h.leads σ _ hσ (hok rest hrest)).trans
      (hclose σ rest (isReady_append h.items hσ) hrest)
  items := hitems

/-- Pieces and some last tokens, which leave the table as it is. -/
theorem ReadsPieces.close {cl : List Token} (h : ReadsPieces g n ps ok xs)
    (hok : ∀ rest, ok' rest → ok (cl ++ rest))
    (hclose : ∀ σ table rest, IsReady (xs ++ σ) → ok' rest →
      Leads g.program.readToken ⟨xs ++ σ, table, cl ++ rest⟩ ⟨ys ++ σ, table, rest⟩)
    (hitems : ∀ y ∈ ys, ∀ f, y ≠ .lowering f) :
    ReadsPieces g n (ps ++ cl.map .token) ok' ys := by
  intro s s' hs hwrites
  obtain ⟨s₁, hfirst, hsecond⟩ := Grammar.writes_append.1 hwrites
  obtain ⟨new, htokens, hreads⟩ := h s s₁ hs hfirst
  obtain ⟨htokens', -⟩ := Grammar.writes_tokens hsecond
  refine ⟨new ++ cl, by rw [htokens', htokens, List.append_assoc], ?_⟩
  rw [Grammar.writes_tokens_table hsecond]
  exact hreads.close hok (fun σ rest => hclose σ _ rest) hitems

/-- A body is read when its parts are and its last tokens make a node of them. -/
theorem readsBody_of_parts (cl : List Token) (hparts : ReadsPieces g n ps ok xs)
    (hok : ∀ rest, ok' rest → ok (cl ++ rest))
    (hclose : ∀ σ table rest, IsReady (xs ++ σ) → ok' rest →
      Leads g.program.readToken ⟨xs ++ σ, table, cl ++ rest⟩
        ⟨.key key :: σ, register key table, rest⟩) :
    ReadsBody g n (ps ++ cl.map .token) ok' key := by
  intro s s' hs hwrites
  obtain ⟨s₁, hfirst, hsecond⟩ := Grammar.writes_append.1 hwrites
  obtain ⟨new, htokens, hreads⟩ := hparts s s₁ hs hfirst
  obtain ⟨htokens', -⟩ := Grammar.writes_tokens hsecond
  refine ⟨new ++ cl, by rw [htokens', htokens, List.append_assoc], ?_⟩
  rw [Grammar.writes_tokens_table hsecond]
  exact hreads.close hok (fun σ rest => hclose σ _ rest) (by simp)

/-- A refusal is never written. -/
theorem readsPieces_fail {e : Refusal} : ReadsPieces g n (.fail e :: ps) ok xs := by
  intro s s' _ hwrites
  cases hwrites

/-! ## Lists -/

/-- The items of a list on a stack: the mark of the list is above the first item. -/
def listItems : List TypeItem → List TypeItem
  | [] => []
  | x :: xs => xs.reverse ++ [.first, x]

/-- The items of a list are found on the stack again. -/
theorem popList_listItems {σ : List TypeItem} (hne : xs ≠ [])
    (hxs : ∀ x ∈ xs, x ≠ .first ∧ x ≠ .emptyList) :
    popList [] (listItems xs ++ σ) = some (xs, σ) := by
  cases xs with
  | nil => exact absurd rfl hne
  | cons x xs =>
    -- the items above the mark are collected from the last one on
    have hcollect : ∀ (ys zs : List TypeItem), (∀ y ∈ ys, y ≠ .first ∧ y ≠ .emptyList) →
        popList zs (ys ++ .first :: x :: σ) = some (x :: (ys.reverse ++ zs), σ) := by
      intro ys
      induction ys with
      | nil => exact fun zs _ => rfl
      | cons y ys ih =>
        intro zs hys
        obtain ⟨hfirst, hempty⟩ := hys y (by simp)
        rw [List.cons_append, popList, ih (y :: zs) fun y' hy' => hys y' (by simp [hy'])]
        · simp
        · exact fun _ _ h _ => hfirst h
        · exact fun h => hempty h
    rw [listItems, List.append_assoc]
    have hlist := hcollect xs.reverse [] fun y hy => hxs y (by simp [List.mem_reverse.1 hy])
    simpa using hlist

/-- Items in a row are read from left to right. -/
theorem readsPieces_flatten {α : Type} {as : List α} {f : α → List Piece} {k : α → TypeItem}
    (h : ∀ a ∈ as, ReadsPieces g n (f a) Quiet [k a]) :
    ReadsPieces g n (as.map f).flatten Quiet (as.map k).reverse := by
  induction as with
  | nil => exact readsPieces_nil
  | cons a as ih =>
    rw [List.map_cons, List.flatten_cons, List.map_cons, List.reverse_cons]
    exact (h a (by simp)).append (ih fun b hb => h b (by simp [hb])) fun _ hrest => hrest

/-- The mark of a list is put on the stack, whatever follows. -/
theorem readsPieces_firstOfList :
    ReadsPieces g n [.op .firstOfList] (fun _ => True) [.first] := by
  refine readsPieces_tokens [.op .firstOfList] (fun _ _ => rfl) ?_ (by simp)
  intro σ table rest hσ _
  refine .single ?_
  rw [List.singleton_append, readToken_op hσ]
  rfl

/-- A list is read as its items are. -/
theorem readsPieces_markFirst {α : Type} {as : List α} {f : α → List Piece} {k : α → TypeItem}
    (h : ∀ a ∈ as, ReadsPieces g n (f a) Quiet [k a]) :
    ReadsPieces g n (markFirst (as.map f)) Quiet (listItems (as.map k)) := by
  cases as with
  | nil => exact readsPieces_nil
  | cons a as =>
    have hrest := readsPieces_flatten fun b hb => h b (List.mem_cons_of_mem a hb)
    have hmark := readsPieces_firstOfList.append (g := g) (n := n) hrest fun _ _ => trivial
    have hlist := (h a (by simp)).append hmark fun _ hquiet => hquiet
    rw [List.append_assoc] at hlist
    exact hlist

/-- The items that have been collected are what they stand for. -/
theorem mapM_map_eq_some {α β γ : Type} {as : List α} {k : α → β} {f : β → Option γ} {h : α → γ}
    (hf : ∀ a ∈ as, f (k a) = some (h a)) : (as.map k).mapM f = some (as.map h) := by
  induction as with
  | nil => rfl
  | cons a as ih =>
    rw [List.map_cons, List.mapM_cons, hf a (by simp), ih fun b hb => hf b (by simp [hb])]
    rfl

end

end NameMangling
