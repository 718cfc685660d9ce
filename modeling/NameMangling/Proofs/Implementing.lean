/-
# Encoders and productions

An encoder implements a production if, run on a session that writes the same grammar in the
scope of the production, it writes what the production spells, fails where spelling fails,
and leaves a frame.  The scopes of a session are opened and closed by its encoders, those of
a production are lexical; that they agree everywhere is part of the notion.

Main definitions:
* `Session.Mirrors`, a session has written what some progress tells;
* `Encoder.Implements`, with one rule for each way of building encoders.
-/
import Mathlib.Data.List.Forall2
import NameMangling.Proofs.Frames
import NameMangling.Proofs.Writing

namespace NameMangling

/-- What a declaration is a referent of is the declaration. -/
theorem Referent.decl_of_ofDecl {p : Program} {d : DeclId} {r : Referent}
    (h : Referent.ofDecl p d = .ok r) : r.decl = d := by
  unfold Referent.ofDecl at h
  split at h
  · cases h
    rfl
  · split at h
    · cases h
      rfl
    · cases h

namespace Session

/-- The choices in writing nodes that a session stands for. -/
def spelling (s : Session) : Spelling where
  placesReferent r := !s.spellsOut r.decl && s.mangler.accepts r

/-- `s` writes the grammar `g` in the way of `w` in the given scope. -/
structure Follows (g : Grammar) (w : Spelling) (scope : Scope) (s : Session) : Prop where
  grammar : s.grammar = g
  spelling : s.spelling = w
  scope : s.scope = scope

/-- `s` has written what `p` tells after what `base` had written. -/
structure Mirrors (base s : Session) (p : Progress) : Prop where
  wrote : Wrote p.tokens.toList base s
  number? : ∀ key, s.nodes.number? key = p.number? key
  size : s.nodes.size = p.numbered

variable {base s s' : Session} {p : Progress} {g : Grammar} {w : Spelling} {scope : Scope}

/-- A session in the same scope follows the same grammar. -/
theorem SameScope.follows (h : SameScope s s') (hs : s.Follows g w scope) :
    s'.Follows g w scope where
  grammar := by
    rw [← hs.grammar]
    simp only [Session.grammar, h.mangler, h.acceptsSugar]
  spelling := by
    rw [← hs.spelling]
    simp only [Session.spelling, spellsOut, h.mangler, h.allowsPlaceholders, h.subject]
  scope := by
    rw [← hs.scope]
    simp only [Session.scope, h.bindings, h.owner]

namespace Mirrors

/-- Appending a token is mirrored by emitting it. -/
theorem append (h : Mirrors base s p) {t : Token} (ht : ∀ r, t ≠ .placeholder r) :
    Mirrors base (s.append t) (p.emit t) where
  wrote := by
    rw [Progress.emit_tokens, Array.toList_push]
    exact h.wrote.append (.token s ht)
  number? := h.number?
  size := h.size

/-- Appending a placeholder is mirrored by emitting it, in the text and in the ledger. -/
theorem placeholder (h : Mirrors base s p) (r : Referent) :
    Mirrors base (s.appendPlaceholder r) (p.emit (.placeholder r)) where
  wrote := by
    rw [Progress.emit_tokens, Array.toList_push]
    exact h.wrote.append (.placeholder s r)
  number? := h.number?
  size := h.size

/-- Registering a node is mirrored by completing it, with the same number. -/
theorem register (h : Mirrors base s p) (key : NodeKey) (start : Nat) :
    Mirrors base (s.register key) (p.complete key start) where
  wrote := by
    rw [Progress.complete_tokens]
    exact ⟨h.wrote.text, h.wrote.ledger⟩
  number? k := by
    rw [Progress.number?_complete, ← h.number?, ← h.size]
    exact s.nodes.number?_register key k
  size := by
    rw [Progress.complete_numbered, ← h.number?, ← h.size]
    exact s.nodes.size_register key

end Mirrors

/-- What has been written is seen in the text, the ledger and the nodes. -/
theorem Mirrors.of_eq (h : Mirrors base s p) (text : s'.text = s.text)
    (ledger : s'.ledger = s.ledger) (nodes : s'.nodes = s.nodes) : Mirrors base s' p where
  wrote := ⟨text.trans h.wrote.text, ledger.trans h.wrote.ledger⟩
  number? := by
    rw [nodes]
    exact h.number?
  size := by
    rw [nodes]
    exact h.size

/-- Every session has written something after itself, namely nothing. -/
theorem exists_mirrors (s : Session) : ∃ p, Mirrors s s p := by
  let node (e : NodeKey × Nat) : CompletedNode := ⟨e.1, e.2, 0, 0⟩
  refine ⟨{ nodes := (s.nodes.entries.map node).toArray, numbered := s.nodes.size },
    .nil s, ?_, rfl⟩
  intro key
  simp only [NodeTable.number?, Progress.number?, List.find?_toArray, List.find?_map,
    Option.map_map]
  rfl

end Session

namespace Encoder

variable {α β : Type} {e : Encoder α} {s : Session}

/-- The session after an encoder has been run, whether or not it failed. -/
def after (e : Encoder α) (s : Session) : Session :=
  match e.run s with
  | .ok _ s' | .error _ s' => s'

/-- Two runs end alike: both succeed, the first with `a`, or both fail with one failure, and
what the one has written mirrors the other; the first leaves a frame. -/
inductive EndAlike (copies : Prop) (base s : Session) (a : α) :
    EStateM.Result Failure Session α → EStateM.Result Failure Progress Unit → Prop
  | ok {s' : Session} {p : Progress} (frame : s.Frame copies s') (mirrors : base.Mirrors s' p) :
      EndAlike copies base s a (.ok a s') (.ok () p)
  | error {s' : Session} {p : Progress} (e : Failure) (frame : s.Frame copies s')
      (mirrors : base.Mirrors s' p) : EndAlike copies base s a (.error e s') (.error e p)

namespace EndAlike

variable {copies : Prop} {base s s₁ : Session} {a : α} {b : β}
variable {r : EStateM.Result Failure Session α} {r' : EStateM.Result Failure Progress Unit}

/-- What comes before a run and leaves a frame may be counted to the run. -/
theorem trans (hframe : s.Frame copies s₁) (h : EndAlike copies base s₁ a r r') :
    EndAlike copies base s a r r' := by
  cases h with
  | ok hframe' hmirrors => exact .ok (hframe.trans hframe') hmirrors
  | error e hframe' hmirrors => exact .error e (hframe.trans hframe') hmirrors

/-- A run in an inner scope, from `s₁`, ends alike outside it if leaving the scope neither
writes nor forgets. -/
theorem leave {close : Session → Session}
    (hclose : ∀ s', s₁.Frame copies s' → s.Frame copies (close s') ∧
      (close s').text = s'.text ∧ (close s').ledger = s'.ledger ∧ (close s').nodes = s'.nodes) :
    EndAlike copies base s₁ a r r' → EndAlike copies base s a
      (match r with | .ok a s' => .ok a (close s') | .error e s' => .error e (close s')) r' := by
  intro h
  cases h with
  | ok hframe hmirrors =>
    obtain ⟨hframe', htext, hledger, hnodes⟩ := hclose _ hframe
    exact .ok hframe' (hmirrors.of_eq htext hledger hnodes)
  | error e hframe hmirrors =>
    obtain ⟨hframe', htext, hledger, hnodes⟩ := hclose _ hframe
    exact .error e hframe' (hmirrors.of_eq htext hledger hnodes)

end EndAlike

/-- An encoder writes what some pieces spell in a scope, and returns `a` if it succeeds. -/
def Implements (copies : Prop) (g : Grammar) (w : Spelling) (depth : Nat) (scope : Scope)
    (e : Encoder α) (ps : List Piece) (a : α) : Prop :=
  ∀ ⦃base s : Session⦄ ⦃p : Progress⦄, s.Follows g w scope → base.Mirrors s p →
    EndAlike copies base s a (e.run s) ((w.pieces (g.spell w depth) ps).run p)

/-- `unfold` writes what phrases spell. -/
def Unfolds (copies : Prop) (g : Grammar) (w : Spelling) (depth : Nat)
    (unfold : Phrase → Encoder Unit) : Prop :=
  ∀ scope p, Implements copies g w depth scope (unfold p) [.phrase scope p] ()

/-! ## Spelling pieces in a row -/

/-- Two rows of pieces are spelled one behind the other. -/
theorem pieces_append (w : Spelling) (unfold : Scope → Phrase → Speller Unit)
    (ps qs : List Piece) :
    w.pieces unfold (ps ++ qs) = (do w.pieces unfold ps; w.pieces unfold qs) := by
  induction ps with
  | nil => rfl
  | cons first rest ih => simp only [List.cons_append, Spelling.pieces, ih, bind_assoc]

/-- A row of one piece is spelled as the piece. -/
theorem pieces_singleton (w : Spelling) (unfold : Scope → Phrase → Speller Unit)
    (piece : Piece) : w.pieces unfold [piece] = w.piece unfold piece := by
  simp only [Spelling.pieces]
  exact bind_pure _

/-! ## Rules -/

namespace Implements

variable {copies : Prop} {g : Grammar} {w : Spelling} {depth : Nat} {scope : Scope}
variable {f : α → Encoder β} {ps qs : List Piece} {a : α} {b : β}

/-- Whatever has been written before, what an implementation leaves is a frame. -/
theorem frame (h : Implements copies g w depth scope e ps a) (hs : s.Follows g w scope) :
    s.Frame copies (e.after s) := by
  obtain ⟨p, hp⟩ := s.exists_mirrors
  unfold after
  cases hrun : e.run s with
  | ok a' s' =>
    have hends := h hs hp
    rw [hrun] at hends
    generalize EStateM.run _ p = r' at hends
    cases hends with
    | ok hframe => exact hframe
  | error err s' =>
    have hends := h hs hp
    rw [hrun] at hends
    generalize EStateM.run _ p = r' at hends
    cases hends with
    | error _ hframe => exact hframe

theorem pure (a : α) : Implements copies g w depth scope (Pure.pure a) [] a :=
  fun _ s _ _ hp => .ok (.refl _ s) hp

/-- One encoder after the other writes one production after the other. -/
theorem append (he : Implements copies g w depth scope e ps a)
    (hf : Implements copies g w depth scope (f a) qs b) :
    Implements copies g w depth scope (e >>= f) (ps ++ qs) b := by
  intro base s p hs hp
  have hends := he hs hp
  rw [pieces_append, EStateM.run_bind, EStateM.run_bind]
  generalize e.run s = r, (w.pieces (g.spell w depth) ps).run p = r' at hends
  cases hends with
  | ok hframe hp₁ => exact (hf (hframe.follows hs) hp₁).trans hframe
  | error e hframe hp₁ => exact .error e hframe hp₁

theorem cons {piece : Piece} (he : Implements copies g w depth scope e [piece] a)
    (hf : Implements copies g w depth scope (f a) ps b) :
    Implements copies g w depth scope (e >>= f) (piece :: ps) b := he.append hf

theorem snoc {piece : Piece} (he : Implements copies g w depth scope e ps a)
    (hf : Implements copies g w depth scope (f a) [piece] b) :
    Implements copies g w depth scope (e >>= f) (ps ++ [piece]) b := he.append hf

/-- What an encoder returns may be replaced, as it is not written. -/
theorem andReturn (he : Implements copies g w depth scope e ps a) (b : β) :
    Implements copies g w depth scope (do let _ ← e; return b) ps b := by
  have h := he.append (f := fun _ => Pure.pure b) (.pure b)
  rwa [List.append_nil] at h

/-- Reading the grammar that is being written. -/
theorem readGrammar {f : Grammar → Encoder β}
    (hf : Implements copies g w depth scope (f g) ps b) :
    Implements copies g w depth scope (grammar >>= f) ps b := by
  intro base s p hs hp
  have hread : (grammar >>= f).run s = (f s.grammar).run s := rfl
  rw [hread, hs.grammar]
  exact hf hs hp

/-- Reading the scope that is being written in. -/
theorem readScope {f : Scope → Encoder β}
    (hf : Implements copies g w depth scope (f scope) ps b) :
    Implements copies g w depth scope (Encoder.scope >>= f) ps b := by
  intro base s p hs hp
  have hread : (Encoder.scope >>= f).run s = (f s.scope).run s := rfl
  rw [hread, hs.scope]
  exact hf hs hp

/-- A token that is no placeholder is written as it is. -/
theorem write {t : Token} (ht : ∀ r, t ≠ .placeholder r)
    (hcopies : ∀ text, t = .verbatim text → copies) :
    Implements copies g w depth scope (Encoder.write t) [.token t] () :=
  fun _ s _ _ hp => .ok (.append s ht hcopies) (hp.append ht)

theorem op (o : Operator) : Implements copies g w depth scope (Encoder.op o) [.op o] () :=
  write nofun nofun

theorem index (n : Nat) :
    Implements copies g w depth scope (Encoder.write (.index n)) [.token (.index n)] () :=
  write nofun nofun

/-- An identifier is no placeholder and copies nothing. -/
theorem identifier (text : String) :
    Implements copies g w depth scope (Encoder.write (.identifier text))
      [.token (.identifier text)] () :=
  write nofun nofun

theorem refuse (e : Refusal) (a : α) :
    Implements copies g w depth scope (Encoder.refuse e) [.fail e] a :=
  fun _ s _ _ hp => .error (.refused e) (.refl _ s) hp

/-! ### Scopes -/

/-- A run in a scope with its own signature opens the scope first and closes it at the end, also
when it fails. -/
theorem run_binding (signature : Option SignatureId) (e : Encoder α) (s : Session) :
    (binding signature e).run s = match e.run (s.bind signature) with
      | .ok a s' => .ok a s'.unbind
      | .error e s' => .error e s'.unbind := by
  have hrun : ∀ r : EStateM.Result Failure Session α, e.run (s.bind signature) = r →
      (binding signature e).run s = match r with
        | .ok a s' => .ok a s'.unbind
        | .error e s' => .error e s'.unbind := by
    intro r hr
    have he : e (s.bind signature) = r := hr
    have hbind : (binding signature e).run s =
        (do try e finally modify (·.unbind) : Encoder α).run (s.bind signature) := rfl
    rw [hbind]
    simp only [EStateM.run, tryFinally, tryFinally', Functor.map, EStateM.map, he]
    cases r <;> rfl
  exact hrun _ rfl

/-- What is written with a signature bound implements what is spelled with it in scope. -/
theorem binding {signature : Option SignatureId}
    (he : Implements copies g w depth { scope with signature } e ps a) :
    Implements copies g w depth scope (Encoder.binding signature e) ps a := by
  intro base s p hs hp
  have hs' : (s.bind signature).Follows g w { scope with signature } := by
    refine ⟨hs.grammar, hs.spelling, ?_⟩
    rw [← hs.scope]
    rfl
  rw [run_binding]
  exact EndAlike.leave (fun s' hframe => ⟨hframe.unbind, rfl, rfl, rfl⟩)
    (he hs' (hp.of_eq rfl rfl rfl))

/-- A run that is owned by a declaration puts back the owner from before, also when it fails. -/
theorem run_owned (d : DeclId) (e : Encoder α) (s : Session) :
    (owned d e).run s = match e.run (s.own (some d)) with
      | .ok a s' => .ok a (s'.own s.owner)
      | .error e s' => .error e (s'.own s.owner) := by
  have hrun : ∀ r : EStateM.Result Failure Session α, e.run (s.own (some d)) = r →
      (owned d e).run s = match r with
        | .ok a s' => .ok a (s'.own s.owner)
        | .error e s' => .error e (s'.own s.owner) := by
    intro r hr
    have he : e (s.own (some d)) = r := hr
    have hown : (owned d e).run s =
        (do try e finally modify (·.own s.owner) : Encoder α).run (s.own (some d)) := rfl
    rw [hown]
    simp only [EStateM.run, tryFinally, tryFinally', Functor.map, EStateM.map, he]
    cases r <;> rfl
  exact hrun _ rfl

/-- What is written for the type of a declaration implements what is spelled relative to it. -/
theorem owned {d : DeclId}
    (he : Implements copies g w depth { scope with owner := some d } e ps a) :
    Implements copies g w depth scope (Encoder.owned d e) ps a := by
  intro base s p hs hp
  have hs' : (s.own (some d)).Follows g w { scope with owner := some d } := by
    refine ⟨hs.grammar, hs.spelling, ?_⟩
    rw [← hs.scope]
    rfl
  rw [run_owned]
  exact EndAlike.leave (fun s' hframe => ⟨hframe.disown, rfl, rfl, rfl⟩)
    (he hs' (hp.of_eq rfl rfl rfl))

/-! ### Nodes -/

/-- A node that has a number is referred to, any other is written out and registered behind
that. -/
theorem run_node (key : NodeKey) (body : Encoder Unit) (s : Session) :
    (Encoder.node key body).run s = match s.nodes.number? key with
      | some n => .ok () (s.append (.backReference n))
      | none =>
        match body.run s with
        | .ok _ s' => .ok () (s'.register key)
        | .error e s' => .error e s' := by
  -- the table is asked first; what it answers decides whether the body runs
  have hread : (referBack key).run s = match s.nodes.number? key with
      | some n => .ok true (s.append (.backReference n))
      | none => .ok false s := by
    have hget : (referBack key).run s = EStateM.run (match s.nodes.number? key with
        | some n => do
          Encoder.write (.backReference n)
          return true
        | none => return false) s := rfl
    rw [hget]
    cases s.nodes.number? key <;> rfl
  rw [Encoder.node, EStateM.run_bind, hread]
  cases s.nodes.number? key with
  | some n => rfl
  | none =>
    show (body >>= fun _ => modify (·.register key)).run s = _
    rw [EStateM.run_bind]
    cases body.run s <;> rfl

/-- A node is spelled by a shorthand if there is one, and otherwise written out and completed. -/
theorem run_piece_node (w : Spelling) (unfold : Scope → Phrase → Speller Unit) (scope : Scope)
    (key : NodeKey) (r : Option Referent) (p : Progress) :
    (w.piece unfold (.node scope key r)).run p = match w.shorthand? p key r with
      | some t => .ok () (p.emit t)
      | none =>
        match (unfold scope (.body key)).run p with
        | .ok _ p' => .ok () (p'.complete key p.tokens.size)
        | .error e p' => .error e p' := by
  have hget : (w.piece unfold (.node scope key r)).run p =
      EStateM.run (match w.shorthand? p key r with
        | some t => modify (·.emit t)
        | none => do
          unfold scope (.body key)
          modify (·.complete key p.tokens.size)) p := rfl
  rw [hget]
  cases w.shorthand? p key r with
  | some t => rfl
  | none =>
    show (unfold scope (.body key) >>= fun _ => modify (·.complete key p.tokens.size)).run p = _
    rw [EStateM.run_bind]
    cases (unfold scope (.body key)).run p <;> rfl

/-- A node is written once, and referred back to where it is met again. -/
theorem node {key : NodeKey} {body : Encoder Unit}
    (hbody : Implements copies g w depth scope body [.phrase scope (.body key)] ()) :
    Implements copies g w depth scope (Encoder.node key body) [.node scope key none] () := by
  intro base s p hs hp
  have hback : w.refersBack = true := by
    rw [← hs.spelling]
    rfl
  -- both sides number nodes alike, so they refer back to the same ones
  have hshort : w.shorthand? p key none = (s.nodes.number? key).map .backReference := by
    rw [Spelling.shorthand?, hback, hp.number?]
    rfl
  rw [pieces_singleton, run_node, run_piece_node, hshort]
  cases s.nodes.number? key with
  | some n => exact .ok (.append s nofun nofun) (hp.append nofun)
  | none =>
    have hends := hbody hs hp
    rw [pieces_singleton, Spelling.piece] at hends
    simp only [Option.map_none]
    generalize body.run s = r, (g.spell w depth scope (.body key)).run p = r' at hends
    cases hends with
    | ok hframe hp' => exact .ok (hframe.trans (.register _ key)) (hp'.register key _)
    | error e hframe hp' => exact .error e hframe hp'

/-- A declaration that may be written as a placeholder is, where that is wanted; otherwise
it is a node like others. -/
theorem placed {d : DeclId} {r : Referent} {key : NodeKey} {body : Encoder Unit}
    (hr : Referent.ofDecl g.program d = .ok r)
    (hbody : Implements copies g w depth scope body [.phrase scope (.body key)] ()) :
    Implements copies g w depth scope
      (do if ← place? d then return else Encoder.node key body)
      [.node scope key (some r)] () := by
  intro base s p hs hp
  -- the plan wants a placeholder where the session does
  have hplaces : w.placesReferent r = (!s.spellsOut d && s.mangler.accepts r) := by
    rw [← hs.spelling, ← Referent.decl_of_ofDecl hr]
    rfl
  have hofDecl : Referent.ofDecl s.mangler.program d = .ok r := by
    rw [← hr, ← hs.grammar]
    rfl
  have hplace : (place? d).run s =
      if w.placesReferent r then .ok true (s.appendPlaceholder r) else .ok false s := by
    have hget : (get : Encoder Session).run s = .ok s s := rfl
    unfold place?
    rw [EStateM.run_bind, hget]
    simp only [hofDecl, hplaces]
    cases s.spellsOut d <;> cases s.mangler.accepts r <;> rfl
  rw [EStateM.run_bind, hplace]
  by_cases hwanted : w.placesReferent r = true
  · have hshort : w.shorthand? p key (some r) = some (.placeholder r) := by
      simp [Spelling.shorthand?, Option.filter, hwanted]
    rw [if_pos hwanted, pieces_singleton, run_piece_node, hshort]
    exact .ok (.placeholder s r) (hp.placeholder r)
  · -- not wanted, the declaration is written as one that has no placeholder
    have hshort : w.shorthand? p key (some r) = w.shorthand? p key none := by
      simp [Spelling.shorthand?, Option.filter, hwanted]
    rw [if_neg hwanted, pieces_singleton, run_piece_node, hshort, ← run_piece_node,
      ← pieces_singleton]
    exact node hbody hs hp

/-! ### Rows -/

section Rows

variable {es : List (Encoder Unit)} {pss : List (List Piece)}

/-- Encoders in a row implement the rows of pieces one behind the other. -/
theorem row (h : List.Forall₂ (fun e ps => Implements copies g w depth scope e ps ()) es pss) :
    Implements copies g w depth scope (Encoder.row es) pss.flatten () := by
  induction h with
  | nil => exact .pure ()
  | cons hfirst _ ih => exact hfirst.append ih

/-- Encoders with a mark behind the first implement a marked list. -/
theorem markFirst
    (h : List.Forall₂ (fun e ps => Implements copies g w depth scope e ps ()) es pss) :
    Implements copies g w depth scope (Encoder.markFirst es) (NameMangling.markFirst pss) () := by
  cases h with
  | nil => exact .pure ()
  | cons hfirst hrest => exact hfirst.append ((op .firstOfList).cons (row hrest))

/-- Encoders of the items implement the list of their pieces. -/
theorem list (h : List.Forall₂ (fun e ps => Implements copies g w depth scope e ps ()) es pss) :
    Implements copies g w depth scope (Encoder.list es) (listPieces pss) () := by
  have hempty : es.isEmpty = pss.isEmpty := by
    cases h <;> rfl
  unfold Encoder.list listPieces
  rw [hempty]
  split
  · exact op .emptyList
  · exact markFirst h

/-- Items made from one list. -/
theorem items {ι : Type} {xs : List ι} {item : ι → Encoder Unit} {pieces : ι → List Piece}
    (h : ∀ x ∈ xs, Implements copies g w depth scope (item x) (pieces x) ()) :
    List.Forall₂ (fun e ps => Implements copies g w depth scope e ps ())
      (xs.map item) (xs.map pieces) := by
  rw [List.forall₂_map_left_iff, List.forall₂_map_right_iff]
  exact List.forall₂_same.mpr h

/-- One encoder for each item implements the pieces of the items in a row. -/
theorem rowOf {ι : Type} {xs : List ι} {item : ι → Encoder Unit} {pieces : ι → List Piece}
    (h : ∀ x ∈ xs, Implements copies g w depth scope (item x) (pieces x) ()) :
    Implements copies g w depth scope (Encoder.row (xs.map item)) (xs.flatMap pieces) () := by
  rw [List.flatMap_def]
  exact row (items h)

/-- Pieces that stand alone. -/
theorem rowOfPieces {ι : Type} {xs : List ι} {item : ι → Encoder Unit} {piece : ι → Piece}
    (h : ∀ x ∈ xs, Implements copies g w depth scope (item x) [piece x] ()) :
    Implements copies g w depth scope (Encoder.row (xs.map item)) (xs.map piece) () := by
  have hflat : xs.map piece = xs.flatMap fun x => [piece x] := List.map_eq_flatMap
  rw [hflat]
  exact rowOf h

theorem ops (os : List Operator) :
    Implements copies g w depth scope (Encoder.row (os.map Encoder.op)) (os.map .op) () :=
  rowOfPieces fun o _ => op o

/-- Tokens of which none is a placeholder or copied. -/
theorem writeAll {ts : List Token} (h : ∀ t ∈ ts, (∀ r, t ≠ .placeholder r) ∧
    ∀ text, t ≠ .verbatim text) :
    Implements copies g w depth scope (Encoder.writeAll ts) (ts.map .token) () := by
  induction ts with
  | nil => exact .pure ()
  | cons t ts ih =>
    have ht := h t (by simp)
    refine (write ht.1 fun text htext => absurd htext (ht.2 text)).cons ?_
    exact ih fun t' ht' => h t' (by simp [ht'])

end Rows

end Implements

end Encoder

end NameMangling
