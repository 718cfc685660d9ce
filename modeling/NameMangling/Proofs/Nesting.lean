/-
# How deep phrases nest

Spelling unfolds phrases, and a bound says how many of them may be nested.  Which phrases a
phrase can come to unfold is a matter of the productions alone, not of what has been written.
Where phrases nest no deeper than some bound, spelling never meets that bound nor a greater
one, and all of them come to the same.

Main definitions:
* `Opens`, what is asked of the phrases that pieces are written by unfolding;
* `Grammar.Within`, the phrases in which at most so many phrases are nested.

Main facts:
* `spell_of_within`, `spell_ne_tooDeep`: spelling where phrases nest within a bound;
* `requestWithin_eq_mangle`: so it is with requests whose phrases do.
-/
import NameMangling.Proofs.Sessions

namespace NameMangling

/-! ## What pieces open -/

/-- The phrase that a piece is written by unfolding, if any, satisfies `P`. -/
def Piece.Opens (P : Scope → Phrase → Prop) : Piece → Prop
  | .token _ | .fail _ => True
  | .phrase scope p => P scope p
  | .node scope key _ => P scope (.body key)

/-- So it is with all pieces of a row. -/
def Opens (P : Scope → Phrase → Prop) (ps : List Piece) : Prop := ∀ piece ∈ ps, piece.Opens P

namespace Opens

variable {P Q : Scope → Phrase → Prop} {ps qs : List Piece}

/-- Where phrases satisfy a property, they satisfy a weaker one. -/
theorem mono (h : ∀ scope p, P scope p → Q scope p) (hps : Opens P ps) : Opens Q ps := by
  intro piece hpiece
  have hopens := hps piece hpiece
  cases piece with
  | token | fail => trivial
  | phrase | node => exact h _ _ hopens

theorem nil : Opens P [] := by simp [Opens]

/-- A row opens what its first piece and the rest open. -/
theorem cons {piece : Piece} (h : piece.Opens P) (hps : Opens P ps) : Opens P (piece :: ps) := by
  rintro x (_ | ⟨_, hx⟩)
  · exact h
  · exact hps x hx

/-- Two rows open together what each of them opens. -/
theorem append (hps : Opens P ps) (hqs : Opens P qs) : Opens P (ps ++ qs) := by
  intro piece hpiece
  rcases List.mem_append.mp hpiece with h | h
  · exact hps piece h
  · exact hqs piece h

theorem op (o : Operator) (hps : Opens P ps) : Opens P (.op o :: ps) := hps.cons trivial

theorem token (t : Token) (hps : Opens P ps) : Opens P (.token t :: ps) := hps.cons trivial

theorem fail (e : Refusal) : Opens P [.fail e] := nil.cons trivial

/-- Operators open nothing. -/
theorem ops (os : List Operator) : Opens P (os.map .op) := by
  intro piece hpiece
  obtain ⟨o, -, rfl⟩ := List.mem_map.mp hpiece
  trivial

/-- A row with one piece for each item opens what the pieces open. -/
theorem map {α : Type} {f : α → Piece} {xs : List α} (h : ∀ x ∈ xs, (f x).Opens P) :
    Opens P (xs.map f) := by
  intro piece hpiece
  obtain ⟨x, hx, rfl⟩ := List.mem_map.mp hpiece
  exact h x hx

/-- A row with some pieces for each item opens what these open. -/
theorem flatMap {α : Type} {f : α → List Piece} {xs : List α} (h : ∀ x ∈ xs, Opens P (f x)) :
    Opens P (xs.flatMap f) := by
  intro piece hpiece
  obtain ⟨x, hx, hpiece⟩ := List.mem_flatMap.mp hpiece
  exact h x hx piece hpiece

/-- Rows one behind the other open what each of them opens. -/
theorem flatten {pss : List (List Piece)} (h : ∀ ps ∈ pss, Opens P ps) : Opens P pss.flatten := by
  intro piece hpiece
  obtain ⟨ps, hps, hpiece⟩ := List.mem_flatten.mp hpiece
  exact h ps hps piece hpiece

/-- The mark in a marked list opens nothing. -/
theorem markFirst {pss : List (List Piece)} (h : ∀ ps ∈ pss, Opens P ps) :
    Opens P (markFirst pss) := by
  cases pss with
  | nil => exact nil
  | cons first rest =>
    exact (h first (by simp)).append (op _ (flatten fun ps hps => h ps (by simp [hps])))

/-- A list opens what its rows open, and the mark of an empty one opens nothing. -/
theorem listPieces {pss : List (List Piece)} (h : ∀ ps ∈ pss, Opens P ps) :
    Opens P (listPieces pss) := by
  unfold NameMangling.listPieces
  split
  · exact op _ nil
  · exact markFirst h

end Opens

/-! ## Writing pieces -/

namespace Spelling

variable (w : Spelling) {unfold unfold' : Scope → Phrase → Speller Unit}

/-- How a piece is written depends on how its phrase is. -/
theorem piece_congr {piece : Piece}
    (h : piece.Opens fun scope p => unfold scope p = unfold' scope p) :
    w.piece unfold piece = w.piece unfold' piece := by
  cases piece with
  | token | fail => rfl
  | phrase scope p => exact h
  | node scope key referent =>
    have hbody : unfold scope (.body key) = unfold' scope (.body key) := h
    simp only [piece, hbody]

/-- What is written depends on how the phrases are written that the pieces open. -/
theorem pieces_congr {ps : List Piece}
    (h : Opens (fun scope p => unfold scope p = unfold' scope p) ps) :
    w.pieces unfold ps = w.pieces unfold' ps := by
  induction ps with
  | nil => rfl
  | cons first rest ih =>
    rw [pieces, pieces, w.piece_congr (h first (by simp)),
      ih fun piece hpiece => h piece (by simp [hpiece])]

/-- Writing a phrase never fails in one way. -/
def Avoids (unfold : Scope → Phrase → Speller Unit) (e : Failure) (scope : Scope)
    (p : Phrase) : Prop :=
  ∀ s s', unfold scope p s ≠ .error e s'

/-- Writing a phrase does not fail for nesting too deeply. -/
def Bounded (unfold : Scope → Phrase → Speller Unit) (scope : Scope) (p : Phrase) : Prop :=
  ∀ s s', unfold scope p s ≠ .error .tooDeep s'

variable {e : Failure}

/-- A piece fails in one way only if it says so itself, or if its phrase does. -/
theorem piece_avoids {piece : Piece} (h : piece.Opens (Avoids unfold e))
    (hfail : ∀ e', e = .refused e' → piece ≠ .fail e') (s s' : Progress) :
    w.piece unfold piece s ≠ .error e s' := by
  cases piece with
  | token => nofun
  | fail e' =>
    rintro ⟨⟩
    exact hfail e' rfl rfl
  | phrase scope p => exact h s s'
  | node scope key referent =>
    have hrun := Encoder.Implements.run_piece_node w unfold scope key referent s
    dsimp only [EStateM.run] at hrun
    rw [hrun]
    split
    · nofun
    · split
      · nofun
      · rename_i hbody
        rintro ⟨⟩
        exact h s _ hbody

/-- Writing pieces fails in one way only where one of them says so, or where a phrase does that
they open. -/
theorem pieces_avoids {ps : List Piece} (h : Opens (Avoids unfold e) ps)
    (hfail : ∀ e', e = .refused e' → .fail e' ∉ ps) (s s' : Progress) :
    w.pieces unfold ps s ≠ .error e s' := by
  induction ps generalizing s with
  | nil => nofun
  | cons first rest ih =>
    rw [pieces]
    simp only [bind, EStateM.bind]
    cases hfirst : w.piece unfold first s with
    | ok _ s₁ =>
      exact ih (fun piece hpiece => h piece (by simp [hpiece]))
        (fun e' he hmem => hfail e' he (by simp [hmem])) s₁
    | error e₁ s₁ =>
      rintro ⟨⟩
      exact w.piece_avoids (h first (by simp)) (fun e' he hfirst => hfail e' he (by simp [hfirst]))
        s _ hfirst

/-- Writing pieces fails for nesting too deeply only where a phrase does that they open. -/
theorem pieces_ne_tooDeep {ps : List Piece} (h : Opens (Bounded unfold) ps) (s s' : Progress) :
    w.pieces unfold ps s ≠ .error .tooDeep s' :=
  w.pieces_avoids h nofun s s'

end Spelling

namespace Grammar

variable {g : Grammar} {n k : Nat} {scope : Scope} {p : Phrase}

/-! ## Nesting -/

/-- A phrase in which at most `n` phrases are nested, itself among them. -/
def Within (g : Grammar) : Nat → Scope → Phrase → Prop
  | 0, _, _ => False
  | n + 1, scope, p => Opens (g.Within n) (g.production scope p)

/-- What nests within a bound nests within the next one. -/
theorem Within.succ (h : g.Within n scope p) : g.Within (n + 1) scope p := by
  induction n generalizing scope p with
  | zero => cases h
  | succ n ih => exact Opens.mono (fun _ _ => ih) h

/-- What nests within a bound nests within a greater one. -/
theorem Within.mono (h : g.Within n scope p) (hle : n ≤ k) : g.Within k scope p := by
  induction hle with
  | refl => exact h
  | step _ ih => exact ih.succ

/-- From the depth of a phrase on, the bound makes no difference. -/
theorem spell_of_within (w : Spelling) (h : g.Within n scope p) (hle : n ≤ k) :
    g.spell w k scope p = g.spell w n scope p := by
  induction n generalizing k scope p with
  | zero => cases h
  | succ n ih =>
    obtain ⟨k, rfl⟩ : ∃ k', k = k' + 1 := ⟨k - 1, by omega⟩
    exact w.pieces_congr (Opens.mono (fun _ _ hq => ih hq (by omega)) h)

/-- A bound that is not less than the depth of a phrase is never met. -/
theorem spell_ne_tooDeep (w : Spelling) (h : g.Within n scope p) (s s' : Progress) :
    g.spell w n scope p s ≠ .error .tooDeep s' := by
  induction n generalizing scope p s s' with
  | zero => cases h
  | succ n ih => exact w.pieces_ne_tooDeep (Opens.mono (fun _ _ hq s s' => ih hq s s') h) s s'

end Grammar

/-! ## Requests with a bound of one's own -/

/-- Bounds that are not less than the depth of the phrases in a plan come to the same. -/
theorem Mangler.writeWithin_eq {m : Mangler} {plan : Plan} {n k : Nat}
    (h : Opens ((m.grammar plan.keepsSugar).Within n) plan.pieces) (hle : n ≤ k) :
    m.writeWithin k plan = m.writeWithin n plan := by
  refine congrFun (Spelling.pieces_congr _ (h.mono fun _ _ hp => ?_)) {}
  exact Grammar.spell_of_within _ hp hle

/-- A plan whose phrases nest within the bound is not refused for nesting too deeply. -/
theorem Mangler.writeWithin_ne_tooDeep {m : Mangler} {plan : Plan} {n : Nat}
    (h : Opens ((m.grammar plan.keepsSugar).Within n) plan.pieces) (s : Progress) :
    m.writeWithin n plan ≠ .error .tooDeep s :=
  Spelling.pieces_ne_tooDeep _ (h.mono fun _ _ hp => Grammar.spell_ne_tooDeep _ hp) _ s

namespace Session

variable {s : Session} {r : Request} {plan : Plan}

/-- With whatever bound, a session answers by writing the plan with it. -/
theorem requestWithin_eq (hplan : s.mangler.plan r = .ok plan) (n : Nat) :
    (s.requestWithin n r).1 =
      match s.mangler.writeWithin n plan with
      | .ok _ p => .ok (Mangler.symbol plan.lead p.tokens.toList)
      | .error e _ => .error e := by
  unfold requestWithin
  cases hcommand : s.commandWithin n r with
  | error e =>
    rw [s.plan_of_command_error hcommand] at hplan
    cases hplan
  | ok c =>
    obtain ⟨plan', hplan', hlead, hends⟩ := s.body_endAlike hcommand
    rw [hplan] at hplan'
    cases hplan'
    dsimp only
    unfold perform
    -- the body of the command and the pieces of the plan end alike
    generalize c.body.run (s.start c) = result, s.mangler.writeWithin n plan = result' at hends
    cases hends with
    | ok hframe hmirrors =>
      simp only [hmirrors.wrote.text, ← hlead]
      rfl
    | error e hframe hmirrors => rfl

/-- Where the phrases of a plan nest within some bound, that bound and all greater ones are
as good as that of the program, and none is met. -/
theorem requestWithin_eq_mangle {n k : Nat} (hplan : s.mangler.plan r = .ok plan)
    (h : Opens ((s.mangler.grammar plan.keepsSugar).Within n) plan.pieces)
    (hbound : n ≤ (s.mangler.grammar false).depthBound) (hle : n ≤ k) :
    (s.requestWithin k r).1 = s.mangler.mangle r ∧ s.mangler.mangle r ≠ .error .tooDeep := by
  have hrequest : s.requestWithin (s.mangler.grammar false).depthBound r = s.request r := rfl
  rw [← request_eq_mangle, ← hrequest, requestWithin_eq hplan, requestWithin_eq hplan,
    Mangler.writeWithin_eq h hle, Mangler.writeWithin_eq h hbound]
  refine ⟨rfl, ?_⟩
  have hdeep := Mangler.writeWithin_ne_tooDeep h
  generalize s.mangler.writeWithin n plan = result at hdeep
  cases result with
  | ok _ p => nofun
  | error e p =>
    rintro ⟨⟩
    exact hdeep p rfl

end Session

end NameMangling
