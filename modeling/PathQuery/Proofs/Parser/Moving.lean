import PathQuery.Expr.Parser
import PathQuery.Proofs.Token.Spacing

namespace PathQuery

def TokenCursor.moved (g : Nat → Nat) (c : TokenCursor) : TokenCursor :=
  ⟨g c.previous, c.current.moved g, c.following.map (Token.moved g)⟩

def SyntaxError.moved (g : Nat → Nat) (e : SyntaxError) : SyntaxError :=
  { e with position := g e.position }

def Opening.moved (g : Nat → Nat) (o : Opening) : Opening := { o with position := g o.position }

namespace Parser

variable {g : Nat → Nat} {α β : Type} {m m' : ParseM α} {f f' : α → ParseM β}

/-- From tokens that were moved the second rule does what the first does from the tokens where they
were, and reports an error where its place was moved to. -/
def Moves (g : Nat → Nat) (m m' : ParseM α) : Prop :=
  ∀ c : TokenCursor, m' (c.moved g) =
    match m c with
    | .ok a c' => .ok a (c'.moved g)
    | .error e c' => .error (e.moved g) (c'.moved g)

namespace Moves

theorem pure (a : α) : Moves g (Pure.pure a) (Pure.pure a) := fun _ ↦ rfl

theorem bind (hm : Moves g m m') (hf : ∀ a, Moves g (f a) (f' a)) :
    Moves g (m >>= f) (m' >>= f') := by
  intro c
  change EStateM.bind m' f' _ = match EStateM.bind m f c with | .ok a c' => _ | .error e c' => _
  rw [EStateM.bind, EStateM.bind, hm c]
  cases m c with
  | error e c' => rfl
  | ok a c' => exact hf a c'

theorem map {k : α → β} (hm : Moves g m m') :
    Moves g (do return k (← m)) (do return k (← m')) :=
  hm.bind fun _ ↦ pure _

theorem ite {p : Prop} [Decidable p] {n n' : ParseM α} (hm : Moves g m m') (hn : Moves g n n') :
    Moves g (if p then m else n) (if p then m' else n') := by
  split
  · exact hm
  · exact hn

theorem current {f f' : Token → ParseM β} (h : ∀ t : Token, Moves g (f t) (f' (t.moved g))) :
    Moves g (current >>= f) (Parser.current >>= f') :=
  fun c ↦ h c.current c

theorem peek {f f' : Token → ParseM β} (h : ∀ t : Token, Moves g (f t) (f' (t.moved g))) :
    Moves g (peek >>= f) (Parser.peek >>= f') := by
  rintro ⟨previous, current, following⟩
  cases following with
  | nil => exact h current _
  | cons t following => exact h t _

theorem previousPosition {f f' : Nat → ParseM β} (h : ∀ n, Moves g (f n) (f' (g n))) :
    Moves g (previousPosition >>= f) (Parser.previousPosition >>= f') :=
  fun c ↦ h c.previous c

theorem slicePart {f f' : Option Int64 → ParseM β} (parts : SliceParts) (i : Nat)
    (h : ∀ k, Moves g (f k) (f' k)) :
    Moves g (slicePart parts i >>= f) (Parser.slicePart parts i >>= f') :=
  h ((parts.get? i).getD none)

theorem turns {f f' : Nat → ParseM β} (h : ∀ n, Moves g (f n) (f' n)) :
    Moves g (turns >>= f) (Parser.turns >>= f') := by
  intro c
  have hlength : (c.moved g).following.length = c.following.length := List.length_map _
  change f' ((c.moved g).following.length + 1) (c.moved g) = _
  rw [hlength]
  exact h _ c

theorem advance : Moves g advance advance := by
  rintro ⟨previous, current, following⟩
  cases following <;> rfl

theorem thenAdvance {f f' : Unit → ParseM β} (h : Moves g (f ()) (f' ())) :
    Moves g (Parser.advance >>= f) (Parser.advance >>= f') :=
  advance.bind fun _ ↦ h

theorem check {f f' : Bool → ParseM β} (s : Symbol) (h : ∀ b, Moves g (f b) (f' b)) :
    Moves g (check s >>= f) (Parser.check s >>= f') :=
  bind (fun _ ↦ rfl) h

theorem failAt (position : Nat) (fault : SyntaxFault) :
    Moves g (failAt position fault : ParseM α) (failAt (g position) fault) := fun _ ↦ rfl

theorem fail (fault : SyntaxFault) : Moves g (fail fault : ParseM α) (fail fault) := fun _ ↦ rfl

theorem unexpected (place : Place) : Moves g (unexpected place : ParseM α) (unexpected place) :=
  fun _ ↦ rfl

theorem unexpectedThen (place : Place) :
    Moves g (Parser.unexpected place >>= f) (Parser.unexpected place >>= f') := fun _ ↦ rfl

theorem missingCloser (o : Opening) :
    Moves g (missingCloser o : ParseM α) (missingCloser (o.moved g)) :=
  current fun _ ↦ ite (failAt _ _) (unexpected _)

theorem expectCloser (o : Opening) : Moves g (expectCloser o) (expectCloser (o.moved g)) :=
  check _ fun _ ↦ ite advance (missingCloser o)

end Moves

theorem moves_sliceParts (o : Opening) (n i : Nat) (parts : SliceParts) :
    Moves g (sliceParts o n i parts) (sliceParts (o.moved g) n i parts) := by
  induction n generalizing i parts with
  | zero => exact .missingCloser o
  | succ n ih =>
    refine .current fun t ↦ ?_
    obtain ⟨kind, text, position⟩ := t
    dsimp only [Token.moved]
    split
    · exact .slicePart _ _ fun _ ↦ .ite (.unexpected _) (.thenAdvance (ih _ _))
    · exact .ite (.fail _) (.thenAdvance (ih _ _))
    · exact .thenAdvance (.pure _)
    · exact .missingCloser o
    · exact .unexpected _

section

variable {expression : Nat → ParseM Expr} (hE : ∀ p, Moves g (expression p) (expression p))

include hE

theorem moves_grouped (o : Opening) :
    Moves g (grouped expression o) (grouped expression (o.moved g)) :=
  .current fun _ ↦ .ite (.missingCloser o) (hE 0)

theorem moves_listItems (o : Opening) (n : Nat) :
    Moves g (listItems expression o n) (listItems expression (o.moved g) n) := by
  induction n with
  | zero => exact .missingCloser o
  | succ n ih =>
    refine .bind (moves_grouped hE o) fun item ↦ .check _ fun comma ↦ ?_
    exact .ite (.thenAdvance ih.map) (.bind (.expectCloser o) fun _ ↦ .pure _)

theorem moves_multiSelectList (o : Opening) :
    Moves g (multiSelectList expression o) (multiSelectList expression (o.moved g)) :=
  .turns fun _ ↦ (moves_listItems hE o _).map

omit hE in
theorem moves_hashKey (o : Opening) (isFirst : Bool) :
    Moves g (hashKey o isFirst) (hashKey (o.moved g) isFirst) := by
  refine .current fun t ↦ ?_
  obtain ⟨kind, text, position⟩ := t
  dsimp only [Token.moved]
  split
  · exact .thenAdvance (.pure _)
  · exact .thenAdvance (.pure _)
  · exact .ite (.failAt _ _) (.unexpected _)
  · exact .failAt _ _
  · exact .unexpected _

theorem moves_hashPairs (o : Opening) (n : Nat) (isFirst : Bool) :
    Moves g (hashPairs expression o n isFirst) (hashPairs expression (o.moved g) n isFirst) := by
  induction n generalizing isFirst with
  | zero => exact .missingCloser o
  | succ n ih =>
    refine .bind (moves_hashKey o isFirst) fun key ↦ .check _ fun colon ↦ .ite ?_ ?_
    · refine .thenAdvance (.bind (moves_grouped hE o) fun value ↦ .check _ fun comma ↦ ?_)
      exact .ite (.thenAdvance (ih false).map) (.bind (.expectCloser o) fun _ ↦ .pure _)
    · exact .unexpectedThen _

theorem moves_multiSelectHash (o : Opening) :
    Moves g (multiSelectHash expression o) (multiSelectHash expression (o.moved g)) :=
  .turns fun _ ↦ (moves_hashPairs hE o _ true).map

theorem moves_afterDot (p : Nat) : Moves g (afterDot expression p) (afterDot expression p) := by
  refine .current fun t ↦ ?_
  obtain ⟨kind, text, position⟩ := t
  dsimp only [Token.moved]
  split
  · exact .thenAdvance (moves_multiSelectList hE _)
  · exact .thenAdvance (moves_multiSelectHash hE _)
  · exact hE p
  · exact hE p
  · exact hE p
  · exact .fail _
  · exact .unexpected _

theorem moves_projectionBody (p : Nat) :
    Moves g (projectionBody expression p) (projectionBody expression p) := by
  refine .current fun t ↦ .ite (.pure _) ?_
  obtain ⟨kind, text, position⟩ := t
  dsimp only [Token.moved]
  split
  · exact .thenAdvance (moves_afterDot hE p)
  · exact hE p
  · exact hE p
  · exact .unexpected _

theorem moves_indexOrSlice (left : Expr) (o : Opening) :
    Moves g (indexOrSlice expression left o) (indexOrSlice expression left (o.moved g)) := by
  refine .turns fun n ↦ .bind (moves_sliceParts o _ _ _) fun r ↦ ?_
  dsimp only
  split
  · split
    · exact .pure _
    · exact .failAt _ _
  · exact .ite (.failAt _ _) (moves_projectionBody hE _).map

theorem moves_filter (source : Expr) (o : Opening) :
    Moves g (filter expression source o) (filter expression source (o.moved g)) :=
  .bind (moves_grouped hE o) fun _ ↦ .bind (.expectCloser o) fun _ ↦
    (moves_projectionBody hE _).map

theorem moves_argument (o : Opening) :
    Moves g (argument expression o) (argument expression (o.moved g)) :=
  .check _ fun _ ↦ .ite (.thenAdvance (moves_grouped hE o).map) (moves_grouped hE o)

theorem moves_arguments (o : Opening) (n : Nat) :
    Moves g (arguments expression o n) (arguments expression (o.moved g) n) := by
  induction n with
  | zero => exact .missingCloser o
  | succ n ih =>
    refine .check _ fun closed ↦ .ite (.thenAdvance (.pure _)) ?_
    refine .bind (moves_argument hE o) fun arg ↦ .check _ fun comma ↦ .ite ?_ ?_
    · exact .thenAdvance (.check _ fun _ ↦ .ite (.unexpected _) ih.map)
    · exact .check _ fun _ ↦ .ite (.thenAdvance (.pure _)) (.missingCloser o)

theorem moves_functionCall (name : String) (position : Nat) (o : Opening) :
    Moves g (functionCall expression name position o)
      (functionCall expression name (g position) (o.moved g)) :=
  .ite (.failAt _ _) (.turns fun _ ↦ (moves_arguments hE o _).map)

theorem moves_head : Moves g (head expression) (head expression) := by
  refine .current fun t ↦ ?_
  obtain ⟨kind, text, position⟩ := t
  dsimp only [Token.moved]
  split
  · exact .thenAdvance (.pure _)
  · exact .thenAdvance (.pure _)
  · exact .thenAdvance (.check _ fun _ ↦ .ite (.failAt _ _) (.pure _))
  · exact .thenAdvance (.pure _)
  · exact .thenAdvance (.pure _)
  · exact .thenAdvance (moves_projectionBody hE _).map
  · refine .thenAdvance (.current fun t ↦ ?_)
    obtain ⟨kind, text, position⟩ := t
    dsimp only [Token.moved]
    split
    · exact moves_indexOrSlice hE _ _
    · exact moves_indexOrSlice hE _ _
    · refine .peek fun t ↦ .ite ?_ (moves_multiSelectList hE _)
      exact .thenAdvance (.thenAdvance (moves_projectionBody hE _).map)
    · exact moves_multiSelectList hE _
  · exact .thenAdvance (moves_projectionBody hE _).map
  · exact .thenAdvance (moves_filter hE _ _)
  · exact .thenAdvance (moves_multiSelectHash hE _)
  · exact .thenAdvance (hE _).map
  · refine .thenAdvance (.bind (moves_grouped hE _) fun _ ↦ ?_)
    exact .bind (.expectCloser _) fun _ ↦ .pure _
  · exact .fail _
  · exact .fail _
  · exact .fail _
  · exact .unexpected _

theorem moves_extend (left : Expr) : Moves g (extend expression left) (extend expression left) := by
  refine .current fun t ↦ ?_
  obtain ⟨kind, text, position⟩ := t
  dsimp only [Token.moved]
  split
  · exact .thenAdvance (moves_afterDot hE _).map
  · exact .thenAdvance (hE _).map
  · exact .thenAdvance (hE _).map
  · exact .thenAdvance (hE _).map
  · exact .thenAdvance (hE _).map
  · exact .thenAdvance (moves_projectionBody hE _).map
  · exact .thenAdvance (moves_filter hE _ _)
  · refine .thenAdvance (.current fun t ↦ ?_)
    obtain ⟨kind, text, position⟩ := t
    dsimp only [Token.moved]
    split
    · exact moves_indexOrSlice hE _ _
    · exact moves_indexOrSlice hE _ _
    · refine .thenAdvance (.bind (.expectCloser _) fun _ ↦ ?_)
      exact (moves_projectionBody hE _).map
    · exact .failAt _ _
    · exact .unexpected _
  · split
    · exact .previousPosition fun _ ↦ .thenAdvance (moves_functionCall hE _ _ _)
    · exact .fail _
  · exact .unexpected _

theorem moves_climb (p n : Nat) (left : Expr) :
    Moves g (climb expression p n left) (climb expression p n left) := by
  induction n generalizing left with
  | zero => exact .pure _
  | succ n ih => exact .current fun _ ↦ .ite (.bind (moves_extend hE left) ih) (.pure _)

end

theorem moves_expressionWithin (depth p : Nat) :
    Moves g (expressionWithin depth p) (expressionWithin depth p) := by
  induction depth generalizing p with
  | zero => exact .fail _
  | succ depth ih =>
    exact .bind (moves_head ih) fun left ↦ .turns fun n ↦ moves_climb ih p _ left

theorem moves_complete : Moves g complete complete :=
  .bind (.turns fun _ ↦ moves_expressionWithin _ 0) fun e ↦
    .current fun _ ↦ .ite (.pure e) (.unexpected _)

end Parser

/-- The parser looks at the place of a token for its reports alone. -/
theorem Expr.ofTokens_moved (g : Nat → Nat) {tokens : List Token} (h : tokens ≠ []) :
    Expr.ofTokens (tokens.map (Token.moved g)) =
      (Expr.ofTokens tokens).mapError (SyntaxError.moved g) := by
  obtain ⟨t, ts, rfl⟩ := List.exists_cons_of_ne_nil h
  have hmoves := Parser.moves_complete (g := g) (TokenCursor.ofTokens (t :: ts))
  change (Parser.complete : ParseM Expr)
    (TokenCursor.ofTokens ((t :: ts).map (Token.moved g))) = _ at hmoves
  rw [Expr.ofTokens, Expr.ofTokens, EStateM.run, EStateM.run, hmoves]
  cases (Parser.complete : ParseM Expr) (TokenCursor.ofTokens (t :: ts)) <;> rfl

end PathQuery
