import PathQuery.Proofs.Expr.RoundTrip
import PathQuery.Query

namespace PathQuery

open PathQuery.Parser

namespace Expr

inductive Place where
  | inner
  | left
  | right
  | source
  | predicate
  | body
  | item
  | value
  | argument
deriving DecidableEq, Repr

def parts : Expr → List (Place × Expr)
  | flatten inner => [(.inner, inner)]
  | objectValues inner => [(.inner, inner)]
  | subexpression left right => [(.left, left), (.right, right)]
  | pipe left right => [(.left, left), (.right, right)]
  | projection source body => [(.source, source), (.body, body)]
  | filterProjection source predicate body =>
    [(.source, source), (.predicate, predicate), (.body, body)]
  | multiSelectList items => items.map fun e ↦ (.item, e)
  | multiSelectHash pairs => pairs.map fun x ↦ (.value, x.2)
  | or left right => [(.left, left), (.right, right)]
  | and left right => [(.left, left), (.right, right)]
  | not inner => [(.inner, inner)]
  | comparison _ left right => [(.left, left), (.right, right)]
  | functionCall _ args => args.map fun a ↦ (.argument, a)
  | expressionRef inner => [(.inner, inner)]
  | field _ => []
  | index _ => []
  | slice .. => []
  | currentNode => []
  | literal _ => []

/-- `NodeAt root above x`: the tree `root` has the node `x`, below the nodes `above`, of which the
closest comes first; each has the place in it that leads to `x`. -/
inductive NodeAt (root : Expr) : List (Expr × Place) → Expr → Prop
  | root : NodeAt root [] root
  | part {above : List (Expr × Place)} {x y : Expr} {place : Place} :
    NodeAt root above x → (place, y) ∈ x.parts → NodeAt root ((x, place) :: above) y

/-- What cannot stand to the right of a dot or behind a projection: the operators, a negation, a
literal and what a flatten projects. -/
def isLoose : Expr → Bool
  | pipe .. => true
  | or .. => true
  | and .. => true
  | comparison .. => true
  | not _ => true
  | literal _ => true
  | projection (flatten _) _ => true
  | _ => false

/-- What holds of every node of a tree that was compiled. -/
structure WellFormed (root : Expr) : Prop where
  reference {above : List (Expr × Place)} {inner : Expr} :
    NodeAt root above (expressionRef inner) →
      ∃ name args rest, above = (functionCall name args, .argument) :: rest
  registered {above : List (Expr × Place)} {name : String} {args : List Expr} :
    NodeAt root above (functionCall name args) → (Builtin.ofName? name).isSome
  slice {above : List (Expr × Place)} {start stop step : Option Int64} :
    NodeAt root above (slice start stop step) →
      step ≠ some 0 ∧
        ((∃ body rest, above = (projection (slice start stop step) body, .source) :: rest) ∨
          ∃ left body rest, above = (subexpression left (slice start stop step), .right) ::
            (projection (subexpression left (slice start stop step)) body, .source) :: rest)
  flatten {above : List (Expr × Place)} {inner : Expr} :
    NodeAt root above (flatten inner) →
      ∃ body rest, above = (projection (flatten inner) body, .source) :: rest
  objectValues {above : List (Expr × Place)} {inner : Expr} :
    NodeAt root above (objectValues inner) →
      inner = currentNode ∧
        ∃ body rest, above = (projection (objectValues inner) body, .source) :: rest
  step {above : List (Expr × Place)} {left right : Expr} :
    NodeAt root above (subexpression left right) → (right.isIndex || right.isSlice) = true →
      left ≠ currentNode
  list {above : List (Expr × Place)} {items : List Expr} :
    NodeAt root above (multiSelectList items) → items ≠ []
  hash {above : List (Expr × Place)} {pairs : List (String × Expr)} :
    NodeAt root above (multiSelectHash pairs) → pairs ≠ []
  projectionBody {above : List (Expr × Place)} {source body : Expr} :
    NodeAt root above (projection source body) → body.isLoose = false
  filterBody {above : List (Expr × Place)} {source predicate body : Expr} :
    NodeAt root above (filterProjection source predicate body) → body.isLoose = false
  right {above : List (Expr × Place)} {left right : Expr} :
    NodeAt root above (subexpression left right) → right.isLoose = false

variable {root x y e left right body : Expr} {above : List (Expr × Place)} {place : Place} {p : Nat}

/-- What is loose binds no tighter than a flatten, or starts like nothing that can follow a dot or a
projection. -/
theorem leftPower_le_of_isLoose (h : e.isLoose = true) :
    e.leftPower ≤ 9 ∨ startsName e.tokens = false ∧ startsBracket e.tokens = false ∧
      first e.tokens ≠ .symbol .leftParen := by
  cases e with
  | pipe => exact .inl (by decide : 1 ≤ 9)
  | or => exact .inl (by decide : 2 ≤ 9)
  | and => exact .inl (by decide : 3 ≤ 9)
  | comparison => exact .inl (by decide : 5 ≤ 9)
  | not | literal => exact .inr ⟨rfl, rfl, nofun⟩
  | projection source body =>
    cases source with
    | flatten inner =>
      cases hcurrent : inner.isCurrentNode with
      | true =>
        obtain rfl := eq_currentNode hcurrent
        exact .inr ⟨rfl, rfl, nofun⟩
      | false =>
        rw [leftPower, hcurrent]
        exact .inl (Nat.le_refl 9)
    | _ => cases h
  | _ => cases h

theorem AfterDot.not_loose (h : AfterDot p e) (hp : 9 ≤ p) : e.isLoose = false := by
  rw [Bool.eq_false_iff]
  intro hloose
  obtain hpower | ⟨hname, -, hparen⟩ := leftPower_le_of_isLoose hloose
  · cases h with
    | list | hash => cases hloose
    | name hlt | paren hlt => omega
  · cases h with
    | list | hash => cases hloose
    | name _ hstart => exact absurd (hname.symm.trans hstart) Bool.false_ne_true
    | paren _ hstart => exact hparen hstart

theorem Body.not_loose (h : Body p e) (hp : 9 ≤ p) : e.isLoose = false := by
  cases h with
  | element => rfl
  | dot h => exact h.not_loose hp
  | bracket hlt hstart =>
    rw [Bool.eq_false_iff]
    intro hloose
    obtain hpower | ⟨-, hbracket, -⟩ := leftPower_le_of_isLoose hloose
    · omega
    · exact absurd (hbracket.symm.trans hstart) Bool.false_ne_true

/-- A node and the nodes above it: a tree as the parser builds it can stand anywhere, and the other
nodes have their own places. -/
inductive Fits : List (Expr × Place) → Expr → Prop
  | shaped {above : List (Expr × Place)} {x : Expr} : Shaped x → Fits above x
  | reference {above : List (Expr × Place)} {name : String} {args : List Expr} {inner : Expr} :
    Shaped inner → Fits ((functionCall name args, .argument) :: above) (expressionRef inner)
  | values {above : List (Expr × Place)} {body : Expr} :
    Fits ((projection (objectValues currentNode) body, .source) :: above) (objectValues currentNode)
  | flatten {above : List (Expr × Place)} {inner body : Expr} :
    Shaped inner → Fits ((projection (flatten inner) body, .source) :: above) (flatten inner)
  | slice {above : List (Expr × Place)} {start stop step : Option Int64} {body : Expr} :
    step ≠ some 0 →
    Fits ((projection (slice start stop step) body, .source) :: above) (slice start stop step)
  | stepSlice {above : List (Expr × Place)} {left body : Expr} {start stop step : Option Int64} :
    Shaped left → left.isCurrentNode = false → step ≠ some 0 →
    Fits ((projection (subexpression left (slice start stop step)) body, .source) :: above)
      (subexpression left (slice start stop step))
  | sliceStep {above : List (Expr × Place)} {left body : Expr} {start stop step : Option Int64} :
    step ≠ some 0 →
    Fits ((subexpression left (slice start stop step), .right) ::
        (projection (subexpression left (slice start stop step)) body, .source) :: above)
      (slice start stop step)

theorem Fits.argument {name : String} {args : List Expr} (h : Shaped x.referent) :
    Fits ((functionCall name args, .argument) :: above) x := by
  cases x with
  | expressionRef inner => exact .reference h
  | _ => exact .shaped h

/-- The parts of a tree as the parser builds it fit where they stand. -/
theorem Shaped.fits_part (h : Shaped x) (hy : (place, y) ∈ x.parts) :
    Fits ((x, place) :: above) y := by
  cases h with
  | field | current | literal | index => cases hy
  | step i hleft | dot hleft hright =>
    obtain ⟨⟩ | ⟨_, ⟨⟩ | ⟨_, ⟨⟩⟩⟩ := hy
    · exact .shaped hleft
    · first | exact .shaped (.index i) | exact .shaped hright
  | pipe hleft hright | or hleft hright | and hleft hright | comparison _ hleft hright =>
    obtain ⟨⟩ | ⟨_, ⟨⟩ | ⟨_, ⟨⟩⟩⟩ := hy
    · exact .shaped hleft
    · exact .shaped hright
  | not hinner =>
    obtain ⟨⟩ | ⟨_, ⟨⟩⟩ := hy
    exact .shaped hinner
  | values hbody =>
    obtain ⟨⟩ | ⟨_, ⟨⟩ | ⟨_, ⟨⟩⟩⟩ := hy
    · exact .values
    · exact .shaped hbody
  | flatten hinner hbody =>
    obtain ⟨⟩ | ⟨_, ⟨⟩ | ⟨_, ⟨⟩⟩⟩ := hy
    · exact .flatten hinner
    · exact .shaped hbody
  | slice hstep hbody =>
    obtain ⟨⟩ | ⟨_, ⟨⟩ | ⟨_, ⟨⟩⟩⟩ := hy
    · exact .slice hstep
    · exact .shaped hbody
  | stepSlice hleft hcurrent hstep hbody =>
    obtain ⟨⟩ | ⟨_, ⟨⟩ | ⟨_, ⟨⟩⟩⟩ := hy
    · exact .stepSlice hleft hcurrent hstep
    · exact .shaped hbody
  | wildcard hsource hbody =>
    obtain ⟨⟩ | ⟨_, ⟨⟩ | ⟨_, ⟨⟩⟩⟩ := hy
    · exact .shaped hsource
    · exact .shaped hbody
  | filter hsource hpredicate hbody =>
    obtain ⟨⟩ | ⟨_, ⟨⟩ | ⟨_, ⟨⟩ | ⟨_, ⟨⟩⟩⟩⟩ := hy
    · exact .shaped hsource
    · exact .shaped hpredicate
    · exact .shaped hbody
  | list _ hitems =>
    obtain ⟨e, he, ⟨⟩⟩ := List.mem_map.1 hy
    exact .shaped (hitems y he)
  | hash _ hpairs =>
    obtain ⟨x, hx, ⟨⟩⟩ := List.mem_map.1 hy
    exact .shaped (hpairs x hx)
  | call _ hargs =>
    obtain ⟨a, ha, ⟨⟩⟩ := List.mem_map.1 hy
    exact .argument (hargs y ha)

theorem Fits.part (h : Fits above x) (hy : (place, y) ∈ x.parts) :
    Fits ((x, place) :: above) y := by
  cases h with
  | shaped h => exact h.fits_part hy
  | reference hinner | flatten hinner =>
    obtain ⟨⟩ | ⟨_, ⟨⟩⟩ := hy
    exact .shaped hinner
  | values =>
    obtain ⟨⟩ | ⟨_, ⟨⟩⟩ := hy
    exact .shaped .current
  | slice | sliceStep => cases hy
  | stepSlice hleft _ hstep =>
    obtain ⟨⟩ | ⟨_, ⟨⟩ | ⟨_, ⟨⟩⟩⟩ := hy
    · exact .shaped hleft
    · exact .sliceStep hstep

theorem NodeAt.fits (h : NodeAt root above x) (hroot : Shaped root) : Fits above x := by
  induction h with
  | root => exact .shaped hroot
  | part _ hy ih => exact ih.part hy

theorem Shaped.wellFormed (hroot : Shaped root) : root.WellFormed where
  reference h := by
    cases h.fits hroot with
    | shaped h => cases h
    | reference => exact ⟨_, _, _, rfl⟩
  registered h := by
    cases h.fits hroot with
    | shaped h =>
      cases h with
      | call hname => exact hname
  slice h := by
    cases h.fits hroot with
    | shaped h => cases h
    | slice hstep => exact ⟨hstep, .inl ⟨_, _, rfl⟩⟩
    | sliceStep hstep => exact ⟨hstep, .inr ⟨_, _, _, rfl⟩⟩
  flatten h := by
    cases h.fits hroot with
    | shaped h => cases h
    | flatten => exact ⟨_, _, rfl⟩
  objectValues h := by
    cases h.fits hroot with
    | shaped h => cases h
    | values => exact ⟨rfl, _, _, rfl⟩
  step h hright := by
    rintro rfl
    cases h.fits hroot with
    | shaped h =>
      cases h with
      | step _ _ hcurrent => cases hcurrent
      | dot _ _ hdot => exact absurd (hdot.not_bracket.symm.trans hright) Bool.false_ne_true
    | stepSlice _ hcurrent => cases hcurrent
  list h := by
    cases h.fits hroot with
    | shaped h =>
      cases h with
      | list hne => exact hne
  hash h := by
    cases h.fits hroot with
    | shaped h =>
      cases h with
      | hash hne => exact hne
  projectionBody h := by
    cases h.fits hroot with
    | shaped h =>
      cases h with
      | values _ hbody => exact hbody.not_loose (by decide)
      | flatten _ _ hbody => exact hbody.not_loose (by decide)
      | slice _ _ hbody => exact hbody.not_loose (by decide)
      | stepSlice _ _ _ _ hbody => exact hbody.not_loose (by decide)
      | wildcard _ _ hbody => exact hbody.not_loose (by decide)
  filterBody h := by
    cases h.fits hroot with
    | shaped h =>
      cases h with
      | filter _ _ _ hbody => exact hbody.not_loose (by decide)
  right h := by
    cases h.fits hroot with
    | shaped h =>
      cases h with
      | step => rfl
      | dot _ _ hdot => exact hdot.not_loose (by decide)
    | stepSlice => rfl

end Expr

namespace Query

variable {text : String} {tokens : List Token} {q : Query}

theorem ofString_of_compile (h : compile text = .ok q) :
    q.text = text ∧ Expr.ofString text = .ok q.expr := by
  unfold compile at h
  cases hexpr : Expr.ofString text with
  | error e =>
    rw [hexpr] at h
    cases h
  | ok e =>
    rw [hexpr] at h
    cases h
    exact ⟨rfl, rfl⟩

theorem compile_eq_of_tokens (h : Token.ofString text = .ok tokens) :
    compile text = (Expr.ofTokens tokens).map (Query.mk text) := by
  rw [compile, Expr.ofString, h]
  change (Expr.ofTokens tokens >>= fun e ↦ _) = _
  cases Expr.ofTokens tokens <;> rfl

/-- Every text that compiles has a tree whose nodes stand only where the parser puts them. -/
theorem wellFormed_of_compile (h : compile text = .ok q) : q.expr.WellFormed :=
  (Expr.shaped_of_ofString (ofString_of_compile h).2).wellFormed

theorem wellFormed_of_compile_slice :
    compile "max_by(a[1:], &b) | [c.*][]" =
        .ok ⟨"max_by(a[1:], &b) | [c.*][]", .pipe
          (.functionCall "max_by"
            [.projection (.subexpression (.field "a") (.slice (some 1) none none))
            .currentNode, .expressionRef (.field "b")])
          (.projection (.flatten (.multiSelectList [.subexpression (.field "c")
            (.projection (.objectValues .currentNode) .currentNode)])) .currentNode)⟩ ∧
      (Expr.pipe
        (.functionCall "max_by"
          [.projection (.subexpression (.field "a") (.slice (some 1) none none))
          .currentNode, .expressionRef (.field "b")])
        (.projection (.flatten (.multiSelectList [.subexpression (.field "c")
          (.projection (.objectValues .currentNode) .currentNode)])) .currentNode)).WellFormed := by
  have hcompile : compile "max_by(a[1:], &b) | [c.*][]" =
      .ok ⟨"max_by(a[1:], &b) | [c.*][]", .pipe
        (.functionCall "max_by"
          [.projection (.subexpression (.field "a") (.slice (some 1) none none))
          .currentNode, .expressionRef (.field "b")])
        (.projection (.flatten (.multiSelectList [.subexpression (.field "c")
          (.projection (.objectValues .currentNode) .currentNode)])) .currentNode)⟩ := by
    have htokens : Token.ofString "max_by(a[1:], &b) | [c.*][]" = .ok
        [⟨.identifier "max_by", "max_by", 0⟩, ⟨.symbol .leftParen, "(", 6⟩,
          ⟨.identifier "a", "a", 7⟩, ⟨.symbol .leftBracket, "[", 8⟩, ⟨.number 1, "1", 9⟩,
          ⟨.symbol .colon, ":", 10⟩, ⟨.symbol .rightBracket, "]", 11⟩, ⟨.symbol .comma, ",", 12⟩,
          ⟨.symbol .ampersand, "&", 14⟩, ⟨.identifier "b", "b", 15⟩,
          ⟨.symbol .rightParen, ")", 16⟩, ⟨.symbol .pipe, "|", 18⟩,
          ⟨.symbol .leftBracket, "[", 20⟩, ⟨.identifier "c", "c", 21⟩, ⟨.symbol .dot, ".", 22⟩,
          ⟨.symbol .star, "*", 23⟩, ⟨.symbol .rightBracket, "]", 24⟩,
          ⟨.symbol .flatten, "[]", 25⟩, ⟨.endOfInput, "", 27⟩] := rfl
    rw [compile_eq_of_tokens htokens]
    rfl
  exact ⟨hcompile, wellFormed_of_compile hcompile⟩

end Query

end PathQuery
