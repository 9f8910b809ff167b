import PathQuery.Expr.Printer
import PathQuery.Proofs.Parser.Reading

namespace PathQuery

open PathQuery.Parser

namespace Expr

def nameToken (name : String) : TokenKind :=
  if Lexer.isName name.toList then .identifier name else .quotedIdentifier name

def indexTokens (i : Int64) : List TokenKind :=
  [.symbol .leftBracket, .number i, .symbol .rightBracket]

def stepTokens : Option Int64 → List TokenKind
  | none => []
  | some n => [.symbol .colon, .number n]

def sliceTokens (start stop step : Option Int64) : List TokenKind :=
  .symbol .leftBracket :: (numberTokens start ++ .symbol .colon ::
    (numberTokens stop ++ (stepTokens step ++ [.symbol .rightBracket])))

def wildcardTokens : List TokenKind :=
  [.symbol .leftBracket, .symbol .star, .symbol .rightBracket]

def grouped (wrapped : Bool) (ts : List TokenKind) : List TokenKind :=
  if wrapped then .symbol .leftParen :: (ts ++ [.symbol .rightParen]) else ts

def sourceTokens (e : Expr) (most : Level) (ts : List TokenKind) : List TokenKind :=
  if e.isCurrentNode then [] else grouped (e.looserThan most) ts

def projectedTokens (e : Expr) (ts : List TokenKind) : List TokenKind :=
  match e with
  | objectValues _ => ts
  | slice .. => ts
  | flatten _ => ts
  | subexpression left (slice start stop step) =>
    if left.isCurrentNode then sliceTokens start stop step else ts
  | _ => sourceTokens e .primary ts ++ wildcardTokens

def bodyTokens (body : Expr) (ts : List TokenKind) : List TokenKind :=
  if body.isCurrentNode then []
  else if startsBracket ts then ts
  else .symbol .dot :: ts

def separated (tss : List (List TokenKind)) : List TokenKind := [.symbol .comma].intercalate tss

mutual

@[simp] def tokens : Expr → List TokenKind
  | field name => [nameToken name]
  | index i => indexTokens i
  | slice start stop step => sliceTokens start stop step
  | flatten inner => sourceTokens inner .projection inner.tokens ++ [.symbol .flatten]
  | objectValues inner =>
    if inner.isCurrentNode then [.symbol .star]
    else grouped (inner.looserThan .chain) inner.tokens ++ [.symbol .dot, .symbol .star]
  | subexpression left right =>
    if right.isIndex || right.isSlice then
      grouped (left.looserThan .primary) left.tokens ++ right.tokens
    else grouped (left.looserThan .chain) left.tokens ++ .symbol .dot :: right.tokens
  | pipe left right => left.tokens ++ .symbol .pipe :: grouped right.isPipe right.tokens
  | projection source body =>
    projectedTokens source source.tokens ++ bodyTokens body body.tokens
  | filterProjection source predicate body =>
    sourceTokens source .chain source.tokens ++ .symbol .filter ::
      (predicate.tokens ++ .symbol .rightBracket :: bodyTokens body body.tokens)
  | multiSelectList items =>
    .symbol .leftBracket :: (separated (itemTokens items) ++ [.symbol .rightBracket])
  | multiSelectHash pairs =>
    .symbol .leftBrace :: (separated (pairTokens pairs) ++ [.symbol .rightBrace])
  | or left right =>
    grouped left.isPipe left.tokens ++ .symbol .or ::
      grouped (right.isPipe || right.isOr) right.tokens
  | and left right =>
    grouped (!(left.isAnd || left.isComparison) && left.looserThan .projection) left.tokens ++
      .symbol .and :: grouped (!right.isComparison && right.looserThan .projection) right.tokens
  | not inner => .symbol .not :: grouped (inner.looserThan .primary) inner.tokens
  | comparison op left right =>
    grouped (!left.isComparison && left.looserThan .projection) left.tokens ++
      .symbol (.comparator op) :: grouped (right.looserThan .projection) right.tokens
  | functionCall name args =>
    .identifier name :: .symbol .leftParen ::
      (separated (itemTokens args) ++ [.symbol .rightParen])
  | expressionRef inner => .symbol .ampersand :: inner.tokens
  | currentNode => [.symbol .current]
  | literal v => [.literal v]
termination_by structural e => e

@[simp] def itemTokens : List Expr → List (List TokenKind)
  | [] => []
  | e :: es => e.tokens :: itemTokens es
termination_by structural es => es

@[simp] def pairTokens : List (String × Expr) → List (List TokenKind)
  | [] => []
  | (key, e) :: ps => (nameToken key :: .symbol .colon :: e.tokens) :: pairTokens ps
termination_by structural ps => ps

end

def leftPower : Expr → Nat
  | subexpression _ right => if right.isIndex then 55 else 40
  | pipe .. => 1
  | or .. => 2
  | and .. => 3
  | comparison .. => 5
  | projection source _ =>
    match source with
    | objectValues _ => 60
    | slice .. => 60
    | flatten inner => if inner.isCurrentNode then 60 else 9
    | source => if source.isCurrentNode then 60 else 55
  | filterProjection source _ _ => if source.isCurrentNode then 60 else 21
  | _ => 60

end Expr

namespace Parser

def first (ts : List TokenKind) : TokenKind := ts.headD .endOfInput

variable {ts us : List TokenKind}

theorem first_append (h : ts ≠ []) : first (ts ++ us) = first ts := by
  cases ts with
  | nil => exact absurd rfl h
  | cons k ts => rfl

theorem startsName_first (ts : List TokenKind) : startsName ts = startsName [first ts] := by
  cases ts with
  | nil => rfl
  | cons k ts =>
    cases k with
    | symbol s => cases s <;> rfl
    | _ => rfl

theorem startsBracket_first (ts : List TokenKind) :
    startsBracket ts = startsBracket [first ts] := by
  cases ts with
  | nil => rfl
  | cons k ts =>
    cases k with
    | symbol s => cases s <;> rfl
    | _ => rfl

end Parser

namespace Expr

open PathQuery.Parser

variable {ts us : List TokenKind} {e left right : Expr} {w : Bool}

theorem grouped_true (ts : List TokenKind) :
    grouped true ts = .symbol .leftParen :: (ts ++ [.symbol .rightParen]) := rfl

theorem grouped_false (ts : List TokenKind) : grouped false ts = ts := rfl

theorem first_grouped (h : ts ≠ []) :
    first (grouped w ts ++ us) = .symbol .leftParen ∨ first (grouped w ts ++ us) = first ts := by
  cases w with
  | false => exact .inr (first_append h)
  | true => exact .inl rfl

theorem tokens_ne_nil_of_bracket (h : (e.isIndex || e.isSlice) = true) : e.tokens ≠ [] := by
  cases e with
  | index | slice => exact List.cons_ne_nil _ _
  | _ => cases h

theorem tokens_step (left : Expr) (h : (right.isIndex || right.isSlice) = true) :
    (subexpression left right).tokens =
      grouped (left.looserThan .primary) left.tokens ++ right.tokens := by
  rw [tokens, h, if_pos rfl]

theorem tokens_dot (left : Expr) (h : (right.isIndex || right.isSlice) = false) :
    (subexpression left right).tokens =
      grouped (left.looserThan .chain) left.tokens ++ .symbol .dot :: right.tokens := by
  rw [tokens, h, if_neg Bool.false_ne_true]

theorem projectedTokens_flatten (inner : Expr) (ts : List TokenKind) :
    projectedTokens (flatten inner) ts = ts := rfl

theorem projectedTokens_stepSlice {start stop step : Option Int64} (h : left.isCurrentNode = false)
    (ts : List TokenKind) :
    projectedTokens (subexpression left (slice start stop step)) ts = ts := by
  simp [projectedTokens, h]

theorem projectedText_stepSlice {start stop step : Option Int64} (h : left.isCurrentNode = false)
    (text : String) :
    projectedText (subexpression left (slice start stop step)) text = text := by
  simp [projectedText, h]

theorem projectedTokens_ne_nil (source : Expr) : projectedTokens source source.tokens ≠ [] := by
  unfold projectedTokens
  split
  · rw [tokens]
    split
    · exact List.cons_ne_nil _ _
    · exact List.append_ne_nil_of_right_ne_nil _ (List.cons_ne_nil _ _)
  · exact List.cons_ne_nil _ _
  · rw [tokens]
    exact List.append_ne_nil_of_right_ne_nil _ (List.cons_ne_nil _ _)
  · split
    · exact List.cons_ne_nil _ _
    · rw [tokens_step _ rfl]
      exact List.append_ne_nil_of_right_ne_nil _ (List.cons_ne_nil _ _)
  · exact List.append_ne_nil_of_right_ne_nil _ (List.cons_ne_nil _ _)

theorem tokens_ne_nil (e : Expr) : e.tokens ≠ [] := by
  cases e with
  | field | index | slice | multiSelectList | multiSelectHash | not | functionCall | expressionRef
  | currentNode | literal => exact List.cons_ne_nil _ _
  | flatten => exact List.append_ne_nil_of_right_ne_nil _ (List.cons_ne_nil _ _)
  | objectValues inner =>
    rw [tokens]
    split
    · exact List.cons_ne_nil _ _
    · exact List.append_ne_nil_of_right_ne_nil _ (List.cons_ne_nil _ _)
  | subexpression left right =>
    cases h : right.isIndex || right.isSlice with
    | true =>
      rw [tokens_step left h]
      exact List.append_ne_nil_of_right_ne_nil _ (tokens_ne_nil_of_bracket h)
    | false =>
      rw [tokens_dot left h]
      exact List.append_ne_nil_of_right_ne_nil _ (List.cons_ne_nil _ _)
  | pipe | or | and | comparison | filterProjection =>
    exact List.append_ne_nil_of_right_ne_nil _ (List.cons_ne_nil _ _)
  | projection source body =>
    exact List.append_ne_nil_of_left_ne_nil (projectedTokens_ne_nil source) _

def StartsAs (e left : Expr) : Prop :=
  first e.tokens = .symbol .leftParen ∨ first e.tokens = first left.tokens

theorem startsAs_of_grouped (h : e.tokens = grouped w left.tokens ++ us) : StartsAs e left := by
  rw [StartsAs, h]
  exact first_grouped left.tokens_ne_nil

theorem StartsAs.trans {e' : Expr} (h : StartsAs e e') (h' : StartsAs e' left) :
    StartsAs e left := by
  obtain h | h := h
  · exact .inl h
  · rw [StartsAs, h]
    exact h'

theorem startsAs_subexpression (left right : Expr) : StartsAs (subexpression left right) left := by
  cases h : right.isIndex || right.isSlice with
  | true => exact startsAs_of_grouped (tokens_step left h)
  | false => exact startsAs_of_grouped (tokens_dot left h)

theorem sourceTokens_of_ne (h : e.isCurrentNode = false) (most : Level) (ts : List TokenKind) :
    sourceTokens e most ts = grouped (e.looserThan most) ts := by
  rw [sourceTokens, h, if_neg Bool.false_ne_true]

theorem startsAs_flatten (h : left.isCurrentNode = false) (body : Expr) :
    StartsAs (projection (flatten left) body) left := by
  have htokens : (projection (flatten left) body).tokens =
      grouped (left.looserThan .projection) left.tokens ++
        .symbol .flatten :: bodyTokens body body.tokens := by
    rw [tokens, projectedTokens_flatten, tokens, sourceTokens_of_ne h, List.append_assoc]
    rfl
  exact startsAs_of_grouped htokens

theorem startsAs_filter (h : left.isCurrentNode = false) (predicate body : Expr) :
    StartsAs (filterProjection left predicate body) left :=
  startsAs_of_grouped (by rw [tokens, sourceTokens_of_ne h])

end Expr

end PathQuery
