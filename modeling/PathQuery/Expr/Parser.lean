import PathQuery.Function.Builtin
import PathQuery.Token.Lexer

namespace PathQuery

structure Opening where
  symbol : Symbol
  position : Nat

structure SliceParts where
  start : Option Int64
  stop : Option Int64
  step : Option Int64

namespace SliceParts

def get? (s : SliceParts) : Nat → Option (Option Int64)
  | 0 => some s.start
  | 1 => some s.stop
  | 2 => some s.step
  | _ => none

def set (s : SliceParts) (i : Nat) (n : Int64) : SliceParts :=
  match i with
  | 0 => { s with start := some n }
  | 1 => { s with stop := some n }
  | 2 => { s with step := some n }
  | _ => s

end SliceParts

/-- What the rules of the parser ask for. -/
class Parser (m : Type → Type) where
  current : m Token
  /-- The token behind the current one; at the end, the end itself. -/
  peek : m Token
  /-- Where the token before the current one starts. -/
  previousPosition : m Nat
  advance : m Unit
  slicePart : SliceParts → Nat → m (Option Int64)
  /-- Turns enough for a loop that reads a token in each but the last. -/
  turns : m Nat
  /-- What is done without a turn left, where a rule is there for that. -/
  exhausted : {α : Type} → m α → m α

/-- A place among the tokens of a text. The last token is never passed. -/
structure TokenCursor where
  /-- Where the token before the current one starts. -/
  previous : Nat
  current : Token
  following : List Token

def TokenCursor.ofTokens : List Token → TokenCursor
  | [] => ⟨0, ⟨.endOfInput, "", 0⟩, []⟩
  | t :: ts => ⟨t.position, t, ts⟩

/-- The parser as a state monad on a cursor, with three parts of a slice and no more. -/
abbrev ParseM := EStateM SyntaxError TokenCursor

instance : Parser ParseM where
  current c := .ok c.current c
  peek c := .ok (c.following.headD c.current) c
  previousPosition c := .ok c.previous c
  advance c :=
    match c.following with
    | [] => .ok () c
    | t :: ts => .ok () ⟨c.current.position, t, ts⟩
  slicePart parts i := pure ((parts.get? i).getD none)
  turns c := .ok (c.following.length + 1) c
  exhausted rule := rule

namespace Parser

variable {m : Type → Type} [Monad m] [MonadExceptOf SyntaxError m] [Parser m] {α : Type}

def failAt (position : Nat) (fault : SyntaxFault) : m α := throw ⟨position, fault⟩

def fail (fault : SyntaxFault) : m α := do
  failAt (← current).position fault

def unexpected (place : Place) : m α := do
  let t ← current
  failAt t.position (.unexpected t.kind place)

def check (s : Symbol) : m Bool := return (← current).kind.isSymbol s

/-- A group that is not closed is reported where it was opened, once the text has ended. -/
def missingCloser (o : Opening) : m α := do
  if (← current).kind.isEnd then
    failAt o.position (.unclosed o.symbol (.closer o.symbol.closer))
  else unexpected (.beforeCloser o.symbol.closer)

def expectCloser (o : Opening) : m Unit := do
  if ← check o.symbol.closer then advance else missingCloser o

section

/- The rules below are given the rule for expressions that bind tighter than a power. -/
variable (expression : Nat → m Expr)

def grouped (o : Opening) : m Expr := do
  if (← current).kind.isEnd then missingCloser o else expression 0

def listItems (o : Opening) : Nat → m (List Expr)
  | 0 => exhausted (missingCloser o)
  | n + 1 => do
    let item ← grouped expression o
    if ← check .comma then
      advance
      let items ← listItems o n
      pure (item :: items)
    else
      expectCloser o
      pure [item]

def multiSelectList (o : Opening) : m Expr := do
  return .multiSelectList (← listItems expression o (← turns))

def hashKey (o : Opening) (isFirst : Bool) : m String := do
  match (← current).kind with
  | .identifier name => advance; pure name
  | .quotedIdentifier name => advance; pure name
  | .symbol .rightBrace => if isFirst then failAt o.position .emptyHash else unexpected .inHash
  | .endOfInput => failAt o.position (.unclosed .leftBrace .key)
  | _ => unexpected .inHash

def hashPairs (o : Opening) : Nat → Bool → m (List (String × Expr))
  | 0, _ => exhausted (missingCloser o)
  | n + 1, isFirst => do
    let key ← hashKey o isFirst
    if ← check .colon then advance else unexpected .afterHashKey
    let value ← grouped expression o
    if ← check .comma then
      advance
      let pairs ← hashPairs o n false
      pure ((key, value) :: pairs)
    else
      expectCloser o
      pure [(key, value)]

def multiSelectHash (o : Opening) : m Expr := do
  return .multiSelectHash (← hashPairs expression o (← turns) true)

def afterDot (power : Nat) : m Expr := do
  let t ← current
  match t.kind with
  | .symbol .leftBracket => advance; multiSelectList expression ⟨.leftBracket, t.position⟩
  | .symbol .leftBrace => advance; multiSelectHash expression ⟨.leftBrace, t.position⟩
  | .identifier _ => expression power
  | .quotedIdentifier _ => expression power
  | .symbol .star => expression power
  | .endOfInput => fail .endAfterDot
  | _ => unexpected .afterDot

/-- Tokens that bind looser than this end the body of a projection. -/
def projectionStop : Nat := 10

def projectionBody (power : Nat) : m Expr := do
  let t ← current
  if t.kind.leftPower < projectionStop then pure .currentNode
  else
    match t.kind with
    | .symbol .dot => advance; afterDot expression power
    | .symbol .leftBracket => expression power
    | .symbol .filter => expression power
    | _ => unexpected .afterProjection

/-- The numbers and colons of an index or slice up to its bracket, and the index of the part that
they end in. -/
def sliceParts (o : Opening) : Nat → Nat → SliceParts → m (Nat × SliceParts)
  | 0, _, _ => exhausted (missingCloser o)
  | n + 1, i, parts => do
    match (← current).kind with
    | .number k =>
      if (← slicePart parts i).isSome then unexpected .inSlice
      else
        advance
        sliceParts o n i (parts.set i k)
    | .symbol .colon =>
      if 2 < i + 1 then fail .tooManyColons
      else
        advance
        sliceParts o n (i + 1) parts
    | .symbol .rightBracket => advance; pure (i, parts)
    | .endOfInput => missingCloser o
    | _ => unexpected .inIndexOrSlice

/-- A step from `left`, or from the current node without mention of it. -/
def access (left step : Expr) : Expr :=
  if left.isCurrentNode then step else .subexpression left step

def indexOrSlice (left : Expr) (o : Opening) : m Expr := do
  let (i, parts) ← sliceParts o (← turns) 0 ⟨none, none, none⟩
  if i = 0 then
    match parts.start with
    | some i => pure (access left (.index i))
    | none => failAt o.position .emptyIndex
  else if parts.step = some 0 then failAt o.position .zeroStep
  else
    let body ← projectionBody expression Symbol.star.leftPower
    pure (.projection (access left (.slice parts.start parts.stop parts.step)) body)

def filter (source : Expr) (o : Opening) : m Expr := do
  let predicate ← grouped expression o
  expectCloser o
  let body ← projectionBody expression Symbol.filter.leftPower
  pure (.filterProjection source predicate body)

def argument (o : Opening) : m Expr := do
  if ← check .ampersand then
    advance
    return .expressionRef (← grouped expression o)
  else grouped expression o

def arguments (o : Opening) : Nat → m (List Expr)
  | 0 => exhausted (missingCloser o)
  | n + 1 => do
    if ← check .rightParen then
      advance
      pure []
    else
      let arg ← argument expression o
      if ← check .comma then
        advance
        if ← check .rightParen then unexpected .afterArgumentComma
        else
          let args ← arguments o n
          pure (arg :: args)
      else if ← check .rightParen then
        advance
        pure [arg]
      else missingCloser o

def functionCall (name : String) (namePosition : Nat) (o : Opening) : m Expr := do
  if (Builtin.ofName? name).isNone then failAt namePosition (.unknownFunction name)
  else return .functionCall name (← arguments expression o (← turns))

def head : m Expr := do
  let t ← current
  match t.kind with
  | .symbol .current => advance; pure .currentNode
  | .identifier name => advance; pure (.field name)
  | .quotedIdentifier name =>
    advance
    if ← check .leftParen then failAt t.position .quotedFunctionName else pure (.field name)
  | .literal value => advance; pure (.literal value)
  | .rawString s => advance; pure (.literal (.string s))
  | .symbol .star =>
    advance
    let body ← projectionBody expression Symbol.star.leftPower
    pure (.projection (.objectValues .currentNode) body)
  | .symbol .leftBracket =>
    advance
    let o : Opening := ⟨.leftBracket, t.position⟩
    match (← current).kind with
    | .number _ => indexOrSlice expression .currentNode o
    | .symbol .colon => indexOrSlice expression .currentNode o
    | .symbol .star =>
      if (← peek).kind.isSymbol .rightBracket then
        advance
        advance
        let body ← projectionBody expression Symbol.star.leftPower
        pure (.projection .currentNode body)
      else multiSelectList expression o
    | _ => multiSelectList expression o
  | .symbol .flatten =>
    advance
    let body ← projectionBody expression Symbol.flatten.leftPower
    pure (.projection (.flatten .currentNode) body)
  | .symbol .filter => advance; filter expression .currentNode ⟨.filter, t.position⟩
  | .symbol .leftBrace => advance; multiSelectHash expression ⟨.leftBrace, t.position⟩
  | .symbol .not =>
    advance
    return .not (← expression Symbol.not.leftPower)
  | .symbol .leftParen =>
    advance
    let o : Opening := ⟨.leftParen, t.position⟩
    let inner ← grouped expression o
    expectCloser o
    pure inner
  | .symbol .ampersand => fail .strayReference
  | .number _ => fail (.strayNumber t.text)
  | .endOfInput => fail .endOfExpression
  | _ => unexpected .atStart

def extend (left : Expr) : m Expr := do
  let t ← current
  match t.kind with
  | .symbol .dot =>
    advance
    return .subexpression left (← afterDot expression Symbol.dot.leftPower)
  | .symbol .pipe =>
    advance
    return .pipe left (← expression Symbol.pipe.leftPower)
  | .symbol .or =>
    advance
    return .or left (← expression Symbol.or.leftPower)
  | .symbol .and =>
    advance
    return .and left (← expression Symbol.and.leftPower)
  | .symbol (.comparator op) =>
    advance
    return .comparison op left (← expression (Symbol.comparator op).leftPower)
  | .symbol .flatten =>
    advance
    return .projection (.flatten left) (← projectionBody expression Symbol.flatten.leftPower)
  | .symbol .filter => advance; filter expression left ⟨.filter, t.position⟩
  | .symbol .leftBracket =>
    advance
    let o : Opening := ⟨.leftBracket, t.position⟩
    match (← current).kind with
    | .number _ => indexOrSlice expression left o
    | .symbol .colon => indexOrSlice expression left o
    | .symbol .star =>
      advance
      expectCloser o
      return .projection left (← projectionBody expression Symbol.star.leftPower)
    | .endOfInput => failAt t.position (.unclosed .leftBracket .indexSliceOrStar)
    | _ => unexpected .insideBracket
  | .symbol .leftParen =>
    match left with
    | .field name =>
      let namePosition ← previousPosition
      advance
      functionCall expression name namePosition ⟨.leftParen, t.position⟩
    | other => fail (.notCallable other.kindName)
  | _ => unexpected .afterExpression

def climb (power : Nat) : Nat → Expr → m Expr
  | 0, left => exhausted (pure left)
  | n + 1, left => do
    if power < (← current).kind.leftPower then climb power n (← extend expression left)
    else pure left

end

def expressionWithin : Nat → Nat → m Expr
  | 0, _ => exhausted (fail .endOfExpression)
  | depth + 1, power => do
    let left ← head (expressionWithin depth)
    climb (expressionWithin depth) power (← turns) left

/-- The longest expression whose operators bind tighter than `power`. Every group reads a token, so
that groups nest less deep than there are tokens. -/
def expression (power : Nat) : m Expr := do
  expressionWithin (← turns) power

def complete : m Expr := do
  let e ← expression 0
  if (← current).kind.isEnd then pure e else unexpected .afterCompleteExpression

end Parser

def Expr.ofTokens (tokens : List Token) : Except SyntaxError Expr :=
  match (Parser.complete : ParseM Expr).run (TokenCursor.ofTokens tokens) with
  | .ok e _ => .ok e
  | .error e _ => .error e

def Expr.ofString (text : String) : Except SyntaxError Expr := do
  Expr.ofTokens (← Token.ofString text)

end PathQuery
