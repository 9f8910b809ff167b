import PathQuery.Expr.Parser

namespace PathQuery.Parser

inductive Phrase where
  /-- The longest expression whose operators bind tighter than a power. -/
  | expression (power : Nat)
  /-- What such an expression goes on with. -/
  | climb (power : Nat) (left : Expr)
  | head
  | extend (left : Expr)
  /-- A step in brackets that can also start an expression. -/
  | bracket (left : Expr)
  | afterDot (power : Nat)
  | body (power : Nat)
  | items
  | pairs
  | arguments (name : String)
  | argument

def power (ts : List TokenKind) : Nat := (ts.headD .endOfInput).leftPower

def opensList : List TokenKind → Bool
  | .number _ :: _ => false
  | .symbol .colon :: _ => false
  | .symbol .star :: .symbol .rightBracket :: _ => false
  | _ => true

theorem opensList_star (ts : List TokenKind) :
    opensList (.symbol .star :: ts) = !(ts.headD .endOfInput).isSymbol .rightBracket := by
  rcases ts with - | ⟨k, ts⟩
  · rfl
  · cases k with
    | symbol s => cases s <;> rfl
    | _ => rfl

def startsName : List TokenKind → Bool
  | .identifier _ :: _ => true
  | .quotedIdentifier _ :: _ => true
  | .symbol .star :: _ => true
  | _ => false

def startsBracket : List TokenKind → Bool
  | .symbol .leftBracket :: _ => true
  | .symbol .filter :: _ => true
  | _ => false

def startsSymbol (s : Symbol) (ts : List TokenKind) : Bool := (ts.headD .endOfInput).isSymbol s

def name? : TokenKind → Option String
  | .identifier name => some name
  | .quotedIdentifier name => some name
  | _ => none

def binary? : Symbol → Option (Expr → Expr → Expr)
  | .pipe => some .pipe
  | .or => some .or
  | .and => some .and
  | .comparator op => some (.comparison op)
  | _ => none

def numberTokens (n : Option Int64) : List TokenKind := (n.map TokenKind.number).toList

inductive SliceTokens : SliceParts → List TokenKind → Prop
  | short (start stop : Option Int64) :
    SliceTokens ⟨start, stop, none⟩
      (numberTokens start ++ .symbol .colon :: numberTokens stop)
  | long (start stop step : Option Int64) :
    SliceTokens ⟨start, stop, step⟩
      (numberTokens start ++ .symbol .colon ::
        (numberTokens stop ++ .symbol .colon :: numberTokens step))

/-- `Reads φ ts e rest`: from the tokens `ts`, which the end of the text follows, the rule for `φ`
makes `e` and leaves `rest`. -/
inductive Reads : Phrase → List TokenKind → Expr → List TokenKind → Prop
  | expression {p : Nat} {ts mid rest : List TokenKind} {left e : Expr} :
    Reads .head ts left mid → Reads (.climb p left) mid e rest → Reads (.expression p) ts e rest
  | stop {p : Nat} {left : Expr} {ts : List TokenKind} :
    power ts ≤ p → Reads (.climb p left) ts left ts
  | step {p : Nat} {left left' e : Expr} {ts mid rest : List TokenKind} :
    p < power ts → Reads (.extend left) ts left' mid → Reads (.climb p left') mid e rest →
    Reads (.climb p left) ts e rest
  | current {ts : List TokenKind} : Reads .head (.symbol .current :: ts) .currentNode ts
  | identifier {name : String} {ts : List TokenKind} :
    Reads .head (.identifier name :: ts) (.field name) ts
  | quotedIdentifier {name : String} {ts : List TokenKind} :
    startsSymbol .leftParen ts = false → Reads .head (.quotedIdentifier name :: ts) (.field name) ts
  | literal {v : Value} {ts : List TokenKind} : Reads .head (.literal v :: ts) (.literal v) ts
  | rawString {s : String} {ts : List TokenKind} :
    Reads .head (.rawString s :: ts) (.literal (.string s)) ts
  | values {ts rest : List TokenKind} {body : Expr} :
    Reads (.body 20) ts body rest →
    Reads .head (.symbol .star :: ts) (.projection (.objectValues .currentNode) body) rest
  | implicit {ts rest : List TokenKind} {e : Expr} :
    Reads (.bracket .currentNode) ts e rest → Reads .head ts e rest
  | list {ts rest : List TokenKind} {e : Expr} :
    opensList ts = true → Reads .items ts e rest → Reads .head (.symbol .leftBracket :: ts) e rest
  | hash {ts rest : List TokenKind} {e : Expr} :
    Reads .pairs ts e rest → Reads .head (.symbol .leftBrace :: ts) e rest
  | not {ts rest : List TokenKind} {e : Expr} :
    Reads (.expression 45) ts e rest → Reads .head (.symbol .not :: ts) (.not e) rest
  | group {ts rest : List TokenKind} {e : Expr} :
    Reads (.expression 0) ts e (.symbol .rightParen :: rest) →
    Reads .head (.symbol .leftParen :: ts) e rest
  | dot {left right : Expr} {ts rest : List TokenKind} :
    Reads (.afterDot 40) ts right rest →
    Reads (.extend left) (.symbol .dot :: ts) (.subexpression left right) rest
  | binary {s : Symbol} {tree : Expr → Expr → Expr} {left right : Expr} {ts rest : List TokenKind} :
    binary? s = some tree → Reads (.expression s.leftPower) ts right rest →
    Reads (.extend left) (.symbol s :: ts) (tree left right) rest
  | explicit {left e : Expr} {ts rest : List TokenKind} :
    Reads (.bracket left) ts e rest → Reads (.extend left) ts e rest
  | call {name : String} {e : Expr} {ts rest : List TokenKind} :
    (Builtin.ofName? name).isSome → Reads (.arguments name) ts e rest →
    Reads (.extend (.field name)) (.symbol .leftParen :: ts) e rest
  | flatten {left body : Expr} {ts rest : List TokenKind} :
    Reads (.body 9) ts body rest →
    Reads (.bracket left) (.symbol .flatten :: ts) (.projection (.flatten left) body) rest
  | filter {left predicate body : Expr} {ts mid rest : List TokenKind} :
    Reads (.expression 0) ts predicate (.symbol .rightBracket :: mid) →
    Reads (.body 21) mid body rest →
    Reads (.bracket left) (.symbol .filter :: ts) (.filterProjection left predicate body) rest
  | index {left : Expr} {i : Int64} {ts : List TokenKind} :
    Reads (.bracket left)
      (.symbol .leftBracket :: .number i :: .symbol .rightBracket :: ts) (access left (.index i)) ts
  | slice {left body : Expr} {parts : SliceParts} {inner ts rest : List TokenKind} :
    SliceTokens parts inner → parts.step ≠ some 0 → Reads (.body 20) ts body rest →
    Reads (.bracket left) (.symbol .leftBracket :: (inner ++ .symbol .rightBracket :: ts))
      (.projection (access left (.slice parts.start parts.stop parts.step)) body) rest
  | wildcard {left body : Expr} {ts rest : List TokenKind} :
    Reads (.body 20) ts body rest →
    Reads (.bracket left)
      (.symbol .leftBracket :: .symbol .star :: .symbol .rightBracket :: ts)
      (.projection left body) rest
  | dotList {p : Nat} {e : Expr} {ts rest : List TokenKind} :
    Reads .items ts e rest → Reads (.afterDot p) (.symbol .leftBracket :: ts) e rest
  | dotHash {p : Nat} {e : Expr} {ts rest : List TokenKind} :
    Reads .pairs ts e rest → Reads (.afterDot p) (.symbol .leftBrace :: ts) e rest
  | dotName {p : Nat} {e : Expr} {ts rest : List TokenKind} :
    startsName ts = true → Reads (.expression p) ts e rest → Reads (.afterDot p) ts e rest
  | element {p : Nat} {ts : List TokenKind} :
    power ts < projectionStop → Reads (.body p) ts .currentNode ts
  | bodyDot {p : Nat} {e : Expr} {ts rest : List TokenKind} :
    Reads (.afterDot p) ts e rest → Reads (.body p) (.symbol .dot :: ts) e rest
  | bodyBracket {p : Nat} {e : Expr} {ts rest : List TokenKind} :
    startsBracket ts = true → Reads (.expression p) ts e rest → Reads (.body p) ts e rest
  | lastItem {e : Expr} {ts rest : List TokenKind} :
    Reads (.expression 0) ts e (.symbol .rightBracket :: rest) →
    Reads .items ts (.multiSelectList [e]) rest
  | item {e : Expr} {es : List Expr} {ts mid rest : List TokenKind} :
    Reads (.expression 0) ts e (.symbol .comma :: mid) →
    Reads .items mid (.multiSelectList es) rest → Reads .items ts (.multiSelectList (e :: es)) rest
  | lastPair {k : TokenKind} {key : String} {e : Expr} {ts rest : List TokenKind} :
    name? k = some key → Reads (.expression 0) ts e (.symbol .rightBrace :: rest) →
    Reads .pairs (k :: .symbol .colon :: ts) (.multiSelectHash [(key, e)]) rest
  | pair {k : TokenKind} {key : String} {e : Expr} {ps : List (String × Expr)}
      {ts mid rest : List TokenKind} :
    name? k = some key → Reads (.expression 0) ts e (.symbol .comma :: mid) →
    Reads .pairs mid (.multiSelectHash ps) rest →
    Reads .pairs (k :: .symbol .colon :: ts) (.multiSelectHash ((key, e) :: ps)) rest
  | noArguments {f : String} {ts : List TokenKind} :
    Reads (.arguments f) (.symbol .rightParen :: ts) (.functionCall f []) ts
  | lastArgument {f : String} {a : Expr} {ts rest : List TokenKind} :
    Reads .argument ts a (.symbol .rightParen :: rest) →
    Reads (.arguments f) ts (.functionCall f [a]) rest
  | nextArgument {f : String} {a : Expr} {args : List Expr} {ts mid rest : List TokenKind} :
    Reads .argument ts a (.symbol .comma :: mid) → startsSymbol .rightParen mid = false →
    Reads (.arguments f) mid (.functionCall f args) rest →
    Reads (.arguments f) ts (.functionCall f (a :: args)) rest
  | reference {e : Expr} {ts rest : List TokenKind} :
    Reads (.expression 0) ts e rest →
    Reads .argument (.symbol .ampersand :: ts) (.expressionRef e) rest
  | plain {e : Expr} {ts rest : List TokenKind} :
    Reads (.expression 0) ts e rest → Reads .argument ts e rest

def Phrase.takesToken : Phrase → Bool
  | climb .. => false
  | body _ => false
  | _ => true

theorem SliceTokens.length_pos {parts : SliceParts} {inner : List TokenKind}
    (h : SliceTokens parts inner) : 0 < inner.length := by
  cases h <;> simp only [List.length_append, List.length_cons] <;> omega

theorem Reads.length_le {φ : Phrase} {ts rest : List TokenKind} {e : Expr}
    (h : Reads φ ts e rest) : rest.length + φ.takesToken.toNat ≤ ts.length := by
  induction h with
  | slice hs =>
    have := hs.length_pos
    simp only [Phrase.takesToken, List.length_cons, List.length_append, Bool.toNat_true,
      Bool.toNat_false] at *
    omega
  | _ =>
    simp only [Phrase.takesToken, List.length_cons, Bool.toNat_true, Bool.toNat_false] at *
    omega

end PathQuery.Parser
