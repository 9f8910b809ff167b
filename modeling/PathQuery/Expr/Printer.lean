import PathQuery.Expr.Basic
import PathQuery.Json.Printer
import PathQuery.Text.Blank
import PathQuery.Token.Lexer
import PathQuery.Value.Printer

namespace PathQuery.Expr

/-- How loosely an expression holds together, tighter levels first. -/
inductive Level where
  /-- Any bracket can follow. -/
  | primary
  /-- A dot, a filter or a flatten can follow. -/
  | chain
  /-- Only a flatten ends it. -/
  | projection
  /-- A binary operator. -/
  | operator
deriving DecidableEq, Repr

def Level.rank : Level → Nat
  | primary => 0
  | chain => 1
  | projection => 2
  | operator => 3

def isIndex : Expr → Bool
  | index _ => true
  | _ => false

def isSlice : Expr → Bool
  | slice .. => true
  | _ => false

def isPipe : Expr → Bool
  | pipe .. => true
  | _ => false

def isOr : Expr → Bool
  | or .. => true
  | _ => false

def isAnd : Expr → Bool
  | and .. => true
  | _ => false

def isComparison : Expr → Bool
  | comparison .. => true
  | _ => false

def level : Expr → Level
  | subexpression _ right => if right.isIndex then .primary else .chain
  | not _ => .chain
  | projection .. => .projection
  | filterProjection .. => .projection
  | flatten _ => .projection
  | objectValues _ => .projection
  | comparison .. => .operator
  | and .. => .operator
  | or .. => .operator
  | pipe .. => .operator
  | _ => .primary

def fieldName (name : String) : String :=
  if Lexer.isName name.toList then name else Json.quoted name

def sliceText (start stop step : Option Int64) : String :=
  let part (n : Option Int64) : String := (n.map fun n ↦ toString n.toInt).getD ""
  "[" ++ part start ++ ":" ++ part stop ++ (step.map fun n ↦ ":" ++ toString n.toInt).getD "" ++ "]"

def literalText (v : Value) : String :=
  "`" ++ String.ofList (Text.insertBefore '\\' '\x60' v.compact.toList) ++ "`"

def parens (wrapped : Bool) (text : String) : String :=
  if wrapped then "(" ++ text ++ ")" else text

def looserThan (e : Expr) (most : Level) : Bool := most.rank < e.level.rank

def sourceText (e : Expr) (most : Level) (text : String) : String :=
  if e.isCurrentNode then "" else parens (e.looserThan most) text

/-- The source of a projection with the bracket that projects over it, where it has none of its
own. -/
def projectedText (e : Expr) (text : String) : String :=
  match e with
  | objectValues _ => text
  | slice .. => text
  | flatten _ => text
  | subexpression left (slice start stop step) =>
    if left.isCurrentNode then sliceText start stop step else text
  | _ => sourceText e .primary text ++ "[*]"

/-- What follows the source of a projection: nothing for the element itself, a bracket directly,
anything else behind a dot. -/
def bodyText (body : Expr) (text : String) : String :=
  if body.isCurrentNode then ""
  else if text.toList.head? = some '[' then text
  else "." ++ text

mutual

/-- The expression in canonical form, with parentheses where the parser would otherwise build
another tree. -/
@[simp] def text : Expr → String
  | field name => fieldName name
  | index i => "[" ++ toString i.toInt ++ "]"
  | slice start stop step => sliceText start stop step
  | flatten inner => sourceText inner .projection inner.text ++ "[]"
  | objectValues inner =>
    if inner.isCurrentNode then "*" else parens (inner.looserThan .chain) inner.text ++ ".*"
  | subexpression left right =>
    if right.isIndex || right.isSlice then
      parens (left.looserThan .primary) left.text ++ right.text
    else parens (left.looserThan .chain) left.text ++ "." ++ right.text
  | pipe left right => left.text ++ " | " ++ parens right.isPipe right.text
  | projection source body =>
    projectedText source source.text ++ bodyText body body.text
  | filterProjection source predicate body =>
    sourceText source .chain source.text ++ "[?" ++ predicate.text ++ "]" ++ bodyText body body.text
  | multiSelectList items => "[" ++ ", ".intercalate (texts items) ++ "]"
  | multiSelectHash pairs => "\x7b" ++ ", ".intercalate (pairTexts pairs) ++ "\x7d"
  | or left right =>
    parens left.isPipe left.text ++ " || " ++ parens (right.isPipe || right.isOr) right.text
  | and left right =>
    parens (!(left.isAnd || left.isComparison) && left.looserThan .projection) left.text ++
      " && " ++ parens (!right.isComparison && right.looserThan .projection) right.text
  | not inner => "!" ++ parens (inner.looserThan .primary) inner.text
  | comparison op left right =>
    parens (!left.isComparison && left.looserThan .projection) left.text ++ " " ++ op.text ++ " " ++
      parens (right.looserThan .projection) right.text
  | functionCall name args => name ++ "(" ++ ", ".intercalate (texts args) ++ ")"
  | expressionRef inner => "&" ++ inner.text
  | currentNode => "@"
  | literal v => literalText v
termination_by structural e => e

@[simp] def texts : List Expr → List String
  | [] => []
  | e :: es => e.text :: texts es
termination_by structural es => es

@[simp] def pairTexts : List (String × Expr) → List String
  | [] => []
  | (key, e) :: ps => (fieldName key ++ ": " ++ e.text) :: pairTexts ps
termination_by structural ps => ps

end

end PathQuery.Expr
