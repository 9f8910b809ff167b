import PathQuery.Value.Order

namespace PathQuery

inductive Comparator where
  | equal
  | notEqual
  | less
  | lessEqual
  | greater
  | greaterEqual
deriving DecidableEq, Repr

namespace Comparator

def all : List Comparator := [equal, notEqual, less, lessEqual, greater, greaterEqual]

def text : Comparator → String
  | equal => "=="
  | notEqual => "!="
  | less => "<"
  | lessEqual => "<="
  | greater => ">"
  | greaterEqual => ">="

def ofText? (s : String) : Option Comparator := all.find? (·.text == s)

def isOrdering : Comparator → Bool
  | equal => false
  | notEqual => false
  | _ => true

def holds : Comparator → Ordering → Bool
  | equal, o => o == .eq
  | notEqual, o => o != .eq
  | less, o => o == .lt
  | lessEqual, o => o != .gt
  | greater, o => o == .gt
  | greaterEqual, o => o != .lt

end Comparator

/-- A query. A projection holds in `body` all that is done to each element. -/
inductive Expr where
  | field (name : String)
  | index (i : Int64)
  | slice (start stop step : Option Int64)
  /-- Merges the arrays in an array into it. -/
  | flatten (inner : Expr)
  /-- The values of an object. -/
  | objectValues (inner : Expr)
  | subexpression (left right : Expr)
  | pipe (left right : Expr)
  | projection (source body : Expr)
  | filterProjection (source predicate body : Expr)
  | multiSelectList (items : List Expr)
  | multiSelectHash (pairs : List (String × Expr))
  | or (left right : Expr)
  | and (left right : Expr)
  | not (inner : Expr)
  | comparison (op : Comparator) (left right : Expr)
  | functionCall (name : String) (args : List Expr)
  /-- An expression that a function is given unevaluated. -/
  | expressionRef (inner : Expr)
  | currentNode
  | literal (value : Value)
deriving Inhabited

namespace Expr

def kindName : Expr → String
  | field _ => "Field"
  | index _ => "Index"
  | slice .. => "Slice"
  | flatten _ => "Flatten"
  | objectValues _ => "ObjectValues"
  | subexpression .. => "Subexpression"
  | pipe .. => "Pipe"
  | projection .. => "Projection"
  | filterProjection .. => "FilterProjection"
  | multiSelectList _ => "MultiSelectList"
  | multiSelectHash _ => "MultiSelectHash"
  | or .. => "Or"
  | and .. => "And"
  | not _ => "Not"
  | comparison .. => "Comparison"
  | functionCall .. => "FunctionCall"
  | expressionRef _ => "ExpressionRef"
  | currentNode => "CurrentNode"
  | literal _ => "Literal"

def isCurrentNode : Expr → Bool
  | currentNode => true
  | _ => false

mutual

/-- Equality node by node, with that of values in the literals. -/
def beq : Expr → Expr → Bool
  | field a, field b => a == b
  | index a, index b => a == b
  | slice a b c, slice a' b' c' => a == a' && b == b' && c == c'
  | flatten a, flatten b => beq a b
  | objectValues a, objectValues b => beq a b
  | subexpression a b, subexpression a' b' => beq a a' && beq b b'
  | pipe a b, pipe a' b' => beq a a' && beq b b'
  | projection a b, projection a' b' => beq a a' && beq b b'
  | filterProjection a p b, filterProjection a' p' b' => beq a a' && beq p p' && beq b b'
  | multiSelectList as, multiSelectList bs => beqItems as bs
  | multiSelectHash as, multiSelectHash bs => beqPairs as bs
  | or a b, or a' b' => beq a a' && beq b b'
  | and a b, and a' b' => beq a a' && beq b b'
  | not a, not b => beq a b
  | comparison op a b, comparison op' a' b' => op == op' && beq a a' && beq b b'
  | functionCall f as, functionCall g bs => f == g && beqItems as bs
  | expressionRef a, expressionRef b => beq a b
  | currentNode, currentNode => true
  | literal a, literal b => a == b
  | _, _ => false
termination_by structural e => e

def beqItems : List Expr → List Expr → Bool
  | [], [] => true
  | a :: as, b :: bs => beq a b && beqItems as bs
  | _, _ => false
termination_by structural es => es

def beqPairs : List (String × Expr) → List (String × Expr) → Bool
  | [], [] => true
  | (k, a) :: as, (l, b) :: bs => k == l && beq a b && beqPairs as bs
  | _, _ => false
termination_by structural ps => ps

end

instance : BEq Expr := ⟨beq⟩

end Expr

end PathQuery
