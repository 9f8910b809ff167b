import PathQuery.Accessor.Text
import PathQuery.Eval.Evaluator
import PathQuery.Expr.Parser
import PathQuery.Expr.Printer

namespace PathQuery

inductive QueryError where
  | syntactic (e : SyntaxError)
  | eval (e : EvalError)

structure Query where
  text : String
  expr : Expr

namespace Query

def compile (text : String) : Except SyntaxError Query := do
  return ⟨text, ← Expr.ofString text⟩

def evaluateNode {N : Type} [DataNode N] (q : Query) (n : N) : Except EvalError Value :=
  q.expr.evaluate n

def search (q : Query) (document : Json) : Except EvalError Json :=
  return (← q.evaluateNode document).toJson

end Query

def compiled (text : String) : Except QueryError Query :=
  (Query.compile text).mapError .syntactic

def evaluateNode {N : Type} [DataNode N] (text : String) (n : N) : Except QueryError Value := do
  ((← compiled text).evaluateNode n).mapError .eval

def evaluate (text : String) (v : Value) : Except QueryError Value := evaluateNode text v

def search (text : String) (document : Json) : Except QueryError Json := do
  ((← compiled text).search document).mapError .eval

end PathQuery
