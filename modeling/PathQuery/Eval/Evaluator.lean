import PathQuery.Eval.Comparison
import PathQuery.Eval.Selection
import PathQuery.Eval.Slice
import PathQuery.Function.Call
import PathQuery.Node.Instances

namespace PathQuery

namespace Value

def flatten : Value → Value
  | array items => array (items.flatMap fun v ↦ v.array?.getD [v])
  | _ => null

end Value

namespace DataNode

variable {N : Type} [DataNode N]

def flatten (n : N) : Value :=
  .array ((items n).flatMap fun c ↦
    if isArray c then (items c).map Value.ofNode else [Value.ofNode c])

def item (n : N) (i : Int64) : Selection N :=
  if isArray n then .ofNode? ((Slice.resolveIndex (length n) i).bind (item? n)) else .null

def slice (n : N) (start stop step : Option Int64) : Value :=
  if isArray n then
    .array (((Slice.positions (length n) start stop step).filterMap (item? n)).map Value.ofNode)
  else .null

end DataNode

namespace Selection

variable {N : Type} [DataNode N]

def flatten : Selection N → Value
  | borrowed n => if DataNode.isArray n then DataNode.flatten n else .null
  | owned v => v.flatten

def objectValues : Selection N → Value
  | borrowed n =>
    if DataNode.isObject n then .array ((DataNode.values n).map Value.ofNode) else .null
  | owned v => v.values

end Selection

namespace Eval

def project {N : Type} [DataNode N] (test body : N → Except EvalError (Selection N)) :
    List N → Except EvalError (List Value)
  | [] => .ok []
  | n :: ns => do
    if (← test n).isTruthy then
      let s ← body n
      let vs ← project test body ns
      return if s.isNull then vs else s.toValue :: vs
    else project test body ns

/-- A projection over an array; over anything else it is null. The functions come for nodes of the
input and for values. -/
def projectArray {N : Type} [DataNode N] (test body : N → Except EvalError (Selection N))
    (test' body' : Value → Except EvalError (Selection Value)) :
    Selection N → Except EvalError Value
  | .borrowed n =>
    if DataNode.isArray n then return .array (← project test body (DataNode.items n))
    else .ok .null
  | .owned (.array items) => return .array (← project test' body' items)
  | .owned _ => .ok .null

def projectObject {N : Type} [DataNode N] (test body : N → Except EvalError (Selection N))
    (test' body' : Value → Except EvalError (Selection Value)) :
    Selection N → Except EvalError Value
  | .borrowed n =>
    if DataNode.isObject n then return .array (← project test body (DataNode.values n))
    else .ok .null
  | .owned (.object entries) => return .array (← project test' body' (entries.map Prod.snd))
  | .owned _ => .ok .null

def always {N : Type} : N → Except EvalError (Selection N) := fun _ ↦ .ok (.owned (.bool true))

end Eval

namespace Expr

open Eval

mutual

/-- Evaluates an expression on a node. Paths give nodes of the input back; only what the expression
builds is copied. -/
def eval : Expr → {N : Type} → [DataNode N] → N → Except EvalError (Selection N)
  | field name, _, _, n => .ok (.ofNode? (DataNode.field? n name))
  | index i, _, _, n => .ok (DataNode.item n i)
  | slice start stop step, _, _, n => .ok (.owned (DataNode.slice n start stop step))
  | flatten inner, _, _, n => return .owned (← eval inner n).flatten
  | objectValues inner, _, _, n => return .owned (← eval inner n).objectValues
  | subexpression left right, _, _, n => do
    let s ← eval left n
    if s.isNull then return .null
    else
      match s with
      | .borrowed m => eval right m
      | .owned v => return .owned (← eval right v).toValue
  | pipe left right, _, _, n => do
    match ← eval left n with
    | .borrowed m => eval right m
    | .owned v => return .owned (← eval right v).toValue
  | projection (objectValues inner) body, _, _, n => do
    let s ← eval inner n
    return .owned (← projectObject always (fun m ↦ eval body m) always (fun v ↦ eval body v) s)
  | projection source body, _, _, n => do
    let s ← eval source n
    return .owned (← projectArray always (fun m ↦ eval body m) always (fun v ↦ eval body v) s)
  | filterProjection source predicate body, _, _, n => do
    let s ← eval source n
    return .owned (← projectArray (fun m ↦ eval predicate m) (fun m ↦ eval body m)
      (fun v ↦ eval predicate v) (fun v ↦ eval body v) s)
  | multiSelectList items, _, _, n =>
    if DataNode.isNull n then .ok .null
    else return .owned (.array (← evalItems items n))
  | multiSelectHash pairs, _, _, n =>
    if DataNode.isNull n then .ok .null
    else return .owned (Value.ofPairs (← evalPairs pairs n))
  | or left right, _, _, n => do
    let s ← eval left n
    if s.isTruthy then return s else eval right n
  | and left right, _, _, n => do
    let s ← eval left n
    if s.isTruthy then eval right n else return s
  | not inner, _, _, n => return .owned (.bool !(← eval inner n).isTruthy)
  | comparison op left right, _, _, n => do
    let a ← eval left n
    let b ← eval right n
    return .owned (op.apply a.toValue b.toValue)
  | functionCall name args, _, _, n => do
    let args ← evalArgs args n
    return .owned (← Builtin.callByName name args)
  | expressionRef _, _, _, _ => .error .strayReference
  | currentNode, _, _, n => .ok (.borrowed n)
  | literal v, _, _, _ => .ok (.owned v)
termination_by structural e => e

def evalItems : List Expr → {N : Type} → [DataNode N] → N → Except EvalError (List Value)
  | [], _, _, _ => .ok []
  | e :: es, _, _, n => do
    let s ← eval e n
    let vs ← evalItems es n
    return s.toValue :: vs
termination_by structural es => es

def evalPairs : List (String × Expr) → {N : Type} → [DataNode N] → N →
    Except EvalError (List (String × Value))
  | [], _, _, _ => .ok []
  | (key, e) :: ps, _, _, n => do
    let s ← eval e n
    let entries ← evalPairs ps n
    return (key, s.toValue) :: entries
termination_by structural ps => ps

def evalArgs : List Expr → {N : Type} → [DataNode N] → N → Except EvalError (List Arg)
  | [], _, _, _ => .ok []
  | expressionRef inner :: es, _, _, n => do
    let args ← evalArgs es n
    return .reference (fun v ↦ return (← eval inner v).toValue) :: args
  | e :: es, _, _, n => do
    let s ← eval e n
    let args ← evalArgs es n
    return .value s.toValue :: args
termination_by structural es => es

end

def evaluate {N : Type} [DataNode N] (e : Expr) (n : N) : Except EvalError Value :=
  return (← e.eval n).toValue

end Expr

end PathQuery
