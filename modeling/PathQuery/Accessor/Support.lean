import PathQuery.Eval.Evaluator
import PathQuery.Json.Basic

namespace PathQuery.Support

/-- The value that a generated accessor means; an absent one stands for null. -/
def toValue (j : Option Json) : Value := (j.map Value.ofJson).getD .null

def ofValue (v : Value) : Option Json := if v.isNull then none else some v.toJson

def isTruthyValue : Json → Bool
  | .null => false
  | .bool b => b
  | .number _ => true
  | .string s => !s.isEmpty
  | .array items => !items.isEmpty
  | .object entries => !entries.isEmpty

def isTruthy (j : Option Json) : Bool := j.any isTruthyValue

def index (j : Json) (i : Int64) : Option Json := do
  let items ← j.array?
  let n ← Slice.resolveIndex items.length i
  let item ← items[n]?
  if item.isNull then none else some item

def slice (j : Json) (start stop step : Option Int64) : Option Json := do
  let items ← j.array?
  return .array ((Slice.positions items.length start stop step).filterMap (items[·]?))

def flatten (j : Option Json) : Option Json := ofValue (toValue j).flatten

def objectValues : Option Json → Option Json
  | some (.object entries) => some (.array (entries.map Prod.snd))
  | _ => none

def compare (op : String) (a b : Option Json) : Option Json := do
  let op ← Comparator.ofText? op
  ofValue (op.apply (toValue a) (toValue b))

def call (name : String) (args : List (Option Json)) : Option Json :=
  match Builtin.callByName name (args.map fun a ↦ .value (toValue a)) with
  | .ok v => ofValue v
  | .error _ => none

end PathQuery.Support
