import PathQuery.Expr.Basic

namespace PathQuery.Comparator

/-- Any two values are equal or not; only numbers have an order, and without one the answer is
null. -/
def apply (op : Comparator) (a b : Value) : Value :=
  if op.isOrdering && !(a.isNumber && b.isNumber) then .null
  else
    match op with
    | equal => .bool (a == b)
    | notEqual => .bool (a != b)
    | _ =>
      match a.compare b with
      | some o => .bool (op.holds o)
      | none => .null

end PathQuery.Comparator
