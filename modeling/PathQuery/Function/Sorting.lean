import PathQuery.Function.Argument
import PathQuery.Value.Order

namespace PathQuery

structure Keyed where
  key : Value
  item : Value

namespace Keyed

/-- Whether an item may stand before another; items without an order may. -/
def notAfter (a b : Keyed) : Bool := Value.compare a.key b.key != some .gt

/-- Sorted by key, equal keys in their first order. -/
def sort (items : List Keyed) : List Value := (items.mergeSort notAfter).map item

def extreme (want : Ordering) (items : List Keyed) : Value :=
  let best := items.foldl (fun best k ↦
    match best with
    | none => some k
    | some b => if Value.compare k.key b.key == some want then some k else some b) none
  (best.map item).getD .null

def ofItem (v : Value) : Keyed := ⟨v, v⟩

def checkKey (f : Builtin) (first : Option Kind) (key : Value) : Except EvalError Unit :=
  if !key.isNumber && !key.isString then .error (.badKey f key.kind)
  else
    match first with
    | none => .ok ()
    | some kind => if kind = key.kind then .ok () else .error (.mixedKeys f kind key.kind)

def ofItems (f : Builtin) (run : Reference) :
    Option Kind → List Value → Except EvalError (List Keyed)
  | _, [] => .ok []
  | first, item :: items => do
    let key ← run item
    checkKey f first key
    let rest ← ofItems f run (some (first.getD key.kind)) items
    return ⟨key, item⟩ :: rest

end Keyed

end PathQuery
