import PathQuery.Function.Arithmetic
import PathQuery.Function.Collection
import PathQuery.Function.Sorting

namespace PathQuery.Builtin

def run (f : Builtin) (args : Args) : Except EvalError Value :=
  match f with
  | abs => .ok (args.value 0).absolute
  | avg => .ok (Value.average (args.array 0))
  | ceil => .ok ((args.value 0).rounded Number.Binary.ceil)
  | contains => .ok (.bool ((args.value 0).contains (args.value 1)))
  | endsWith => .ok (.bool (Value.endsWith (args.string 0) (args.string 1)))
  | floor => .ok ((args.value 0).rounded Number.Binary.floor)
  | join => .ok (Value.join (args.string 0) (args.array 1))
  | keys => .ok (args.value 0).keys
  | length => .ok (args.value 0).length
  | map => do
    let run ← args.reference f 0
    return .array (← (args.array 1).mapM run)
  | max => .ok (Keyed.extreme .gt ((args.array 0).map Keyed.ofItem))
  | maxBy => do
    let run ← args.reference f 1
    return Keyed.extreme .gt (← Keyed.ofItems f run none (args.array 0))
  | merge => .ok (Value.merge args.values)
  | min => .ok (Keyed.extreme .lt ((args.array 0).map Keyed.ofItem))
  | minBy => do
    let run ← args.reference f 1
    return Keyed.extreme .lt (← Keyed.ofItems f run none (args.array 0))
  | notNull => .ok (Value.firstNotNull args.values)
  | reverse => .ok (args.value 0).reverse
  | sort => .ok (.array (Keyed.sort ((args.array 0).map Keyed.ofItem)))
  | sortBy => do
    let run ← args.reference f 1
    return .array (Keyed.sort (← Keyed.ofItems f run none (args.array 0)))
  | startsWith => .ok (.bool (Value.startsWith (args.string 0) (args.string 1)))
  | sum => .ok (Value.sum (args.array 0))
  | toArray => .ok (args.value 0).toArray
  | toNumber => .ok (args.value 0).toNumber
  | toText => .ok (args.value 0).toText
  | type => .ok (.string (args.value 0).kind.name)
  | values => .ok (args.value 0).values

def call (f : Builtin) (args : List Arg) : Except EvalError Value :=
  match f.signature.check args with
  | .error fault => .error (.badArguments f.name fault)
  | .ok () => f.run ⟨args⟩

def callByName (name : String) (args : List Arg) : Except EvalError Value :=
  match ofName? name with
  | none => .error (.badArguments name .unknownFunction)
  | some f => f.call args

end PathQuery.Builtin
