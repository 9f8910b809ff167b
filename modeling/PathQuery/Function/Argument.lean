import PathQuery.Eval.Error

namespace PathQuery

abbrev Reference := Value → Except EvalError Value

inductive Arg where
  | value (v : Value)
  | reference (run : Reference)

namespace Arg

def typeName : Arg → String
  | value v => v.kind.name
  | reference _ => ArgType.reference.name

def value? : Arg → Option Value
  | value v => some v
  | reference _ => none

end Arg

def ArgType.accepts : ArgType → Arg → Bool
  | t, .value v => t.acceptsValue v
  | t, .reference _ => t == .reference

namespace Signature

def checkTypes (s : Signature) : Nat → List Arg → Except ArgumentFault Unit
  | _, [] => .ok ()
  | i, arg :: args =>
    if (s.accepted i).any (·.accepts arg) then s.checkTypes (i + 1) args
    else .error (.wrongType i (s.accepted i) arg.typeName)

/-- Checks the number of arguments before their types. -/
def check (s : Signature) (args : List Arg) : Except ArgumentFault Unit := do
  s.checkArity args.length
  s.checkTypes 0 args

end Signature

/-- The arguments of a call, which is of a function whose signature admits them. What is absent
reads as empty. -/
structure Args where
  list : List Arg

namespace Args

def value (args : Args) (i : Nat) : Value :=
  match args.list[i]? with
  | some (.value v) => v
  | _ => .null

def array (args : Args) (i : Nat) : List Value := ((args.value i).array?).getD []

def string (args : Args) (i : Nat) : String := ((args.value i).string?).getD ""

def values (args : Args) : List Value := args.list.filterMap Arg.value?

def reference (args : Args) (function : Builtin) (i : Nat) : Except EvalError Reference :=
  match args.list[i]? with
  | some (.reference run) => .ok run
  | _ => .error (.badArguments function.name (.notReference i))

end Args

end PathQuery
