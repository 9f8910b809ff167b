import PathQuery.Function.Builtin

namespace PathQuery

/-- Why an evaluation fails. Missing data is never a reason. -/
inductive EvalError where
  | strayReference
  /-- A sort key that is neither a number nor a string. -/
  | badKey (function : Builtin) (got : Kind)
  /-- A sort key of another kind than the first one. -/
  | mixedKeys (function : Builtin) (first got : Kind)
  | badArguments (function : String) (fault : ArgumentFault)
deriving DecidableEq, Repr

namespace EvalError

def message : EvalError → String
  | strayReference =>
    "type mismatch: an expression reference can only be passed to a function"
  | badKey f got =>
    "type mismatch: " ++ f.name ++ "() expression must produce numbers or strings, got " ++
      got.name
  | mixedKeys f first got =>
    "type mismatch: " ++ f.name ++ "() expression produced both " ++ first.name ++ " and " ++
      got.name
  | badArguments function fault =>
    "invalid arguments to " ++ function ++ "(): " ++ fault.message

end EvalError

end PathQuery
