import PathQuery.Accessor.Code
import PathQuery.Accessor.Config

namespace PathQuery

/-- Generation counts temporaries; a failure keeps the count it has reached. -/
abbrev GenM := EStateM AccessorError Nat

namespace Generator

def fresh : GenM Nat := modifyGet fun n ↦ (n, n + 1)

def checkCall (name : String) (count : Nat) : GenM Unit :=
  match Builtin.ofName? name with
  | none => throw (.badArguments name .unknownFunction)
  | some f =>
    match f.signature.checkArity count with
    | .error fault => throw (.badArguments name fault)
    | .ok () => pure ()

def projection (style : NullCheck) (source : Code) (items item : Nat) (test : Option Code)
    (body : Code) : GenM Code :=
  match style with
  | .coalescing => pure (.mapItems source items item test body)
  | .explicitIf => do
    let out ← fresh
    let value ← fresh
    pure (.forItems source items item out value test body)

end Generator

namespace Expr

open Generator

mutual

@[simp] def code (style : NullCheck) : Expr → Var → GenM Code
  | field name, x => pure (.field x name)
  | index i, x => pure (.index x i)
  | slice start stop step, x => pure (.slice x start stop step)
  | flatten inner, x => return .flatten (← code style inner x)
  | objectValues inner, x => return .objectValues (← code style inner x)
  | subexpression left right, x => do
    let source ← code style left x
    let t ← fresh
    let body ← code style right (.temp t)
    match style with
    | .coalescing => pure (.andThen (.present source.operand) t body)
    | .explicitIf => pure (.ifSome t (.present source.operand) body)
  | pipe left right, x => do
    let source ← code style left x
    let t ← fresh
    let body ← code style right (.temp t)
    pure (.letOrNull t source.operand body)
  | projection source body, x => do
    let source ← code style source x
    let items ← fresh
    let item ← fresh
    let body ← code style body (.temp item)
    Generator.projection style source.operand items item none body.operand
  | filterProjection source predicate body, x => do
    let source ← code style source x
    let items ← fresh
    let item ← fresh
    let test ← code style predicate (.temp item)
    let body ← code style body (.temp item)
    Generator.projection style source.operand items item (some test) body.operand
  | multiSelectList items, x => do
    let t ← fresh
    let items ← codeItems style items (.temp t)
    match style with
    | .coalescing => pure (.mapPresent x t items)
    | .explicitIf => pure (.unlessNull x t (.list items))
  | multiSelectHash pairs, x => do
    let t ← fresh
    let m ← fresh
    let entries ← codePairs style pairs (.temp t)
    match style with
    | .coalescing => pure (.andThenPresent x t (.object m entries))
    | .explicitIf => pure (.unlessNull x t (.object m entries))
  | or left right, x => do
    let left ← code style left x
    let right ← code style right x
    match style with
    | .coalescing => pure (.orElse (.truthy left.operand) right)
    | .explicitIf => do
      let t ← fresh
      pure (.letIf t left.operand (.optional t) right)
  | and left right, x => do
    let left ← code style left x
    let right ← code style right x
    let t ← fresh
    pure (.letIf t left right (.optional t))
  | not inner, x => return .negation (← code style inner x)
  | comparison op left right, x => do
    let left ← code style left x
    let right ← code style right x
    pure (.comparison op left right)
  | functionCall name args, x => do
    checkCall name args.length
    return .call name (← codeArgs style args x)
  | expressionRef inner, _ => throw (.unsupported (expressionRef inner).kindName)
  | currentNode, x => pure (.current x)
  | literal v, _ => pure (.literal v)
termination_by structural e => e

@[simp] def codeItems (style : NullCheck) : List Expr → Var → GenM (List Code)
  | [], _ => pure []
  | e :: es, x => do
    let c ← code style e x
    let cs ← codeItems style es x
    pure (c.operand :: cs)
termination_by structural es => es

@[simp] def codePairs (style : NullCheck) : List (String × Expr) → Var → GenM (List (String × Code))
  | [], _ => pure []
  | (key, e) :: ps, x => do
    let c ← code style e x
    let cs ← codePairs style ps x
    pure ((key, c.operand) :: cs)
termination_by structural ps => ps

@[simp] def codeArgs (style : NullCheck) : List Expr → Var → GenM (List Code)
  | [], _ => pure []
  | e :: es, x => do
    let c ← code style e x
    let cs ← codeArgs style es x
    pure (c :: cs)
termination_by structural es => es

end

end Expr

end PathQuery
