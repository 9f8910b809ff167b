import PathQuery.Expr.Basic

namespace PathQuery

inductive Var where
  | input
  | temp (n : Nat)
deriving DecidableEq, Repr

/-- Generated code for an optional JSON value. Binders are numbers of temporaries. -/
inductive Code where
  /-- `x.get("name").cloned()` -/
  | field (x : Var) (name : String)
  | index (x : Var) (i : Int64)
  | slice (x : Var) (start stop step : Option Int64)
  /-- `Some(x.clone())` -/
  | current (x : Var)
  | literal (v : Value)
  /-- A temporary that holds an optional value. -/
  | optional (t : Nat)
  | flatten (c : Code)
  | objectValues (c : Code)
  /-- `Some(Bool(!is_truthy(&c)))` -/
  | negation (c : Code)
  | comparison (op : Comparator) (a b : Code)
  | call (name : String) (args : List Code)
  | grouped (c : Code)
  /-- `c.filter(|v| !v.is_null())` -/
  | present (c : Code)
  /-- `c.filter(is_truthy_value)` -/
  | truthy (c : Code)
  /-- `c.or_else(|| d)` -/
  | orElse (c d : Code)
  /-- `c.as_ref().and_then(|t| body)` -/
  | andThen (c : Code) (t : Nat) (body : Code)
  /-- `if let Some(ref t) = c { body } else { None }` -/
  | ifSome (t : Nat) (c body : Code)
  /-- `{ let t = &c.unwrap_or(Null); body }` -/
  | letOrNull (t : Nat) (c body : Code)
  /-- `{ let t = c; if is_truthy(&t) { yes } else { no } }` -/
  | letIf (t : Nat) (c yes no : Code)
  /-- `Some(Array(vec![...]))`, null for items that are absent. -/
  | list (items : List Code)
  /-- `let mut m = Map::new(); ... Some(Object(m))`, null for entries that are absent. -/
  | object (m : Nat) (entries : List (String × Code))
  /-- `if x.is_null() { None } else { let t = x; body }` -/
  | unlessNull (x : Var) (t : Nat) (body : Code)
  /-- `Some(x).filter(|v| !v.is_null()).map(|t| Array(vec![...]))` -/
  | mapPresent (x : Var) (t : Nat) (items : List Code)
  /-- `Some(x).filter(|v| !v.is_null()).and_then(|t| { body })` -/
  | andThenPresent (x : Var) (t : Nat) (body : Code)
  /-- The elements of an array that pass a test, through iterator combinators. -/
  | mapItems (c : Code) (items item : Nat) (test : Option Code) (body : Code)
  /-- The elements of an array that pass a test, pushed in a loop. -/
  | forItems (c : Code) (items item out value : Nat) (test : Option Code) (body : Code)

namespace Code

def isBlock : Code → Bool
  | ifSome .. => true
  | letOrNull .. => true
  | letIf .. => true
  | unlessNull .. => true
  | forItems .. => true
  | _ => false

def operand (c : Code) : Code := if c.isBlock then grouped c else c

end Code

end PathQuery
