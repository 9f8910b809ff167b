import PathQuery.Entries
import PathQuery.Number.Binary

namespace PathQuery

inductive Kind where
  | null
  | boolean
  | number
  | string
  | array
  | object
deriving DecidableEq, Repr

def Kind.name : Kind → String
  | .null => "null"
  | .boolean => "boolean"
  | .number => "number"
  | .string => "string"
  | .array => "array"
  | .object => "object"

/-- What expressions are evaluated on and what they produce. The entries of an object stand in the
order of their insertion. -/
inductive Value where
  | null
  | bool (b : Bool)
  | int (n : Int64)
  | float (x : Float)
  | string (s : String)
  | array (items : List Value)
  | object (entries : List (String × Value))
deriving Inhabited

namespace Value

def kind : Value → Kind
  | null => .null
  | bool _ => .boolean
  | int _ => .number
  | float _ => .number
  | string _ => .string
  | array _ => .array
  | object _ => .object

def isNull : Value → Bool
  | null => true
  | _ => false

def isNumber : Value → Bool
  | int _ => true
  | float _ => true
  | _ => false

def isString : Value → Bool
  | string _ => true
  | _ => false

/-- Null, `false` and whatever is empty are falsy; every number is truthy. -/
def isTruthy : Value → Bool
  | null => false
  | bool b => b
  | int _ => true
  | float _ => true
  | string s => !s.isEmpty
  | array items => !items.isEmpty
  | object entries => !entries.isEmpty

def toFloat? : Value → Option Float
  | int n => some (Number.ofInt64 n)
  | float x => some x
  | _ => none

def string? : Value → Option String
  | string s => some s
  | _ => none

def array? : Value → Option (List Value)
  | array items => some items
  | _ => none

def object? : Value → Option (List (String × Value))
  | object entries => some entries
  | _ => none

def ofPairs (pairs : List (String × Value)) : Value := object (Entries.ofPairs pairs)

end Value

end PathQuery
