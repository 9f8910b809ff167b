import PathQuery.Value.Basic

namespace PathQuery

inductive ArgType where
  | any
  | number
  | string
  | array
  | object
  | numberArray
  | stringArray
  | reference
deriving DecidableEq, Repr

namespace ArgType

def name : ArgType → String
  | any => "any"
  | number => "number"
  | string => "string"
  | array => "array"
  | object => "object"
  | numberArray => "array[number]"
  | stringArray => "array[string]"
  | reference => "expression reference"

def acceptsValue : ArgType → Value → Bool
  | any, _ => true
  | number, v => v.isNumber
  | string, v => v.isString
  | array, v => v.kind == .array
  | object, v => v.kind == .object
  | numberArray, v => v.array?.any fun items ↦ items.all Value.isNumber
  | stringArray, v => v.array?.any fun items ↦ items.all Value.isString
  | reference, _ => false

end ArgType

/-- Why a function does not take its arguments. Positions count from zero. -/
inductive ArgumentFault where
  | unknownFunction
  | tooFew (expected got : Nat)
  | wrongCount (expected got : Nat)
  | wrongType (position : Nat) (accepted : List ArgType) (got : String)
  | notReference (position : Nat)
deriving DecidableEq, Repr

def ArgumentFault.message : ArgumentFault → String
  | unknownFunction => "unknown function"
  | tooFew expected got =>
    "expected at least " ++ toString expected ++ " argument(s), got " ++ toString got
  | wrongCount expected got =>
    "expected " ++ toString expected ++ " argument(s), got " ++ toString got
  | wrongType position accepted got =>
    "argument " ++ toString (position + 1) ++ " must be " ++
      " or ".intercalate (accepted.map ArgType.name) ++ ", got " ++ got
  | notReference position =>
    "argument " ++ toString (position + 1) ++ " must be an expression reference"

/-- The types that each parameter accepts. The last parameter of a variadic function may come any
number of times. -/
structure Signature where
  params : List (List ArgType)
  variadic : Bool
deriving Repr

namespace Signature

def fixed (params : List (List ArgType)) : Signature := ⟨params, false⟩

def repeating (params : List (List ArgType)) : Signature := ⟨params, true⟩

def checkArity (s : Signature) (count : Nat) : Except ArgumentFault Unit :=
  let expected := s.params.length
  if s.variadic then
    if count < expected then .error (.tooFew expected count) else .ok ()
  else if count ≠ expected then .error (.wrongCount expected count)
  else .ok ()

def accepted (s : Signature) (position : Nat) : List ArgType :=
  s.params.getD (min position (s.params.length - 1)) []

end Signature

end PathQuery
