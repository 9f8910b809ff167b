import PathQuery.Value.Basic

namespace PathQuery.Value

mutual

/-- Numbers are equal when they have the same value, objects when they have the same entries in any
order. -/
def beq : Value → Value → Bool
  | null, null => true
  | bool a, bool b => a == b
  | int a, int b => a == b
  | int a, float b => Number.ofInt64 a == b
  | float a, int b => a == Number.ofInt64 b
  | float a, float b => a == b
  | string a, string b => a == b
  | array as, array bs => beqItems as bs
  | object as, object bs => as.length == bs.length && beqEntries as bs
  | _, _ => false
termination_by structural v => v

def beqItems : List Value → List Value → Bool
  | [], [] => true
  | a :: as, b :: bs => beq a b && beqItems as bs
  | _, _ => false
termination_by structural vs => vs

def beqEntries : List (String × Value) → List (String × Value) → Bool
  | [], _ => true
  | (k, a) :: as, bs =>
    match bs.lookup k with
    | some b => beq a b && beqEntries as bs
    | none => false
termination_by structural es => es

end

instance : BEq Value := ⟨beq⟩

def compareFloats (x y : Float) : Option Ordering :=
  if x < y then some .lt else if x == y then some .eq else if y < x then some .gt else none

/-- Orders two numbers by value, or two strings by code point; no other pair has an order. -/
def compare : Value → Value → Option Ordering
  | int a, int b => some (Ord.compare a b)
  | string a, string b => some (Ord.compare a b)
  | a, b => do compareFloats (← a.toFloat?) (← b.toFloat?)

end PathQuery.Value
