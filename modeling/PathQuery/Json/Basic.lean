import PathQuery.Entries
import PathQuery.Value.Basic

namespace PathQuery

/-- The numbers of a JSON document: an integer of 64 bits, with or without sign, or a float. -/
inductive JsonNumber where
  | natural (n : UInt64)
  | negative (n : Int64)
  | float (x : Float)

/-- A JSON document. The reader keeps entries as they are written; `sorted` gives the form in which
documents are searched and printed, with each object's keys unique and ascending. -/
inductive Json where
  | null
  | bool (b : Bool)
  | number (n : JsonNumber)
  | string (s : String)
  | array (items : List Json)
  | object (entries : List (String × Json))
deriving Inhabited

namespace JsonNumber

def int64? : JsonNumber → Option Int64
  | natural n => Number.toInt64? n.toNat
  | negative n => some n
  | float _ => none

def toFloat : JsonNumber → Float
  | natural n => Float.ofNat n.toNat
  | negative n => Number.ofInt64 n
  | float x => x

def ofInt64 (n : Int64) : JsonNumber :=
  if 0 ≤ n.toInt then natural (UInt64.ofNat n.toInt.toNat) else negative n

end JsonNumber

namespace Json

def kind : Json → Kind
  | null => .null
  | bool _ => .boolean
  | number _ => .number
  | string _ => .string
  | array _ => .array
  | object _ => .object

def array? : Json → Option (List Json)
  | array items => some items
  | _ => none

def isNull : Json → Bool
  | null => true
  | _ => false

mutual

def sorted : Json → Json
  | null => null
  | bool b => bool b
  | number n => number n
  | string s => string s
  | array items => array (sortedItems items)
  | object entries => object (Entries.sortPairs (sortedEntries entries))
termination_by structural j => j

def sortedItems : List Json → List Json
  | [] => []
  | j :: js => sorted j :: sortedItems js
termination_by structural js => js

def sortedEntries : List (String × Json) → List (String × Json)
  | [] => []
  | (k, j) :: es => (k, sorted j) :: sortedEntries es
termination_by structural es => es

end

end Json

namespace Value

def ofNumber (n : JsonNumber) : Value :=
  match n.int64? with
  | some i => int i
  | none => float n.toFloat

mutual

def ofJson : Json → Value
  | .null => null
  | .bool b => bool b
  | .number n => ofNumber n
  | .string s => string s
  | .array items => array (ofJsonItems items)
  | .object entries => ofPairs (ofJsonEntries entries)
termination_by structural j => j

def ofJsonItems : List Json → List Value
  | [] => []
  | j :: js => ofJson j :: ofJsonItems js
termination_by structural js => js

def ofJsonEntries : List (String × Json) → List (String × Value)
  | [] => []
  | (k, j) :: es => (k, ofJson j) :: ofJsonEntries es
termination_by structural es => es

end

mutual

/-- The value as a sorted document; a float that is not finite has no place in one and becomes
null. -/
def toJson : Value → Json
  | null => .null
  | bool b => .bool b
  | int n => .number (.ofInt64 n)
  | float x => if x.isFinite then .number (.float x) else .null
  | string s => .string s
  | array items => .array (toJsonItems items)
  | object entries => .object (Entries.sortPairs (toJsonEntries entries))
termination_by structural v => v

def toJsonItems : List Value → List Json
  | [] => []
  | v :: vs => toJson v :: toJsonItems vs
termination_by structural vs => vs

def toJsonEntries : List (String × Value) → List (String × Json)
  | [] => []
  | (k, v) :: es => (k, toJson v) :: toJsonEntries es
termination_by structural es => es

end

end Value

end PathQuery
