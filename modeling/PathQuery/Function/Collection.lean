import PathQuery.Value.Order
import PathQuery.Value.Printer

namespace PathQuery.Value

def occursIn (needle : List Char) : List Char → Bool
  | [] => needle.isEmpty
  | c :: cs => needle.isPrefixOf (c :: cs) || occursIn needle cs

def contains : Value → Value → Bool
  | array items, needle => items.any (· == needle)
  | string s, string needle => occursIn needle.toList s.toList
  | _, _ => false

def startsWith (s start : String) : Bool := start.toList.isPrefixOf s.toList

def endsWith (s tail : String) : Bool := tail.toList.isSuffixOf s.toList

def join (glue : String) (items : List Value) : Value :=
  string (glue.intercalate (items.filterMap string?))

def keys : Value → Value
  | object entries => array (entries.map fun e ↦ string e.1)
  | _ => null

def values : Value → Value
  | object entries => array (entries.map Prod.snd)
  | _ => null

def length : Value → Value
  | string s => int (Int64.ofNat s.length)
  | array items => int (Int64.ofNat items.length)
  | object entries => int (Int64.ofNat entries.length)
  | _ => null

def merge (objects : List Value) : Value :=
  ofPairs (objects.flatMap fun v ↦ v.object?.getD [])

def firstNotNull (vs : List Value) : Value := (vs.find? fun v ↦ !v.isNull).getD null

def reverse : Value → Value
  | array items => array items.reverse
  | string s => string (String.ofList s.toList.reverse)
  | _ => null

def toArray : Value → Value
  | array items => array items
  | v => array [v]

def toText : Value → Value
  | string s => string s
  | v => string v.compact

end PathQuery.Value
