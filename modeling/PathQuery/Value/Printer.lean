import PathQuery.Number.Layout
import PathQuery.Text.Quoted
import PathQuery.Value.Basic

namespace PathQuery.Value

def quoted (s : String) : String := Text.quote Text.valueEscape s

def lineBreak (pretty : Bool) (level : Nat) : String :=
  if pretty then "\n" ++ String.ofList (List.replicate (2 * level) ' ') else ""

def enclosed (pretty : Bool) (level : Nat) (opening closing : String) : List String → String
  | [] => opening ++ closing
  | texts =>
    opening ++ ",".intercalate (texts.map (lineBreak pretty (level + 1) ++ ·)) ++
      lineBreak pretty level ++ closing

def numberText (x : Float) : String :=
  if x.isFinite then Number.Layout.plain.text x else "null"

mutual

/-- The value as JSON, keys in insertion order. What is not finite has no JSON form and is written
as null. -/
def write (pretty : Bool) (level : Nat) : Value → String
  | null => "null"
  | bool b => if b then "true" else "false"
  | int n => toString n.toInt
  | float x => numberText x
  | string s => quoted s
  | array items => enclosed pretty level "[" "]" (writeItems pretty (level + 1) items)
  | object entries =>
    enclosed pretty level "\x7b" "\x7d" (writeEntries pretty (level + 1) entries)
termination_by structural v => v

def writeItems (pretty : Bool) (level : Nat) : List Value → List String
  | [] => []
  | v :: vs => write pretty level v :: writeItems pretty level vs
termination_by structural vs => vs

def writeEntries (pretty : Bool) (level : Nat) : List (String × Value) → List String
  | [] => []
  | (k, v) :: es =>
    (quoted k ++ (if pretty then ": " else ":") ++ write pretty level v) ::
      writeEntries pretty level es
termination_by structural es => es

end

def compact (v : Value) : String := v.write false 0

def pretty (v : Value) : String := v.write true 0

end PathQuery.Value
