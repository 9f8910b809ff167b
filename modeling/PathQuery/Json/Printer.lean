import PathQuery.Json.Basic
import PathQuery.Number.Layout
import PathQuery.Text.Quoted

namespace PathQuery

def JsonNumber.text : JsonNumber → String
  | natural n => toString n.toNat
  | negative n => toString n.toInt
  | float x => Number.Layout.document.text x

namespace Json

def quoted (s : String) : String := Text.quote Text.documentEscape s

mutual

def compact : Json → String
  | null => "null"
  | bool b => if b then "true" else "false"
  | number n => n.text
  | string s => quoted s
  | array items => "[" ++ ",".intercalate (compactItems items) ++ "]"
  | object entries => "\x7b" ++ ",".intercalate (compactEntries entries) ++ "\x7d"
termination_by structural j => j

def compactItems : List Json → List String
  | [] => []
  | j :: js => compact j :: compactItems js
termination_by structural js => js

def compactEntries : List (String × Json) → List String
  | [] => []
  | (k, j) :: es => (quoted k ++ ":" ++ compact j) :: compactEntries es
termination_by structural es => es

end

end Json

end PathQuery
