import PathQuery.Text.Invisible

namespace PathQuery.Text

def hex (width n : Nat) : List Char :=
  let ds := Nat.toDigits 16 n
  List.replicate (width - ds.length) '0' ++ ds

abbrev EscapeTable := Char → Option (List Char)

def escape (table : EscapeTable) (cs : List Char) : List Char :=
  cs.flatMap fun c ↦ (table c).getD [c]

def quote (table : EscapeTable) (s : String) : String :=
  String.ofList ('"' :: (escape table s.toList ++ ['"']))

/-- A JSON document escapes the two delimiters and U+0000 to U+001F, the latter by letter where
JSON has one. -/
def documentEscape : EscapeTable
  | '"' => some ['\\', '"']
  | '\\' => some ['\\', '\\']
  | '\x08' => some ['\\', 'b']
  | '\x0c' => some ['\\', 'f']
  | '\n' => some ['\\', 'n']
  | '\r' => some ['\\', 'r']
  | '\t' => some ['\\', 't']
  | c => if c.toNat < 0x20 then some ('\\' :: 'u' :: hex 4 c.toNat) else none

/-- A printed value escapes every control character, U+007F to U+009F included, and knows no
letter for backspace and form feed. -/
def valueEscape : EscapeTable
  | '"' => some ['\\', '"']
  | '\\' => some ['\\', '\\']
  | '\n' => some ['\\', 'n']
  | '\r' => some ['\\', 'r']
  | '\t' => some ['\\', 't']
  | c =>
    if c.toNat < 0x20 || (0x7F ≤ c.toNat && c.toNat ≤ 0x9F) then
      some ('\\' :: 'u' :: hex 4 c.toNat)
    else none

/-- A string literal of generated code escapes what cannot be seen by its code point, in braces. -/
def literalEscape : EscapeTable
  | '"' => some ['\\', '"']
  | '\\' => some ['\\', '\\']
  | '\n' => some ['\\', 'n']
  | '\r' => some ['\\', 'r']
  | '\t' => some ['\\', 't']
  | '\x00' => some ['\\', '0']
  | c =>
    if isInvisible c then some (['\\', 'u', '\x7b'] ++ hex 1 c.toNat ++ ['\x7d']) else none

end PathQuery.Text
