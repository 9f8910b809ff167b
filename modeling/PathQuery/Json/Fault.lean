import PathQuery.Json.Printer

namespace PathQuery.Json

inductive Found where
  | null
  | bool (b : Bool)
  | number (n : JsonNumber)
  | string (s : String)
  | array
  | object

def Found.text : Found → String
  | null => "null"
  | bool b => "boolean `" ++ (if b then "true" else "false") ++ "`"
  | number (.float x) => "floating point `" ++ (JsonNumber.float x).text ++ "`"
  | number n => "integer `" ++ n.text ++ "`"
  | string s => "string " ++ Text.quote Text.literalEscape s
  | array => "sequence"
  | object => "map"

inductive Fault where
  | endInValue
  | endInString
  | endInArray
  | endInObject
  | expectedValue
  | expectedWord
  | invalidNumber
  | numberOutOfRange
  | controlCharacter
  | invalidEscape
  | loneSurrogate
  | unfinishedSurrogate
  | expectedCommaInArray
  | expectedCommaInObject
  | expectedColon
  | keyNotString
  | trailingComma
  | trailingCharacters
  | tooDeep
  | wrongKind (found : Found) (expected : String)
  | unknownChoice (name : String) (choices : List String)
  | repeatedField (name : String)

def Fault.message : Fault → String
  | endInValue => "EOF while parsing a value"
  | endInString => "EOF while parsing a string"
  | endInArray => "EOF while parsing a list"
  | endInObject => "EOF while parsing an object"
  | expectedValue => "expected value"
  | expectedWord => "expected ident"
  | invalidNumber => "invalid number"
  | numberOutOfRange => "number out of range"
  | controlCharacter => "control character (\\u0000-\\u001F) found while parsing a string"
  | invalidEscape => "invalid escape"
  | loneSurrogate => "lone leading surrogate in hex escape"
  | unfinishedSurrogate => "unexpected end of hex escape"
  | expectedCommaInArray => "expected `,` or `]`"
  | expectedCommaInObject => "expected `,` or `\x7d`"
  | expectedColon => "expected `:`"
  | keyNotString => "key must be a string"
  | trailingComma => "trailing comma"
  | trailingCharacters => "trailing characters"
  | tooDeep => "recursion limit exceeded"
  | wrongKind found expected => "invalid type: " ++ found.text ++ ", expected " ++ expected
  | unknownChoice name choices =>
    "unknown variant `" ++ name ++ "`, expected " ++
      " or ".intercalate (choices.map fun c ↦ "`" ++ c ++ "`")
  | repeatedField name => "duplicate field `" ++ name ++ "`"

/-- A place in a text: the line, counted from one, and the bytes that precede it on that line. -/
structure Location where
  line : Nat
  column : Nat
deriving DecidableEq, Repr

def Location.after (offset : Nat) (cs : List Char) : Location :=
  go offset ⟨1, 0⟩ cs
where
  go : Nat → Location → List Char → Location
    | _, l, [] => l
    | n, l, c :: cs =>
      let size := c.utf8Size
      if n < size then { l with column := l.column + n }
      else
        go (n - size) (if c = '\n' then ⟨l.line + 1, 0⟩ else { l with column := l.column + size })
          cs

structure Error where
  fault : Fault
  location : Location

def Error.message (e : Error) : String :=
  e.fault.message ++ " at line " ++ toString e.location.line ++ " column " ++
    toString e.location.column

end PathQuery.Json
