import PathQuery.Json.Reader
import PathQuery.Text.Blank
import PathQuery.Token.Fault

namespace PathQuery

structure TextCursor where
  position : Nat
  rest : List Char

namespace TextCursor

def ofString (text : String) : TextCursor := ⟨0, text.toList⟩

def advance (c : TextCursor) (n : Nat) : TextCursor := ⟨c.position + n, c.rest.drop n⟩

def skipBlanks (c : TextCursor) : TextCursor := c.advance (c.rest.takeWhile Text.isBlank).length

end TextCursor

namespace Lexer

def isNameStart (c : Char) : Bool := ('a' ≤ c && c ≤ 'z') || ('A' ≤ c && c ≤ 'Z') || c == '_'

def isNameChar (c : Char) : Bool := isNameStart c || Number.isDigit c

def isName : List Char → Bool
  | [] => false
  | c :: cs => isNameStart c && cs.all isNameChar

def symbol? : List Char → Option Symbol
  | '[' :: ']' :: _ => some .flatten
  | '[' :: '?' :: _ => some .filter
  | '[' :: _ => some .leftBracket
  | '|' :: '|' :: _ => some .or
  | '|' :: _ => some .pipe
  | '&' :: '&' :: _ => some .and
  | '&' :: _ => some .ampersand
  | '!' :: '=' :: _ => some (.comparator .notEqual)
  | '!' :: _ => some .not
  | '<' :: '=' :: _ => some (.comparator .lessEqual)
  | '<' :: _ => some (.comparator .less)
  | '>' :: '=' :: _ => some (.comparator .greaterEqual)
  | '>' :: _ => some (.comparator .greater)
  | '=' :: '=' :: _ => some (.comparator .equal)
  | '.' :: _ => some .dot
  | '*' :: _ => some .star
  | ',' :: _ => some .comma
  | ':' :: _ => some .colon
  | '@' :: _ => some .current
  | '(' :: _ => some .leftParen
  | ')' :: _ => some .rightParen
  | '\x7b' :: _ => some .leftBrace
  | '\x7d' :: _ => some .rightBrace
  | ']' :: _ => some .rightBracket
  | _ => none

/-- The characters up to a closing delimiter that no backslash precedes, escapes as written. -/
def body? (delimiter : Char) : List Char → Option (List Char)
  | [] => none
  | '\\' :: [] => none
  | '\\' :: c :: cs => (body? delimiter cs).map ('\\' :: c :: ·)
  | c :: cs => if c = delimiter then some [] else (body? delimiter cs).map (c :: ·)

def decode (what : Delimited) (body : List Char) : Except SyntaxFault TokenKind :=
  match what with
  | .quotedIdentifier =>
    let read : Json.ReadM String := do
      Json.Read.skip
      Json.Read.stringBody
    match Json.Read.run read ('"' :: (body ++ ['"'])) with
    | .ok name => .ok (.quotedIdentifier name)
    | .error e => .error (.invalidQuotedIdentifier e)
  | .rawString => .ok (.rawString (String.ofList (Text.dropBefore '\\' '\x27' body)))
  | .literal =>
    match Json.readChars (Text.trim (Text.dropBefore '\\' '\x60' body)) with
    | .ok document => .ok (.literal (Value.ofJson document.sorted))
    | .error e => .error (.invalidLiteral e)

structure Scan where
  width : Nat
  outcome : Except SyntaxFault TokenKind

/-- A delimited token, its opening delimiter being the first of `1 + cs.length` characters. -/
def scanDelimited (what : Delimited) (cs : List Char) : Scan :=
  match body? what.delimiter cs with
  | none => ⟨cs.length + 1, .error (.unterminated what)⟩
  | some body => ⟨body.length + 2, decode what body⟩

/-- A number that starts with the characters of `sign`, which the text does not hold any more. -/
def scanNumber (sign cs : List Char) : Scan :=
  let digits := cs.takeWhile Number.isDigit
  if digits.isEmpty then ⟨sign.length, .error .loneMinus⟩
  else
    let text := sign ++ digits
    match Number.readInt64? text with
    | some n => ⟨text.length, .ok (.number n)⟩
    | none => ⟨text.length, .error (.numberTooLarge (String.ofList text))⟩

def scan : List Char → Scan
  | [] => ⟨0, .ok .endOfInput⟩
  | '"' :: cs => scanDelimited .quotedIdentifier cs
  | '\x27' :: cs => scanDelimited .rawString cs
  | '\x60' :: cs => scanDelimited .literal cs
  | '-' :: cs => scanNumber ['-'] cs
  | c :: cs =>
    match symbol? (c :: cs) with
    | some s => ⟨s.text.length, .ok (.symbol s)⟩
    | none =>
      if Number.isDigit c then scanNumber [] (c :: cs)
      else if isNameStart c then
        let name := (c :: cs).takeWhile isNameChar
        ⟨name.length, .ok (.identifier (String.ofList name))⟩
      else if c = '=' then ⟨0, .error .loneEquals⟩
      else ⟨0, .error (.unexpectedCharacter c)⟩

end Lexer

namespace Token

/-- The next token, or the fault found where it should start. Both leave a cursor to go on from. -/
def next : EStateM SyntaxError TextCursor Token := fun c ↦
  let start := c.skipBlanks
  let s := Lexer.scan start.rest
  let after := start.advance s.width
  match s.outcome with
  | .ok kind => .ok ⟨kind, String.ofList (start.rest.take s.width), start.position⟩ after
  | .error fault => .error ⟨start.position, fault⟩ after

def upToEnd : Nat → EStateM SyntaxError TextCursor (List Token)
  | 0 => pure []
  | n + 1 => do
    let t ← next
    if t.kind.isEnd then pure [t]
    else
      let ts ← upToEnd n
      pure (t :: ts)

def ofString (text : String) : Except SyntaxError (List Token) :=
  match (upToEnd (text.toList.length + 1)).run (TextCursor.ofString text) with
  | .ok tokens _ => .ok tokens
  | .error e _ => .error e

end Token

end PathQuery
