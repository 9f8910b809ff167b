import PathQuery.Expr.Basic

namespace PathQuery

inductive Symbol where
  | dot
  | star
  | leftBracket
  | rightBracket
  | leftBrace
  | rightBrace
  | flatten
  | filter
  | pipe
  | or
  | and
  | not
  | comparator (op : Comparator)
  | current
  | ampersand
  | leftParen
  | rightParen
  | comma
  | colon
deriving DecidableEq, Repr

namespace Symbol

def text : Symbol → String
  | dot => "."
  | star => "*"
  | leftBracket => "["
  | rightBracket => "]"
  | leftBrace => "\x7b"
  | rightBrace => "\x7d"
  | flatten => "[]"
  | filter => "[?"
  | pipe => "|"
  | or => "||"
  | and => "&&"
  | not => "!"
  | comparator op => op.text
  | current => "@"
  | ampersand => "&"
  | leftParen => "("
  | rightParen => ")"
  | comma => ","
  | colon => ":"

/-- How tightly the sign binds to what stands on its left; zero ends an expression. -/
def leftPower : Symbol → Nat
  | pipe => 1
  | or => 2
  | and => 3
  | comparator _ => 5
  | flatten => 9
  | star => 20
  | filter => 21
  | dot => 40
  | not => 45
  | leftBrace => 50
  | leftBracket => 55
  | leftParen => 60
  | _ => 0

def closer : Symbol → Symbol
  | leftBrace => rightBrace
  | leftParen => rightParen
  | _ => rightBracket

end Symbol

inductive TokenKind where
  | identifier (name : String)
  | quotedIdentifier (name : String)
  | number (n : Int64)
  | rawString (s : String)
  | literal (value : Value)
  | symbol (s : Symbol)
  | endOfInput

/-- A token with the text it was read from and the number of characters before it. -/
structure Token where
  kind : TokenKind
  text : String
  position : Nat

namespace TokenKind

def isSymbol (s : Symbol) : TokenKind → Bool
  | symbol t => s == t
  | _ => false

def isEnd : TokenKind → Bool
  | endOfInput => true
  | _ => false

def leftPower : TokenKind → Nat
  | symbol s => s.leftPower
  | _ => 0

def describe : TokenKind → String
  | identifier name => "identifier '" ++ name ++ "'"
  | quotedIdentifier name => "quoted identifier \"" ++ name ++ "\""
  | number n => "number " ++ toString n.toInt
  | rawString _ => "raw string"
  | literal _ => "literal"
  | symbol s => "'" ++ s.text ++ "'"
  | endOfInput => "end of expression"

end TokenKind

end PathQuery
