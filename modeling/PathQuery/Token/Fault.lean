import PathQuery.Json.Fault
import PathQuery.Token.Basic

namespace PathQuery

inductive Delimited where
  | quotedIdentifier
  | rawString
  | literal
deriving DecidableEq, Repr

namespace Delimited

def delimiter : Delimited → Char
  | quotedIdentifier => '"'
  | rawString => '\x27'
  | literal => '\x60'

def name : Delimited → String
  | quotedIdentifier => "quoted identifier"
  | rawString => "raw string"
  | literal => "literal"

end Delimited

inductive Place where
  | afterExpression
  | afterCompleteExpression
  | atStart
  | afterDot
  | afterProjection
  | insideBracket
  | inIndexOrSlice
  | inSlice
  | inHash
  | afterHashKey
  | afterArgumentComma
  | beforeCloser (s : Symbol)
deriving DecidableEq, Repr

def Place.text : Place → String
  | afterExpression => "after expression"
  | afterCompleteExpression => "after complete expression"
  | atStart => "at start of expression"
  | afterDot => "after '.'"
  | afterProjection => "after projection (expected '.', '[' or '[?')"
  | insideBracket => "inside '[' (expected an index, slice or '*')"
  | inIndexOrSlice => "in index or slice"
  | inSlice => "in slice (expected ':' or ']')"
  | inHash => "in multi-select hash (expected a key)"
  | afterHashKey => "after multi-select hash key (expected ':')"
  | afterArgumentComma => "after ',' in function arguments"
  | beforeCloser s => "(expected " ++ (TokenKind.symbol s).describe ++ ")"

inductive Missing where
  | closer (s : Symbol)
  | indexSliceOrStar
  | key
deriving DecidableEq, Repr

def Missing.text : Missing → String
  | closer s => (TokenKind.symbol s).describe
  | indexSliceOrStar => "an index, slice or '*'"
  | key => "a key"

inductive SyntaxFault where
  | unterminated (what : Delimited)
  | invalidQuotedIdentifier (cause : Json.Error)
  | invalidLiteral (cause : Json.Error)
  | loneMinus
  | numberTooLarge (text : String)
  | loneEquals
  | unexpectedCharacter (c : Char)
  | unexpected (found : TokenKind) (place : Place)
  | unclosed (opener : Symbol) (missing : Missing)
  | quotedFunctionName
  | strayReference
  | strayNumber (text : String)
  | endOfExpression
  | endAfterDot
  | notCallable (kindName : String)
  | unknownFunction (name : String)
  | tooManyColons
  | emptyIndex
  | zeroStep
  | emptyHash

def SyntaxFault.message : SyntaxFault → String
  | unterminated what =>
    "unterminated " ++ what.name ++ ": missing closing " ++ String.singleton what.delimiter
  | invalidQuotedIdentifier cause => "invalid quoted identifier: " ++ cause.message
  | invalidLiteral cause => "invalid JSON literal: " ++ cause.message
  | loneMinus => "malformed number: '-' must be followed by a digit"
  | numberTooLarge text => "malformed number: " ++ text
  | loneEquals => "unexpected '=' (did you mean '=='?)"
  | unexpectedCharacter c => "unexpected character '" ++ String.singleton c ++ "'"
  | unexpected found place => "unexpected " ++ found.describe ++ " " ++ place.text
  | unclosed opener missing => "unclosed '" ++ opener.text ++ "': expected " ++ missing.text
  | quotedFunctionName => "quoted identifiers cannot be used as function names"
  | strayReference => "expression references ('&') are only valid as function arguments"
  | strayNumber text =>
    "unexpected number '" ++ text ++ "': numbers are only valid inside brackets"
  | endOfExpression => "unexpected end of expression: expected an expression"
  | endAfterDot => "unexpected end of expression after '.'"
  | notCallable kindName => "'(' after a " ++ kindName ++ " expression: only names can be called"
  | unknownFunction name => "unknown function '" ++ name ++ "'"
  | tooManyColons => "too many ':' in slice: at most start:stop:step"
  | emptyIndex => "empty index"
  | zeroStep => "slice step cannot be 0"
  | emptyHash => "empty multi-select hash: expected at least one key"

structure SyntaxError where
  position : Nat
  fault : SyntaxFault

def SyntaxError.message (e : SyntaxError) : String :=
  "syntax error at position " ++ toString e.position ++ ": " ++ e.fault.message

end PathQuery
