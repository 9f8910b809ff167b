import PathQuery.Function.Builtin
import PathQuery.Json.Basic
import PathQuery.Token.Lexer

namespace PathQuery

inductive NullCheck where
  /-- By `if let` and `else`. -/
  | explicitIf
  /-- By the combinators of `Option`. -/
  | coalescing
deriving DecidableEq, Repr

namespace NullCheck

def all : List NullCheck := [explicitIf, coalescing]

def text : NullCheck → String
  | explicitIf => "explicit-if"
  | coalescing => "null-coalescing"

def ofText? (s : String) : Option NullCheck := all.find? (·.text == s)

def unknownMessage (s : String) : String :=
  "unknown null check style '" ++ s ++ "' (expected explicit-if or null-coalescing)"

end NullCheck

inductive Setting where
  | temporaries
  | nullCheck
  | support
  | input
deriving DecidableEq, Repr

namespace Setting

def all : List Setting := [temporaries, nullCheck, support, input]

def key : Setting → String
  | temporaries => "variableNamePrefix"
  | nullCheck => "nullCheckStyle"
  | support => "functionSupportNamespace"
  | input => "inputVariable"

def ofKey? (key : String) : Option Setting := all.find? (·.key == key)

end Setting

structure AccessorConfig where
  /-- What the names of temporaries start with. -/
  temporaries : String := "jp_"
  nullCheck : NullCheck := .explicitIf
  /-- The path of the module with the support functions. -/
  support : String := "jmes_lang::runtime"
  /-- The variable that holds the document. -/
  input : String := "input"
deriving DecidableEq, Repr

inductive ConfigFault where
  | notIdentifier (what value : String)
  | notPath (what value : String)
  | collision (input temporaries : String)
deriving DecidableEq, Repr

def ConfigFault.message : ConfigFault → String
  | notIdentifier what value => what ++ " '" ++ value ++ "' is not a valid Rust identifier"
  | notPath what value => what ++ " '" ++ value ++ "' is not a valid Rust path"
  | collision input temporaries =>
    "inputVariable '" ++ input ++ "' collides with temporaries prefixed '" ++ temporaries ++ "'"

inductive AccessorError where
  | unsupported (kindName : String)
  | badArguments (function : String) (fault : ArgumentFault)
  | invalidConfig (fault : ConfigFault)
deriving DecidableEq, Repr

def AccessorError.message : AccessorError → String
  | unsupported kindName => "cannot generate code for " ++ kindName ++ " expressions"
  | badArguments function fault =>
    "invalid arguments to " ++ function ++ "(): " ++ fault.message
  | invalidConfig fault => "invalid codegen config: " ++ fault.message

def pathSegments : List Char → List (List Char)
  | [] => [[]]
  | ':' :: ':' :: cs => [] :: pathSegments cs
  | c :: cs =>
    match pathSegments cs with
    | [] => [[c]]
    | s :: ss => (c :: s) :: ss

def checkIdentifier (what value : String) : Except ConfigFault Unit :=
  if Lexer.isName value.toList then .ok () else .error (.notIdentifier what value)

def checkPath (what value : String) : Except ConfigFault Unit :=
  if (pathSegments value.toList).all Lexer.isName then .ok () else .error (.notPath what value)

namespace AccessorConfig

def check (c : AccessorConfig) : Except ConfigFault Unit := do
  checkIdentifier Setting.temporaries.key c.temporaries
  checkIdentifier Setting.input.key c.input
  checkPath Setting.support.key c.support
  if c.temporaries.toList.isPrefixOf c.input.toList then
    .error (.collision c.input c.temporaries)
  else .ok ()

def setText (c : AccessorConfig) (s : Setting) (value : String) : AccessorConfig :=
  match s with
  | .temporaries => { c with temporaries := value }
  | .support => { c with support := value }
  | .input => { c with input := value }
  | .nullCheck => c

def toJson (c : AccessorConfig) : Json :=
  .object (Entries.sortPairs
    [(Setting.temporaries.key, .string c.temporaries),
      (Setting.nullCheck.key, .string c.nullCheck.text),
      (Setting.support.key, .string c.support),
      (Setting.input.key, .string c.input)])

end AccessorConfig

end PathQuery
