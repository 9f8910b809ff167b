import PathQuery.Accessor.Config
import PathQuery.Json.Reader

namespace PathQuery.Json.Read

variable {α : Type}

/-- What stands where another kind of value was expected. Of an array or object only the bracket is
looked at. -/
def found : ReadM Found := do
  match ← peek with
  | some 'n' => skip; word ['u', 'l', 'l']; pure .null
  | some 't' => skip; word ['r', 'u', 'e']; pure (.bool true)
  | some 'f' => skip; word ['a', 'l', 's', 'e']; pure (.bool false)
  | some '-' => skip; .number <$> number true
  | some '"' => skip; .string <$> stringBody
  | some '[' => pure .array
  | some '\x7b' => pure .object
  | some c => if Number.isDigit c then .number <$> number false else fail .expectedValue
  | none => fail .expectedValue

def wrongKind (expected : String) : ReadM α := do
  failHere (.wrongKind (← found) expected)

def text (expected : String) : ReadM String := do
  match ← peekToken with
  | none => fail .endInValue
  | some '"' => skip; stringBody
  | some _ => wrongKind expected

def skipNumber : ReadM Unit := do
  match ← peek with
  | some c =>
    if Number.isDigit c then
      if c = '0' then skip else let _ ← takeWhile Number.isDigit
      if c = '0' ∧ (← peek).any Number.isDigit then fail .invalidNumber
    else fail .invalidNumber
  | none => fail .invalidNumber
  if (← peek) = some '.' then
    skip
    if (← takeWhile Number.isDigit).isEmpty then fail .invalidNumber
  if (← peek) = some 'e' ∨ (← peek) = some 'E' then
    skip
    let _ ← exponentSign
    if (← takeWhile Number.isDigit).isEmpty then fail .invalidNumber

/-- The escape of a string that is passed over: any four hexadecimal digits will do. -/
def skipEscape : ReadM Unit := do
  match ← peek with
  | none => fail .endInString
  | some 'u' =>
    skip
    let _ ← hexUnit
  | some c => if (letterEscape? c).isSome then skip else fail .invalidEscape

def skipString : Nat → ReadM Unit
  | 0 => fail .endInString
  | n + 1 => do
    match ← peek with
    | none => fail .endInString
    | some '"' => skip
    | some '\\' => skip; skipEscape; skipString n
    | some c => if c.toNat < 0x20 then failHere .controlCharacter else skip; skipString n

def skipKey : ReadM Unit := do
  match ← peekToken with
  | none => fail .endInObject
  | some '"' =>
    skip
    skipString ((← remaining) + 1)
    colon
  | some _ => fail .keyNotString

def skipElements (element : ReadM Unit) : Nat → ReadM Unit
  | 0 => fail .endInArray
  | n + 1 => do
    match ← peekToken with
    | none => fail .endInArray
    | some ']' => skip
    | some ',' => skip; element; skipElements element n
    | some _ => fail .expectedCommaInArray

def skipMembers (member : ReadM Unit) : Nat → ReadM Unit
  | 0 => fail .endInObject
  | n + 1 => do
    match ← peekToken with
    | none => fail .endInObject
    | some '\x7d' => skip
    | some ',' => skip; member; skipMembers member n
    | some _ => fail .expectedCommaInObject

def skipValue : Nat → ReadM Unit
  | 0 => fail .endInValue
  | n + 1 => do
    match ← peekToken with
    | none => fail .endInValue
    | some 'n' => skip; word ['u', 'l', 'l']
    | some 't' => skip; word ['r', 'u', 'e']
    | some 'f' => skip; word ['a', 'l', 's', 'e']
    | some '-' => skip; skipNumber
    | some '"' =>
      skip
      skipString ((← remaining) + 1)
    | some '[' =>
      skip
      match ← peekToken with
      | none => fail .endInArray
      | some ']' => skip
      | some _ =>
        skipValue n
        skipElements (skipValue n) ((← remaining) + 1)
    | some '\x7b' =>
      skip
      let member : ReadM Unit := do
        skipKey
        skipValue n
      match ← peekToken with
      | none => fail .endInObject
      | some '\x7d' => skip
      | some _ =>
        member
        skipMembers member ((← remaining) + 1)
    | some c => if Number.isDigit c then skipNumber else fail .expectedValue

end Json.Read

open Json Json.Read

namespace NullCheck

def named (name : String) : ReadM NullCheck :=
  match ofText? name with
  | some style => pure style
  | none => failHere (.unknownChoice name (all.map text))

def reader : ReadM NullCheck := do
  match ← peekToken with
  | none => fail .endInValue
  | some '"' => named (← Read.text "variant identifier")
  | some '\x7b' =>
    skip
    let style ← named (← Read.text "variant identifier")
    colon
    match ← peekToken with
    | none => fail .endInValue
    | some 'n' => skip; word ['u', 'l', 'l']
    | some _ => wrongKind "unit"
    match ← peekToken with
    | none => fail .endInObject
    | some '\x7d' => skip; pure style
    | some _ => failHere .expectedValue
  | some _ => fail .expectedValue

end NullCheck

namespace AccessorConfig

structure Draft where
  config : AccessorConfig
  seen : List Setting

def readSetting (c : AccessorConfig) (s : Setting) : ReadM AccessorConfig :=
  match s with
  | .nullCheck => return { c with nullCheck := ← NullCheck.reader }
  | _ => return c.setText s (← Read.text "a string")

/-- The end of an object is looked for before a repeated key in it is reported. -/
def repeated {α : Type} (s : Setting) : ReadM α := do
  match ← peekToken with
  | some '\x7d' => skip
  | _ => pure ()
  failHere (.repeatedField s.key)

def readMember (d : Draft) (key : String) : ReadM Draft :=
  match Setting.ofKey? key with
  | none => do
    colon
    skipValue ((← remaining) + 1)
    pure d
  | some s => do
    if s ∈ d.seen then repeated s
    else
      colon
      return ⟨← readSetting d.config s, s :: d.seen⟩

def readElements : List Setting → Bool → AccessorConfig → ReadM AccessorConfig
  | [], _, c => do
    match ← peekToken with
    | none => fail .endInArray
    | some ']' => skip; pure c
    | some ',' =>
      skip
      match ← peekToken with
      | some ']' => fail .trailingComma
      | _ => fail .trailingCharacters
    | some _ => fail .trailingCharacters
  | s :: ss, isFirst, c => do
    match ← peekToken with
    | none => fail .endInArray
    | some ']' => skip; pure c
    | some d =>
      if isFirst then readElements ss false (← readSetting c s)
      else if d = ',' then
        skip
        match ← peekToken with
        | none => fail .endInValue
        | some ']' => fail .trailingComma
        | some _ => readElements ss false (← readSetting c s)
      else fail .expectedCommaInArray

def reader : ReadM AccessorConfig := do
  match ← peekToken with
  | none => fail .endInValue
  | some '[' => skip; readElements Setting.all true {}
  | some '\x7b' =>
    skip
    return (← members readMember ⟨{}, []⟩).config
  | some _ => wrongKind "struct CodegenConfig"

def ofText (text : String) : Except Json.Error AccessorConfig := Read.run reader text.toList

end AccessorConfig

end PathQuery
