import PathQuery.Json.Scanner

namespace PathQuery.Json

namespace Read

variable {α : Type}

def laterElements (element : α → ReadM α) : Nat → α → ReadM α
  | 0, _ => fail .endInArray
  | n + 1, acc => do
    match ← peekToken with
    | none => fail .endInArray
    | some ']' => skip; pure acc
    | some ',' =>
      skip
      match ← peekToken with
      | none => fail .endInValue
      | some ']' => fail .trailingComma
      | some _ => laterElements element n (← element acc)
    | some _ => fail .expectedCommaInArray

def elements (element : α → ReadM α) (acc : α) : ReadM α := do
  match ← peekToken with
  | none => fail .endInArray
  | some ']' => skip; pure acc
  | some _ =>
    let acc ← element acc
    laterElements element ((← remaining) + 1) acc

def colon : ReadM Unit := do
  match ← peekToken with
  | none => fail .endInObject
  | some ':' => skip
  | some _ => fail .expectedColon

def laterMembers (member : α → String → ReadM α) : Nat → α → ReadM α
  | 0, _ => fail .endInObject
  | n + 1, acc => do
    match ← peekToken with
    | none => fail .endInObject
    | some '\x7d' => skip; pure acc
    | some ',' =>
      skip
      match ← peekToken with
      | none => fail .endInValue
      | some '"' =>
        skip
        let key ← stringBody
        laterMembers member n (← member acc key)
      | some '\x7d' => fail .trailingComma
      | some _ => fail .keyNotString
    | some _ => fail .expectedCommaInObject

def members (member : α → String → ReadM α) (acc : α) : ReadM α := do
  match ← peekToken with
  | none => fail .endInObject
  | some '\x7d' => skip; pure acc
  | some '"' =>
    skip
    let key ← stringBody
    let acc ← member acc key
    laterMembers member ((← remaining) + 1) acc
  | some _ => fail .keyNotString

def valueWith (part : Option (ReadM Json)) : ReadM Json := do
  match ← peekToken with
  | none => fail .endInValue
  | some 'n' => skip; word ['u', 'l', 'l']; pure .null
  | some 't' => skip; word ['r', 'u', 'e']; pure (.bool true)
  | some 'f' => skip; word ['a', 'l', 's', 'e']; pure (.bool false)
  | some '-' => skip; .number <$> number true
  | some '"' => skip; .string <$> stringBody
  | some '[' =>
    match part with
    | none => fail .tooDeep
    | some part =>
      skip
      let items ← elements (fun items ↦ return (← part) :: items) []
      pure (.array items.reverse)
  | some '\x7b' =>
    match part with
    | none => fail .tooDeep
    | some part =>
      skip
      let entries ← members (fun entries key ↦ do
        colon
        return (key, ← part) :: entries) []
      pure (.object entries.reverse)
  | some c => if Number.isDigit c then .number <$> number false else fail .expectedValue

def value : Nat → ReadM Json
  | 0 => valueWith none
  | depth + 1 => valueWith (some (value depth))

def finish : ReadM Unit := do
  match ← peekToken with
  | none => pure ()
  | some _ => fail .trailingCharacters

def maxDepth : Nat := 127

def run (reader : ReadM α) (cs : List Char) : Except Error α :=
  match (do let a ← reader; finish; pure a : ReadM α).run ⟨0, cs⟩ with
  | .ok a _ => .ok a
  | .error (fault, offset) _ => .error ⟨fault, Location.after offset cs⟩

end Read

def readChars (cs : List Char) : Except Error Json := Read.run (Read.value Read.maxDepth) cs

def read (text : String) : Except Error Json := readChars text.toList

def readSorted (text : String) : Except Error Json := sorted <$> read text

end PathQuery.Json
