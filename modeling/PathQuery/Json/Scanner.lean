import PathQuery.Json.Fault
import PathQuery.Number.Numeral

namespace PathQuery.Json

/-- What is left of a text, and the bytes read before it. -/
structure Cursor where
  offset : Nat
  rest : List Char

abbrev Stop := Fault × Nat

abbrev ReadM := EStateM Stop Cursor

namespace Read

def failHere {α : Type} (f : Fault) : ReadM α := fun c ↦ .error (f, c.offset) c

def fail {α : Type} (f : Fault) : ReadM α := fun c ↦
  .error (f, if c.rest.isEmpty then c.offset else c.offset + 1) c

def peek : ReadM (Option Char) := fun c ↦ .ok c.rest.head? c

def skip : ReadM Unit := fun c ↦
  match c.rest with
  | [] => .ok () c
  | x :: xs => .ok () ⟨c.offset + x.utf8Size, xs⟩

def isSpace (c : Char) : Bool := c == ' ' || c == '\n' || c == '\t' || c == '\r'

def byteSize (cs : List Char) : Nat := cs.foldl (· + ·.utf8Size) 0

def takeWhile (p : Char → Bool) : ReadM (List Char) := fun c ↦
  let taken := c.rest.takeWhile p
  .ok taken ⟨c.offset + byteSize taken, c.rest.dropWhile p⟩

def skipSpace : ReadM Unit := do
  let _ ← takeWhile isSpace

def peekToken : ReadM (Option Char) := do
  skipSpace
  peek

def remaining : ReadM Nat := fun c ↦ .ok c.rest.length c

def word : List Char → ReadM Unit
  | [] => pure ()
  | x :: xs => do
    match ← peek with
    | none => fail .endInValue
    | some c => if c = x then skip; word xs else fail .expectedWord

def hexValue? (c : Char) : Option Nat :=
  if '0' ≤ c ∧ c ≤ '9' then some (c.toNat - 48)
  else if 'a' ≤ c ∧ c ≤ 'f' then some (c.toNat - 87)
  else if 'A' ≤ c ∧ c ≤ 'F' then some (c.toNat - 55)
  else none

def hexNumber? (cs : List Char) : Option Nat :=
  cs.foldlM (fun n c ↦ (hexValue? c).map (16 * n + ·)) 0

/-- Four hexadecimal digits. Four bytes are read before they are looked at. -/
def hexUnit : ReadM Nat := fun c ↦
  let digits := c.rest.take 4
  let size := byteSize digits
  if size < 4 then .error (.endInString, c.offset + size) c
  else
    match hexNumber? digits with
    | some n => .ok n ⟨c.offset + 4, c.rest.drop 4⟩
    | none => .error (.invalidEscape, c.offset + 4) c

def surrogateLink (expected : Char) : ReadM Unit := do
  match ← peek with
  | none => fail .endInString
  | some c => if c = expected then skip else fail .unfinishedSurrogate

/-- What follows `\u`: a code point, or a surrogate pair written as two escapes. -/
def unicodeEscape : ReadM Char := do
  let n ← hexUnit
  if 0xDC00 ≤ n ∧ n ≤ 0xDFFF then failHere .loneSurrogate
  else if n < 0xD800 ∨ 0xDBFF < n then pure (Char.ofNat n)
  else
    surrogateLink '\\'
    surrogateLink 'u'
    let m ← hexUnit
    if m < 0xDC00 ∨ 0xDFFF < m then failHere .loneSurrogate
    else pure (Char.ofNat (0x10000 + (n - 0xD800) * 0x400 + (m - 0xDC00)))

def letterEscape? : Char → Option Char
  | '"' => some '"'
  | '\\' => some '\\'
  | '/' => some '/'
  | 'b' => some '\x08'
  | 'f' => some '\x0c'
  | 'n' => some '\n'
  | 'r' => some '\r'
  | 't' => some '\t'
  | _ => none

def escaped : ReadM Char := do
  match ← peek with
  | none => fail .endInString
  | some 'u' => skip; unicodeEscape
  | some c =>
    match letterEscape? c with
    | some d => skip; pure d
    | none => fail .invalidEscape

def stringChars : Nat → ReadM (List Char)
  | 0 => fail .endInString
  | n + 1 => do
    match ← peek with
    | none => fail .endInString
    | some '"' => skip; pure []
    | some '\\' =>
      skip
      let c ← escaped
      let cs ← stringChars n
      pure (c :: cs)
    | some c =>
      if c.toNat < 0x20 then fail .controlCharacter
      else
        skip
        let cs ← stringChars n
        pure (c :: cs)

def stringBody : ReadM String := do
  let n ← remaining
  return String.ofList (← stringChars (n + 1))

/-- Takes digits in as long as the number stays below 2^64, and gives the others back. -/
def absorb : Nat → List Char → Nat × List Char
  | n, [] => (n, [])
  | n, d :: ds =>
    let m := 10 * n + (d.toNat - 48)
    if m < Nat.pow 2 64 then absorb m ds else (n, d :: ds)

def shrink : Nat → Float → Float
  | 0, x => x
  | n + 1, x => if x == 0.0 then x else shrink n (x / 1e308)

def powerOfTen (n : Nat) : Float := Float.ofScientific 1 false n

/-- The float `significand * 10 ^ exponent`, by one multiplication or by divisions. There is none
if it would be infinite. -/
def scaleTen (significand : Nat) (exponent : Int) : Option Float :=
  let x := Float.ofNat significand
  if exponent > 308 then if x == 0.0 then some x else none
  else if exponent ≥ 0 then
    let y := x * powerOfTen exponent.toNat
    if y.isInf then none else some y
  else
    let turns := (-exponent - 1).toNat / 308
    some (shrink turns x / powerOfTen ((-exponent).toNat - 308 * turns))

def signed (negative : Bool) (x : Float) : JsonNumber := .float (if negative then -x else x)

/-- The digits of an exponent; nothing as soon as it passes 2^31 - 1. -/
def exponentDigits : Nat → Nat → ReadM (Option Nat)
  | 0, e => pure (some e)
  | n + 1, e => do
    match ← peek with
    | none => pure (some e)
    | some c =>
      if Number.isDigit c then
        skip
        let e := 10 * e + (c.toNat - 48)
        if e < Nat.pow 2 31 then exponentDigits n e else pure none
      else pure (some e)

def scaled (negative : Bool) (significand : Nat) (exponent : Int) : ReadM JsonNumber :=
  match scaleTen significand exponent with
  | some x => pure (signed negative x)
  | none => failHere .numberOutOfRange

def exponentSign : ReadM Bool := do
  match ← peek with
  | some '-' => skip; pure true
  | some '+' => skip; pure false
  | _ => pure false

def exponentPart (negative : Bool) (significand : Nat) (exponent : Int) : ReadM JsonNumber := do
  let down ← exponentSign
  match ← peek with
  | none => fail .endInValue
  | some c =>
    if Number.isDigit c then
      match ← exponentDigits ((← remaining) + 1) 0 with
      | some e => scaled negative significand (if down then exponent - e else exponent + e)
      | none =>
        if significand ≠ 0 ∧ !down then failHere .numberOutOfRange
        else
          let _ ← takeWhile Number.isDigit
          pure (signed negative 0.0)
    else fail .invalidNumber

def floatEnd (negative : Bool) (significand : Nat) (exponent : Int) : ReadM JsonNumber := do
  match ← peek with
  | some 'e' => skip; exponentPart negative significand exponent
  | some 'E' => skip; exponentPart negative significand exponent
  | _ => scaled negative significand exponent

def fractionPart (negative : Bool) (significand : Nat) (exponent : Int) : ReadM JsonNumber := do
  let digits ← takeWhile Number.isDigit
  if digits.isEmpty then
    match ← peek with
    | none => fail .endInValue
    | some _ => fail .invalidNumber
  else
    let (significand, left) := absorb significand digits
    floatEnd negative significand (exponent - (digits.length - left.length : Nat))

def integer (negative : Bool) (n : Nat) : JsonNumber :=
  if !negative then .natural (UInt64.ofNat n)
  else if 0 < n ∧ n ≤ Nat.pow 2 63 then .negative (Int64.ofInt (-n))
  else .float (-Float.ofNat n)

def number (negative : Bool) : ReadM JsonNumber := do
  match ← peek with
  | none => fail .endInValue
  | some c =>
    if !Number.isDigit c then fail .invalidNumber
    else
      let digits ← if c = '0' then skip; pure [c] else takeWhile Number.isDigit
      let (significand, left) := absorb 0 digits
      match ← peek with
      | some '.' => skip; fractionPart negative significand left.length
      | some d =>
        if d = 'e' ∨ d = 'E' then skip; exponentPart negative significand left.length
        else if c = '0' ∧ Number.isDigit d then fail .invalidNumber
        else if left.isEmpty then pure (integer negative significand)
        else scaled negative significand left.length
      | none =>
        if left.isEmpty then pure (integer negative significand)
        else scaled negative significand left.length

end Read

end PathQuery.Json
