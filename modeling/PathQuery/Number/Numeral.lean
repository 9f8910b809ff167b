import PathQuery.Number.Shortest

namespace PathQuery.Number

def isDigit (c : Char) : Bool := '0' ≤ c && c ≤ '9'

def ofDigits (ds : List Char) : Nat := Nat.ofDigitChars 10 ds 0

def splitSign : List Char → Bool × List Char
  | '-' :: cs => (true, cs)
  | '+' :: cs => (false, cs)
  | cs => (false, cs)

def readInt64? (cs : List Char) : Option Int64 :=
  let (negative, ds) := splitSign cs
  if ds ≠ [] ∧ ds.all isDigit then
    toInt64? (if negative then -(ofDigits ds : Int) else ofDigits ds)
  else none

/-- An unsigned decimal numeral `digits * 10 ^ exponent`: digits with at most one point among or
around them, then possibly `e` with an exponent. -/
def readScaled? (cs : List Char) : Option Scaled :=
  let whole := cs.takeWhile isDigit
  let rest := cs.dropWhile isDigit
  let (fraction, rest) :=
    match rest with
    | '.' :: r => (r.takeWhile isDigit, r.dropWhile isDigit)
    | r => ([], r)
  if whole = [] ∧ fraction = [] then none
  else
    let digits := ofDigits (whole ++ fraction)
    match rest with
    | [] => some ⟨digits, -fraction.length⟩
    | c :: r =>
      let (negative, ds) := splitSign r
      if (c = 'e' ∨ c = 'E') ∧ ds ≠ [] ∧ ds.all isDigit then
        let e : Int := if negative then -(ofDigits ds : Int) else ofDigits ds
        some ⟨digits, e - fraction.length⟩
      else none

namespace Scaled

/-- The float nearest to a decimal. A magnitude outside 10^-400 to 10^310 needs no arithmetic. -/
def toFloat (s : Scaled) : Float :=
  let e := s.exponent + digitCount s.digits
  if s.digits = 0 ∨ e < -400 then 0.0
  else if e > 310 then 1.0 / 0.0
  else Float.ofScientific s.digits (s.exponent < 0) s.exponent.natAbs

end Scaled

/-- Reads a float numeral, or in any case of letters `inf`, `infinity` or `nan`, with one sign
before it or none. -/
def readFloat? (cs : List Char) : Option Float :=
  let (negative, body) := splitSign cs
  let name := String.ofList (body.map Char.toLower)
  let magnitude : Option Float :=
    if name = "inf" ∨ name = "infinity" then some (1.0 / 0.0)
    else if name = "nan" then some (0.0 / 0.0)
    else (readScaled? body).map Scaled.toFloat
  magnitude.map fun x ↦ if negative then -x else x

end PathQuery.Number
