import PathQuery.Number.Shortest

namespace PathQuery.Number

structure Layout where
  /-- The exponents of the leading digit that are written positionally. -/
  positional : Int → Bool
  /-- Whether a whole number keeps `.0`. -/
  pointZero : Bool
  /-- Whether a positive exponent carries its sign. -/
  plus : Bool
  tie : Tie
  /-- The texts of what is not finite. -/
  infinity : String
  minusInfinity : String
  nan : String

namespace Layout

/-- Positional at every size, whole numbers without a point. -/
def plain : Layout where
  positional := fun _ ↦ true
  pointZero := false
  plus := false
  tie := .up
  infinity := "inf"
  minusInfinity := "-inf"
  nan := "NaN"

/-- Positional from 0.0001 up to 10^16. -/
def literal : Layout where
  positional := fun e ↦ -4 ≤ e && e < 16
  pointZero := true
  plus := false
  tie := .up
  infinity := "inf"
  minusInfinity := "-inf"
  nan := "NaN"

/-- Positional from 0.00001 up to 10^16; what is not finite has no number in a document. -/
def document : Layout where
  positional := fun e ↦ -5 ≤ e && e < 16
  pointZero := true
  plus := true
  tie := .even
  infinity := "null"
  minusInfinity := "null"
  nan := "null"

def stripZeros (ds : List Char) : List Char :=
  (ds.reverse.dropWhile (· == '0')).reverse

def fixed (l : Layout) (ds : List Char) (e : Int) : List Char :=
  let whole := (e + 1).toNat
  let lead := if e < 0 then ['0'] else ds.take whole ++ List.replicate (whole - ds.length) '0'
  let tail := if e < 0 then List.replicate (-e - 1).toNat '0' ++ ds else ds.drop whole
  if tail.isEmpty then lead ++ (if l.pointZero then ['.', '0'] else [])
  else lead ++ '.' :: tail

def exponential (l : Layout) (ds : List Char) (e : Int) : List Char :=
  let tail := ds.drop 1
  ds.take 1 ++ (if tail.isEmpty then [] else '.' :: tail) ++
    'e' :: ((if l.plus && 0 ≤ e then ['+'] else []) ++ (toString e).toList)

def magnitude (l : Layout) (b : Binary) : List Char :=
  if b.mantissa = 0 then l.fixed ['0'] 0
  else
    let s := b.shortest l.tie
    let digits := Nat.toDigits 10 s.digits
    let e := s.exponent + digits.length - 1
    let ds := stripZeros digits
    if l.positional e then l.fixed ds e else l.exponential ds e

def text (l : Layout) (x : Float) : String :=
  match Binary.ofFloat? x with
  | some b => String.ofList ((if b.negative then ['-'] else []) ++ l.magnitude b)
  | none => if x.isNaN then l.nan else if x < 0 then l.minusInfinity else l.infinity

end Layout

end PathQuery.Number
