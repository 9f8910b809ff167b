namespace PathQuery.Number

/-- A finite binary64 number: its sign and the magnitude `mantissa * 2 ^ exponent`. -/
structure Binary where
  negative : Bool
  mantissa : Nat
  exponent : Int
deriving DecidableEq, Repr

namespace Binary

/-- Reads the fields of the bit pattern, the hidden bit included; nothing for an infinity or a
NaN. -/
def ofFloat? (x : Float) : Option Binary :=
  let bits := x.toBits.toNat
  -- `Nat.pow` by its name: the instance that `^` stands for depends on the imports.
  let fraction := bits % Nat.pow 2 52
  let biased : Nat := bits / Nat.pow 2 52 % Nat.pow 2 11
  let negative := bits / Nat.pow 2 63 == 1
  if biased = 2047 then none
  else if biased = 0 then some ⟨negative, fraction, -1074⟩
  else some ⟨negative, Nat.pow 2 52 + fraction, (biased : Int) - 1075⟩

def signed (b : Binary) (n : Nat) : Int := if b.negative then -n else n

def floor (b : Binary) : Int :=
  if b.exponent ≥ 0 then b.signed (b.mantissa * Nat.pow 2 b.exponent.toNat)
  else (b.signed b.mantissa).fdiv (Nat.pow 2 (-b.exponent).toNat)

def ceil (b : Binary) : Int :=
  -({ b with negative := !b.negative } : Binary).floor

/-- The nearest integer, a half going away from zero. -/
def round (b : Binary) : Int :=
  if b.exponent ≥ 0 then b.signed (b.mantissa * Nat.pow 2 b.exponent.toNat)
  else
    let d := Nat.pow 2 (-b.exponent).toNat
    b.signed ((2 * b.mantissa + d) / (2 * d))

end Binary

/-- The number an integer has among the floats, the nearest one where it lies between two. -/
def ofInt64 (n : Int64) : Float := Float.ofInt n.toInt

def toInt64? (n : Int) : Option Int64 :=
  if Int64.minValue.toInt ≤ n ∧ n ≤ Int64.maxValue.toInt then some (Int64.ofInt n) else none

end PathQuery.Number
