import PathQuery.Number.Binary

namespace PathQuery.Number

structure Scaled where
  digits : Nat
  exponent : Int
deriving DecidableEq, Repr

inductive Tie where
  | up
  | even
deriving DecidableEq, Repr

def digitCount (n : Nat) : Nat := (Nat.toDigits 10 n).length

def leadingExponent (num den : Nat) : Int :=
  if den ≤ num then digitCount (num / den) - 1
  else
    let l := digitCount (den / num)
    if den ≤ num * Nat.pow 10 (l - 1) then 1 - l else -l

namespace Binary

/-- The numbers that read back to a positive float reach from `low` to `high`, and `value` is the
float itself, all three in units of a quarter of its last binary place. The ends belong to the
interval when the mantissa is even. -/
structure Neighbourhood where
  low : Nat
  value : Nat
  high : Nat
  closed : Bool

def neighbourhood (b : Binary) : Neighbourhood where
  low := 4 * b.mantissa - if b.mantissa = Nat.pow 2 52 ∧ b.exponent > -1074 then 1 else 2
  value := 4 * b.mantissa
  high := 4 * b.mantissa + 2
  closed := b.mantissa % 2 == 0

/-- The point of the grid of multiples of `10 ^ k` nearest to the float, if one of the two
multiples around the float reads back to it. -/
def onGrid? (b : Binary) (tie : Tie) (k : Int) : Option Nat :=
  let r := b.neighbourhood
  let up := Nat.pow 2 (b.exponent - 2).toNat * Nat.pow 10 (-k).toNat
  let unit := Nat.pow 2 (2 - b.exponent).toNat * Nat.pow 10 k.toNat
  let inside (d : Nat) : Bool :=
    if r.closed then r.low * up ≤ d * unit && d * unit ≤ r.high * up
    else r.low * up < d * unit && d * unit < r.high * up
  let v := r.value * up
  let d := v / unit
  let nearer := compare (v - d * unit) ((d + 1) * unit - v)
  match decide (0 < d) && inside d, inside (d + 1) with
  | false, false => none
  | true, false => some d
  | false, true => some (d + 1)
  | true, true =>
    match nearer, tie with
    | .lt, _ => some d
    | .gt, _ => some (d + 1)
    | .eq, .up => some (d + 1)
    | .eq, .even => some (if d % 2 = 0 then d else d + 1)

/-- The decimal of fewest digits that reads back to the magnitude of a float other than zero, and
of those the nearest. Seventeen digits always suffice. -/
def shortest (b : Binary) (tie : Tie) : Scaled :=
  let p := leadingExponent (4 * b.mantissa * Nat.pow 2 (b.exponent - 2).toNat)
    (Nat.pow 2 (2 - b.exponent).toNat)
  let grids := (List.range 17).map fun (n : Nat) ↦ p - n
  match grids.findSome? fun k ↦ (b.onGrid? tie k).map fun d ↦ (⟨d, k⟩ : Scaled) with
  | some s => s
  | none => ⟨b.mantissa * Nat.pow 2 b.exponent.toNat, 0⟩

end Binary

end PathQuery.Number
