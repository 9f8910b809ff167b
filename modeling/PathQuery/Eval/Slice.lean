import PathQuery.Number.Binary

namespace PathQuery.Slice

def resolveIndex (len : Nat) (index : Int64) : Option Nat :=
  let i := if index < 0 then Int64.ofNat len + index else index
  if 0 ≤ i ∧ i.toInt.toNat < len then some i.toInt.toNat else none

/-- An end of a slice among `len` elements: counted from the end if it is negative, and brought
into range. -/
def clamp (len endpoint step : Int64) : Int64 :=
  if endpoint < 0 then
    let shifted := endpoint + len
    if 0 ≤ shifted then shifted else if step < 0 then -1 else 0
  else if len ≤ endpoint then if step < 0 then len - 1 else len
  else endpoint

def before (i stop step : Int64) : Bool := (0 < step && i < stop) || (step < 0 && stop < i)

/-- The positions from `i` on, by steps that stay within a word, at most the given number of
them. -/
def walk (len stop step : Int64) : Nat → Int64 → List Nat
  | 0, _ => []
  | n + 1, i =>
    if before i stop step then
      let later :=
        match Number.toInt64? (i.toInt + step.toInt) with
        | some i => walk len stop step n i
        | none => []
      if 0 ≤ i ∧ i < len then i.toInt.toNat :: later else later
    else []

/-- The positions that a slice selects among `len` elements. A step of zero selects none, and no
slice selects more than `len`. -/
def positions (len : Nat) (start stop step : Option Int64) : List Nat :=
  let size := Int64.ofNat len
  let step := step.getD 1
  if step = 0 then []
  else
    let first := if 0 < step then 0 else size - 1
    let last := if 0 < step then size else -1
    walk size ((stop.map (clamp size · step)).getD last) step len
      ((start.map (clamp size · step)).getD first)

end PathQuery.Slice
