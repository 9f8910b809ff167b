import PathQuery.Number.Decimal
import PathQuery.Number.Numeral
import PathQuery.Text.Blank
import PathQuery.Value.Basic

namespace PathQuery.Value

/-- The least integer has no positive counterpart of its kind and becomes a float. -/
def absolute : Value → Value
  | int n => if n = Int64.minValue then float (Number.ofInt64 n).abs else int n.abs
  | float x => float x.abs
  | _ => null

/-- A whole number where the rounded one fits an integer. A float beyond that range has no
fraction. -/
def rounded (round : Number.Binary → Int) : Value → Value
  | int n => int n
  | float x =>
    match (Number.Binary.ofFloat? x).bind fun b ↦ Number.toInt64? (round b) with
    | some n => int n
    | none => float x
  | _ => null

def intSum? (items : List Value) : Option Int64 :=
  items.foldlM (fun total v ↦
    match v with
    | int n => Number.toInt64? (total.toInt + n.toInt)
    | _ => none) 0

def decimal? : Value → Option Number.Decimal
  | int n => some (.ofInt n.toInt)
  | float x => Number.Decimal.ofFloat? x
  | _ => some .zero

def decimalSum? (items : List Value) : Option Number.Decimal :=
  items.foldlM (fun total v ↦ do total.add? (← v.decimal?)) .zero

def floatSum (items : List Value) : Float := (items.filterMap toFloat?).foldl (· + ·) (-0.0)

/-- Integers stay integers as long as their sum is one; floats are summed in decimal places. -/
def sum (items : List Value) : Value :=
  match intSum? items with
  | some n => int n
  | none =>
    match decimalSum? items with
    | some d => float d.toFloat
    | none => float (floatSum items)

def average (items : List Value) : Value :=
  if items.isEmpty then null
  else
    match decimalSum? items with
    | some d => float (d.divide items.length).toFloat
    | none => float (floatSum items / Float.ofNat items.length)

def toNumber : Value → Value
  | int n => int n
  | float x => float x
  | string s =>
    let cs := Text.trim s.toList
    match Number.readInt64? cs with
    | some n => int n
    | none =>
      match Number.readFloat? cs with
      | some x => if x.isFinite then float x else null
      | none => null
  | _ => null

end PathQuery.Value
