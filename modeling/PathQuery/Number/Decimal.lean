import PathQuery.Number.Binary

namespace PathQuery.Number

/-- A decimal `± mantissa / 10 ^ scale` with a 96-bit mantissa and at most 28 places. -/
structure Decimal where
  negative : Bool
  mantissa : Nat
  scale : Nat
deriving DecidableEq, Repr

namespace Decimal

def limit : Nat := Nat.pow 2 96

def maxScale : Nat := 28

def zero : Decimal := ⟨false, 0, 0⟩

def make (negative : Bool) (mantissa scale : Nat) : Decimal :=
  ⟨negative && mantissa != 0, mantissa, scale⟩

def ofInt (n : Int) : Decimal := make (n < 0) n.natAbs 0

structure Draft where
  mantissa : Nat
  exponent : Int

namespace Draft

/-- Takes `n` factors of one half out of the magnitude: an even mantissa is halved, an odd one
multiplied by five against a tenth, or, without room for that, halved with a loss. -/
def halve : Nat → Draft → Draft
  | 0, d => d
  | n + 1, ⟨m, e⟩ =>
    if m % 2 = 0 then halve n ⟨m / 2, e + 1⟩
    else if 5 * m < limit then halve n ⟨5 * m, e⟩
    else halve n ⟨m / 2, e + 1⟩

/-- Brings `n` factors of two into the magnitude, `n` being what is left of them. -/
def double : Nat → Draft → Option Draft
  | 0, d => some d
  | n + 1, ⟨m, e⟩ =>
    if m < limit / 2 then double n ⟨2 * m, e - 1⟩
    else if 2 * e > n + 1 then none
    else double n ⟨m / 5, e⟩

def raise : Nat → Draft → Option Draft
  | 0, d => some d
  | n + 1, ⟨m, e⟩ => if 10 * m < limit then raise n ⟨10 * m, e - 1⟩ else none

def dropDigit (d : Draft) : Nat :=
  if d.mantissa % 10 ≥ 5 then d.mantissa / 10 + 1 else d.mantissa / 10

def shorten : Nat → Draft → Draft
  | 0, d => d
  | n + 1, d =>
    if d.mantissa / 10 = 0 then ⟨0, 0⟩ else shorten n ⟨d.dropDigit, d.exponent + 1⟩

/-- Drops places that a binary64 mantissa does not carry. -/
def trimNoise : Nat → Draft → Draft
  | 0, d => d
  | n + 1, d =>
    if d.mantissa ≥ Nat.pow 2 52 then trimNoise n ⟨d.dropDigit, d.exponent + 1⟩ else d

def trimZeros : Nat → Draft → Draft
  | 0, d => d
  | n + 1, d =>
    if d.mantissa % 10 = 0 then trimZeros n ⟨d.mantissa / 10, d.exponent + 1⟩ else d

def settle (d : Draft) : Draft :=
  let d := d.shorten (-28 - d.exponent).toNat
  let d := d.trimNoise (-d.exponent).toNat
  d.trimZeros (-d.exponent).toNat

end Draft

/-- The decimal of some sixteen digits that a float stands for, if the format reaches it. -/
def ofFloat? (x : Float) : Option Decimal := do
  let b ← Binary.ofFloat? x
  if b.mantissa = 0 then some zero
  else
    let start : Draft := ⟨b.mantissa, b.exponent⟩
    let d ← (start.halve (-b.exponent).toNat).double b.exponent.toNat
    let d ← d.raise d.exponent.toNat
    let d := d.settle
    some (make b.negative d.mantissa (-d.exponent).toNat)

/-- The quotient, a half going to the even neighbour. -/
def roundDiv (n d : Nat) : Nat :=
  let q := n / d
  let r := n % d
  if 2 * r > d ∨ (2 * r = d ∧ q % 2 = 1) then q + 1 else q

/-- The magnitude with the most of its places that fit the format. -/
def fit? (negative : Bool) (mantissa scale : Nat) : Option Decimal :=
  (List.range (scale + 1)).findSome? fun drop ↦
    let m := roundDiv mantissa (Nat.pow 10 drop)
    if m < limit then some (make negative m (scale - drop)) else none

def signed (d : Decimal) (scale : Nat) : Int :=
  let m := d.mantissa * Nat.pow 10 (scale - d.scale)
  if d.negative then -m else m

def add? (a b : Decimal) : Option Decimal :=
  if a.mantissa = 0 then some b
  else if b.mantissa = 0 then some a
  else
    let scale := max a.scale b.scale
    let s := a.signed scale + b.signed scale
    fit? (s < 0) s.natAbs scale

def room (q scale : Nat) : Nat :=
  let most := min 9 (maxScale - scale)
  let fits (p : Nat) : Bool := q * Nat.pow 10 p + Nat.pow 10 p - 1 < limit
  ((List.range most).map (most - ·)).find? fits |>.getD 0

/-- Long division by `n`: quotient `q` with `scale` places, remainder `r`, at most as many further
steps as there are places left. -/
def longDivision (n : Nat) : Nat → Nat → Nat → Nat → Nat × Nat
  | 0, q, r, scale => (roundDiv (q * n + r) n, scale)
  | steps + 1, q, r, scale =>
    if r = 0 then (q, scale)
    else
      let p := room q scale
      if p = 0 then (roundDiv (q * n + r) n, scale)
      else
        let m := (q * n + r) * Nat.pow 10 p
        longDivision n steps (m / n) (m % n) (scale + p)

/-- Divides `count` zeros off, if the scale has them and the low `bits` bits are zero. -/
def dropZeros (count bits : Nat) (d : Nat × Nat) : Nat × Nat :=
  if d.1 % Nat.pow 2 bits = 0 ∧ count ≤ d.2 ∧ d.1 % Nat.pow 10 count = 0 then
    (d.1 / Nat.pow 10 count, d.2 - count)
  else d

/-- The quotient by a positive integer; one that does not come out even loses zeros at its end. -/
def divide (d : Decimal) (n : Nat) : Decimal :=
  if d.mantissa = 0 then zero
  else if d.mantissa % n = 0 then make d.negative (d.mantissa / n) d.scale
  else
    let long := longDivision n (maxScale + 1) (d.mantissa / n) (d.mantissa % n) d.scale
    let eights := dropZeros 8 32 (dropZeros 8 32 (dropZeros 8 32 long))
    let (q, scale) := dropZeros 1 1 (dropZeros 2 2 (dropZeros 4 4 eights))
    make d.negative q scale

def floatPower (s : Nat) : Float :=
  go s s 1.0 10.0
where
  go : Nat → Nat → Float → Float → Float
    | 0, _, r, _ => r
    | fuel + 1, s, r, a =>
      let r := if s % 2 = 1 then r * a else r
      if s / 2 = 0 then r else go fuel (s / 2) r (a * a)

/-- The whole part and the fraction are converted apart, and their sum is rounded to the places
that the decimal has. -/
def toFloat (d : Decimal) : Float :=
  let magnitude : Float :=
    if d.scale = 0 then Float.ofNat d.mantissa
    else
      let whole := Float.ofNat (d.mantissa / Nat.pow 10 d.scale)
      let fraction :=
        Float.ofNat (d.mantissa % Nat.pow 10 d.scale) / Float.ofNat (Nat.pow 10 d.scale)
      if fraction == 0.0 then whole
      else
        let t := floatPower d.scale
        let scaled := (whole + fraction) * t
        match Binary.ofFloat? scaled with
        | some b => Float.ofInt b.round / t
        | none => scaled / t
  if d.negative then -magnitude else magnitude

end Decimal

end PathQuery.Number
