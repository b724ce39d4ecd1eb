import Console.Decimal.Binary

/-!
# Shortest decimal digits

The fewest decimal digits that read back as the same double and, among those, the ones nearest to
it. Everything is decided on naturals.
-/

namespace Console.Decimal

/-- `digits * 10 ^ scale`, with no trailing zero in `digits` unless it is zero. -/
structure Scaled where
  digits : Nat
  scale : Int
  deriving Repr, DecidableEq

/-- Drops trailing zeros; each one raises the scale. -/
def Scaled.strip : Nat → Scaled → Scaled
  | 0, d => d
  | fuel + 1, d =>
    if d.digits ≠ 0 && d.digits % 10 = 0 then strip fuel ⟨d.digits / 10, d.scale + 1⟩ else d

/-- The exponent of the first digit. -/
def Scaled.exponent (d : Scaled) : Int := (Nat.toDigits 10 d.digits).length - 1 + d.scale

/-- The numerator and denominator of `2 ^ scale / 10 ^ tens`. -/
def unit (scale tens : Int) : Nat × Nat :=
  (Nat.pow 2 scale.toNat * Nat.pow 10 (-tens).toNat,
    Nat.pow 2 (-scale).toNat * Nat.pow 10 tens.toNat)

/-- The number of digits before the point, counted on below one: `10 ^ (k - 1) ≤ b < 10 ^ k`. -/
def decimalSize (b : Binary) : Int :=
  let guess := ((Nat.log2 b.mantissa : Int) + b.scale) * 30103 / 100000 + 1
  let reaches (k : Int) : Bool :=
    let (n, d) := unit b.scale k
    d ≤ b.mantissa * n
  if reaches guess then guess + 1
  else if reaches (guess - 1) then guess
  else guess - 1

/-- The nearest point of the grid of multiples of `10 ^ tens` that reads back as `b`, if one does.
A tie goes up. -/
def gridPoint? (b : Binary) (tens : Int) : Option Nat :=
  let (n, d) := unit b.scale tens
  let below := b.mantissa * n / d
  let rest := b.mantissa * n % d
  -- Below a power of two the doubles are twice as dense.
  let gap := if b.mantissa = hiddenBit ∧ leastScale < b.scale then 1 else 2
  let within (distance limit : Nat) : Bool :=
    if b.mantissa % 2 = 0 then distance ≤ limit else distance < limit
  let lowFits := within (4 * rest) (gap * n)
  let highFits := within (4 * (d - rest)) (2 * n)
  if lowFits && (!highFits || 2 * rest < d) then some below
  else if highFits then some (below + 1)
  else none

/-- Tries grids from coarse to fine. -/
def shortestFrom (b : Binary) (size : Int) : Nat → Int → Scaled
  | 0, _ => ⟨0, 0⟩
  | tries + 1, places =>
    match gridPoint? b (size - places) with
    | some digits => Scaled.strip 20 ⟨digits, size - places⟩
    | none => shortestFrom b size tries (places + 1)

/-- The shortest decimal that reads back as `b`. -/
def shortest (b : Binary) : Scaled :=
  if b.mantissa = 0 then ⟨0, 0⟩ else shortestFrom b (decimalSize b) 18 1

end Console.Decimal
