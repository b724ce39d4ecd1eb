/-!
# Binary floating point, exactly

A finite double is `mantissa * 2 ^ scale` for natural mantissa and integer scale. `decode` takes one
apart; `nearest` finds the double closest to a fraction of naturals, a tie going to the even one.
-/

namespace Console.Decimal

/-- The magnitude `mantissa * 2 ^ scale` of a finite double. -/
structure Binary where
  mantissa : Nat
  scale : Int
  deriving Repr, DecidableEq

/-- What the 64 bits of a double stand for, the sign apart. -/
inductive Magnitude
  | finite (b : Binary)
  | infinite
  | nan
  deriving Repr, DecidableEq

/-- The least scale; doubles of this scale may have small mantissas. -/
def leastScale : Int := -1074

/-- Mantissas of larger doubles lie from here up to twice this. -/
def hiddenBit : Nat := Nat.pow 2 52

/-- The magnitude of the double with these bits. -/
def decode (bits : UInt64) : Magnitude :=
  let exponent := (bits.toNat / hiddenBit) % 2048
  let fraction := bits.toNat % hiddenBit
  if exponent = 2047 then (if fraction = 0 then .infinite else .nan)
  else if exponent = 0 then .finite ⟨fraction, leastScale⟩
  else .finite ⟨hiddenBit + fraction, (exponent : Int) - 1075⟩

/-- Whether the sign bit is set. -/
def isNegative (bits : UInt64) : Bool := bits.toNat.testBit 63

/-- `numerator / denominator`, a half going to the even neighbour. -/
def roundQuotient (numerator denominator : Nat) : Nat :=
  let q := numerator / denominator
  let r := numerator % denominator
  if 2 * r < denominator then q
  else if denominator < 2 * r then q + 1
  else if q % 2 = 0 then q else q + 1

/-- The fraction `numerator / (denominator * 2 ^ scale)` as numerator and denominator. -/
def scaled (numerator denominator : Nat) (scale : Int) : Nat × Nat :=
  if 0 ≤ scale then (numerator, denominator * Nat.pow 2 scale.toNat)
  else (numerator * Nat.pow 2 (-scale).toNat, denominator)

/-- The scale at which the fraction's mantissa has 53 bits, but not below the least one. -/
def scaleFor (numerator denominator : Nat) : Int :=
  let guess : Int := (Nat.log2 numerator : Int) - Nat.log2 denominator - 52
  let (n, d) := scaled numerator denominator guess
  max leastScale (if n / d < hiddenBit then guess - 1 else guess)

/-- The bits of the positive double nearest to a fraction; past the largest double, infinity. -/
def nearest (numerator denominator : Nat) : UInt64 :=
  if numerator = 0 then 0
  else
    let scale := scaleFor numerator denominator
    let (n, d) := scaled numerator denominator scale
    -- Bits count up evenly from one double to the next, across scales too.
    let mantissa := roundQuotient n d
    let bits := mantissa + (scale - leastScale).toNat * hiddenBit
    UInt64.ofNat (min bits (2047 * hiddenBit))

/-- A double with the given sign and the bits of a magnitude. -/
def withSign (negative : Bool) (bits : UInt64) : Float :=
  Float.ofBits (if negative then bits ||| 0x8000000000000000 else bits)

/-- The remainder of `x` by `y`, exact and with the sign of `x`. -/
def remainder (x y : Float) : Float :=
  match decode x.toBits, decode y.toBits with
  | .finite a, .finite b =>
    let low := min a.scale b.scale
    let m := a.mantissa * Nat.pow 2 (a.scale - low).toNat
    let n := b.mantissa * Nat.pow 2 (b.scale - low).toNat
    if n = 0 then 0.0 / 0.0
    else
      let r := m % n
      let bits :=
        if 0 ≤ low then nearest (r * Nat.pow 2 low.toNat) 1
        else nearest r (Nat.pow 2 (-low).toNat)
      withSign (isNegative x.toBits) bits
  | .finite _, .infinite => x
  | _, _ => 0.0 / 0.0

end Console.Decimal
