import Console.Decimal.Reading
import Console.Fault
import Console.Feature
import Console.Tree
import Console.Value

/-!
# Arithmetic

Whole numbers have 64 bits: a result is the exact one or an overflow. Division of whole numbers goes
to the floor and its remainder has the sign of the divisor, unless true division is in force.
-/

namespace Console.Arithmetic

/-- The exact result, if it fits. -/
def checked (n : Int) : Except Fault Int64 :=
  match Decimal.toInt64? n with
  | some m => .ok m
  | none => .error .integerOverflow

/-- The product, if it fits. -/
def times (x y : Int64) : Except Fault Int64 := checked (x.toInt * y.toInt)

/-- Divides only where the quotient fits: not the least number by minus one. -/
def checkQuotient (x y : Int64) : Except Fault Unit :=
  if x = Int64.minValue ∧ y = -1 then .error .integerOverflow else .ok ()

/-- The quotient to the floor: one less than the one to zero where that was rounded up. -/
def floorDiv (x y : Int64) : Except Fault Int64 :=
  if y = 0 then .error .integerDivision
  else do
    checkQuotient x y
    if x % y ≠ 0 ∧ decide (x < 0) ≠ decide (y < 0) then return x / y - 1 else return x / y

/-- The remainder by the floor: the one by the quotient to zero, moved to the side of the divisor. It
fails wherever the quotient does. -/
def floorMod (x y : Int64) : Except Fault Int64 :=
  if y = 0 then .error .integerDivision
  else do
    checkQuotient x y
    if x % y ≠ 0 ∧ decide (x % y < 0) ≠ decide (y < 0) then return x % y + y else return x % y

/-- Multiplies the base in if the exponent is odd. -/
def multiplyIfOdd (product base : Int64) (exponent : Nat) : Except Fault Int64 :=
  if exponent % 2 = 1 then times product base else .ok product

/-- Multiplies a power into a product: the base is squared from one binary digit of the exponent to
the next, and every digit one multiplies it in. -/
def multiplyPower (product base : Int64) (exponent : Nat) : Except Fault Int64 := do
  let product ← multiplyIfOdd product base exponent
  if exponent < 2 then return product
  else multiplyPower product (← times base base) (exponent / 2)
termination_by exponent

/-- Exponents that powers of whole numbers take. -/
def maxExponent : Nat := UInt32.size - 1

/-- A power with an exponent that is not negative. -/
def power (x : Int64) (exponent : Nat) : Except Fault Int64 :=
  if maxExponent < exponent then .error .integerOverflow else multiplyPower 1 x exponent

/-- Whether a double has a fractional part; infinities and not-a-number count as having one. -/
def hasFraction (x : Float) : Bool := !(x.floor - x == 0)

def floatMod (x y : Float) : Float :=
  let r := Decimal.remainder x y
  if r != 0 && (r < 0) != (y < 0) then r + y else r

def floatPower (x y : Float) : Except Fault Float :=
  if x < 0 && hasFraction y then .error .fractionalPower
  else if x == 0 && y < 0 then .error .negativePowerOfZero
  else
    let r := x.pow y
    if r.isInf && x.isFinite && y.isFinite then .error .floatOverflow else .ok r

def floatOp (op : BinaryOp) (x y : Float) : Except Fault Float :=
  match op with
  | .add => .ok (x + y)
  | .sub => .ok (x - y)
  | .mul => .ok (x * y)
  | .div => if y == 0 then .error .floatDivision else .ok (x / y)
  | .floorDiv => if y == 0 then .error .floatDivmod else .ok (x / y).floor
  | .mod => if y == 0 then .error .floatModulo else .ok (floatMod x y)
  | .pow => floatPower x y

/-- An operation on whole numbers. True division and powers with negative exponents are done on
doubles. -/
def intOp (features : Features) (op : BinaryOp) (x y : Int64) : Except Fault Value :=
  match op with
  | .add => .int <$> checked (x.toInt + y.toInt)
  | .sub => .int <$> checked (x.toInt - y.toInt)
  | .mul => .int <$> checked (x.toInt * y.toInt)
  | .div =>
    if features.has .division then .float <$> floatOp .div x.toFloat y.toFloat
    else .int <$> floorDiv x y
  | .floorDiv => .int <$> floorDiv x y
  | .mod => .int <$> floorMod x y
  | .pow =>
    if y < 0 then .float <$> floatOp .pow x.toFloat y.toFloat
    else .int <$> power x y.toInt.toNat

def numberOp (features : Features) (op : BinaryOp) : Number → Number → Except Fault Value
  | .int x, .int y => intOp features op x y
  | a, b => .float <$> floatOp op a.toFloat b.toFloat

def negate : Number → Except Fault Value
  | .int n => .int <$> checked (-n.toInt)
  | .float x => .ok (.float (-x))

def magnitude : Number → Except Fault Value
  | .int n => .int <$> checked n.toInt.natAbs
  | .float x => .ok (.float x.abs)

def keep : Number → Value
  | .int n => .int n
  | .float x => .float x

/-- The whole part of a double, the nearest 64-bit number where that does not fit, zero for
not-a-number. -/
def truncate (x : Float) : Int64 := x.toInt64

/-- The first double past every 64-bit number. -/
def integerLimit : Float := 9223372036854775808.0

/-- The whole part of a double, if there is one within 64 bits on both sides. -/
def wholePart (x : Float) : Except Fault Int64 :=
  if x.isNaN then .error .notANumberToInteger
  else if x.isInf || integerLimit ≤ x.abs then .error .floatToInteger
  else .ok (truncate x)

end Console.Arithmetic
