import Console.Decimal.Binary

/-!
# Reading numerals

Whole numbers in a radix from 2 to 36, with or without a sign, within 64 bits; and decimal fractions
with an exponent, read as the nearest double.
-/

namespace Console.Decimal

/-- The value of a digit, letters counting on from nine, if it is below the radix. -/
def digitValue? (radix : Nat) (c : Char) : Option Nat :=
  let value :=
    if c.isDigit then c.toNat - '0'.toNat
    else if c.isLower then c.toNat - 'a'.toNat + 10
    else if c.isUpper then c.toNat - 'A'.toNat + 10
    else radix
  if value < radix then some value else none

/-- The number that one or more digits write. -/
def readNat? (radix : Nat) (s : List Char) : Option Nat :=
  if s.isEmpty then none
  else s.foldlM (fun n c => (digitValue? radix c).map (n * radix + ·)) 0

/-- Whether a whole number fits in 64 bits with a sign. -/
def fits (n : Int) : Bool := Int64.minValue.toInt ≤ n && n ≤ Int64.maxValue.toInt

/-- A whole number as a machine integer, if it fits. -/
def toInt64? (n : Int) : Option Int64 := if fits n then some (Int64.ofInt n) else none

/-- An optional sign and digits. -/
def readInt64? (radix : Nat) : List Char → Option Int64
  | '-' :: s => (readNat? radix s).bind fun n => toInt64? (-n)
  | '+' :: s => (readNat? radix s).bind fun n => toInt64? n
  | s => (readNat? radix s).bind fun n => toInt64? n

/-- The parts of a decimal fraction: `digits * 10 ^ exponent`. -/
structure Fraction where
  digits : Nat
  exponent : Int

/-- Reads `e`, an optional sign and digits to the end; nothing at all is exponent zero. -/
private def readExponent? : List Char → Option Int
  | [] => some 0
  | c :: s =>
    if c = 'e' ∨ c = 'E' then
      match s with
      | '-' :: r => (readNat? 10 r).map fun n => -(n : Int)
      | '+' :: r => (readNat? 10 r).map fun n => (n : Int)
      | r => (readNat? 10 r).map fun n => (n : Int)
    else none

/-- Digits with at most one point among them and a digit on one side of it, then an exponent. -/
def readFraction? (s : List Char) : Option Fraction :=
  let whole := s.takeWhile Char.isDigit
  let rest := s.dropWhile Char.isDigit
  let (places, rest) :=
    match rest with
    | '.' :: r => (r.takeWhile Char.isDigit, r.dropWhile Char.isDigit)
    | r => ([], r)
  match readNat? 10 (whole ++ places), readExponent? rest with
  | some digits, some exponent => some ⟨digits, exponent - places.length⟩
  | _, _ => none

/-- The bits of the double nearest to a fraction. Far outside the range of doubles the exponent alone
decides. -/
def Fraction.bits (f : Fraction) : UInt64 :=
  let size := f.exponent + (Nat.log2 f.digits : Int) * 30103 / 100000
  if f.digits = 0 then 0
  else if 400 < size then nearest (Nat.pow 2 1100) 1
  else if size < -400 then 0
  else if 0 ≤ f.exponent then nearest (f.digits * Nat.pow 10 f.exponent.toNat) 1
  else nearest f.digits (Nat.pow 10 (-f.exponent).toNat)

/-- A decimal numeral without sign, as a double. -/
def readDouble? (s : List Char) : Option Float :=
  (readFraction? s).map fun f => Float.ofBits f.bits

private def lower (s : List Char) : List Char := s.map Char.toLower

/-- A double as the console's users write it: a sign, then digits or the words for infinity and
not-a-number in any case. -/
def readSignedDouble? (s : List Char) : Option Float :=
  let (negative, body) :=
    match s with
    | '-' :: r => (true, r)
    | '+' :: r => (false, r)
    | r => (false, r)
  let word := String.ofList (lower body)
  if word = "inf" ∨ word = "infinity" then some (if negative then -(1.0 / 0.0) else 1.0 / 0.0)
  else if word = "nan" then some (0.0 / 0.0)
  else (readFraction? body).map fun f => withSign negative f.bits

end Console.Decimal
