import Console.Decimal.Shortest

/-!
# How a double is written

`FloatLayout` holds the decisions that the digits leave open; `floatText` is the form the console prints
and reads back. `fixed` writes a set number of places.
-/

namespace Console.Decimal

structure FloatLayout where
  /-- Exponents from here … -/
  leastPositional : Int
  /-- … to below here are written out in full. -/
  firstScientific : Int
  /-- The least number of digits of an exponent. -/
  exponentWidth : Nat
  nan : String
  infinity : String

/-- Exponents from -4 to 15 are written out, others with a sign and two digits or more. -/
def layout : FloatLayout := ⟨-4, 16, 2, "nan", "inf"⟩

def digitText (n : Nat) : List Char := Nat.toDigits 10 n

/-- Digits padded with zeros on the left. -/
def padded (width : Nat) (digits : List Char) : List Char :=
  List.replicate (width - digits.length) '0' ++ digits

/-- A decimal with no exponent, at least one place kept. -/
def positional (d : Scaled) : List Char :=
  let digits := digitText d.digits
  if 0 ≤ d.scale then digits ++ List.replicate d.scale.toNat '0' ++ ['.', '0']
  else
    let places := (-d.scale).toNat
    let all := padded (places + 1) digits
    all.take (all.length - places) ++ '.' :: all.drop (all.length - places)

/-- A decimal as first digit, other digits and signed exponent. -/
def scientific (width : Nat) (d : Scaled) : List Char :=
  let e := d.exponent
  let mantissa :=
    match digitText d.digits with
    | first :: second :: rest => first :: '.' :: second :: rest
    | one => one
  mantissa ++ 'e' :: (if e < 0 then '-' else '+') :: padded width (digitText e.natAbs)

def magnitudeText (l : FloatLayout) : Magnitude → List Char
  | .nan => l.nan.toList
  | .infinite => l.infinity.toList
  | .finite b =>
    let d := shortest b
    if l.leastPositional ≤ d.exponent && d.exponent < l.firstScientific then positional d
    else scientific l.exponentWidth d

/-- The text of a double that reads back as the same double. -/
def floatText (x : Float) : String :=
  let magnitude := decode x.toBits
  let sign := if isNegative x.toBits && magnitude ≠ .nan then ['-'] else []
  String.ofList (sign ++ magnitudeText layout magnitude)

/-- The exact value of a double rounded to `places` places, a half going to the even digit. -/
def fixed (places : Nat) (x : Float) : String :=
  let sign := if isNegative x.toBits then ['-'] else []
  match decode x.toBits with
  | .nan => "NaN"
  | .infinite => String.ofList (sign ++ ['i', 'n', 'f'])
  | .finite b =>
    let (n, d) := unit b.scale (-places)
    let all := padded (places + 1) (digitText (roundQuotient (b.mantissa * n) d))
    let whole := all.take (all.length - places)
    let fraction := all.drop (all.length - places)
    String.ofList (sign ++ whole ++ (if places = 0 then [] else '.' :: fraction))

end Console.Decimal
