/-!
# Fields of a given width

A text that is shorter than its field is filled up with spaces, or with zeros behind its sign.
-/

namespace Console.Format

/-- Where a text stands in its field. -/
inductive Alignment
  | left
  | right
  /-- An odd space goes to the right. -/
  | center
  /-- Right, with zeros between the sign and the digits. -/
  | zeros
  deriving DecidableEq, Repr

/-- Fills a text up to a width; a longer text stays as it is. -/
def pad (alignment : Alignment) (width : Nat) (text : List Char) : List Char :=
  let missing := width - text.length
  match alignment with
  | .left => text ++ List.replicate missing ' '
  | .right => List.replicate missing ' ' ++ text
  | .center =>
    List.replicate (missing / 2) ' ' ++ text ++ List.replicate (missing - missing / 2) ' '
  | .zeros =>
    match text with
    | '-' :: digits => '-' :: (List.replicate missing '0' ++ digits)
    | digits => List.replicate missing '0' ++ digits

theorem length_pad (alignment : Alignment) (width : Nat) (text : List Char) :
    (pad alignment width text).length = max width text.length := by
  unfold pad
  split
  · simp; omega
  · simp; omega
  · simp; omega
  · split <;> simp <;> omega

/-- The number that a run of digits writes, and what follows the run. -/
def readWidth (s : List Char) : Nat × List Char :=
  ((s.takeWhile Char.isDigit).foldl (fun n c => 10 * n + (c.toNat - '0'.toNat)) 0,
    s.dropWhile Char.isDigit)

theorem length_readWidth_le (s : List Char) : (readWidth s).2.length ≤ s.length :=
  (List.dropWhile_sublist _).length_le

def decimal (n : Int64) : String := toString n.toInt

/-- The digits in radix 16, lower case, behind a sign if the number is negative. -/
def hexadecimal (n : Int64) : String :=
  let digits := String.ofList (Nat.toDigits 16 n.toInt.natAbs)
  if n < 0 then "-" ++ digits else digits

end Console.Format
