import Console.Arithmetic
import Console.Decimal.Layout
import Console.Format.Padding
import Console.Printing

/-!
# Formats with percent signs

A format is read into pieces: plain characters and directives such as `%-8.3f`. Each directive takes
the next argument. Faults count in the order of the pieces, so a format that breaks off fails only
after what stands before the break was written.
-/

namespace Console.Format.Percent

/-- What a directive asks for. -/
structure Directive where
  left : Bool
  zeros : Bool
  width : Nat
  precision : Option Nat
  conversion : Char
  deriving DecidableEq, Repr

inductive Piece
  | plain (c : Char)
  | directive (d : Directive)
  /-- The format ends inside a directive. -/
  | broken
  deriving DecidableEq, Repr

/-- A point and the digits behind it; no digits are zero. -/
def readPrecision : List Char → Option Nat × List Char
  | '.' :: r => (some (readWidth r).1, (readWidth r).2)
  | r => (none, r)

theorem length_readPrecision_le (s : List Char) : (readPrecision s).2.length ≤ s.length := by
  unfold readPrecision
  split
  · exact Nat.le_succ_of_le (length_readWidth_le _)
  · exact Nat.le_refl _

def isFlag (c : Char) : Bool := c == '-' || c == '0'

/-- The directive behind a percent sign, its conversion aside: flags, width and precision. -/
def readHead (s : List Char) : (Char → Directive) × List Char :=
  let flags := s.takeWhile isFlag
  let (width, afterWidth) := readWidth (s.dropWhile isFlag)
  let (precision, rest) := readPrecision afterWidth
  (fun c => ⟨flags.contains '-', flags.contains '0', width, precision, c⟩, rest)

theorem length_readHead_le (s : List Char) : (readHead s).2.length ≤ s.length :=
  Nat.le_trans (length_readPrecision_le _)
    (Nat.le_trans (length_readWidth_le _) (List.dropWhile_sublist _).length_le)

theorem length_lt_of_readHead {r rest : List Char} {c : Char} (h : (readHead r).2 = c :: rest) :
    rest.length < r.length + 1 := by
  have := length_readHead_le r
  rw [h, List.length_cons] at this
  omega

/-- The pieces of a format. Two percent signs, also with flags and widths between them, write
one. -/
def pieces : List Char → List Piece
  | [] => []
  | c :: r =>
    if c ≠ '%' then .plain c :: pieces r
    else
      match h : (readHead r).2 with
      | [] => [.broken]
      | conversion :: rest =>
        have : rest.length < r.length + 1 := length_lt_of_readHead h
        (if conversion = '%' then .plain '%' else .directive ((readHead r).1 conversion)) ::
          pieces rest
termination_by s => s.length

/-- Whether a conversion writes a number. -/
def isNumeric (conversion : Char) : Bool := "dixf".toList.contains conversion

/-- A whole number; doubles lose their fraction. -/
def wholeText (conversion : Char) (v : Value) : Except Fault String :=
  match v.asNumber? with
  | none => .error (.numberRequired conversion v.typeName)
  | some x =>
    let n := match x with
      | .int n => n
      | .float x => Arithmetic.truncate x
    .ok (if conversion = 'x' then hexadecimal n else decimal n)

def realText (precision : Option Nat) (v : Value) : Except Fault String :=
  match v.asNumber? with
  | none => .error (.realRequired v.typeName)
  | some x => .ok (Decimal.fixed (precision.getD 6) x.toFloat)

/-- The text of an argument before it is put into its field. -/
def convert (caller : Caller) (d : Directive) (v : Value) : Eval (List Char) := do
  let cut (s : String) : List Char := d.precision.elim s.toList s.toList.take
  match d.conversion with
  | 's' => return cut (← Eval.str caller v)
  | 'r' => return cut (← Eval.repr caller v)
  | 'd' | 'i' | 'x' => return (← Eval.ofFault (wholeText d.conversion v)).toList
  | 'f' => return (← Eval.ofFault (realText d.precision v)).toList
  | other => Eval.fail (.unsupportedConversion other)

def Directive.alignment (d : Directive) : Alignment :=
  if d.left then .left else if d.zeros && isNumeric d.conversion then .zeros else .right

/-- Writes the pieces, each directive with the next value; no value may be left. -/
def fill (caller : Caller) (out : List Char) : List Piece → List Value → Eval (List Char)
  | [], [] => return out.reverse
  | [], _ :: _ => Eval.fail .tooManyFormatArguments
  | .broken :: _, _ => Eval.fail .incompleteFormat
  | .plain c :: ps, vs => fill caller (c :: out) ps vs
  | .directive _ :: _, [] => Eval.fail .tooFewFormatArguments
  | .directive d :: ps, v :: vs => do
    let text := pad d.alignment d.width (← convert caller d v)
    fill caller (text.reverse ++ out) ps vs

/-- The values that an argument stands for: the items of a tuple, or itself. -/
def spread : Value → Eval (List Value)
  | .tuple r => do return (← Eval.ask (·.tuple r)).toList
  | v => return [v]

def format (caller : Caller) (text : String) (argument : Value) : Eval String := do
  let values ← spread argument
  return String.ofList (← fill caller [] (pieces text.toList) values)

end Console.Format.Percent
