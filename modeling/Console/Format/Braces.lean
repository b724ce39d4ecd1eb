import Console.Decimal.Layout
import Console.Format.Padding
import Console.Printing

/-!
# Formats with braces

A format is read into pieces: plain characters and fields such as `{0!r:>8}`. A field names an
argument by place or keyword, or takes the next place, and may say how its text is written.
-/

namespace Console.Format.Braces

/-- What stands between two braces. -/
structure Field where
  name : List Char
  /-- What follows an exclamation mark. -/
  conversion : Option (List Char)
  /-- What follows a colon. -/
  spec : List Char
  deriving DecidableEq, Repr

inductive Piece
  | plain (c : Char)
  | field (f : Field)
  /-- A closing brace that closes nothing. -/
  | strayClose
  /-- An opening brace that is not closed. -/
  | strayOpen
  deriving DecidableEq, Repr

/-- Both sides of the first mark, if there is one. -/
def splitAt? (mark : Char) (s : List Char) : Option (List Char × List Char) :=
  match s.dropWhile (· != mark) with
  | [] => none
  | _ :: after => some (s.takeWhile (· != mark), after)

def Field.ofText (s : List Char) : Field :=
  let (head, spec) := (splitAt? ':' s).getD (s, [])
  match splitAt? '!' head with
  | some (name, conversion) => ⟨name, some conversion, spec⟩
  | none => ⟨head, none, spec⟩

theorem length_lt_of_dropWhile_eq_cons {p : Char → Bool} {r rest : List Char} {c : Char}
    (h : r.dropWhile p = c :: rest) : rest.length < r.length + 1 := by
  have := (List.dropWhile_sublist (l := r) p).length_le
  rw [h, List.length_cons] at this
  omega

/-- The pieces of a format. A doubled brace writes one; a stray one ends the reading. -/
def pieces : List Char → List Piece
  | [] => []
  | '\x7b' :: '\x7b' :: r => .plain '\x7b' :: pieces r
  | '\x7d' :: '\x7d' :: r => .plain '\x7d' :: pieces r
  | '\x7d' :: _ => [.strayClose]
  | '\x7b' :: r =>
    match h : r.dropWhile (· != '\x7d') with
    | [] => [.strayOpen]
    | _ :: rest =>
      have : rest.length < r.length + 1 := length_lt_of_dropWhile_eq_cons h
      .field (.ofText (r.takeWhile (· != '\x7d'))) :: pieces rest
  | c :: r => .plain c :: pieces r
termination_by s => s.length

structure Spec where
  alignment : Option Alignment
  /-- Whether the width starts with a zero. -/
  zeros : Bool
  width : Nat
  precision : Option Nat
  /-- What is left behind width and precision. -/
  type : List Char
  deriving DecidableEq, Repr

/-- Counts have 64 bits. -/
def maxCount : Nat := UInt64.size - 1

/-- A number of digits; none at all or too many are no number. -/
def readCount? (s : List Char) : Option Nat × List Char :=
  let (n, rest) := readWidth s
  (if s.takeWhile Char.isDigit = [] ∨ maxCount < n then none else some n, rest)

def alignmentOf? : Char → Option Alignment
  | '<' => some .left
  | '>' => some .right
  | '^' => some .center
  | _ => none

def Spec.ofText (s : List Char) : Spec :=
  let alignment := s.head?.bind alignmentOf?
  let s := if alignment.isSome then s.tail else s
  let (width, afterWidth) := readCount? s
  let (precision, type) :=
    match afterWidth with
    | '.' :: r => readCount? r
    | r => (none, r)
  ⟨alignment, s.head? = some '0', width.getD 0, precision, type⟩

/-- The alignment that a spec gives a value: numbers go right, other texts left. -/
def Spec.alignmentFor (spec : Spec) (numeric : Bool) : Alignment :=
  match spec.alignment.getD (if numeric then .right else .left) with
  | .right => if spec.zeros && numeric then .zeros else .right
  | other => other

/-- The text of a value before it is put into its field. -/
def convert (caller : Caller) (text : List Char) (spec : Spec) (v : Value) : Eval (List Char) := do
  let invalid {α : Type} : Eval α := Eval.fail (.invalidSpec (String.ofList text))
  let fixed (x : Float) : List Char := (Decimal.fixed (spec.precision.getD 6) x).toList
  match v.asNumber? with
  | some number =>
    match spec.type, number with
    | ['f'], x => return fixed x.toFloat
    | ['d'], .int n => return (decimal n).toList
    | [], .float x =>
      if spec.precision.isSome then return fixed x else return (← Eval.str caller v).toList
    | [], _ | ['s'], _ => return (← Eval.str caller v).toList
    | _, _ => invalid
  | none =>
    match spec.type with
    | [] | ['s'] =>
      let s := (← Eval.str caller v).toList
      return spec.precision.elim s s.take
    | _ => invalid

/-- The text of a value as a spec asks for it. -/
def applySpec (caller : Caller) (text : List Char) (v : Value) : Eval (List Char) := do
  let spec := Spec.ofText text
  let written ← convert caller text spec v
  return pad (spec.alignmentFor v.asNumber?.isSome) spec.width written

/-- The place that a name writes: digits, perhaps behind a plus sign. -/
def placeOf? (name : List Char) : Option Nat :=
  let digits := match name with
    | '+' :: r => r
    | r => r
  if digits.all Char.isDigit then (readCount? digits).1 else none

/-- The argument that a name stands for; `next` is the place that a field without name takes. -/
def argument (args : Arguments) (next : Nat) (name : List Char) : Except Fault Value :=
  let at? (place : Nat) : Except Fault Value :=
    match args.positional[place]? with
    | some v => .ok v
    | none => .error .formatIndex
  if name.isEmpty then at? next
  else match placeOf? name with
    | some place => at? place
    | none =>
      match args.keywords.find? fun k => k.1.toList = name with
      | some (_, v) => .ok v
      | none => .error (.formatKey (Eval.quoted (String.ofList name)))

def write (caller : Caller) (f : Field) (v : Value) : Eval (List Char) := do
  match f.conversion with
  | some ['r'] => return (← Eval.repr caller v).toList
  | some ['s'] | none =>
    if f.spec.isEmpty then return (← Eval.str caller v).toList else applySpec caller f.spec v
  | some other => Eval.fail (.unknownConversion (String.ofList other))

/-- Writes the pieces; `next` counts the fields without name. -/
def fill (caller : Caller) (args : Arguments) (next : Nat) (out : List Char) :
    List Piece → Eval (List Char)
  | [] => return out.reverse
  | .plain c :: ps => fill caller args next (c :: out) ps
  | .strayClose :: _ => Eval.fail .singleClose
  | .strayOpen :: _ => Eval.fail .singleOpen
  | .field f :: ps => do
    let v ← Eval.ofFault (argument args next f.name)
    let text ← write caller f v
    fill caller args (if f.name.isEmpty then next + 1 else next) (text.reverse ++ out) ps

def format (caller : Caller) (text : String) (args : Arguments) : Eval String := do
  return String.ofList (← fill caller args 0 [] (pieces text.toList))

end Console.Format.Braces
