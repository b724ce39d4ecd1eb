import Console.Arguments
import Console.Operators
import Console.Text

/-!
# Built-in functions on numbers

Conversions to numbers and truth values, the absolute value, division with remainder, and what a
sequence of values adds up to or reaches.
-/

namespace Console.Builtin

open Eval

def callAbs (args : Arguments) : Eval Value := do
  let v ← ofFault (args.one "abs")
  match v.asNumber? with
  | some x => ofFault (Arithmetic.magnitude x)
  | none => fail (.absOperand v.typeName)

/-- The radix that an argument gives. -/
def radix : Option Value → Except Fault Nat
  | none => .ok 10
  | some v =>
    match v.asInt? with
    | some n => if 2 ≤ n && n ≤ 36 then .ok n.toInt.toNat else .error .badRadix
    | none => .error .badRadix

/-- The whole number that a text writes, blanks around it aside. -/
def readInteger (radix : Nat) (s : String) : Except Fault Value :=
  match Decimal.readInt64? radix (Text.trim s.toList) with
  | some n => .ok (.int n)
  | none => .error (.badInteger radix (quoted s))

def wholeNumber (v : Value) : Except Fault Value :=
  match v.asNumber? with
  | some (.int n) => .ok (.int n)
  | some (.float x) => .int <$> Arithmetic.wholePart x
  | none => .error (.notInteger v.typeName)

def callInt (args : Arguments) : Eval Value := do
  let (given, base) ← ofFault (args.upToTwo "int")
  let radix ← ofFault (radix base)
  match given, base with
  | none, _ => return .int 0
  | some (.str s), _ => ofFault (readInteger radix s)
  | some _, some _ => fail .explicitRadix
  | some v, none => ofFault (wholeNumber v)

def readReal (s : String) : Except Fault Value :=
  match Decimal.readSignedDouble? (Text.trim s.toList) with
  | some x => .ok (.float x)
  | none => .error (.badFloat (quoted s))

def callFloat (args : Arguments) : Eval Value := do
  match ← ofFault (args.upToOne "float") with
  | none => return .float 0
  | some (.str s) => ofFault (readReal s)
  | some v =>
    match v.asNumber? with
    | some x => return .float x.toFloat
    | none => fail (.notFloat v.typeName)

def callBool (args : Arguments) : Eval Value := do
  match ← ofFault (args.upToOne "bool") with
  | none => return .bool false
  | some v => return .bool (← isTrue v)

def callDivmod (caller : Caller) (args : Arguments) : Eval Value := do
  let (a, b) ← ofFault (args.two "divmod")
  let quotient ← binary caller .floorDiv a b
  let remainder ← binary caller .mod a b
  newTuple #[quotient, remainder]

/-- Keeps a value until one comes that is ordered to it as wanted. -/
def extreme (wanted : Ordering) (kept : Value) : List Value → Eval Value
  | [] => return kept
  | v :: rest => do
    let found := (← order v kept) = some wanted
    extreme wanted (if found then v else kept) rest

/-- The least or the greatest of the arguments, or of the items of a single one. -/
def callExtreme (callee : String) (wanted : Ordering) (args : Arguments) : Eval Value := do
  let candidates ← match ← ofFault (args.withoutKeywords callee) with
    | [] => fail (.emptyExtreme callee)
    | [v] => do pure (← items v).toList
    | many => pure many
  match candidates with
  | [] => fail (.extremeOfNothing callee)
  | first :: rest => extreme wanted first rest

def callSum (caller : Caller) (args : Arguments) : Eval Value := do
  let (v, start) ← ofFault (args.oneOrTwo "sum")
  match start.getD (.int 0) with
  | .str _ => fail .sumOfStrings
  | start => (← items v).foldlM (fun total item => binary caller .add total item) start

end Console.Builtin
