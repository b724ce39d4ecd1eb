import Console.Arithmetic
import Console.Format.Percent
import Console.Subscript

/-!
# Operators

Truth, unary and binary operators and single comparisons. Numbers compute; texts, lists and tuples
are joined by `+` and repeated by `*`; a text with `%` is a format.
-/

namespace Console

/-- Whether a value counts as true: all but none, zeros and empty texts and containers. -/
def Heap.isTrue (h : Heap) : Value → Bool
  | .none => false
  | .bool b => b
  | .int n => n != 0
  | .float x => x != 0
  | .str s => !s.isEmpty
  | .list r => !(h.list r).isEmpty
  | .tuple r => !(h.tuple r).isEmpty
  | .dict r => !(h.dict r).isEmpty
  | _ => true

namespace Eval

def isTrue (v : Value) : Eval Bool := ask (·.isTrue v)

def unary (op : UnaryOp) (v : Value) : Eval Value := do
  match op, v.asNumber? with
  | .not, _ => return .bool !(← isTrue v)
  | .neg, some x => ofFault (Arithmetic.negate x)
  | .pos, some x => return Arithmetic.keep x
  | .neg, none => fail (.badOperand "-" v.typeName)
  | .pos, none => fail (.badOperand "+" v.typeName)

/-- The longest sequence that repetition makes: in items, for a text in bytes. -/
def longestRepeat : Nat := 10000000

/-- The items over and over. -/
def repeated {α : Type} (times : Nat) (items : Array α) : Array α :=
  if items.isEmpty then #[] else times.fold (fun _ _ all => all ++ items) #[]

/-- A text over and over. -/
def repeatedText (times : Nat) (s : String) : String :=
  if s.isEmpty then "" else times.fold (fun _ _ all => all ++ s) ""

/-- Refuses a repetition that gets too long. -/
def checkRepeat (size times : Nat) : Eval Unit := do
  if longestRepeat < size * times then fail .repeatTooLong

/-- A sequence a number of times over, not at all if the number is negative; nothing if the value is
no sequence. -/
def repeat? (v : Value) (count : Int64) : Option (Eval Value) :=
  let times := count.toInt.toNat
  match v with
  | .str s => some do
      checkRepeat s.utf8ByteSize times
      return .str (repeatedText times s)
  | .list r => some do
      let items ← ask (·.list r)
      checkRepeat items.size times
      newList (repeated times items)
  | .tuple r => some do
      let items ← ask (·.tuple r)
      checkRepeat items.size times
      newTuple (repeated times items)
  | _ => none

/-- Repetition takes its count from the right, or from the left if the right is no whole number. -/
def multiply? (left right : Value) : Option (Eval Value) :=
  match right.asInt?, left.asInt? with
  | some count, _ => repeat? left count
  | none, some count => repeat? right count
  | none, none => none

def binary (caller : Caller) (op : BinaryOp) (left right : Value) : Eval Value := do
  match left.asNumber?, right.asNumber? with
  | some x, some y => ofFault (Arithmetic.numberOp (← get).features op x y)
  | _, _ =>
    match op, left, right with
    | .add, .str s, .str t => return .str (s ++ t)
    | .add, .list r, .list s => newList (← ask fun h => h.list r ++ h.list s)
    | .add, .tuple r, .tuple s => newTuple (← ask fun h => h.tuple r ++ h.tuple s)
    | .mul, left, right =>
      match multiply? left right with
      | some result => result
      | none => fail (.unsupportedOperands op.symbol left.typeName right.typeName)
    | .mod, .str text, argument => return .str (← Format.Percent.format caller text argument)
    | op, left, right => fail (.unsupportedOperands op.symbol left.typeName right.typeName)

/-- The binary operator of an augmented assignment: a list grows in place. -/
def augment (caller : Caller) (op : BinaryOp) (current v : Value) : Eval Value := do
  match op, current with
  | .add, .list r =>
    let more ← items v
    changeList r (· ++ more)
    return current
  | op, current => binary caller op current v

/-- One link of a chain of comparisons. Values without order are neither less nor greater. -/
def compare (op : Comparison) (left right : Value) : Eval Bool := do
  match op with
  | .eq => equals left right
  | .ne => return !(← equals left right)
  | .is => return left.identical right
  | .isNot => return !left.identical right
  | .isIn => contains right left
  | .notIn => return !(← contains right left)
  | .lt => return (← order left right).any (·.isLT)
  | .le => return (← order left right).any (·.isLE)
  | .gt => return (← order left right).any (·.isGT)
  | .ge => return (← order left right).any (·.isGE)

end Eval

end Console
