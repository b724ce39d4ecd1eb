import Console.Builtin.Dicts
import Console.Builtin.Sorted

/-!
# Built-in functions that make and measure containers
-/

namespace Console.Builtin

open Eval

def callLen (args : Arguments) : Eval Value := do
  let size ← match ← ofFault (args.one "len") with
    | .list r => do pure (← ask (·.list r)).size
    | .tuple r => do pure (← ask (·.tuple r)).size
    | .dict r => do pure (← ask (·.dict r)).size
    | .str s => pure s.length
    | v => fail (.noLength v.typeName)
  return .int (.ofNat size)

/-- The items of an optional argument. -/
def givenItems : Option Value → Eval (Array Value)
  | none => return #[]
  | some v => items v

def callList (args : Arguments) : Eval Value := do
  newList (← givenItems (← ofFault (args.upToOne "list")))

def callTuple (args : Arguments) : Eval Value := do
  newTuple (← givenItems (← ofFault (args.upToOne "tuple")))

def callDict (args : Arguments) : Eval Value := do
  let given ← match args.positional with
    | [] => pure #[]
    | [v] => pairs v
    | many => fail (.dictCount many.length)
  newDict (← insertAll #[] (given.toList ++ keywordPairs args.keywords))

/-- The longest range that is made. -/
def longestRange : Nat := 10000000

structure Range where
  start : Int64
  stop : Int64
  step : Int64

namespace Range

/-- How many numbers from the start on, a step apart, lie before the stop. -/
def count (r : Range) : Nat :=
  let span :=
    if 0 < r.step then (r.stop.toInt - r.start.toInt + r.step.toInt - 1).tdiv r.step.toInt
    else (r.start.toInt - r.stop.toInt - r.step.toInt - 1).tdiv (-r.step.toInt)
  span.toNat

/-- How far the number in the given place is from the start, if that fits. -/
def distance? (r : Range) (place : Nat) : Option Int64 :=
  Decimal.toInt64? (place * r.step.toInt)

/-- The number in the given place, if it and its distance from the start fit. -/
def item? (r : Range) (place : Nat) : Option Int64 := do
  Decimal.toInt64? (r.start.toInt + (← r.distance? place).toInt)

/-- The numbers of the range, if each of them and its distance from the start fit. -/
def numbers? (r : Range) : Option (Array Int64) := (Array.range r.count).mapM r.item?

end Range

def rangeBound (v : Value) : Except Fault Int64 :=
  match v.asInt? with
  | some n => .ok n
  | none => .error (.rangeOperand v.typeName)

/-- The range that one to three bounds give; all of them are checked first. -/
def rangeOf (first : Value) (second third : Option Value) : Except Fault Range := do
  let first ← rangeBound first
  let second ← second.mapM rangeBound
  let third ← third.mapM rangeBound
  match second with
  | none => return ⟨0, first, 1⟩
  | some stop => return ⟨first, stop, third.getD 1⟩

def callRange (args : Arguments) : Eval Value := do
  let (first, second, third) ← ofFault (args.oneToThree "range")
  let r ← ofFault (rangeOf first second third)
  if r.step = 0 then fail .rangeStep
  if longestRange < r.count then fail .rangeTooLong
  newList ((← ofUnchecked r.numbers?).map .int)

def callSorted (caller : Caller) (args : Arguments) : Eval Value := do
  match args.positional with
  | [v] => newList (← Eval.sorted caller "sorted" (← items v) args.keywords)
  | many => fail (.sortedCount many.length)

def enumerateStart : Option Value → Except Fault Int64
  | none => .ok 0
  | some v =>
    match v.asInt? with
    | some n => .ok n
    | none => .error .enumerateStart

def callEnumerate (args : Arguments) : Eval Value := do
  let (v, start) ← ofFault (args.oneOrTwo "enumerate")
  let start ← ofFault (enumerateStart start)
  let items ← items v
  -- The number after the last one is computed as well.
  let _ ← ofUnchecked (Decimal.toInt64? (start.toInt + items.size))
  newList (← items.mapIdxM fun i item => newTuple #[.int (start + .ofNat i), item])

/-- The items in one place of every sequence. -/
def row (sequences : List (Array Value)) (place : Nat) : Array Value :=
  (sequences.map fun s => s[place]?.getD .none).toArray

def shortestLength (sequences : List (Array Value)) : Nat :=
  (sequences.map Array.size).min?.getD 0

def callZip (args : Arguments) : Eval Value := do
  let sequences ← (← ofFault (args.withoutKeywords "zip")).mapM items
  newList (← (Array.range (shortestLength sequences)).mapM fun i => newTuple (row sequences i))

end Console.Builtin
