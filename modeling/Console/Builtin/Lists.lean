import Console.Arguments
import Console.Builtin.Sorted

/-!
# Methods of lists
-/

namespace Console.ListMethod

open Eval

/-- The place before which an index inserts: counted from the end if negative, and never outside the
list. -/
def insertionPlace (index : Int64) (size : Nat) : Nat :=
  if index < 0 then (index.toInt + size).toNat else min index.toInt.toNat size

def callAppend (r : Ref .list) (args : Arguments) : Eval Value := do
  let item ← ofFault (args.one "append")
  changeList r (·.push item)
  return .none

def callExtend (r : Ref .list) (args : Arguments) : Eval Value := do
  let more ← items (← ofFault (args.one "extend"))
  changeList r (· ++ more)
  return .none

def callInsert (r : Ref .list) (args : Arguments) : Eval Value := do
  let (position, item) ← ofFault (args.two "insert")
  match position.asInt? with
  | none => fail .insertIndex
  | some n =>
    changeList r fun all => all.insertIdxIfInBounds (insertionPlace n all.size) item
    return .none

def callPop (r : Ref .list) (args : Arguments) : Eval Value := do
  let position ← ofFault (args.upToOne "pop")
  let all ← ask (·.list r)
  if h : 0 < all.size then
    let ⟨i, _⟩ ← match position with
      | some v => ofFault (Subscript.place .pop v all.size)
      | none => pure ⟨all.size - 1, Nat.sub_one_lt_of_lt h⟩
    changeList r (·.eraseIdxIfInBounds i)
    return all[i]
  else fail .popFromEmpty

/-- The place of the first item equal to a value. -/
def placeOf? (r : Ref .list) (v : Value) : Eval (Option Nat) := do
  ofDepth (← ask fun h => Heap.indexOf (h.equals · v) (h.list r).toList)

def callRemove (r : Ref .list) (args : Arguments) : Eval Value := do
  match ← placeOf? r (← ofFault (args.one "remove")) with
  | some i =>
    changeList r (·.eraseIdxIfInBounds i)
    return .none
  | none => fail .notInListToRemove

def callIndex (caller : Caller) (r : Ref .list) (args : Arguments) : Eval Value := do
  let v ← ofFault (args.one "index")
  match ← placeOf? r v with
  | some i => return .int (.ofNat i)
  | none => fail (.notInList (← repr caller v))

/-- The number of items that satisfy a test that may not answer. -/
def countWhere (test : Value → Option Bool) : List Value → Option Nat
  | [] => some 0
  | a :: as => do
    let here ← test a
    let rest ← countWhere test as
    return if here then rest + 1 else rest

def callCount (r : Ref .list) (args : Arguments) : Eval Value := do
  let v ← ofFault (args.one "count")
  let n ← ofDepth (← ask fun h => countWhere (h.equals · v) (h.list r).toList)
  return .int (.ofNat n)

def callReverse (r : Ref .list) (args : Arguments) : Eval Value := do
  ofFault (args.none "reverse")
  changeList r (·.reverse)
  return .none

/-- The list changes only when all of it is in order. -/
def callSort (caller : Caller) (r : Ref .list) (args : Arguments) : Eval Value := do
  if !args.positional.isEmpty then fail .sortPositional
  let inOrder ← sorted caller "sort" (← ask (·.list r)) args.keywords
  changeList r fun _ => inOrder
  return .none

def call (caller : Caller) (r : Ref .list) : ListMethod → Arguments → Eval Value
  | append => callAppend r
  | count => callCount r
  | extend => callExtend r
  | index => callIndex caller r
  | insert => callInsert r
  | pop => callPop r
  | remove => callRemove r
  | reverse => callReverse r
  | sort => callSort caller r

end Console.ListMethod
