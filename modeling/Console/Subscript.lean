import Console.Printing
import Console.Text

/-!
# Items of containers

Reading, writing and deleting `object[index]`, and the test `item in container`. Negative indices
count from the end. A dict finds a key by equality, in the order of its entries.
-/

namespace Console

namespace Subscript

theorem toNat_lt_of_lt {n : Int} {size : Nat} (h : 0 ≤ n ∧ n < size) : n.toNat < size := by
  omega

/-- The place that an index stands for in a sequence. -/
def place (what : Indexed) (index : Value) (size : Nat) : Except Fault (Fin size) :=
  match index.asInt? with
  | none => .error (.badIndex what index.typeName)
  | some i =>
    let n := if i < 0 then i.toInt + size else i.toInt
    if h : 0 ≤ n ∧ n < size then .ok ⟨n.toNat, toNat_lt_of_lt h⟩ else .error (.indexRange what)

end Subscript

namespace Eval

/-- The fault of a missing key, with the text of the key or of what writing it raised. -/
def keyMissing {α : Type} (caller : Caller) (key : Value) : Eval α := do
  match ← attempt (repr caller key) with
  | .ok text => fail (.keyMissing text)
  | .error e => fail (.keyMissing e.text)

/-- The value under a key that may be one. -/
def lookup? (r : Ref .dict) (key : Value) : Eval (Option Value) := do
  checkHashable key
  ofDepth (← ask fun h => h.lookupEntry key (h.dict r).toList)

/-- The place of the entry with an equal key. -/
def placeOfKey? (r : Ref .dict) (key : Value) : Eval (Option Nat) := do
  checkHashable key
  ofDepth (← ask fun h => Heap.indexOf (fun e => h.equals e.1 key) (h.dict r).toList)

/-- The entries with a value put under a key. -/
def insertInto (entries : Array (Value × Value)) (key v : Value) :
    Eval (Array (Value × Value)) := do
  ofDepth (← ask (·.insertEntry entries key v))

def getItem (caller : Caller) (object index : Value) : Eval Value := do
  match object with
  | .list r =>
    let items ← ask (·.list r)
    let ⟨i, _⟩ ← ofFault (Subscript.place .list index items.size)
    return items[i]
  | .tuple r =>
    let items ← ask (·.tuple r)
    let ⟨i, _⟩ ← ofFault (Subscript.place .tuple index items.size)
    return items[i]
  | .str s =>
    let letters := s.toList
    let ⟨i, _⟩ ← ofFault (Subscript.place .string index letters.length)
    return .str (String.singleton letters[i])
  | .dict r =>
    match ← lookup? r index with
    | some v => return v
    | none => keyMissing caller index
  | object => fail (.notSubscriptable object.typeName)

def setItem (object index v : Value) : Eval Unit := do
  match object with
  | .list r =>
    let size := (← ask (·.list r)).size
    let i ← ofFault (Subscript.place .assignment index size)
    changeList r (·.setIfInBounds i v)
  | .dict r =>
    checkHashable index
    setDict r (← insertInto (← ask (·.dict r)) index v)
  | object => fail (.noItemAssignment object.typeName)

def deleteItem (caller : Caller) (object index : Value) : Eval Unit := do
  match object with
  | .list r =>
    let size := (← ask (·.list r)).size
    let i ← ofFault (Subscript.place .assignment index size)
    changeList r (·.eraseIdxIfInBounds i)
  | .dict r =>
    match ← placeOfKey? r index with
    | some i => changeDict r (·.eraseIdxIfInBounds i)
    | none => keyMissing caller index
  | object => fail (.noItemDeletion object.typeName)

/-- Whether an item is in a container; of a text every part is in it. -/
def contains (container item : Value) : Eval Bool := do
  match container, item with
  | .str s, .str part => return Text.occursIn part.toList s.toList
  | .str _, item => fail (.containsOperand item.typeName)
  | .dict r, key => return (← placeOfKey? r key).isSome
  | container, item =>
    let all ← items container
    ofDepth (← ask fun h => findEqual (h.equals · item) all.toList)

end Eval

end Console
