import Console.Operators
import Console.Sorting

/-!
# Values in order

Sorting values by themselves or by what a key function makes of them, upwards or downwards.
-/

namespace Console

structure SortOptions where
  key : Option Value
  /-- Sort downwards. -/
  reverse : Bool

namespace Eval

/-- The options that keywords give; a key that is none counts as not given. -/
def sortOptions (callee : String) (options : SortOptions) :
    List (String × Value) → Eval SortOptions
  | [] => return options
  | (keyword, v) :: rest => do
    if keyword = "key" then
      sortOptions callee (if v.isNone then options else { options with key := some v }) rest
    else if keyword = "reverse" then
      sortOptions callee { options with reverse := ← isTrue v } rest
    else fail (.badKeyword keyword callee)

/-- Whether a value goes before another when sorting upwards, or downwards with `reverse`. -/
def goesBefore (h : Heap) (reverse : Bool) (a b : Value) : Except Stop Bool :=
  match h.orders a b with
  | .order o => .ok (o == if reverse then .gt else .lt)
  | .unordered => .ok false
  | .unorderable left right => .error (.raised (Fault.unorderable left right).exception)
  | .tooDeep => .error .exhausted

/-- The value that an item is sorted by. -/
def sortKey (caller : Caller) (key : Option Value) (item : Value) : Eval Value :=
  match key with
  | none => return item
  | some f => caller.call f ⟨[item], []⟩

/-- The items in order. All keys are made before the first two are compared. -/
def sorted (caller : Caller) (callee : String) (items : Array Value)
    (keywords : List (String × Value)) : Eval (Array Value) := do
  let options ← sortOptions callee ⟨none, false⟩ keywords
  let keyed ← items.toList.mapM fun item => do return (← sortKey caller options.key item, item)
  let before ← ask fun h (a b : Value × Value) => goesBefore h options.reverse a.1 b.1
  match Sorting.sort before keyed with
  | .ok inOrder => return (inOrder.map (·.2)).toArray
  | .error stop => throw stop

end Eval

end Console
