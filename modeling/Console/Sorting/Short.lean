/-!
# Short lists

A list of a few dozen items is sorted in two halves. Each half grows by insertion from its first four
items, and the halves are merged from both ends at once. In an insertion an item passes another only
where the test says that it goes before it, so items that the test does not tell apart keep their
order. The test may fail, and its first failure ends the sort.
-/

namespace Console.Sorting

variable {ε α : Type}

/-- Puts an item into a list, last one first: looking from the end, behind the first item that it
does not go before. -/
def insertFromEnd (before : α → α → Except ε Bool) (x : α) : List α → Except ε (List α)
  | [] => .ok [x]
  | y :: rest => do
    if ← before x y then return y :: (← insertFromEnd before x rest)
    else return x :: y :: rest

/-- Inserts the items one after the other into `sorted`, last one first. -/
def insertAll (before : α → α → Except ε Bool) (sorted items : List α) : Except ε (List α) :=
  items.foldlM (fun sorted x => insertFromEnd before x sorted) sorted

def byInsertion (before : α → α → Except ε Bool) (items : List α) : Except ε (List α) := do
  return (← insertAll before [] items).reverse

/-- Lists up to this length count as short. -/
def shortLength : Nat := 32

/-- Two neighbours, exchanged if the second goes before the first. -/
def inOrder (before : α → α → Except ε Bool) (x y : α) : Except ε (α × α) := do
  return if ← before y x then (y, x) else (x, y)

/-- Sorts four items by five tests: two pairs, then their firsts and their lasts, and then the two
items that are left between. -/
def sortFour (before : α → α → Except ε Bool) (p q r s : α) : Except ε (List α) := do
  let (a, b) ← inOrder before p q
  let (c, d) ← inOrder before r s
  let (least, greatest, second, third) := match ← before c a, ← before d b with
    | false, false => (a, d, b, c)
    | false, true => (a, b, c, d)
    | true, false => (c, d, a, b)
    | true, true => (c, b, a, d)
  let (second, third) ← inOrder before second third
  return [least, second, third, greatest]

/-- The first four items, sorted, last one first, and the items behind them. -/
def startWithFour (before : α → α → Except ε Bool) : List α → Except ε (List α × List α)
  | p :: q :: r :: s :: rest => do return ((← sortFour before p q r s).reverse, rest)
  | items => .ok ([], items)

/-- Two halves that are being merged from both ends. -/
structure Ends (α : Type) where
  /-- What the front has not taken of the left half, and of the right one. -/
  left : List α
  right : List α
  /-- What the back has not taken of them, last items first. -/
  leftBack : List α
  rightBack : List α
  /-- What the front has taken, reversed. -/
  front : List α
  back : List α

namespace Ends

def takeFirst (before : α → α → Except ε Bool) (e : Ends α) : Except ε (Ends α) :=
  match e.left, e.right with
  | x :: left, y :: right => do
    if ← before y x then return { e with right, front := y :: e.front }
    else return { e with left, front := x :: e.front }
  | _, _ => .ok e

def takeLast (before : α → α → Except ε Bool) (e : Ends α) : Except ε (Ends α) :=
  match e.leftBack, e.rightBack with
  | x :: leftBack, y :: rightBack => do
    if ← before y x then return { e with leftBack, back := x :: e.back }
    else return { e with rightBack, back := y :: e.back }
  | _, _ => .ok e

/-- Takes so many items at either end. -/
def takeBoth (before : α → α → Except ε Bool) : Nat → Ends α → Except ε (Ends α)
  | 0, e => .ok e
  | n + 1, e => do takeBoth before n (← (← e.takeFirst before).takeLast before)

end Ends

/-- Merges two sorted halves, each given last item first; the right one may have one item more. A test
that contradicts itself can let the two ends take an item twice; then the halves stay as they are. -/
def mergeHalves (before : α → α → Except ε Bool) (leftBack rightBack : List α) :
    Except ε (List α) := do
  let left := leftBack.reverse
  let right := rightBack.reverse
  let e ← Ends.takeBoth before left.length ⟨left, right, leftBack, rightBack, [], []⟩
  let ofLeft := e.left.length + e.leftBack.length
  let ofRight := e.right.length + e.rightBack.length
  if ofLeft < left.length || ofRight < right.length then return left ++ right
  else
    let middle := e.left.take (ofLeft - left.length) ++ e.right.take (ofRight - right.length)
    return e.front.reverse ++ middle ++ e.back

def sortShort (before : α → α → Except ε Bool) (items : List α) : Except ε (List α) := do
  if items.length < 2 then return items
  let left := items.take (items.length / 2)
  let right := items.drop (items.length / 2)
  let start := if items.length < 8 then fun half => .ok ([], half) else startWithFour before
  let (leftStart, leftRest) ← start left
  let (rightStart, rightRest) ← start right
  let left ← insertAll before leftStart leftRest
  let right ← insertAll before rightStart rightRest
  mergeHalves before left right

end Console.Sorting
