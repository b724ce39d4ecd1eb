import Console.Sorting.Short

/-!
# Sorting by runs

The items are cut into runs from the front: stretches of neighbours that are in order already or are
to be sorted later, perhaps together with their neighbours. A long run that is in order is taken as it
stands; other stretches are sorted at once or put off. Neighbouring runs are merged along a balanced
tree over all the items: each boundary between two runs has a height in it, and lower boundaries are
joined first.
-/

namespace Console.Sorting

variable {ε α : Type}

/-- Merges from the front, behind `done`, which is reversed. -/
def mergeForward (before : α → α → Except ε Bool) (done : List α) :
    List α → List α → Except ε (List α)
  | [], right => .ok (done.reverse ++ right)
  | left, [] => .ok (done.reverse ++ left)
  | x :: left, y :: right => do
    if ← before y x then mergeForward before (y :: done) (x :: left) right
    else mergeForward before (x :: done) left (y :: right)
termination_by left right => left.length + right.length

/-- Merges two lists, last items first, from the back, in front of `done`. -/
def mergeBackward (before : α → α → Except ε Bool) (done : List α) :
    List α → List α → Except ε (List α)
  | [], right => .ok (right.reverse ++ done)
  | left, [] => .ok (left.reverse ++ done)
  | x :: left, y :: right => do
    if ← before y x then mergeBackward before (x :: done) left (y :: right)
    else mergeBackward before (y :: done) (x :: left) right
termination_by left right => left.length + right.length

def merge (before : α → α → Except ε Bool) (left right : List α) : Except ε (List α) :=
  if left.length ≤ right.length then mergeForward before [] left right
  else mergeBackward before [] left.reverse right.reverse

structure Run (α : Type) where
  items : List α
  sorted : Bool

/-- Follows a run that goes down, or one that does not, from its last item on; `done` is what it has
so far, reversed. -/
def followRun (before : α → α → Except ε Bool) (down : Bool) (last : α) (done : List α) :
    List α → Except ε (List α)
  | [] => .ok done
  | x :: rest => do
    if (← before x last) == down then followRun before down x (x :: done) rest
    else return done

/-- The longest stretch at the front that is in order, or that goes down at every step and is in order
when reversed. -/
def firstRun (before : α → α → Except ε Bool) : List α → Except ε (List α)
  | x :: y :: rest => do
    let down ← before y x
    let found ← followRun before down y [y, x] rest
    return if down then found else found.reverse
  | items => .ok items

/-- A way to sort stretches that are put off. -/
structure Deferral (ε α : Type) where
  sort : List α → Except ε (List α)
  /-- How many items are sorted together at most. -/
  room : Nat

namespace Run

/-- The items in order. -/
def settle (deferral : Option (Deferral ε α)) (run : Run α) : Except ε (List α) :=
  match deferral with
  | some d => if run.sorted then .ok run.items else d.sort run.items
  | none => .ok run.items

/-- Two unsorted runs become one if there is room for it; others are sorted and merged. -/
def join (before : α → α → Except ε Bool) (deferral : Option (Deferral ε α)) (left right : Run α) :
    Except ε (Run α) := do
  let fits := deferral.any (left.items.length + right.items.length ≤ ·.room)
  if fits && !left.sorted && !right.sorted then return ⟨left.items ++ right.items, false⟩
  else
    let leftItems ← left.settle deferral
    let rightItems ← right.settle deferral
    return ⟨← merge before leftItems rightItems, true⟩

end Run

/-- About the square root of a number, from its logarithm. -/
def roughRoot (n : Nat) : Nat :=
  let shift := (1 + Nat.log2 n) / 2
  ((1 <<< shift) + (n >>> shift)) / 2

/-- How long a run has to be to be worth keeping, among so many items. -/
def goodLength (count : Nat) : Nat :=
  if count ≤ 4096 then min (count - count / 2) 64 else roughRoot count

/-- The height of the boundary at `start` between two runs of the given lengths: the highest binary
place in which their middles differ, measured in parts of the whole. -/
def boundaryHeight (count start left right : Nat) : Nat :=
  let scale := ((1 <<< 62) + count - 1) / count
  Nat.log2 ((scale * (2 * start - left)) ^^^ (scale * (2 * start + right)))

/-- The run at the front of the items. A stretch that is not in order is sorted at once if nothing can
be put off. -/
def nextRun (before : α → α → Except ε Bool) (deferral : Option (Deferral ε α)) (good : Nat)
    (items : List α) : Except ε (Run α) := do
  let stretch := items.take good
  let found ← if stretch.length < good then .ok [] else firstRun before items
  if good ≤ found.length then return ⟨found, true⟩
  else if deferral.isSome then return ⟨stretch, false⟩
  else return ⟨← sortShort before (items.take shortLength), true⟩

/-- A run that waits to be joined to what follows it. -/
structure Waiting (α : Type) where
  run : Run α
  /-- The height of the boundary behind it. -/
  height : Nat

/-- Joins a run to the waiting ones before it, last one first, up to a boundary above `height`. -/
def joinUpTo (join : Run α → Run α → Except ε (Run α)) (height : Nat) (run : Run α) :
    List (Waiting α) → Except ε (Run α × List (Waiting α))
  | [] => .ok (run, [])
  | last :: waiting => do
    if last.height ≤ height then joinUpTo join height (← join last.run run) waiting
    else return (run, last :: waiting)

/-- Joins the waiting runs, last one first, the run that ends at `start` and the runs of the items
that follow. -/
def joinRuns (next : List α → Except ε (Run α)) (join : Run α → Run α → Except ε (Run α))
    (count : Nat) (waiting : List (Waiting α)) (run : Run α) (start : Nat) :
    List α → Except ε (Run α)
  | [] => waiting.foldlM (fun run last => join last.run run) run
  | x :: rest => do
    let following ← next (x :: rest)
    let length := following.items.length
    let height := boundaryHeight count start run.items.length length
    let (joined, waiting) ← joinUpTo join height run waiting
    joinRuns next join count (⟨joined, height⟩ :: waiting) following (start + length)
      (rest.drop (length - 1))
termination_by items => items.length
decreasing_by simp only [List.length_drop, List.length_cons]; omega

def byRuns (before : α → α → Except ε Bool) (deferral : Option (Deferral ε α)) (items : List α) :
    Except ε (List α) := do
  let count := items.length
  let next := nextRun before deferral (goodLength count)
  let first ← next items
  let length := first.items.length
  let whole ← joinRuns next (Run.join before deferral) count [] first length (items.drop length)
  whole.settle deferral

end Console.Sorting
