import Console.Sorting.ByRuns

/-!
# Sorting

A stable sort by a test that may fail; the first failure ends it. Short lists are sorted by insertion
and longer ones by runs, where stretches without order are put off and sorted by pivots: such a stretch
is parted by a pivot, a median of three items or in long lists a median of medians of three, and its
parts are sorted in the same way. Which items are compared, and when, is a part of what the sort does:
it decides which failure comes first and what becomes of items that a test does not put into one order.
-/

namespace Console.Sorting

variable {ε α : Type}

/-- Which of three positions holds the item between the other two, where `before` compares items by
position. -/
def medianOfThree (before : Nat → Nat → Except ε Bool) (i j k : Nat) : Except ε Nat := do
  let first ← before i j
  let second ← before i k
  if first == second then
    return if (← before j k) == first then j else k
  else return i

/-- The median of three positions, each of which stands for `part` items from there on: where these
are many, for a median of three of them. -/
def medianOfParts (before : Nat → Nat → Except ε Bool) (part i j k : Nat) : Except ε Nat :=
  if part < 8 then medianOfThree before i j k
  else do
    let one := part / 8
    let i ← medianOfParts before one i (i + one * 4) (i + one * 7)
    let j ← medianOfParts before one j (j + one * 4) (j + one * 7)
    let k ← medianOfParts before one k (k + one * 4) (k + one * 7)
    medianOfThree before i j k
termination_by part

/-- A list with a pivot chosen in it. -/
structure Pivoted (α : Type) where
  front : List α
  pivot : α
  behind : List α

/-- Chooses the pivot of a list that is not empty. -/
def Pivoted.choose? (before : α → α → Except ε Bool) (items : List α) :
    Except ε (Option (Pivoted α)) := do
  let all := items.toArray
  let one := all.size / 8
  let position ← medianOfParts (fun i j =>
    match all[i]?, all[j]? with
    | some x, some y => before x y
    | _, _ => .ok false) one 0 (one * 4) (one * 7)
  match items.drop position with
  | pivot :: behind => return some ⟨items.take position, pivot, behind⟩
  | [] => return none

/-- Two parts of a list, both reversed. -/
structure Parts (α : Type) where
  left : List α
  right : List α

/-- Puts each of the items into the left part if it passes the test, else into the right one. -/
def Parts.add (test : α → Except ε Bool) (parts : Parts α) (items : List α) : Except ε (Parts α) :=
  items.foldlM (fun parts x => do
    return if ← test x then { parts with left := x :: parts.left }
      else { parts with right := x :: parts.right }) parts

/-- The items that go before the pivot, and the pivot with the others. The pivot itself is not
tested. -/
def Pivoted.below (before : α → α → Except ε Bool) (p : Pivoted α) : Except ε (List α × List α) := do
  let test := fun x => before x p.pivot
  let parts ← Parts.add test ⟨[], []⟩ p.front
  let parts ← Parts.add test { parts with right := p.pivot :: parts.right } p.behind
  return (parts.left.reverse, parts.right.reverse)

/-- The pivot with the items that it does not go before, and the others. -/
def Pivoted.notAbove (before : α → α → Except ε Bool) (p : Pivoted α) :
    Except ε (List α × List α) := do
  let test := fun x => do return !(← before p.pivot x)
  let parts ← Parts.add test ⟨[], []⟩ p.front
  let parts ← Parts.add test { parts with left := p.pivot :: parts.left } p.behind
  return (parts.left.reverse, parts.right.reverse)

/-- Sorts by at most `limit` pivots one inside the other. Nothing among the items goes before `floor`,
the pivot left of them: a pivot that does not go behind it equals it, and so do the items that do not
go behind that pivot. -/
def byPivots (before : α → α → Except ε Bool) (limit : Nat) (floor : Option α) (items : List α) :
    Except ε (List α) :=
  if items.length ≤ shortLength then sortShort before items
  else match limit with
    | 0 => byRuns before none items
    | limit + 1 => do
      let some p ← Pivoted.choose? before items | return items
      let least ← match floor with
        | some f => (!·) <$> before f p.pivot
        | none => .ok false
      let (below, others) ← if least then .ok ([], items) else p.below before
      if below.isEmpty then
        let (equal, above) ← p.notAbove before
        return equal ++ (← byPivots before limit none above)
      else
        let others ← byPivots before limit (some p.pivot) others
        return (← byPivots before limit floor below) ++ others

/-- Sorts by pivots, by no more than a balanced choice of them would need twice over. -/
def quick (before : α → α → Except ε Bool) (items : List α) : Except ε (List α) :=
  byPivots before (2 * Nat.log2 items.length) none items

/-- Up to this length a list is sorted by insertion. -/
def insertionLength : Nat := 20

/-- Stretches without order are put off together up to this length, or up to half of the list if that
is more. -/
def stretchLength : Nat := 125000

def sort (before : α → α → Except ε Bool) (items : List α) : Except ε (List α) :=
  let count := items.length
  if count ≤ insertionLength then byInsertion before items
  else if count ≤ 2 * shortLength then byRuns before none items
  else
    let room := max (count - count / 2) (min count stretchLength)
    byRuns before (some ⟨quick before, room⟩) items

end Console.Sorting
