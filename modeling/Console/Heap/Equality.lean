import Console.Heap

/-!
# Identity, equality and order

Equality and order go through containers; `depth` bounds how far, and running out of it is neither
answer. A comparison that ends comes to no pair of containers within itself, so a depth beyond the
number of such pairs suffices.
-/

namespace Console

namespace Value

/-- Being the same object; plain values are the same if they are equal. -/
def identical : Value → Value → Bool
  | .none, .none => true
  | .bool a, .bool b => a == b
  | .int a, .int b => a == b
  | .str a, .str b => a == b
  | .list a, .list b => a = b
  | .tuple a, .tuple b => a = b
  | .dict a, .dict b => a = b
  | .function a, .function b => a = b
  | .cls a, .cls b => a = b
  | .instance a, .instance b => a = b
  | .exceptionType a, .exceptionType b => a = b
  | .builtin a, .builtin b => a = b
  | _, _ => false

/-- Equality of values that are no containers. A whole number equals the double it converts to. -/
def plainEqual : Value → Value → Bool
  | .int a, .float b | .float b, .int a => a.toFloat == b
  | .bool a, .int b | .int b, .bool a => (if a then 1 else 0) == b
  | .float a, .float b => a == b
  | .exception a, .exception b => a = b
  | a, b => identical a b

end Value

/-- Whether two sequences have equal length and equal items, by a test that may not answer. -/
def equalAll (test : Value → Value → Option Bool) : List Value → List Value → Option Bool
  | a :: as, b :: bs => do if ← test a b then equalAll test as bs else return false
  | _, _ => some true

/-- Whether some item satisfies a test that may not answer; items are tried from the left. -/
def findEqual {α : Type} (test : α → Option Bool) : List α → Option Bool
  | [] => some false
  | a :: as => do if ← test a then return true else findEqual test as

/-- Whether every item satisfies a test that may not answer. -/
def holdsForAll {α : Type} (test : α → Option Bool) : List α → Option Bool
  | [] => some true
  | a :: as => do if ← test a then holdsForAll test as else return false

/-- How two values are ordered. -/
inductive Ordered
  | order (o : Ordering)
  /-- Neither is less, nor are they equal: one is not a number. -/
  | unordered
  /-- Values of these types have no order. -/
  | unorderable (left right : String)
  | tooDeep
  deriving DecidableEq, Repr

def compareFloats (x y : Float) : Ordered :=
  if x < y then .order .lt else if x == y then .order .eq else if y < x then .order .gt
  else .unordered

def compareNumbers : Number → Number → Ordered
  | .int a, .int b => .order (compare a.toInt b.toInt)
  | a, b => compareFloats a.toFloat b.toFloat

namespace Heap

/-- Equality of values. A list equals itself whatever is in it; of two dicts each entry of the first
must have an equal one in the second. -/
def equal (h : Heap) : (depth : Nat) → Value → Value → Option Bool
  | 0, _, _ => none
  | depth + 1, a, b =>
    match a, b with
    | .list r, .list s =>
      if r = s then some true
      else if (h.list r).size ≠ (h.list s).size then some false
      else equalAll (equal h depth) (h.list r).toList (h.list s).toList
    | .tuple r, .tuple s =>
      if (h.tuple r).size ≠ (h.tuple s).size then some false
      else equalAll (equal h depth) (h.tuple r).toList (h.tuple s).toList
    | .dict r, .dict s =>
      if (h.dict r).size ≠ (h.dict s).size then some false
      else holdsForAll (fun e => findEqual (fun e' => do
        if ← equal h depth e.1 e'.1 then equal h depth e.2 e'.2 else return false)
        (h.dict s).toList) (h.dict r).toList
    | a, b => some (a.plainEqual b)

/-- The order of two sequences is that of their first unequal items, or of their lengths. -/
def orderItems (equal : Value → Value → Option Bool) (order : Value → Value → Ordered) :
    List Value → List Value → Ordered
  | a :: as, b :: bs =>
    match equal a b with
    | some true => orderItems equal order as bs
    | some false => order a b
    | none => .tooDeep
  | [], [] => .order .eq
  | [], _ :: _ => .order .lt
  | _ :: _, [] => .order .gt

/-- The order of two values: of numbers, of texts, of lists and of tuples. -/
def order (h : Heap) : (depth : Nat) → Value → Value → Ordered
  | 0, _, _ => .tooDeep
  | depth + 1, a, b =>
    match a.asNumber?, b.asNumber? with
    | some m, some n => compareNumbers m n
    | _, _ =>
      match a, b with
      | .str s, .str t => .order (compareOfLessAndEq s t)
      | .list r, .list s =>
        orderItems (h.equal depth) (order h depth) (h.list r).toList (h.list s).toList
      | .tuple r, .tuple s =>
        orderItems (h.equal depth) (order h depth) (h.tuple r).toList (h.tuple s).toList
      | a, b => .unorderable a.typeName b.typeName

/-- The number of pairs of containers, each compared by equality and by order. -/
def comparisons (h : Heap) : Nat := 2 * (h.containers * h.containers)

theorem containers_le_comparisons (h : Heap) : h.containers ≤ h.comparisons := by
  have square := Nat.le_mul_self h.containers
  unfold comparisons
  omega

/-- More than any path through comparisons that comes to none twice. -/
def depth (h : Heap) : Nat := h.comparisons + 2

/-- Equality as far as the heap is deep. -/
def equals (h : Heap) (a b : Value) : Option Bool := h.equal h.depth a b

/-- Order as far as the heap is deep. -/
def orders (h : Heap) (a b : Value) : Ordered := h.order h.depth a b

/-- The type that keeps a value from being a key: lists and dicts, alone or in tuples. -/
def unhashableIn? (h : Heap) : (steps : Nat) → Value → Option String
  | 0, _ => none
  | steps + 1, v =>
    match v with
    | .list _ | .dict _ => some v.typeName
    | .tuple r => (h.tuple r).toList.findSome? (unhashableIn? h steps)
    | _ => none

def unhashable? (h : Heap) (v : Value) : Option String := h.unhashableIn? (h.tuples.size + 1) v

/-- The value of the first entry with an equal key. -/
def lookupEntry (h : Heap) (key : Value) : List (Value × Value) → Option (Option Value)
  | [] => some none
  | (k, v) :: rest => do if ← h.equals k key then return some v else lookupEntry h key rest

/-- The place of the first item that satisfies a test, if the test answers. -/
def indexOf {α : Type} (test : α → Option Bool) (items : List α) : Option (Option Nat) :=
  go 0 items
where
  go (i : Nat) : List α → Option (Option Nat)
    | [] => some none
    | a :: as => do if ← test a then return some i else go (i + 1) as

/-- Puts a value under a key: in its place if an equal key is there, else at the end. -/
def insertEntry (h : Heap) (entries : Array (Value × Value)) (key value : Value) :
    Option (Array (Value × Value)) := do
  match ← indexOf (fun e => h.equals e.1 key) entries.toList with
  | some i => return entries.modify i fun e => (e.1, value)
  | none => return entries.push (key, value)

end Heap

end Console
