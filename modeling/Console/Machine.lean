import Console.Fault
import Console.Feature
import Console.Heap.Equality

/-!
# The machine

What a running program changes: the heap, the global names, the built-in ones, the features in force,
the output and the depth of calls. An evaluation raises an exception, gives up, or yields a
value; what it changed stays changed either way.
-/

namespace Console

structure Machine where
  heap : Heap
  globals : Bindings
  /-- What names stand for that are bound nowhere; `_` is the last value shown. -/
  builtins : Bindings
  features : Features
  output : String
  /-- The number of functions being run. -/
  depth : Nat

namespace Machine

/-- The functions and the exceptions that are built in. -/
def registered : Bindings :=
  Builtin.all.map (fun b => (b.name, .builtin b)) ++
    ExceptionKind.all.map fun kind => (kind.name, .exceptionType kind)

def fresh : Machine := ⟨.empty, [], registered, .none, "", 0⟩

/-- The deepest nesting of function calls. -/
def maxDepth : Nat := 100

end Machine

/-- Why an evaluation yields no value. -/
inductive Stop
  | raised (e : Exception)
  /-- The evaluation was not given enough steps. -/
  | exhausted
  /-- A number that nothing checks did not fit, which ends the whole process. -/
  | crashed
  deriving DecidableEq, Repr

abbrev Eval := EStateM Stop Machine

namespace Eval

def fail {α : Type} (f : Fault) : Eval α := throw (.raised f.exception)

def exhausted {α : Type} : Eval α := throw .exhausted

/-- An answer that may have needed more depth than it was given. -/
def ofDepth {α : Type} : Option α → Eval α
  | some a => return a
  | none => exhausted

/-- A number that is computed without a check; the process ends where it does not fit. -/
def ofUnchecked {α : Type} : Option α → Eval α
  | some a => return a
  | none => throw .crashed

/-- The value, or the exception that was raised instead. -/
def attempt {α : Type} (x : Eval α) : Eval (Except Exception α) := fun m =>
  match x m with
  | .ok a m => .ok (.ok a) m
  | .error (.raised e) m => .ok (.error e) m
  | .error .exhausted m => .error .exhausted m
  | .error .crashed m => .error .crashed m

/-- Notes the line on an exception that has none yet. -/
def located {α : Type} (line : Nat) (x : Eval α) : Eval α := fun m =>
  match x m with
  | .error (.raised e) m => .error (.raised (e.atLine line)) m
  | result => result

def ofExcept {α : Type} : Except Exception α → Eval α
  | .ok a => return a
  | .error e => throw (.raised e)

/-- A result that may be a fault. -/
def ofFault {α : Type} : Except Fault α → Eval α
  | .ok a => return a
  | .error f => fail f

/-- What a question to the heap answers. -/
def ask {α : Type} (question : Heap → α) : Eval α := return question (← get).heap

def changeHeap (change : Heap → Heap) : Eval Unit :=
  modify fun m => { m with heap := change m.heap }

def write (text : String) : Eval Unit := modify fun m => { m with output := m.output ++ text }

def newList (items : Array Value) : Eval Value := do
  let index ← ask (·.lists.size)
  changeHeap fun h => { h with lists := h.lists.push items }
  return .list ⟨index⟩

def newTuple (items : Array Value) : Eval Value := do
  let index ← ask (·.tuples.size)
  changeHeap fun h => { h with tuples := h.tuples.push items }
  return .tuple ⟨index⟩

def newDict (entries : Array (Value × Value)) : Eval Value := do
  let index ← ask (·.dicts.size)
  changeHeap fun h => { h with dicts := h.dicts.push entries }
  return .dict ⟨index⟩

def newFunction (f : FunctionObject) : Eval Value := do
  let index ← ask (·.functions.size)
  changeHeap fun h => { h with functions := h.functions.push f }
  return .function ⟨index⟩

def newClass (c : ClassObject) : Eval Value := do
  let index ← ask (·.classes.size)
  changeHeap fun h => { h with classes := h.classes.push c }
  return .cls ⟨index⟩

def newInstance (c : Ref .cls) : Eval (Ref .inst) := do
  let index ← ask (·.instances.size)
  changeHeap fun h => { h with instances := h.instances.push ⟨c, []⟩ }
  return ⟨index⟩

def newException (kind : ExceptionKind) (message : String) : Eval Value := do
  let index ← ask (·.exceptions.size)
  changeHeap fun h => { h with exceptions := h.exceptions.push ⟨kind, message⟩ }
  return .exception ⟨index⟩

def newScope (vars : Bindings) (parent : Option (Ref .scope)) : Eval (Ref .scope) := do
  let index ← ask (·.scopes.size)
  changeHeap fun h => { h with scopes := h.scopes.push ⟨vars, parent⟩ }
  return ⟨index⟩

def changeList (r : Ref .list) (change : Array Value → Array Value) : Eval Unit :=
  changeHeap fun h => { h with lists := h.lists.modify r.index change }

def setDict (r : Ref .dict) (entries : Array (Value × Value)) : Eval Unit :=
  changeHeap fun h => { h with dicts := h.dicts.modify r.index fun _ => entries }

def changeDict (r : Ref .dict) (change : Array (Value × Value) → Array (Value × Value)) :
    Eval Unit :=
  changeHeap fun h => { h with dicts := h.dicts.modify r.index change }

def changeClass (r : Ref .cls) (change : Bindings → Bindings) : Eval Unit :=
  changeHeap fun h =>
    { h with classes := h.classes.modify r.index fun c => { c with attrs := change c.attrs } }

def changeInstance (r : Ref .inst) (change : Bindings → Bindings) : Eval Unit :=
  changeHeap fun h =>
    { h with instances := h.instances.modify r.index fun i => { i with attrs := change i.attrs } }

def changeScope (r : Ref .scope) (change : Bindings → Bindings) : Eval Unit :=
  changeHeap fun h =>
    { h with scopes := h.scopes.modify r.index fun s => { s with vars := change s.vars } }

def equals (a b : Value) : Eval Bool := do ofDepth (← ask (·.equals a b))

/-- Fails on values that can not be keys. -/
def checkHashable (v : Value) : Eval Unit := do
  match ← ask (·.unhashable? v) with
  | some type => fail (.unhashable type)
  | none => return

/-- How a pair of values is ordered; none if one is not a number. -/
def order (a b : Value) : Eval (Option Ordering) := do
  match ← ask (·.orders a b) with
  | .order o => return some o
  | .unordered => return none
  | .unorderable left right => fail (.unorderable left right)
  | .tooDeep => exhausted

/-- The items of a value that can be gone through, as they are now. -/
def items (v : Value) : Eval (Array Value) := do
  match v with
  | .list r => ask (·.list r)
  | .tuple r => ask (·.tuple r)
  | .str s => return (s.toList.map fun c => Value.str (String.singleton c)).toArray
  | .dict r => return (← ask (·.dict r)).map (·.1)
  | v => fail (.notIterable v.typeName)

end Eval

end Console
