import Console.Attributes
import Console.Decimal.Layout
import Console.Text

/-!
# How values are written

`repr` writes a value so that plain data reads back; `str` writes texts and messages as they are. An
instance is written by the method of its class, if it has one. A container inside itself is written
as an ellipsis.
-/

namespace Console

/-- How to call a value, and how deep an evaluation may still go. -/
structure Caller where
  call : Value → Arguments → Eval Value
  depth : Nat

namespace Eval

/-- A list or a dict that is being written. -/
inductive Container
  | list (r : Ref .list)
  | dict (r : Ref .dict)
  deriving DecidableEq

/-- A number that tells objects apart, as it stands behind the word `at`. -/
def address (kind : Nat) (index : Nat) : String :=
  "0x" ++ String.ofList (Nat.toDigits 16 (0x7f0000000000 + 64 * index + 16 * kind))

def quoted (s : String) : String := String.ofList (Text.quote s.toList)

/-- The text that a method without arguments returns. -/
def callForText (caller : Caller) (object : Value) (method : String) : Eval String := do
  match ← caller.call (← getAttr object method) ⟨[], []⟩ with
  | .str s => return s
  | v => fail (.notText method v.typeName)

def parenthesised : List String → String
  | [one] => "(" ++ one ++ ",)"
  | many => "(" ++ ", ".intercalate many ++ ")"

/-- Values that are no containers and have no method to write them. -/
def plainRepr (h : Heap) : Value → String
  | .none => "None"
  | .bool true => "True"
  | .bool false => "False"
  | .int n => toString n.toInt
  | .float x => Decimal.floatText x
  | .str s => quoted s
  | .function r => "<function " ++ (h.function r).name ++ " at " ++ address 0 r.index ++ ">"
  | .builtin b => "<built-in function " ++ b.name ++ ">"
  | .listMethod _ m => "<built-in method " ++ m.name ++ " of list object>"
  | .strMethod _ m => "<built-in method " ++ m.name ++ " of str object>"
  | .dictMethod _ m => "<built-in method " ++ m.name ++ " of dict object>"
  | .cls r => "<class '__main__." ++ (h.cls r).name ++ "'>"
  | .instance r =>
    "<__main__." ++ (h.cls (h.inst r).cls).name ++ " object at " ++ address 1 r.index ++ ">"
  | .boundMethod r f =>
    "<bound method " ++ (h.cls (h.inst r).cls).name ++ "." ++ (h.function f).name ++ ">"
  | .exceptionType k => "<class '" ++ k.name ++ "'>"
  | .exception r =>
    let e := h.exception r
    e.kind.name ++ "(" ++ (if e.message.isEmpty then "" else quoted e.message) ++ ")"
  | .list _ | .tuple _ | .dict _ => ""

/-- Evaluations that note the containers being written, the innermost first. What they noted stays
noted when they fail. -/
abbrev Writing := ExceptT Exception (StateT (List Container) Eval)

namespace Writing

variable {α β : Type}

/-- An evaluation that notes no containers. -/
def ofEval (x : Eval α) : Writing α := ExceptT.mk (StateT.lift (attempt x))

/-- Writes what is in a container: it is noted first, and struck out again however that ends. -/
def inside (c : Container) (x : Writing α) : Writing α := ExceptT.mk do
  modify (c :: ·)
  let result ← x.run
  modify List.tail
  return result

/-- Writes the second even if the first fails, whose failure counts. -/
def both (x : Writing α) (y : Writing β) : Writing (α × β) := ExceptT.mk do
  let a ← x.run
  let b ← y.run
  return do return (← a, ← b)

/-- Writes a value, `depth` containers deep at most. -/
def value (caller : Caller) : (depth : Nat) → Value → Writing String
  | 0, _ => ofEval exhausted
  | depth + 1, v => do
    match v with
    | .list r =>
      if (← get).contains (.list r) then return "[...]"
      else inside (.list r) do
        let parts ← (← ofEval (ask (·.list r))).toList.mapM (value caller depth)
        return "[" ++ ", ".intercalate parts ++ "]"
    | .tuple r =>
      let parts ← (← ofEval (ask (·.tuple r))).toList.mapM (value caller depth)
      return parenthesised parts
    | .dict r =>
      if (← get).contains (.dict r) then return "\x7b...\x7d"
      else inside (.dict r) do
        let parts ← (← ofEval (ask (·.dict r))).toList.mapM fun e => do
          let (key, value) ← both (value caller depth e.1) (value caller depth e.2)
          return key ++ ": " ++ value
        return "\x7b" ++ ", ".intercalate parts ++ "\x7d"
    | .instance r => ofEval do
      if (← ask fun h => h.classAttr? (h.inst r).cls "__repr__").isSome then
        callForText caller v "__repr__"
      else ask (plainRepr · v)
    | v => ofEval (ask (plainRepr · v))

end Writing

/-- Writes a value as deep as the heap goes, and as deep as the evaluation may go where methods that
write instances change the heap. -/
def repr (caller : Caller) (v : Value) : Eval String := do
  let depth ← ask fun h => caller.depth + h.unfoldedDepth
  let (text, _) ← (Writing.value caller depth v).run.run []
  ofExcept text

def str (caller : Caller) (v : Value) : Eval String := do
  match v with
  | .str s => return s
  | .exception r => return (← ask (·.exception r)).message
  | .instance r =>
    if (← ask fun h => h.classAttr? (h.inst r).cls "__str__").isSome then
      callForText caller v "__str__"
    else repr caller v
  | v => repr caller v

end Eval

end Console
