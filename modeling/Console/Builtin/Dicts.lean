import Console.Arguments
import Console.Subscript

/-!
# Methods of dicts
-/

namespace Console

namespace Eval

/-- The two items of a pair that makes an entry; `position` counts the pairs. -/
def pairOf (position : Nat) (v : Value) : Eval (Value × Value) := do
  match (← items v).toList with
  | [key, value] =>
    checkHashable key
    return (key, value)
  | other => fail (.pairLength position other.length)

def pairsFrom (position : Nat) (done : Array (Value × Value)) :
    List Value → Eval (Array (Value × Value))
  | [] => return done
  | v :: rest => do
    let pair ← pairOf position v
    pairsFrom (position + 1) (done.push pair) rest

/-- The entries of a dict, or the pairs that another value holds. -/
def pairs (v : Value) : Eval (Array (Value × Value)) := do
  match v with
  | .dict r => ask (·.dict r)
  | v => pairsFrom 0 #[] (← items v).toList

/-- Keywords as entries. -/
def keywordPairs (keywords : List (String × Value)) : List (Value × Value) :=
  keywords.map fun k => (.str k.1, k.2)

/-- The entries with pairs put in one after the other. -/
def insertAll (entries : Array (Value × Value)) (pairs : List (Value × Value)) :
    Eval (Array (Value × Value)) :=
  pairs.foldlM (fun done pair => insertInto done pair.1 pair.2) entries

end Eval

namespace DictMethod

open Eval

def callItems (r : Ref .dict) (args : Arguments) : Eval Value := do
  ofFault (args.none "items")
  newList (← (← ask (·.dict r)).mapM fun e => newTuple #[e.1, e.2])

def callKeys (r : Ref .dict) (args : Arguments) : Eval Value := do
  ofFault (args.none "keys")
  newList ((← ask (·.dict r)).map (·.1))

def callValues (r : Ref .dict) (args : Arguments) : Eval Value := do
  ofFault (args.none "values")
  newList ((← ask (·.dict r)).map (·.2))

def callGet (r : Ref .dict) (args : Arguments) : Eval Value := do
  let (key, default) ← ofFault (args.oneOrTwo "get")
  return (← lookup? r key).getD (default.getD .none)

def callSetdefault (r : Ref .dict) (args : Arguments) : Eval Value := do
  let (key, default) ← ofFault (args.oneOrTwo "setdefault")
  match ← lookup? r key with
  | some v => return v
  | none =>
    let v := default.getD .none
    changeDict r (·.push (key, v))
    return v

def callPop (caller : Caller) (r : Ref .dict) (args : Arguments) : Eval Value := do
  let (key, default) ← ofFault (args.oneOrTwo "pop")
  match ← placeOfKey? r key, default with
  | some i, _ =>
    let v := (← ask (·.dict r))[i]?.elim .none (·.2)
    changeDict r (·.eraseIdxIfInBounds i)
    return v
  | none, some default => return default
  | none, none => keyMissing caller key

/-- The dict changes only when all pairs are known. -/
def callUpdate (r : Ref .dict) (args : Arguments) : Eval Value := do
  let given ← match args.positional with
    | [] => pure #[]
    | [v] => pairs v
    | _ => fail .updateCount
  let more := given.toList ++ keywordPairs args.keywords
  setDict r (← insertAll (← ask (·.dict r)) more)
  return .none

def call (caller : Caller) (r : Ref .dict) : DictMethod → Arguments → Eval Value
  | get => callGet r
  | items => callItems r
  | keys => callKeys r
  | pop => callPop caller r
  | setdefault => callSetdefault r
  | update => callUpdate r
  | values => callValues r

end DictMethod

end Console
