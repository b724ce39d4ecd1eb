import Console.Arguments
import Console.Format.Braces
import Console.Operators
import Console.Text
import Console.Text.Case

/-!
# Methods of texts

Places and lengths count characters.
-/

namespace Console.StrMethod

open Eval

/-- The text of an argument that must be one. -/
def expectText (what : String) : Value → Except Fault (List Char)
  | .str s => .ok s.toList
  | v => .error (.expectedString what v.typeName)

def text (s : List Char) : Value := .str (String.ofList s)

def texts (all : List (List Char)) : Eval Value := newList (all.map text).toArray

def mapped (name : String) (map : List Char → Value) (s : List Char) (args : Arguments) :
    Eval Value := do
  ofFault (args.none name)
  return map s

def isDigits (s : List Char) : Bool := !s.isEmpty && s.all Char.isDigit

/-- The characters that an argument asks to strip; blanks if it is missing or none. -/
def stripped : Option Value → Except Fault (Char → Bool)
  | none | some .none => .ok Text.isBlank
  | some v => do
    let set ← expectText "strip arg" v
    return set.contains

def callStrip (name : String) (left right : Bool) (s : List Char) (args : Arguments) :
    Eval Value := do
  let drop ← ofFault (stripped (← ofFault (args.upToOne name)))
  let s := if left then s.dropWhile drop else s
  return text (if right then (s.reverse.dropWhile drop).reverse else s)

/-- How often a split may cut; a negative limit is none. -/
def splitLimit : Option Value → Except Fault (Option Nat)
  | none => .ok none
  | some v =>
    match v.asInt? with
    | none => .error .splitLimit
    | some n => .ok (if n < 0 then none else some n.toInt.toNat)

def splitAround (sep : List Char) (limit : Option Nat) (s : List Char) : List (List Char) :=
  match limit with
  | none => Text.split sep s
  | some n => Text.splitAtMost sep n s

def splitWords (limit : Option Nat) (s : List Char) : List (List Char) :=
  match limit with
  | none => Text.words s
  | some n => Text.wordsAtMost Text.isBlank n s

def callSplit (s : List Char) (args : Arguments) : Eval Value := do
  let (sep, limit) ← ofFault (args.upToTwo "split")
  let limit ← ofFault (splitLimit limit)
  match sep with
  | none | some .none => texts (splitWords limit s)
  | some sep =>
    let sep ← ofFault (expectText "separator" sep)
    if sep.isEmpty then fail .emptySeparator
    texts (splitAround sep limit s)

/-- The texts of values that must all be texts, the first of them at a given place. -/
def joinable (place : Nat) : List Value → Except Fault (List String)
  | [] => .ok []
  | .str s :: rest => do return s :: (← joinable (place + 1) rest)
  | v :: _ => .error (.joinItem place v.typeName)

def callJoin (s : String) (args : Arguments) : Eval Value := do
  let all ← items (← ofFault (args.one "join"))
  return .str (s.intercalate (← ofFault (joinable 0 all.toList)))

def callStartswith (s : List Char) (args : Arguments) : Eval Value := do
  let start ← ofFault (expectText "startswith" (← ofFault (args.one "startswith")))
  return .bool (start.isPrefixOf s)

def callEndswith (s : List Char) (args : Arguments) : Eval Value := do
  let ending ← ofFault (expectText "endswith" (← ofFault (args.one "endswith")))
  return .bool (ending.isSuffixOf s)

/-- Replaces every occurrence, or the first few if a count that is not negative says so. -/
def callReplace (s : List Char) (args : Arguments) : Eval Value := do
  let (old, new, limit) ← ofFault (args.twoOrThree "replace")
  let old ← ofFault (expectText "replace() argument 1" old)
  let new ← ofFault (expectText "replace() argument 2" new)
  match limit.bind (·.asInt?) with
  | some n =>
    if n < 0 then return text (Text.replace old new s)
    else return text (Text.replaceAtMost old new n.toInt.toNat s)
  | none => return text (Text.replace old new s)

def callFind (s : List Char) (args : Arguments) : Eval Value := do
  let part ← ofFault (expectText "find() argument" (← ofFault (args.one "find")))
  return .int ((Text.find? part s).elim (-1) .ofNat)

def callCount (s : List Char) (args : Arguments) : Eval Value := do
  let part ← ofFault (expectText "count() argument" (← ofFault (args.one "count")))
  return .int (.ofNat (Text.count part s))

def call (caller : Caller) (s : String) : StrMethod → Arguments → Eval Value
  | count => callCount s.toList
  | endswith => callEndswith s.toList
  | find => callFind s.toList
  | format => fun args => do return .str (← Format.Braces.format caller s args)
  | isdigit => mapped "isdigit" (fun s => .bool (isDigits s)) s.toList
  | join => callJoin s
  | lower => mapped "lower" (fun s => text (Text.toLower s)) s.toList
  | lstrip => callStrip "lstrip" true false s.toList
  | replace => callReplace s.toList
  | rstrip => callStrip "rstrip" false true s.toList
  | split => callSplit s.toList
  | startswith => callStartswith s.toList
  | strip => callStrip "strip" true true s.toList
  | upper => mapped "upper" (fun s => text (Text.toUpper s)) s.toList

end Console.StrMethod
