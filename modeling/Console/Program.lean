import Console.Feature
import Console.Tree.Statements

/-!
# Programs

A program is what a source text means: its statements and the features it switches on. Features are
imported before anything else is done.
-/

namespace Console

structure Program where
  body : List Statement
  /-- The features that leading future imports name. -/
  future : Features

namespace Program

/-- The names that a statement imports from the future. -/
def futureNames? : Statement → Option (List String)
  | .simple _ (.importNames "__future__" names) => some names
  | _ => none

/-- Adds the named features to a set. -/
def addFeatures (line : Nat) (features : Features) : List String → Except SyntaxError Features
  | [] => .ok features
  | name :: names =>
    if name = "braces" then .error ⟨.notAChance, line, 0⟩
    else match Feature.ofName? name with
      | some feature => addFeatures line (features.union (.only feature)) names
      | none => .error ⟨.unknownFeature name, line, 0⟩

/-- The features of the leading future imports; no future import may come later. -/
def futureFrom (features : Features) : List Statement → Except SyntaxError Features
  | [] => .ok features
  | s :: rest =>
    match futureNames? s with
    | some names => do futureFrom (← addFeatures s.line features names) rest
    | none =>
      match rest.find? fun s => (futureNames? s).isSome with
      | some late => .error ⟨.lateFuture, late.line, 0⟩
      | none => .ok features

/-- The program that a source text writes. -/
def compile (source : String) (mode : Token.Mode) : Except SyntaxError Program := do
  let tokens ← Token.tokenize source mode
  let body ← Parse.program tokens mode (Token.endsWithBlankLine source)
  return ⟨body, ← futureFrom .none body⟩

end Program

end Console
