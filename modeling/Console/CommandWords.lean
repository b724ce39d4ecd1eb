import Console.Text

/-!
# Words of a command line

A command is split at blanks. A backslash keeps the next character as it is; single quotes keep
everything between them, double quotes everything but backslashes.
-/

namespace Console.CommandWords

open Text

/-- Where the reader of a command stands. -/
structure Reader where
  /-- The quote it is inside of. -/
  mark : Option Char
  /-- The word begun, in reverse; a word may be begun and empty. -/
  word : Option (List Char)
  /-- The words ended, in reverse. -/
  done : List String

namespace Reader

def start : Reader := ⟨none, none, []⟩

def addChar (r : Reader) (c : Char) : Reader := { r with word := some (c :: r.word.getD []) }

/-- Ends the word begun, if there is one. -/
def endWord (r : Reader) : Reader :=
  match r.word with
  | some w => { r with word := none, done := String.ofList w.reverse :: r.done }
  | none => r

/-- The word begun, now or before. -/
def beginWord (r : Reader) : Reader := { r with word := some (r.word.getD []) }

end Reader

/-- Reads on to the end of the command. -/
def readFrom (r : Reader) : List Char → Reader
  | [] => r
  | c :: rest =>
    if r.mark = some c then readFrom { r with mark := none } rest
    else if c = '\\' ∧ r.mark ≠ some '\x27' then
      match rest with
      | next :: rest => readFrom (r.addChar next) rest
      | [] => r.beginWord
    else if r.mark.isSome then readFrom (r.addChar c) rest
    else if c = '\x27' ∨ c = '\x22' then readFrom { r.beginWord with mark := some c } rest
    else if isBlank c then readFrom r.endWord rest
    else readFrom (r.addChar c) rest

/-- The words of a command. -/
def split (command : String) : List String :=
  (readFrom .start command.toList).endWord.done.reverse

end Console.CommandWords
