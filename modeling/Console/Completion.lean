import Console.Token
import Console.Text.Letters

/-!
# Completion

The reserved words and known names that the word before the cursor starts, in order and each once.
-/

namespace Console.Completion

open Text

/-- The characters up to a byte offset. -/
def takeBytes : Nat → List Char → List Char
  | _, [] => []
  | n, c :: r => if c.utf8Size ≤ n then c :: takeBytes (n - c.utf8Size) r else []

/-- The word that ends a text. -/
def wordBefore (text : List Char) : List Char := (text.reverse.takeWhile isNamePart).reverse

/-- Sorted, and each word once. -/
def inOrder (words : List String) : List String :=
  (words.mergeSort fun a b => !(b < a)).eraseReps

/-- Where the word before the cursor starts, and what may replace it. -/
def complete (line : String) (offset : Nat) (names : List String) : Nat × List String :=
  let word := wordBefore (takeBytes offset line.toList)
  if word.isEmpty then (offset, [])
  else
    (offset - (String.ofList word).utf8ByteSize,
      inOrder ((keywords ++ names).filter fun candidate => word.isPrefixOf candidate.toList))

end Console.Completion
