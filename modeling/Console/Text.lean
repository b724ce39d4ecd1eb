/-!
# Texts

The blank characters are those with the White_Space property. A text is cut into physical lines at
each line feed; words are the runs between blanks. Finding, splitting and replacing rest on the first
cut of a text at a separator: what stands before its first occurrence and what stands after it.
-/

namespace Console.Text

/-- The characters with the White_Space property. -/
def isBlank (c : Char) : Bool :=
  let n := c.toNat
  (9 ≤ n && n ≤ 13) || n == 0x20 || n == 0x85 || n == 0xA0 || n == 0x1680 ||
    (0x2000 ≤ n && n ≤ 0x200A) || n == 0x2028 || n == 0x2029 || n == 0x202F || n == 0x205F ||
    n == 0x3000

/-- Only blanks, or nothing at all. -/
def allBlank (s : List Char) : Bool := s.all isBlank

def trimStart (s : List Char) : List Char := s.dropWhile isBlank

def trimEnd (s : List Char) : List Char := (s.reverse.dropWhile isBlank).reverse

def trim (s : List Char) : List Char := trimEnd (trimStart s)

/-- The pieces between the occurrences of one character; one piece more than occurrences. -/
def pieces (sep : Char) (s : List Char) : List (List Char) :=
  s.foldr (fun c done => if c = sep then [] :: done else
    match done with
    | [] => [[c]]
    | p :: ps => (c :: p) :: ps) [[]]

/-- A line that a line feed ended loses the carriage return before that line feed. -/
def dropReturn (line : List Char) : List Char :=
  match line.getLast? with
  | some '\r' => line.dropLast
  | _ => line

/-- The lines of a text. A final line feed ends the last line and starts no new one. -/
def lines (s : List Char) : List (List Char) :=
  let all := pieces '\n' s
  let ended := all.dropLast.map dropReturn
  match all.getLast? with
  | some (c :: last) => ended ++ [c :: last]
  | _ => ended

/-- The maximal runs of characters that are not blank. -/
def words (s : List Char) : List (List Char) :=
  (s.foldr (fun c (done : List Char × List (List Char)) =>
    if isBlank c then ([], if done.1.isEmpty then done.2 else done.1 :: done.2)
    else (c :: done.1, done.2)) ([], []) |> fun done =>
      if done.1.isEmpty then done.2 else done.1 :: done.2)

/-- The last word, if there is one. -/
def lastWord? (s : List Char) : Option (List Char) := (words s).getLast?

/-- `n` spaces. -/
def spaces (n : Nat) : List Char := List.replicate n ' '

/-- The text before and after the first occurrence of `sep`; `seen` is what was passed, reversed. -/
def cutFrom (sep seen : List Char) (s : List Char) : Option (List Char × List Char) :=
  if sep.isPrefixOf s then some (seen.reverse, s.drop sep.length)
  else match s with
    | [] => none
    | c :: r => cutFrom sep (c :: seen) r

/-- The text before and after the first occurrence of `sep`. -/
def cut? (sep s : List Char) : Option (List Char × List Char) := cutFrom sep [] s

/-- Whether `sep` occurs somewhere in `s`. -/
def occursIn (sep s : List Char) : Bool := (cut? sep s).isSome

/-- How many characters stand before the first occurrence. -/
def find? (sep s : List Char) : Option Nat := (cut? sep s).map (·.1.length)

/-- The pieces left by cutting at most `n` times, from the left. -/
def splitAtMost (sep : List Char) : Nat → List Char → List (List Char)
  | 0, s => [s]
  | n + 1, s =>
    match cut? sep s with
    | none => [s]
    | some (before, after) => before :: splitAtMost sep n after

/-- The pieces between all occurrences of a separator that is not empty. -/
def split (sep s : List Char) : List (List Char) := splitAtMost sep s.length s

/-- The number of occurrences, none overlapping another, among the first `n`. -/
def countUpTo (sep : List Char) : Nat → List Char → Nat
  | 0, _ => 0
  | n + 1, s =>
    match cut? sep s with
    | none => 0
    | some (_, after) => countUpTo sep n after + 1

/-- The empty text occurs before each character and at the end. -/
def count (sep s : List Char) : Nat :=
  if sep.isEmpty then s.length + 1 else countUpTo sep s.length s

def replaceUpTo (old new : List Char) : Nat → List Char → List Char
  | 0, s => s
  | n + 1, s =>
    match cut? old s with
    | none => s
    | some (before, after) => before ++ new ++ replaceUpTo old new n after

/-- `new` before each of the first `n` characters, and at the end when `n` reaches so far. -/
private def interleave (new : List Char) : Nat → List Char → List Char
  | 0, s => s
  | _ + 1, [] => new
  | n + 1, c :: r => new ++ c :: interleave new n r

/-- The first `n` occurrences of `old` replaced. -/
def replaceAtMost (old new : List Char) (n : Nat) (s : List Char) : List Char :=
  if old.isEmpty then interleave new n s else replaceUpTo old new n s

/-- Every occurrence of `old` replaced. -/
def replace (old new s : List Char) : List Char := replaceAtMost old new (s.length + 1) s

/-- Words cut off from the left at runs of blanks, at most `n` of them; the rest stays whole. -/
def wordsAtMost (isBlank : Char → Bool) : Nat → List Char → List (List Char)
  | n, s =>
    match s.dropWhile isBlank with
    | [] => []
    | c :: r =>
      match n with
      | 0 => [((c :: r).reverse.dropWhile isBlank).reverse]
      | n + 1 =>
        (c :: r).takeWhile (!isBlank ·) :: wordsAtMost isBlank n ((c :: r).dropWhile (!isBlank ·))

/-! ## Quoted text

A text is written as a string literal in single quotes, unless it holds a single quote and no double
quote. Backslash, the quote in use and control characters are escaped. -/

/-- The mark that needs the fewest escapes, a single quote where both are equal. -/
def quoteMark (s : List Char) : Char :=
  if s.contains '\x27' && !s.contains '\x22' then '\x22' else '\x27'

/-- The two low-case hexadecimal digits of a number below 256. -/
def hexPair (n : Nat) : List Char := [Nat.digitChar (n / 16), Nat.digitChar (n % 16)]

/-- One character as it is written between `mark`s. -/
def escapeChar (mark c : Char) : List Char :=
  if c = '\\' then ['\\', '\\']
  else if c = '\n' then ['\\', 'n']
  else if c = '\r' then ['\\', 'r']
  else if c = '\t' then ['\\', 't']
  else if c = mark then ['\\', c]
  else if c.toNat < 0x20 || c.toNat = 0x7F then '\\' :: 'x' :: hexPair c.toNat
  else [c]

def quote (s : List Char) : List Char :=
  let mark := quoteMark s
  mark :: s.flatMap (escapeChar mark) ++ [mark]

end Console.Text
