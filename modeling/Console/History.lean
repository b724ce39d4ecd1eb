import Console.Text

/-!
# History

The units that were run, oldest first, up to a greatest number. A history file holds one entry a
line, with backslashes and line feeds escaped.
-/

namespace Console

structure History where
  entries : List String
  /-- The greatest number of entries. -/
  capacity : Nat
  deriving DecidableEq, Repr

namespace History

def defaultCapacity : Nat := 1000

def empty (capacity : Nat) : History := ⟨[], capacity⟩

def size (h : History) : Nat := h.entries.length

/-- Adds a unit without the blanks behind it, unless nothing is left. The oldest entry makes room. -/
def append (h : History) (unit : String) : History :=
  let entry := Text.trimEnd unit.toList
  if entry.isEmpty || h.capacity = 0 then h
  else
    let kept := if h.capacity ≤ h.entries.length then h.entries.tail else h.entries
    { h with entries := kept ++ [String.ofList entry] }

/-- The entry `back` places before the newest. -/
def fromEnd? (h : History) (back : Nat) : Option String := h.entries.reverse[back]?

def escape (entry : List Char) : List Char :=
  entry.flatMap fun c =>
    if c = '\\' then ['\\', '\\'] else if c = '\n' then ['\\', 'n'] else [c]

/-- A backslash that escapes nothing stands for itself. -/
def unescape : List Char → List Char
  | '\\' :: 'n' :: r => '\n' :: unescape r
  | '\\' :: '\\' :: r => '\\' :: unescape r
  | '\\' :: c :: r => '\\' :: c :: unescape r
  | c :: r => c :: unescape r
  | [] => []

/-- The text of the history file. -/
def save (h : History) : String :=
  String.ofList (h.entries.flatMap fun entry => escape entry.toList ++ ['\n'])

/-- Appends every line of a history file. -/
def load (file : String) (capacity : Nat) : History :=
  (Text.lines file.toList).foldl (fun h line => h.append (String.ofList (unescape line)))
    (empty capacity)

end History

end Console
