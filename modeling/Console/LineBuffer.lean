/-!
# The line buffer

The committed lines of the unit being typed, and the line under the cursor.
-/

namespace Console

structure LineBuffer where
  /-- Committed lines, first one first. -/
  lines : List String
  current : String
  deriving DecidableEq, Repr

namespace LineBuffer

def empty : LineBuffer := ⟨[], ""⟩

/-- A line without the line ends behind it. -/
def withoutLineEnd (line : String) : String :=
  String.ofList (line.toList.reverse.dropWhile fun c => c == '\n' || c == '\r').reverse

def push (b : LineBuffer) (line : String) : LineBuffer :=
  { b with lines := b.lines ++ [withoutLineEnd line] }

/-- Takes back the last committed line. -/
def pop (b : LineBuffer) : Option String × LineBuffer :=
  (b.lines.getLast?, { b with lines := b.lines.dropLast })

def setCurrent (b : LineBuffer) (text : String) : LineBuffer := { b with current := text }

/-- Drops the committed lines; the current one stays. -/
def clear (b : LineBuffer) : LineBuffer := { b with lines := [] }

def isEmpty (b : LineBuffer) : Bool := b.lines.isEmpty

/-- The committed lines as one text. -/
def text (b : LineBuffer) : String := "\n".intercalate b.lines

/-- The committed lines and the current one as one text. -/
def block (b : LineBuffer) : String := "\n".intercalate (b.lines ++ [b.current])

end LineBuffer

end Console
