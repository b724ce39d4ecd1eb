/-!
# Positions in a source text

A cursor is the text still to be read together with where it starts. It only moves forward, over
characters that it hands out.
-/

namespace Console

/-- Byte offset from 0, line from 1, and column in characters from 0. -/
structure Position where
  offset : Nat
  line : Nat
  column : Nat
  deriving DecidableEq, Repr

namespace Position

/-- Where a text starts. -/
def start : Position := ⟨0, 1, 0⟩

/-- The position behind a character. -/
def next (p : Position) (c : Char) : Position :=
  if c = '\n' then ⟨p.offset + c.utf8Size, p.line + 1, 0⟩
  else ⟨p.offset + c.utf8Size, p.line, p.column + 1⟩

/-- The position behind a text. -/
def past (p : Position) (text : List Char) : Position := text.foldl next p

end Position

structure Cursor where
  rest : List Char
  pos : Position

namespace Cursor

def ofString (source : String) : Cursor := ⟨source.toList, .start⟩

def peek? (c : Cursor) : Option Char := c.rest.head?

/-- Past the next `n` characters. -/
def drop (c : Cursor) (n : Nat) : Cursor := ⟨c.rest.drop n, c.pos.past (c.rest.take n)⟩

/-- Past the characters that satisfy `p`. -/
def dropWhile (p : Char → Bool) (c : Cursor) : Cursor :=
  ⟨c.rest.dropWhile p, c.pos.past (c.rest.takeWhile p)⟩

@[simp] theorem rest_drop (c : Cursor) (n : Nat) : (c.drop n).rest = c.rest.drop n := rfl

@[simp] theorem rest_dropWhile (p : Char → Bool) (c : Cursor) :
    (c.dropWhile p).rest = c.rest.dropWhile p := rfl

theorem length_rest_dropWhile_le (p : Char → Bool) (c : Cursor) :
    (c.dropWhile p).rest.length ≤ c.rest.length :=
  (List.dropWhile_sublist p).length_le

end Cursor

end Console
