import Console.Decimal.Reading
import Console.Text

/-!
# Settings files

The part of TOML that settings need: one `key = value` a line, where a value is a text, a whole number
or a truth value. A file with anything else in it, tables and lists included, is refused as a whole.
-/

namespace Console.Toml

inductive Value
  | text (s : String)
  | whole (n : Int)
  | truth (b : Bool)
  deriving DecidableEq, Repr

/-- What a reader took from the front of a text, and what it left. -/
abbrev Read (α : Type) := Option (α × List Char)

def isSpace (c : Char) : Bool := c == ' ' || c == '\t'

/-- Control characters, which may stand in no text and no comment; the tab is none. -/
def isControl (c : Char) : Bool := (c.toNat < 0x20 && c != '\t') || c.toNat == 0x7F

/-- A character by its number in so many hexadecimal digits. -/
def readHex (width : Nat) (s : List Char) : Read Char :=
  if s.length < width then none
  else
    match Decimal.readNat? 16 (s.take width) with
    | some n => if n.isValidChar then some (Char.ofNat n, s.drop width) else none
    | none => none

/-- The character that the text behind a backslash stands for. -/
def readEscape : List Char → Read Char
  | 'b' :: r => some ('\x08', r)
  | 't' :: r => some ('\t', r)
  | 'n' :: r => some ('\n', r)
  | 'f' :: r => some ('\x0c', r)
  | 'r' :: r => some ('\r', r)
  | 'e' :: r => some ('\x1b', r)
  | '\x22' :: r => some ('\x22', r)
  | '\\' :: r => some ('\\', r)
  | 'x' :: r => readHex 2 r
  | 'u' :: r => readHex 4 r
  | 'U' :: r => readHex 8 r
  | _ => none

/-- The rest of a text in double quotes; `done` is what came before, reversed. -/
def readBasic (done : List Char) (s : List Char) : Read (List Char) :=
  match s with
  | [] => none
  | '\x22' :: r => some (done.reverse, r)
  | '\\' :: r =>
    match readEscape r with
    | some (c, rest) =>
      if _shorter : rest.length ≤ r.length then readBasic (c :: done) rest else none
    | none => none
  | c :: r => if isControl c then none else readBasic (c :: done) r
termination_by s.length

/-- The rest of a text in single quotes. -/
def readLiteral (done : List Char) : List Char → Read (List Char)
  | [] => none
  | '\x27' :: r => some (done.reverse, r)
  | c :: r => if isControl c then none else readLiteral (c :: done) r

/-- The end of a text over several lines: three marks, before which up to two belong to the text. -/
def readClosing (mark : Char) (done : List Char) (s : List Char) : Read (List Char) :=
  let marks := min (s.takeWhile (· == mark)).length 5
  if marks < 3 then none
  else some ((List.replicate (marks - 3) mark ++ done).reverse, s.drop marks)

/-- What is left behind spaces and line ends. A carriage return ends a line only before a line feed. -/
def skipBlanks : List Char → List Char
  | [] => []
  | '\r' :: '\n' :: r => skipBlanks r
  | c :: r => if isSpace c || c == '\n' then skipBlanks r else c :: r

/-- What follows a backslash at the end of a line: the text goes on at the next character that is no
blank. -/
def joinedLine? (s : List Char) : Option (List Char) :=
  match s.dropWhile isSpace with
  | '\n' :: r | '\r' :: '\n' :: r => some (skipBlanks r)
  | _ => none

/-- The rest of a text over several lines, which keeps its line ends as they are written. Backslashes
escape in double quotes alone. -/
def readLong (mark : Char) (done : List Char) (s : List Char) : Read (List Char) :=
  match readClosing mark done s with
  | some result => some result
  | none =>
    match s with
    | [] => none
    | '\r' :: '\n' :: r => readLong mark ('\n' :: '\r' :: done) r
    | c :: r =>
      if c = '\\' ∧ mark = '\x22' then
        match joinedLine? r, readEscape r with
        | some rest, _ =>
          if _shorter : rest.length ≤ r.length then readLong mark done rest else none
        | none, some (c, rest) =>
          if _shorter : rest.length ≤ r.length then readLong mark (c :: done) rest else none
        | none, none => none
      else if isControl c && c != '\n' then none
      else readLong mark (c :: done) r
termination_by s.length

/-- A text over several lines starts behind a line feed that follows its opening marks. -/
def skipFirstLineFeed : List Char → List Char
  | '\n' :: r | '\r' :: '\n' :: r => r
  | r => r

def readText : List Char → Read (List Char)
  | '\x22' :: '\x22' :: '\x22' :: r => readLong '\x22' [] (skipFirstLineFeed r)
  | '\x27' :: '\x27' :: '\x27' :: r => readLong '\x27' [] (skipFirstLineFeed r)
  | '\x22' :: r => readBasic [] r
  | '\x27' :: r => readLiteral [] r
  | _ => none

/-- Digits with single underscores between them. -/
def digits? (radix : Nat) (s : List Char) : Option Nat :=
  let groups := Text.pieces '_' s
  if groups.any List.isEmpty then none else Decimal.readNat? radix groups.flatten

/-- Decimal digits without a zero in front. -/
def decimal? (s : List Char) : Option Nat :=
  match s with
  | '0' :: _ :: _ => none
  | s => digits? 10 s

def whole? : List Char → Option Int
  | '0' :: 'x' :: r => (digits? 16 r).map Int.ofNat
  | '0' :: 'o' :: r => (digits? 8 r).map Int.ofNat
  | '0' :: 'b' :: r => (digits? 2 r).map Int.ofNat
  | '+' :: r => (decimal? r).map Int.ofNat
  | '-' :: r => (decimal? r).map fun n => -(n : Int)
  | r => (decimal? r).map Int.ofNat

/-- The characters of numbers, dates and truth values. -/
def isWordChar (c : Char) : Bool := c.isAlphanum || "_+-.:".toList.contains c

def readWord (s : List Char) : Read Value :=
  let word := s.takeWhile isWordChar
  let value :=
    if word = "true".toList then some (.truth true)
    else if word = "false".toList then some (.truth false)
    else (whole? word).map .whole
  value.map fun v => (v, s.dropWhile isWordChar)

def isKeyChar (c : Char) : Bool := c.isAlphanum || c == '_' || c == '-'

/-- A key: a bare word, or a text of one line in quotes. -/
def readKey : List Char → Read (List Char)
  | '\x22' :: r => readBasic [] r
  | '\x27' :: r => readLiteral [] r
  | s => if (s.takeWhile isKeyChar).isEmpty then none
    else some (s.takeWhile isKeyChar, s.dropWhile isKeyChar)

def readValue (s : List Char) : Read Value :=
  match readText s with
  | some (text, rest) => some (.text (String.ofList text), rest)
  | none => readWord s

def readEntry (s : List Char) : Read (String × Value) :=
  (readKey s).bind fun (key, rest) =>
    match rest.dropWhile isSpace with
    | '=' :: rest =>
      (readValue (rest.dropWhile isSpace)).map fun (value, rest) =>
        ((String.ofList key, value), rest)
    | _ => none

/-- What follows the end of a line, spaces and a comment before it aside. -/
def lineEnd? (s : List Char) : Option (List Char) :=
  let s := s.dropWhile isSpace
  let s := if s.head? = some '#' then s.tail.dropWhile (!isControl ·) else s
  match s with
  | [] => some []
  | '\n' :: r | '\r' :: '\n' :: r => some r
  | _ => none

/-- The entries of the rest of a file behind `done`, which is reversed. -/
def readEntries (done : List (String × Value)) (s : List Char) : Option (List (String × Value)) :=
  match s with
  | [] => some done.reverse
  | s =>
    match lineEnd? s with
    | some rest =>
      if _shorter : rest.length < s.length then readEntries done rest else none
    | none =>
      match readEntry (s.dropWhile isSpace) with
      | none => none
      | some (entry, rest) =>
        match lineEnd? rest with
        | none => none
        | some rest =>
          if _shorter : rest.length < s.length then readEntries (entry :: done) rest else none
termination_by s.length

/-- The entries of a file, in order, no key twice. A byte order mark may start it. -/
def read? (file : String) : Option (List (String × Value)) := do
  let s := match file.toList with
    | '\uFEFF' :: r => r
    | s => s
  let entries ← readEntries [] s
  if (entries.map (·.1)).Nodup then some entries else none

end Console.Toml
