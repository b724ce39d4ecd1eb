import Console.Token.Literal
import Console.Text

/-!
# From text to tokens

The lexer goes through a source step by step. At the start of a line it compares the indentation
with the open ones; within a line it reads one token or skips what is no token. A line end inside
brackets is blank space. Every step moves the cursor on or leaves the start of a line behind, so a
run ends.
-/

namespace Console.Token

open Text

/-- A source partly read. -/
structure LexState where
  cursor : Cursor
  /-- Indented columns still open, innermost first; column 0 is always open. -/
  indents : List Nat
  /-- Open brackets, innermost first. -/
  brackets : List (Bracket × Position)
  /-- The next token would be the first of its line. -/
  lineStart : Bool
  /-- What was read so far, newest first. -/
  tokens : List Token

namespace LexState

def ofString (source : String) : LexState := ⟨.ofString source, [], [], true, []⟩

/-- The innermost open column. -/
def column (s : LexState) : Nat := s.indents.head?.getD 0

/-- Adds a token that ends at `after`. -/
def add (s : LexState) (kind : TokenKind) (start : Position) (after : Cursor) : LexState :=
  { s with tokens := ⟨kind, start⟩ :: s.tokens, cursor := after }

/-- Adds a string literal; right behind another one it becomes part of that token. -/
def addString (s : LexState) (text : List Char) (start : Position) (after : Cursor) : LexState :=
  match s.tokens with
  | ⟨.str before, first⟩ :: others =>
    { s with tokens := ⟨.str (before ++ String.ofList text), first⟩ :: others, cursor := after }
  | _ => s.add (.str (String.ofList text)) start after

/-- Twice the text left, and one more at the start of a line. -/
def size (s : LexState) : Nat := 2 * s.cursor.rest.length + s.lineStart.toNat

end LexState

/-- A step leads on or reaches the end of the source. -/
inductive Step
  | more (s : LexState)
  | finished (s : LexState)

/-- Blanks that never end a line. -/
def isSpace (c : Char) : Bool := c == ' ' || c == '\t' || c == '\x0c' || c == '\r'

/-- Columns count spaces; a tab goes to the next multiple of eight, a form feed back to zero, and a
carriage return counts nothing. -/
def indentColumn (blanks : List Char) : Nat :=
  blanks.foldl (fun column c =>
    if c = ' ' then column + 1
    else if c = '\t' then (column / 8 + 1) * 8
    else if c = '\x0c' then 0
    else column) 0

/-- Opens or closes indented blocks for a line that starts at `column`. -/
def layout (s : LexState) (column : Nat) (c : Cursor) : Except SyntaxError LexState :=
  if s.column < column then
    .ok { s with
      cursor := c, lineStart := false, indents := column :: s.indents,
      tokens := ⟨.indent, c.pos⟩ :: s.tokens }
  else
    let closed := s.indents.takeWhile (column < ·)
    let left := s.indents.dropWhile (column < ·)
    if left.head?.getD 0 = column then
      .ok { s with
        cursor := c, lineStart := false, indents := left,
        tokens := closed.map (fun _ => ⟨.dedent, c.pos⟩) ++ s.tokens }
    else .error (.of .unmatchedUnindent c.pos)

/-- Blank lines and lines with nothing but a comment leave no token. -/
def stepLine (s : LexState) : Except SyntaxError Step :=
  let c := s.cursor.dropWhile isSpace
  match c.rest with
  | [] => .ok (.finished { s with cursor := c })
  | ch :: _ =>
    if ch = '\n' then .ok (.more { s with cursor := c.drop 1 })
    else if ch = '#' then .ok (.more { s with cursor := (c.dropWhile (· ≠ '\n')).drop 1 })
    else (layout s (indentColumn (s.cursor.rest.takeWhile isSpace)) c).map .more

def stepNewline (s : LexState) (c : Cursor) : LexState :=
  if s.brackets.isEmpty then { s.add .newline c.pos (c.drop 1) with lineStart := true }
  else { s with cursor := c.drop 1 }

/-- A backslash joins its line with the next one. -/
def stepBackslash (s : LexState) (c : Cursor) : Except SyntaxError LexState :=
  match (c.drop 1).rest with
  | [] => .error (.of (.incomplete .continuation) (c.drop 1).pos)
  | ch :: _ =>
    if ch = '\n' then .ok { s with cursor := c.drop 2 }
    else .error (.of .strayBackslash (c.drop 1).pos)

/-- A name, or the marks of a string literal that follows without a blank. -/
def stepName (s : LexState) (c : Cursor) : Except SyntaxError LexState :=
  let word := c.rest.takeWhile isNamePart
  let after := c.drop word.length
  let marks := word.map Char.toLower
  let quoted := after.peek? == some '\x27' || after.peek? == some '\x22'
  if quoted && stringMarks.contains (String.ofList marks) then
    match readString (marks.contains 'r') c.pos after with
    | .error e => .error e
    | .ok (text, behind) => .ok (s.addString text c.pos behind)
  else .ok (s.add (.name (String.ofList word)) c.pos after)

def operatorAt? (text : List Char) : Option String :=
  operators.find? fun op => op.toList.isPrefixOf text

/-- Brackets have to match; they nest only so deep. -/
def stepOperator (s : LexState) (c : Cursor) : Except SyntaxError LexState :=
  match operatorAt? c.rest with
  | none => .error (.of .invalidCharacter c.pos)
  | some op =>
    let next := s.add (.op op) c.pos (c.drop op.toList.length)
    match Bracket.opened? op, Bracket.closed? op with
    | some b, _ =>
      if Bracket.maxDepth ≤ s.brackets.length then .error (.of .tooManyBrackets c.pos)
      else .ok { next with brackets := (b, c.pos) :: s.brackets }
    | none, some b =>
      match s.brackets with
      | (b', _) :: outer =>
        if b = b' then .ok { next with brackets := outer } else .error (.of .invalidSyntax c.pos)
      | [] => .error (.of .invalidSyntax c.pos)
    | none, none => .ok next

/-- The token at a character that is neither blank nor the end of a line. -/
def stepToken (s : LexState) (c : Cursor) (ch : Char) : Except SyntaxError LexState :=
  if ch = '\x27' ∨ ch = '\x22' then
    match readString false c.pos c with
    | .error e => .error e
    | .ok (text, after) => .ok (s.addString text c.pos after)
  else if startsNumeral c.rest then
    match readNumeral c with
    | .error e => .error e
    | .ok (kind, after) => .ok (s.add kind c.pos after)
  else if isNameStart ch then stepName s c
  else stepOperator s c

def stepWithin (s : LexState) : Except SyntaxError Step :=
  let c := s.cursor.dropWhile isSpace
  match c.rest with
  | [] =>
    match s.brackets with
    | (_, p) :: _ => .error (.of (.incomplete .closingBracket) p)
    | [] => .ok (.finished { s with cursor := c })
  | ch :: _ =>
    if ch = '\n' then .ok (.more (stepNewline s c))
    else if ch = '#' then .ok (.more { s with cursor := c.dropWhile (· ≠ '\n') })
    else if ch = '\\' then (stepBackslash s c).map .more
    else (stepToken s c ch).map .more

def step (s : LexState) : Except SyntaxError Step :=
  if s.lineStart && s.brackets.isEmpty then stepLine s else stepWithin s

theorem size_addString (s : LexState) (text : List Char) (start : Position) (after : Cursor) :
    (s.addString text start after).size = 2 * after.rest.length + s.lineStart.toNat := by
  unfold LexState.addString
  split <;> simp [LexState.size, LexState.add]

theorem operator_ne_nil {text : List Char} {op : String} (h : operatorAt? text = some op) :
    0 < op.toList.length ∧ 0 < text.length := by
  have mem := List.mem_of_find?_eq_some h
  have fits := List.find?_some h
  have all : ∀ op ∈ operators, 0 < op.toList.length := by decide
  have pos := all op mem
  refine ⟨pos, Nat.lt_of_lt_of_le pos ?_⟩
  exact (List.isPrefixOf_iff_prefix.1 fits).length_le

theorem size_stepName_lt {s s' : LexState} {c : Cursor} {ch : Char} {rest : List Char}
    (cons : c.rest = ch :: rest) (starts : isNameStart ch = true) (h : stepName s c = .ok s') :
    s'.size < 2 * c.rest.length + s.lineStart.toNat := by
  have pos : 0 < (c.rest.takeWhile isNamePart).length := by
    simp [cons, isNamePart_of_isNameStart starts]
  have shorter : (c.drop (c.rest.takeWhile isNamePart).length).rest.length < c.rest.length := by
    simp only [Cursor.rest_drop, List.length_drop]
    have : 0 < c.rest.length := by simp [cons]
    omega
  unfold stepName at h
  dsimp only at h
  split at h
  · split at h
    · cases h
    · rename_i read
      have := length_readString_lt read
      cases h
      rw [size_addString]; omega
  · cases h
    simp only [LexState.size, LexState.add]; omega

theorem size_stepOperator_lt {s s' : LexState} {c : Cursor} (h : stepOperator s c = .ok s') :
    s'.size < 2 * c.rest.length + s.lineStart.toNat := by
  unfold stepOperator at h
  split at h
  · cases h
  · rename_i op found
    have ⟨pos, pos'⟩ := operator_ne_nil found
    have shorter : c.rest.length - op.toList.length < c.rest.length := by omega
    dsimp only at h
    split at h
    · split at h
      · cases h
      · cases h
        simp only [LexState.size, LexState.add, Cursor.rest_drop, List.length_drop]; omega
    · split at h
      · split at h
        · cases h
          simp only [LexState.size, LexState.add, Cursor.rest_drop, List.length_drop]; omega
        · cases h
      · cases h
    · cases h
      simp only [LexState.size, LexState.add, Cursor.rest_drop, List.length_drop]; omega

theorem size_stepToken_lt {s s' : LexState} {c : Cursor} {ch : Char} {rest : List Char}
    (cons : c.rest = ch :: rest) (h : stepToken s c ch = .ok s') :
    s'.size < 2 * c.rest.length + s.lineStart.toNat := by
  unfold stepToken at h
  split at h
  · split at h
    · cases h
    · rename_i read
      have := length_readString_lt read
      cases h
      rw [size_addString]; omega
  · split at h
    · rename_i starts
      split at h
      · cases h
      · rename_i read
        have := length_readNumeral_lt read starts
        cases h
        simp only [LexState.size, LexState.add]; omega
    · split at h
      · rename_i starts
        exact size_stepName_lt cons starts h
      · exact size_stepOperator_lt h

theorem size_stepLine_lt {s s' : LexState} (start : s.lineStart = true)
    (h : stepLine s = .ok (.more s')) : s'.size < s.size := by
  have le := s.cursor.length_rest_dropWhile_le isSpace
  unfold stepLine at h
  dsimp only at h
  split at h
  · cases h
  · rename_i ch rest cons
    have pos : 0 < (s.cursor.dropWhile isSpace).rest.length := by rw [cons]; simp
    split at h
    · cases h
      simp only [LexState.size, Cursor.rest_drop, List.length_drop]; omega
    · split at h
      · rename_i hash
        cases h
        have tail := (s.cursor.dropWhile isSpace).length_rest_dropWhile_le (· ≠ '\n')
        simp only [LexState.size, Cursor.rest_drop, List.length_drop]; omega
      · unfold layout at h
        split at h
        · cases h
          simp only [LexState.size, start, Bool.toNat_false, Bool.toNat_true]; omega
        · dsimp only at h
          split at h
          · cases h
            simp only [LexState.size, start, Bool.toNat_false, Bool.toNat_true]; omega
          · cases h

theorem size_stepWithin_lt {s s' : LexState} (h : stepWithin s = .ok (.more s')) :
    s'.size < s.size := by
  have le := s.cursor.length_rest_dropWhile_le isSpace
  unfold stepWithin at h
  dsimp only at h
  split at h
  · split at h <;> cases h
  · rename_i ch rest cons
    have pos : 0 < (s.cursor.dropWhile isSpace).rest.length := by rw [cons]; simp
    split at h
    · cases h
      unfold stepNewline
      split
      · simp only [LexState.size, LexState.add, Cursor.rest_drop, List.length_drop,
          Bool.toNat_true]
        omega
      · simp only [LexState.size, Cursor.rest_drop, List.length_drop]; omega
    · split at h
      · rename_i hash
        cases h
        have shorter : ((s.cursor.dropWhile isSpace).dropWhile (· ≠ '\n')).rest.length <
            (s.cursor.dropWhile isSpace).rest.length := by
          subst hash
          rw [Cursor.rest_dropWhile (· ≠ '\n'), cons]
          have := (List.dropWhile_sublist (l := rest) (· ≠ '\n')).length_le
          simp only [List.dropWhile_cons, List.length_cons]
          simpa using Nat.lt_succ_of_le this
        simp only [LexState.size]; omega
      · split at h
        · unfold stepBackslash at h
          split at h
          · cases h
          · split at h
            · cases h
              simp only [LexState.size, Cursor.rest_drop, List.length_drop]; omega
            · cases h
        · cases token : stepToken s (s.cursor.dropWhile isSpace) ch with
          | error e => simp [token, Except.map] at h
          | ok s'' =>
            simp only [token, Except.map, Except.ok.injEq, Step.more.injEq] at h
            subst h
            have := size_stepToken_lt cons token
            simp only [LexState.size] at this ⊢; omega

theorem size_step_lt {s s' : LexState} (h : step s = .ok (.more s')) : s'.size < s.size := by
  unfold step at h
  split at h
  · rename_i start
    exact size_stepLine_lt (by simp_all) h
  · exact size_stepWithin_lt h

/-- Steps until the end of the source. -/
def run (s : LexState) : Except SyntaxError LexState :=
  match _ : step s with
  | .error e => .error e
  | .ok (.finished s') => .ok s'
  | .ok (.more s') => run s'
termination_by s.size
decreasing_by exact size_step_lt ‹_›

/-- Ends an unfinished line and, if asked to, every open block. -/
def finish (s : LexState) (closeBlocks : Bool) : List Token :=
  let here (kind : TokenKind) : Token := ⟨kind, s.cursor.pos⟩
  let line := if s.lineStart then [] else [here .newline]
  let blocks := if closeBlocks then s.indents.map fun _ => here .dedent else []
  s.tokens.reverse ++ line ++ blocks ++ [here .endMarker]

/-- Whether the last of at least two physical lines holds only blanks. -/
def endsWithBlankLine (source : String) : Bool :=
  match (pieces '\n' source.toList).reverse with
  | last :: _ :: _ => allBlank last
  | _ => false

/-- How far a source reaches: one statement typed by hand, or a whole script. -/
inductive Mode
  | single
  | script
  deriving DecidableEq, Repr

/-- The tokens of a source. The end of a script closes its blocks; the end of a statement closes
them only behind a blank line. -/
def tokenize (source : String) (mode : Mode) : Except SyntaxError (List Token) :=
  (run (.ofString source)).map fun s => finish s (mode = .script || endsWithBlankLine source)

end Console.Token
