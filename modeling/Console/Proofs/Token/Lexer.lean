import Console.Proofs.Token.Literal
import Console.Token.Lexer
import Mathlib.Data.List.Find

/-!
# Lines before a line end

A text that is read to its end, or that fails for good, is read alike when a line end and more lines
follow. Only at the very end the two readings part: the one is finished where the other passes the
line end.
-/

namespace Console.Token

open Text

namespace LexState

variable {s : LexState} {more : List Char}

/-- The same state before a line end and more text. -/
def followed (s : LexState) (more : List Char) : LexState :=
  { s with cursor := s.cursor.followed more }

/-- The state behind the line end, if the text up to it is read. -/
def nextLine (s : LexState) (more : List Char) : LexState :=
  { s with
    cursor := ⟨more, s.cursor.pos.next '\n'⟩
    lineStart := true
    tokens := if s.lineStart then s.tokens else ⟨.newline, s.cursor.pos⟩ :: s.tokens }

theorem addString_followed (text : List Char) (start : Position) (after : Cursor) :
    (s.followed more).addString text start (after.followed more) =
      (s.addString text start after).followed more := by
  obtain ⟨cursor, indents, brackets, lineStart, tokens⟩ := s
  unfold addString followed
  dsimp only
  split <;> rfl

end LexState

open LexState

variable {s : LexState} {c : Cursor} {ch : Char} {tail more : List Char}

/-- A step is kept: it leads on to the same state, and fails alike if no text can help. -/
def KeptState (more : List Char) (r r' : Except SyntaxError LexState) : Prop :=
  (∀ s, r = .ok s → r' = .ok (s.followed more)) ∧
    ∀ error, r = .error error → error.isIncomplete = false → r' = .error error

namespace KeptState

variable {r r' : Except SyntaxError LexState}

theorem of_map (same : r' = r.map (followed · more)) : KeptState more r r' := by
  subst same
  constructor
  · rintro s rfl
    rfl
  · rintro error rfl _
    rfl

theorem of_incomplete {error : SyntaxError} (lacks : error.isIncomplete = true) :
    KeptState more (.error error) r' := by
  constructor
  · intro s read
    cases read
  · intro error' failed final
    cases failed
    simp [lacks] at final

end KeptState

theorem keptState_string {r r' : Except SyntaxError (List Char × Cursor)} (s : LexState)
    (start : Position) : Kept more r r' → KeptState more
      (match r with
        | .error e => .error e
        | .ok (text, after) => .ok (s.addString text start after))
      (match r' with
        | .error e => .error e
        | .ok (text, after) => .ok ((s.followed more).addString text start after)) := by
  intro kept
  cases r with
  | ok x =>
    rw [kept.1 x rfl]
    exact .of_map (by simp [followedBy, addString_followed, Except.map])
  | error e =>
    cases lacks : e.isIncomplete with
    | true => exact .of_incomplete lacks
    | false =>
      rw [kept.2 e rfl lacks]
      exact .of_map rfl

/-- A quote that follows is no line end. -/
def atQuote (c : Cursor) : Bool := c.peek? == some '\x27' || c.peek? == some '\x22'

theorem atQuote_followed : atQuote (c.followed more) = atQuote c := by
  unfold atQuote Cursor.peek?
  rw [Cursor.rest_followed]
  cases c.rest <;> rfl

theorem begins_of_atQuote (quoted : atQuote c = true) :
    ∃ mark tail, c.rest = mark :: tail ∧ mark ≠ '\n' := by
  unfold atQuote Cursor.peek? at quoted
  cases begins : c.rest with
  | nil => simp [begins] at quoted
  | cons mark tail =>
    refine ⟨mark, tail, rfl, ?_⟩
    rintro rfl
    simp [begins] at quoted

theorem stepName_followed :
    KeptState more (stepName s c) (stepName (s.followed more) (c.followed more)) := by
  have behind : (c.followed more).drop (c.rest.takeWhile isNamePart).length =
      (c.drop (c.rest.takeWhile isNamePart).length).followed more :=
    Cursor.drop_followed length_takeWhile_le
  unfold stepName
  simp only [Cursor.rest_followed, takeWhile_lineEnd (show isNamePart '\n' = false by decide),
    behind, Cursor.pos_followed]
  change KeptState more (if (atQuote _ && _) = true then _ else _)
    (if (atQuote _ && _) = true then _ else _)
  rw [atQuote_followed]
  split
  · rename_i quoted
    rw [Bool.and_eq_true] at quoted
    obtain ⟨mark, tail, begins, quote⟩ := begins_of_atQuote quoted.1
    exact keptState_string s c.pos (readString_followed _ c.pos quote begins)
  · exact .of_map rfl

theorem operatorAt_followed (text : List Char) :
    operatorAt? (text ++ '\n' :: more) = operatorAt? text := by
  have inline : ∀ op ∈ operators, '\n' ∉ op.toList := by decide
  exact List.find?_congr fun op mem => isPrefixOf_lineEnd (inline op mem)

theorem stepOperator_followed :
    KeptState more (stepOperator s c) (stepOperator (s.followed more) (c.followed more)) := by
  refine .of_map ?_
  unfold stepOperator
  rw [Cursor.rest_followed, operatorAt_followed]
  cases found : operatorAt? c.rest with
  | none => rfl
  | some op =>
    have fits := List.find?_some found
    have inside := (List.isPrefixOf_iff_prefix.1 fits).length_le
    obtain ⟨cursor, indents, brackets, lineStart, tokens⟩ := s
    simp only [Cursor.drop_followed inside, Cursor.pos_followed, followed, add]
    split
    · split <;> rfl
    · split
      · split <;> rfl
      · rfl
    · rfl

theorem stepToken_followed (begins : c.rest = ch :: tail) (inline : ch ≠ '\n') :
    KeptState more (stepToken s c ch) (stepToken (s.followed more) (c.followed more) ch) := by
  unfold stepToken
  rw [Cursor.rest_followed, startsNumeral_stopped (stopped_lineEnd more) _ (by simp [begins]),
    readNumeral_followed]
  split
  · exact keptState_string s c.pos (readString_followed false c.pos inline begins)
  · split
    · refine .of_map ?_
      cases readNumeral c <;> rfl
    · split
      · exact stepName_followed
      · exact stepOperator_followed

theorem stepBackslash_followed (begins : c.rest = ch :: tail) :
    KeptState more (stepBackslash s c) (stepBackslash (s.followed more) (c.followed more)) := by
  have one : (c.followed more).drop 1 = (c.drop 1).followed more :=
    Cursor.drop_followed (by simp [begins])
  unfold stepBackslash
  rw [one, Cursor.rest_followed]
  cases behind : (c.drop 1).rest with
  | nil => exact .of_incomplete rfl
  | cons next rest =>
    have two : (c.followed more).drop 2 = (c.drop 2).followed more :=
      Cursor.drop_followed (by simp_all)
    rw [List.cons_append]
    dsimp only
    rw [two]
    refine .of_map ?_
    split <;> rfl

/-- A step is kept up to the end of the text; there the longer text goes on with its next line. -/
def KeptStep (more : List Char) (r r' : Except SyntaxError Step) : Prop :=
  match r with
  | .error error => error.isIncomplete = false → r' = .error error
  | .ok (.finished s) => r' = .ok (.more (s.nextLine more))
  | .ok (.more s) => r' = .ok (.more (s.followed more)) ∨
      step s = .ok (.finished s) ∧ r' = .ok (.more (s.nextLine more))

theorem KeptStep.of_state {r r' : Except SyntaxError LexState} (kept : KeptState more r r') :
    KeptStep more (r.map .more) (r'.map .more) := by
  cases r with
  | ok s =>
    rw [kept.1 s rfl]
    exact .inl rfl
  | error e =>
    intro final
    rw [kept.2 e rfl final]
    rfl

theorem layout_followed (column : Nat) :
    layout (s.followed more) column (c.followed more) =
      (layout s column c).map (followed · more) := by
  have same : (s.followed more).column = s.column := rfl
  unfold layout
  rw [same]
  by_cases deeper : s.column < column
  · rw [if_pos deeper, if_pos deeper]
    rfl
  · rw [if_neg deeper, if_neg deeper]
    show (if (s.indents.dropWhile (column < ·)).head?.getD 0 = column then _ else _) = _
    by_cases level : (s.indents.dropWhile (column < ·)).head?.getD 0 = column
    · rw [if_pos level, if_pos level]
      rfl
    · rw [if_neg level, if_neg level]
      rfl

/-- At the end of the text the line is over. -/
theorem step_over (start : s.lineStart = true) (outside : s.brackets = [])
    (done : s.cursor.rest = []) : step s = .ok (.finished s) := by
  obtain ⟨cursor, indents, brackets, lineStart, tokens⟩ := s
  subst start outside
  unfold step stepLine
  dsimp only at done ⊢
  simp only [Cursor.dropWhile_nil done, done, List.isEmpty_nil, Bool.and_self, if_true]

theorem stepLine_followed (start : s.lineStart = true) (outside : s.brackets = []) :
    KeptStep more (stepLine s) (stepLine (s.followed more)) := by
  obtain ⟨cursor, indents, brackets, lineStart, tokens⟩ := s
  subst start outside
  have blanks : (cursor.followed more).dropWhile isSpace =
      (cursor.dropWhile isSpace).followed more := Cursor.dropWhile_followed rfl
  unfold stepLine
  simp only [followed, blanks, Cursor.rest_followed]
  generalize cursor.dropWhile isSpace = c
  cases begins : c.rest with
  | nil =>
    obtain ⟨rest, pos⟩ := c
    subst begins
    rfl
  | cons ch tail =>
    rw [List.cons_append]
    dsimp only
    split
    · rw [Cursor.drop_followed (by simp [begins])]
      exact .inl rfl
    · split
      · -- A comment at the very end hides the line end behind it.
        rw [Cursor.dropWhile_followed (show (fun ch => decide (ch ≠ '\n')) '\n' = false from rfl)]
        generalize c.dropWhile (fun ch => decide (ch ≠ '\n')) = behind
        cases last : behind.rest with
        | nil =>
          obtain ⟨rest, pos⟩ := behind
          subst last
          exact .inr ⟨step_over rfl rfl rfl, rfl⟩
        | cons _ _ =>
          rw [Cursor.drop_followed (by simp [last])]
          exact .inl rfl
      · rw [takeWhile_lineEnd (show isSpace '\n' = false from rfl)]
        exact .of_state (.of_map (layout_followed (s := ⟨cursor, indents, [], true, tokens⟩) _))

theorem stepNewline_followed (begins : c.rest = ch :: tail) :
    stepNewline (s.followed more) (c.followed more) = (stepNewline s c).followed more := by
  have one : (c.followed more).drop 1 = (c.drop 1).followed more :=
    Cursor.drop_followed (by simp [begins])
  obtain ⟨cursor, indents, brackets, lineStart, tokens⟩ := s
  unfold stepNewline
  simp only [followed, add, one, Cursor.pos_followed]
  split <;> rfl

theorem stepWithin_followed (within : (s.lineStart && s.brackets.isEmpty) = false) :
    KeptStep more (stepWithin s) (stepWithin (s.followed more)) := by
  have blanks : (s.cursor.followed more).dropWhile isSpace =
      (s.cursor.dropWhile isSpace).followed more := Cursor.dropWhile_followed rfl
  unfold stepWithin
  simp only [show (s.followed more).cursor = s.cursor.followed more from rfl, blanks,
    Cursor.rest_followed]
  generalize s.cursor.dropWhile isSpace = c
  cases begins : c.rest with
  | nil =>
    obtain ⟨cursor, indents, brackets, lineStart, tokens⟩ := s
    cases brackets with
    | nil =>
      obtain rfl : lineStart = false := by simpa using within
      obtain ⟨rest, pos⟩ := c
      subst begins
      rfl
    | cons _ _ => exact fun final => by cases final
  | cons ch tail =>
    rw [List.cons_append]
    dsimp only
    split
    · rw [stepNewline_followed begins]
      exact .inl rfl
    · rename_i inline
      split
      · rw [Cursor.dropWhile_followed (show (fun ch => decide (ch ≠ '\n')) '\n' = false from rfl)]
        exact .inl rfl
      · split
        · exact .of_state (stepBackslash_followed begins)
        · exact .of_state (stepToken_followed begins inline)

theorem step_followed (s : LexState) (more : List Char) :
    KeptStep more (step s) (step (s.followed more)) := by
  unfold step
  show KeptStep more _ (if (s.lineStart && s.brackets.isEmpty) = true then _ else _)
  by_cases start : (s.lineStart && s.brackets.isEmpty) = true
  · rw [if_pos start, if_pos start]
    rw [Bool.and_eq_true, List.isEmpty_iff] at start
    exact stepLine_followed start.1 start.2
  · rw [if_neg start, if_neg start]
    exact stepWithin_followed (by simpa using start)

theorem run_more {s s' : LexState} (h : step s = .ok (.more s')) : run s = run s' := by
  rw [run]
  split <;> simp_all

theorem run_finished {s s' : LexState} (h : step s = .ok (.finished s')) : run s = .ok s' := by
  rw [run]
  split <;> simp_all

theorem run_error {s : LexState} {error : SyntaxError} (h : step s = .error error) :
    run s = .error error := by
  rw [run]
  split <;> simp_all

/-- The longer text is read like the shorter one up to the line end behind it, or fails with it. -/
theorem run_followed (s : LexState) (more : List Char) :
    (∀ last, run s = .ok last → run (s.followed more) = run (last.nextLine more)) ∧
    ∀ error, run s = .error error → error.isIncomplete = false →
      run (s.followed more) = .error error := by
  have kept := step_followed s more
  fun_induction run s
  case case1 s error failed =>
    rw [failed] at kept
    constructor
    · intro last read
      cases read
    · intro error' same final
      cases same
      exact run_error (kept final)
  case case2 s last finished =>
    rw [finished] at kept
    refine ⟨fun last' same => ?_, fun error failed => by cases failed⟩
    cases same
    exact run_more kept
  case case3 s s' onward ih =>
    rw [onward] at kept
    have ih := ih (step_followed s' more)
    rcases kept with same | ⟨finished, same⟩
    · rw [run_more same]
      exact ih
    · rw [run_finished finished, run_more same]
      refine ⟨fun last same => ?_, fun error failed => by cases failed⟩
      cases same
      rfl

end Console.Token
