import Console.Proofs.Program
import Console.Proofs.Text.Lines
import Console.Proofs.Text.Words
import Console.Proofs.Token.Places
import Console.Proofs.Tree.Watching

/-!
# Where tokens and errors are told to be

Every token is told at one place of the source, and every error at a place on one of its lines. What is
printed of that line is moved to the left by the blanks before it, and so is the caret below it.
-/

namespace Console

open Text Token Parse

/-- The position is that of a place between two characters of the source: so many bytes stand before it,
so many line feeds, and so many characters behind the last of these. -/
def Position.Marks (source : String) (p : Position) : Prop :=
  ∃ before after : String, source = before ++ after ∧ p.offset = before.utf8ByteSize ∧
    p.line = 1 + before.toList.count '\n' ∧
    p.column = (before.toList.rtakeWhile (· ≠ '\n')).length

theorem Position.In.marks {source : String} {p : Position} (inside : p.In source.toList) :
    p.Marks source := by
  obtain ⟨before, ⟨after, whole⟩, rfl⟩ := inside
  refine ⟨.ofList before, .ofList after, ?_, ?_, ?_, ?_⟩
  · rw [← String.ofList_append, whole, String.ofList_toList]
  · rw [offset_past]
    exact Nat.zero_add _
  · rw [String.toList_ofList]
    exact line_past start before
  · rw [String.toList_ofList]
    exact column_past before

namespace SyntaxError

variable {e : SyntaxError}

theorem Within.le_count {text : List Char} (within : e.Within text) :
    1 ≤ e.line ∧ e.line ≤ 1 + text.count '\n' := by
  obtain ⟨p, ⟨before, start, rfl⟩, line, -⟩ := within
  have fewer := start.sublist.count_le '\n'
  rw [line, Position.line_past]
  exact ⟨Nat.le_add_right _ _, Nat.add_le_add_left fewer 1⟩

/-- The line of the error is long enough for its column. -/
theorem Within.exists_line {text : List Char} (within : e.Within text) :
    ∃ line, (pieces '\n' text)[e.line - 1]? = some line ∧ e.column ≤ line.length := by
  obtain ⟨p, ⟨before, ⟨after, rfl⟩, rfl⟩, line, column⟩ := within
  have number : e.line - 1 = before.count '\n' := by
    rw [line, Position.line_past]
    exact Nat.add_sub_cancel_left 1 _
  refine ⟨_, by rw [number]; exact pieces_count '\n' before after, ?_⟩
  rw [Position.column_past] at column
  exact Nat.le_trans column (List.length_append ▸ Nat.le_add_right _ _)

/-- Of the line its text is printed, without the blanks around it and four columns in. The caret behind
the spaces stands below the character of the line at the column, or below the end of the line: from
there on the line is the same as what is printed with the blanks behind it. -/
def Points (line text under : List Char) (column : Nat) : Prop :=
  ∃ lead trail, line = lead ++ text ++ trail ∧ (∀ ch ∈ lead ++ trail, isBlank ch = true) ∧
    (∀ ch ∈ under, ch = ' ') ∧ under.length ≤ (spaces 4 ++ text ++ trail).length ∧
    (spaces 4 ++ text ++ trail).drop under.length = line.drop column

/-- The caret is moved to the left by as many columns as the text is. -/
theorem points_spaces {line shown : List Char} (same : line = shown ∨ line = shown ++ ['\r'])
    {column : Nat} (within : column ≤ line.length) (behind : (shown.takeWhile isBlank).length ≤ column) :
    Points line (trim shown) (spaces (4 + (column - (shown.takeWhile isBlank).length))) column := by
  obtain ⟨trail, whole, blank⟩ := exists_trim_append shown
  have leading : ∀ ch ∈ shown.takeWhile isBlank, isBlank ch = true :=
    fun ch mem => List.mem_takeWhile_imp mem
  obtain ⟨trail', whole', blank'⟩ : ∃ trail', line = shown.takeWhile isBlank ++ trim shown ++ trail' ∧
      ∀ ch ∈ trail', isBlank ch = true := by
    rcases same with rfl | rfl
    · exact ⟨trail, whole, blank⟩
    · refine ⟨trail ++ ['\r'], ?_, List.forall_mem_append.2 ⟨blank, by simp [isBlank]⟩⟩
      rw [← List.append_assoc, ← whole]
  generalize shown.takeWhile isBlank = lead at *
  subst whole'
  obtain ⟨k, rfl⟩ := Nat.exists_eq_add_of_le behind
  have indent (n : Nat) : (spaces n).length = n := List.length_replicate
  rw [Nat.add_sub_cancel_left]
  refine ⟨lead, trail', rfl, List.forall_mem_append.2 ⟨leading, blank'⟩,
    fun ch mem => List.eq_of_mem_replicate mem, ?_, ?_⟩
  · simp only [List.length_append, indent] at within ⊢
    omega
  · calc
      (spaces 4 ++ trim shown ++ trail').drop (spaces (4 + k)).length
      _ = (spaces 4 ++ (trim shown ++ trail')).drop ((spaces 4).length + k) := by
        rw [List.append_assoc, indent, indent]
      _ = (trim shown ++ trail').drop k := List.drop_length_add_append k
      _ = (lead ++ trim shown ++ trail').drop (lead.length + k) := by
        rw [List.append_assoc, List.drop_length_add_append]

/-- A shown line is printed with a caret below the column of the error. -/
theorem render_points {source : String} {line shown : List Char}
    (here : (pieces '\n' source.toList)[e.line - 1]? = some line) (within : e.column ≤ line.length)
    (shows : (lines source.toList)[e.line - 1]? = some shown)
    (behind : (shown.takeWhile isBlank).length ≤ e.column) :
    ∃ under, Points line (trim shown) under e.column ∧
      e.render source = s!"  File \"<input>\", line {e.line}\n" ++
        String.ofList (spaces 4 ++ trim shown ++ ['\n'] ++ under ++ ['^', '\n']) ++
        s!"SyntaxError: {e.message}\n" := by
  obtain ⟨piece, cut, same⟩ := exists_piece_of_lines shows
  rw [here] at cut
  cases cut
  refine ⟨_, points_spaces same within behind, ?_⟩
  have excerpt : e.excerpt source = spaces 4 ++ trim shown ++ ['\n'] ++
      spaces (4 + (e.column - (shown.takeWhile isBlank).length)) ++ ['^', '\n'] := by
    rw [length_takeWhile_isBlank]
    unfold SyntaxError.excerpt
    rw [shows]
  unfold render
  rw [excerpt]

end SyntaxError

namespace Program

/-- What is known of the tokens of a text and its errors: they stand in it. -/
def located (text : List Char) (t : Bool) : Watch t where
  tokens x := x.pos.In text
  errors e := e.Within text
  nothing := Position.in_start text
  final known _ := SyntaxError.within_of known _
  misplaced known := SyntaxError.within_of known _
  bodiless known := SyntaxError.within_of known _

theorem located_tokenize {source : String} {mode : Mode} {tokens : List Token}
    (read : tokenize source mode = .ok tokens) :
    (∀ x ∈ tokens, x.pos.In source.toList) ∧
      (tokens.map fun x => x.pos.offset).Pairwise (· ≤ ·) := by
  unfold tokenize at read
  cases lexed : run (.ofString source) with
  | error e =>
    rw [lexed] at read
    cases read
  | ok last =>
    rw [lexed] at read
    cases read
    exact ((Located.ofString source).run lexed).finished _

theorem within_of_compile {source : String} {mode : Mode} {e : SyntaxError}
    (failed : compile source mode = .error e) : e.Within source.toList := by
  cases read : tokenize source mode with
  | error e' =>
    rw [compile_of_error read] at failed
    cases failed
    unfold tokenize at read
    cases lexed : run (.ofString source) with
    | error e' =>
      rw [lexed] at read
      cases read
      exact (Located.ofString source).within lexed
    | ok last =>
      rw [lexed] at read
      cases read
  | ok tokens =>
    rw [compile_of_tokenize read] at failed
    have gives := @gives_program mode (endsWithBlankLine source) (located source.toList _) tokens
      (located_tokenize read).1
    rcases ofTokens_error failed with stuck | ⟨body, parsed, late⟩
    · rw [stuck] at gives
      exact gives
    · rw [parsed] at gives
      obtain ⟨s, inside, fault, -, rfl⟩ := futureFrom_error late
      obtain ⟨x, known, line⟩ := gives s inside
      exact ⟨x.pos, known, line, Nat.zero_le _⟩

/-- Every location that is told is right. The tokens of a source stand at places of it, each no further
on than the next one. An error stands on one of the lines of the source, at a column of that line; and
if the line is shown, and the column is none of the leading blanks that are left out, the caret stands
below that column. -/
theorem every_location_is_right (source : String) (mode : Mode) :
    (∀ tokens, tokenize source mode = .ok tokens →
      (∀ x ∈ tokens, x.pos.Marks source) ∧
        (tokens.map fun x => x.pos.offset).Pairwise (· ≤ ·)) ∧
    ∀ e, compile source mode = .error e →
      (1 ≤ e.line ∧ e.line ≤ 1 + source.toList.count '\n') ∧
      ∃ line, (pieces '\n' source.toList)[e.line - 1]? = some line ∧ e.column ≤ line.length ∧
        ∀ shown, (lines source.toList)[e.line - 1]? = some shown →
          (shown.takeWhile isBlank).length ≤ e.column →
          ∃ under, SyntaxError.Points line (trim shown) under e.column ∧
            e.render source = s!"  File \"<input>\", line {e.line}\n" ++
              String.ofList (spaces 4 ++ trim shown ++ ['\n'] ++ under ++ ['^', '\n']) ++
              s!"SyntaxError: {e.message}\n" := by
  constructor
  · intro tokens read
    obtain ⟨inside, ordered⟩ := located_tokenize read
    exact ⟨fun x mem => (inside x mem).marks, ordered⟩
  · intro e failed
    have within := within_of_compile failed
    obtain ⟨line, here, long⟩ := within.exists_line
    exact ⟨within.le_count, line, here, long, fun shown shows behind =>
      SyntaxError.render_points here long shows behind⟩

theorem exists_token {source : String} {mode : Mode} (p : Position)
    (found : (tokenize source mode).toOption.any (·.any fun x => decide (x.pos = p)) = true) :
    ∃ tokens, tokenize source mode = .ok tokens ∧ ∃ x ∈ tokens, x.pos = p := by
  cases read : tokenize source mode with
  | error e =>
    rw [read] at found
    cases found
  | ok tokens =>
    rw [read] at found
    obtain ⟨x, inside, place⟩ := List.any_eq_true.1 found
    exact ⟨tokens, rfl, x, inside, of_decide_eq_true place⟩

theorem exists_error {source : String} {mode : Mode} (line column : Nat)
    (found : (match compile source mode with
      | .ok _ => none
      | .error e => some (e.line, e.column)) = some (line, column)) :
    ∃ e, compile source mode = .error e ∧ e.line = line ∧ e.column = column := by
  cases failed : compile source mode with
  | error e =>
    rw [failed] at found
    exact ⟨e, rfl, Prod.mk.inj (Option.some.inj found)⟩
  | ok program =>
    rw [failed] at found
    cases found

/-- Letters of two bytes, a tab before them and a blank and a carriage return behind them: the caret
stands below the name that no statement goes on with. -/
theorem caret_stands_below_the_second_name :
    ∃ source tokens e under, source = "if é:\r\n\té = é é \r\n" ∧
      tokenize source .script = .ok tokens ∧ (∃ x ∈ tokens, x.pos = ⟨17, 2, 7⟩) ∧
      (∀ x ∈ tokens, x.pos.Marks source) ∧
      compile source .script = .error e ∧ e.line = 2 ∧ e.column = 7 ∧
      SyntaxError.Points "\té = é é \r".toList "é = é é".toList under 7 ∧
      e.render source = s!"  File \"<input>\", line {e.line}\n" ++
        String.ofList (spaces 4 ++ "é = é é".toList ++ ['\n'] ++ under ++ ['^', '\n']) ++
        s!"SyntaxError: {e.message}\n" := by
  obtain ⟨source, given⟩ : ∃ source, source = "if é:\r\n\té = é é \r\n" := ⟨_, rfl⟩
  obtain ⟨tokens, read, second⟩ : ∃ tokens, tokenize source .script = .ok tokens ∧
      ∃ x ∈ tokens, x.pos = ⟨17, 2, 7⟩ := exists_token _ (by subst given; decide +kernel)
  obtain ⟨e, failed, line, column⟩ : ∃ e, compile source .script = .error e ∧ e.line = 2 ∧
      e.column = 7 := exists_error _ _ (by subst given; decide +kernel)
  have physical : (pieces '\n' source.toList)[1]? = some "\té = é é \r".toList := by
    subst given
    decide +kernel
  have printed : (lines source.toList)[1]? = some "\té = é é ".toList := by
    subst given
    decide +kernel
  have text : trim "\té = é é ".toList = "é = é é".toList := by decide +kernel
  have ⟨places, errors⟩ := every_location_is_right source .script
  obtain ⟨-, _, here, -, shown⟩ := errors e failed
  rw [line, physical] at here
  cases here
  obtain ⟨under, points, rendered⟩ := shown "\té = é é ".toList (by rw [line, ← printed])
    (by rw [column]; decide +kernel)
  rw [text] at points rendered
  rw [column] at points
  exact ⟨source, tokens, e, under, given, read, second, (places tokens read).1, failed, line, column,
    points, rendered⟩

end Program

end Console
