import Console.Proofs.Token.Progress
import Console.Proofs.Token.Trailing

/-!
# Blank space between tokens

Spaces, joints and, within brackets, line ends with comments before them are passed without a token,
and so is a line of its own with nothing but spaces and a comment. What comes before a word is any of
these, and a word stops at each of them.
-/

namespace Console

open Text

namespace Cursor

variable {c : Cursor} {p : Char → Bool} {text tail : List Char}

theorem drop_drop (c : Cursor) (m n : Nat) : (c.drop m).drop n = c.drop (m + n) := by
  unfold drop
  rw [List.drop_drop, ← Position.past_append, List.take_add]

theorem dropWhile_eq_drop (begins : c.rest = text ++ tail) (all : ∀ ch ∈ text, p ch = true)
    (stops : ∀ ch ∈ tail.head?, p ch = false) : c.dropWhile p = c.drop text.length := by
  have taken : (text ++ tail).takeWhile p = text := by
    rw [takeWhile_stopped stops, List.takeWhile_eq_self_iff.2 all]
  have left : (text ++ tail).dropWhile p = tail := by
    rw [dropWhile_stopped stops, List.dropWhile_eq_nil_iff.2 all, List.nil_append]
  unfold dropWhile drop
  rw [begins, taken, left, List.take_left, List.drop_left]

end Cursor

namespace Token

variable {s : LexState} {b g r text left : List Char} {within : Bool}

/-- Blanks within a line. -/
def Spaces (b : List Char) : Prop := ∀ ch ∈ b, isSpace ch = true

/-- A comment up to the end of its line, or nothing. -/
inductive Remark : List Char → Prop
  | none : Remark []
  | comment {text : List Char} (alone : '\n' ∉ text) : Remark ('#' :: text)

/-- Blank space within a line; within brackets line ends are blank space too. -/
inductive Gap (within : Bool) : List Char → Prop
  | nil : Gap within []
  | space {ch : Char} {gap : List Char} (space : isSpace ch = true) :
    Gap within gap → Gap within (ch :: gap)
  | joint {gap : List Char} : Gap within gap → Gap within ('\\' :: '\n' :: gap)
  | lineEnd {remark gap : List Char} (bracketed : within = true) : Remark remark →
    Gap within gap → Gap within (remark ++ '\n' :: gap)

theorem Remark.stopped (remark : Remark r) (stopped : Stopped text) : Stopped (r ++ text) := by
  cases remark with
  | none => exact stopped
  | comment alone => exact .cons (by decide) _

/-- A word stops at blank space. -/
theorem Gap.stopped (gap : Gap within g) (nonempty : g ≠ []) (text : List Char) :
    Stopped (g ++ text) := by
  cases gap with
  | nil => contradiction
  | space space =>
    exact .cons (by simp [isStop, isBlank_of_isSpace space]) _
  | joint => exact .cons (by decide) _
  | lineEnd bracketed remark =>
    rw [List.append_assoc]
    exact remark.stopped (.cons (by decide) _)

theorem dropWhile_comment {c : Cursor} {letters : List Char} (alone : '\n' ∉ letters)
    (begins : c.rest = '#' :: letters ++ text) (ends : ∀ ch ∈ text.head?, ch = '\n') :
    c.dropWhile (· ≠ '\n') = c.drop ('#' :: letters).length := by
  refine Cursor.dropWhile_eq_drop begins (fun ch mem => decide_eq_true ?_) fun ch first => ?_
  · rintro rfl
    rcases List.mem_cons.1 mem with same | mem
    · cases same
    · exact alone mem
  · simp [ends ch first]

/-- What stands behind spaces decides what a step does. -/
theorem step_behind {ch : Char} {next : LexState} (spaces : Spaces b)
    (begins : s.cursor.rest = b ++ ch :: text) (space : isSpace ch = false)
    (stepped : Stepped s (s.cursor.drop b.length) next) : step s = .ok (.more next) := by
  have stops : ∀ d ∈ (ch :: text).head?, isSpace d = false := by
    rintro _ ⟨⟩
    exact space
  rwa [step_more_iff, Cursor.dropWhile_eq_drop begins spaces stops]

theorem step_here {ch : Char} {next : LexState} (begins : s.cursor.rest = ch :: text)
    (space : isSpace ch = false) (stepped : Stepped s s.cursor next) : step s = .ok (.more next) :=
  step_behind (b := []) (List.forall_mem_nil _) begins space stepped

section

variable (inline : s.lineStart = false)
include inline

theorem run_space {ch : Char} (space : isSpace ch = true) (begins : s.cursor.rest = ch :: text) :
    run s = run { s with cursor := s.cursor.drop 1 } := by
  have same : (s.cursor.drop 1).dropWhile isSpace = s.cursor.dropWhile isSpace := by
    obtain ⟨⟨rest, pos⟩, _⟩ := s
    dsimp only at begins
    subst begins
    simp [Cursor.dropWhile, Cursor.drop, space, Position.past]
  refine run_of_step_eq ?_
  rw [step_inline inline, step_inline (s := { s with cursor := s.cursor.drop 1 }) inline]
  exact (stepWithin_eq same).symm

/-- A comment before the end of its line is passed, and so is none. -/
theorem run_remark (remark : Remark r) (begins : s.cursor.rest = r ++ text)
    (ends : ∀ ch ∈ text.head?, ch = '\n') :
    run s = run { s with cursor := s.cursor.drop r.length } := by
  cases remark with
  | none => rfl
  | comment alone =>
    rw [run_more (step_here begins rfl (.comment (LexState.opensLine_inline inline) begins)),
      dropWhile_comment alone begins ends]

/-- A line ends behind its comment. -/
theorem run_lineEnd_remark (remark : Remark r) (begins : s.cursor.rest = r ++ '\n' :: text) :
    run s = run (stepNewline s (s.cursor.drop r.length)) := by
  have behind : (s.cursor.drop r.length).rest = '\n' :: text := by
    rw [Cursor.rest_drop, begins, List.drop_left]
  rw [run_remark inline remark begins (by simp)]
  exact run_more (step_here behind rfl (.lineEnd (LexState.opensLine_inline inline) behind))

/-- A source ends behind its last comment. -/
theorem run_end_remark (outside : s.brackets = []) (remark : Remark r) (begins : s.cursor.rest = r) :
    run s = .ok { s with cursor := s.cursor.drop r.length } := by
  have nothing : (s.cursor.drop r.length).rest = [] := by
    rw [Cursor.rest_drop, begins, List.drop_length]
  rw [run_remark inline remark (begins.trans (List.append_nil r).symm) (by simp)]
  exact run_end inline nothing outside

/-- Blank space within a line is passed. -/
theorem run_gap (gap : Gap within g) (bracketed : within = true → s.brackets ≠ [])
    (begins : s.cursor.rest = g ++ text) :
    run s = run { s with cursor := s.cursor.drop g.length } := by
  induction gap generalizing s with
  | nil => rfl
  | @space ch gap space _ ih =>
    have behind : (s.cursor.drop 1).rest = gap ++ text := by
      rw [Cursor.rest_drop, begins]
      rfl
    rw [run_space inline space begins,
      ih (s := { s with cursor := s.cursor.drop 1 }) inline bracketed behind, Cursor.drop_drop,
      List.length_cons, Nat.add_comm]
  | @joint gap _ ih =>
    have behind : (s.cursor.drop 2).rest = gap ++ text := by
      rw [Cursor.rest_drop, begins]
      rfl
    rw [run_more (step_here begins rfl (.joint (LexState.opensLine_inline inline) begins)),
      ih (s := { s with cursor := s.cursor.drop 2 }) inline bracketed behind, Cursor.drop_drop,
      List.length_cons, List.length_cons, Nat.add_comm]
  | @lineEnd remark gap opened known _ ih =>
    have rest : s.cursor.rest = remark ++ '\n' :: (gap ++ text) := by
      rw [begins, List.append_assoc, List.cons_append]
    have behind : ((s.cursor.drop remark.length).drop 1).rest = gap ++ text := by
      rw [Cursor.rest_drop, Cursor.rest_drop, rest, List.drop_left]
      rfl
    rw [run_lineEnd_remark inline known rest, stepNewline_within (bracketed opened),
      ih (s := { s with cursor := (s.cursor.drop remark.length).drop 1 }) inline bracketed behind,
      Cursor.drop_drop, Cursor.drop_drop]
    simp [Nat.add_comm]

end

section

variable (start : s.opensLine = true) (spaces : Spaces b)
include start spaces

/-- The first token of a line stands at the column of its blanks. -/
theorem step_indented {ch : Char} {next : LexState} (begins : s.cursor.rest = b ++ ch :: text)
    (space : isSpace ch = false) (lineEnd : ch ≠ '\n') (comment : ch ≠ '#')
    (laid : layout s (indentColumn b) (s.cursor.drop b.length) = .ok next) :
    step s = .ok (.more next) := by
  have blanks : s.cursor.rest.takeWhile isSpace = b := by
    rw [begins, takeWhile_stopped (by rintro _ ⟨⟩; exact space),
      List.takeWhile_eq_self_iff.2 spaces]
  have behind : (s.cursor.drop b.length).rest = ch :: text := by
    rw [Cursor.rest_drop, begins, List.drop_left]
  exact step_behind spaces begins space (.line start behind lineEnd comment (by rwa [blanks]))

variable (remark : Remark r)
include remark

/-- A line with nothing but spaces and a comment is passed. -/
theorem run_filler (begins : s.cursor.rest = b ++ r ++ '\n' :: text) :
    run s = run { s with cursor := s.cursor.drop (b ++ r ++ ['\n']).length } := by
  have length : (b ++ r ++ ['\n']).length = b.length + r.length + 1 := by simp [Nat.add_assoc]
  rw [length, ← Cursor.drop_drop, ← Cursor.drop_drop]
  rw [List.append_assoc] at begins
  have behind : (s.cursor.drop b.length).rest = r ++ '\n' :: text := by
    rw [Cursor.rest_drop, begins, List.drop_left]
  cases remark with
  | none => exact run_more (step_behind spaces begins rfl (.emptyLine start behind))
  | comment alone =>
    rw [run_more (step_behind spaces begins rfl (.commentLine start behind)),
      dropWhile_comment alone behind (by simp)]

/-- Nothing but spaces and a comment ends a source. -/
theorem run_over (begins : s.cursor.rest = b ++ r) : ∃ c, run s = .ok { s with cursor := c } := by
  have nothing {s : LexState} (start : s.opensLine = true) (blank : ∀ d ∈ s.cursor.rest, isSpace d = true) :
      ∃ c, run s = .ok { s with cursor := c } := by
    refine ⟨_, run_finished ((step_nothing ?_).1 (LexState.opensLine_eq_true.1 start).2)⟩
    rw [Cursor.rest_dropWhile]
    exact List.dropWhile_eq_nil_iff.2 blank
  cases remark with
  | none => exact nothing start (by rw [begins, List.append_nil]; exact spaces)
  | @comment letters alone =>
    have behind : (s.cursor.drop b.length).rest = '#' :: letters ++ [] := by
      rw [Cursor.rest_drop, begins, List.drop_left, List.append_nil]
    have done : (((s.cursor.drop b.length).drop ('#' :: letters).length).drop 1).rest = [] := by
      rw [Cursor.drop_drop, Cursor.drop_drop, Cursor.rest_drop, begins]
      exact List.drop_of_length_le (by simp)
    rw [run_more (step_behind spaces begins rfl (.commentLine start behind)),
      dropWhile_comment alone behind (by simp)]
    exact nothing start (by rw [done]; exact List.forall_mem_nil _)

end

end Token

end Console
