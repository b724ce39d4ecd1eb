import Console.Proofs.Token.Body
import Console.Proofs.Token.Passing

/-!
# What a step does

A step is known by where it stands and by the first character that is no space. `Stepped` says once what
each step leads to; every other account of steps is a case analysis of it.
-/

namespace Console.Token

open Text

variable {s next last : LexState} {c : Cursor} {text : List Char}

/-- The next token would be the first of its line, outside of brackets. -/
def LexState.opensLine (s : LexState) : Bool := s.lineStart && s.brackets.isEmpty

theorem LexState.opensLine_eq_true : s.opensLine = true ↔ s.lineStart = true ∧ s.brackets = [] := by
  simp [opensLine]

theorem LexState.opensLine_inline (inline : s.lineStart = false) : s.opensLine = false := by
  rw [opensLine, inline, Bool.false_and]

theorem stepNewline_outside (outside : s.brackets = []) (c : Cursor) :
    stepNewline s c = ⟨c.drop 1, s.indents, [], true, ⟨.newline, c.pos⟩ :: s.tokens⟩ := by
  obtain ⟨cursor, indents, brackets, lineStart, tokens⟩ := s
  dsimp only at outside
  subst outside
  rfl

theorem stepNewline_within (within : s.brackets ≠ []) (c : Cursor) :
    stepNewline s c = { s with cursor := c.drop 1 } := by
  unfold stepNewline
  rw [if_neg (by simpa using within)]

/-- The states that a step leads to from `s`, where `c` stands behind the spaces. -/
inductive Stepped (s : LexState) (c : Cursor) : LexState → Prop
  /-- A line without anything. -/
  | emptyLine {text : List Char} (start : s.opensLine = true) (begins : c.rest = '\n' :: text) :
    Stepped s c { s with cursor := c.drop 1 }
  /-- A line with nothing but a comment. -/
  | commentLine {text : List Char} (start : s.opensLine = true) (begins : c.rest = '#' :: text) :
    Stepped s c { s with cursor := (c.dropWhile (· ≠ '\n')).drop 1 }
  /-- The start of a line with tokens. -/
  | line {ch : Char} {text : List Char} {next : LexState} (start : s.opensLine = true)
    (begins : c.rest = ch :: text) (lineEnd : ch ≠ '\n') (comment : ch ≠ '#')
    (laid : layout s (indentColumn (s.cursor.rest.takeWhile isSpace)) c = .ok next) : Stepped s c next
  /-- The end of a line, which is blank space within brackets. -/
  | lineEnd {text : List Char} (inline : s.opensLine = false) (begins : c.rest = '\n' :: text) :
    Stepped s c (stepNewline s c)
  /-- A comment behind tokens. -/
  | comment {text : List Char} (inline : s.opensLine = false) (begins : c.rest = '#' :: text) :
    Stepped s c { s with cursor := c.dropWhile (· ≠ '\n') }
  /-- A backslash that joins its line with the next one. -/
  | joint {text : List Char} (inline : s.opensLine = false) (begins : c.rest = '\\' :: '\n' :: text) :
    Stepped s c { s with cursor := c.drop 2 }
  /-- A token. -/
  | token {ch : Char} {text : List Char} {next : LexState} (inline : s.opensLine = false)
    (begins : c.rest = ch :: text) (opens : opensToken ch = true)
    (read : stepToken s c ch = .ok next) : Stepped s c next

theorem more_of_map {r : Except SyntaxError LexState}
    (read : r.map Step.more = .ok (.more next)) : r = .ok next := by
  cases r with
  | error error => cases read
  | ok state =>
    cases read
    rfl

theorem not_finished_of_map {r : Except SyntaxError LexState} :
    r.map Step.more ≠ .ok (.finished last) := by
  intro read
  cases r <;> cases read

theorem isSpace_of_begins {ch : Char} (begins : (s.cursor.dropWhile isSpace).rest = ch :: text) :
    isSpace ch = false := by
  have stops := List.head?_dropWhile_not isSpace s.cursor.rest
  rw [← Cursor.rest_dropWhile, begins] at stops
  exact stops

theorem stepLine_more (start : s.opensLine = true) (read : stepLine s = .ok (.more next)) :
    Stepped s (s.cursor.dropWhile isSpace) next := by
  unfold stepLine at read
  dsimp only at read
  split at read
  · cases read
  · rename_i ch text begins
    split at read
    · rename_i lineEnd
      subst lineEnd
      cases read
      exact .emptyLine start begins
    · rename_i lineEnd
      split at read
      · rename_i comment
        subst comment
        cases read
        exact .commentLine start begins
      · rename_i comment
        exact .line start begins lineEnd comment (more_of_map read)

theorem stepBackslash_ok (begins : c.rest = '\\' :: text) (read : stepBackslash s c = .ok next) :
    ∃ text', text = '\n' :: text' ∧ next = { s with cursor := c.drop 2 } := by
  unfold stepBackslash at read
  rw [Cursor.rest_drop, begins, List.drop_succ_cons, List.drop_zero] at read
  split at read
  · cases read
  · split at read
    · rename_i lineEnd
      cases read
      exact ⟨_, by rw [lineEnd], rfl⟩
    · cases read

theorem stepWithin_more (inline : s.opensLine = false) (read : stepWithin s = .ok (.more next)) :
    Stepped s (s.cursor.dropWhile isSpace) next := by
  unfold stepWithin at read
  dsimp only at read
  split at read
  · split at read <;> cases read
  · rename_i ch text begins
    split at read
    · rename_i lineEnd
      subst lineEnd
      cases read
      exact .lineEnd inline begins
    · rename_i lineEnd
      split at read
      · rename_i comment
        subst comment
        cases read
        exact .comment inline begins
      · rename_i comment
        split at read
        · rename_i backslash
          subst backslash
          obtain ⟨text', rfl, rfl⟩ := stepBackslash_ok begins (more_of_map read)
          exact .joint inline begins
        · rename_i backslash
          refine .token inline begins ?_ (more_of_map read)
          simp [opensToken, isSpace_of_begins begins, lineEnd, comment, backslash]

/-- A step leads where `Stepped` says. -/
theorem step_more_iff :
    step s = .ok (.more next) ↔ Stepped s (s.cursor.dropWhile isSpace) next := by
  constructor
  · intro read
    unfold step at read
    split at read
    · exact stepLine_more ‹_› read
    · exact stepWithin_more (Bool.eq_false_iff.2 ‹_›) read
  · intro stepped
    have opens {start : Bool} (known : s.opensLine = start) :
        step s = if start then stepLine s else stepWithin s := by
      rw [← known]
      rfl
    cases stepped with
    | emptyLine start begins =>
      rw [opens start, if_pos rfl]
      unfold stepLine
      simp only [begins, if_true]
    | commentLine start begins =>
      rw [opens start, if_pos rfl]
      unfold stepLine
      simp only [begins]
      rfl
    | line start begins lineEnd comment laid =>
      rw [opens start, if_pos rfl]
      unfold stepLine
      simp only [begins, if_neg lineEnd, if_neg comment, laid]
      rfl
    | lineEnd inline begins =>
      rw [opens inline, if_neg Bool.false_ne_true]
      unfold stepWithin
      simp only [begins, if_true]
    | comment inline begins =>
      rw [opens inline, if_neg Bool.false_ne_true]
      unfold stepWithin
      simp only [begins]
      rfl
    | joint inline begins =>
      rw [opens inline, if_neg Bool.false_ne_true]
      unfold stepWithin
      simp only [begins]
      unfold stepBackslash
      rw [Cursor.rest_drop, begins]
      rfl
    | @token ch text next inline begins token read =>
      simp only [opensToken, Bool.and_eq_true, Bool.not_eq_true', bne_iff_ne, ne_eq] at token
      obtain ⟨⟨⟨-, lineEnd⟩, comment⟩, joint⟩ := token
      rw [opens inline, if_neg Bool.false_ne_true]
      unfold stepWithin
      simp only [begins, if_neg lineEnd, if_neg comment, if_neg joint, read]
      rfl

/-- What a step comes to where only spaces are left. -/
theorem step_nothing (blank : (s.cursor.dropWhile isSpace).rest = []) :
    (s.brackets = [] → step s = .ok (.finished { s with cursor := s.cursor.dropWhile isSpace })) ∧
      (s.brackets ≠ [] → ∃ error, step s = .error error) := by
  constructor
  · intro outside
    unfold step
    split
    · unfold stepLine
      simp only [blank]
    · unfold stepWithin
      simp only [blank, outside]
  · intro within
    obtain ⟨b, others, same⟩ := List.exists_cons_of_ne_nil within
    unfold step
    rw [same, List.isEmpty_cons, Bool.and_false, if_neg Bool.false_ne_true]
    unfold stepWithin
    simp only [blank, same]
    exact ⟨_, rfl⟩

theorem rest_of_more (read : step s = .ok (.more next)) :
    (s.cursor.dropWhile isSpace).rest ≠ [] := by
  cases step_more_iff.1 read with
  | emptyLine _ begins | commentLine _ begins | line _ begins | lineEnd _ begins | comment _ begins
  | joint _ begins | token _ begins => rw [begins]; exact List.cons_ne_nil _ _

/-- The last step finds only spaces, outside of brackets. -/
theorem step_finished (read : step s = .ok (.finished last)) :
    (s.cursor.dropWhile isSpace).rest = [] ∧ s.brackets = [] ∧
      last = { s with cursor := s.cursor.dropWhile isSpace } := by
  have blank : (s.cursor.dropWhile isSpace).rest = [] := by
    have ends := read
    unfold step at ends
    split at ends
    · unfold stepLine at ends
      dsimp only at ends
      split at ends
      · assumption
      · split at ends
        · cases ends
        · split at ends
          · cases ends
          · exact absurd ends not_finished_of_map
    · unfold stepWithin at ends
      dsimp only at ends
      split at ends
      · assumption
      · split at ends
        · cases ends
        · split at ends
          · cases ends
          · split at ends
            · exact absurd ends not_finished_of_map
            · exact absurd ends not_finished_of_map
  by_cases outside : s.brackets = []
  · rw [(step_nothing blank).1 outside] at read
    cases read
    exact ⟨blank, outside, rfl⟩
  · obtain ⟨error, failed⟩ := (step_nothing blank).2 outside
    rw [failed] at read
    cases read

/-- A run goes on where more than spaces is left. -/
theorem onward_of_run (read : run s = .ok last)
    (more : (s.cursor.dropWhile isSpace).rest ≠ []) :
    ∃ next, step s = .ok (.more next) ∧ run next = .ok last := by
  cases onward : step s with
  | error error =>
    rw [run_error onward] at read
    cases read
  | ok answer =>
    cases answer with
    | more next => exact ⟨next, rfl, (run_more onward).symm.trans read⟩
    | finished last' => exact absurd (step_finished onward).1 more

end Console.Token
