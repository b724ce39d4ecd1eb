import Console.Proofs.Token.Layout

/-!
# The next line, and a body on it

Behind a line end the tokens read so far are whole lines. A line that holds `pass` behind spaces is a
body for the lexer: it opens a block where it stands deeper, and nothing of it is left unread.
-/

namespace Console.Token

open Text Parse LexState

variable {s last : LexState}

theorem Sound.nextLine (h : Sound s) (outside : s.brackets = []) (more : List Char) :
    Sound (s.nextLine more) := by
  cases line : s.lineStart with
  | true =>
    have tokens : (s.nextLine more).tokens = s.tokens := by simp [LexState.nextLine, line]
    exact ⟨by rw [tokens]; exact h.inside, by rw [tokens]; exact h.opened,
      fun _ => ⟨outside, by rw [tokens]; exact (h.start line).2⟩⟩
  | false =>
    have tokens : (s.nextLine more).tokens = ⟨.newline, s.cursor.pos⟩ :: s.tokens := by
      simp [LexState.nextLine, line]
    refine ⟨?_, ?_, fun _ => ⟨outside, ?_⟩⟩
    · rw [tokens]
      exact List.forall_mem_cons.2 ⟨rfl, h.inside⟩
    · rw [tokens, depth_cons, h.opened]
      exact Int.zero_add _
    · rw [tokens]
      intro t same
      cases same
      rfl

theorem Sound.wholeLines (h : Sound s) (start : s.lineStart = true) :
    WholeLines s.tokens.reverse := by
  refine ⟨fun t mem => h.inside t (by simpa using mem), fun t final => ?_⟩
  rw [List.getLast?_reverse] at final
  exact (h.start start).2 t final

theorem depth_reverse (ts : List Token) : depth ts.reverse = depth ts := by
  induction ts with
  | nil => rfl
  | cons t ts ih =>
    rw [List.reverse_cons, depth_append, ih, depth_cons, depth_cons, depth_nil]
    omega

/-- What ends the last line and the blocks stands where the source ends. -/
theorem finish_tokens (s : LexState) (closeBlocks : Bool) :
    ∃ R, finish s closeBlocks = s.tokens.reverse ++ R ∧ ∀ x ∈ R, x.pos = s.cursor.pos := by
  unfold finish
  refine ⟨_, by rw [List.append_assoc, List.append_assoc], fun x inside => ?_⟩
  rcases List.mem_append.1 inside with line | inside
  · split at line
    · cases line
    · rw [List.mem_singleton.1 line]
  rcases List.mem_append.1 inside with blocks | marker
  · split at blocks
    · obtain ⟨_, -, rfl⟩ := List.mem_map.1 blocks
      rfl
    · cases blocks
  · rw [List.mem_singleton.1 marker]

/-- At its end a source has the tokens of its whole lines, and the end marker. -/
theorem finish_open (s : LexState) (more : List Char) :
    finish s false = (s.nextLine more).tokens.reverse ++ [⟨.endMarker, s.cursor.pos⟩] := by
  cases line : s.lineStart <;> simp [finish, LexState.nextLine, line]

/-- Where a blank line ends a source, its end closes every block. -/
theorem finish_closed (start : s.lineStart = true) :
    ∃ R, finish s true = s.tokens.reverse ++ R ∧
      Closes s.indents.length R [⟨.endMarker, s.cursor.pos⟩] := by
  refine ⟨s.indents.map (fun _ => ⟨.dedent, s.cursor.pos⟩) ++ [⟨.endMarker, s.cursor.pos⟩],
    by simp [finish, start], _, ?_, ?_, rfl⟩
  · intro t mem
    obtain ⟨_, -, rfl⟩ := List.mem_map.1 mem
    rfl
  · exact List.length_map _

/-- What stands on the line of a body behind its first letter. -/
def bodyTail (behind : List Char) : List Char := 'p' :: 'a' :: 's' :: 's' :: behind

theorem indentColumn_spaces (n : Nat) : indentColumn (spaces n) = n := by
  have counted (m : Nat) : (spaces n).foldl (fun column c =>
      if c = ' ' then column + 1
      else if c = '\t' then (column / 8 + 1) * 8
      else if c = '\x0c' then 0
      else column) m = m + n := by
    induction n generalizing m with
    | zero => rfl
    | succ n ih =>
      rw [spaces, List.replicate_succ, List.foldl_cons]
      exact (ih (m + 1)).trans (by omega)
  exact (counted 0).trans (Nat.zero_add n)

theorem takeWhile_spaces (n : Nat) (behind : List Char) :
    (spaces n ++ ('p' :: behind)).takeWhile isSpace = spaces n := by
  induction n with
  | zero => rfl
  | succ n ih => simpa [spaces, List.replicate_succ, isSpace] using ih

theorem dropWhile_spaces (n : Nat) (behind : List Char) :
    (spaces n ++ ('p' :: behind)).dropWhile isSpace = 'p' :: behind := by
  induction n with
  | zero => rfl
  | succ n ih => simpa [spaces, List.replicate_succ, isSpace] using ih

theorem step_body {n : Nat} {behind : List Char} (start : s.lineStart = true)
    (outside : s.brackets = []) (begins : s.cursor.rest = spaces n ++ bodyTail behind) :
    ∃ c, c.rest = bodyTail behind ∧ step s = (layout s n c).map .more := by
  have rest : (s.cursor.dropWhile isSpace).rest = bodyTail behind := by
    rw [Cursor.rest_dropWhile, begins]
    exact dropWhile_spaces n _
  refine ⟨s.cursor.dropWhile isSpace, rest, ?_⟩
  unfold step
  rw [start, outside]
  show stepLine s = _
  unfold stepLine
  dsimp only
  rw [rest, begins]
  show (layout s (indentColumn ((spaces n ++ bodyTail behind).takeWhile isSpace)) _).map _ = _
  rw [bodyTail, takeWhile_spaces, indentColumn_spaces]

/-- The state behind the word of a body. -/
def LexState.behindBody (s : LexState) : LexState :=
  s.add (.name "pass") s.cursor.pos (s.cursor.drop 4)

theorem step_pass {behind : List Char} (ends : behind = [] ∨ behind = ['\n'])
    (within : s.lineStart = false) (begins : s.cursor.rest = bodyTail behind) :
    step s = .ok (.more s.behindBody) := by
  obtain ⟨⟨rest, pos⟩, indents, brackets, lineStart, tokens⟩ := s
  dsimp only at begins within
  subst begins within
  rcases ends with rfl | rfl <;> rfl

/-- Blocks are opened and closed at the start of a line, outside of brackets. -/
theorem layout_ok {column : Nat} {c : Cursor} {s' : LexState} (read : layout s column c = .ok s') :
    s'.cursor = c ∧ s'.lineStart = false ∧ s'.brackets = s.brackets := by
  unfold layout at read
  split at read
  · cases read
    exact ⟨rfl, rfl, rfl⟩
  · dsimp only at read
    split at read
    · cases read
      exact ⟨rfl, rfl, rfl⟩
    · cases read

theorem layout_final {column : Nat} {c : Cursor} {error : SyntaxError}
    (failed : layout s column c = .error error) : error.isIncomplete = false := by
  unfold layout at failed
  split at failed
  · cases failed
  · dsimp only at failed
    split at failed
    · cases failed
    · cases failed
      rfl

/-- A body at the very end of a text is read, or stands at no open column. -/
theorem run_body {n : Nat} (start : s.lineStart = true) (outside : s.brackets = [])
    (begins : s.cursor.rest = spaces n ++ bodyTail []) :
    (∃ last, run s = .ok last) ∨
      ∃ error, error.isIncomplete = false ∧ run s = .error error := by
  obtain ⟨c, rest, onward⟩ := step_body start outside begins
  cases laid : layout s n c with
  | error error =>
    rw [laid] at onward
    exact .inr ⟨error, layout_final laid, run_error onward⟩
  | ok s' =>
    rw [laid] at onward
    obtain ⟨same, within, outside'⟩ := layout_ok laid
    rw [run_more onward, run_more (step_pass (.inl rfl) within (by rw [same, rest]))]
    obtain ⟨⟨text, pos⟩, indents, brackets, lineStart, tokens⟩ := s'
    dsimp only at same within outside'
    subst same within
    obtain rfl : brackets = [] := outside'.trans outside
    dsimp only at rest
    subst rest
    exact .inl ⟨_, run_finished rfl⟩

/-- A body that stands no deeper opens no block. -/
theorem run_shallowBody {n : Nat} (start : s.lineStart = true) (outside : s.brackets = [])
    (begins : s.cursor.rest = spaces n ++ bodyTail []) (shallow : n ≤ s.column)
    (read : run s = .ok last) :
    ∃ closed p q, last.tokens =
      ⟨.name "pass", q⟩ :: (List.replicate closed ⟨.dedent, p⟩ ++ s.tokens) := by
  obtain ⟨⟨rest, pos⟩, rest', onward⟩ := step_body start outside begins
  dsimp only at rest'
  subst rest'
  unfold layout at onward
  rw [if_neg (Nat.not_lt.2 shallow)] at onward
  dsimp only at onward
  split at onward
  · rw [run_more onward, run_more (step_pass (.inl rfl) rfl rfl)] at read
    obtain ⟨cursor, indents, brackets, lineStart, tokens⟩ := s
    dsimp only at start outside
    subst start outside
    rw [run_finished rfl] at read
    cases read
    exact ⟨(indents.takeWhile (n < ·)).length, pos, pos, by
      simp [LexState.behindBody, LexState.add, List.map_const']⟩
  · rw [run_error onward] at read
    cases read

/-- A body on a line of its own opens a block where it stands deeper. -/
theorem run_bodyLine {n : Nat} (start : s.lineStart = true) (outside : s.brackets = [])
    (begins : s.cursor.rest = spaces n ++ bodyTail ['\n']) (deeper : s.column < n) :
    ∃ last p q r, run s = .ok last ∧ last.lineStart = true ∧ last.indents = n :: s.indents ∧
      last.tokens = ⟨.newline, r⟩ :: ⟨.name "pass", q⟩ :: ⟨.indent, p⟩ :: s.tokens := by
  obtain ⟨⟨rest, pos⟩, rest', onward⟩ := step_body start outside begins
  dsimp only at rest'
  subst rest'
  unfold layout at onward
  rw [if_pos deeper] at onward
  rw [run_more onward, run_more (step_pass (.inr rfl) rfl rfl)]
  obtain ⟨cursor, indents, brackets, lineStart, tokens⟩ := s
  dsimp only at start outside
  subst start outside
  exact ⟨_, pos, pos, _, (run_more rfl).trans (run_finished rfl), rfl, rfl, rfl⟩

end Console.Token
