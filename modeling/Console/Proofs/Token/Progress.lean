import Console.Proofs.Token.Steps

/-!
# What a run leaves behind

A run reads its source to the end, so it ends at the position behind the whole text. A token changes no
columns, and the columns that lines open are deeper than column 0.
-/

namespace Console

namespace Position

/-- Every line end leads to the next line. -/
theorem line_past (p : Position) (text : List Char) :
    (p.past text).line = p.line + text.count '\n' := by
  induction text generalizing p with
  | nil => rfl
  | cons ch text ih =>
    show ((p.next ch).past text).line = _
    rw [ih, List.count_cons]
    unfold next
    by_cases line : ch = '\n'
    · subst line
      simp only [if_true, BEq.rfl]
      omega
    · simp [line]

end Position

namespace Cursor

/-- The position behind all of the text. -/
def last (c : Cursor) : Position := c.pos.past c.rest

theorem Reaches.last {c c' : Cursor} (reaches : c.Reaches c') : c'.last = c.last := by
  obtain ⟨passed, rest, pos⟩ := reaches
  unfold Cursor.last
  rw [pos, rest, Position.past_append]

@[simp] theorem last_drop (c : Cursor) (n : Nat) : (c.drop n).last = c.last :=
  (c.reaches_drop n).last

@[simp] theorem last_dropWhile (c : Cursor) (p : Char → Bool) : (c.dropWhile p).last = c.last :=
  (c.reaches_dropWhile p).last

end Cursor

namespace Token

open Text

variable {c after : Cursor} {s next : LexState} {ch : Char}

/-- A token changes no columns, ends on the line that it starts on and leaves the cursor behind it. It
starts at `c`, or goes on with the literal before it; a bracket that it opens stands at `c` too. -/
structure Taken (s : LexState) (c : Cursor) (next : LexState) : Prop where
  indents : next.indents = s.indents
  line : next.lineStart = s.lineStart
  reaches : c.Reaches next.cursor
  places : next.tokens.map Token.pos = s.tokens.map Token.pos ∨
    next.tokens.map Token.pos = c.pos :: s.tokens.map Token.pos
  brackets : ∀ b ∈ next.brackets, b ∈ s.brackets ∨ b.2 = c.pos

theorem Taken.addString (reaches : c.Reaches after) (text : List Char) :
    Taken s c (s.addString text c.pos after) := by
  unfold LexState.addString
  split
  · rename_i before
    exact ⟨rfl, rfl, reaches, .inl (by rw [before]; rfl), fun b inside => .inl inside⟩
  · exact ⟨rfl, rfl, reaches, .inr rfl, fun b inside => .inl inside⟩

theorem Taken.add (reaches : c.Reaches after) (kind : TokenKind) :
    Taken s c (s.add kind c.pos after) :=
  ⟨rfl, rfl, reaches, .inr rfl, fun _ inside => .inl inside⟩

theorem taken_string {raw : Bool} {start : Position} (reaches : c.Reaches after)
    (read : (match readString raw start after with
      | .error e => .error e
      | .ok (text, behind) => .ok (s.addString text c.pos behind) : Except SyntaxError LexState) =
        .ok next) : Taken s c next := by
  split at read
  · cases read
  · rename_i taken
    cases read
    exact .addString (reaches.trans (readString_reaches taken)) _

theorem taken_name (read : stepName s c = .ok next) : Taken s c next := by
  unfold stepName at read
  dsimp only at read
  split at read
  · exact taken_string (c.reaches_drop _) read
  · cases read
    exact .add (c.reaches_drop _) _

theorem taken_operator (read : stepOperator s c = .ok next) : Taken s c next := by
  unfold stepOperator at read
  split at read
  · cases read
  · dsimp only at read
    split at read
    · split at read
      · cases read
      · cases read
        refine ⟨rfl, rfl, c.reaches_drop _, .inr rfl, fun b inside => ?_⟩
        rcases List.mem_cons.1 inside with rfl | inside
        · exact .inr rfl
        · exact .inl inside
    · split at read
      · rename_i closed
        split at read
        · cases read
          refine ⟨rfl, rfl, c.reaches_drop _, .inr rfl, fun b inside => .inl ?_⟩
          rw [closed]
          exact List.mem_cons_of_mem _ inside
        · cases read
      · cases read
    · cases read
      exact .add (c.reaches_drop _) _

theorem taken_token (read : stepToken s c ch = .ok next) : Taken s c next := by
  unfold stepToken at read
  split at read
  · exact taken_string (.refl c) read
  · split at read
    · rcases readNumeral_cases c with ⟨kind, behind, numeral, reaches, -⟩ | ⟨_, _, -, -, failed⟩
      · rw [numeral] at read
        cases read
        exact .add reaches _
      · rw [failed] at read
        cases read
    · split at read
      · exact taken_name read
      · exact taken_operator read

/-- What is open is deeper than column 0, and the text ends at `p`. -/
structure Ongoing (p : Position) (s : LexState) : Prop where
  deep : ∀ column ∈ s.indents, 0 < column
  last : s.cursor.last = p

theorem Ongoing.layout {p : Position} (h : Ongoing p s) (same : c.last = p) {column : Nat}
    (read : layout s column c = .ok next) : Ongoing p next := by
  unfold Token.layout at read
  split at read
  · rename_i deeper
    cases read
    exact ⟨List.forall_mem_cons.2 ⟨Nat.lt_of_le_of_lt (Nat.zero_le _) deeper, h.deep⟩, same⟩
  · dsimp only at read
    split at read
    · cases read
      exact ⟨fun column mem => h.deep column ((List.dropWhile_sublist _).subset mem), same⟩
    · cases read

/-- A step keeps what is known. -/
theorem Ongoing.step {p : Position} (h : Ongoing p s) (read : step s = .ok (.more next)) :
    Ongoing p next := by
  have blanks : (s.cursor.dropWhile isSpace).last = p := (Cursor.last_dropWhile _ _).trans h.last
  have dropped (n : Nat) : ((s.cursor.dropWhile isSpace).drop n).last = p :=
    (Cursor.last_drop _ _).trans blanks
  have commented : ((s.cursor.dropWhile isSpace).dropWhile (· ≠ '\n')).last = p :=
    (Cursor.last_dropWhile _ _).trans blanks
  cases step_more_iff.1 read with
  | emptyLine => exact ⟨h.deep, dropped 1⟩
  | commentLine => exact ⟨h.deep, (Cursor.last_drop _ _).trans commented⟩
  | line _ _ _ _ laid => exact h.layout blanks laid
  | lineEnd =>
    unfold stepNewline
    split <;> exact ⟨h.deep, dropped 1⟩
  | comment => exact ⟨h.deep, commented⟩
  | joint => exact ⟨h.deep, dropped 2⟩
  | token _ _ _ read =>
    have taken := taken_token read
    exact ⟨by rw [taken.indents]; exact h.deep, taken.reaches.last.trans blanks⟩

/-- A run ends behind the whole text. -/
theorem Ongoing.run {p : Position} {last : LexState} (h : Ongoing p s) (read : run s = .ok last) :
    Ongoing p last ∧ last.cursor.rest = [] := by
  fun_induction Token.run s
  case case1 => cases read
  case case2 s last' finished =>
    cases read
    obtain ⟨nothing, -, rfl⟩ := step_finished finished
    exact ⟨⟨h.deep, (Cursor.last_dropWhile _ _).trans h.last⟩, nothing⟩
  case case3 s s' onward ih => exact ih (h.step onward) read

end Token

end Console
