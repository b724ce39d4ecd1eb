import Console.Proofs.Token.Gaps

/-!
# Other layouts of a source

`Relaid f s text` says that `text` is what is left of a source at the state `s`, laid out anew: with
other lines that hold no token, with each line that opens or closes blocks at the column that `f` takes
its column to, and with other blank space between words. The lexer reads the same tokens from it.
-/

namespace Console.Token

open Text

/-- Another layout of what is left of a source. -/
inductive Relaid (f : Nat → Nat) : LexState → List Char → Prop
  /-- A line that holds no token is inserted. -/
  | inserted {s : LexState} {text : List Char} (b r : List Char)
    (start : s.opensLine = true) (spaces : Spaces b) (remark : Remark r) :
    Relaid f s text → Relaid f s (b ++ r ++ '\n' :: text)
  /-- A line that holds no token is left out. -/
  | removed {s : LexState} {left text : List Char} (b r : List Char)
    (start : s.opensLine = true) (spaces : Spaces b) (remark : Remark r)
    (begins : s.cursor.rest = b ++ r ++ '\n' :: left) :
    Relaid f { s with cursor := s.cursor.drop (b ++ r ++ ['\n']).length } text → Relaid f s text
  /-- The last line holds no token. -/
  | done {s : LexState} (b r b' r' : List Char) (start : s.opensLine = true)
    (spaces : Spaces b) (remark : Remark r) (spaces' : Spaces b')
    (remark' : Remark r') (begins : s.cursor.rest = b ++ r) : Relaid f s (b' ++ r')
  /-- A line starts at the column that `f` takes its column to. -/
  | indented {s next : LexState} {ch : Char} {left text : List Char} (b b' : List Char)
    (start : s.opensLine = true) (spaces : Spaces b) (spaces' : Spaces b')
    (begins : s.cursor.rest = b ++ ch :: left) (space : isSpace ch = false) (line : ch ≠ '\n')
    (comment : ch ≠ '#') (column : indentColumn b' = f (indentColumn b))
    (laid : layout s (indentColumn b) (s.cursor.drop b.length) = .ok next) :
    Relaid f next (ch :: text) → Relaid f s (b' ++ ch :: text)
  /-- Blank space is written in another way. -/
  | gap {s : LexState} {left text : List Char} (g g' : List Char) (inline : s.lineStart = false)
    (gap : Gap (!s.brackets.isEmpty) g) (gap' : Gap (!s.brackets.isEmpty) g') (nonempty : g ≠ [])
    (nonempty' : g' ≠ []) (begins : s.cursor.rest = g ++ left) :
    Relaid f { s with cursor := s.cursor.drop g.length } text → Relaid f s (g' ++ text)
  /-- A token is written as it is. -/
  | token {s next : LexState} {ch : Char} {text : List Char} (word : List Char)
    (inline : s.lineStart = false) (opens : opensToken ch = true)
    (begins : s.cursor.rest = ch :: word ++ next.cursor.rest) (read : stepToken s s.cursor ch = .ok next) :
    Relaid f next text → Relaid f s (ch :: word ++ text)
  /-- A line ends, with another comment maybe. -/
  | ended {s : LexState} {left text : List Char} (r r' : List Char) (inline : s.lineStart = false)
    (outside : s.brackets = []) (remark : Remark r) (remark' : Remark r')
    (begins : s.cursor.rest = r ++ '\n' :: left) :
    Relaid f (stepNewline s (s.cursor.drop r.length)) text → Relaid f s (r' ++ '\n' :: text)
  /-- The source ends within a line. -/
  | last {s : LexState} (r r' : List Char) (inline : s.lineStart = false) (outside : s.brackets = [])
    (remark : Remark r) (remark' : Remark r') (begins : s.cursor.rest = r) : Relaid f s r'

variable {f : Nat → Nat} {s s' last next : LexState} {text : List Char}

/-- Within a line both texts begin with the same word, up to where it stops. -/
theorem Relaid.parted (relaid : Relaid f s text) (inline : s.lineStart = false) :
    ∃ word tail tail', s.cursor.rest = word ++ tail ∧ text = word ++ tail' ∧ Stopped tail ∧
      Stopped tail' := by
  induction relaid with
  | inserted _ _ start | removed _ _ start | done _ _ _ _ start | indented _ _ start =>
    rw [LexState.opensLine_inline inline] at start
    cases start
  | gap _ _ _ gap gap' nonempty nonempty' begins =>
    exact ⟨[], _, _, begins, rfl, gap.stopped nonempty _, gap'.stopped nonempty' _⟩
  | @token s next ch text word inline opens begins read _ ih =>
    obtain ⟨more, tail, tail', left, rfl, stopped, stopped'⟩ :=
      ih ((taken_token read).line.trans inline)
    exact ⟨ch :: word ++ more, tail, tail', by rw [begins, left, List.append_assoc],
      by rw [List.append_assoc], stopped, stopped'⟩
  | ended _ _ _ _ remark remark' begins =>
    exact ⟨[], _, _, begins, rfl, remark.stopped (.cons (by decide) _),
      remark'.stopped (.cons (by decide) _)⟩
  | last _ _ _ _ remark remark' begins =>
    have alone {r : List Char} (remark : Remark r) : Stopped r := by
      simpa using remark.stopped Stopped.nil
    exact ⟨[], _, _, begins, rfl, alone remark, alone remark'⟩

/-- The lexer reads the same tokens from another layout, with the columns that `f` takes them to. -/
theorem Relaid.run (mono : StrictMono f) (zero : f 0 = 0) (relaid : Relaid f s text)
    (akin : Akin .any f [] s s') (rest : s'.cursor.rest = text) :
    ∃ last last', Token.run s = .ok last ∧ Token.run s' = .ok last' ∧ Akin .any f [] last last' := by
  induction relaid generalizing s' with
  | @inserted s text b r start spaces remark _ ih =>
    rw [run_filler (akin.opensLine.trans start) spaces remark rest]
    refine ih (akin.moved s.cursor _) ?_
    dsimp only
    rw [Cursor.rest_drop, rest]
    simp
  | removed b r start spaces remark begins _ ih =>
    rw [run_filler start spaces remark begins]
    exact ih (akin.moved _ s'.cursor) rest
  | done b r b' r' start spaces remark spaces' remark' begins =>
    obtain ⟨c, read⟩ := run_over start spaces remark begins
    obtain ⟨c', read'⟩ := run_over (akin.opensLine.trans start) spaces' remark' rest
    exact ⟨_, _, read, read', akin.moved c c'⟩
  | @indented s next ch left text b b' start spaces spaces' begins space line comment column laid _ ih =>
    have aligned : Alignment.any.aligned (s.cursor.drop b.length).pos (s'.cursor.drop b'.length).pos :=
      trivial
    obtain ⟨next', laid', akin'⟩ := leads_layout mono zero akin aligned laid
    rw [← column] at laid'
    rw [run_more (step_indented start spaces begins space line comment laid),
      run_more (step_indented (akin.opensLine.trans start) spaces' rest space line comment laid')]
    refine ih akin' ?_
    rw [(layout_ok laid').1, Cursor.rest_drop, rest, List.drop_left]
  | gap g g' inline gap gap' _ _ begins _ ih =>
    have bracketed {s : LexState} (within : (!s.brackets.isEmpty) = true) : s.brackets ≠ [] := by
      simpa using within
    rw [← akin.isEmpty_brackets] at gap'
    rw [run_gap inline gap bracketed begins, run_gap (akin.line.trans inline) gap' bracketed rest]
    refine ih (akin.moved _ _) ?_
    dsimp only
    rw [Cursor.rest_drop, rest, List.drop_left]
  | @token s next ch text word inline opens begins read relaid ih =>
    obtain ⟨more, tail, tail', left, rfl, stopped, stopped'⟩ :=
      relaid.parted ((taken_token read).line.trans inline)
    have abreast : Cursor.Abreast .any tail tail' (ch :: word ++ more) s.cursor s'.cursor :=
      ⟨by rw [begins, left, List.append_assoc], by rw [rest, List.append_assoc], trivial⟩
    obtain ⟨next', more', read', -, akin', abreast'⟩ :=
      leads_token (by simp) stopped stopped' akin abreast begins (by simp) next read
        (by rw [left, List.length_append]; omega)
    obtain rfl : more' = more := List.append_cancel_right (abreast'.rest.symm.trans left)
    rw [run_token inline begins opens read, run_token (akin.line.trans inline) rest opens read']
    exact ih akin' abreast'.rest'
  | @ended s left text r r' inline outside remark remark' begins _ ih =>
    rw [run_lineEnd_remark inline remark begins,
      run_lineEnd_remark (akin.line.trans inline) remark' rest]
    refine ih (akin.newline trivial) ?_
    rw [cursor_stepNewline, Cursor.drop_drop, Cursor.rest_drop, rest, List.drop_append]
    simp
  | last r r' inline outside remark remark' begins =>
    exact ⟨_, _, run_end_remark inline outside remark begins,
      run_end_remark (akin.line.trans inline) (akin.outside.2 outside) remark' rest, akin.moved _ _⟩

/-- A text in front of which nothing stands ends its line, maybe behind a comment. -/
theorem exists_remark {text : List Char} (ends : ∀ ch ∈ text.head?, ch = '#' ∨ ch = '\n') :
    ∃ r left, text = r ++ left ∧ Remark r ∧ (left = [] ∨ ∃ more, left = '\n' :: more) := by
  cases text with
  | nil => exact ⟨[], [], rfl, .none, .inl rfl⟩
  | cons ch text =>
    rcases ends ch rfl with rfl | rfl
    · refine ⟨'#' :: text.takeWhile (· ≠ '\n'), text.dropWhile (· ≠ '\n'), ?_, .comment ?_, ?_⟩
      · rw [List.cons_append, List.takeWhile_append_dropWhile]
      · intro mem
        have passed := List.mem_takeWhile_imp mem
        simp at passed
      · cases left : text.dropWhile (· ≠ '\n') with
        | nil => exact .inl rfl
        | cons d more =>
          have stops := List.head?_dropWhile_not (· ≠ '\n') text
          rw [left] at stops
          obtain rfl : d = '\n' := by simpa using stops
          exact .inr ⟨more, rfl⟩
    · exact ⟨[], _, rfl, .none, .inr ⟨text, rfl⟩⟩

/-- A token is a word before what is left. -/
theorem exists_word {ch : Char} {tail : List Char} (inline : s.lineStart = false)
    (begins : s.cursor.rest = ch :: tail) (read : stepToken s s.cursor ch = .ok next) :
    ∃ word, s.cursor.rest = ch :: word ++ next.cursor.rest := by
  have moves : Moves s s.cursor (stepToken s s.cursor ch) := moves_token inline
  rw [read] at moves
  obtain ⟨taken, whole⟩ := moves.2
  cases taken with
  | nil =>
    have shorter := size_stepToken_lt begins read
    rw [List.nil_append] at whole
    rw [LexState.size, whole, (taken_token read).line] at shorter
    omega
  | cons d word =>
    rw [begins, List.cons_append] at whole
    obtain ⟨rfl, rest⟩ := List.cons.inj whole
    exact ⟨word, by rw [begins, ← rest, List.cons_append]⟩

/-- A comment may end the source, outside of brackets. -/
theorem relaid_last (inline : s.lineStart = false) {r : List Char} (remark : Remark r)
    (begins : s.cursor.rest = r) (read : Token.run s = .ok last) : Relaid id s s.cursor.rest := by
  have nothing : (s.cursor.drop r.length).rest = [] := by
    rw [Cursor.rest_drop, begins, List.drop_length]
  have outside : s.brackets = [] := by
    by_contra within
    obtain ⟨error, failed⟩ := (step_nothing (s := { s with cursor := s.cursor.drop r.length }) (by
      rw [Cursor.rest_dropWhile, nothing, List.dropWhile_nil])).2 within
    rw [run_remark inline remark (begins.trans (List.append_nil r).symm) (by simp),
      run_error failed] at read
    cases read
  rw [begins]
  exact .last r r inline outside remark remark begins

section Same

variable (ih : ∀ next : LexState, next.size < s.size → (next.lineStart = true → next.brackets = []) →
  Token.run next = .ok last → Relaid id next next.cursor.rest)
include ih

/-- A line that holds no token is left out and put in again. -/
theorem relaid_filler (start : s.opensLine = true) {b r more : List Char} (spaces : Spaces b)
    (remark : Remark r) (begins : s.cursor.rest = b ++ r ++ '\n' :: more)
    (read : Token.run s = .ok last) : Relaid id s s.cursor.rest := by
  have behind : (s.cursor.drop (b ++ r ++ ['\n']).length).rest = more := by
    rw [Cursor.rest_drop, begins]
    simp
  have shorter : ({ s with cursor := s.cursor.drop (b ++ r ++ ['\n']).length } : LexState).size <
      s.size := by
    unfold LexState.size
    dsimp only
    rw [behind, begins, List.length_append, List.length_cons]
    omega
  rw [run_filler start spaces remark begins] at read
  have same := ih _ shorter (fun _ => (LexState.opensLine_eq_true.1 start).2) read
  dsimp only at same
  rw [behind] at same
  rw [begins]
  exact .removed b r start spaces remark begins (.inserted b r start spaces remark same)

/-- A line that holds a token keeps its column. -/
theorem relaid_column (start : s.opensLine = true) {b left : List Char} {ch : Char} (spaces : Spaces b)
    (begins : s.cursor.rest = b ++ ch :: left) (space : isSpace ch = false) (comment : ch ≠ '#')
    (line : ch ≠ '\n') (read : Token.run s = .ok last) : Relaid id s s.cursor.rest := by
  have stops : ∀ d ∈ (ch :: left).head?, isSpace d = false := by
    rintro _ ⟨⟩
    exact space
  have passed := Cursor.dropWhile_eq_drop begins spaces stops
  have behind : (s.cursor.dropWhile isSpace).rest = ch :: left := by
    rw [passed, Cursor.rest_drop, begins, List.drop_left]
  have blanks : s.cursor.rest.takeWhile isSpace = b := by
    rw [begins, takeWhile_stopped stops, List.takeWhile_eq_self_iff.2 spaces]
  have first {d : Char} {text : List Char}
      (begins' : (s.cursor.dropWhile isSpace).rest = d :: text) : ch = d :=
    (List.cons.inj (behind.symm.trans begins')).1
  obtain ⟨next, onward, read⟩ := onward_of_run read (by rw [behind]; exact List.cons_ne_nil _ _)
  cases step_more_iff.1 onward with
  | emptyLine _ begins' => exact absurd (first begins') line
  | commentLine _ begins' => exact absurd (first begins') comment
  | lineEnd inline | comment inline | joint inline | token inline =>
    rw [start] at inline
    cases inline
  | line _ _ _ _ laid =>
    rw [blanks, passed] at laid
    obtain ⟨cursor, inline, -⟩ := layout_ok laid
    have same := ih next (size_step_lt onward) (by simp [inline]) read
    rw [cursor, ← passed, behind] at same
    rw [begins]
    exact .indented b b start spaces spaces begins space line comment rfl laid same

theorem relaid_line (start : s.opensLine = true) (read : Token.run s = .ok last) :
    Relaid id s s.cursor.rest := by
  obtain ⟨b, text, begins, spaces, stops⟩ : ∃ b text, s.cursor.rest = b ++ text ∧ Spaces b ∧
      ∀ ch ∈ text.head?, isSpace ch = false := by
    refine ⟨_, _, (List.takeWhile_append_dropWhile (p := isSpace)).symm,
      fun ch mem => List.mem_takeWhile_imp mem, fun ch first => ?_⟩
    have stops := List.head?_dropWhile_not isSpace s.cursor.rest
    rw [show _ = some ch from first] at stops
    exact stops
  by_cases ends : ∀ ch ∈ text.head?, ch = '#' ∨ ch = '\n'
  · obtain ⟨r, left, rfl, remark, rfl | ⟨more, rfl⟩⟩ := exists_remark ends
    · rw [List.append_nil] at begins
      rw [begins]
      exact .done b r b r start spaces remark spaces remark begins
    · rw [← List.append_assoc] at begins
      exact relaid_filler ih start spaces remark begins read
  · cases text with
    | nil => simp at ends
    | cons ch left =>
      obtain ⟨comment, line⟩ : ch ≠ '#' ∧ ch ≠ '\n' := by simpa using ends
      exact relaid_column ih start spaces begins (stops ch rfl) comment line read

/-- Blank space that is passed within a line may stay. -/
theorem relaid_gap (inline : s.lineStart = false) {g left : List Char}
    (gap : Gap (!s.brackets.isEmpty) g) (nonempty : g ≠ []) (begins : s.cursor.rest = g ++ left)
    (read : Token.run s = .ok last) : Relaid id s s.cursor.rest := by
  have behind : (s.cursor.drop g.length).rest = left := by
    rw [Cursor.rest_drop, begins, List.drop_left]
  rw [run_gap inline gap (by simp) begins] at read
  have same := ih { s with cursor := s.cursor.drop g.length }
    (by simpa [LexState.size, behind, begins] using List.length_pos_iff.2 nonempty)
    (fun start => absurd (inline.symm.trans start) (by decide)) read
  dsimp only at same
  rw [behind] at same
  rw [begins]
  exact .gap g g inline gap gap nonempty nonempty begins same

/-- A line end may stay, within brackets as blank space. -/
theorem relaid_lineEnd (inline : s.lineStart = false) {r more : List Char} (remark : Remark r)
    (begins : s.cursor.rest = r ++ '\n' :: more) (read : Token.run s = .ok last) :
    Relaid id s s.cursor.rest := by
  by_cases outside : s.brackets = []
  · rw [run_lineEnd_remark inline remark begins] at read
    have behind : (stepNewline s (s.cursor.drop r.length)).cursor.rest = more := by
      rw [cursor_stepNewline, Cursor.drop_drop, Cursor.rest_drop, begins]
      simp
    have shorter : (stepNewline s (s.cursor.drop r.length)).size < s.size := by
      have one := (stepNewline s (s.cursor.drop r.length)).lineStart.toNat_le
      simp only [LexState.size, behind, begins, List.length_append, List.length_cons]
      omega
    have same := ih _ shorter (fun _ => by
      unfold stepNewline
      split <;> exact outside) read
    rw [behind] at same
    rw [begins]
    exact .ended r r inline outside remark remark begins same
  · have bracketed : (!s.brackets.isEmpty) = true := by simpa using outside
    exact relaid_gap ih inline (.lineEnd bracketed remark .nil) (by simp)
      (by rw [begins, List.append_assoc]; rfl) read

/-- A word may stay. -/
theorem relaid_word (inline : s.lineStart = false) {ch : Char} {left : List Char}
    (begins : s.cursor.rest = ch :: left) (space : isSpace ch = false) (comment : ch ≠ '#')
    (line : ch ≠ '\n') (read : Token.run s = .ok last) : Relaid id s s.cursor.rest := by
  have here := dropWhile_here begins space
  obtain ⟨next, onward, read'⟩ := onward_of_run read (by
    rw [here, begins]
    exact List.cons_ne_nil _ _)
  have stepped := step_more_iff.1 onward
  rw [here] at stepped
  cases stepped with
  | emptyLine start | commentLine start | line start =>
    rw [LexState.opensLine_inline inline] at start
    cases start
  | lineEnd _ begins' => exact absurd (List.cons.inj (begins.symm.trans begins')).1 line
  | comment _ begins' => exact absurd (List.cons.inj (begins.symm.trans begins')).1 comment
  | joint _ begins' => exact relaid_gap ih inline (.joint .nil) (by simp) begins' read
  | token _ begins' opens taken =>
    obtain ⟨word, whole⟩ := exists_word inline begins' taken
    have same := ih next (size_step_lt onward)
      (fun start => absurd ((taken_token taken).line.symm.trans start) (by simp [inline])) read'
    rw [whole]
    exact .token word inline opens whole taken same

theorem relaid_within (inline : s.lineStart = false) (read : Token.run s = .ok last) :
    Relaid id s s.cursor.rest := by
  by_cases ends : ∀ ch ∈ s.cursor.rest.head?, ch = '#' ∨ ch = '\n'
  · obtain ⟨r, left, begins, remark, rfl | ⟨more, rfl⟩⟩ := exists_remark ends
    · rw [List.append_nil] at begins
      exact relaid_last inline remark begins read
    · exact relaid_lineEnd ih inline remark begins read
  · cases begins : s.cursor.rest with
    | nil => simp [begins] at ends
    | cons ch left =>
      rw [← begins]
      obtain ⟨comment, line⟩ : ch ≠ '#' ∧ ch ≠ '\n' := by simpa [begins] using ends
      cases space : isSpace ch with
      | true => exact relaid_gap ih inline (.space space .nil) (by simp) begins read
      | false => exact relaid_word ih inline begins space comment line read

end Same

/-- A source that is read has the layout that it has. -/
theorem Relaid.refl (sound : s.lineStart = true → s.brackets = []) (read : Token.run s = .ok last) :
    Relaid id s s.cursor.rest := by
  induction size : s.size using Nat.strong_induction_on generalizing s with
  | _ n ih =>
    subst size
    have smaller : ∀ next : LexState, next.size < s.size →
        (next.lineStart = true → next.brackets = []) → Token.run next = .ok last →
          Relaid id next next.cursor.rest :=
      fun next less sound read => ih _ less sound read rfl
    cases line : s.lineStart with
    | true => exact relaid_line smaller (LexState.opensLine_eq_true.2 ⟨line, sound line⟩) read
    | false => exact relaid_within smaller line read

end Console.Token
