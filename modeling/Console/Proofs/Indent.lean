import Console.Indent
import Console.Proofs.Highlight.Agreement
import Console.Proofs.Text.Lines
import Console.Proofs.Text.Words

/-!
# The column below a line

The prediction is deeper where the code of a line ends in a colon, and for the lexer that is where its
last token is one. They agree on where the code ends unless a literal of three quotes comes apart when it
is read one quote at a time, which is all that the prediction does.
-/

namespace Console.Indent

open Text Token Highlight

variable {s next last : LexState} {c : Cursor} {ch mark : Char} {tabLength : Nat}
  {line before text word tail body more : List Char} {found : List Scan} {tokens : List Token}

/-- The column at which the lexer finds the first token of a line. -/
def measuredColumn (line : List Char) : Nat := indentColumn (line.takeWhile isSpace)

/-- The last token before the end of the line is a colon. -/
def EndsInColon (tokens : List Token) : Prop :=
  ∃ t u : Token, [t, u] <:+: tokens ∧ t.kind = .op ":" ∧ u.kind = .newline

/-- Closed strings of one quote each, and neither quotes nor hash signs between them. -/
inductive Row : List Char → Prop
  | nil : Row []
  | bare {ch : Char} {text : List Char} (bare : isBare ch = true) : Row text → Row (ch :: text)
  | string {mark : Char} {tail body text : List Char} (quote : isQuote mark = true)
    (closes : Remainder mark false tail body) : Row text → Row (mark :: (body ++ text))

/-- Each literal of three quotes among the literals found in a line is a row of closed strings, too. -/
def Tame (line : List Char) (found : List Scan) : Prop :=
  ∀ start stop, .literal start stop ∈ found → ∀ text, slice? line start stop = some text →
    ∀ mark, [mark, mark, mark] <+: text → Row text

/-! ## Rows of strings -/

theorem backslash_of_isQuote (quote : isQuote mark = true) : mark ≠ '\\' := by
  rintro rfl
  cases quote

theorem Row.append_bare (row : Row text) (bare : ∀ ch ∈ word, isBare ch = true) :
    Row (word ++ text) := by
  induction word with
  | nil => exact row
  | cons ch word ih =>
    obtain ⟨first, others⟩ := List.forall_mem_cons.1 bare
    exact .bare first (ih others)

theorem Row.of_bare (bare : ∀ ch ∈ word, isBare ch = true) : Row word := by
  have row := Row.append_bare .nil bare
  rwa [List.append_nil] at row

/-- A literal of three quotes with none of these quotes in it is a row of strings. -/
theorem Row.of_triple (quote : isQuote mark = true)
    (closes : Remainder mark false tail (body ++ [mark])) :
    Row (mark :: mark :: mark :: (body ++ [mark, mark, mark])) := by
  have one : Remainder mark false [] [mark] := .close rfl
  have behind : Row [mark, mark] := .string quote one .nil
  have inside : Row (mark :: (body ++ [mark] ++ [mark, mark])) := .string quote closes behind
  rw [List.append_assoc] at inside
  exact .string quote one inside

/-- A literal of one quote always is one. -/
theorem Row.of_isLiteral (quote : isQuote mark = true) (literal : IsLiteral mark tail text)
    (tripled : [mark, mark, mark] <+: text → Row text) : Row text := by
  cases literal with
  | @single text _ closes =>
    have row := Row.string quote closes .nil
    rwa [List.append_nil] at row
  | @triple text => exact tripled (List.prefix_append [mark, mark, mark] text)

theorem codeFrom_inside (quote : isQuote mark = true) (closes : Remainder mark false tail body)
    (more : List Char) :
    codeFrom (.inside mark false) (body ++ more) = body ++ codeFrom .outside more := by
  induction closes with
  | close =>
    rw [List.singleton_append, codeFrom, if_neg (backslash_of_isQuote quote), if_pos rfl]
    rfl
  | closeTriple tripled | quote tripled => cases tripled
  | escape _ ih =>
    rw [List.cons_append, List.cons_append, codeFrom, if_pos rfl, codeFrom, ih]
    rfl
  | char backslash other _ ih =>
    rw [List.cons_append, codeFrom, if_neg backslash, if_neg other, ih]
    rfl

/-- No comment begins in a row of strings. -/
theorem withoutComment_row (row : Row text) (more : List Char) :
    withoutComment (text ++ more) = text ++ withoutComment more := by
  unfold withoutComment
  induction row with
  | nil => rfl
  | bare bare _ ih =>
    obtain ⟨comment, quote⟩ := isBare_eq_true.1 bare
    have plain : ¬(_ = '\x27' ∨ _ = '\x22') := fun yes =>
      Bool.false_ne_true (quote.symm.trans (isQuote_eq_true.2 yes))
    rw [List.cons_append, codeFrom, if_neg comment, if_neg plain, ih]
    rfl
  | @string mark tail body text quote closes _ ih =>
    have comment : mark ≠ '#' := by
      rintro rfl
      cases quote
    rw [List.cons_append, List.append_assoc, codeFrom, if_neg comment,
      if_pos (isQuote_eq_true.1 quote), codeFrom_inside quote closes, ih, List.cons_append,
      List.append_assoc]

/-! ## The last token -/

theorem getLast?_remainder {triple : Bool} (closes : Remainder mark triple tail text) :
    text.getLast? = some mark := by
  induction closes with
  | close | closeTriple => rfl
  | escape _ ih => rw [List.getLast?_cons, List.getLast?_cons, ih]; rfl
  | quote _ _ _ ih | char _ _ _ ih => rw [List.getLast?_cons, ih]; rfl

theorem getLast?_isLiteral (literal : IsLiteral mark tail text) : text.getLast? = some mark := by
  cases literal with
  | single _ closes => rw [List.getLast?_cons, getLast?_remainder closes]; rfl
  | triple closes =>
    rw [List.getLast?_cons, List.getLast?_cons, List.getLast?_cons, getLast?_remainder closes]
    rfl

/-- The token read last is a colon. -/
def ColonLast (tokens : List Token) : Prop := tokens.head?.map Token.kind = some (.op ":")

/-- No line has ended yet. -/
def WithinLine (tokens : List Token) : Prop := ∀ t ∈ tokens, t.kind ≠ .newline

theorem tokens_addString (s : LexState) (value : List Char) (start : Position) (after : Cursor) :
    ∃ text p others, (s.addString value start after).tokens = ⟨.str text, p⟩ :: others ∧
      ∀ t ∈ others, t ∈ s.tokens := by
  unfold LexState.addString
  split
  · rename_i same
    exact ⟨_, _, _, rfl, fun t mem => same ▸ List.mem_cons_of_mem _ mem⟩
  · exact ⟨_, _, _, rfl, fun t mem => mem⟩

/-- A token is no line end, its last character is no blank, and it is a colon just if that one is. -/
theorem last_of_tokenRead {scan : Option Scan} (read : TokenRead s c next word scan)
    (inside : WithinLine s.tokens) : WithinLine next.tokens ∧
      ∃ d, word.getLast? = some d ∧ isBlank d = false ∧ (ColonLast next.tokens ↔ d = ':') := by
  cases read with
  | @plain word kind nonempty plain _ colon inline tokens =>
    have unlike : ¬ColonLast next.tokens := by
      rw [tokens]
      rintro ⟨⟩
      exact colon rfl
    have solid := plain _ (List.getLast_mem nonempty)
    refine ⟨by rw [tokens]; exact List.forall_mem_cons.2 ⟨inline, inside⟩, _,
      List.getLast?_eq_some_getLast nonempty, isBlank_of_isPlain solid, ?_⟩
    exact ⟨fun same => absurd same unlike, fun same => absurd same (ne_of_isPlain solid (by decide))⟩
  | colon tokens =>
    refine ⟨by rw [tokens]; exact List.forall_mem_cons.2 ⟨TokenKind.noConfusion, inside⟩, ':', rfl, rfl,
      ?_⟩
    rw [tokens]
    exact ⟨fun _ => rfl, fun _ => rfl⟩
  | @literal marks text value mark _ quote literal added =>
    obtain ⟨text', p, others, tokens, old⟩ := tokens_addString s value c.pos next.cursor
    rw [tokens] at added
    have ends : (marks ++ text).getLast? = some mark := by
      rw [List.getLast?_append, getLast?_isLiteral literal]
      rfl
    have unlike : ¬ColonLast next.tokens := by
      rw [added]
      rintro ⟨⟩
    refine ⟨?_, mark, ends, ?_, ?_⟩
    · rw [added]
      exact List.forall_mem_cons.2 ⟨TokenKind.noConfusion, fun t mem => inside t (old t mem)⟩
    · rcases quote with rfl | rfl <;> rfl
    · refine ⟨fun same => absurd same unlike, ?_⟩
      rintro rfl
      rcases quote with same | same <;> cases same

/-! ## Along a line -/

/-- What is known of a state within a line when `before` is read of it. -/
structure Along (line : List Char) (s : LexState) (before : List Char) : Prop where
  inline : s.lineStart = false
  whole : line = before ++ s.cursor.rest
  offset : s.cursor.pos.offset = bytes before
  within : WithinLine s.tokens
  colon : ColonLast s.tokens ↔ (trimEnd before).getLast? = some ':'

theorem Along.offset_dropWhile (along : Along line s before) :
    (s.cursor.dropWhile isSpace).pos.offset = bytes (before ++ s.cursor.rest.takeWhile isSpace) := by
  rw [s.cursor.dropWhile_eq_drop_takeWhile isSpace,
    Cursor.offset_drop (s.cursor.rest_eq_append isSpace), along.offset, bytes_append]

/-- What a token is read from is a row of strings, as the literal is that it may be. -/
theorem row_of_tokenRead (along : Along line s before) (tame : Tame line s.scan?.toList)
    (whole : (s.cursor.dropWhile isSpace).rest = word ++ next.cursor.rest)
    (behind : next.cursor = (s.cursor.dropWhile isSpace).drop word.length)
    (read : TokenRead s (s.cursor.dropWhile isSpace) next word s.scan?) : Row word := by
  generalize scanned : s.scan? = scan at read
  cases read with
  | plain _ plain => exact .of_bare fun ch mem => isBare_of_isPlain (plain ch mem)
  | colon => exact .bare rfl .nil
  | @literal marks text value mark plain quote literal =>
    have quote := isQuote_eq_true.2 quote
    refine Row.append_bare ?_ fun ch mem => isBare_of_isPlain (plain ch mem)
    refine Row.of_isLiteral quote literal fun tripled => ?_
    rw [List.append_assoc] at whole
    have parts : line =
        before ++ s.cursor.rest.takeWhile isSpace ++ marks ++ text ++ next.cursor.rest := by
      rw [List.append_assoc, List.append_assoc, List.append_assoc, ← whole,
        ← s.cursor.rest_eq_append isSpace]
      exact along.whole
    have start : ((s.cursor.dropWhile isSpace).drop marks.length).pos.offset =
        bytes (before ++ s.cursor.rest.takeWhile isSpace ++ marks) := by
      rw [Cursor.offset_drop whole, along.offset_dropWhile, ← bytes_append]
    have stop : next.cursor.pos.offset =
        bytes (before ++ s.cursor.rest.takeWhile isSpace ++ marks) + bytes text := by
      have here : ((s.cursor.dropWhile isSpace).drop marks.length).rest = text ++ next.cursor.rest := by
        rw [Cursor.rest_drop, whole, List.drop_left]
      rw [← start, ← Cursor.offset_drop here, Cursor.drop_drop, behind, List.length_append]
    have cut := slice?_append (before ++ s.cursor.rest.takeWhile isSpace ++ marks) text next.cursor.rest
    rw [← parts, ← stop, ← start] at cut
    exact tame _ _ (by rw [scanned]; exact List.mem_singleton.2 rfl) text cut mark tripled

/-- A token is read from a row of strings behind spaces, and what is known is known behind it. -/
theorem Along.token (along : Along line s before) (tame : Tame line s.scan?.toList)
    (whole : (s.cursor.dropWhile isSpace).rest = word ++ next.cursor.rest)
    (behind : next.cursor = (s.cursor.dropWhile isSpace).drop word.length)
    (inline : next.lineStart = s.lineStart)
    (read : TokenRead s (s.cursor.dropWhile isSpace) next word s.scan?) :
    ∃ passed, s.cursor.rest = passed ++ next.cursor.rest ∧ Row passed ∧
      Along line next (before ++ passed) := by
  have text : s.cursor.rest = s.cursor.rest.takeWhile isSpace ++ word ++ next.cursor.rest := by
    rw [List.append_assoc, ← whole]
    exact s.cursor.rest_eq_append isSpace
  obtain ⟨within, d, ends, solid, colon⟩ := last_of_tokenRead read along.within
  have row := row_of_tokenRead along tame whole behind read
  refine ⟨s.cursor.rest.takeWhile isSpace ++ word, text,
    row.append_bare fun ch mem => isBare_of_isSpace (List.mem_takeWhile_imp mem),
    inline.trans along.inline, ?_, ?_, within, ?_⟩
  · rw [List.append_assoc, ← text]
    exact along.whole
  · rw [behind, Cursor.offset_drop whole, along.offset_dropWhile, ← bytes_append, List.append_assoc]
  · have ends' : (before ++ (s.cursor.rest.takeWhile isSpace ++ word)).getLast? = some d := by
      rw [List.getLast?_append, List.getLast?_append, ends]
      rfl
    rw [colon, trimEnd_of_getLast? ends' solid, ends', Option.some_inj]

theorem tokens_of_run_nil (done : s.cursor.rest = []) (read : run s = .ok last) :
    last.tokens = s.tokens ∧ last.lineStart = s.lineStart := by
  have nothing : (s.cursor.dropWhile isSpace).rest = [] := by
    rw [Cursor.dropWhile_nil done]
    exact done
  by_cases outside : s.brackets = []
  · rw [run_finished ((step_nothing nothing).1 outside)] at read
    cases read
    exact ⟨rfl, rfl⟩
  · obtain ⟨error, failed⟩ := (step_nothing nothing).2 outside
    rw [run_error failed] at read
    cases read

theorem trimEnd_spaces (spaces : ∀ ch ∈ text, isSpace ch = true) : trimEnd text = [] := by
  rw [trimEnd_eq_nil_iff, allBlank, List.all_eq_true]
  exact fun ch mem => isBlank_of_isSpace (spaces ch mem)

/-- Of a line without tokens the spaces are left. -/
theorem withoutComment_spaces
    (behind : text.dropWhile isSpace = [] ∨ ∃ more, text.dropWhile isSpace = '#' :: more) :
    withoutComment text = text.takeWhile isSpace := by
  have row : Row (text.takeWhile isSpace) := .of_bare fun ch mem =>
    isBare_of_isSpace (List.mem_takeWhile_imp mem)
  have nothing : withoutComment (text.dropWhile isSpace) = [] := by
    rcases behind with ended | ⟨more, comment⟩
    · rw [ended]
      rfl
    · rw [comment, withoutComment, codeFrom, if_pos rfl]
  have code := withoutComment_row row (text.dropWhile isSpace)
  rwa [List.takeWhile_append_dropWhile, nothing, List.append_nil] at code

/-- Along a line the last token is a colon just if the code that is read ends in one. -/
theorem Along.run (along : Along line s before) (tame : Tame line (scans s))
    (single : '\n' ∉ s.cursor.rest) (read : run s = .ok last) :
    last.lineStart = false ∧ WithinLine last.tokens ∧ (ColonLast last.tokens ↔
      (trimEnd (before ++ withoutComment s.cursor.rest)).getLast? = some ':') := by
  fun_induction Token.run s generalizing before
  case case1 => cases read
  case case2 s last' finished =>
    cases read
    obtain ⟨nothing, -, rfl⟩ := step_finished finished
    rw [withoutComment_spaces (.inl nothing), trimEnd_append_blank _ fun ch mem =>
      isBlank_of_isSpace (List.mem_takeWhile_imp mem)]
    exact ⟨along.inline, along.within, along.colon⟩
  case case3 s next onward ih =>
    have tames : Tame line s.scan?.toList ∧ Tame line (scans next) := by
      rw [scans_more onward] at tame
      exact ⟨fun start stop mem => tame start stop (List.mem_append_left _ mem),
        fun start stop mem => tame start stop (List.mem_append_right _ mem)⟩
    cases passage_of_step single onward with
    | comment begins _ tokens start done =>
      obtain ⟨same, line⟩ := tokens_of_run_nil done read
      rw [withoutComment_spaces (.inr ⟨_, begins⟩), trimEnd_append_blank _ fun ch mem =>
        isBlank_of_isSpace (List.mem_takeWhile_imp mem), same, tokens]
      exact ⟨line.trans (start.trans along.inline), along.within, along.colon⟩
    | line start =>
      rw [LexState.opensLine_inline along.inline] at start
      cases start
    | token _ whole behind taken known =>
      obtain ⟨passed, text, row, along'⟩ := along.token tames.1 whole behind taken.line known
      have single' : '\n' ∉ next.cursor.rest := fun mem =>
        single (by rw [text]; exact List.mem_append_right _ mem)
      rw [text, withoutComment_row row, ← List.append_assoc]
      exact ih along' tames.2 single' read

/-! ## A whole line -/

/-- Where a line has tokens, its last one stands right before the end of the line. -/
theorem endsInColon_inline (inline : last.lineStart = false) (within : WithinLine last.tokens) :
    EndsInColon (finish last false) ↔ ColonLast last.tokens := by
  have reversed : (finish last false).reverse =
      ⟨.endMarker, last.cursor.pos⟩ :: ⟨.newline, last.cursor.pos⟩ :: last.tokens := by
    simp [finish, inline]
  constructor
  · rintro ⟨t, u, inside, colon, lineEnd⟩
    rw [← List.reverse_infix, reversed] at inside
    obtain ⟨ahead, behind, same⟩ := inside
    -- The line end is behind the end marker, and no token of the line is another one.
    cases ahead with
    | nil =>
      obtain ⟨rfl, -⟩ := List.cons.inj same
      cases lineEnd
    | cons x ahead =>
      have same := (List.cons.inj same).2
      cases ahead with
      | nil =>
        rw [ColonLast, ← (List.cons.inj same).2]
        exact congrArg some colon
      | cons y ahead =>
        have rest := (List.cons.inj same).2
        exact absurd lineEnd (within u (by rw [← rest]; simp))
  · intro colon
    obtain ⟨t, newest, kind⟩ := Option.map_eq_some_iff.1 colon
    obtain ⟨others, tokens⟩ := List.head?_eq_some_iff.1 newest
    refine ⟨t, ⟨.newline, last.cursor.pos⟩, ?_, kind, rfl⟩
    rw [← List.reverse_infix, reversed, tokens]
    exact ⟨[_], others, rfl⟩

/-- A line without tokens has no code either. -/
theorem endsInColon_blank (start : last.lineStart = true) (nothing : last.tokens = [])
    (spaces : ∀ ch ∈ text, isSpace ch = true) :
    EndsInColon (finish last false) ↔ (trimEnd text).getLast? = some ':' := by
  have tokens : finish last false = [⟨.endMarker, last.cursor.pos⟩] := by
    simp [finish, start, nothing]
  rw [tokens, trimEnd_spaces spaces]
  constructor
  · rintro ⟨t, u, inside, -⟩
    exact absurd inside.length_le (Nat.not_succ_le_self 1)
  · rintro ⟨⟩

/-- Before the first token of a line there are spaces, and nothing that ends in a colon. -/
theorem along_of_layout {line : String} {column : Nat}
    (laid : layout (.ofString line) column ((Cursor.ofString line).dropWhile isSpace) = .ok next) :
    Along line.toList next (line.toList.takeWhile isSpace) := by
  obtain ⟨cursor, inline, -⟩ := layout_ok laid
  have whole : line.toList = line.toList.takeWhile isSpace ++
      ((Cursor.ofString line).dropWhile isSpace).rest :=
    (Cursor.ofString line).rest_eq_append isSpace
  have tokens : WithinLine next.tokens ∧ ¬ColonLast next.tokens := by
    unfold layout at laid
    split at laid
    · cases laid
      exact ⟨List.forall_mem_singleton.2 TokenKind.noConfusion, by rintro ⟨⟩⟩
    · dsimp only at laid
      split at laid
      · cases laid
        exact ⟨List.forall_mem_nil _, by rintro ⟨⟩⟩
      · cases laid
  refine ⟨inline, by rw [cursor]; exact whole, ?_, tokens.1, ?_⟩
  · rw [cursor, Cursor.dropWhile_eq_drop_takeWhile, Cursor.offset_drop whole]
    exact Nat.zero_add _
  · rw [trimEnd_spaces fun ch mem => List.mem_takeWhile_imp mem]
    exact ⟨fun colon => absurd colon tokens.2, by rintro ⟨⟩⟩

/-- The last token of a line is a colon just if its code ends in one. -/
theorem endsInColon_iff {line : String} (single : '\n' ∉ line.toList)
    (tame : Tame line.toList (scans (.ofString line))) (read : Token.run (.ofString line) = .ok last) :
    EndsInColon (finish last false) ↔
      (trimEnd (withoutComment line.toList)).getLast? = some ':' := by
  have spaces : ∀ ch ∈ line.toList.takeWhile isSpace, isSpace ch = true := fun ch mem =>
    List.mem_takeWhile_imp mem
  have whole : line.toList = line.toList.takeWhile isSpace ++
      ((Cursor.ofString line).dropWhile isSpace).rest :=
    (Cursor.ofString line).rest_eq_append isSpace
  cases onward : step (.ofString line) with
  | error error =>
    rw [run_error onward] at read
    cases read
  | ok answer =>
    cases answer with
    | finished last' =>
      rw [run_finished onward] at read
      cases read
      obtain ⟨nothing, -, rfl⟩ := step_finished onward
      have code : withoutComment line.toList = line.toList.takeWhile isSpace :=
        withoutComment_spaces (.inl nothing)
      exact endsInColon_blank rfl rfl (by rw [code]; exact spaces)
    | more next =>
      rw [run_more onward] at read
      cases passage_of_step single onward with
      | comment begins _ tokens start done =>
        have code : withoutComment line.toList = line.toList.takeWhile isSpace :=
          withoutComment_spaces (.inr ⟨_, begins⟩)
        obtain ⟨same, start'⟩ := tokens_of_run_nil done read
        exact endsInColon_blank (start'.trans start) (same.trans tokens) (by rw [code]; exact spaces)
      | line _ scan laid =>
        rw [scans_more onward, scan] at tame
        have cursor := (layout_ok laid).1
        have behind : next.cursor.rest = ((Cursor.ofString line).dropWhile isSpace).rest :=
          congrArg Cursor.rest cursor
        obtain ⟨inline, within, colon⟩ := (along_of_layout laid).run tame (fun mem => single (by
          rw [whole, ← behind]
          exact List.mem_append_right _ mem)) read
        have row : Row (line.toList.takeWhile isSpace) := .of_bare fun ch mem =>
          isBare_of_isSpace (spaces ch mem)
        rw [endsInColon_inline inline within, colon, ← withoutComment_row row, behind, ← whole]
      | token inline => cases inline

/-! ## The prediction -/

/-- The blanks before a line are all that either scan counts, if they are spaces and tabs. -/
theorem takeWhile_margin {p : Char → Bool} (margin : ∀ ch ∈ line.takeWhile isBlank, ch = ' ' ∨ ch = '\t')
    (blank : ∀ ch, p ch = true → isBlank ch = true) (space : p ' ' = true) (tab : p '\t' = true) :
    line.takeWhile p = line.takeWhile isBlank := by
  induction line with
  | nil => rfl
  | cons ch line ih =>
    rw [List.takeWhile_cons] at margin
    rw [List.takeWhile_cons, List.takeWhile_cons]
    by_cases first : isBlank ch = true
    · rw [if_pos first] at margin ⊢
      obtain ⟨known, others⟩ := List.forall_mem_cons.1 margin
      have counted : p ch = true := by
        rcases known with rfl | rfl
        · exact space
        · exact tab
      rw [if_pos counted, ih others]
    · rw [if_neg first, if_neg fun counted => first (blank ch counted)]

/-- Spaces and tabs count the same columns for both. -/
theorem width_eq_column (spaces : ∀ ch ∈ word, ch = ' ' ∨ ch = '\t') :
    word.foldl (fun width c => if c = '\t' then (width / 8 + 1) * 8 else width + 1) 0 =
      indentColumn word := by
  have onward (width : Nat) :
      word.foldl (fun width c => if c = '\t' then (width / 8 + 1) * 8 else width + 1) width =
        word.foldl (fun column c =>
          if c = ' ' then column + 1
          else if c = '\t' then (column / 8 + 1) * 8
          else if c = '\x0c' then 0
          else column) width := by
    induction word generalizing width with
    | nil => rfl
    | cons ch word ih =>
      obtain ⟨first, others⟩ := List.forall_mem_cons.1 spaces
      rw [List.foldl_cons, List.foldl_cons]
      rcases first with rfl | rfl
      · exact ih others _
      · exact ih others _
  exact onward 0

theorem leadingWidth_eq (margin : ∀ ch ∈ line.takeWhile isBlank, ch = ' ' ∨ ch = '\t') :
    leadingWidth line = measuredColumn line := by
  have measured : line.takeWhile isSpace = line.takeWhile isBlank :=
    takeWhile_margin margin (fun ch => isBlank_of_isSpace) rfl rfl
  have leading : line.takeWhile (fun c => c == ' ' || c == '\t') = line.takeWhile isBlank := by
    refine takeWhile_margin margin (fun ch counted => ?_) rfl rfl
    rw [Bool.or_eq_true, beq_iff_eq, beq_iff_eq] at counted
    rcases counted with rfl | rfl
    · rfl
    · rfl
  rw [leadingWidth, leading, width_eq_column margin, measuredColumn, measured]

/-- Behind a colon the prediction is one indentation deeper, and otherwise it is no deeper, and not more
than one indentation shallower. -/
theorem predict_cases (line : List Char) (tabLength : Nat) :
    ((trimEnd (withoutComment line)).getLast? = some ':' ∧
        predict line tabLength = leadingWidth line + tabLength) ∨
      ((trimEnd (withoutComment line)).getLast? ≠ some ':' ∧
        leadingWidth line - tabLength ≤ predict line tabLength ∧
        predict line tabLength ≤ leadingWidth line) := by
  unfold predict
  dsimp only
  split
  · exact .inl ⟨‹_›, rfl⟩
  · refine .inr ⟨‹_›, ?_⟩
    split
    · omega
    · split
      · omega
      · omega

theorem leadingWidth_le (line : List Char) : leadingWidth line ≤ 8 * line.length := by
  have counted (s : List Char) (width : Nat) : s.foldl
      (fun width c => if c = '\t' then (width / 8 + 1) * 8 else width + 1) width ≤
        width + 8 * s.length := by
    induction s generalizing width with
    | nil => simp
    | cons c s ih =>
      rw [List.foldl_cons, List.length_cons]
      refine (ih _).trans ?_
      split <;> omega
  have shorter := (List.takeWhile_sublist (l := line) fun c => c == ' ' || c == '\t').length_le
  have width := counted (line.takeWhile fun c => c == ' ' || c == '\t') 0
  unfold leadingWidth
  omega

/-- The predicted column is a machine number unless line and indentation together come near the last
one. -/
theorem predict_fits {line : List Char} {tabLength : Nat}
    (short : 8 * line.length + tabLength < UInt64.size) : predict line tabLength < UInt64.size := by
  have width := leadingWidth_le line
  rcases predict_cases line tabLength with ⟨-, deeper⟩ | ⟨-, -, within⟩
  · omega
  · omega

/-- The line below is predicted deeper just behind a block header. Whatever the line, the prediction is
the column of the line and one indentation, or else it is no more than that column and at most one
indentation less. Where each literal of three quotes is a row of closed strings when it is read one quote
at a time, it is the former just if the last token of the line is a colon. -/
theorem deeper_just_behind_colons {line : String} {tokens : List Token} (single : '\n' ∉ line.toList)
    (read : tokenize line .single = .ok tokens)
    (margin : ∀ ch ∈ line.toList.takeWhile isBlank, ch = ' ' ∨ ch = '\t') (positive : 1 ≤ tabLength) :
    let column := measuredColumn line.toList
    let predicted := predict line.toList tabLength
    (predicted = column + tabLength ∨ column - tabLength ≤ predicted ∧ predicted ≤ column) ∧
      (Tame line.toList (scans (.ofString line)) →
        (predicted = column + tabLength ↔ EndsInColon tokens) ∧
        (¬EndsInColon tokens → column - tabLength ≤ predicted ∧ predicted ≤ column)) := by
  intro column predicted
  have outcome := predict_cases line.toList tabLength
  rw [leadingWidth_eq margin] at outcome
  constructor
  · rcases outcome with ⟨-, deeper⟩ | ⟨-, other⟩
    · exact .inl deeper
    · exact .inr other
  · intro tame
    have ends : EndsInColon tokens ↔ (trimEnd (withoutComment line.toList)).getLast? = some ':' := by
      cases finished : Token.run (.ofString line) with
      | error error =>
        rw [tokenize, finished] at read
        cases read
      | ok last =>
        have pieces : endsWithBlankLine line = false := by
          unfold endsWithBlankLine
          rw [pieces_of_not_mem single]
          rfl
        rw [tokenize, finished, pieces] at read
        cases read
        exact endsInColon_iff single tame finished
    rcases outcome with ⟨colon, deeper⟩ | ⟨other, within⟩
    · exact ⟨⟨fun _ => ends.2 colon, fun _ => deeper⟩, fun plain => absurd (ends.2 colon) plain⟩
    · refine ⟨⟨fun deeper => ?_, fun yes => absurd (ends.1 yes) other⟩, fun _ => within⟩
      have shallow : predicted ≤ column := within.2
      omega

/-- A header behind a tab: its literal closes in a row, with both a hash sign and other quotes in it. -/
theorem header_with_a_literal_of_three_quotes :
    ∃ tokens, tokenize "\tif x in '''# \"b\"''':  # c" .single = .ok tokens ∧
      predict "\tif x in '''# \"b\"''':  # c".toList 4 = 8 + 4 ∧ EndsInColon tokens := by
  obtain ⟨tokens, read⟩ : ∃ tokens, tokenize "\tif x in '''# \"b\"''':  # c" .single = .ok tokens :=
    exists_tokens (by decide +kernel)
  have scanned : scans (.ofString "\tif x in '''# \"b\"''':  # c") = [.literal 9 20, .comment 23] := by
    decide +kernel
  have cut : slice? "\tif x in '''# \"b\"''':  # c".toList 9 20 =
      some ('\x27' :: '\x27' :: '\x27' :: ("# \"b\"".toList ++ ['\x27', '\x27', '\x27'])) := by
    decide +kernel
  have other : "# \"b\"".toList.all (fun ch => ch ≠ '\\' ∧ ch ≠ '\x27') = true := by decide +kernel
  have close : Remainder '\x27' false [] ['\x27'] := .close rfl
  have row := Row.of_triple rfl
    (close.chars fun ch mem => of_decide_eq_true (List.all_eq_true.1 other ch mem))
  have tame : Tame "\tif x in '''# \"b\"''':  # c".toList
      (scans (.ofString "\tif x in '''# \"b\"''':  # c")) := by
    rw [scanned]
    rintro start stop mem text found mark -
    rcases List.mem_cons.1 mem with literal | other
    · cases literal
      obtain rfl := Option.some.inj (cut.symm.trans found)
      exact row
    · cases List.mem_singleton.1 other
  have deeper : predict "\tif x in '''# \"b\"''':  # c".toList 4 = 8 + 4 := by decide +kernel
  have column : measuredColumn "\tif x in '''# \"b\"''':  # c".toList = 8 := by decide +kernel
  have margin : ("\tif x in '''# \"b\"''':  # c".toList.takeWhile isBlank).all
      (fun ch => ch = ' ' ∨ ch = '\t') = true := by decide +kernel
  have four : 1 ≤ 4 := by decide
  obtain ⟨-, known⟩ := deeper_just_behind_colons (by decide) read
    (fun ch mem => of_decide_eq_true (List.all_eq_true.1 margin ch mem)) four
  rw [column] at known
  exact ⟨tokens, read, deeper, (known tame).1.1 deeper⟩

/-- Without that condition the prediction may be wrong: read one quote at a time, this literal ends before
its hash sign, and behind a colon. -/
theorem literal_of_three_quotes_comes_apart :
    ¬∀ (line : String) (tokens : List Token) (tabLength : Nat), '\n' ∉ line.toList →
      tokenize line .single = .ok tokens →
      (∀ ch ∈ line.toList.takeWhile isBlank, ch = ' ' ∨ ch = '\t') → 1 ≤ tabLength →
      (predict line.toList tabLength = measuredColumn line.toList + tabLength ↔ EndsInColon tokens) := by
  intro claim
  obtain ⟨tokens, read⟩ : ∃ tokens, tokenize "'''it's: # x'''" .single = .ok tokens :=
    exists_tokens (by decide +kernel)
  have plain : (tokenize "'''it's: # x'''" .single).toOption.any
      (·.any fun t => t.kind == .op ":") = false := by decide +kernel
  have deeper : predict "'''it's: # x'''".toList 4 = measuredColumn "'''it's: # x'''".toList + 4 := by
    decide +kernel
  rw [read] at plain
  have margin : "'''it's: # x'''".toList.takeWhile isBlank = [] := by decide +kernel
  obtain ⟨t, u, inside, colon, -⟩ := (claim _ tokens 4 (by decide) read
    (by rw [margin]; exact List.forall_mem_nil _) (by decide)).1 deeper
  refine List.any_eq_false.1 plain t (inside.subset List.mem_cons_self) ?_
  rw [colon]
  rfl

end Console.Indent
