import Console.Proofs.Token.Characters

/-!
# Literals and comments that a run passes

The offsets of the string literals and of the comment that the lexer passes, one step after the other.
Over a text without line ends a step passes a comment, opens the line or reads one token, and a token is
plain, a colon or a literal.
-/

namespace Console.Token

open Text

variable {c after : Cursor} {s next last : LexState} {ch : Char} {text rest : List Char}

/-- A string literal or a comment, by byte offsets. -/
inductive Scan
  /-- From the opening quotes to behind the closing ones. The marks before them are no part of it. -/
  | literal (start stop : Nat)
  /-- From the hash sign on. -/
  | comment (start : Nat)
  deriving DecidableEq, Repr

/-- The literal that is read at a quote. -/
def quotedAt? (raw : Bool) (start : Position) (c : Cursor) : Option Scan :=
  match readString raw start c with
  | .error _ => none
  | .ok (_, after) => some (.literal c.pos.offset after.pos.offset)

/-- The literal that the token at `c` is, if it is one; it begins with `ch`. -/
def literalAt? (c : Cursor) (ch : Char) : Option Scan :=
  if ch = '\x27' ∨ ch = '\x22' then quotedAt? false c.pos c
  else if isNameStart ch then
    let word := c.rest.takeWhile isNamePart
    let marks := word.map Char.toLower
    let behind := c.drop word.length
    if atQuote behind && stringMarks.contains (String.ofList marks) then
      quotedAt? (marks.contains 'r') c.pos behind
    else none
  else none

/-- The literal or comment that the step from here passes, if it passes one. -/
def LexState.scan? (s : LexState) : Option Scan :=
  let c := s.cursor.dropWhile isSpace
  match c.rest with
  | [] => none
  | ch :: _ =>
    if ch = '#' then some (.comment c.pos.offset)
    else if s.opensLine then none
    else literalAt? c ch

/-- The literals and comments that a run passes, in order. -/
def scans (s : LexState) : List Scan :=
  match _ : step s with
  | .error _ => []
  | .ok (.finished _) => []
  | .ok (.more next) => s.scan?.toList ++ scans next
termination_by s.size
decreasing_by exact size_step_lt ‹_›

theorem scans_finished (finished : step s = .ok (.finished last)) : scans s = [] := by
  rw [scans]
  split <;> simp_all

theorem scans_more (onward : step s = .ok (.more next)) : scans s = s.scan?.toList ++ scans next := by
  rw [scans]
  split <;> simp_all

theorem scan?_comment (begins : (s.cursor.dropWhile isSpace).rest = '#' :: text) :
    s.scan? = some (.comment (s.cursor.dropWhile isSpace).pos.offset) := by
  unfold LexState.scan?
  dsimp only
  rw [begins]
  exact if_pos rfl

theorem scan?_opensLine (start : s.opensLine = true)
    (begins : (s.cursor.dropWhile isSpace).rest = ch :: text) (comment : ch ≠ '#') :
    s.scan? = none := by
  unfold LexState.scan?
  dsimp only
  rw [begins]
  dsimp only
  rw [if_neg comment, if_pos start]

theorem scan?_inline (inline : s.opensLine = false)
    (begins : (s.cursor.dropWhile isSpace).rest = ch :: text) (comment : ch ≠ '#') :
    s.scan? = literalAt? (s.cursor.dropWhile isSpace) ch := by
  unfold LexState.scan?
  dsimp only
  rw [begins]
  dsimp only
  rw [if_neg comment, inline, if_neg Bool.false_ne_true]

/-- How a step reads the characters of a token at `c`, and the literal that the token is. -/
inductive TokenRead (s : LexState) (c : Cursor) (next : LexState) : List Char → Option Scan → Prop
  | plain {word : List Char} {kind : TokenKind} (nonempty : word ≠ [])
    (plain : ∀ ch ∈ word, isPlain ch = true) (string : ∀ value, kind ≠ .str value)
    (colon : kind ≠ .op ":") (inline : kind ≠ .newline)
    (tokens : next.tokens = ⟨kind, c.pos⟩ :: s.tokens) : TokenRead s c next word none
  | colon (tokens : next.tokens = ⟨.op ":", c.pos⟩ :: s.tokens) : TokenRead s c next [':'] none
  | literal {marks text value : List Char} {mark : Char} (plain : ∀ ch ∈ marks, isPlain ch = true)
    (quote : mark = '\x27' ∨ mark = '\x22') (literal : IsLiteral mark next.cursor.rest text)
    (added : next.tokens = (s.addString value c.pos next.cursor).tokens) :
    TokenRead s c next (marks ++ text)
      (some (.literal (c.drop marks.length).pos.offset next.cursor.pos.offset))

theorem literalAt?_none (quote : ¬(ch = '\x27' ∨ ch = '\x22')) (other : isNameStart ch = false) :
    literalAt? c ch = none := by
  unfold literalAt?
  rw [if_neg quote, other, if_neg Bool.false_ne_true]

/-- A literal behind its marks. -/
theorem tokenRead_quoted {raw : Bool} {marks rest value : List Char} {mark : Char}
    (whole : c.rest = marks ++ mark :: rest) (plain : ∀ ch ∈ marks, isPlain ch = true)
    (quote : mark = '\x27' ∨ mark = '\x22')
    (read : readString raw c.pos (c.drop marks.length) = .ok (value, after)) :
    ∃ word, c.rest = word ++ after.rest ∧
      TokenRead s c (s.addString value c.pos after) word (quotedAt? raw c.pos (c.drop marks.length)) := by
  have begins : (c.drop marks.length).rest = mark :: rest := by
    rw [Cursor.rest_drop, whole, List.drop_left]
  obtain ⟨text, behind, literal⟩ := isLiteral_of_readString begins quote read
  have same := cursor_addString s value c.pos after
  refine ⟨marks ++ text, ?_, ?_⟩
  · rw [whole, List.append_assoc, ← behind, begins]
  · have scanned : quotedAt? raw c.pos (c.drop marks.length) = some (.literal
        (c.drop marks.length).pos.offset (s.addString value c.pos after).cursor.pos.offset) := by
      unfold quotedAt?
      rw [read, same]
    have added : (s.addString value c.pos after).tokens =
        (s.addString value c.pos (s.addString value c.pos after).cursor).tokens := by rw [same]
    rw [scanned]
    refine .literal plain quote ?_ added
    rw [same]
    exact literal

theorem tokenRead_numeral {kind : TokenKind} (read : readNumeral c = .ok (kind, after))
    (starts : startsNumeral c.rest = true) :
    ∃ word, c.rest = word ++ after.rest ∧ TokenRead s c (s.add kind c.pos after) word none := by
  obtain ⟨word, whole, part⟩ := readNumeral_passes read
  have nonempty : word ≠ [] := by
    rintro rfl
    have shorter := length_readNumeral_lt read starts
    rw [whole] at shorter
    exact absurd shorter (Nat.lt_irrefl _)
  have plain : ∀ ch ∈ word, isPlain ch = true := fun ch mem => isPlain_of_isNumeralPart (part ch mem)
  rcases readNumeral_cases c with ⟨_, _, numeral, -, number⟩ | ⟨_, _, -, -, failed⟩
  · rw [read] at numeral
    cases numeral
    rcases number with ⟨n, rfl⟩ | ⟨x, rfl⟩
    · exact ⟨word, whole, .plain nonempty plain (fun _ => TokenKind.noConfusion)
        TokenKind.noConfusion TokenKind.noConfusion rfl⟩
    · exact ⟨word, whole, .plain nonempty plain (fun _ => TokenKind.noConfusion)
        TokenKind.noConfusion TokenKind.noConfusion rfl⟩
  · rw [read] at failed
    cases failed

theorem tokenRead_operator (read : stepOperator s c = .ok next) :
    ∃ word, c.rest = word ++ next.cursor.rest ∧ TokenRead s c next word none := by
  have signs : ∀ op ∈ operators, op = ":" ∨ op.toList.all isPlain = true := by decide +kernel
  unfold stepOperator at read
  split at read
  · cases read
  · rename_i op found
    dsimp only at read
    obtain ⟨tokens, cursor⟩ : next.tokens = ⟨.op op, c.pos⟩ :: s.tokens ∧
        next.cursor = c.drop op.toList.length := by
      split at read
      · split at read
        · cases read
        · cases read
          exact ⟨rfl, rfl⟩
      · split at read
        · split at read
          · cases read
            exact ⟨rfl, rfl⟩
          · cases read
        · cases read
      · cases read
        exact ⟨rfl, rfl⟩
    have fits : op.toList <+: c.rest := List.isPrefixOf_iff_prefix.1
      (List.find?_some (p := fun op : String => op.toList.isPrefixOf c.rest) found)
    refine ⟨op.toList, ?_, ?_⟩
    · rw [cursor, Cursor.rest_drop]
      exact (List.prefix_iff_eq_append.1 fits).symm
    · by_cases colon : op = ":"
      · subst colon
        exact .colon tokens
      · have plain := (signs op (List.mem_of_find?_eq_some found)).resolve_left colon
        refine .plain (List.ne_nil_of_length_pos (operator_ne_nil found).1) (List.all_eq_true.1 plain)
          (fun _ => TokenKind.noConfusion) ?_ TokenKind.noConfusion tokens
        rintro ⟨⟩
        exact colon rfl

theorem tokenRead_name (begins : c.rest = ch :: rest) (quote : ¬(ch = '\x27' ∨ ch = '\x22'))
    (starts : isNameStart ch = true) (read : stepName s c = .ok next) :
    ∃ word, c.rest = word ++ next.cursor.rest ∧ TokenRead s c next word (literalAt? c ch) := by
  have plain : ∀ d ∈ c.rest.takeWhile isNamePart, isPlain d = true := fun d mem =>
    isPlain_of_isNamePart (List.mem_takeWhile_imp mem)
  have behind := List.prefix_iff_eq_append.1 (List.takeWhile_prefix (l := c.rest) isNamePart)
  unfold literalAt?
  rw [if_neg quote, if_pos starts]
  dsimp only
  change (if (atQuote _ && _) = true then _ else _) = _ at read
  by_cases marked : (atQuote (c.drop (c.rest.takeWhile isNamePart).length) && stringMarks.contains
      (String.ofList ((c.rest.takeWhile isNamePart).map Char.toLower))) = true
  · rw [if_pos marked] at read ⊢
    obtain ⟨mark, tail, begins', quote'⟩ := quote_of_atQuote (Bool.and_eq_true_iff.1 marked).1
    split at read
    · cases read
    · rename_i taken
      cases read
      rw [Cursor.rest_drop] at begins'
      rw [begins'] at behind
      have found := tokenRead_quoted (s := s) behind.symm plain quote' taken
      rwa [cursor_addString]
  · rw [if_neg marked] at read ⊢
    cases read
    refine ⟨c.rest.takeWhile isNamePart, behind.symm,
      .plain ?_ plain (fun _ => TokenKind.noConfusion) TokenKind.noConfusion
        TokenKind.noConfusion rfl⟩
    rw [begins, List.takeWhile_cons, isNamePart_of_isNameStart starts, if_pos rfl]
    exact List.cons_ne_nil _ _

/-- A token is plain, a colon or a literal. -/
theorem tokenRead_of_stepToken (begins : c.rest = ch :: rest) (read : stepToken s c ch = .ok next) :
    ∃ word, c.rest = word ++ next.cursor.rest ∧ TokenRead s c next word (literalAt? c ch) := by
  unfold stepToken at read
  by_cases quote : ch = '\x27' ∨ ch = '\x22'
  · rw [if_pos quote] at read
    split at read
    · cases read
    · rename_i taken
      cases read
      have whole : c.rest = [] ++ ch :: rest := begins
      have found := tokenRead_quoted (s := s) whole (List.forall_mem_nil _) quote taken
      unfold literalAt?
      rw [if_pos quote, cursor_addString]
      exact found
  · rw [if_neg quote] at read
    by_cases numeral : startsNumeral c.rest = true
    · have other : isNameStart ch = false := by
        rw [Bool.eq_false_iff]
        intro starts
        obtain ⟨-, -, point⟩ := opens_of starts (by decide)
        rw [begins, startsNumeral_eq point, isDigit_of_isNameStart starts] at numeral
        cases numeral
      rw [if_pos numeral] at read
      split at read
      · cases read
      · rename_i taken
        cases read
        rw [literalAt?_none quote other]
        exact tokenRead_numeral taken numeral
    · rw [if_neg numeral] at read
      by_cases starts : isNameStart ch = true
      · rw [if_pos starts] at read
        exact tokenRead_name begins quote starts read
      · rw [if_neg starts] at read
        rw [literalAt?_none quote (Bool.eq_false_iff.2 starts)]
        exact tokenRead_operator read

/-- What a step does over a text without line ends, where `c` stands behind the spaces. -/
inductive Passage (s : LexState) (c : Cursor) (next : LexState) : Prop
  | comment {text : List Char} (begins : c.rest = '#' :: text)
    (scan : s.scan? = some (.comment c.pos.offset)) (tokens : next.tokens = s.tokens)
    (start : next.lineStart = s.lineStart) (done : next.cursor.rest = [])
  | line (start : s.opensLine = true) (scan : s.scan? = none)
    (laid : layout s (indentColumn (s.cursor.rest.takeWhile isSpace)) c = .ok next)
  | token {word : List Char} (inline : s.opensLine = false) (whole : c.rest = word ++ next.cursor.rest)
    (behind : next.cursor = c.drop word.length) (taken : Taken s c next)
    (read : TokenRead s c next word s.scan?)

theorem passage_of_step (single : '\n' ∉ s.cursor.rest) (onward : step s = .ok (.more next)) :
    Passage s (s.cursor.dropWhile isSpace) next := by
  have single' : '\n' ∉ (s.cursor.dropWhile isSpace).rest := fun mem =>
    single ((Cursor.suffix_dropWhile _ _).subset mem)
  have passed : (s.cursor.dropWhile isSpace).rest.dropWhile (· ≠ '\n') = [] := by
    refine List.dropWhile_eq_nil_iff.2 fun ch mem => decide_eq_true ?_
    rintro rfl
    exact single' mem
  cases step_more_iff.1 onward with
  | emptyLine _ begins | lineEnd _ begins =>
    rw [begins] at single'
    exact absurd List.mem_cons_self single'
  | joint _ begins =>
    rw [begins] at single'
    exact absurd (List.mem_cons_of_mem _ List.mem_cons_self) single'
  | commentLine _ begins =>
    refine .comment begins (scan?_comment begins) rfl rfl ?_
    dsimp only
    rw [Cursor.rest_drop, Cursor.rest_dropWhile (· ≠ '\n'), passed]
    rfl
  | comment _ begins => exact .comment begins (scan?_comment begins) rfl rfl passed
  | line start begins _ comment laid => exact .line start (scan?_opensLine start begins comment) laid
  | @token ch text next inline begins opens read =>
    obtain ⟨word, whole, known⟩ := tokenRead_of_stepToken begins read
    have comment : ch ≠ '#' := by
      rintro rfl
      cases opens
    rw [← scan?_inline inline begins comment] at known
    exact .token inline whole ((taken_token read).reaches.eq_drop whole) (taken_token read) known

/-- A step that passes a literal adds it to the tokens, and any other step adds no string to them and
changes none. -/
def AddsScanned (s next : LexState) : Prop :=
  (∃ start value first, s.scan? = some (.literal start next.cursor.pos.offset) ∧
      next.tokens = (s.addString value first next.cursor).tokens) ∨
    ((∀ start stop, s.scan? ≠ some (.literal start stop)) ∧
      ∃ added, next.tokens = added ++ s.tokens ∧ ∀ t ∈ added, ∀ value, t.kind ≠ .str value)

/-- The literals that are scanned are the strings of the token stream. -/
theorem strings_are_scanned (onward : step s = .ok (.more next)) : AddsScanned s next := by
  unfold AddsScanned
  have comment : ∀ p start stop, some (Scan.comment p) ≠ some (.literal start stop) := by
    rintro p start stop ⟨⟩
  have nothing : ∀ start stop, none ≠ some (Scan.literal start stop) := by
    rintro start stop ⟨⟩
  have unchanged : ∀ t ∈ ([] : List Token), ∀ value, t.kind ≠ .str value := List.forall_mem_nil _
  have layoutTokens {kind : TokenKind} {p : Position} (other : ∀ value, kind ≠ .str value) :
      ∀ t ∈ [Token.mk kind p], ∀ value, t.kind ≠ .str value := List.forall_mem_singleton.2 other
  cases step_more_iff.1 onward with
  | emptyLine start begins =>
    rw [scan?_opensLine start begins (by decide)]
    exact .inr ⟨nothing, [], rfl, unchanged⟩
  | commentLine _ begins | comment _ begins =>
    rw [scan?_comment begins]
    exact .inr ⟨comment _, [], rfl, unchanged⟩
  | line start begins _ other laid =>
    rw [scan?_opensLine start begins other]
    refine .inr ⟨nothing, ?_⟩
    unfold layout at laid
    split at laid
    · cases laid
      exact ⟨[_], rfl, layoutTokens fun _ => TokenKind.noConfusion⟩
    · dsimp only at laid
      split at laid
      · cases laid
        refine ⟨_, rfl, fun t mem value => ?_⟩
        obtain ⟨column, -, rfl⟩ := List.mem_map.1 mem
        exact TokenKind.noConfusion
      · cases laid
  | lineEnd inline begins =>
    rw [scan?_inline inline begins (by decide), literalAt?_none (by decide) (by decide)]
    refine .inr ⟨nothing, ?_⟩
    unfold stepNewline
    split
    · exact ⟨[_], rfl, layoutTokens fun _ => TokenKind.noConfusion⟩
    · exact ⟨[], rfl, unchanged⟩
  | joint inline begins =>
    rw [scan?_inline inline begins (by decide), literalAt?_none (by decide) (by decide)]
    exact .inr ⟨nothing, [], rfl, unchanged⟩
  | @token ch text next inline begins opens read =>
    have hash : ch ≠ '#' := by
      rintro rfl
      cases opens
    obtain ⟨word, -, known⟩ := tokenRead_of_stepToken begins read
    rw [scan?_inline inline begins hash]
    generalize literalAt? (s.cursor.dropWhile isSpace) ch = scan at known
    cases known with
    | plain _ _ string _ _ tokens => exact .inr ⟨nothing, [_], tokens, layoutTokens string⟩
    | colon tokens => exact .inr ⟨nothing, [_], tokens, layoutTokens fun _ => TokenKind.noConfusion⟩
    | literal _ _ _ added => exact .inl ⟨_, _, _, rfl, added⟩

theorem exists_tokens {source : String} {mode : Mode} (taken : (tokenize source mode).toBool = true) :
    ∃ tokens, tokenize source mode = .ok tokens := by
  cases read : tokenize source mode with
  | error error =>
    rw [read] at taken
    cases taken
  | ok tokens => exact ⟨tokens, rfl⟩

end Console.Token
