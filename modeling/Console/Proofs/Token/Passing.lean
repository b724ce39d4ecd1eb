import Console.Proofs.Decimal
import Console.Proofs.Token.Lexer
import Console.Proofs.Token.Quoted

/-!
# One token at a time

What the lexer does within a line at a word, a numeral, a quoted text or an operator that ends where
a sign closes it. `Passes` says that it goes on from a later state as from the earlier one, with
tokens of some kinds added and the rest of the text before it.
-/

namespace Console

namespace Bracket

/-- The sign that opens a bracket. -/
def opening : Bracket → String
  | .round => "("
  | .square => "["
  | .curly => "\x7b"

/-- The sign that closes a bracket. -/
def closing : Bracket → String
  | .round => ")"
  | .square => "]"
  | .curly => "\x7d"

end Bracket

namespace Token

open Text

variable {s s' s'' : LexState} {ch : Char} {tail rest : List Char} {kinds kinds' : List TokenKind}
  {brackets brackets' : List (Bracket × Position)}

/-- The signs that stand behind an item, a key or a whole container. -/
def closers : List Char := [',', ':', ')', ']', '\x7d']

/-- No word goes on here: the text is at its end or at a closing sign. -/
def Closed (rest : List Char) : Prop := ∀ c ∈ rest.head?, c ∈ closers

/-- What holds of no closing sign does not hold where the text goes on. -/
theorem Closed.not {p : Char → Bool} (closed : Closed (ch :: rest)) (fails : closers.any p = false) :
    p ch = false :=
  Bool.eq_false_iff.2 (List.any_eq_false.1 fails ch (closed ch rfl))

/-- A run of characters ends where it is closed. -/
theorem Closed.takeWhile {p : Char → Bool} {word : List Char} (closed : Closed rest)
    (fails : closers.any p = false) (all : ∀ c ∈ word, p c = true) :
    (word ++ rest).takeWhile p = word := by
  rw [List.takeWhile_append_of_pos all]
  cases rest with
  | nil => simp
  | cons c rest => simp [closed.not fails]

structure Passes (kinds : List TokenKind) (rest : List Char) (brackets : List (Bracket × Position))
    (s s' : LexState) : Prop where
  run : run s = run s'
  rest : s'.cursor.rest = rest
  inline : s'.lineStart = false
  indents : s'.indents = s.indents
  brackets : s'.brackets = brackets
  tokens : s'.tokens.map Token.kind = kinds.reverse ++ s.tokens.map Token.kind

theorem Passes.trans (first : Passes kinds tail brackets s s')
    (second : Passes kinds' rest brackets' s' s'') :
    Passes (kinds ++ kinds') rest brackets' s s'' where
  run := first.run.trans second.run
  rest := second.rest
  inline := second.inline
  indents := second.indents.trans first.indents
  brackets := second.brackets
  tokens := by rw [second.tokens, first.tokens, List.reverse_append, List.append_assoc]

/-- Neither a blank nor the end of a line, a comment or a joint. -/
def opensToken (ch : Char) : Bool := !isSpace ch && ch != '\n' && ch != '#' && ch != '\\'

theorem run_of_step_eq (same : step s = step s') : Token.run s = Token.run s' := by
  cases answer : step s' with
  | error error => rw [run_error answer, run_error (same.trans answer)]
  | ok next =>
    cases next with
    | finished last => rw [run_finished answer, run_finished (same.trans answer)]
    | more later => rw [run_more answer, run_more (same.trans answer)]

theorem dropWhile_here {c : Cursor} {p : Char → Bool} (begins : c.rest = ch :: tail)
    (stops : p ch = false) : c.dropWhile p = c := by
  obtain ⟨rest, pos⟩ := c
  subst begins
  simp [Cursor.dropWhile, stops, Position.past]

/-- Where the last step ended says nothing of the next one but where it begins. -/
theorem stepWithin_eq {c : Cursor} (same : c.dropWhile isSpace = s.cursor.dropWhile isSpace) :
    stepWithin { s with cursor := c } = stepWithin s := by
  unfold stepWithin
  dsimp only
  rw [same]
  rfl

section

variable (inline : s.lineStart = false)
include inline

theorem step_inline : step s = stepWithin s := by
  rw [step, inline, Bool.false_and, if_neg Bool.false_ne_true]

theorem step_token (begins : s.cursor.rest = ch :: tail) (opens : opensToken ch = true) :
    step s = (stepToken s s.cursor ch).map .more := by
  simp only [opensToken, Bool.and_eq_true, Bool.not_eq_true', bne_iff_ne, ne_eq] at opens
  obtain ⟨⟨⟨space, lineFeed⟩, hash⟩, backslash⟩ := opens
  have here := dropWhile_here begins space
  rw [step_inline inline]
  unfold stepWithin
  dsimp only
  rw [here, begins]
  dsimp only
  rw [if_neg lineFeed, if_neg hash, if_neg backslash]

theorem run_token (begins : s.cursor.rest = ch :: tail) (opens : opensToken ch = true)
    (token : stepToken s s.cursor ch = .ok s') : Token.run s = Token.run s' := by
  refine run_more ?_
  rw [step_token inline begins opens, token]
  rfl

/-- A space is passed without a token. -/
theorem passes_space (begins : s.cursor.rest = ' ' :: rest) :
    ∃ s', Passes [] rest s.brackets s s' := by
  obtain ⟨⟨_, pos⟩, indents, brackets, lineStart, tokens⟩ := s
  dsimp only at begins inline
  subst begins inline
  refine ⟨⟨⟨rest, pos.next ' '⟩, indents, brackets, false, tokens⟩, ?_, rfl, rfl, rfl, rfl, rfl⟩
  refine run_of_step_eq ?_
  rw [step_inline rfl, step_inline rfl]
  exact (stepWithin_eq rfl).symm

/-- Outside of brackets a text may end. -/
theorem run_end (done : s.cursor.rest = []) (outside : s.brackets = []) :
    Token.run s = .ok s := by
  obtain ⟨⟨_, pos⟩, indents, _, _, tokens⟩ := s
  dsimp only at done outside inline
  subst done outside inline
  exact run_finished rfl

theorem passes_add {kind : TokenKind} {after : Cursor} (begins : s.cursor.rest = ch :: tail)
    (opens : opensToken ch = true) (behind : after.rest = rest)
    (token : stepToken s s.cursor ch = .ok (s.add kind s.cursor.pos after)) :
    ∃ s', Passes [kind] rest s.brackets s s' :=
  ⟨_, run_token inline begins opens token, behind, inline, rfl, rfl, rfl⟩

end

/-- A character that is none of the special ones opens a word or a numeral. -/
theorem opens_of {p : Char → Bool} (holds : p ch = true)
    (fails : [' ', '\t', '\x0c', '\r', '\n', '#', '\\', '\x27', '\x22', '.'].any p = false) :
    opensToken ch = true ∧ (ch ≠ '\x27' ∧ ch ≠ '\x22') ∧ ch ≠ '.' := by
  have other : ∀ c ∈ [' ', '\t', '\x0c', '\r', '\n', '#', '\\', '\x27', '\x22', '.'], ch ≠ c := by
    rintro c mem rfl
    exact List.any_eq_false.1 fails ch mem holds
  simp only [List.forall_mem_cons] at other
  simp [opensToken, isSpace, other]

theorem isDigit_of_isNameStart (starts : isNameStart ch = true) : ch.isDigit = false := by
  rw [Bool.eq_false_iff]
  intro digit
  simp only [Char.isDigit, Bool.and_eq_true, decide_eq_true_eq] at digit
  have upper : ch.toNat ≤ 57 := digit.2
  have alpha : ch.isAlpha = false := by
    rw [Bool.eq_false_iff]
    intro alpha
    rcases Bool.or_eq_true_iff.1 alpha with cased | cased
    · have letter : 65 ≤ ch.toNat := (of_decide_eq_true cased).1
      omega
    · have letter : 97 ≤ ch.toNat := of_decide_eq_true (Bool.and_eq_true_iff.1 cased).1
      omega
  have underscore : (ch == '_') = false := by
    rw [beq_eq_false_iff_ne]
    rintro rfl
    exact absurd upper (by decide)
  rw [isNameStart, isLetter, if_pos (by omega), alpha, underscore] at starts
  cases starts

theorem startsNumeral_eq (point : ch ≠ '.') (tail : List Char) :
    startsNumeral (ch :: tail) = ch.isDigit := by
  unfold startsNumeral
  split <;> simp_all

/-- A word up to where it is closed is a name. -/
theorem passes_word (inline : s.lineStart = false) {word : List Char}
    (starts : isNameStart ch = true) (parts : ∀ c ∈ word, isNamePart c = true)
    (begins : s.cursor.rest = ch :: word ++ rest) (closed : Closed rest) :
    ∃ s', Passes [.name (String.ofList (ch :: word))] rest s.brackets s s' := by
  obtain ⟨opens, quotes, point⟩ := opens_of starts (by decide)
  have digit := isDigit_of_isNameStart starts
  have taken : s.cursor.rest.takeWhile isNamePart = ch :: word := by
    rw [begins]
    exact closed.takeWhile (by decide)
      (List.forall_mem_cons.2 ⟨isNamePart_of_isNameStart starts, parts⟩)
  have behind : (s.cursor.drop (ch :: word).length).rest = rest := by
    rw [Cursor.rest_drop, begins, List.drop_left]
  have unquoted : atQuote (s.cursor.drop (ch :: word).length) = false := by
    rw [atQuote, Cursor.peek?, behind]
    cases rest with
    | nil => rfl
    | cons c rest =>
      exact closed.not (p := fun c => some c == some '\x27' || some c == some '\x22') (by decide)
  refine passes_add inline begins opens behind ?_
  unfold stepToken
  rw [begins, List.cons_append, if_neg (not_or.2 quotes), startsNumeral_eq point, digit,
    if_neg Bool.false_ne_true, if_pos starts]
  unfold stepName
  dsimp only
  rw [taken]
  unfold atQuote at unquoted
  rw [unquoted, Bool.false_and, if_neg Bool.false_ne_true]

/-- No letter that announces a radix stands behind the first digit. -/
theorem announcedRadix_none {digits : List Char} (nonempty : digits ≠ [])
    (all : ∀ c ∈ digits, c.isDigit = true) (closed : Closed rest) :
    announcedRadix? (digits ++ rest) = none := by
  have unannounced {a c : Char} {more : List Char} (other : c ∉ ['x', 'X', 'o', 'O', 'b', 'B']) :
      announcedRadix? (a :: c :: more) = none := by
    unfold announcedRadix?
    split <;> simp_all
  match digits, rest, nonempty with
  | [d], [], _ =>
    unfold announcedRadix?
    split <;> simp_all
  | [d], c :: rest, _ =>
    have other := closed.not (p := (· ∈ ['x', 'X', 'o', 'O', 'b', 'B'])) (by decide)
    exact unannounced (of_decide_eq_false other)
  | d :: c :: digits, rest, _ =>
    refine unannounced fun letter => ?_
    have letters : ['x', 'X', 'o', 'O', 'b', 'B'].any Char.isDigit = false := by decide
    exact List.any_eq_false.1 letters c letter (all c (by simp))

theorem fractionLexeme_closed (closed : Closed rest) : fractionLexeme rest = [] := by
  unfold fractionLexeme
  split
  · exact absurd (closed _ rfl) (by decide)
  · rfl

theorem exponentLexeme_closed (closed : Closed rest) : exponentLexeme rest = [] := by
  cases rest with
  | nil => rfl
  | cons c rest =>
    unfold exponentLexeme
    dsimp only
    rw [if_neg (of_decide_eq_false (closed.not (p := fun c => c = 'e' ∨ c = 'E') (by decide)))]

theorem checkNumeralEnd_closed {c : Cursor} (behind : c.rest = rest) (closed : Closed rest) :
    checkNumeralEnd c = .ok () := by
  unfold checkNumeralEnd
  rw [Cursor.peek?, behind]
  cases rest with
  | nil => rfl
  | cons c rest =>
    dsimp only [List.head?_cons]
    rw [closed.not (p := isNamePart) (by decide), if_neg Bool.false_ne_true]

/-- The digits of a number are read as the number. -/
theorem readNumeral_digits {c : Cursor} {n : Nat} {k : Int64} (fits : Decimal.toInt64? n = some k)
    (begins : c.rest = Nat.toDigits 10 n ++ rest) (closed : Closed rest) :
    readNumeral c = .ok (.int k, c.drop (Nat.toDigits 10 n).length) := by
  have digits := Decimal.isDigit_toDigits n
  have whole : c.rest.takeWhile (isDigitOrGap 10) = Nat.toDigits 10 n := by
    rw [begins]
    exact closed.takeWhile (by decide) fun c mem => isDigitOrGap_of_isDigit (digits c mem)
  have behind : c.rest.drop (Nat.toDigits 10 n).length = rest := by rw [begins, List.drop_left]
  have gaps : withoutGaps (Nat.toDigits 10 n) = Nat.toDigits 10 n := by
    refine List.filter_eq_self.2 fun c mem => decide_eq_true ?_
    rintro rfl
    exact absurd (digits _ mem) (by decide)
  unfold readNumeral
  rw [begins, announcedRadix_none (List.ne_nil_of_length_pos Nat.length_toDigits_pos) digits closed]
  dsimp only
  unfold readDecimal
  simp only [whole, behind, fractionLexeme_closed closed, List.length_nil, Nat.add_zero,
    exponentLexeme_closed closed, List.append_nil, List.isEmpty_nil, Bool.and_self, if_true, gaps,
    Decimal.readInt64?_toDigits, fits]
  rw [checkNumeralEnd_closed (by rw [Cursor.rest_drop, behind]) closed]
  rfl

/-- The digits of a number up to where they are closed are the number. -/
theorem passes_numeral (inline : s.lineStart = false) {n : Nat} {k : Int64}
    (fits : Decimal.toInt64? n = some k) (begins : s.cursor.rest = Nat.toDigits 10 n ++ rest)
    (closed : Closed rest) : ∃ s', Passes [.int k] rest s.brackets s s' := by
  have read := readNumeral_digits fits begins closed
  have behind : (s.cursor.drop (Nat.toDigits 10 n).length).rest = rest := by
    rw [Cursor.rest_drop, begins, List.drop_left]
  obtain ⟨d, digits, same, digit⟩ := Decimal.toDigits_eq_cons n
  obtain ⟨opens, quotes, point⟩ := opens_of digit (by decide)
  have first : s.cursor.rest = d :: (digits ++ rest) := by rw [begins, same, List.cons_append]
  refine passes_add inline first opens behind ?_
  unfold stepToken
  rw [if_neg (not_or.2 quotes), first, startsNumeral_eq point, if_pos digit, read]

/-- A quoted text is a literal of its own where no literal stands before it. -/
theorem passes_quoted (inline : s.lineStart = false) {text : List Char}
    (begins : s.cursor.rest = quote text ++ rest) (closed : Closed rest)
    (apart : ∀ before, (s.tokens.map Token.kind).head? ≠ some (.str before)) :
    ∃ s', Passes [.str (String.ofList text)] rest s.brackets s s' := by
  have mark := quoteMark_cases text
  have unlike : rest.head? ≠ some (quoteMark text) := by
    intro same
    have := closed _ same
    rcases mark with mark | mark <;> rw [mark] at this <;> exact absurd this (by decide)
  obtain ⟨after, behind, read⟩ := readString_quote begins unlike s.cursor.pos
  have first : s.cursor.rest = quoteMark text ::
      (text.flatMap (escapeChar (quoteMark text)) ++ [quoteMark text] ++ rest) := by
    rw [begins]
    rfl
  have opens : opensToken (quoteMark text) = true := by
    rcases mark with mark | mark <;> rw [mark] <;> decide
  have alone : s.addString text s.cursor.pos after =
      s.add (.str (String.ofList text)) s.cursor.pos after := by
    unfold LexState.addString
    split
    · rename_i before _ _ tokens
      exact absurd (by rw [tokens]; rfl) (apart before)
    · rfl
  refine passes_add inline first opens behind ?_
  unfold stepToken
  rw [if_pos mark, read]
  dsimp only
  rw [alone]

/-- A sign that is no bracket. -/
theorem passes_sign (inline : s.lineStart = false) {symbol : String}
    (sign : symbol = "," ∨ symbol = ":") (begins : s.cursor.rest = symbol.toList ++ rest) :
    ∃ s', Passes [.op symbol] rest s.brackets s s' := by
  obtain ⟨⟨_, pos⟩, indents, brackets, lineStart, tokens⟩ := s
  dsimp only at begins inline
  subst begins inline
  rcases sign with rfl | rfl
  · exact passes_add rfl rfl rfl (Cursor.rest_drop _ _) rfl
  · exact passes_add rfl rfl rfl (Cursor.rest_drop _ _) rfl

/-- A sign with a space behind it. -/
theorem passes_separator (inline : s.lineStart = false) {symbol : String}
    (sign : symbol = "," ∨ symbol = ":") (begins : s.cursor.rest = symbol.toList ++ ' ' :: rest) :
    ∃ s', Passes [.op symbol] rest s.brackets s s' := by
  obtain ⟨s₁, passes₁⟩ := passes_sign inline sign begins
  obtain ⟨s₂, passes₂⟩ := passes_space passes₁.inline passes₁.rest
  have both := passes₁.trans passes₂
  rw [passes₁.brackets] at both
  exact ⟨s₂, both⟩

/-- A minus sign before a digit. -/
theorem passes_minus (inline : s.lineStart = false) {d : Char} (digit : d.isDigit = true)
    (begins : s.cursor.rest = '-' :: d :: tail) :
    ∃ s', Passes [.op "-"] (d :: tail) s.brackets s s' := by
  have other {c : Char} (stops : c.isDigit = false) : (c == d) = false := by
    rw [beq_eq_false_iff_ne]
    rintro rfl
    rw [stops] at digit
    cases digit
  have found : operatorAt? ('-' :: d :: tail) = some "-" := by
    simp [operatorAt?, operators, List.find?, List.isPrefixOf, other (c := '=') (by decide),
      other (c := '>') (by decide)]
  have behind : (s.cursor.drop 1).rest = d :: tail := by
    rw [Cursor.rest_drop, begins]
    rfl
  refine passes_add inline begins rfl behind ?_
  unfold stepToken
  rw [begins]
  show stepOperator s s.cursor = _
  unfold stepOperator
  rw [begins, found]
  rfl

/-- A bracket is opened where there is room for one more. -/
theorem passes_opening (inline : s.lineStart = false) (b : Bracket)
    (begins : s.cursor.rest = b.opening.toList ++ rest)
    (room : s.brackets.length < Bracket.maxDepth) :
    ∃ p s', Passes [.op b.opening] rest ((b, p) :: s.brackets) s s' := by
  obtain ⟨⟨_, pos⟩, indents, brackets, lineStart, tokens⟩ := s
  dsimp only at begins inline room
  subst begins inline
  obtain ⟨ch, sign⟩ : ∃ ch, b.opening.toList = [ch] := by cases b <;> exact ⟨_, rfl⟩
  rw [sign]
  have opens : opensToken ch = true := by cases b <;> (cases sign; rfl)
  have token : stepToken ⟨⟨[ch] ++ rest, pos⟩, indents, brackets, false, tokens⟩
      ⟨[ch] ++ rest, pos⟩ ch = if Bracket.maxDepth ≤ brackets.length then
        .error (.of .tooManyBrackets pos)
      else .ok ⟨⟨rest, pos.next ch⟩, indents, (b, pos) :: brackets, false,
        ⟨.op b.opening, pos⟩ :: tokens⟩ := by
    cases b <;> (cases sign; rfl)
  rw [if_neg (Nat.not_le.2 room)] at token
  exact ⟨pos, _, run_token rfl rfl opens token, rfl, rfl, rfl, rfl, rfl⟩

/-- The innermost bracket is closed. -/
theorem passes_closing (inline : s.lineStart = false) {b : Bracket} {p : Position}
    (begins : s.cursor.rest = b.closing.toList ++ rest) (opened : s.brackets = (b, p) :: brackets) :
    ∃ s', Passes [.op b.closing] rest brackets s s' := by
  obtain ⟨⟨_, pos⟩, indents, _, lineStart, tokens⟩ := s
  dsimp only at begins inline opened
  subst begins inline opened
  obtain ⟨ch, sign⟩ : ∃ ch, b.closing.toList = [ch] := by cases b <;> exact ⟨_, rfl⟩
  rw [sign]
  have opens : opensToken ch = true := by cases b <;> (cases sign; rfl)
  have token : stepToken ⟨⟨[ch] ++ rest, pos⟩, indents, (b, p) :: brackets, false, tokens⟩
      ⟨[ch] ++ rest, pos⟩ ch =
      .ok ⟨⟨rest, pos.next ch⟩, indents, brackets, false, ⟨.op b.closing, pos⟩ :: tokens⟩ := by
    cases b <;> (cases sign; rfl)
  exact ⟨_, run_token rfl rfl opens token, rfl, rfl, rfl, rfl, rfl⟩

end Token

end Console
