import Console.Proofs.Token.Gaps

/-!
# What tokens are made of

The characters that one token takes: plain ones, a colon, or the marks and quotes of a string literal
with all that stands between them. A literal is told by the quotes that close it, and by those that do
not.
-/

namespace Console

open Text

namespace Cursor

variable {c after : Cursor} {word tail : List Char}

theorem rest_eq_append (c : Cursor) (p : Char → Bool) :
    c.rest = c.rest.takeWhile p ++ (c.dropWhile p).rest := List.takeWhile_append_dropWhile.symm

/-- A cursor that is reached stands behind what is missing in its text. -/
theorem Reaches.eq_drop (reaches : c.Reaches after) (whole : c.rest = word ++ after.rest) :
    after = c.drop word.length := by
  obtain ⟨passed, rest, pos⟩ := reaches
  obtain rfl : passed = word := List.append_cancel_right (rest.symm.trans whole)
  obtain ⟨rest', pos'⟩ := after
  dsimp only at whole pos
  unfold drop
  rw [whole, List.drop_left, List.take_left, pos]

theorem dropWhile_eq_drop_takeWhile (c : Cursor) (p : Char → Bool) :
    c.dropWhile p = c.drop (c.rest.takeWhile p).length :=
  (c.reaches_dropWhile p).eq_drop (c.rest_eq_append p)

end Cursor

namespace Token

variable {c after : Cursor} {s next : LexState} {ch mark : Char} {triple : Bool}
  {word text tail rest value : List Char} {kind : TokenKind}

/-- Where words stop, and what opens a literal or a block. -/
def signals : List Char := '\x27' :: '\x22' :: ':' :: stops

/-- Neither a blank nor a quote, a hash sign, a backslash or a colon. -/
def isPlain (ch : Char) : Bool := !signals.contains ch

theorem isPlain_of {p : Char → Bool} (fails : signals.any p = false) (holds : p ch = true) :
    isPlain ch = true := by
  have other : ch ∉ signals := fun mem => List.any_eq_false.1 fails ch mem holds
  rw [isPlain, Bool.not_eq_true', List.contains_eq_mem]
  exact decide_eq_false other

theorem ne_of_isPlain {other : Char} (plain : isPlain ch = true) (signal : other ∈ signals) :
    ch ≠ other := by
  rintro rfl
  rw [isPlain, Bool.not_eq_true', List.contains_eq_mem] at plain
  exact of_decide_eq_false plain signal

theorem isBlank_of_isPlain (plain : isPlain ch = true) : isBlank ch = false := by
  rw [Bool.eq_false_iff]
  intro blank
  have stop : isStop ch = true := by rw [isStop, blank, Bool.true_or, Bool.true_or]
  exact ne_of_isPlain plain (List.mem_append_right ['\x27', '\x22', ':'] (mem_stops stop)) rfl

theorem isPlain_of_isNamePart (part : isNamePart ch = true) : isPlain ch = true := by
  refine isPlain_of ?_ part
  rw [signals, List.any_cons, List.any_cons, List.any_cons, any_stops_isNamePart]
  rfl

/-- The characters of numerals. -/
def isNumeralPart (ch : Char) : Bool := ch.isAlphanum || ['_', '.', '+', '-'].contains ch

theorem isPlain_of_isNumeralPart (part : isNumeralPart ch = true) : isPlain ch = true :=
  isPlain_of (by decide) part

theorem isNumeralPart_of_isDigitOrGap {radix : Nat} (part : isDigitOrGap radix ch = true) :
    isNumeralPart ch = true := by
  rcases Bool.or_eq_true_iff.1 part with digit | gap
  · obtain ⟨d, value⟩ := Option.isSome_iff_exists.1 digit
    rw [isNumeralPart, Decimal.isAlphanum_of_digitValue? value, Bool.true_or]
  · rw [beq_iff_eq.1 gap]
    rfl

/-- A fraction begins the text and is made of the characters of numerals. -/
theorem fractionLexeme_spec (s : List Char) :
    fractionLexeme s <+: s ∧ ∀ ch ∈ fractionLexeme s, isNumeralPart ch = true := by
  unfold fractionLexeme
  split
  · rename_i s
    refine ⟨(List.cons_prefix_cons).2 ⟨rfl, List.takeWhile_prefix _⟩, ?_⟩
    refine List.forall_mem_cons.2 ⟨rfl, fun ch mem => ?_⟩
    exact isNumeralPart_of_isDigitOrGap (List.mem_takeWhile_imp mem)
  · exact ⟨List.nil_prefix, List.forall_mem_nil _⟩

/-- So does an exponent. -/
theorem exponentLexeme_spec (s : List Char) :
    exponentLexeme s <+: s ∧ ∀ ch ∈ exponentLexeme s, isNumeralPart ch = true := by
  have nothing : ([] : List Char) <+: s ∧ ∀ ch ∈ ([] : List Char), isNumeralPart ch = true :=
    ⟨List.nil_prefix, List.forall_mem_nil _⟩
  unfold exponentLexeme
  split
  · rename_i e s'
    split
    · rename_i letter
      dsimp only
      split
      · exact nothing
      · generalize signs : (s'.takeWhile fun c => c == '+' || c == '-').take 1 = sign
        have inside : sign <+: s' := signs ▸ (List.take_prefix 1 _).trans (List.takeWhile_prefix _)
        obtain ⟨behind, rfl⟩ := inside
        rw [List.drop_left]
        constructor
        · rw [List.cons_append, List.cons_prefix_cons, List.prefix_append_right_inj]
          exact ⟨rfl, List.takeWhile_prefix _⟩
        · intro ch mem
          rcases List.mem_append.1 mem with mem | digit
          · rcases List.mem_cons.1 mem with rfl | mem
            · rcases letter with rfl | rfl <;> rfl
            · rw [← signs] at mem
              have signed := List.mem_takeWhile_imp (List.mem_of_mem_take mem)
              simp only [Bool.or_eq_true, beq_iff_eq] at signed
              rcases signed with rfl | rfl <;> rfl
          · have digit := List.mem_takeWhile_imp digit
            have alphanum : ch.isAlphanum = true := Bool.or_eq_true_iff.2 (.inr digit)
            rw [isNumeralPart, alphanum, Bool.true_or]
    · exact nothing
  · exact nothing

theorem announcedRadix_letters {radix : Nat} (announced : announcedRadix? text = some radix) :
    ∃ letter rest, text = '0' :: letter :: rest ∧ isNumeralPart letter = true := by
  unfold announcedRadix? at announced
  split at announced
  · rename_i letter rest
    refine ⟨letter, rest, rfl, ?_⟩
    split at announced
    · rename_i letter
      rcases letter with rfl | rfl <;> rfl
    · split at announced
      · rename_i letter
        rcases letter with rfl | rfl <;> rfl
      · split at announced
        · rename_i letter
          rcases letter with rfl | rfl <;> rfl
        · cases announced
  · cases announced

theorem after_of_checked {α : Type} {n : Nat} {r : Except SyntaxError (α × Cursor)} {x : α}
    (read : (checkNumeralEnd (c.drop n) >>= fun _ => r) = .ok (x, after)) : r = .ok (x, after) := by
  cases checked : checkNumeralEnd (c.drop n) with
  | error error =>
    rw [checked] at read
    cases read
  | ok _ =>
    rw [checked] at read
    exact read

theorem readRadix_passes {radix : Nat} (begins : c.rest = '0' :: ch :: rest)
    (letter : isNumeralPart ch = true) (read : readRadix radix c = .ok (kind, after)) :
    ∃ word, c.rest = word ++ after.rest ∧ ∀ d ∈ word, isNumeralPart d = true := by
  unfold readRadix at read
  dsimp only at read
  split at read
  · cases read
  · cases after_of_checked read
    have digits : (c.rest.drop 2).takeWhile (isDigitOrGap radix) =
        rest.takeWhile (isDigitOrGap radix) := by
      rw [begins]
      rfl
    refine ⟨'0' :: ch :: rest.takeWhile (isDigitOrGap radix), ?_, ?_⟩
    · rw [digits, ← Cursor.drop_drop, Cursor.rest_drop, Cursor.rest_drop, begins]
      exact congrArg (fun text => '0' :: ch :: text)
        (List.prefix_iff_eq_append.1 (List.takeWhile_prefix _)).symm
    · refine List.forall_mem_cons.2 ⟨rfl, List.forall_mem_cons.2 ⟨letter, fun d mem => ?_⟩⟩
      exact isNumeralPart_of_isDigitOrGap (List.mem_takeWhile_imp mem)

theorem readDecimal_passes (read : readDecimal c = .ok (kind, after)) :
    ∃ word, c.rest = word ++ after.rest ∧ ∀ d ∈ word, isNumeralPart d = true := by
  unfold readDecimal at read
  have read := after_of_checked read
  have behindWhole := List.prefix_iff_eq_append.1 (List.takeWhile_prefix (l := c.rest) (isDigitOrGap 10))
  have wholePart : ∀ d ∈ c.rest.takeWhile (isDigitOrGap 10), isNumeralPart d = true :=
    fun d mem => isNumeralPart_of_isDigitOrGap (List.mem_takeWhile_imp mem)
  generalize c.rest.takeWhile (isDigitOrGap 10) = whole at read behindWhole wholePart
  obtain ⟨fits, fractionPart⟩ := fractionLexeme_spec (c.rest.drop whole.length)
  have behindFraction := List.prefix_iff_eq_append.1 fits
  generalize fractionLexeme (c.rest.drop whole.length) = fraction at read behindFraction fractionPart
  rw [List.drop_drop] at behindFraction
  obtain ⟨fits, exponentPart⟩ := exponentLexeme_spec (c.rest.drop (whole.length + fraction.length))
  have behindExponent := List.prefix_iff_eq_append.1 fits
  generalize exponentLexeme (c.rest.drop (whole.length + fraction.length)) = exponent
    at read behindExponent exponentPart
  have part : ∀ d ∈ whole ++ fraction ++ exponent, isNumeralPart d = true :=
    List.forall_mem_append.2 ⟨List.forall_mem_append.2 ⟨wholePart, fractionPart⟩, exponentPart⟩
  have text : c.rest = whole ++ fraction ++ exponent ++
      (c.drop (whole ++ fraction ++ exponent).length).rest := by
    rw [Cursor.rest_drop, List.length_append, List.length_append, ← List.drop_drop, List.append_assoc,
      behindExponent, List.append_assoc, behindFraction, behindWhole]
  split at read
  · split at read
    · cases read
      exact ⟨_, text, part⟩
    · cases read
  · split at read
    · cases read
      exact ⟨_, text, part⟩
    · cases read

/-- A numeral takes nothing but the characters of numerals. -/
theorem readNumeral_passes (read : readNumeral c = .ok (kind, after)) :
    ∃ word, c.rest = word ++ after.rest ∧ ∀ d ∈ word, isNumeralPart d = true := by
  unfold readNumeral at read
  split at read
  · rename_i radix announced
    obtain ⟨letter, rest, begins, part⟩ := announcedRadix_letters announced
    exact readRadix_passes begins part read
  · exact readDecimal_passes read

/-- The rest of a literal behind its opening quotes up to the quotes that close it, these included, where
`tail` stands behind it. -/
inductive Remainder (mark : Char) (triple : Bool) (tail : List Char) : List Char → Prop
  /-- One quote closes what one quote opened. -/
  | close (single : triple = false) : Remainder mark triple tail [mark]
  | closeTriple (tripled : triple = true) : Remainder mark triple tail [mark, mark, mark]
  /-- A backslash takes the next character with it. -/
  | escape {ch : Char} {text : List Char} :
    Remainder mark triple tail text → Remainder mark triple tail ('\\' :: ch :: text)
  /-- One quote alone, or two, do not close what three quotes opened. -/
  | quote {text : List Char} (tripled : triple = true) (goesOn : ¬[mark, mark] <+: text ++ tail) :
    Remainder mark triple tail text → Remainder mark triple tail (mark :: text)
  | char {ch : Char} {text : List Char} (backslash : ch ≠ '\\') (other : ch ≠ mark) :
    Remainder mark triple tail text → Remainder mark triple tail (ch :: text)

/-- A literal from its opening quotes to the closing ones, where `tail` stands behind it. -/
inductive IsLiteral (mark : Char) (tail : List Char) : List Char → Prop
  | single {text : List Char} (once : ¬[mark, mark] <+: text ++ tail)
    (closes : Remainder mark false tail text) : IsLiteral mark tail (mark :: text)
  | triple {text : List Char} (closes : Remainder mark true tail text) :
    IsLiteral mark tail (mark :: mark :: mark :: text)

theorem Remainder.chars (remainder : Remainder mark triple tail text)
    (other : ∀ ch ∈ word, ch ≠ '\\' ∧ ch ≠ mark) : Remainder mark triple tail (word ++ text) := by
  induction word with
  | nil => exact remainder
  | cons ch word ih =>
    obtain ⟨⟨backslash, quote⟩, others⟩ := List.forall_mem_cons.1 other
    exact .char backslash quote (ih others)

theorem readHex_passes {width : Nat} (read : readHex width c = .ok (value, after)) :
    ∃ digits, c.rest = digits ++ after.rest ∧
      ∀ ch ∈ digits, (Decimal.digitValue? 16 ch).isSome = true := by
  unfold readHex at read
  dsimp only at read
  split at read
  · cases read
  · split at read
    · split at read
      · cases read
        refine ⟨(c.rest.take width).takeWhile fun d => (Decimal.digitValue? 16 d).isSome, ?_,
          fun ch mem => List.mem_takeWhile_imp (p := fun d => (Decimal.digitValue? 16 d).isSome) mem⟩
        rw [Cursor.rest_drop]
        exact (List.prefix_iff_eq_append.1
          ((List.takeWhile_prefix _).trans (List.take_prefix width _))).symm
      · cases read
    · cases read

/-- Behind its letter an escape takes nothing but letters and digits. -/
theorem readEscape_passes (read : readEscape ch c = .ok (value, after)) :
    ∃ digits, c.rest = digits ++ after.rest ∧ ∀ d ∈ digits, isPlain d = true := by
  have hex {width : Nat} (read : readHex width c = .ok (value, after)) :
      ∃ digits, c.rest = digits ++ after.rest ∧ ∀ d ∈ digits, isPlain d = true := by
    obtain ⟨digits, whole, known⟩ := readHex_passes read
    refine ⟨digits, whole, fun d mem => isPlain_of_isNumeralPart ?_⟩
    have part : isDigitOrGap 16 d = true := Bool.or_eq_true_iff.2 (.inl (known d mem))
    exact isNumeralPart_of_isDigitOrGap part
  have nothing : ∃ digits, c.rest = digits ++ c.rest ∧ ∀ d ∈ digits, isPlain d = true :=
    ⟨[], rfl, List.forall_mem_nil _⟩
  unfold readEscape at read
  split at read
  · cases read
    exact nothing
  · split at read
    · exact hex read
    · split at read
      · exact hex read
      · split at read
        · cases read
          exact nothing
        · cases read
          exact nothing

theorem mem_signals_of_quote (quote : mark = '\x27' ∨ mark = '\x22') : mark ∈ signals := by
  rcases quote with rfl | rfl <;> decide

theorem remainder_of_readBody {o : Opening} {seen : List Char}
    (quote : o.mark = '\x27' ∨ o.mark = '\x22') (read : readBody o seen c = .ok (value, after)) :
    ∃ text, c.rest = text ++ after.rest ∧ Remainder o.mark o.triple after.rest text := by
  fun_induction readBody o seen c
  case case4 seen c more next more' behind raw cons inline ih =>
    obtain ⟨text, whole, remainder⟩ := ih read
    obtain rfl : more = next :: more' := by
      rw [Cursor.rest_drop, cons] at behind
      exact behind
    rw [Cursor.rest_drop, cons] at whole
    refine ⟨'\\' :: next :: text, ?_, .escape remainder⟩
    rw [cons]
    exact congrArg (fun text => '\\' :: next :: text) whole
  case case6 seen c more next more' behind plain text' behind' escape cons inline ih =>
    obtain ⟨text, whole, remainder⟩ := ih read
    obtain ⟨digits, letters, known⟩ := readEscape_passes escape
    obtain rfl : more = next :: more' := by
      rw [Cursor.rest_drop, cons] at behind
      exact behind
    have other : ∀ d ∈ digits, d ≠ '\\' ∧ d ≠ o.mark := fun d mem =>
      ⟨ne_of_isPlain (known d mem) (by decide),
        ne_of_isPlain (known d mem) (mem_signals_of_quote quote)⟩
    rw [Cursor.rest_drop, cons, whole, ← List.append_assoc] at letters
    refine ⟨'\\' :: next :: (digits ++ text), ?_, .escape (remainder.chars other)⟩
    rw [cons]
    exact congrArg (fun text => '\\' :: next :: text) letters
  case case7 seen c more single cons inline other =>
    cases read
    refine ⟨[o.mark], ?_, .close (by simpa using single)⟩
    rw [Cursor.rest_drop, cons]
    rfl
  case case8 seen c more tripled closes cons inline other =>
    cases read
    rw [Cursor.rest_drop, cons] at closes
    obtain ⟨tail, rfl⟩ := List.isPrefixOf_iff_prefix.1 closes
    refine ⟨[o.mark, o.mark, o.mark], ?_, .closeTriple (by simpa using tripled)⟩
    rw [Cursor.rest_drop, cons]
    rfl
  case case9 seen c more tripled goesOn cons inline other ih =>
    obtain ⟨text, whole, remainder⟩ := ih read
    rw [Cursor.rest_drop, cons] at whole goesOn
    obtain rfl : more = text ++ after.rest := whole
    refine ⟨o.mark :: text, cons, .quote (by simpa using tripled) ?_ remainder⟩
    exact fun closes => goesOn (List.isPrefixOf_iff_prefix.2 closes)
  case case10 seen c ch more cons inline other inside ih =>
    obtain ⟨text, whole, remainder⟩ := ih read
    rw [Cursor.rest_drop, cons] at whole
    obtain rfl : more = text ++ after.rest := whole
    exact ⟨ch :: text, cons, .char other inside remainder⟩
  all_goals cases read

/-- What is read at a quote is a literal. -/
theorem isLiteral_of_readString {raw : Bool} {start : Position} (begins : c.rest = mark :: rest)
    (quote : mark = '\x27' ∨ mark = '\x22') (read : readString raw start c = .ok (value, after)) :
    ∃ text, c.rest = text ++ after.rest ∧ IsLiteral mark after.rest text := by
  unfold readString at read
  rw [begins] at read
  dsimp only at read
  by_cases triple : [mark, mark].isPrefixOf rest = true
  · rw [triple, if_pos rfl] at read
    obtain ⟨text, whole, remainder⟩ := remainder_of_readBody quote read
    obtain ⟨rest', rfl⟩ := List.isPrefixOf_iff_prefix.1 triple
    rw [Cursor.rest_drop, begins] at whole
    obtain rfl : rest' = text ++ after.rest := whole
    exact ⟨mark :: mark :: mark :: text, begins, .triple remainder⟩
  · rw [Bool.eq_false_iff.2 triple, if_neg Bool.false_ne_true] at read
    obtain ⟨text, whole, remainder⟩ := remainder_of_readBody quote read
    rw [Cursor.rest_drop, begins] at whole
    obtain rfl : rest = text ++ after.rest := whole
    exact ⟨mark :: text, begins,
      .single (fun closes => triple (List.isPrefixOf_iff_prefix.2 closes)) remainder⟩

end Token

end Console
