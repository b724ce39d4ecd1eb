import Console.Proofs.Highlight
import Console.Proofs.Token.Scans

/-!
# The highlighter and the lexer see the same literals

Both cut a text into words by rules of their own, but both let only quotes and hash signs open a literal
or a comment. So each of them finds what a third scan finds that knows of nothing else, if the lexer takes
the text at all.
-/

namespace Console.Highlight

open Text Token

variable {c : Cursor} {s last : LexState} {ch mark : Char} {triple : Bool}
  {word text tail rest : List Char}

def isQuote (ch : Char) : Bool := ch == '\x27' || ch == '\x22'

/-- What opens neither a literal nor a comment. -/
def isBare (ch : Char) : Bool := ch != '#' && !isQuote ch

/-- The literal from the first quote of a string to its end, or the comment that a span is. -/
def Span.scan? (s : Span) : Option Scan :=
  match s.kind with
  | .string => some (.literal (s.offset + bytes (s.text.takeWhile (!isQuote ·))) s.stop)
  | .comment => some (.comment s.offset)
  | .keyword | .name | .number | .operator => none

/-- The literals and the comment of the text at a cursor, told by quotes and hash signs alone. -/
def outline (c : Cursor) : List Scan :=
  match _ : c.rest with
  | [] => []
  | ch :: rest =>
    if ch = '#' then [.comment c.pos.offset]
    else if isQuote ch then
      let behind := c.drop (literalLength ch rest + 1)
      .literal c.pos.offset behind.pos.offset :: outline behind
    else outline (c.drop 1)
termination_by c.rest.length
decreasing_by
  · show (c.drop (literalLength ch rest + 1)).rest.length < c.rest.length
    simp only [Cursor.rest_drop, List.length_drop, ‹c.rest = _›, List.length_cons]
    omega
  · simp [‹c.rest = _›]

theorem isQuote_eq_true : isQuote ch = true ↔ ch = '\x27' ∨ ch = '\x22' := by
  rw [isQuote, Bool.or_eq_true, beq_iff_eq, beq_iff_eq]

theorem isBare_eq_true : isBare ch = true ↔ ch ≠ '#' ∧ isQuote ch = false := by
  rw [isBare, Bool.and_eq_true, bne_iff_ne, Bool.not_eq_true']

theorem isBare_of_isPlain (plain : isPlain ch = true) : isBare ch = true := by
  rw [isBare_eq_true, Bool.eq_false_iff]
  refine ⟨ne_of_isPlain plain (by decide), fun quote => ?_⟩
  rcases isQuote_eq_true.1 quote with rfl | rfl <;> exact ne_of_isPlain plain (by decide) rfl

theorem isBare_of_isBlank (blank : isBlank ch = true) : isBare ch = true := by
  rw [isBare_eq_true, Bool.eq_false_iff]
  constructor
  · rintro rfl
    cases blank
  · intro quote
    rcases isQuote_eq_true.1 quote with rfl | rfl <;> cases blank

theorem isBare_of_isSpace (space : isSpace ch = true) : isBare ch = true :=
  isBare_of_isBlank (isBlank_of_isSpace space)

theorem outline_nil (done : c.rest = []) : outline c = [] := by
  rw [outline]
  split <;> simp_all

theorem outline_comment (begins : c.rest = '#' :: rest) : outline c = [.comment c.pos.offset] := by
  rw [outline]
  split <;> simp_all

theorem outline_quote (begins : c.rest = ch :: rest) (quote : isQuote ch = true) :
    outline c = .literal c.pos.offset (c.drop (literalLength ch rest + 1)).pos.offset ::
      outline (c.drop (literalLength ch rest + 1)) := by
  have other : ch ≠ '#' := by
    rintro rfl
    cases quote
  rw [outline]
  split <;> simp_all

theorem outline_bare (begins : c.rest = ch :: rest) (bare : isBare ch = true) :
    outline c = outline (c.drop 1) := by
  obtain ⟨other, quote⟩ := isBare_eq_true.1 bare
  rw [outline]
  split <;> simp_all

theorem outline_passes (whole : c.rest = word ++ tail) (bare : ∀ ch ∈ word, isBare ch = true) :
    outline c = outline (c.drop word.length) := by
  induction word generalizing c with
  | nil => rfl
  | cons ch word ih =>
    obtain ⟨first, others⟩ := List.forall_mem_cons.1 bare
    have behind : (c.drop 1).rest = word ++ tail := by
      rw [Cursor.rest_drop, whole]
      rfl
    rw [outline_bare whole first, ih behind others, Cursor.drop_drop, List.length_cons, Nat.add_comm]

/-- A span without quotes and hash signs is passed. -/
theorem outline_word {kind : SpanKind} (whole : c.rest = word ++ tail)
    (bare : ∀ ch ∈ word, isBare ch = true) (unscanned : Span.scan? ⟨kind, word, c.pos.offset⟩ = none) :
    outline c = (Span.scan? ⟨kind, word, c.pos.offset⟩).toList ++ outline (c.drop word.length) := by
  rw [unscanned, outline_passes whole bare]
  rfl

/-- A string with its marks is the literal at its quote. -/
theorem outline_string {n : Nat} (whole : c.rest = word ++ mark :: rest)
    (bare : ∀ ch ∈ word, isBare ch = true) (quote : isQuote mark = true)
    (length : n = word.length + (literalLength mark rest + 1)) :
    outline c = (Span.scan? ⟨.string, c.rest.take n, c.pos.offset⟩).toList ++ outline (c.drop n) := by
  subst length
  have taken : c.rest.take (word.length + (literalLength mark rest + 1)) =
      word ++ mark :: rest.take (literalLength mark rest) := by
    rw [whole, List.take_length_add_append, List.take_succ_cons]
  have marks : (word ++ mark :: rest.take (literalLength mark rest)).takeWhile (!isQuote ·) = word := by
    rw [takeWhile_stopped (by rintro _ ⟨⟩; simp [quote]), List.takeWhile_eq_self_iff]
    intro ch mem
    rw [(isBare_eq_true.1 (bare ch mem)).2]
    rfl
  have begins : (c.drop word.length).rest = mark :: rest := by
    rw [Cursor.rest_drop, whole, List.drop_left]
  have stop : (c.drop (word.length + (literalLength mark rest + 1))).pos.offset =
      c.pos.offset + bytes (word ++ mark :: rest.take (literalLength mark rest)) := by
    change (c.pos.past (c.rest.take _)).offset = _
    rw [Position.offset_past, taken]
    rfl
  rw [outline_passes whole bare, outline_quote begins quote, Cursor.drop_drop, Cursor.offset_drop whole,
    taken, stop]
  unfold Span.scan?
  dsimp only
  rw [marks]
  rfl

/-- So is one that goes on as long as its characters are of some kind. -/
theorem outline_run (kind : SpanKind) {p : Char → Bool} (begins : c.rest = ch :: rest)
    (first : isBare ch = true) (part : ∀ d, p d = true → isBare d = true)
    (unscanned : Span.scan? ⟨kind, ch :: rest.takeWhile p, c.pos.offset⟩ = none) :
    outline c = (Span.scan? ⟨kind, ch :: rest.take (rest.takeWhile p).length, c.pos.offset⟩).toList ++
      outline (c.drop ((rest.takeWhile p).length + 1)) := by
  have whole : c.rest = ch :: rest.takeWhile p ++ rest.dropWhile p := by
    rw [begins, List.cons_append, List.takeWhile_append_dropWhile]
  have same : rest.take (rest.takeWhile p).length = rest.takeWhile p :=
    (List.prefix_iff_eq_take.1 (List.takeWhile_prefix p)).symm
  rw [same]
  exact outline_word whole
    (List.forall_mem_cons.2 ⟨first, fun d mem => part d (List.mem_takeWhile_imp mem)⟩) unscanned

/-- A span is a literal or a comment just where the third scan finds one. -/
theorem outline_span (begins : c.rest = ch :: rest) :
    outline c =
      (Span.scan? ⟨(spanAt ch rest).1, ch :: rest.take (spanAt ch rest).2, c.pos.offset⟩).toList ++
        outline (c.drop ((spanAt ch rest).2 + 1)) := by
  have taken (n : Nat) : ch :: rest.take n = c.rest.take (n + 1) := by
    rw [begins, List.take_succ_cons]
  unfold spanAt
  by_cases comment : ch = '#'
  · subst comment
    rw [if_pos rfl, outline_comment begins, outline_nil]
    · rfl
    · rw [Cursor.rest_drop, begins]
      exact List.drop_of_length_le (Nat.le_refl _)
  rw [if_neg comment]
  by_cases quote : ch = '\x27' ∨ ch = '\x22'
  · have whole : c.rest = [] ++ ch :: rest := begins
    rw [if_pos quote, taken]
    exact outline_string whole (List.forall_mem_nil _) (isQuote_eq_true.2 quote) (Nat.zero_add _).symm
  rw [if_neg quote]
  have bare : isBare ch = true :=
    isBare_eq_true.2 ⟨comment, Bool.eq_false_iff.2 fun yes => quote (isQuote_eq_true.1 yes)⟩
  by_cases digit : ch.isDigit = true
  · rw [if_pos digit]
    exact outline_run .number begins bare
      (fun d part => isBare_of_isPlain (isPlain_of (by decide) part)) rfl
  rw [if_neg digit]
  by_cases starts : isNameStart ch = true
  · rw [if_pos starts]
    dsimp only
    have nameParts (d : Char) (part : isNamePart d = true) : isBare d = true :=
      isBare_of_isPlain (isPlain_of_isNamePart part)
    have plain := outline_run (if isKeyword (String.ofList (ch :: rest.takeWhile isNamePart)) then
      .keyword else .name) begins bare nameParts (by split <;> rfl)
    split
    · rename_i mark after behind
      split
      · rename_i marked
        have whole : c.rest = (ch :: rest.takeWhile isNamePart) ++ mark :: after := by
          rw [begins, List.cons_append, ← behind]
          exact congrArg (ch :: ·) (List.prefix_iff_eq_append.1 (List.takeWhile_prefix _)).symm
        have marks : ∀ d ∈ ch :: rest.takeWhile isNamePart, isBare d = true :=
          List.forall_mem_cons.2 ⟨bare, fun d mem => nameParts d (List.mem_takeWhile_imp mem)⟩
        rw [taken]
        refine outline_string whole marks (isQuote_eq_true.2 marked.1) ?_
        rw [List.length_cons]
        omega
      · exact plain
    · exact plain
  · have whole : c.rest = [ch] ++ rest := begins
    rw [if_neg starts]
    exact outline_word whole (List.forall_mem_singleton.2 bare) rfl

theorem filterMap_spansFrom (c : Cursor) : (spansFrom c).filterMap Span.scan? = outline c := by
  fun_induction spansFrom c
  case case1 c done => exact (outline_nil done).symm
  case case2 c ch rest begins blank ih =>
    rw [ih, outline_bare begins (isBare_of_isBlank blank)]
  case case3 c ch rest begins visible found ih =>
    rw [outline_span begins, ← ih, List.filterMap_cons]
    show _ = (Span.scan? ⟨found.1, ch :: rest.take found.2, c.pos.offset⟩).toList ++ _
    cases Span.scan? ⟨found.1, ch :: rest.take found.2, c.pos.offset⟩ <;> rfl

theorem bodyLength_char (backslash : ch ≠ '\\') (other : ch ≠ mark) (s : List Char) :
    bodyLength mark triple (ch :: s) = bodyLength mark triple s + 1 := by
  cases s with
  | nil => rfl
  | cons d s =>
    rw [bodyLength, if_neg backslash, if_neg (fun same => other same.1),
      if_neg (fun same => other same.1), Nat.add_comm]

/-- A string ends where the quotes close it. -/
theorem bodyLength_remainder (quote : mark ≠ '\\') (remainder : Remainder mark triple tail text) :
    bodyLength mark triple (text ++ tail) = text.length := by
  induction remainder with
  | close single =>
    cases tail with
    | nil => rfl
    | cons d tail =>
      subst single
      rw [List.cons_append, List.nil_append, bodyLength, if_neg quote, if_pos ⟨rfl, rfl⟩]
      rfl
  | closeTriple tripled =>
    subst tripled
    rw [List.cons_append, List.cons_append, List.cons_append, bodyLength, if_neg quote,
      if_neg (by simp), if_pos ⟨rfl, List.isPrefixOf_iff_prefix.2 (List.prefix_append [mark, mark] _)⟩]
    rfl
  | @escape ch text _ ih =>
    rw [List.cons_append, List.cons_append, bodyLength, if_pos rfl, ih, List.length_cons,
      List.length_cons]
    omega
  | @quote text tripled goesOn _ ih =>
    subst tripled
    cases behind : text ++ tail with
    | nil =>
      obtain ⟨rfl, rfl⟩ := List.append_eq_nil_iff.1 behind
      rfl
    | cons d more =>
      rw [behind] at ih goesOn
      rw [List.cons_append, behind, bodyLength, if_neg quote, if_neg (by simp),
        if_neg (fun same => goesOn (List.isPrefixOf_iff_prefix.1 same.2)), ih, List.length_cons,
        Nat.add_comm]
  | @char ch text backslash other _ ih =>
    rw [List.cons_append, bodyLength_char backslash other, ih, List.length_cons]

theorem literalLength_of_isLiteral (quote : mark ≠ '\\') (literal : IsLiteral mark tail text) :
    ∃ rest, text ++ tail = mark :: rest ∧ text.length = literalLength mark rest + 1 := by
  cases literal with
  | @single text once closes =>
    refine ⟨text ++ tail, rfl, ?_⟩
    rw [literalLength, if_neg (fun yes => once (List.isPrefixOf_iff_prefix.1 yes)),
      bodyLength_remainder quote closes, List.length_cons]
  | @triple text closes =>
    refine ⟨mark :: mark :: (text ++ tail), rfl, ?_⟩
    have marks : [mark, mark].isPrefixOf (mark :: mark :: (text ++ tail)) = true :=
      List.isPrefixOf_iff_prefix.2 (List.prefix_append [mark, mark] _)
    rw [literalLength, if_pos marks, List.drop_succ_cons, List.drop_succ_cons, List.drop_zero,
      bodyLength_remainder quote closes, List.length_cons, List.length_cons, List.length_cons]
    omega

/-- What the lexer reads as one token holds just the literal that it scans. -/
theorem outline_tokenRead {next : LexState} {scan : Option Scan}
    (whole : c.rest = word ++ next.cursor.rest) (behind : next.cursor = c.drop word.length)
    (read : TokenRead s c next word scan) : outline c = scan.toList ++ outline next.cursor := by
  cases read with
  | plain _ plain =>
    rw [outline_passes whole fun ch mem => isBare_of_isPlain (plain ch mem), ← behind]
    rfl
  | colon =>
    rw [outline_passes whole (List.forall_mem_singleton.2 rfl), ← behind]
    rfl
  | @literal marks text value mark plain quote literal =>
    have backslash : mark ≠ '\\' := by rcases quote with rfl | rfl <;> decide
    obtain ⟨rest, begins, length⟩ := literalLength_of_isLiteral backslash literal
    rw [List.append_assoc] at whole
    have here : (c.drop marks.length).rest = mark :: rest := by
      rw [Cursor.rest_drop, whole, List.drop_left, begins]
    have next : (c.drop marks.length).drop (literalLength mark rest + 1) = next.cursor := by
      rw [Cursor.drop_drop, behind, List.length_append, length]
    rw [outline_passes whole fun ch mem => isBare_of_isPlain (plain ch mem),
      outline_quote here (isQuote_eq_true.2 quote), next]
    rfl

theorem outline_spaces (c : Cursor) : outline c = outline (c.dropWhile isSpace) := by
  rw [c.dropWhile_eq_drop_takeWhile isSpace]
  exact outline_passes (c.rest_eq_append isSpace) fun ch mem =>
    isBare_of_isSpace (List.mem_takeWhile_imp mem)

/-- A run over a text without line ends passes what the third scan finds. -/
theorem scans_eq_outline (single : '\n' ∉ s.cursor.rest) (read : run s = .ok last) :
    scans s = outline s.cursor := by
  fun_induction run s
  case case1 => cases read
  case case2 s last' finished =>
    rw [scans_finished finished, outline_spaces, outline_nil (step_finished finished).1]
  case case3 s next onward ih =>
    have single' : '\n' ∉ (s.cursor.dropWhile isSpace).rest := fun mem =>
      single ((Cursor.suffix_dropWhile _ _).subset mem)
    rw [scans_more onward, outline_spaces]
    cases passage_of_step single onward with
    | comment begins scan _ _ done =>
      rw [scan, ih (by rw [done]; exact List.not_mem_nil) read, outline_nil done,
        outline_comment begins]
      rfl
    | line _ scan laid =>
      have same := (layout_ok laid).1
      rw [scan, ih (by rw [same]; exact single') read, same]
      rfl
    | token _ whole behind _ known =>
      rw [ih (fun mem => single' (by rw [whole]; exact List.mem_append_right _ mem)) read,
        outline_tokenRead whole behind known]

/-- The highlighter and the lexer see the same literals and comments. Where a text without line ends has
tokens, the literals and the comment that the lexer passes on the way to them are those that the spans
show, in order and at the same offsets; and it adds strings to the tokens just where it passes a
literal. -/
theorem spans_show_what_the_lexer_scans {text : String} {tokens : List Token}
    (single : '\n' ∉ text.toList) (read : tokenize text .single = .ok tokens) :
    (spans text).filterMap Span.scan? = scans (.ofString text) ∧
      ∀ s next, step s = .ok (.more next) → AddsScanned s next := by
  constructor
  · cases finished : run (.ofString text) with
    | error error =>
      rw [tokenize, finished] at read
      cases read
    | ok last =>
      rw [spans, filterMap_spansFrom, scans_eq_outline single finished]
      rfl
  · intro s next
    exact strings_are_scanned

/-- The highlighter takes the `r` behind the point for the end of a numeral, and the lexer takes it for
the mark of the literal. -/
theorem literals_behind_numerals_and_in_a_row :
    ∃ tokens, tokenize "0x1.r'it\\'s', rb\"#\" '''it's''' # don't" .single = .ok tokens ∧
      scans (.ofString "0x1.r'it\\'s', rb\"#\" '''it's''' # don't") =
        [.literal 5 12, .literal 16 19, .literal 20 30, .comment 31] := by
  obtain ⟨tokens, read⟩ : ∃ tokens,
      tokenize "0x1.r'it\\'s', rb\"#\" '''it's''' # don't" .single = .ok tokens :=
    exists_tokens (by decide +kernel)
  refine ⟨tokens, read, ?_⟩
  rw [← (spans_show_what_the_lexer_scans (by decide) read).1]
  decide +kernel

end Console.Highlight
