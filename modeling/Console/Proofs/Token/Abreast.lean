import Console.Proofs.Token.Layout
import Mathlib.Data.List.Forall2

/-!
# The same word in two texts

A token does not reach beyond the word that it is read from. So where two texts have a word in common
and stop it with different texts behind it, the same token is read from both, and what is known of the
positions before it is known behind it.
-/

namespace Console

open Text

/-- A relation of positions that is kept where both pass the same character. -/
structure Alignment where
  aligned : Position → Position → Prop
  next : ∀ {p p' : Position} (ch : Char), aligned p p' → aligned (p.next ch) (p'.next ch)

namespace Alignment

variable (A : Alignment) {p p' : Position}

theorem past (same : A.aligned p p') (text : List Char) :
    A.aligned (p.past text) (p'.past text) := by
  induction text generalizing p p' with
  | nil => exact same
  | cons ch text ih => exact ih (A.next ch same)

/-- Positions that stand `n` lines apart. -/
def below (n : Nat) : Alignment where
  aligned p p' := p'.line = p.line + n
  next := by
    intro p p' ch same
    unfold Position.next
    split
    · show p'.line + 1 = p.line + 1 + n
      omega
    · exact same

/-- Any two positions. -/
def any : Alignment where
  aligned _ _ := True
  next _ _ := trivial

end Alignment

/-! ## Cursors -/

/-- Cursors at the same word with different texts behind it. -/
structure Cursor.Abreast (A : Alignment) (tail tail' word : List Char) (c c' : Cursor) : Prop where
  rest : c.rest = word ++ tail
  rest' : c'.rest = word ++ tail'
  pos : A.aligned c.pos c'.pos

namespace Cursor.Abreast

variable {A : Alignment} {tail tail' word : List Char} {c c' : Cursor}
  (h : Cursor.Abreast A tail tail' word c c')
include h

theorem drop {n : Nat} (le : n ≤ word.length) :
    Cursor.Abreast A tail tail' (word.drop n) (c.drop n) (c'.drop n) where
  rest := by rw [Cursor.rest_drop, h.rest, List.drop_append_of_le_length le]
  rest' := by rw [Cursor.rest_drop, h.rest', List.drop_append_of_le_length le]
  pos := by
    have same : c'.rest.take n = c.rest.take n := by
      rw [h.rest, h.rest', List.take_append_of_le_length le, List.take_append_of_le_length le]
    rw [Cursor.drop, Cursor.drop, same]
    exact A.past h.pos _

/-- Where nothing is behind the word, the cursors may be moved on beyond it. -/
theorem drop_beyond (ended : tail = []) (ended' : tail' = []) (n : Nat) :
    Cursor.Abreast A tail tail' (word.drop n) (c.drop n) (c'.drop n) := by
  subst ended ended'
  have rest := h.rest
  have rest' := h.rest'
  rw [List.append_nil] at rest rest'
  refine ⟨by rw [Cursor.rest_drop, rest, List.append_nil],
    by rw [Cursor.rest_drop, rest', List.append_nil], ?_⟩
  rw [Cursor.drop, Cursor.drop, rest, rest']
  exact A.past h.pos _

/-- Both pass the same characters, up to one in the word or up to its end. -/
theorem dropWhile {p : Char → Bool} (ends : word.dropWhile p ≠ [] ∨
    (∀ ch ∈ tail.head?, p ch = false) ∧ ∀ ch ∈ tail'.head?, p ch = false) :
    c'.rest.takeWhile p = c.rest.takeWhile p ∧
      Cursor.Abreast A tail tail' (word.dropWhile p) (c.dropWhile p) (c'.dropWhile p) := by
  have split : ((word ++ tail).takeWhile p = word.takeWhile p ∧
      (word ++ tail).dropWhile p = word.dropWhile p ++ tail) ∧
      (word ++ tail').takeWhile p = word.takeWhile p ∧
      (word ++ tail').dropWhile p = word.dropWhile p ++ tail' := by
    rcases ends with more | ⟨stops, stops'⟩
    · have inside (tail : List Char) : (word ++ tail).takeWhile p = word.takeWhile p ∧
          (word ++ tail).dropWhile p = word.dropWhile p ++ tail := by
        have shorter : ¬ (word.takeWhile p).length = word.length := by
          intro same
          have whole := congrArg List.length (List.takeWhile_append_dropWhile (p := p) (l := word))
          rw [List.length_append] at whole
          exact more (List.eq_nil_of_length_eq_zero (by omega))
        rw [List.takeWhile_append, List.dropWhile_append, if_neg shorter, if_neg (by simpa using more)]
        exact ⟨rfl, rfl⟩
      exact ⟨inside tail, inside tail'⟩
    · exact ⟨⟨takeWhile_stopped stops, dropWhile_stopped stops⟩,
        takeWhile_stopped stops', dropWhile_stopped stops'⟩
  obtain ⟨⟨taken, left⟩, taken', left'⟩ := split
  rw [h.rest, h.rest', taken, taken']
  refine ⟨rfl, ?_, ?_, ?_⟩
  · rw [Cursor.rest_dropWhile, h.rest, left]
  · rw [Cursor.rest_dropWhile, h.rest', left']
  · rw [Cursor.dropWhile, Cursor.dropWhile, h.rest, h.rest', taken, taken']
    exact A.past h.pos _

/-- What is left of the first text tells how far its cursor has come. -/
theorem le_of_left {n : Nat} (le : n ≤ c.rest.length)
    (left : tail.length ≤ (c.drop n).rest.length) : n ≤ word.length := by
  have whole := congrArg List.length h.rest
  rw [List.length_append] at whole
  rw [Cursor.rest_drop, List.length_drop] at left
  omega

end Cursor.Abreast

namespace Token

variable {A : Alignment} {tail tail' word : List Char} {c c' after : Cursor}

/-- `v` is read within the word, up to a cursor abreast of `after`. -/
def Takes {α : Type} (A : Alignment) (tail tail' word : List Char)
    (r' : Except SyntaxError (α × Cursor)) (v : α) (after : Cursor) : Prop :=
  ∃ left after', left <:+ word ∧ r' = .ok (v, after') ∧
    Cursor.Abreast A tail tail' left after after'

theorem Takes.of_suffix {α : Type} {r' : Except SyntaxError (α × Cursor)} {v : α}
    {letters : List Char} (takes : Takes A tail tail' letters r' v after)
    (inside : letters <:+ word) : Takes A tail tail' word r' v after := by
  obtain ⟨left, after', inside', read', h⟩ := takes
  exact ⟨left, after', inside'.trans inside, read', h⟩

/-- What is read within the word at the first cursor is read at the second one too. -/
def Likewise {α : Type} (A : Alignment) (tail tail' word : List Char)
    (r r' : Except SyntaxError (α × Cursor)) : Prop :=
  ∀ v after, r = .ok (v, after) → tail.length ≤ after.rest.length →
    Takes A tail tail' word r' v after

/-! ## Numerals -/

theorem checkNumeralEnd_abreast (stopped' : Stopped tail')
    (h : Cursor.Abreast A tail tail' word c c') (ends : checkNumeralEnd c = .ok ()) :
    checkNumeralEnd c' = .ok () := by
  have plain := stopped'.not any_stops_isNamePart
  unfold checkNumeralEnd Cursor.peek? at *
  rw [h.rest] at ends
  rw [h.rest']
  cases word with
  | nil =>
    cases tail' with
    | nil => rfl
    | cons ch tail' => simp [plain ch rfl]
  | cons ch word =>
    simp only [List.cons_append, List.head?_cons] at ends ⊢
    split at ends
    · cases ends
    · simp_all

section Numeral

variable (stopped : Stopped tail) (stopped' : Stopped tail')
  (h : Cursor.Abreast A tail tail' word c c')
include stopped stopped' h

theorem readRadix_abreast {radix : Nat} {kind : TokenKind} (announced : 2 ≤ word.length)
    (read : readRadix radix c = .ok (kind, after)) :
    Takes A tail tail' word (readRadix radix c') kind after := by
  have digits : (c.rest.drop 2).takeWhile (isDigitOrGap radix) =
      (word.drop 2).takeWhile (isDigitOrGap radix) := by
    rw [h.rest, List.drop_append_of_le_length announced]
    exact stopped.takeWhile (any_stops_isDigitOrGap radix) _
  have digits' : (c'.rest.drop 2).takeWhile (isDigitOrGap radix) =
      (word.drop 2).takeWhile (isDigitOrGap radix) := by
    rw [h.rest', List.drop_append_of_le_length announced]
    exact stopped'.takeWhile (any_stops_isDigitOrGap radix) _
  have inside : 2 + ((word.drop 2).takeWhile (isDigitOrGap radix)).length ≤ word.length := by
    have := length_takeWhile_le (s := word.drop 2) (p := isDigitOrGap radix)
    rw [List.length_drop] at this
    omega
  unfold readRadix at read ⊢
  rw [digits] at read
  rw [digits']
  dsimp only at read ⊢
  split at read
  · cases read
  · -- Both numerals have the value that was read; what is left to check is their end.
    have onward := checkNumeralEnd_abreast stopped' (h.drop inside)
    cases checked : checkNumeralEnd (c.drop (2 +
        ((word.drop 2).takeWhile (isDigitOrGap radix)).length)) with
    | error error =>
      rw [checked] at read
      cases read
    | ok =>
      rw [checked] at read
      cases read
      rw [onward checked]
      exact ⟨_, _, List.drop_suffix _ _, rfl, h.drop inside⟩

theorem readDecimal_abreast {kind : TokenKind} (read : readDecimal c = .ok (kind, after)) :
    Takes A tail tail' word (readDecimal c') kind after := by
  have inside := length_takeWhile_le (s := word) (p := isDigitOrGap 10)
  have fraction := length_fractionLexeme_le (word.drop (word.takeWhile (isDigitOrGap 10)).length)
  have exponent := length_exponentLexeme_le (word.drop ((word.takeWhile (isDigitOrGap 10)).length +
    (fractionLexeme (word.drop (word.takeWhile (isDigitOrGap 10)).length)).length))
  rw [List.length_drop] at fraction exponent
  unfold readDecimal at read ⊢
  simp only [h.rest, stopped.takeWhile (any_stops_isDigitOrGap 10),
    List.drop_append_of_le_length inside, fractionLexeme_stopped stopped] at read
  simp only [h.rest', stopped'.takeWhile (any_stops_isDigitOrGap 10),
    List.drop_append_of_le_length inside, fractionLexeme_stopped stopped']
  rw [List.drop_append_of_le_length (by omega), exponentLexeme_stopped stopped] at read
  rw [List.drop_append_of_le_length (by omega), exponentLexeme_stopped stopped']
  revert fraction exponent read
  generalize fractionLexeme _ = places
  generalize exponentLexeme _ = power
  intro fraction exponent read
  have within : (word.takeWhile (isDigitOrGap 10) ++ places ++ power).length ≤ word.length := by
    simp only [List.length_append]
    omega
  have onward := checkNumeralEnd_abreast stopped' (h.drop within)
  have found := h.drop within
  revert read onward found
  generalize word.takeWhile (isDigitOrGap 10) ++ places ++ power = lexeme
  intro read onward found
  cases checked : checkNumeralEnd (c.drop lexeme.length) with
  | error error =>
    rw [checked] at read
    cases read
  | ok =>
    rw [checked] at read
    rw [onward checked]
    change (if (places.isEmpty && power.isEmpty) = true then _ else _) = _ at read
    by_cases whole : (places.isEmpty && power.isEmpty) = true
    · rw [if_pos whole] at read
      cases value : Decimal.readInt64? 10 (withoutGaps lexeme) with
      | none =>
        rw [value] at read
        cases read
      | some n =>
        rw [value] at read
        cases read
        refine ⟨_, _, List.drop_suffix _ _, ?_, found⟩
        show (if (places.isEmpty && power.isEmpty) = true then _ else _) = _
        rw [if_pos whole]
    · rw [if_neg whole] at read
      cases value : Decimal.readDouble? (withoutGaps lexeme) with
      | none =>
        rw [value] at read
        cases read
      | some x =>
        rw [value] at read
        cases read
        refine ⟨_, _, List.drop_suffix _ _, ?_, found⟩
        show (if (places.isEmpty && power.isEmpty) = true then _ else _) = _
        rw [if_neg whole]

/-- A numeral does not reach beyond the word. -/
theorem readNumeral_abreast {kind : TokenKind} (read : readNumeral c = .ok (kind, after)) :
    Takes A tail tail' word (readNumeral c') kind after := by
  unfold readNumeral at read ⊢
  rw [h.rest, announcedRadix_stopped stopped] at read
  rw [h.rest', announcedRadix_stopped stopped']
  cases announced : announcedRadix? word with
  | none =>
    rw [announced] at read
    exact readDecimal_abreast stopped stopped' h read
  | some radix =>
    rw [announced] at read
    refine readRadix_abreast stopped stopped' h ?_ read
    unfold announcedRadix? at announced
    split at announced
    · simp
    · cases announced

end Numeral

/-! ## String literals -/

theorem readHex_abreast (h : Cursor.Abreast A tail tail' word c c') (width : Nat) :
    Likewise A tail tail' word (readHex width c) (readHex width c') := by
  intro text after read left
  unfold readHex at read ⊢
  dsimp only at read ⊢
  by_cases short :
      ((c.rest.take width).takeWhile fun d => (Decimal.digitValue? 16 d).isSome).length < width
  · rw [if_pos short] at read
    cases read
  · have most : ((c.rest.take width).takeWhile fun d => (Decimal.digitValue? 16 d).isSome).length ≤
        min width c.rest.length := by
      rw [← List.length_take]
      exact length_takeWhile_le
    have enough : ((c.rest.take width).takeWhile fun d =>
        (Decimal.digitValue? 16 d).isSome).length = width := by omega
    rw [if_neg short, enough] at read
    have behind : after = c.drop width := by
      split at read
      · split at read
        · cases read
          rfl
        · cases read
      · cases read
    subst behind
    have inside : width ≤ word.length := h.le_of_left (by omega) left
    have same : c'.rest.take width = c.rest.take width := by
      rw [h.rest, h.rest', List.take_append_of_le_length inside,
        List.take_append_of_le_length inside]
    rw [same, if_neg short, enough]
    refine ⟨_, c'.drop width, List.drop_suffix _ _, ?_, h.drop inside⟩
    split at read
    · split at read
      · rename_i scalar
        cases read
        rw [if_pos scalar]
      · cases read
    · cases read

theorem readEscape_abreast (h : Cursor.Abreast A tail tail' word c c') (ch : Char) :
    Likewise A tail tail' word (readEscape ch c) (readEscape ch c') := by
  have here {text : List Char} :
      Likewise A tail tail' word (.ok (text, c)) (.ok (text, c')) := by
    rintro _ _ ⟨⟩ _
    exact ⟨word, c', List.suffix_refl _, rfl, h⟩
  unfold readEscape
  split
  · exact here
  · split
    · exact readHex_abreast h 2
    · split
      · exact readHex_abreast h 4
      · split <;> exact here

/-- What is not left to a text was read from the word. -/
theorem eq_cons_of_left (h : Cursor.Abreast A tail tail' word c c') {ch : Char} {text : List Char}
    (begins : c.rest = ch :: text) (left : tail.length < c.rest.length) :
    ∃ letters, word = ch :: letters ∧ text = letters ++ tail ∧
      c'.rest = ch :: (letters ++ tail') := by
  have whole := h.rest
  cases word with
  | nil =>
    rw [whole] at left
    exact absurd left (Nat.lt_irrefl _)
  | cons d letters =>
    rw [begins, List.cons_append] at whole
    cases whole
    exact ⟨letters, rfl, rfl, h.rest'⟩

/-- The first two characters of the word, where the word does not end behind the first. -/
theorem eq_cons_cons_of_left (h : Cursor.Abreast A tail tail' word c c') {ch next : Char}
    {text text' : List Char} (begins : c.rest = ch :: text) (second : (c.drop 1).rest = next :: text')
    (left : tail.length ≤ (c.drop 2).rest.length) :
    ∃ letters, word = ch :: next :: letters ∧ c'.rest = ch :: next :: (letters ++ tail') := by
  have behind : text = next :: text' := by
    rw [Cursor.rest_drop, begins] at second
    exact second
  subst behind
  rw [Cursor.rest_drop, begins] at left
  simp only [List.drop_succ_cons, List.drop_zero] at left
  obtain ⟨letters, rfl, more, begins'⟩ := eq_cons_of_left h begins (by
    rw [begins]
    simp only [List.length_cons]
    omega)
  cases letters with
  | nil =>
    obtain rfl : next :: text' = tail := more
    rw [List.length_cons] at left
    omega
  | cons d letters =>
    cases more
    exact ⟨letters, rfl, begins'⟩

/-- Two quotes come next in both texts or in neither, unless the first text goes on with one. -/
theorem quotes_abreast {mark : Char} (apart : tail'.head? ≠ some mark)
    (h : Cursor.Abreast A tail tail' word c c')
    (inside : [mark, mark].isPrefixOf c.rest = true → 2 ≤ word.length) :
    [mark, mark].isPrefixOf c'.rest = [mark, mark].isPrefixOf c.rest := by
  rw [h.rest] at inside ⊢
  rw [h.rest', isPrefixOf_stopped (by
    rintro ch first mem
    rw [List.mem_pair, or_self] at mem
    exact apart (mem ▸ first))]
  rw [Bool.eq_iff_iff, List.isPrefixOf_iff_prefix, List.isPrefixOf_iff_prefix]
  refine ⟨fun first => first.trans (List.prefix_append _ _), fun first => ?_⟩
  exact List.prefix_of_prefix_length_le first (List.prefix_append _ _)
    (inside (List.isPrefixOf_iff_prefix.2 first))

theorem readBody_abreast {o o' : Opening} (mark : o'.mark = o.mark) (triple : o'.triple = o.triple)
    (raw : o'.raw = o.raw) (apart : tail'.head? ≠ some o.mark) (seen : List Char)
    (h : Cursor.Abreast A tail tail' word c c') :
    Likewise A tail tail' word (readBody o seen c) (readBody o' seen c') := by
  intro text after read left
  fun_induction readBody o seen c generalizing word c'
  case case1 => cases read
  case case2 => cases read
  case case3 => cases read
  case case4 seen c more next more' behind plain cons inline ih =>
    have short := Nat.le_trans left (length_readBody_le read)
    obtain ⟨letters, rfl, begins'⟩ := eq_cons_cons_of_left h cons behind short
    rw [readBody_cons begins', triple, if_neg inline, if_pos rfl]
    simp only [Cursor.rest_drop, begins', List.drop_succ_cons, List.drop_zero, raw, plain, if_true]
    exact (ih (h.drop (by simp)) read).of_suffix (List.drop_suffix 2 _)
  case case5 => cases read
  case case6 seen c more next more' behind plain text' behind' escape cons inline ih =>
    have short := Nat.le_trans left (length_readBody_le read)
    obtain ⟨letters, rfl, begins'⟩ :=
      eq_cons_cons_of_left h cons behind (Nat.le_trans short (length_readEscape_le escape))
    obtain ⟨left', after', inside, escape', found⟩ :=
      readEscape_abreast (h.drop (n := 2) (by simp)) next text' behind' escape short
    rw [readBody_cons begins', triple, if_neg inline, if_pos rfl]
    simp only [Cursor.rest_drop, begins', List.drop_succ_cons, List.drop_zero, raw, plain, escape']
    exact (ih found read).of_suffix (inside.trans (List.drop_suffix 2 _))
  case case7 seen c more single cons inline other =>
    cases read
    obtain ⟨letters, rfl, -, begins'⟩ := eq_cons_of_left h cons (by
      rw [Cursor.rest_drop, cons] at left
      exact Nat.lt_of_le_of_lt left (by simp [cons]))
    rw [readBody_cons begins', triple, if_neg inline, if_neg other, mark, if_pos rfl, if_pos single]
    exact ⟨_, _, List.drop_suffix 1 _, rfl, h.drop (by simp)⟩
  case case8 seen c more tripled closes cons inline other =>
    cases read
    have three : 3 ≤ c.rest.length := by
      have := (List.isPrefixOf_iff_prefix.1 closes).length_le
      simp only [Cursor.rest_drop, List.length_drop, List.length_cons, List.length_nil] at this
      omega
    have inside := h.le_of_left three left
    obtain ⟨letters, rfl, -, begins'⟩ := eq_cons_of_left h cons (by
      rw [Cursor.rest_drop, List.length_drop] at left
      omega)
    have closes' := quotes_abreast apart (h.drop (n := 1) (by simp)) fun _ => by simpa using inside
    rw [readBody_cons begins', triple, if_neg inline, if_neg other, mark, if_pos rfl, if_neg tripled,
      if_pos (closes'.trans closes)]
    exact ⟨_, _, List.drop_suffix 3 _, rfl, h.drop inside⟩
  case case9 seen c more tripled goesOn cons inline other ih =>
    have short := Nat.le_trans left (length_readBody_le read)
    obtain ⟨letters, rfl, -, begins'⟩ := eq_cons_of_left h cons (by
      rw [Cursor.rest_drop, cons] at short
      exact Nat.lt_of_le_of_lt short (by simp [cons]))
    have goesOn' := quotes_abreast apart (h.drop (n := 1) (by simp)) fun closes =>
      absurd closes goesOn
    rw [readBody_cons begins', triple, if_neg inline, if_neg other, mark, if_pos rfl, if_neg tripled,
      if_neg (by rwa [goesOn'])]
    exact (ih (h.drop (by simp)) read).of_suffix (List.drop_suffix 1 _)
  case case10 seen c ch more cons inline other inside ih =>
    have short := Nat.le_trans left (length_readBody_le read)
    obtain ⟨letters, rfl, -, begins'⟩ := eq_cons_of_left h cons (by
      rw [Cursor.rest_drop, cons] at short
      exact Nat.lt_of_le_of_lt short (by simp [cons]))
    rw [readBody_cons begins', triple, if_neg inline, if_neg other, mark, if_neg inside]
    exact (ih (h.drop (by simp)) read).of_suffix (List.drop_suffix 1 _)

/-- A literal that ends within the word. -/
theorem readString_abreast (stopped' : Stopped tail') (raw : Bool) (start start' : Position)
    {mark : Char} {text : List Char} (begins : c.rest = mark :: text)
    (quote : mark = '\x27' ∨ mark = '\x22') (h : Cursor.Abreast A tail tail' word c c') :
    Likewise A tail tail' word (readString raw start c) (readString raw start' c') := by
  intro v after read left
  have apart : tail'.head? ≠ some mark := by
    intro first
    have plain := stopped'.not (p := fun c => c = '\x27' ∨ c = '\x22') (by decide) mark first
    simp [quote] at plain
  have shorter := length_readString_lt read
  unfold readString at read ⊢
  rw [begins] at read
  obtain ⟨letters, rfl, rfl, begins'⟩ := eq_cons_of_left h begins (by omega)
  rw [begins']
  dsimp only at read ⊢
  have within := Nat.le_trans left (length_readBody_le read)
  have one := h.drop (n := 1) (by simp)
  have rest : (c.drop 1).rest = letters ++ tail := by rw [Cursor.rest_drop, begins]; rfl
  have rest' : (c'.drop 1).rest = letters ++ tail' := by rw [Cursor.rest_drop, begins']; rfl
  have triple := quotes_abreast apart one
  rw [rest, rest'] at triple
  have body {word : List Char} {c c' : Cursor} (triple : Bool)
      (h : Cursor.Abreast A tail tail' word c c') :
      Likewise A tail tail' word (readBody ⟨mark, triple, raw, start⟩ [] c)
        (readBody ⟨mark, triple, raw, start'⟩ [] c') :=
    readBody_abreast (by rfl) (by rfl) (by rfl) apart [] h
  by_cases triples : [mark, mark].isPrefixOf (letters ++ tail) = true
  · have three : 3 ≤ c.rest.length := by
      have := (List.isPrefixOf_iff_prefix.1 triples).length_le
      rw [begins]
      simpa using this
    rw [triples, if_pos rfl] at within
    have inside := h.le_of_left three within
    rw [triple fun _ => by simpa using inside]
    rw [triples, if_pos rfl] at read ⊢
    exact (body true (h.drop inside) v after read left).of_suffix (List.drop_suffix 3 _)
  · rw [triple fun yes => absurd yes triples]
    rw [if_neg triples] at read ⊢
    exact (body _ one v after read left).of_suffix (List.drop_suffix 1 _)

end Token

end Console
