import Console.Proofs.Token.Literal
import Console.Text

/-!
# Quoted texts

A text that is written as a string literal is read back, whatever its characters are and whatever
stands behind the literal; only another quote behind the two of an empty text would open a literal of
three quotes.
-/

namespace Console.Token

open Text

variable {o : Opening} {c : Cursor} {ch : Char} {tail : List Char}

theorem digits_hexPair : ∀ n < 0x80, (hexPair n).all (fun d => (Decimal.digitValue? 16 d).isSome) ∧
    Decimal.readNat? 16 (hexPair n) = some n := by
  decide +kernel

theorem readHex_hexPair (small : ch.toNat < 0x80) (begins : c.rest = hexPair ch.toNat ++ tail) :
    readHex 2 c = .ok ([ch], c.drop 2) := by
  obtain ⟨digits, value⟩ := digits_hexPair ch.toNat small
  have scalar : isScalar ch.toNat = true := by
    rw [isScalar, decide_eq_true (by omega), Bool.true_or]
  have taken : (c.rest.take 2).takeWhile (fun d => (Decimal.digitValue? 16 d).isSome) =
      hexPair ch.toNat := by
    rw [begins, show (hexPair ch.toNat ++ tail).take 2 = hexPair ch.toNat ++ [] from rfl,
      List.takeWhile_append_of_pos (List.all_eq_true.1 digits)]
    rfl
  unfold readHex
  dsimp only
  rw [taken, value]
  simp only [scalar, Char.ofNat_toNat]
  rfl

/-- A backslash and what follows it stand for a character. -/
theorem readBody_escape {next meant : Char} {after : Cursor} (cooked : o.raw = false)
    (begins : c.rest = '\\' :: next :: tail)
    (escape : readEscape next (c.drop 2) = .ok ([meant], after)) (seen : List Char) :
    readBody o seen c = readBody o (meant :: seen) after := by
  rw [readBody_cons begins, if_neg (by simp), if_pos rfl]
  simp only [Cursor.rest_drop, begins, List.drop_succ_cons, List.drop_zero, cooked]
  rw [if_neg Bool.false_ne_true, escape]
  rfl

/-- What a character is written as stands for it. -/
theorem readBody_escapeChar (cooked : o.raw = false)
    (mark : o.mark = '\x27' ∨ o.mark = '\x22') (begins : c.rest = escapeChar o.mark ch ++ tail)
    (seen : List Char) :
    ∃ after : Cursor, after.rest = tail ∧ readBody o seen c = readBody o (ch :: seen) after := by
  have escaped {next : Char} (begins : c.rest = '\\' :: next :: tail)
      (letter : readEscape next (c.drop 2) = .ok ([ch], c.drop 2)) :
      ∃ after : Cursor, after.rest = tail ∧ readBody o seen c = readBody o (ch :: seen) after :=
    ⟨c.drop 2, by rw [Cursor.rest_drop, begins]; rfl, readBody_escape cooked begins letter seen⟩
  unfold escapeChar at begins
  by_cases backslash : ch = '\\'
  · subst backslash
    exact escaped begins rfl
  by_cases lineFeed : ch = '\n'
  · subst lineFeed
    exact escaped begins rfl
  by_cases carriage : ch = '\r'
  · subst carriage
    exact escaped begins rfl
  by_cases tab : ch = '\t'
  · subst tab
    exact escaped begins rfl
  rw [if_neg backslash, if_neg lineFeed, if_neg carriage, if_neg tab] at begins
  by_cases quote : ch = o.mark
  · rw [if_pos quote] at begins
    refine escaped begins ?_
    rcases mark with mark | mark <;> rw [quote, mark] <;> rfl
  rw [if_neg quote] at begins
  by_cases control : ch.toNat < 0x20 || ch.toNat = 0x7F
  · rw [if_pos control] at begins
    have small : ch.toNat < 0x80 := by
      simp only [Bool.or_eq_true, decide_eq_true_eq] at control
      omega
    have digits : (c.drop 2).rest = hexPair ch.toNat ++ tail := by
      rw [Cursor.rest_drop, begins]
      rfl
    refine ⟨(c.drop 2).drop 2, by rw [Cursor.rest_drop, digits]; rfl, ?_⟩
    exact readBody_escape cooked begins (readHex_hexPair small digits) seen
  · rw [if_neg control] at begins
    refine ⟨c.drop 1, by rw [Cursor.rest_drop, begins]; rfl, ?_⟩
    rw [readBody_cons begins, if_neg (by simp [lineFeed]), if_neg backslash, if_neg quote]

/-- The characters of a text, each as it is written, up to the closing quote. -/
theorem readBody_quoted (cooked : o.raw = false) (single : o.triple = false)
    (mark : o.mark = '\x27' ∨ o.mark = '\x22') (s : List Char) (c : Cursor)
    (begins : c.rest = s.flatMap (escapeChar o.mark) ++ o.mark :: tail) (seen : List Char) :
    ∃ after : Cursor, after.rest = tail ∧ readBody o seen c = .ok (seen.reverse ++ s, after) := by
  induction s generalizing c seen with
  | nil =>
    have other : o.mark ≠ '\n' ∧ o.mark ≠ '\\' := by rcases mark with mark | mark <;> simp [mark]
    refine ⟨c.drop 1, by rw [Cursor.rest_drop, begins]; rfl, ?_⟩
    rw [readBody_cons begins, if_neg (by simp [other.1]), if_neg other.2, if_pos rfl,
      if_pos (by simp [single]), List.append_nil]
  | cons ch s ih =>
    rw [List.flatMap_cons, List.append_assoc] at begins
    obtain ⟨between, rest, first⟩ := readBody_escapeChar cooked mark begins seen
    obtain ⟨after, last, others⟩ := ih between rest (ch :: seen)
    exact ⟨after, last, by rw [first, others, List.reverse_cons, List.append_assoc]; rfl⟩

theorem quoteMark_cases (s : List Char) : quoteMark s = '\x27' ∨ quoteMark s = '\x22' := by
  unfold quoteMark
  split
  · exact .inr rfl
  · exact .inl rfl

/-- A character is written as it is, unless it is the quote, or behind a backslash. -/
theorem escapeChar_cases (mark ch : Char) :
    escapeChar mark ch = [ch] ∧ ch ≠ mark ∨ ∃ others, escapeChar mark ch = '\\' :: others := by
  unfold escapeChar
  grind

/-- The quote that opens a text is not the first of three. -/
theorem quote_not_triple {s : List Char} {mark : Char} (other : mark ≠ '\\')
    (closed : tail.head? ≠ some mark) :
    [mark, mark].isPrefixOf (s.flatMap (escapeChar mark) ++ mark :: tail) = false := by
  cases s with
  | nil =>
    cases tail with
    | nil => simp [List.isPrefixOf]
    | cons ch tail =>
      have : (mark == ch) = false := by
        rw [beq_eq_false_iff_ne]
        exact fun same => closed (congrArg some same.symm)
      simp [List.isPrefixOf, this]
  | cons ch s =>
    rw [List.flatMap_cons]
    rcases escapeChar_cases mark ch with ⟨same, differs⟩ | ⟨others, same⟩
    · have : (mark == ch) = false := by simpa using differs.symm
      simp [same, List.isPrefixOf, this]
    · have : (mark == '\\') = false := by simpa using other
      simp [same, List.isPrefixOf, this]

/-- A quoted text is read back. -/
theorem readString_quote {s : List Char} (begins : c.rest = quote s ++ tail)
    (closed : tail.head? ≠ some (quoteMark s)) (start : Position) :
    ∃ after : Cursor, after.rest = tail ∧ readString false start c = .ok (s, after) := by
  have mark := quoteMark_cases s
  have other : quoteMark s ≠ '\\' := by rcases mark with mark | mark <;> rw [mark] <;> decide
  have begins : c.rest =
      quoteMark s :: (s.flatMap (escapeChar (quoteMark s)) ++ quoteMark s :: tail) := by
    rw [begins]
    simp [quote]
  have body : (c.drop 1).rest = s.flatMap (escapeChar (quoteMark s)) ++ quoteMark s :: tail := by
    rw [Cursor.rest_drop, begins]
    rfl
  obtain ⟨after, rest, read⟩ :=
    readBody_quoted (o := ⟨quoteMark s, false, false, start⟩) rfl rfl mark s (c.drop 1) body []
  refine ⟨after, rest, ?_⟩
  unfold readString
  rw [begins]
  dsimp only
  rw [quote_not_triple other closed]
  exact read

end Console.Token
