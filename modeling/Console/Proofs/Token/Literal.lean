import Console.Proofs.Source
import Console.Token.Literal

/-!
# Literals before a line end

A numeral or a string literal that is read to its end is read to the same end when more lines
follow, and so is a literal that no text can complete.
-/

namespace Console.Token

open Text

variable {c : Cursor} {tail more : List Char}

/-- A reading at a cursor of the longer text. -/
def followedBy {α : Type} (more : List Char) (x : α × Cursor) : α × Cursor :=
  (x.1, x.2.followed more)

/-! ## Numerals -/

theorem any_stops_isDigitOrGap (radix : Nat) : stops.any (isDigitOrGap radix) = false := by
  have fails : (stops.all fun ch => !ch.isDigit && !ch.isLower && !ch.isUpper && ch != '_') = true := by
    decide
  refine List.any_eq_false.2 fun ch mem => ?_
  obtain ⟨⟨⟨digit, lower⟩, upper⟩, gap⟩ : ((ch.isDigit = false ∧ ch.isLower = false) ∧
      ch.isUpper = false) ∧ (ch == '_') = false := by
    simpa using List.all_eq_true.1 fails ch mem
  simp [isDigitOrGap, Decimal.digitValue?, digit, lower, upper, gap]

/-- A line end stops words. -/
theorem stopped_lineEnd (more : List Char) : Stopped ('\n' :: more) := .cons (by decide) more

section Stopped

variable (stopped : Stopped tail) (s : List Char)
include stopped

theorem announcedRadix_stopped : announcedRadix? (s ++ tail) = announcedRadix? s := by
  have unannounced {d : Char} {more : List Char} (other : d ≠ '0') : announcedRadix? (d :: more) = none := by
    unfold announcedRadix?
    split <;> simp_all
  match s, tail with
  | [], [] => rfl
  | [], d :: tail => exact unannounced (by simpa using stopped.not (p := (· == '0')) (by decide) d rfl)
  | [d], [] => rfl
  | [d], e :: tail =>
    have letter := stopped.not (p := (['x', 'X', 'o', 'O', 'b', 'B'].contains ·)) (by decide) e rfl
    unfold announcedRadix?
    simp only [List.cons_append, List.nil_append]
    split <;> simp_all
  | d :: e :: s, tail =>
    by_cases zero : d = '0'
    · subst zero
      rfl
    · rw [unannounced zero]
      exact unannounced zero

theorem fractionLexeme_stopped : fractionLexeme (s ++ tail) = fractionLexeme s := by
  match s, tail with
  | [], [] => rfl
  | [], d :: tail =>
    have point := stopped.not (p := (· == '.')) (by decide) d rfl
    unfold fractionLexeme
    split <;> simp_all
  | d :: s, tail =>
    rw [List.cons_append]
    unfold fractionLexeme
    split
    · rename_i same
      cases same
      simp [stopped.takeWhile (any_stops_isDigitOrGap 10)]
    · split
      · simp_all
      · rfl

theorem exponentLexeme_stopped : exponentLexeme (s ++ tail) = exponentLexeme s := by
  match s, tail with
  | [], [] => rfl
  | [], d :: tail =>
    have letter := stopped.not (p := fun c => c = 'e' ∨ c = 'E') (by decide) d rfl
    simp_all [exponentLexeme]
  | e :: s, tail =>
    have sign : (s ++ tail).takeWhile (fun c => c == '+' || c == '-') =
      s.takeWhile fun c => c == '+' || c == '-' := stopped.takeWhile (by decide) s
    have short : ((s.takeWhile fun c => c == '+' || c == '-').take 1).length ≤ s.length :=
      Nat.le_trans (List.length_take_le' 1 _) length_takeWhile_le
    simp only [List.cons_append, exponentLexeme, sign,
      List.drop_append_of_le_length short, stopped.takeWhile (p := Char.isDigit) (by decide)]

theorem startsNumeral_stopped (nonempty : s ≠ []) : startsNumeral (s ++ tail) = startsNumeral s := by
  have plain {d : Char} {more : List Char} (other : d ≠ '.') :
      startsNumeral (d :: more) = d.isDigit := by
    unfold startsNumeral
    split <;> simp_all
  match s, tail with
  | [d], [] => rfl
  | [d], e :: tail =>
    by_cases point : d = '.'
    · subst point
      exact stopped.not (p := Char.isDigit) (by decide) e rfl
    · rw [plain point]
      exact plain point
  | d :: e :: s, tail =>
    by_cases point : d = '.'
    · subst point
      rfl
    · rw [plain point]
      exact plain point

end Stopped

theorem length_fractionLexeme_le (s : List Char) : (fractionLexeme s).length ≤ s.length := by
  unfold fractionLexeme
  split
  · rename_i s
    have := length_takeWhile_le (s := s) (p := isDigitOrGap 10)
    simpa using this
  · simp

theorem length_exponentLexeme_le (s : List Char) : (exponentLexeme s).length ≤ s.length := by
  unfold exponentLexeme
  split
  · rename_i e s
    split
    · dsimp only
      split
      · simp
      · have sign : ((s.takeWhile fun c => c == '+' || c == '-').take 1).length ≤ s.length :=
          Nat.le_trans (List.length_take_le' 1 _) length_takeWhile_le
        have digits := length_takeWhile_le (p := Char.isDigit)
          (s := s.drop ((s.takeWhile fun c => c == '+' || c == '-').take 1).length)
        rw [List.length_drop] at digits
        simp only [List.length_append, List.length_cons]
        omega
    · simp
  · simp

theorem checkNumeralEnd_followed : checkNumeralEnd (c.followed more) = checkNumeralEnd c := by
  obtain ⟨rest, pos⟩ := c
  cases rest with
  | nil => rfl
  | cons ch rest => rfl

theorem readRadix_followed {radix : Nat} (announced : 2 ≤ c.rest.length) :
    readRadix radix (c.followed more) = (readRadix radix c).map (followedBy more) := by
  have digits : ((c.rest ++ '
' :: more).drop 2).takeWhile (isDigitOrGap radix) =
      (c.rest.drop 2).takeWhile (isDigitOrGap radix) := by
    rw [List.drop_append_of_le_length announced,
      (stopped_lineEnd more).takeWhile (any_stops_isDigitOrGap radix)]
  have inside : 2 + ((c.rest.drop 2).takeWhile (isDigitOrGap radix)).length ≤ c.rest.length := by
    have := length_takeWhile_le (s := c.rest.drop 2) (p := isDigitOrGap radix)
    rw [List.length_drop] at this
    omega
  unfold readRadix
  simp only [Cursor.rest_followed, digits, Cursor.drop_followed inside, Cursor.pos_followed,
    checkNumeralEnd_followed]
  split
  · rfl
  · cases checkNumeralEnd _ <;> rfl

theorem readDecimal_followed :
    readDecimal (c.followed more) = (readDecimal c).map (followedBy more) := by
  have inside := length_takeWhile_le (s := c.rest) (p := isDigitOrGap 10)
  have fraction := length_fractionLexeme_le (c.rest.drop (c.rest.takeWhile (isDigitOrGap 10)).length)
  have exponent := length_exponentLexeme_le (c.rest.drop ((c.rest.takeWhile (isDigitOrGap 10)).length +
    (fractionLexeme (c.rest.drop (c.rest.takeWhile (isDigitOrGap 10)).length)).length))
  rw [List.length_drop] at fraction exponent
  unfold readDecimal
  simp only [Cursor.rest_followed, Cursor.pos_followed,
    (stopped_lineEnd more).takeWhile (any_stops_isDigitOrGap 10),
    List.drop_append_of_le_length inside, fractionLexeme_stopped (stopped_lineEnd more)]
  rw [List.drop_append_of_le_length (by omega), exponentLexeme_stopped (stopped_lineEnd more),
    Cursor.drop_followed (by simp only [List.length_append]; omega), checkNumeralEnd_followed]
  cases checkNumeralEnd _ with
  | error error => rfl
  | ok _ =>
    show (if _ then _ else _) = Except.map _ (if _ then _ else _)
    split
    · split <;> rfl
    · split <;> rfl

theorem readNumeral_followed :
    readNumeral (c.followed more) = (readNumeral c).map (followedBy more) := by
  unfold readNumeral
  rw [Cursor.rest_followed, announcedRadix_stopped (stopped_lineEnd more)]
  cases announced : announcedRadix? c.rest with
  | none => exact readDecimal_followed
  | some radix =>
    refine readRadix_followed ?_
    unfold announcedRadix? at announced
    split at announced
    · rename_i rest
      simp [rest]
    · cases announced

/-! ## String literals -/

theorem readHex_followed (width : Nat) :
    readHex width (c.followed more) = (readHex width c).map (followedBy more) := by
  have digits :
      ((c.rest ++ '\n' :: more).take width).takeWhile (fun d => (Decimal.digitValue? 16 d).isSome) =
        (c.rest.take width).takeWhile fun d => (Decimal.digitValue? 16 d).isSome :=
    takeWhile_take_lineEnd (by decide) width
  have inside : ((c.rest.take width).takeWhile fun d => (Decimal.digitValue? 16 d).isSome).length ≤
      c.rest.length := by
    have := length_takeWhile_le (s := c.rest.take width)
      (p := fun d => (Decimal.digitValue? 16 d).isSome)
    rw [List.length_take] at this
    omega
  unfold readHex
  simp only [Cursor.rest_followed, digits, Cursor.drop_followed inside, Cursor.pos_followed]
  split
  · rfl
  · split
    · split <;> rfl
    · rfl

theorem readEscape_followed (ch : Char) :
    readEscape ch (c.followed more) = (readEscape ch c).map (followedBy more) := by
  unfold readEscape
  split
  · rfl
  · split
    · exact readHex_followed 2
    · split
      · exact readHex_followed 4
      · split <;> rfl

theorem readHex_final {width : Nat} {error : SyntaxError}
    (failed : readHex width c = .error error) : error.isIncomplete = false := by
  unfold readHex at failed
  dsimp only at failed
  split at failed
  · cases failed
    rfl
  · split at failed
    · split at failed
      · cases failed
      · cases failed
        rfl
    · cases failed
      rfl

theorem readEscape_final {ch : Char} {error : SyntaxError}
    (failed : readEscape ch c = .error error) : error.isIncomplete = false := by
  unfold readEscape at failed
  split at failed
  · cases failed
  · split at failed
    · exact readHex_final failed
    · split at failed
      · exact readHex_final failed
      · split at failed <;> cases failed

theorem readBody_cons {o : Opening} {c : Cursor} {ch : Char} {tail : List Char}
    (begins : c.rest = ch :: tail) (seen : List Char) :
    readBody o seen c =
      if ch = '\n' ∧ !o.triple then .error (.of .unterminatedString o.pos)
      else if ch = '\\' then
        match (c.drop 1).rest with
        | [] =>
          .error (.of (.incomplete (if o.triple then .closingQuotes else .continuation))
            (c.drop 1).pos)
        | next :: _ =>
          if o.raw then readBody o (next :: '\\' :: seen) (c.drop 2)
          else
            match readEscape next (c.drop 2) with
            | .error e => .error e
            | .ok (text, after) => readBody o (text.reverse ++ seen) after
      else if ch = o.mark then
        if !o.triple then .ok (seen.reverse, c.drop 1)
        else if [o.mark, o.mark].isPrefixOf (c.drop 1).rest then .ok (seen.reverse, c.drop 3)
        else readBody o (ch :: seen) (c.drop 1)
      else readBody o (ch :: seen) (c.drop 1) := by
  obtain ⟨rest, pos⟩ := c
  subst begins
  rw [readBody]
  dsimp only
  split
  · rfl
  · split
    · cases tail with
      | nil => rfl
      | cons next tail =>
        simp only [Cursor.rest_drop, List.drop_succ_cons, List.drop_zero]
        split
        · rfl
        · split <;> rename_i h <;> rw [h]
    · rfl
/-- What a reading tells of the reading of the longer text: it succeeds alike, and fails alike if no
text can help. -/
def Kept {α : Type} (more : List Char) (r r' : Except SyntaxError (α × Cursor)) : Prop :=
  (∀ x, r = .ok x → r' = .ok (followedBy more x)) ∧
    ∀ error, r = .error error → error.isIncomplete = false → r' = .error error

namespace Kept

variable {α : Type} {r r' : Except SyntaxError (α × Cursor)}

theorem of_map (same : r' = r.map (followedBy more)) : Kept more r r' := by
  subst same
  constructor
  · rintro x rfl
    rfl
  · rintro error rfl _
    rfl

theorem of_incomplete {error : SyntaxError} (lacks : error.isIncomplete = true) :
    Kept more (.error error) r' := by
  constructor
  · intro x read
    cases read
  · intro error' failed final
    cases failed
    simp [lacks] at final

end Kept

theorem readBody_followed (o : Opening) (quote : o.mark ≠ '\n') (seen : List Char) (c : Cursor) :
    Kept more (readBody o seen c) (readBody o seen (c.followed more)) := by
  have begins {c : Cursor} {ch : Char} {tail : List Char} (h : c.rest = ch :: tail) :
      (c.followed more).rest = ch :: (tail ++ '\n' :: more) := by simp [h]
  have one {c : Cursor} {ch : Char} {tail : List Char} (h : c.rest = ch :: tail) :
      (c.followed more).drop 1 = (c.drop 1).followed more := Cursor.drop_followed (by simp [h])
  have two {c : Cursor} {ch next : Char} {tail tail' : List Char} (h : c.rest = ch :: tail)
      (h' : (c.drop 1).rest = next :: tail') :
      (c.followed more).drop 2 = (c.drop 2).followed more := by
    refine Cursor.drop_followed ?_
    simp_all
  fun_induction readBody o seen c
  case case1 seen c done =>
    by_cases triple : o.triple = true
    · exact .of_incomplete (by simp [triple, SyntaxError.of, SyntaxError.isIncomplete,
        SyntaxFault.missing?])
    · rw [readBody_cons (show (c.followed more).rest = '\n' :: more by simp [done])]
      exact .of_map (by simp [triple, Except.map])
  case case2 seen c ch tail cons line =>
    rw [readBody_cons (begins cons), if_pos line]
    exact .of_map rfl
  case case3 seen c tail last cons inline =>
    refine .of_incomplete ?_
    split <;> rfl
  case case4 seen c tail next tail' after raw cons inline ih =>
    rw [readBody_cons (begins cons), if_neg inline, if_pos rfl, one cons, two cons after]
    simp only [Cursor.rest_followed, after, List.cons_append, raw, if_true]
    exact ih
  case case5 seen c tail next tail' after raw error escape cons inline =>
    rw [readBody_cons (begins cons), if_neg inline, if_pos rfl, one cons, two cons after]
    simp only [Cursor.rest_followed, after, List.cons_append, raw, readEscape_followed, escape]
    exact .of_map rfl
  case case6 seen c tail next tail' after raw text behind escape cons inline ih =>
    rw [readBody_cons (begins cons), if_neg inline, if_pos rfl, one cons, two cons after]
    simp only [Cursor.rest_followed, after, List.cons_append, raw, readEscape_followed, escape]
    exact ih
  case case7 seen c tail single cons inline other =>
    rw [readBody_cons (begins cons), if_neg inline, if_neg other, if_pos rfl, if_pos single,
      one cons]
    exact .of_map rfl
  case case8 seen c tail triple closes cons inline other =>
    have three : 3 ≤ c.rest.length := by
      have := (List.isPrefixOf_iff_prefix.1 closes).length_le
      simp only [Cursor.rest_drop, List.length_drop, List.length_cons, List.length_nil] at this
      omega
    rw [readBody_cons (begins cons), if_neg inline, if_neg other, if_pos rfl, if_neg triple,
      one cons, Cursor.rest_followed, isPrefixOf_lineEnd (by simpa using quote.symm), if_pos closes,
      Cursor.drop_followed three]
    exact .of_map rfl
  case case9 seen c tail triple goesOn cons inline other ih =>
    rw [readBody_cons (begins cons), if_neg inline, if_neg other, if_pos rfl, if_neg triple,
      one cons, Cursor.rest_followed, isPrefixOf_lineEnd (by simpa using quote.symm), if_neg goesOn]
    exact ih
  case case10 seen c ch tail cons inline other inside ih =>
    rw [readBody_cons (begins cons), if_neg inline, if_neg other, if_neg inside, one cons]
    exact ih

/-- The literal at a quote. -/
theorem readString_followed (raw : Bool) (start : Position) {mark : Char} {tail : List Char}
    (quote : mark ≠ '\n') (begins : c.rest = mark :: tail) :
    Kept more (readString raw start c) (readString raw start (c.followed more)) := by
  unfold readString
  rw [Cursor.rest_followed, begins, List.cons_append]
  dsimp only
  rw [isPrefixOf_lineEnd (by simpa using quote.symm)]
  have inside : (if [mark, mark].isPrefixOf tail then 3 else 1) ≤ c.rest.length := by
    rw [begins]
    split
    · rename_i triple
      have := (List.isPrefixOf_iff_prefix.1 triple).length_le
      simpa using this
    · simp
  rw [Cursor.drop_followed inside]
  exact readBody_followed _ quote [] _

/-! ## What is left behind a literal, and what it may lack -/

theorem readHex_reaches {width : Nat} {text : List Char} {after : Cursor}
    (read : readHex width c = .ok (text, after)) : c.Reaches after := by
  unfold readHex at read
  dsimp only at read
  split at read
  · cases read
  · split at read
    · split at read
      · cases read
        exact c.reaches_drop _
      · cases read
    · cases read

theorem readEscape_reaches {ch : Char} {text : List Char} {after : Cursor}
    (read : readEscape ch c = .ok (text, after)) : c.Reaches after := by
  unfold readEscape at read
  split at read
  · cases read
    exact .refl c
  · split at read
    · exact readHex_reaches read
    · split at read
      · exact readHex_reaches read
      · split at read <;> cases read <;> exact .refl c

theorem readBody_reaches {o : Opening} {seen text : List Char} {after : Cursor}
    (read : readBody o seen c = .ok (text, after)) : c.Reaches after := by
  fun_induction readBody o seen c
  case case4 ih => exact (Cursor.reaches_drop _ _).trans (ih read)
  case case6 escape _ _ ih =>
    exact ((Cursor.reaches_drop _ _).trans (readEscape_reaches escape)).trans (ih read)
  case case7 | case8 =>
    cases read
    exact Cursor.reaches_drop _ _
  case case9 ih => exact (Cursor.reaches_drop _ _).trans (ih read)
  case case10 ih => exact (Cursor.reaches_drop _ _).trans (ih read)
  all_goals cases read

/-- What a text may lack outside of brackets: closing quotes, or what a backslash at its very end
joins to its line. -/
def Lacks (missing : Missing) (text : List Char) : Prop :=
  missing = .closingQuotes ∨ missing = .continuation ∧ ['\\'] <:+ text

theorem Lacks.of_suffix {missing : Missing} {text text' : List Char} (lacks : Lacks missing text)
    (suffix : text <:+ text') : Lacks missing text' := by
  rcases lacks with quotes | ⟨continuation, last⟩
  · exact .inl quotes
  · exact .inr ⟨continuation, last.trans suffix⟩

theorem readBody_lacks {o : Opening} {seen : List Char} {error : SyntaxError} {missing : Missing}
    (failed : readBody o seen c = .error error) (lacks : error.fault.missing? = some missing) :
    Lacks missing c.rest := by
  fun_induction readBody o seen c
  case case1 =>
    cases failed
    by_cases triple : o.triple = true
    · simp_all [Lacks, SyntaxError.of, SyntaxFault.missing?]
    · simp_all [SyntaxError.of, SyntaxFault.missing?]
  case case3 seen c tail last cons inline =>
    cases failed
    by_cases triple : o.triple = true
    · simp_all [Lacks, SyntaxError.of, SyntaxFault.missing?]
    · have nothing : tail = [] := by simpa [cons] using last
      subst nothing
      rw [cons]
      simp_all [Lacks, SyntaxError.of, SyntaxFault.missing?]
  case case4 ih =>
    exact (ih failed).of_suffix (Cursor.suffix_drop _ _)
  case case5 escape _ _ =>
    cases failed
    have final := readEscape_final escape
    simp [SyntaxError.isIncomplete, lacks] at final
  case case6 escape _ _ ih =>
    exact (ih failed).of_suffix ((Cursor.reaches_drop _ _).trans (readEscape_reaches escape)).suffix
  case case9 ih =>
    exact (ih failed).of_suffix (Cursor.suffix_drop _ _)
  case case10 ih =>
    exact (ih failed).of_suffix (Cursor.suffix_drop _ _)
  all_goals
    cases failed
    try cases lacks

theorem readString_reaches {raw : Bool} {start : Position} {text : List Char} {after : Cursor}
    (read : readString raw start c = .ok (text, after)) : c.Reaches after := by
  unfold readString at read
  split at read
  · exact (c.reaches_drop _).trans (readBody_reaches read)
  · cases read

theorem readString_lacks {raw : Bool} {start : Position} {error : SyntaxError} {missing : Missing}
    (failed : readString raw start c = .error error) (lacks : error.fault.missing? = some missing) :
    Lacks missing c.rest := by
  unfold readString at failed
  split at failed
  · exact (readBody_lacks failed lacks).of_suffix (Cursor.suffix_drop _ _)
  · cases failed
    cases lacks

/-- One numeral within the text, or a failure at a place in there that no text can help. -/
def IsNumeral (c : Cursor) (r : Except SyntaxError (TokenKind × Cursor)) : Prop :=
  (∃ kind after, r = .ok (kind, after) ∧ c.Reaches after ∧
    ((∃ n, kind = .int n) ∨ ∃ x, kind = .float x)) ∨
  ∃ fault place, SyntaxFault.missing? fault = none ∧ c.Reaches place ∧
    r = .error (.of fault place.pos)

theorem IsNumeral.checked {r : Except SyntaxError (TokenKind × Cursor)} (h : IsNumeral c r) {n : Nat} :
    IsNumeral c (checkNumeralEnd (c.drop n) >>= fun _ => r) := by
  unfold checkNumeralEnd
  split
  · split
    · exact .inr ⟨_, _, rfl, c.reaches_drop n, rfl⟩
    · exact h
  · exact h

theorem readNumeral_cases (c : Cursor) : IsNumeral c (readNumeral c) := by
  unfold readNumeral
  split
  · unfold readRadix
    dsimp only
    split
    · exact .inr ⟨_, c, rfl, .refl c, rfl⟩
    · refine IsNumeral.checked ?_
      exact .inl ⟨_, _, rfl, c.reaches_drop _, .inl ⟨_, rfl⟩⟩
  · unfold readDecimal
    refine IsNumeral.checked ?_
    split
    · split
      · exact .inl ⟨_, _, rfl, c.reaches_drop _, .inl ⟨_, rfl⟩⟩
      · exact .inr ⟨_, c, rfl, .refl c, rfl⟩
    · split
      · exact .inl ⟨_, _, rfl, c.reaches_drop _, .inr ⟨_, rfl⟩⟩
      · exact .inr ⟨_, c, rfl, .refl c, rfl⟩

end Console.Token
