import Console.Token
import Console.SyntaxError
import Console.Decimal.Reading
import Console.Text.Letters

/-!
# Numerals and string literals

Reading one literal at a cursor: its value and the cursor behind it, or the error.
-/

namespace Console.Token

open Text

/-- The radix that a leading zero and a letter announce. -/
def announcedRadix? : List Char → Option Nat
  | '0' :: c :: _ =>
    if c = 'x' ∨ c = 'X' then some 16
    else if c = 'o' ∨ c = 'O' then some 8
    else if c = 'b' ∨ c = 'B' then some 2
    else none
  | _ => none

/-- Digits of a radix, with underscores anywhere among them. -/
def isDigitOrGap (radix : Nat) (c : Char) : Bool :=
  (Decimal.digitValue? radix c).isSome || c == '_'

/-- The exponent at the start of a text: `e`, a sign or none, and digits; nothing if no digit
follows. -/
def exponentLexeme (s : List Char) : List Char :=
  match s with
  | e :: s' =>
    if e = 'e' ∨ e = 'E' then
      let sign := s'.takeWhile (fun c => c == '+' || c == '-') |>.take 1
      let digits := (s'.drop sign.length).takeWhile Char.isDigit
      if digits.isEmpty then [] else e :: sign ++ digits
    else []
  | [] => []

/-- The fraction at the start of a text: a point and digits, or nothing. -/
def fractionLexeme : List Char → List Char
  | '.' :: s => '.' :: s.takeWhile (isDigitOrGap 10)
  | _ => []

/-- No letter, numeral or underscore may follow a numeral. -/
def checkNumeralEnd (c : Cursor) : Except SyntaxError Unit :=
  match c.peek? with
  | some ch => if isNamePart ch then .error (.of .invalidSyntax c.pos) else .ok ()
  | none => .ok ()

def withoutGaps (s : List Char) : List Char := s.filter (· ≠ '_')

/-- A numeral with an announced radix; its sign, if any, is not part of it. -/
def readRadix (radix : Nat) (c : Cursor) : Except SyntaxError (TokenKind × Cursor) := do
  let digits := (c.rest.drop 2).takeWhile (isDigitOrGap radix)
  let after := c.drop (2 + digits.length)
  match Decimal.readInt64? radix (withoutGaps digits) with
  | none => .error (.of .invalidInteger c.pos)
  | some n =>
    checkNumeralEnd after
    .ok (.int n, after)

/-- A decimal numeral; a point or an exponent makes it a fraction. -/
def readDecimal (c : Cursor) : Except SyntaxError (TokenKind × Cursor) := do
  let whole := c.rest.takeWhile (isDigitOrGap 10)
  let fraction := fractionLexeme (c.rest.drop whole.length)
  let exponent := exponentLexeme (c.rest.drop (whole.length + fraction.length))
  let lexeme := whole ++ fraction ++ exponent
  let after := c.drop lexeme.length
  checkNumeralEnd after
  if fraction.isEmpty && exponent.isEmpty then
    match Decimal.readInt64? 10 (withoutGaps lexeme) with
    | some n => .ok (.int n, after)
    | none => .error (.of .integerTooLarge c.pos)
  else
    match Decimal.readDouble? (withoutGaps lexeme) with
    | some x => .ok (.float x, after)
    | none => .error (.of .invalidFloat c.pos)

/-- The numeral at a digit, or at a point before a digit. -/
def readNumeral (c : Cursor) : Except SyntaxError (TokenKind × Cursor) :=
  match announcedRadix? c.rest with
  | some radix => readRadix radix c
  | none => readDecimal c

/-- Escapes of one letter and the character that each stands for. -/
def letterEscapes : List (Char × Char) :=
  [('n', '\n'), ('t', '\t'), ('r', '\r'), ('0', '\x00'), ('a', '\x07'), ('b', '\x08'),
   ('f', '\x0c'), ('v', '\x0b'), ('\\', '\\'), ('\x27', '\x27'), ('\x22', '\x22')]

/-- Whether a number is a Unicode scalar value. -/
def isScalar (n : Nat) : Bool := n < 0xD800 || (0xE000 ≤ n && n < 0x110000)

/-- The character that exactly `width` hexadecimal digits name. -/
def readHex (width : Nat) (c : Cursor) : Except SyntaxError (List Char × Cursor) :=
  let digits := (c.rest.take width).takeWhile fun d => (Decimal.digitValue? 16 d).isSome
  let after := c.drop digits.length
  if digits.length < width then .error (.of .truncatedEscape after.pos)
  else
    match Decimal.readNat? 16 digits with
    | some n =>
      if isScalar n then .ok ([Char.ofNat n], after) else .error (.of .invalidEscape after.pos)
    | none => .error (.of .invalidEscape after.pos)

/-- What a backslash and `c` stand for, the cursor being behind both. A letter with no meaning of
its own keeps its backslash; an escaped line end stands for nothing. -/
def readEscape (c : Char) (after : Cursor) : Except SyntaxError (List Char × Cursor) :=
  if c = '\n' then .ok ([], after)
  else if c = 'x' then readHex 2 after
  else if c = 'u' then readHex 4 after
  else
    match letterEscapes.lookup c with
    | some meant => .ok ([meant], after)
    | none => .ok (['\\', c], after)

theorem length_readHex_le {width : Nat} {c after : Cursor} {text : List Char}
    (h : readHex width c = .ok (text, after)) : after.rest.length ≤ c.rest.length := by
  unfold readHex at h
  dsimp only at h
  split at h
  · cases h
  · split at h
    · split at h
      · cases h; simp
      · cases h
    · cases h

theorem length_readEscape_le {ch : Char} {c after : Cursor} {text : List Char}
    (h : readEscape ch c = .ok (text, after)) : after.rest.length ≤ c.rest.length := by
  unfold readEscape at h
  split at h
  · cases h; exact Nat.le_refl _
  · split at h
    · exact length_readHex_le h
    · split at h
      · exact length_readHex_le h
      · split at h <;> cases h <;> exact Nat.le_refl _

/-- How a string literal was opened. -/
structure Opening where
  mark : Char
  triple : Bool
  raw : Bool
  /-- Where the literal starts. -/
  pos : Position

/-- The rest of a literal behind its opening quotes; `seen` is its value so far, reversed. -/
def readBody (o : Opening) (seen : List Char) (c : Cursor) :
    Except SyntaxError (List Char × Cursor) :=
  match _ : c.rest with
  | [] =>
    .error (.of (if o.triple then .incomplete .closingQuotes else .unterminatedString) o.pos)
  | ch :: _ =>
    if ch = '\n' ∧ !o.triple then .error (.of .unterminatedString o.pos)
    else if ch = '\\' then
      match (c.drop 1).rest with
      | [] =>
        .error (.of (.incomplete (if o.triple then .closingQuotes else .continuation))
          (c.drop 1).pos)
      | next :: _ =>
        if o.raw then readBody o (next :: '\\' :: seen) (c.drop 2)
        else
          match _ : readEscape next (c.drop 2) with
          | .error e => .error e
          | .ok (text, after) => readBody o (text.reverse ++ seen) after
    else if ch = o.mark then
      if !o.triple then .ok (seen.reverse, c.drop 1)
      else if [o.mark, o.mark].isPrefixOf (c.drop 1).rest then .ok (seen.reverse, c.drop 3)
      else readBody o (ch :: seen) (c.drop 1)
    else readBody o (ch :: seen) (c.drop 1)
termination_by c.rest.length
decreasing_by
  · simp only [Cursor.rest_drop, List.length_drop, ‹c.rest = _›, List.length_cons]; omega
  · have := length_readEscape_le ‹_›
    simp [‹c.rest = _›] at this ⊢; omega
  · simp [‹c.rest = _›]
  · simp [‹c.rest = _›]

/-- The literal at a quote, `start` being where its marks, if any, start. -/
def readString (raw : Bool) (start : Position) (c : Cursor) :
    Except SyntaxError (List Char × Cursor) :=
  match c.rest with
  | mark :: rest =>
    let triple := [mark, mark].isPrefixOf rest
    readBody ⟨mark, triple, raw, start⟩ [] (c.drop (if triple then 3 else 1))
  | [] => .error (.of .invalidSyntax c.pos)

theorem length_readBody_le {o : Opening} {seen text : List Char} {c after : Cursor}
    (h : readBody o seen c = .ok (text, after)) : after.rest.length ≤ c.rest.length := by
  fun_induction readBody o seen c <;> simp_all
  · omega
  · have := length_readEscape_le ‹readEscape _ _ = _›
    simp_all; omega
  · obtain ⟨_, rfl⟩ := h; simp_all
  · obtain ⟨_, rfl⟩ := h; simp_all; omega
  · omega
  · omega

theorem length_readString_lt {raw : Bool} {start : Position} {c after : Cursor} {text : List Char}
    (h : readString raw start c = .ok (text, after)) : after.rest.length < c.rest.length := by
  unfold readString at h
  split at h
  · rename_i rest
    have := length_readBody_le h
    simp only [Cursor.rest_drop, rest, List.length_drop, List.length_cons] at this ⊢
    split at this <;> omega
  · cases h

/-- A digit, or a point before a digit. -/
def startsNumeral : List Char → Bool
  | '.' :: d :: _ => d.isDigit
  | c :: _ => c.isDigit
  | [] => false

private theorem length_takeWhile_pos {p : Char → Bool} {c : Char} {s : List Char}
    (h : p c = true) : 0 < ((c :: s).takeWhile p).length := by simp [h]

theorem isDigitOrGap_of_isDigit {c : Char} (h : c.isDigit = true) : isDigitOrGap 10 c = true := by
  have upper : c.toNat ≤ 57 := by
    simp only [Char.isDigit, Bool.and_eq_true, decide_eq_true_eq] at h
    exact h.2
  have small : c.toNat - '0'.toNat < 10 := by
    have : '0'.toNat = 48 := rfl
    omega
  unfold isDigitOrGap Decimal.digitValue?
  rw [if_pos h]
  simp only [if_pos small, Option.isSome_some, Bool.true_or]

theorem length_readNumeral_lt {c after : Cursor} {kind : TokenKind}
    (h : readNumeral c = .ok (kind, after)) (starts : startsNumeral c.rest = true) :
    after.rest.length < c.rest.length := by
  have nonempty : 0 < c.rest.length := by
    cases rest : c.rest <;> simp [rest, startsNumeral] at starts ⊢
  have dropped {n : Nat} (pos : 0 < n) : (c.drop n).rest.length < c.rest.length := by
    simp; omega
  unfold readNumeral at h
  split at h
  · unfold readRadix at h
    dsimp only at h
    split at h
    · cases h
    · simp only [bind, Except.bind] at h
      split at h
      · cases h
      · cases h; exact dropped (by omega)
  · unfold readDecimal at h
    simp only [bind, Except.bind] at h
    split at h
    · cases h
    · have pos : 0 < (c.rest.takeWhile (isDigitOrGap 10) ++
          fractionLexeme (c.rest.drop (c.rest.takeWhile (isDigitOrGap 10)).length) ++
          exponentLexeme (c.rest.drop ((c.rest.takeWhile (isDigitOrGap 10)).length +
            (fractionLexeme (c.rest.drop (c.rest.takeWhile (isDigitOrGap 10)).length)).length))
          ).length := by
        match rest : c.rest with
        | [] => simp [rest] at nonempty
        | first :: others =>
          rw [rest] at starts
          by_cases point : first = '.'
          · subst point
            have : isDigitOrGap 10 '.' = false := by decide
            simp [this, fractionLexeme]
          · have digit : first.isDigit = true := by
              unfold startsNumeral at starts
              split at starts <;> simp_all
            have := length_takeWhile_pos (s := others) (isDigitOrGap_of_isDigit digit)
            simp only [List.length_append]; omega
      split at h
      · split at h
        · cases h; exact dropped pos
        · cases h
      · split at h
        · cases h; exact dropped pos
        · cases h

end Console.Token
