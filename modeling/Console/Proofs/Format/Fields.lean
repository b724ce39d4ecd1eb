import Console.Proofs.Format.Integers

/-!
# Whole numbers in fields

A format with a percent sign and one with braces that ask for the same width and the same filling write
a whole number alike. What they write fills the field, and the number is read back from it.
-/

namespace Console.Format

/-- How a whole number is put into its field. -/
inductive Filling
  | right
  | zeros
  | left
  deriving DecidableEq

namespace Filling

def alignment : Filling → Alignment
  | right => .right
  | zeros => .zeros
  | left => .left

/-- What asks for a filling behind a percent sign. -/
def flag : Filling → String
  | right => ""
  | zeros => "0"
  | left => "-"

/-- What asks for a filling behind a colon. -/
def mark : Filling → String
  | right => ""
  | zeros => "0"
  | left => "<"

end Filling

variable {caller : Caller} {m : Machine} {n : Int64} {w : Nat}

theorem pad_zeros (width : Nat) (n : Int) :
    pad .zeros width (toString n).toList = (if n < 0 then ['-'] else []) ++
      (List.replicate (width - (toString n).toList.length) '0' ++ Nat.toDigits 10 n.natAbs) := by
  have written := Decimal.toList_toString n
  obtain ⟨d, digits, same, digit⟩ := Decimal.toDigits_eq_cons n.natAbs
  by_cases negative : n < 0
  · rw [if_pos negative] at written ⊢
    simp only [pad, written, List.singleton_append]
  · rw [if_neg negative, List.nil_append] at written
    have unsigned : d ≠ '-' := by
      rintro rfl
      simp at digit
    simp only [pad, written, negative, if_false, List.nil_append]
    rw [same]
    split
    · next found =>
      cases found
      exact absurd rfl unsigned
    · rfl

/-- A number is read back from its field, however that is filled. -/
theorem readInt64?_pad (alignment : Alignment) (width : Nat) (n : Int64) :
    Decimal.readInt64? 10 (Text.trim (pad alignment width (decimal n).toList)) = some n := by
  have spaces (k : Nat) : Text.allBlank (List.replicate k ' ') = true := by
    simp [Text.allBlank]
    exact .inr (by decide)
  have nothing : Text.allBlank [] = true := rfl
  have reads := readInt64?_decimal n
  cases alignment with
  | left => simpa [pad] using readInt64?_trim reads nothing (spaces _)
  | right => simpa [pad] using readInt64?_trim reads (spaces _) nothing
  | center => exact readInt64?_trim reads (spaces _) (spaces _)
  | zeros =>
    have magnitude : Decimal.readNat? 10 (Nat.toDigits 10 n.toInt.natAbs) = some n.toInt.natAbs :=
      Decimal.readNat?_toDigits (by decide) (by decide) _
    have digits := Decimal.readNat?_zeros (by decide) (width - (toString n.toInt).toList.length) magnitude
    have padded := readInt64?_trim (Decimal.readInt64?_signed digits) nothing nothing
    rwa [List.nil_append, List.append_nil, ← pad_zeros] at padded

theorem first_digit_ne_zero (positive : 0 < w) : (Nat.toDigits 10 w).head? ≠ some '0' := by
  induction w using Nat.strongRecOn with
  | ind w ih =>
    rw [Nat.toDigits_eq_if (by decide)]
    by_cases single : w < 10
    · rw [if_pos single]
      interval_cases w <;> decide
    · have begins := ih (w / 10) (by omega) (by omega)
      rw [if_neg single, List.head?_append_of_ne_nil _ Nat.toDigits_ne_nil]
      exact begins

/-- A width neither begins with a zero nor with a sign of its alignment. -/
theorem width_begins (positive : 0 < w) :
    ∃ d digits, Nat.toDigits 10 w = d :: digits ∧ d.isDigit = true ∧ d ≠ '0' := by
  obtain ⟨d, digits, same, digit⟩ := Decimal.toDigits_eq_cons w
  have zero := first_digit_ne_zero positive
  refine ⟨d, digits, same, digit, ?_⟩
  rintro rfl
  simp [same] at zero

namespace Percent

theorem pieces_filling (positive : 0 < w) (filling : Filling) :
    pieces ("%" ++ filling.flag ++ toString w ++ "d").toList =
      [.directive ⟨filling = .left, filling = .zeros, w, none, 'd'⟩] := by
  obtain ⟨d, digits, same, digit, zero⟩ := width_begins positive
  have flagged : ∀ c ∈ filling.flag.toList, isFlag c = true := by
    cases filling <;> simp [Filling.flag] <;> decide
  have first : ∀ c ∈ (Nat.toDigits 10 w).head?, isFlag c = false := by
    rw [same]
    rintro _ ⟨⟩
    have sign : d ≠ '-' := by
      rintro rfl
      simp at digit
    simp [isFlag, sign, zero]
  have letter : 'd'.isAlpha = true := by decide
  have read := pieces_directive flagged (Decimal.isDigit_toDigits w) first letter
  rw [Nat.ofDigitChars_ten_toDigits] at read
  have text : ("%" ++ filling.flag ++ toString w ++ "d").toList =
      '%' :: (filling.flag.toList ++ (Nat.toDigits 10 w ++ ['d'])) := by
    simp [Nat.toString_eq_repr]
  rw [text, read]
  cases filling <;> rfl

end Percent

namespace Braces

/-- A field that is closed. -/
theorem pieces_field {s rest : List Char} (closed : '\x7d' ∉ s) (single : s.head? ≠ some '\x7b') :
    pieces ('\x7b' :: (s ++ '\x7d' :: rest)) = .field (.ofText s) :: pieces rest := by
  have inside : ∀ c ∈ s, (c != '\x7d') = true := by
    intro c mem
    simpa using ne_of_mem_of_not_mem mem closed
  have taken : (s ++ '\x7d' :: rest).takeWhile (· != '\x7d') = s := by
    rw [List.takeWhile_append_of_pos inside]
    simp
  have dropped : (s ++ '\x7d' :: rest).dropWhile (· != '\x7d') = '\x7d' :: rest := by
    rw [List.dropWhile_append_of_pos inside]
    simp
  rw [pieces]
  · split
    · next none => simp [dropped] at none
    · next found =>
      rw [dropped] at found
      cases found
      rw [taken]
  · intro r doubled
    cases s with
    | nil => cases doubled
    | cons c s =>
      cases doubled
      simp at single

/-- A field without name and conversion. -/
theorem ofText_colon (spec : List Char) : Field.ofText (':' :: spec) = ⟨[], none, spec⟩ := rfl

theorem readCount?_append {digits rest : List Char} (some_digit : digits ≠ [])
    (all : ∀ c ∈ digits, c.isDigit = true) (stops : ∀ c ∈ rest.head?, c.isDigit = false)
    (counts : Nat.ofDigitChars 10 digits 0 ≤ maxCount) :
    readCount? (digits ++ rest) = (some (Nat.ofDigitChars 10 digits 0), rest) := by
  have taken : (digits ++ rest).takeWhile Char.isDigit ≠ [] := by
    rw [List.takeWhile_append_of_pos all]
    simp [some_digit]
  rw [readCount?, readWidth_append all stops]
  simp [taken, Nat.not_lt.2 counts]

theorem spec_filling (positive : 0 < w) (counts : w ≤ maxCount) (filling : Filling) :
    Spec.ofText (filling.mark.toList ++ (Nat.toDigits 10 w ++ ['d'])) =
      ⟨if filling = .left then some .left else none, filling = .zeros, w, none, ['d']⟩ := by
  obtain ⟨d, digits, same, digit, zero⟩ := width_begins positive
  have value : Nat.ofDigitChars 10 (Nat.toDigits 10 w) 0 = w := Nat.ofDigitChars_ten_toDigits
  have all := Decimal.isDigit_toDigits w
  have unaligned : alignmentOf? d = none := by
    unfold alignmentOf?
    split <;> first | rfl | simp at digit
  rw [same] at value all ⊢
  -- a zero that asks for zeros is read again as the first digit of the width, which it does not change
  have value' : Nat.ofDigitChars 10 ('0' :: d :: digits) 0 = w := value
  have stops : ∀ c ∈ ['d'].head?, c.isDigit = false := by simp
  have plain : readCount? (d :: (digits ++ ['d'])) = (some w, ['d']) := by
    rw [← List.cons_append, readCount?_append (by simp) all stops (by rwa [value]), value]
  have zeros : readCount? ('0' :: d :: (digits ++ ['d'])) = (some w, ['d']) := by
    rw [← List.cons_append, ← List.cons_append, readCount?_append (by simp) (by simpa using all) stops
      (by rwa [value']), value']
  cases filling with
  | right => simp [Spec.ofText, Filling.mark, unaligned, plain, zero]
  | zeros => simp [Spec.ofText, Filling.mark, alignmentOf?, zeros]
  | left => simp [Spec.ofText, Filling.mark, alignmentOf?, plain, zero]

variable {text : String} {spec : List Char}

/-- A format that is a field for a whole number. -/
theorem run_whole (read : pieces text.toList = [.field ⟨[], none, spec⟩]) (filled : spec ≠ [])
    (whole : (Spec.ofText spec).type = ['d']) (caller : Caller) (n : Int64) (m : Machine) :
    StrMethod.call caller text .format ⟨[.int n], []⟩ m = .ok (.str (String.ofList
      (pad ((Spec.ofText spec).alignmentFor true) (Spec.ofText spec).width (decimal n).toList))) m := by
  have format : StrMethod.call caller text .format ⟨[.int n], []⟩ =
      (do return .str (← Braces.format caller text ⟨[.int n], []⟩)) := rfl
  have converted : convert caller spec (Spec.ofText spec) (.int n) = pure (decimal n).toList := by
    simp [convert, Value.asNumber?, whole]
  have written : write caller ⟨[], none, spec⟩ (.int n) = applySpec caller spec (.int n) := by
    simp [write, filled]
  have first : argument ⟨[.int n], []⟩ 0 [] = .ok (.int n) := rfl
  have answer : Braces.format caller text ⟨[.int n], []⟩ m = .ok (String.ofList
      (pad ((Spec.ofText spec).alignmentFor true) (Spec.ofText spec).width (decimal n).toList)) m := by
    rw [Braces.format, read, fill, first, Eval.ofFault, pure_bind, written, applySpec, converted,
      pure_bind, pure_bind, fill, List.append_nil, List.reverse_reverse]
    rfl
  rw [format, Eval.run_bind answer]
  rfl

theorem pieces_filling (filling : Filling) :
    pieces ("\x7b:" ++ filling.mark ++ toString w ++ "d\x7d").toList =
      [.field ⟨[], none, filling.mark.toList ++ (Nat.toDigits 10 w ++ ['d'])⟩] := by
  have digits := Decimal.isDigit_toDigits w
  have text : ("\x7b:" ++ filling.mark ++ toString w ++ "d\x7d").toList =
      '\x7b' :: ((':' :: (filling.mark.toList ++ (Nat.toDigits 10 w ++ ['d']))) ++ ['\x7d']) := by
    simp [Nat.toString_eq_repr]
  have closed : '\x7d' ∉ ':' :: (filling.mark.toList ++ (Nat.toDigits 10 w ++ ['d'])) := by
    have apart : '\x7d' ∉ Nat.toDigits 10 w := fun mem => absurd (digits _ mem) (by decide)
    cases filling <;> simp [Filling.mark, apart]
  rw [text, pieces_field closed (by simp), ofText_colon]
  simp [pieces]

end Braces

/-- Both languages write a whole number alike in a field of the same width and filling: the field is full,
and the number is read back from it. -/
theorem fields_of_integers_agree (caller : Caller) (m : Machine) (n : Int64) {w : Nat}
    (positive : 0 < w) (counts : w ≤ Braces.maxCount) (filling : Filling) :
    ∃ plain text : String,
      Builtin.call caller .str ⟨[.int n], []⟩ m = .ok (.str plain) m ∧
      Eval.binary caller .mod (.str ("%" ++ filling.flag ++ toString w ++ "d")) (.int n) m =
        .ok (.str text) m ∧
      StrMethod.call caller ("\x7b:" ++ filling.mark ++ toString w ++ "d\x7d") .format ⟨[.int n], []⟩ m =
        .ok (.str text) m ∧
      text.length = max w plain.length ∧
      Builtin.call caller .int ⟨[.str text], []⟩ m = .ok (.int n) m := by
  let text := String.ofList (pad filling.alignment w (decimal n).toList)
  have percent : Eval.binary caller .mod (.str ("%" ++ filling.flag ++ toString w ++ "d")) (.int n) m =
      .ok (.str text) m := by
    rw [Percent.run_whole (Percent.pieces_filling positive filling) (.inl rfl)]
    cases filling <;> rfl
  have braces : StrMethod.call caller ("\x7b:" ++ filling.mark ++ toString w ++ "d\x7d") .format
      ⟨[.int n], []⟩ m = .ok (.str text) m := by
    have spec := Braces.spec_filling positive counts filling
    rw [Braces.run_whole (Braces.pieces_filling filling) (by simp) (by rw [spec]), spec]
    cases filling <;> rfl
  refine ⟨decimal n, text, (call_text caller n m).1, percent, braces, ?_, ?_⟩
  · rw [String.length_ofList, length_pad, String.length_toList]
  · refine call_int none rfl ?_
    rw [String.toList_ofList]
    exact readInt64?_pad filling.alignment w n

theorem zeros_stand_behind_the_sign :
    let caller : Caller := ⟨fun _ _ => Eval.exhausted, 0⟩
    0 < 7 ∧ 7 ≤ Braces.maxCount ∧
    Eval.binary caller .mod (.str "%07d") (.int (-42)) .fresh = .ok (.str "-000042") .fresh ∧
    StrMethod.call caller "\x7b:07d\x7d" .format ⟨[.int (-42)], []⟩ .fresh =
      .ok (.str "-000042") .fresh ∧
    "-000042".length = 7 ∧
    Builtin.call caller .int ⟨[.str "-000042"], []⟩ .fresh = .ok (.int (-42)) .fresh := by
  intro caller
  have positive : 0 < 7 := by decide
  have counts : 7 ≤ Braces.maxCount := by decide
  obtain ⟨plain, text, -, percent, braces, -, back⟩ :=
    fields_of_integers_agree caller .fresh (-42) positive counts .zeros
  have padded : String.ofList (pad .zeros 7 (decimal (-42)).toList) = "-000042" := by decide
  have known : Eval.binary caller .mod (.str "%07d") (.int (-42)) .fresh =
      .ok (.str (String.ofList (pad .zeros 7 (decimal (-42)).toList))) .fresh :=
    Percent.run_whole (Percent.pieces_filling positive .zeros) (.inl rfl)
  obtain rfl : text = "-000042" := by
    rw [← padded]
    exact Value.str.inj (EStateM.Result.ok.inj (percent.symm.trans known)).1
  exact ⟨positive, counts, percent, braces, by decide, back⟩

end Console.Format
