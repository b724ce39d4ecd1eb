import Console.Builtin.Call
import Console.Proofs.Decimal
import Console.Proofs.Printing
import Console.Proofs.Text.Words

/-!
# Whole numbers and their texts

A whole number is read back from what `str`, `repr` and the formats `%d` and `%x` write for it, with or
without blanks around that.
-/

namespace Console

namespace Format

theorem isAlpha_iff {c : Char} :
    c.isAlpha = true ↔ (65 ≤ c.toNat ∧ c.toNat ≤ 90) ∨ (97 ≤ c.toNat ∧ c.toNat ≤ 122) := by
  have cases : c.isAlpha = (decide (c.val ≥ 'A'.val ∧ c.val ≤ 'Z'.val) ||
      (decide (c.val ≥ 'a'.val) && decide (c.val ≤ 'z'.val))) := rfl
  rw [cases]
  simp only [Bool.or_eq_true, Bool.and_eq_true, decide_eq_true_eq, ge_iff_le, UInt32.le_iff_toNat_le]
  rfl

/-- A text that fills its field stays as it is. -/
theorem pad_of_le {alignment : Alignment} {width : Nat} {text : List Char}
    (long : width ≤ text.length) : pad alignment width text = text := by
  have missing : width - text.length = 0 := by omega
  cases alignment with
  | left | right | center => simp [pad, missing]
  | zeros =>
    simp only [pad, missing, List.replicate_zero, List.nil_append]
    split <;> rfl

theorem readWidth_append {digits rest : List Char} (all : ∀ c ∈ digits, c.isDigit = true)
    (stops : ∀ c ∈ rest.head?, c.isDigit = false) :
    readWidth (digits ++ rest) = (Nat.ofDigitChars 10 digits 0, rest) := by
  have ended : rest.takeWhile Char.isDigit = [] ∧ rest.dropWhile Char.isDigit = rest := by
    cases rest with
    | nil => simp
    | cons c rest => simpa using stops c rfl
  rw [readWidth, List.takeWhile_append_of_pos all, List.dropWhile_append_of_pos all, ended.1, ended.2,
    List.append_nil, Nat.ofDigitChars_eq_foldl]

namespace Percent

/-- A letter ends flags, width and precision. -/
theorem stops_at_letter {c : Char} (letter : c.isAlpha = true) :
    c.isDigit = false ∧ isFlag c = false ∧ c ≠ '.' ∧ c ≠ '%' := by
  have noDigit : c.isDigit = false := by
    rw [Bool.eq_false_iff]
    intro digit
    rw [isAlpha_iff] at letter
    rw [Char.isDigit_iff_toNat] at digit
    have nine : '9'.toNat = 57 := rfl
    omega
  have other {d : Char} (no : d.isAlpha = false) : c ≠ d := by
    rintro rfl
    simp [no] at letter
  refine ⟨noDigit, ?_, other (by decide), other (by decide)⟩
  simp [isFlag, other (d := '-') (by decide), other (d := '0') (by decide)]

theorem pieces_percent {rest after : List Char} {conversion : Char}
    (head : (readHead rest).2 = conversion :: after) (other : conversion ≠ '%') :
    pieces ('%' :: rest) = .directive ((readHead rest).1 conversion) :: pieces after := by
  rw [pieces]
  simp only [ne_eq, not_true_eq_false, if_false]
  split
  · next broken => simp [head] at broken
  · next found =>
    rw [head] at found
    cases found
    rw [if_neg other]

/-- Flags, a width and a letter. -/
theorem pieces_directive {flags width : List Char} {conversion : Char}
    (flagged : ∀ c ∈ flags, isFlag c = true) (digits : ∀ c ∈ width, c.isDigit = true)
    (first : ∀ c ∈ width.head?, isFlag c = false) (letter : conversion.isAlpha = true) :
    pieces ('%' :: (flags ++ (width ++ [conversion]))) =
      [.directive ⟨flags.contains '-', flags.contains '0', Nat.ofDigitChars 10 width 0, none,
        conversion⟩] := by
  obtain ⟨noDigit, noFlag, noPoint, noPercent⟩ := stops_at_letter letter
  have behind : (width ++ [conversion]).takeWhile isFlag = [] ∧
      (width ++ [conversion]).dropWhile isFlag = width ++ [conversion] := by
    cases width with
    | nil => simp [noFlag]
    | cons c width => simpa using first c rfl
  have count : readWidth (width ++ [conversion]) =
      (Nat.ofDigitChars 10 width 0, [conversion]) := readWidth_append digits (by simp [noDigit])
  have head : readHead (flags ++ (width ++ [conversion])) = (fun c => ⟨flags.contains '-',
      flags.contains '0', Nat.ofDigitChars 10 width 0, none, c⟩, [conversion]) := by
    rw [readHead, List.takeWhile_append_of_pos flagged, List.dropWhile_append_of_pos flagged,
      behind.1, behind.2, count, List.append_nil]
    simp [readPrecision, noPoint]
  rw [pieces_percent (by rw [head]) noPercent, head]
  simp [pieces]

variable {caller : Caller} {m : Machine} {n : Int64} {text : String} {d : Directive}

/-- A format that is a directive for a whole number. -/
theorem run_whole (read : pieces text.toList = [.directive d])
    (whole : d.conversion = 'd' ∨ d.conversion = 'x') :
    Eval.binary caller .mod (.str text) (.int n) m = .ok (.str (String.ofList (pad d.alignment d.width
      (if d.conversion = 'x' then hexadecimal n else decimal n).toList))) m := by
  have format : Eval.binary caller .mod (.str text) (.int n) =
      (do return .str (← format caller text (.int n))) := rfl
  have convert : convert caller d (.int n) =
      pure (if d.conversion = 'x' then hexadecimal n else decimal n).toList := by
    rcases whole with conversion | conversion <;> simp [Percent.convert, conversion] <;> rfl
  have filled : Percent.format caller text (.int n) m = .ok (String.ofList (pad d.alignment d.width
      (if d.conversion = 'x' then hexadecimal n else decimal n).toList)) m := by
    have single : spread (.int n) = pure [.int n] := rfl
    rw [Percent.format, single, pure_bind, read, fill, convert, pure_bind, fill, List.append_nil,
      List.reverse_reverse]
    rfl
  rw [format, Eval.run_bind filled]
  rfl

end Percent

theorem toList_hexadecimal (n : Int64) :
    (hexadecimal n).toList = (if n.toInt < 0 then ['-'] else []) ++ Nat.toDigits 16 n.toInt.natAbs := by
  have sign : n < 0 ↔ n.toInt < 0 := Int64.lt_iff_toInt_lt
  by_cases negative : n.toInt < 0 <;> simp [hexadecimal, sign, negative]

theorem readInt64?_decimal (n : Int64) : Decimal.readInt64? 10 (decimal n).toList = some n := by
  rw [decimal, Decimal.toList_toString]
  exact Decimal.readInt64?_signed (Decimal.readNat?_toDigits (by decide) (by decide) _)

theorem readInt64?_hexadecimal (n : Int64) :
    Decimal.readInt64? 16 (hexadecimal n).toList = some n := by
  rw [toList_hexadecimal]
  exact Decimal.readInt64?_signed (Decimal.readNat?_toDigits (by decide) (by decide) _)

theorem isBlank_of_isAlphanum {c : Char} (alphanumeric : c.isAlphanum = true) :
    Text.isBlank c = false := by
  have range : 48 ≤ c.toNat ∧ c.toNat ≤ 122 := by
    rcases Bool.or_eq_true_iff.1 alphanumeric with letter | digit
    · rw [isAlpha_iff] at letter
      omega
    · rw [Char.isDigit_iff_toNat] at digit
      have zero : '0'.toNat = 48 := rfl
      have nine : '9'.toNat = 57 := rfl
      omega
  simp [Text.isBlank]
  omega

/-- Blanks around a number change nothing. -/
theorem readInt64?_trim {radix : Nat} {before s after : List Char} {n : Int64}
    (reads : Decimal.readInt64? radix s = some n) (blank : Text.allBlank before = true)
    (blank' : Text.allBlank after = true) :
    Decimal.readInt64? radix (Text.trim (before ++ s ++ after)) = some n := by
  have unblank : ∀ c ∈ s, Text.isBlank c = false := by
    intro c mem
    rcases Decimal.isAlphanum_of_readInt64? reads c mem with rfl | rfl | alphanumeric
    · decide
    · decide
    · exact isBlank_of_isAlphanum alphanumeric
  rw [Text.trim_around blank blank' unblank, reads]

variable {caller : Caller} {m : Machine} {n : Int64}

theorem run_repr (caller : Caller) (n : Int64) (m : Machine) :
    Eval.repr caller (.int n) m = .ok (decimal n) m := by
  have deep : 0 < m.heap.unfoldedDepth := Nat.mul_pos (Nat.succ_pos _) (Nat.succ_pos _)
  obtain ⟨depth, enough⟩ : ∃ depth, caller.depth + m.heap.unfoldedDepth = depth + 1 :=
    ⟨caller.depth + m.heap.unfoldedDepth - 1, by omega⟩
  rw [Eval.repr_eq, Eval.run_ask, enough]
  rfl

/-- `repr` and `str` write it alike. -/
theorem call_text (caller : Caller) (n : Int64) (m : Machine) :
    Builtin.call caller .str ⟨[.int n], []⟩ m = .ok (.str (decimal n)) m ∧
    Builtin.call caller .repr ⟨[.int n], []⟩ m = .ok (.str (decimal n)) m := by
  have written : (do return .str (← Eval.repr caller (.int n)) : Eval Value) m =
      .ok (.str (decimal n)) m := Eval.run_bind (run_repr caller n m) _
  exact ⟨written, written⟩

/-- A text is read as a number in the given radix, or in radix ten if none is given. -/
theorem call_int {text : String} (base : Option Value) {radix : Nat}
    (given : Builtin.radix base = .ok radix)
    (reads : Decimal.readInt64? radix (Text.trim text.toList) = some n) :
    Builtin.call caller .int ⟨.str text :: base.toList, []⟩ m = .ok (.int n) m := by
  have arguments : (⟨.str text :: base.toList, []⟩ : Arguments).upToTwo "int" =
      .ok (some (.str text), base) := by cases base <;> rfl
  rw [Builtin.call, Builtin.callInt, arguments, Eval.ofFault, pure_bind]
  simp only [given, Eval.ofFault, pure_bind, Builtin.readInteger, reads]
  rfl

/-- The formats `%d` and `%x`. -/
theorem run_letter {c : Char} (conversion : c = 'd' ∨ c = 'x') (caller : Caller) (n : Int64)
    (m : Machine) :
    Eval.binary caller .mod (.str (String.ofList ['%', c])) (.int n) m =
      .ok (.str (if c = 'x' then hexadecimal n else decimal n)) m := by
  have letter : c.isAlpha = true := by rcases conversion with rfl | rfl <;> decide
  have read : Percent.pieces (String.ofList ['%', c]).toList = [.directive ⟨false, false, 0, none, c⟩] := by
    rw [String.toList_ofList]
    exact @Percent.pieces_directive [] [] c nofun nofun nofun letter
  rw [Percent.run_whole read conversion, pad_of_le (Nat.zero_le _), String.ofList_toList]

/-- What is written for a whole number is read back as the number, with or without blanks around it. -/
theorem integers_survive_as_text (caller : Caller) (m : Machine) (n : Int64) :
    ∃ plain written digits hex : String,
      Builtin.call caller .str ⟨[.int n], []⟩ m = .ok (.str plain) m ∧
      Builtin.call caller .repr ⟨[.int n], []⟩ m = .ok (.str written) m ∧
      Eval.binary caller .mod (.str "%d") (.int n) m = .ok (.str digits) m ∧
      Eval.binary caller .mod (.str "%x") (.int n) m = .ok (.str hex) m ∧
      ∀ before after : String,
        Text.allBlank before.toList = true → Text.allBlank after.toList = true →
        (∀ text ∈ [plain, written, digits],
          Builtin.call caller .int ⟨[.str (before ++ text ++ after)], []⟩ m = .ok (.int n) m) ∧
        Builtin.call caller .int ⟨[.str (before ++ hex ++ after), .int 16], []⟩ m =
          .ok (.int n) m := by
  obtain ⟨text, text'⟩ := call_text caller n m
  refine ⟨_, _, _, _, text, text', run_letter (.inl rfl) caller n m, run_letter (.inr rfl) caller n m,
    fun before after blank blank' => ⟨?_, ?_⟩⟩
  · intro text mem
    obtain rfl : text = decimal n := by simpa using mem
    refine call_int none rfl ?_
    simpa using readInt64?_trim (readInt64?_decimal n) blank blank'
  · refine call_int (some (.int 16)) rfl ?_
    simpa using readInt64?_trim (readInt64?_hexadecimal n) blank blank'

theorem least_integer_survives_between_blanks :
    let caller : Caller := ⟨fun _ _ => Eval.exhausted, 0⟩
    Builtin.call caller .str ⟨[.int Int64.minValue], []⟩ .fresh =
      .ok (.str "-9223372036854775808") .fresh ∧
    Eval.binary caller .mod (.str "%x") (.int Int64.minValue) .fresh =
      .ok (.str "-8000000000000000") .fresh ∧
    Builtin.call caller .int ⟨[.str "\t-9223372036854775808\u3000"], []⟩ .fresh =
      .ok (.int Int64.minValue) .fresh ∧
    Builtin.call caller .int ⟨[.str "\t-8000000000000000\u3000", .int 16], []⟩ .fresh =
      .ok (.int Int64.minValue) .fresh := by
  intro caller
  obtain ⟨plain, written, digits, hex, text, -, -, text', reads⟩ :=
    integers_survive_as_text caller .fresh Int64.minValue
  obtain ⟨back, back'⟩ := reads "\t" "\u3000" (by decide) (by decide)
  have known : decimal Int64.minValue = "-9223372036854775808" := by decide
  have known' : hexadecimal Int64.minValue = "-8000000000000000" := by decide
  have first := (call_text caller Int64.minValue .fresh).1
  have second := run_letter (c := 'x') (.inr rfl) caller Int64.minValue .fresh
  rw [known] at first
  rw [if_pos rfl, known'] at second
  obtain rfl : plain = "-9223372036854775808" := by simpa using text.symm.trans first
  obtain rfl : hex = "-8000000000000000" := by simpa using text'.symm.trans second
  refine ⟨first, second, ?_, ?_⟩
  · have around : "\t" ++ "-9223372036854775808" ++ "\u3000" = "\t-9223372036854775808\u3000" := by decide
    exact around ▸ back _ (by simp)
  · have around : "\t" ++ "-8000000000000000" ++ "\u3000" = "\t-8000000000000000\u3000" := by decide
    exact around ▸ back'

end Format

end Console
