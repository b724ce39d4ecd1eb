import Console.Proofs.Format.Integers
import Console.Proofs.Machine

/-!
# Escaped formats

A mark that means something in a format is written twice to stand for itself. A text whose marks are
all doubled formats to the text, without any arguments. A format with percent signs takes exactly as
many arguments as it has conversions, where a doubled percent sign is none.
-/

namespace Console.Format

/-- Writes each character of a kind twice. -/
def doubled (mark : Char → Bool) (s : String) : String :=
  String.ofList (s.toList.flatMap fun c => if mark c then [c, c] else [c])

def isBrace (c : Char) : Bool := c == '\x7b' || c == '\x7d'

def isPercent (c : Char) : Bool := c == '%'

variable {caller : Caller} {m : Machine}

namespace Braces

theorem pieces_plain {c : Char} (plain : isBrace c = false) (rest : List Char) :
    pieces (c :: rest) = .plain c :: pieces rest := by
  obtain ⟨opening, closing⟩ : c ≠ '\x7b' ∧ c ≠ '\x7d' := by simpa [isBrace] using plain
  rw [pieces]
  · rintro _ rfl
    contradiction
  · rintro _ rfl
    contradiction
  · exact closing
  · exact opening

theorem pieces_doubled (s : List Char) :
    pieces (s.flatMap fun c => if isBrace c then [c, c] else [c]) = s.map .plain := by
  induction s with
  | nil => rw [List.flatMap_nil, pieces, List.map_nil]
  | cons c s ih =>
    rw [List.flatMap_cons, List.map_cons, ← ih]
    by_cases brace : isBrace c = true
    · rw [if_pos brace, List.cons_append, List.singleton_append]
      obtain rfl | rfl : c = '\x7b' ∨ c = '\x7d' := by simpa [isBrace] using brace
      · rw [pieces]
      · rw [pieces]
    · rw [if_neg brace, List.singleton_append]
      exact pieces_plain (by simpa using brace) _

/-- Plain characters are written as they are. -/
theorem fill_plain (args : Arguments) (next : Nat) (out s : List Char) :
    fill caller args next out (s.map .plain) = pure (out.reverse ++ s) := by
  induction s generalizing out with
  | nil => rw [List.map_nil, fill, List.append_nil]
  | cons c s ih =>
    rw [List.map_cons, fill, ih]
    simp

end Braces

namespace Percent

/-- A conversion that is a percent sign writes one. -/
theorem pieces_sign {r rest : List Char} (head : (readHead r).2 = '%' :: rest) :
    pieces ('%' :: r) = .plain '%' :: pieces rest := by
  rw [pieces]
  simp only [ne_eq, not_true_eq_false, if_false]
  split
  · next broken => simp [head] at broken
  · next found =>
    rw [head] at found
    cases found
    rfl

theorem pieces_doubled (s : List Char) :
    pieces (s.flatMap fun c => if isPercent c then [c, c] else [c]) = s.map .plain := by
  induction s with
  | nil => simp [pieces]
  | cons c s ih =>
    rw [List.flatMap_cons, List.map_cons, ← ih]
    by_cases percent : isPercent c = true
    · obtain rfl : c = '%' := by simpa [isPercent] using percent
      rw [if_pos percent, List.cons_append, List.singleton_append]
      exact pieces_sign (by simp [readHead, isFlag, readWidth, readPrecision])
    · rw [if_neg percent, List.singleton_append, pieces, if_pos (by simpa [isPercent] using percent)]

theorem fill_plain (out s : List Char) :
    fill caller out (s.map .plain) [] = pure (out.reverse ++ s) := by
  induction s generalizing out with
  | nil => rw [List.map_nil, fill, List.append_nil]
  | cons c s ih =>
    rw [List.map_cons, fill, ih]
    simp

/-- What may stand between a percent sign and its conversion: flags, a width and a precision. -/
def IsHead (head : List Char) : Prop :=
  ∃ flags width precision, head = flags ++ (width ++ precision) ∧
    (∀ c ∈ flags, c = '-' ∨ c = '0') ∧ (∀ c ∈ width, c.isDigit = true) ∧
    (precision = [] ∨ ∃ digits, precision = '.' :: digits ∧ ∀ c ∈ digits, c.isDigit = true)

/-- The letters that stand for an argument. -/
def letters : List Char := ['s', 'r', 'd', 'i', 'x', 'f']

/-- Formats with their numbers of conversions. -/
inductive Converts : List Char → Nat → Prop
  | nil : Converts [] 0
  | plain {c : Char} {rest : List Char} {n : Nat} (other : c ≠ '%') (behind : Converts rest n) :
      Converts (c :: rest) n
  | percent {head rest : List Char} {n : Nat} (stands : IsHead head) (behind : Converts rest n) :
      Converts ('%' :: (head ++ '%' :: rest)) n
  | conversion {head rest : List Char} {c : Char} {n : Nat} (stands : IsHead head)
      (letter : c ∈ letters) (behind : Converts rest n) :
      Converts ('%' :: (head ++ c :: rest)) (n + 1)

theorem dropWhile_append_of_stops {p : Char → Bool} {first rest : List Char}
    (stops : ∀ c ∈ rest.head?, p c = false) :
    (first ++ rest).dropWhile p = first.dropWhile p ++ rest := by
  have stays : rest.dropWhile p = rest := by
    cases rest with
    | nil => rfl
    | cons c rest => simp [stops c rfl]
  rw [List.dropWhile_append, stays]
  split
  · next empty => rw [List.isEmpty_iff.1 empty, List.nil_append]
  · rfl

/-- A head is read up to any character that cannot belong to one. -/
theorem readHead_append {head rest : List Char} {c : Char} (stands : IsHead head)
    (noFlag : isFlag c = false) (noDigit : c.isDigit = false) (noPoint : c ≠ '.') :
    (readHead (head ++ c :: rest)).2 = c :: rest := by
  obtain ⟨flags, width, precision, rfl, flagged, digits, pointed⟩ := stands
  have flagged : ∀ d ∈ flags, isFlag d = true := fun d inside => by
    simpa [isFlag] using flagged d inside
  have first : ∀ d ∈ (precision ++ c :: rest).head?, isFlag d = false ∧ d.isDigit = false := by
    obtain rfl | ⟨after, rfl, -⟩ := pointed
    · simp [noFlag, noDigit]
    · simp [isFlag]
  have behindFlags : (flags ++ (width ++ precision) ++ c :: rest).dropWhile isFlag =
      width.dropWhile isFlag ++ (precision ++ c :: rest) := by
    rw [List.append_assoc, List.append_assoc, List.dropWhile_append_of_pos flagged,
      dropWhile_append_of_stops fun d inside => (first d inside).1]
  have behindWidth : (readWidth (width.dropWhile isFlag ++ (precision ++ c :: rest))).2 =
      precision ++ c :: rest := by
    have digits : ∀ d ∈ width.dropWhile isFlag, d.isDigit = true := fun d inside =>
      digits d ((List.dropWhile_sublist _).subset inside)
    rw [readWidth_append digits fun d inside => (first d inside).2]
  have behindPoint : (readPrecision (precision ++ c :: rest)).2 = c :: rest := by
    obtain rfl | ⟨after, rfl, digits⟩ := pointed
    · simp [readPrecision, noPoint]
    · rw [List.cons_append, readPrecision, readWidth_append digits (by simp [noDigit])]
  simp only [readHead]
  rw [behindFlags, behindWidth, behindPoint]

/-- What is read as a head is one. -/
theorem exists_head (r : List Char) : ∃ head, r = head ++ (readHead r).2 ∧ IsHead head := by
  have digits (s : List Char) : ∀ c ∈ s.takeWhile Char.isDigit, c.isDigit = true := fun c inside =>
    List.mem_takeWhile_imp inside
  have point (s : List Char) : ∃ precision, s = precision ++ (readPrecision s).2 ∧
      (precision = [] ∨ ∃ after, precision = '.' :: after ∧ ∀ c ∈ after, c.isDigit = true) := by
    unfold readPrecision
    split
    · next r =>
      exact ⟨'.' :: r.takeWhile Char.isDigit, by simp [readWidth], .inr ⟨_, rfl, digits r⟩⟩
    · exact ⟨[], rfl, .inl rfl⟩
  obtain ⟨precision, cut, pointed⟩ := point (readWidth (r.dropWhile isFlag)).2
  refine ⟨r.takeWhile isFlag ++ ((r.dropWhile isFlag).takeWhile Char.isDigit ++ precision), ?_,
    r.takeWhile isFlag, (r.dropWhile isFlag).takeWhile Char.isDigit, precision, rfl, ?_,
    digits _, pointed⟩
  · have split : r.dropWhile isFlag = (r.dropWhile isFlag).takeWhile Char.isDigit ++
        (readWidth (r.dropWhile isFlag)).2 := List.takeWhile_append_dropWhile.symm
    calc r = r.takeWhile isFlag ++ r.dropWhile isFlag := List.takeWhile_append_dropWhile.symm
      _ = r.takeWhile isFlag ++ ((r.dropWhile isFlag).takeWhile Char.isDigit ++
            (precision ++ (readHead r).2)) := by
        rw [show (readHead r).2 = (readPrecision (readWidth (r.dropWhile isFlag)).2).2 from rfl,
          ← cut, ← split]
      _ = _ := by simp only [List.append_assoc]
  · intro c inside
    have flag : isFlag c = true := List.mem_takeWhile_imp inside
    simpa [isFlag] using flag

def Piece.isDirective : Piece → Bool
  | .directive _ => true
  | _ => false

/-- Pieces that can be written. -/
def Piece.Known : Piece → Prop
  | .plain _ => True
  | .directive d => d.conversion ∈ letters
  | .broken => False

theorem letter_isAlpha {c : Char} (letter : c ∈ letters) : c.isAlpha = true := by
  have allAlpha : letters.all Char.isAlpha = true := by decide
  exact List.all_eq_true.mp allAlpha c letter

theorem countP_pieces {s : List Char} {n : Nat} (converts : Converts s n) :
    (pieces s).countP Piece.isDirective = n := by
  induction converts with
  | nil => simp [pieces]
  | plain other _ ih =>
    rw [pieces, if_pos other, List.countP_cons, ih]
    rfl
  | percent stands _ ih =>
    rw [pieces_sign (readHead_append stands rfl rfl (by decide)), List.countP_cons, ih]
    rfl
  | conversion stands letter _ ih =>
    obtain ⟨noDigit, noFlag, noPoint, noPercent⟩ := stops_at_letter (letter_isAlpha letter)
    rw [pieces_percent (readHead_append stands noFlag noDigit noPoint) noPercent, List.countP_cons,
      ih]
    rfl

/-- A format whose pieces can all be written is one by the grammar. -/
theorem converts_of_known (s : List Char) (known : ∀ p ∈ pieces s, p.Known) :
    Converts s ((pieces s).countP Piece.isDirective) := by
  induction s using pieces.induct with
  | case1 =>
    rw [pieces]
    exact .nil
  | case2 c r other ih =>
    rw [pieces, if_pos other] at known ⊢
    rw [List.countP_cons]
    exact .plain other (ih fun p inside => known p (.tail _ inside))
  | case3 c r percent broken =>
    obtain rfl : c = '%' := by simpa using percent
    have read : pieces ('%' :: r) = [.broken] := by
      rw [pieces]
      simp only [ne_eq, not_true_eq_false, if_false]
      split
      · rfl
      · next found => simp [broken] at found
    exact absurd (known .broken (by simp [read])) id
  | case4 c r percent conversion rest found _ ih =>
    obtain rfl : c = '%' := by simpa using percent
    obtain ⟨head, cut, stands⟩ := exists_head r
    rw [found] at cut
    by_cases sign : conversion = '%'
    · subst sign
      rw [pieces_sign found] at known ⊢
      rw [cut, List.countP_cons]
      exact .percent stands (ih fun p inside => known p (.tail _ inside))
    · rw [pieces_percent found sign] at known ⊢
      rw [List.countP_cons]
      have letter : conversion ∈ letters := known _ (.head _)
      nth_rewrite 1 [cut]
      exact .conversion stands letter (ih fun p inside => known p (.tail _ inside))

/-- A value is converted only by one of the letters. -/
theorem letter_of_convert {d : Directive} {v : Value} {text : List Char} {m' : Machine}
    (run : convert caller d v m = .ok text m') : d.conversion ∈ letters := by
  by_contra other
  have refused : convert caller d v = Eval.fail (.unsupportedConversion d.conversion) := by
    simp only [letters, List.mem_cons, List.not_mem_nil, or_false, not_or] at other
    unfold convert
    split
    · simp_all
    · simp_all
    · simp_all
    · simp_all
    · simp_all
    · simp_all
    · rfl
  rw [refused] at run
  cases run

/-- Writing all pieces takes all values, each with one directive. -/
theorem known_of_fill {out text : List Char} {m' : Machine} (ps : List Piece) (values : List Value)
    (run : fill caller out ps values m = .ok text m') :
    (∀ p ∈ ps, p.Known) ∧ ps.countP Piece.isDirective = values.length := by
  induction ps generalizing out values m with
  | nil =>
    cases values with
    | nil => simp
    | cons v vs => cases run
  | cons p ps ih =>
    cases p with
    | broken => cases values <;> cases run
    | plain c =>
      rw [fill] at run
      obtain ⟨known, count⟩ := ih values run
      exact ⟨List.forall_mem_cons.2 ⟨trivial, known⟩, by rw [List.countP_cons, count]; rfl⟩
    | directive d =>
      cases values with
      | nil => cases run
      | cons v vs =>
        rw [fill] at run
        obtain ⟨written, m₁, first, run⟩ := Eval.of_bind run
        obtain ⟨known, count⟩ := ih vs run
        refine ⟨List.forall_mem_cons.2 ⟨letter_of_convert first, known⟩, ?_⟩
        rw [List.countP_cons, count]
        rfl

/-- How many values a format takes from an argument. -/
def argumentCount (h : Heap) : Value → Nat
  | .tuple r => (h.tuple r).size
  | _ => 1

theorem run_spread (argument : Value) :
    ∃ values, spread argument m = .ok values m ∧ values.length = argumentCount m.heap argument := by
  cases argument with
  | tuple r => exact ⟨(m.heap.tuple r).toList, rfl, by simp [argumentCount]⟩
  | _ => exact ⟨_, rfl, rfl⟩

theorem binary_str (text : String) (argument : Value) :
    Eval.binary caller .mod (.str text) argument =
      (do return .str (← format caller text argument)) := by
  cases argument <;> rfl

/-- A format that is written has as many conversions as it has arguments. -/
theorem converts_iff_of_binary {text : String} {argument result : Value} {m' : Machine}
    (run : Eval.binary caller .mod (.str text) argument m = .ok result m') (n : Nat) :
    Converts text.toList n ↔ n = argumentCount m.heap argument := by
  rw [binary_str] at run
  obtain ⟨written, m₁, run, -⟩ := Eval.of_bind run
  obtain ⟨values, taken, length⟩ := run_spread (m := m) argument
  rw [format, Eval.run_bind taken] at run
  obtain ⟨filled, m₂, run, -⟩ := Eval.of_bind run
  obtain ⟨known, count⟩ := known_of_fill _ values run
  rw [← length, ← count]
  constructor
  · intro converts
    exact (countP_pieces converts).symm
  · rintro rfl
    exact converts_of_known _ known

/-- A text whose percent signs are doubled is written as the text, from no values. -/
theorem binary_doubled (s : String) {r : Ref .tuple} (empty : m.heap.tuple r = #[]) :
    Eval.binary caller .mod (.str (doubled isPercent s)) (.tuple r) m = .ok (.str s) m := by
  have taken : spread (.tuple r) m = .ok [] m := by
    rw [spread, Eval.run_ask, empty]
    rfl
  have written : format caller (doubled isPercent s) (.tuple r) m = .ok s m := by
    rw [format, Eval.run_bind taken, doubled, String.toList_ofList, pieces_doubled, fill_plain,
      pure_bind]
    simp only [List.reverse_nil, List.nil_append, String.ofList_toList]
    rfl
  rw [binary_str, Eval.run_bind written]
  rfl

end Percent

/-- A text whose braces are doubled is written as the text, without arguments. -/
theorem Braces.call_doubled (s : String) :
    StrMethod.call caller (doubled isBrace s) .format ⟨[], []⟩ m = .ok (.str s) m := by
  have call : StrMethod.call caller (doubled isBrace s) .format ⟨[], []⟩ =
      (do return .str (← Braces.format caller (doubled isBrace s) ⟨[], []⟩)) := rfl
  rw [call, Braces.format, doubled, String.toList_ofList, pieces_doubled, fill_plain]
  simp only [pure_bind, List.reverse_nil, List.nil_append, String.ofList_toList]
  rfl

/-- Doubled braces format to themselves without arguments, doubled percent signs with the empty
tuple. Formatting with percent signs succeeds only if the text is a format that has one conversion,
doubled percent signs aside, for each argument. -/
theorem escaped_texts_format_to_themselves (caller : Caller) (m : Machine) :
    (∀ s, StrMethod.call caller (doubled isBrace s) .format ⟨[], []⟩ m = .ok (.str s) m) ∧
    (∀ s r, m.heap.tuple r = #[] →
      Eval.binary caller .mod (.str (doubled isPercent s)) (.tuple r) m = .ok (.str s) m) ∧
    (∀ text argument result m',
      Eval.binary caller .mod (.str text) argument m = .ok result m' →
      ∀ n, Percent.Converts text.toList n ↔ n = Percent.argumentCount m.heap argument) := by
  refine ⟨?_, ?_, ?_⟩
  · exact Braces.call_doubled
  · intro s r empty
    exact Percent.binary_doubled s empty
  · intro text argument result m' run
    exact Percent.converts_iff_of_binary run

theorem percent_with_number_formats :
    let caller : Caller := ⟨fun _ _ => Eval.exhausted, 0⟩
    Machine.fresh.heap.tuple ⟨0⟩ = #[] ∧
    StrMethod.call caller "\x7b\x7b0\x7d\x7d" .format ⟨[], []⟩ .fresh =
      .ok (.str "\x7b0\x7d") .fresh ∧
    Eval.binary caller .mod (.str "5%%") (.tuple ⟨0⟩) .fresh = .ok (.str "5%") .fresh ∧
    Eval.binary caller .mod (.str "%5d%%") (.int 42) .fresh = .ok (.str "   42%") .fresh ∧
    Percent.Converts "%5d%%".toList 1 := by
  intro caller
  obtain ⟨braces, percents, conversions⟩ := escaped_texts_format_to_themselves caller .fresh
  have brace : doubled isBrace "\x7b0\x7d" = "\x7b\x7b0\x7d\x7d" := by decide
  have percent : doubled isPercent "5%" = "5%%" := by decide
  have empty : Machine.fresh.heap.tuple ⟨0⟩ = #[] := rfl
  have read : Percent.pieces "%5d%%".toList =
      [.directive ⟨false, false, 5, none, 'd'⟩, .plain '%'] := by
    have number : (Percent.readHead ['5', 'd', '%', '%']).2 = 'd' :: ['%', '%'] := by decide
    have sign : (Percent.readHead ['%']).2 = ['%'] := by decide
    rw [show "%5d%%".toList = '%' :: ['5', 'd', '%', '%'] from rfl,
      Percent.pieces_percent number (by decide), Percent.pieces_sign sign, Percent.pieces]
    rfl
  have number : Eval.binary caller .mod (.str "%5d%%") (.int 42) .fresh =
      .ok (.str "   42%") .fresh := by
    rw [Percent.binary_str, Percent.format, read]
    rfl
  exact ⟨empty, brace ▸ braces _, percent ▸ percents _ _ empty, number,
    (conversions _ _ _ _ number 1).2 rfl⟩

end Console.Format
