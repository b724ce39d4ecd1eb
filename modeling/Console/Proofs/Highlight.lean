import Console.Highlight
import Console.Proofs.Token.Places

/-!
# What highlighting shows

The spans of a line and the blanks between them are the line, each where its offset says. So the line
that is shown is the line that was typed, with codes around some of its spans.
-/

/-!
## Slices by byte offsets

A text is cut where so many bytes stand before. There is such a place only between two characters, so a
slice exists just if both its ends are such places.
-/

namespace Console.Text

/-- How many bytes a text takes. -/
def bytes (s : List Char) : Nat := (String.ofList s).utf8ByteSize

@[simp] theorem bytes_nil : bytes [] = 0 := rfl

@[simp] theorem bytes_cons (c : Char) (s : List Char) : bytes (c :: s) = c.utf8Size + bytes s := by
  rw [bytes, String.ofList_cons, String.utf8ByteSize_append, String.utf8ByteSize_singleton, bytes]

@[simp] theorem bytes_append (s t : List Char) : bytes (s ++ t) = bytes s + bytes t := by
  rw [bytes, String.ofList_append, String.utf8ByteSize_append, bytes, bytes]

theorem bytes_pos {s : List Char} (nonempty : s ≠ []) : 0 < bytes s := by
  obtain ⟨c, rest, rfl⟩ := List.exists_cons_of_ne_nil nonempty
  have pos := c.utf8Size_pos
  rw [bytes_cons]
  omega

/-- The first so many bytes of a text and what stands behind them, unless that would cut a character or
the text is shorter. -/
def splitBytes? : Nat → List Char → Option (List Char × List Char)
  | 0, s => some ([], s)
  | _ + 1, [] => none
  | n + 1, c :: s =>
    if c.utf8Size ≤ n + 1 then
      (splitBytes? (n + 1 - c.utf8Size) s).map fun (first, rest) => (c :: first, rest)
    else none

theorem splitBytes?_append (s t : List Char) : splitBytes? (bytes s) (s ++ t) = some (s, t) := by
  induction s with
  | nil => rw [bytes_nil, List.nil_append, splitBytes?]
  | cons c s ih =>
    obtain ⟨n, size⟩ := Nat.exists_eq_add_one.2 (bytes_pos (List.cons_ne_nil c s))
    have rest : n + 1 - c.utf8Size = bytes s := by
      rw [← size, bytes_cons, Nat.add_sub_cancel_left]
    have fits : c.utf8Size ≤ n + 1 := by
      rw [← size, bytes_cons]
      exact Nat.le_add_right _ _
    rw [size, List.cons_append, splitBytes?, if_pos fits, rest, ih]
    rfl

/-- The text between two byte offsets. -/
def slice? (s : List Char) (start stop : Nat) : Option (List Char) :=
  if start ≤ stop then
    (splitBytes? start s).bind fun (_, rest) =>
      (splitBytes? (stop - start) rest).map fun (text, _) => text
  else none

theorem slice?_append (before text after : List Char) :
    slice? (before ++ text ++ after) (bytes before) (bytes before + bytes text) = some text := by
  rw [slice?, if_pos (Nat.le_add_right _ _), List.append_assoc, splitBytes?_append,
    Nat.add_sub_cancel_left]
  dsimp only [Option.bind_some]
  rw [splitBytes?_append]
  rfl

end Console.Text

namespace Console

open Text

/-- A cursor moves by as many bytes as the text takes that it passes. -/
theorem Cursor.offset_drop {c : Cursor} {text tail : List Char} (whole : c.rest = text ++ tail) :
    (c.drop text.length).pos.offset = c.pos.offset + bytes text := by
  change (c.pos.past (c.rest.take text.length)).offset = _
  rw [Position.offset_past, whole, List.take_left]
  rfl

namespace Highlight

variable {c : Cursor} {ch : Char} {rest : List Char} {names : List String}

/-- The byte offset behind a span. -/
def Span.stop (s : Span) : Nat := s.offset + bytes s.text

/-- Gaps and pieces by turns, the first gap first. -/
def woven : List (List Char) → List (List Char) → List Char
  | gap :: gaps, piece :: pieces => gap ++ piece ++ woven gaps pieces
  | gaps, _ => gaps.flatten

/-- What stands from an offset on before, between and behind spans, cut out by their offsets. -/
def gaps? (line : List Char) (start : Nat) : List Span → Option (List (List Char))
  | [] => (slice? line start (bytes line)).map fun gap => [gap]
  | s :: spans =>
    (slice? line start s.offset).bind fun gap => (gaps? line s.stop spans).map (gap :: ·)

theorem paintFrom_nil (done : c.rest = []) : paintFrom names c = [] := by
  rw [paintFrom]
  split <;> simp_all

theorem paintFrom_blank (begins : c.rest = ch :: rest) (blank : isBlank ch = true) :
    paintFrom names c = ch :: paintFrom names (c.drop 1) := by
  rw [paintFrom]
  split <;> simp_all

theorem paintFrom_visible (begins : c.rest = ch :: rest) (visible : isBlank ch = false) :
    paintFrom names c =
      paint names ⟨(spanAt ch rest).1, ch :: rest.take (spanAt ch rest).2, c.pos.offset⟩ ++
        paintFrom names (c.drop ((spanAt ch rest).2 + 1)) := by
  rw [paintFrom]
  split <;> simp_all

/-- From an offset on gaps and spans follow each other, each where the one before it ends. -/
inductive Covers : Nat → List (List Char) → List Span → Prop
  | last {start : Nat} {gap : List Char} (blank : allBlank gap = true) : Covers start [gap] []
  | span {start : Nat} {gap : List Char} {gaps : List (List Char)} {s : Span} {spans : List Span}
    (blank : allBlank gap = true) (place : s.offset = start + bytes gap) (nonempty : s.text ≠ [])
    (behind : Covers s.stop gaps spans) : Covers start (gap :: gaps) (s :: spans)

namespace Covers

variable {start : Nat} {gaps : List (List Char)} {spans : List Span}

/-- A blank before the spans belongs to the first gap. -/
theorem cons_blank (blank : isBlank ch = true) (covers : Covers (start + ch.utf8Size) gaps spans) :
    ∃ gaps', Covers start gaps' spans ∧
      ∀ pieces, pieces.length = spans.length → woven gaps' pieces = ch :: woven gaps pieces := by
  cases covers with
  | @last _ gap rest =>
    refine ⟨[ch :: gap], .last (by simp_all [allBlank]), fun pieces same => ?_⟩
    obtain rfl := List.length_eq_zero_iff.1 same
    rfl
  | @span _ gap gaps s spans rest place some behind =>
    refine ⟨(ch :: gap) :: gaps, .span (by simp_all [allBlank]) ?_ some behind, fun pieces same => ?_⟩
    · rw [place, bytes_cons, Nat.add_assoc]
    · obtain ⟨piece, pieces, rfl⟩ := List.exists_cons_of_length_eq_add_one same
      rfl

theorem length_gaps (covers : Covers start gaps spans) : gaps.length = spans.length + 1 := by
  induction covers with
  | last => rfl
  | span _ _ _ _ ih => rw [List.length_cons, List.length_cons, ih]

theorem blank (covers : Covers start gaps spans) : ∀ gap ∈ gaps, allBlank gap = true := by
  induction covers with
  | last blank => exact List.forall_mem_singleton.2 blank
  | span blank _ _ _ ih => exact List.forall_mem_cons.2 ⟨blank, ih⟩

theorem nonempty (covers : Covers start gaps spans) : ∀ s ∈ spans, s.text ≠ [] := by
  induction covers with
  | last => exact List.forall_mem_nil _
  | span _ _ some _ ih => exact List.forall_mem_cons.2 ⟨some, ih⟩

theorem start_le (covers : Covers start gaps spans) : ∀ s ∈ spans, start ≤ s.offset := by
  induction covers with
  | last => exact List.forall_mem_nil _
  | @span start gap _ s _ _ place some _ ih =>
    have first : start ≤ s.offset := by
      rw [place]
      exact Nat.le_add_right _ _
    refine List.forall_mem_cons.2 ⟨first, fun t mem => ?_⟩
    have onward : s.offset ≤ s.stop := Nat.le_add_right _ _
    exact Nat.le_trans first (Nat.le_trans onward (ih t mem))

/-- Every span ends before the next one begins. -/
theorem ordered (covers : Covers start gaps spans) :
    spans.Pairwise fun s t => s.offset < t.offset ∧ s.stop ≤ t.offset := by
  induction covers with
  | last => exact List.Pairwise.nil
  | @span start gap _ s _ _ place some behind ih =>
    refine List.pairwise_cons.2 ⟨fun t mem => ?_, ih⟩
    have after := behind.start_le t mem
    have pos := bytes_pos some
    refine ⟨?_, after⟩
    unfold Span.stop at after
    omega

/-- Spans and gaps are found at their offsets. -/
theorem slices (covers : Covers start gaps spans) {before line : List Char}
    (place : bytes before = start) (whole : line = before ++ woven gaps (spans.map Span.text)) :
    gaps? line start spans = some gaps ∧ ∀ s ∈ spans, slice? line s.offset s.stop = some s.text := by
  induction covers generalizing before with
  | @last _ gap _ =>
    have cut := slice?_append before gap []
    rw [List.append_nil] at cut
    have line' : line = before ++ gap := by simpa [woven] using whole
    have size : bytes line = bytes before + bytes gap := by rw [line', bytes_append]
    refine ⟨?_, List.forall_mem_nil _⟩
    rw [gaps?, size, ← place, line', cut]
    rfl
  | @span start gap gaps s spans _ offset _ _ ih =>
    have line' : line = before ++ gap ++ (s.text ++ woven gaps (spans.map Span.text)) := by
      rw [whole, List.map_cons, woven]
      simp only [List.append_assoc]
    have line'' : line = before ++ gap ++ s.text ++ woven gaps (spans.map Span.text) := by
      rw [line', List.append_assoc _ s.text]
    have here : bytes (before ++ gap) = s.offset := by rw [bytes_append, place, offset]
    have behind : bytes (before ++ gap ++ s.text) = s.stop := by
      rw [bytes_append, here, Span.stop]
    obtain ⟨others, texts⟩ := ih behind line''
    constructor
    · have first := slice?_append before gap (s.text ++ woven gaps (spans.map Span.text))
      rw [← line', place, ← offset] at first
      rw [gaps?, first, others]
      rfl
    · refine List.forall_mem_cons.2 ⟨?_, texts⟩
      have text := slice?_append (before ++ gap) s.text (woven gaps (spans.map Span.text))
      rw [← line'', here] at text
      exact text

end Covers

/-- The spans at a cursor cover its text, and painting them is all that painting does. -/
theorem covers_spansFrom (names : List String) (c : Cursor) :
    ∃ gaps, Covers c.pos.offset gaps (spansFrom c) ∧
      c.rest = woven gaps ((spansFrom c).map Span.text) ∧
      paintFrom names c = woven gaps ((spansFrom c).map (paint names)) := by
  fun_induction spansFrom c
  case case1 c done =>
    exact ⟨[[]], .last rfl, done, paintFrom_nil done⟩
  case case2 c ch rest begins blank ih =>
    obtain ⟨gaps, covers, text, painted⟩ := ih
    have whole : c.rest = [ch] ++ rest := begins
    have place : (c.drop 1).pos.offset = c.pos.offset + ch.utf8Size :=
      (Cursor.offset_drop whole).trans (congrArg _ (bytes_cons ch []))
    rw [place] at covers
    obtain ⟨gaps', covers', longer⟩ := covers.cons_blank blank
    refine ⟨gaps', covers', ?_, ?_⟩
    · rw [longer _ (List.length_map _), ← text, begins, Cursor.rest_drop, begins]
      rfl
    · rw [longer _ (List.length_map _), ← painted, paintFrom_blank begins blank]
  case case3 c ch rest begins visible found ih =>
    obtain ⟨gaps, covers, text, painted⟩ := ih
    have taken : c.rest.take (found.2 + 1) = ch :: rest.take found.2 := by
      rw [begins, List.take_succ_cons]
    have place : (c.drop (found.2 + 1)).pos.offset =
        Span.stop ⟨found.1, ch :: rest.take found.2, c.pos.offset⟩ := by
      change (c.pos.past (c.rest.take (found.2 + 1))).offset = _
      rw [Position.offset_past, taken]
      rfl
    rw [place] at covers
    refine ⟨[] :: gaps, .span rfl rfl (List.cons_ne_nil _ _) covers, ?_, ?_⟩
    · rw [List.map_cons, woven, ← text, List.nil_append, Cursor.rest_drop, ← taken,
        List.take_append_drop]
    · rw [List.map_cons, woven, ← painted, List.nil_append,
        paintFrom_visible begins (Bool.eq_false_iff.2 visible)]

/-- The codes that switch a colour on. -/
def colourCodes : List (List Char) := ["33", "35", "36", "90", "32"].map colourCode

/-- A span is shown as it is or between a colour code and the reset code. -/
theorem paint_cases (names : List String) (s : Span) :
    paint names s = s.text ∨ ∃ code ∈ colourCodes, paint names s = code ++ s.text ++ resetCode := by
  have coloured {code : List Char} (known : colourOf? names s = some code) : code ∈ colourCodes := by
    unfold colourOf? at known
    split at known
    case h_5 =>
      split at known
      · cases known
        decide
      · cases known
    case h_6 => cases known
    all_goals
      cases known
      decide
  unfold paint
  split
  · rename_i code known
    exact .inr ⟨code, coloured known, rfl⟩
  · exact .inl rfl

/-- Highlighting shows the line. Its spans hold something, stand where their offsets say, one behind the
other, and between them is nothing but blanks. What is shown is what stands between them, cut out by
their offsets, and the spans by turns, some of these between a colour code and the reset code. -/
theorem highlighting_shows_the_line (line : String) (names : List String) :
    (∀ s ∈ spans line, s.text ≠ [] ∧ slice? line.toList s.offset s.stop = some s.text) ∧
    (spans line).Pairwise (fun s t => s.offset < t.offset ∧ s.stop ≤ t.offset) ∧
    (∃ gaps, gaps? line.toList 0 (spans line) = some gaps ∧
      gaps.length = (spans line).length + 1 ∧ (∀ gap ∈ gaps, allBlank gap = true) ∧
      line.toList = woven gaps ((spans line).map Span.text) ∧
      (render line names true).toList = woven gaps ((spans line).map (paint names))) ∧
    (∀ s, paint names s = s.text ∨
      ∃ code ∈ colourCodes, paint names s = code ++ s.text ++ resetCode) ∧
    render line names false = line := by
  obtain ⟨gaps, covers, text, painted⟩ := covers_spansFrom names (.ofString line)
  have whole : line.toList = [] ++ woven gaps ((spans line).map Span.text) := text
  have ⟨cut, texts⟩ := covers.slices rfl whole
  refine ⟨fun s mem => ⟨covers.nonempty s mem, texts s mem⟩, covers.ordered, ?_, paint_cases names, rfl⟩
  refine ⟨gaps, cut, covers.length_gaps, covers.blank, text, ?_⟩
  rw [render, if_pos rfl, String.toList_ofList]
  exact painted

end Highlight

end Console
