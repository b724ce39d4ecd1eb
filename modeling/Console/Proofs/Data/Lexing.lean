import Console.Proofs.Data.Datum
import Console.Proofs.Token.Passing
import Console.Proofs.Tree.ExpressionRecovery

/-!
# The tokens of the text of a datum

The text that a datum is written as is read as the tokens that write its expression, wherever no
literal stands before it and a closing sign behind.
-/

namespace Console.Datum

open Token Text Kinds

variable {s s' : LexState} {text text' rest : List Char} {kinds kinds' : List TokenKind}
  {room : Nat} {brackets : List (Bracket × Position)}

/-- No literal is the last token. -/
def Apart (s : LexState) : Prop := ∀ before, (s.tokens.map Token.kind).head? ≠ some (.str before)

theorem apart_of_sign {symbol : String} (passes : Passes kinds rest brackets s s')
    (last : kinds.getLast? = some (.op symbol)) : Apart s' := by
  intro before
  rw [passes.tokens, List.head?_append, List.head?_reverse, last]
  simp

/-- Where a text stands within a line, up to a closing sign, the lexer reads tokens of these kinds,
and it needs room for so many brackets in one another. -/
def Lexes (text : List Char) (kinds : List TokenKind) (room : Nat) : Prop :=
  ∀ s rest, s.lineStart = false → s.cursor.rest = text ++ rest → Closed rest → Apart s →
    s.brackets.length + room ≤ Bracket.maxDepth → ∃ s', Passes kinds rest s.brackets s s'

theorem Lexes.mono {room' : Nat} (lexes : Lexes text kinds room) (le : room ≤ room') :
    Lexes text kinds room' :=
  fun s rest inline begins closed apart deep => lexes s rest inline begins closed apart (by omega)

/-- A sign and a space part two texts. -/
theorem Lexes.pair {symbol : String} (first : Lexes text kinds room)
    (second : Lexes text' kinds' room) (sign : symbol = "," ∨ symbol = ":") :
    Lexes (text ++ symbol.toList ++ ' ' :: text') (kinds ++ op symbol ++ kinds') room := by
  intro s rest inline begins closed apart deep
  have between : Closed (symbol.toList ++ ' ' :: (text' ++ rest)) := by
    rcases sign with rfl | rfl <;> (rintro _ ⟨⟩; decide)
  obtain ⟨s₁, passes₁⟩ := first s (symbol.toList ++ ' ' :: (text' ++ rest)) inline
    (by simpa using begins) between apart deep
  obtain ⟨s₂, passes₂⟩ := passes_separator passes₁.inline sign passes₁.rest
  have passes := passes₁.trans passes₂
  obtain ⟨s₃, passes₃⟩ := second s₂ rest passes.inline passes.rest closed
    (apart_of_sign passes List.getLast?_concat)
    (by rw [passes.brackets, passes₁.brackets]; exact deep)
  have all := passes.trans passes₃
  rw [passes.brackets, passes₁.brackets] at all
  exact ⟨s₃, all⟩

/-- A comma behind the only item of a tuple. -/
theorem Lexes.comma (item : Lexes text kinds room) :
    Lexes (text ++ ",".toList) (kinds ++ op ",") room := by
  intro s rest inline begins closed apart deep
  have comma : Closed (",".toList ++ rest) := by
    rintro _ ⟨⟩
    decide
  obtain ⟨s₁, passes₁⟩ :=
    item s (",".toList ++ rest) inline (by simpa using begins) comma apart deep
  obtain ⟨s₂, passes₂⟩ := passes_sign passes₁.inline (.inl rfl) passes₁.rest
  have both := passes₁.trans passes₂
  rw [passes₁.brackets] at both
  exact ⟨s₂, both⟩

/-- Texts with a comma and a space between each two of them. -/
theorem lexes_joined {α : Type} {texts : α → List Char} {kinds : α → List TokenKind}
    {items : List α} (each : ∀ a ∈ items, Lexes (texts a) (kinds a) room) :
    Lexes ([',', ' '].intercalate (items.map texts)) (joined "," (items.map kinds)) room := by
  induction items with
  | nil =>
    intro s rest inline begins _ _ _
    exact ⟨s, rfl, begins, inline, rfl, rfl, rfl⟩
  | cons a items ih =>
    cases items with
    | nil => simpa [joined] using each a (by simp)
    | cons b items =>
      have others := ih fun b mem => each b (List.mem_cons_of_mem _ mem)
      have pair := (each a (by simp)).pair others (.inl rfl)
      simpa [joined, List.intercalate_cons_cons] using pair

/-- A text in brackets needs room for one bracket more. -/
theorem Lexes.bracketed (inner : Lexes text kinds room) (b : Bracket) :
    Lexes (b.opening.toList ++ text ++ b.closing.toList) (op b.opening ++ kinds ++ op b.closing)
      (room + 1) := by
  intro s rest inline begins closed apart deep
  have closing : Closed (b.closing.toList ++ rest) := by
    cases b <;> (rintro _ ⟨⟩; decide)
  rw [List.append_assoc, List.append_assoc] at begins
  obtain ⟨p, s₁, passes₁⟩ := passes_opening inline b begins (by omega)
  obtain ⟨s₂, passes₂⟩ := inner s₁ _ passes₁.inline passes₁.rest closing (apart_of_sign passes₁ rfl)
    (by rw [passes₁.brackets, List.length_cons]; omega)
  obtain ⟨s₃, passes₃⟩ := passes_closing passes₂.inline passes₂.rest
    (passes₂.brackets.trans passes₁.brackets)
  exact ⟨s₃, (passes₁.trans passes₂).trans passes₃⟩

/-- No expression is in parentheses where the loosest level is asked for. -/
theorem kinds_conditional (e : Expr) : e.kinds .conditional = e.bare := if_pos e.level.rank_le

theorem lexes_word {word : List Char} {ch : Char} (starts : isNameStart ch = true)
    (parts : word.all isNamePart = true) :
    Lexes (ch :: word) [.name (String.ofList (ch :: word))] room :=
  fun _ _ inline begins closed _ _ =>
    passes_word inline starts (List.all_eq_true.1 parts) begins closed

/-- The digits of a number, behind a minus sign if it is below zero. -/
theorem lexes_int {n : Int64} (other : n ≠ Int64.minValue) :
    Lexes (toString n.toInt).toList (Datum.int n).expr.bare room := by
  intro s rest inline begins closed _ _
  obtain ⟨d, digits, value, digit⟩ := Decimal.toDigits_eq_cons n.toInt.natAbs
  rw [Decimal.toList_toString, value] at begins
  by_cases negative : n.toInt < 0
  · rw [if_pos negative] at begins
    obtain ⟨s₁, passes₁⟩ := passes_minus inline digit begins
    obtain ⟨s₂, passes₂⟩ := passes_numeral passes₁.inline (Decimal.toInt64?_magnitude other)
      (by rw [passes₁.rest, value]; rfl) closed
    have both := passes₁.trans passes₂
    rw [passes₁.brackets] at both
    rw [expr, if_pos negative]
    exact ⟨s₂, both⟩
  · have same : (n.toInt.natAbs : Int) = n.toInt := Int.natAbs_of_nonneg (not_lt.1 negative)
    rw [if_neg negative, ← value] at begins
    rw [expr, if_neg negative]
    exact passes_numeral inline (by rw [same, Decimal.toInt64?_toInt]) begins closed

theorem lexes_str (t : String) : Lexes (Eval.quoted t).toList [.str t] room := by
  intro s rest inline begins closed apart _
  rw [← String.ofList_toList (s := t)]
  exact passes_quoted inline (by simpa [Eval.quoted] using begins) closed apart

theorem parenthesised_of_length {items : List Datum} (several : items.length ≠ 1) :
    Eval.parenthesised (texts items) = "(" ++ ", ".intercalate (texts items) ++ ")" := by
  match items, several with
  | [], _ => rfl
  | [_], several => exact absurd rfl several
  | _ :: _ :: _, _ => rfl

/-- The text of a datum has the tokens that write its expression. -/
theorem lexes_datum {d : Datum} (formed : d.WellFormed) :
    Lexes d.text.toList (d.expr.kinds .conditional) d.layers := by
  induction d with
  | none => exact lexes_word (by decide) (by decide)
  | bool b => cases b <;> exact lexes_word (by decide) (by decide)
  | int n =>
    rw [kinds_conditional]
    exact lexes_int formed
  | str s => exact lexes_str s
  | list items ih =>
    rw [WellFormed, allWellFormed_iff] at formed
    have each (d) (mem : d ∈ items) : Lexes d.text.toList (d.expr.kinds .conditional)
        (itemLayers items) := (ih d mem (formed d mem)).mono (layers_le_itemLayers mem)
    have whole := (lexes_joined each).bracketed .square
    rw [kinds_conditional, expr, Expr.bare, Parse.parts_eq]
    simpa [text, layers, Bracket.opening, Bracket.closing, List.map_map, Function.comp_def]
      using whole
  | tuple items ih =>
    rw [WellFormed, allWellFormed_iff] at formed
    have each (d) (mem : d ∈ items) : Lexes d.text.toList (d.expr.kinds .conditional)
        (itemLayers items) := (ih d mem (formed d mem)).mono (layers_le_itemLayers mem)
    rw [kinds_conditional, expr, Expr.bare, Parse.parts_eq]
    by_cases single : items.length = 1
    · obtain ⟨d, rfl⟩ := List.length_eq_one_iff.1 single
      have whole := (each d (by simp)).comma.bracketed .round
      simpa [text, texts, exprs, Eval.parenthesised, joined, layers, Bracket.opening, Bracket.closing]
        using whole
    · have whole := (lexes_joined each).bracketed .round
      rw [text, parenthesised_of_length single]
      simpa [single, layers, Bracket.opening, Bracket.closing, List.map_map, Function.comp_def]
        using whole
  | dict entries ih =>
    rw [WellFormed, entriesWellFormed_iff] at formed
    have each (e) (mem : e ∈ entries) : Lexes (e.1.text ++ ": " ++ e.2.text).toList
        (Parse.entryKinds (e.1.expr, e.2.expr)) (entryLayers entries) := by
      obtain ⟨below₁, below₂⟩ := layers_le_entryLayers mem
      obtain ⟨-, formed₁, formed₂⟩ := formed.1 e mem
      have pair := Lexes.pair (((ih e mem).1 formed₁).mono below₁)
        (((ih e mem).2 formed₂).mono below₂) (.inr rfl)
      simpa [Parse.entryKinds] using pair
    have whole := (lexes_joined each).bracketed .curly
    rw [kinds_conditional, expr, Expr.bare, Parse.entryParts_eq]
    simpa [text, layers, Bracket.opening, Bracket.closing, List.map_map, Function.comp_def]
      using whole

/-- A line without indentation outside of all blocks opens none and closes none. -/
theorem run_lineStart {text : String} {ch : Char} {tail : List Char}
    (begins : text.toList = ch :: tail) (opens : opensToken ch = true) :
    run (.ofString text) = run { LexState.ofString text with lineStart := false } := by
  simp only [opensToken, Bool.and_eq_true, Bool.not_eq_true', bne_iff_ne, ne_eq] at opens
  obtain ⟨⟨⟨space, lineFeed⟩, hash⟩, -⟩ := opens
  have first : (Cursor.ofString text).rest = ch :: tail := begins
  refine run_more ?_
  show stepLine (.ofString text) = _
  unfold stepLine LexState.ofString
  dsimp only
  rw [dropWhile_here first space, first]
  dsimp only
  rw [if_neg lineFeed, if_neg hash, List.takeWhile_cons, space]
  rfl

/-- A text of one line has its tokens and the ones that end a source. -/
theorem tokenize_of_lexes {text : String} {ch : Char} {tail : List Char}
    (lexes : Lexes text.toList kinds room) (enough : room ≤ Bracket.maxDepth)
    (begins : text.toList = ch :: tail) (opens : opensToken ch = true) (mode : Mode) :
    ∃ tokens, tokenize text mode = .ok tokens ∧
      tokens.map Token.kind = kinds ++ [.newline, .endMarker] := by
  obtain ⟨s, passes⟩ := lexes { LexState.ofString text with lineStart := false } [] rfl
    (List.append_nil _).symm (by rintro _ ⟨⟩) (by rintro _ ⟨⟩)
    ((Nat.zero_add room).trans_le enough)
  have last : run (.ofString text) = .ok s := by
    rw [run_lineStart begins opens, passes.run, run_end passes.inline passes.rest passes.brackets]
  have indents : s.indents = [] := passes.indents
  have tokens : s.tokens.map Token.kind = kinds.reverse := passes.tokens.trans (List.append_nil _)
  refine ⟨_, by rw [tokenize, last]; rfl, ?_⟩
  simp [finish, passes.inline, indents, List.map_reverse, tokens]

/-- The first character of the text of a datum. -/
theorem text_begins (d : Datum) :
    ∃ ch tail, d.text.toList = ch :: tail ∧ opensToken ch = true := by
  cases d with
  | none => exact ⟨_, _, rfl, rfl⟩
  | bool b => cases b <;> exact ⟨_, _, rfl, rfl⟩
  | int n =>
    obtain ⟨d, digits, value, digit⟩ := Decimal.toDigits_eq_cons n.toInt.natAbs
    rw [text, Decimal.toList_toString, value]
    by_cases negative : n.toInt < 0
    · rw [if_pos negative]
      exact ⟨'-', d :: digits, rfl, rfl⟩
    · rw [if_neg negative]
      exact ⟨d, digits, rfl, (opens_of digit (by decide)).1⟩
  | str s =>
    refine ⟨quoteMark s.toList, _, by simp [text, Eval.quoted, quote]; rfl, ?_⟩
    rcases quoteMark_cases s.toList with mark | mark <;> rw [mark] <;> rfl
  | list items =>
    rw [text, String.toList_append, String.toList_append]
    exact ⟨'[', _, rfl, rfl⟩
  | tuple items =>
    by_cases single : items.length = 1
    · obtain ⟨d, rfl⟩ := List.length_eq_one_iff.1 single
      rw [text, texts, texts, Eval.parenthesised, String.toList_append, String.toList_append]
      exact ⟨'(', _, rfl, rfl⟩
    · rw [text, parenthesised_of_length single, String.toList_append, String.toList_append]
      exact ⟨'(', _, rfl, rfl⟩
  | dict entries =>
    rw [text, String.toList_append, String.toList_append]
    exact ⟨'\x7b', _, rfl, rfl⟩

end Console.Datum
