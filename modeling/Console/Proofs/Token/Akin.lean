import Console.Proofs.Token.Abreast
import Mathlib.Order.Monotone.Defs

/-!
# Two states of the lexer

States are akin where they have read the same tokens, in as many brackets, with columns that one
function takes to each other. From akin states before the same word the same token is read, and lines
that start at corresponding columns open and close the same blocks.
-/

namespace Console

open Text

namespace Token

variable {A : Alignment} {tail tail' word : List Char} {c c' after : Cursor}

/-- Tokens of one kind at aligned positions. -/
def SameToken (A : Alignment) (t t' : Token) : Prop := t'.kind = t.kind ∧ A.aligned t.pos t'.pos

/-- States that have read the same, the second of them behind the tokens of `base`; the columns of the
one are those of the other under `f`. -/
structure Akin (A : Alignment) (f : Nat → Nat) (base : List Token) (s s' : LexState) : Prop where
  indents : s'.indents = s.indents.map f
  brackets : s'.brackets.map Prod.fst = s.brackets.map Prod.fst
  line : s'.lineStart = s.lineStart
  tokens : ∃ ts, s'.tokens = ts ++ base ∧ List.Forall₂ (SameToken A) s.tokens ts

theorem rest_ofString (source : String) : (LexState.ofString source).cursor.rest = source.toList :=
  rfl

theorem akin_ofString (A : Alignment) (f : Nat → Nat) (source source' : String) :
    Akin A f [] (.ofString source) (.ofString source') :=
  ⟨rfl, rfl, rfl, [], rfl, .nil⟩

namespace Akin

variable {f : Nat → Nat} {base : List Token} {s s' : LexState} (h : Akin A f base s s')
include h

/-- Where the two cursors stand makes no difference. -/
theorem moved (c c' : Cursor) : Akin A f base { s with cursor := c } { s' with cursor := c' } :=
  ⟨h.indents, h.brackets, h.line, h.tokens⟩

theorem outside : s'.brackets = [] ↔ s.brackets = [] := by
  rw [← List.map_eq_nil_iff (f := Prod.fst), h.brackets, List.map_eq_nil_iff]

theorem add (kind : TokenKind) {p p' : Position} (same : A.aligned p p') (c c' : Cursor) :
    Akin A f base (s.add kind p c) (s'.add kind p' c') := by
  obtain ⟨ts, tokens, known⟩ := h.tokens
  refine ⟨h.indents, h.brackets, h.line, ⟨kind, p'⟩ :: ts, ?_, .cons ⟨rfl, same⟩ known⟩
  rw [LexState.add, tokens]
  rfl

theorem isEmpty_brackets : s'.brackets.isEmpty = s.brackets.isEmpty := by
  rw [Bool.eq_iff_iff, List.isEmpty_iff, List.isEmpty_iff, h.outside]

/-- A line end ends the line in both or in neither. -/
theorem newline {c c' : Cursor} (same : A.aligned c.pos c'.pos) :
    Akin A f base (stepNewline s c) (stepNewline s' c') := by
  have added := h.add .newline same (c.drop 1) (c'.drop 1)
  unfold stepNewline
  rw [h.isEmpty_brackets]
  split
  · exact ⟨added.indents, added.brackets, rfl, added.tokens⟩
  · exact h.moved _ _

theorem addString (apart : ∀ t ∈ base.head?, ∀ text, t.kind ≠ .str text) (text : List Char)
    {p p' : Position} (same : A.aligned p p') (c c' : Cursor) :
    Akin A f base (s.addString text p c) (s'.addString text p' c') := by
  have alone {s : LexState} {p : Position} {c : Cursor}
      (other : ∀ t ∈ s.tokens.head?, ∀ text, t.kind ≠ .str text) :
      s.addString text p c = s.add (.str (String.ofList text)) p c := by
    unfold LexState.addString
    split
    · rename_i before _ _ first
      exact absurd rfl (other _ (by rw [first]; rfl) before)
    · rfl
  have added := h.add (.str (String.ofList text)) same c c'
  obtain ⟨ts, tokens, known⟩ := h.tokens
  cases literal : s.tokens with
  | nil =>
    rw [literal, List.forall₂_nil_left_iff] at known
    subst known
    rwa [alone (by simp [literal]), alone (by simpa [tokens] using apart)]
  | cons t others =>
    rw [literal] at known
    obtain ⟨t', ts, ⟨same, place⟩, behind, rfl⟩ := List.forall₂_cons_left_iff.1 known
    by_cases string : ∃ before, t.kind = .str before
    · obtain ⟨before, is⟩ := string
      obtain ⟨kind, first⟩ := t
      obtain ⟨kind', first'⟩ := t'
      dsimp only at is same
      subst is same
      have grown : s.addString text p c =
          { s with tokens := ⟨.str (before ++ String.ofList text), first⟩ :: others, cursor := c } := by
        simp only [LexState.addString, literal]
      have grown' : s'.addString text p' c' =
          { s' with
            tokens := ⟨.str (before ++ String.ofList text), first'⟩ :: (ts ++ base), cursor := c' } := by
        simp only [LexState.addString, tokens, List.cons_append]
      rw [grown, grown']
      exact ⟨h.indents, h.brackets, h.line, _ :: ts, rfl, .cons ⟨rfl, place⟩ behind⟩
    · have other : ∀ text, t.kind ≠ .str text := by simpa using string
      rwa [alone (by simpa [literal] using other), alone (by simpa [tokens, same] using other)]

/-- The lines read so far correspond, ended where they are. -/
theorem nextLine (same : A.aligned s.cursor.pos s'.cursor.pos) :
    ∃ ts, (s'.nextLine []).tokens = ts ++ base ∧
      List.Forall₂ (SameToken A) (s.nextLine []).tokens ts := by
  obtain ⟨ts, tokens, known⟩ := h.tokens
  unfold LexState.nextLine
  dsimp only
  rw [h.line]
  cases s.lineStart with
  | true => exact ⟨ts, tokens, known⟩
  | false => exact ⟨⟨.newline, s'.cursor.pos⟩ :: ts, by rw [tokens]; rfl, .cons ⟨rfl, same⟩ known⟩

end Akin

theorem cursor_addString (s : LexState) (text : List Char) (start : Position) (after : Cursor) :
    (s.addString text start after).cursor = after := by
  unfold LexState.addString
  split <;> rfl

/-- A state that reading leads to from the first text, and the one from the second text. -/
def Leads (A : Alignment) (f : Nat → Nat) (base : List Token) (tail tail' word : List Char)
    (r r' : Except SyntaxError LexState) : Prop :=
  ∀ s, r = .ok s → tail.length ≤ s.cursor.rest.length →
    ∃ s' left, r' = .ok s' ∧ left <:+ word ∧ Akin A f base s s' ∧
      Cursor.Abreast A tail tail' left s.cursor s'.cursor

section Token

variable {f : Nat → Nat} {base : List Token} {s s' : LexState}
  (apart : ∀ t ∈ base.head?, ∀ text, t.kind ≠ .str text)
  (stopped : Stopped tail) (stopped' : Stopped tail')
  (akin : Akin A f base s s') (h : Cursor.Abreast A tail tail' word c c')

section

include apart stopped' akin h

theorem leads_string (raw : Bool) {start start' : Position} (same : A.aligned start start')
    {mark : Char} {text : List Char} (begins : c.rest = mark :: text)
    (quote : mark = '\x27' ∨ mark = '\x22') :
    Leads A f base tail tail' word
      (match readString raw start c with
        | .error e => .error e
        | .ok (text, after) => .ok (s.addString text start after))
      (match readString raw start' c' with
        | .error e => .error e
        | .ok (text, after) => .ok (s'.addString text start' after)) := by
  intro next read left
  split at read
  · cases read
  · rename_i value after taken
    cases read
    rw [cursor_addString] at left
    obtain ⟨letters, after', inside, taken', behind⟩ :=
      readString_abreast stopped' raw start start' begins quote h value after taken left
    rw [taken']
    refine ⟨_, letters, rfl, inside, akin.addString apart value same _ _, ?_⟩
    rwa [cursor_addString, cursor_addString]

end

theorem quote_of_atQuote {c : Cursor} (quoted : atQuote c = true) :
    ∃ mark text, c.rest = mark :: text ∧ (mark = '\x27' ∨ mark = '\x22') := by
  unfold atQuote Cursor.peek? at quoted
  cases begins : c.rest with
  | nil => simp [begins] at quoted
  | cons mark text => exact ⟨mark, text, rfl, by simpa [begins] using quoted⟩

section

include stopped stopped' h

theorem atQuote_abreast : atQuote c' = atQuote c := by
  have plain {tail : List Char} (stopped : Stopped tail) :
      (tail.head? == some '\x27' || tail.head? == some '\x22') = false := by
    cases tail with
    | nil => rfl
    | cons ch tail =>
      exact stopped.not (p := fun c => some c == some '\x27' || some c == some '\x22') (by decide)
        ch rfl
  unfold atQuote Cursor.peek?
  rw [h.rest, h.rest']
  cases word with
  | nil => rw [List.nil_append, List.nil_append, plain stopped, plain stopped']
  | cons ch word => rfl

theorem operatorAt_abreast : operatorAt? c'.rest = operatorAt? c.rest ∧
    ∀ op, operatorAt? c.rest = some op → op.toList.length ≤ word.length := by
  have apart : (operators.all fun op => op.toList.all fun ch => !isStop ch) = true := by decide
  have alone {tail : List Char} (stopped : Stopped tail) :
      operatorAt? (word ++ tail) = operatorAt? word := by
    refine List.find?_congr fun op mem => isPrefixOf_stopped fun ch first inside => ?_
    have plain := List.all_eq_true.1 (List.all_eq_true.1 apart op mem) ch inside
    rw [stopped ch first] at plain
    cases plain
  rw [h.rest, h.rest', alone stopped, alone stopped']
  refine ⟨rfl, fun op found => ?_⟩
  have fits := List.find?_some found
  exact (List.isPrefixOf_iff_prefix.1 fits).length_le

end

include stopped stopped' akin h

theorem leads_numeral :
    Leads A f base tail tail' word
      (match readNumeral c with
        | .error e => .error e
        | .ok (kind, after) => .ok (s.add kind c.pos after))
      (match readNumeral c' with
        | .error e => .error e
        | .ok (kind, after) => .ok (s'.add kind c'.pos after)) := by
  intro next read left
  split at read
  · cases read
  · rename_i kind after taken
    cases read
    obtain ⟨letters, after', inside, taken', behind⟩ :=
      readNumeral_abreast stopped stopped' h taken
    rw [taken']
    exact ⟨_, letters, rfl, inside, akin.add kind h.pos _ _, behind⟩

theorem leads_operator : Leads A f base tail tail' word (stepOperator s c) (stepOperator s' c') := by
  intro next read left
  obtain ⟨same, short⟩ := operatorAt_abreast stopped stopped' h
  unfold stepOperator at read ⊢
  rw [same]
  cases found : operatorAt? c.rest with
  | none =>
    rw [found] at read
    cases read
  | some op =>
    rw [found] at read
    have behind := h.drop (short op found)
    have added := akin.add (.op op) h.pos (c.drop op.toList.length) (c'.drop op.toList.length)
    have depth : s'.brackets.length = s.brackets.length := by
      rw [← List.length_map (f := Prod.fst), akin.brackets, List.length_map]
    dsimp only at read ⊢
    cases opens : Bracket.opened? op with
    | some b =>
      simp only [opens] at read ⊢
      rw [depth]
      split at read
      · cases read
      · rename_i room
        cases read
        rw [if_neg room]
        refine ⟨_, _, rfl, List.drop_suffix _ _, ⟨added.indents, ?_, added.line, added.tokens⟩,
          behind⟩
        simp [akin.brackets]
    | none =>
      cases closes : Bracket.closed? op with
      | none =>
        simp only [opens, closes] at read ⊢
        cases read
        exact ⟨_, _, rfl, List.drop_suffix _ _, added, behind⟩
      | some b =>
        simp only [opens, closes] at read ⊢
        have brackets := akin.brackets
        cases innermost : s.brackets with
        | nil =>
          rw [innermost] at read
          cases read
        | cons x outer =>
          obtain ⟨b', p⟩ := x
          rw [innermost] at read brackets
          obtain ⟨⟨b'', p'⟩, outer', innermost', same, others⟩ := List.map_eq_cons_iff.1 brackets
          dsimp only at same read
          subst same
          rw [innermost']
          dsimp only
          split at read
          · rename_i pairs
            cases read
            rw [if_pos pairs]
            exact ⟨_, _, rfl, List.drop_suffix _ _, ⟨added.indents, others, added.line,
              added.tokens⟩, behind⟩
          · cases read

include apart

theorem leads_name : Leads A f base tail tail' word (stepName s c) (stepName s' c') := by
  have name := stopped.takeWhile any_stops_isNamePart word
  have name' := stopped'.takeWhile any_stops_isNamePart word
  have behind := h.drop (n := (word.takeWhile isNamePart).length) length_takeWhile_le
  unfold stepName
  rw [h.rest, h.rest', name, name']
  change Leads A f base tail tail' word (if (atQuote _ && _) = true then _ else _)
    (if (atQuote _ && _) = true then _ else _)
  rw [atQuote_abreast stopped stopped' behind]
  split
  · rename_i quoted
    rw [Bool.and_eq_true] at quoted
    obtain ⟨mark, text, begins, quote⟩ := quote_of_atQuote quoted.1
    intro next read left
    obtain ⟨next', letters, read', inside, known⟩ :=
      leads_string apart stopped' akin behind _ h.pos begins quote next read left
    exact ⟨next', letters, read', inside.trans (List.drop_suffix _ _), known⟩
  · intro next read left
    cases read
    exact ⟨_, _, rfl, List.drop_suffix _ _, akin.add _ h.pos _ _, behind⟩

/-- The same token is read from both texts. -/
theorem leads_token {ch : Char} {text : List Char} (begins : c.rest = ch :: text)
    (nonempty : word ≠ []) :
    Leads A f base tail tail' word (stepToken s c ch) (stepToken s' c' ch) := by
  have numeral : startsNumeral c'.rest = startsNumeral c.rest := by
    rw [h.rest, h.rest', startsNumeral_stopped stopped word nonempty,
      startsNumeral_stopped stopped' word nonempty]
  unfold stepToken
  rw [numeral]
  split
  · rename_i quote
    exact leads_string apart stopped' akin h false h.pos begins quote
  · split
    · exact leads_numeral stopped stopped' akin h
    · split
      · exact leads_name apart stopped stopped' akin h
      · exact leads_operator stopped stopped' akin h

end Token

theorem head?_map_getD {f : Nat → Nat} (zero : f 0 = 0) (columns : List Nat) :
    (columns.map f).head?.getD 0 = f (columns.head?.getD 0) := by
  cases columns with
  | nil => exact zero.symm
  | cons column columns => rfl

section Layout

variable {f : Nat → Nat} {base : List Token} {s s' next : LexState} (mono : StrictMono f)
include mono

theorem takeWhile_map_strictMono (column : Nat) (columns : List Nat) :
    (columns.map f).takeWhile (f column < ·) = (columns.takeWhile (column < ·)).map f := by
  rw [List.takeWhile_map]
  congr 2
  funext n
  simp [mono.lt_iff_lt]

theorem dropWhile_map_strictMono (column : Nat) (columns : List Nat) :
    (columns.map f).dropWhile (f column < ·) = (columns.dropWhile (column < ·)).map f := by
  rw [List.dropWhile_map]
  congr 2
  funext n
  simp [mono.lt_iff_lt]

/-- Lines at corresponding columns open and close the same blocks. -/
theorem leads_layout (zero : f 0 = 0) (akin : Akin A f base s s') (pos : A.aligned c.pos c'.pos)
    {column : Nat} (read : layout s column c = .ok next) :
    ∃ next', layout s' (f column) c' = .ok next' ∧ Akin A f base next next' := by
  obtain ⟨ts, tokens, known⟩ := akin.tokens
  have indented : s'.column = f s.column := by
    rw [LexState.column, akin.indents, head?_map_getD zero]
    rfl
  unfold layout at read ⊢
  rw [indented]
  simp only [mono.lt_iff_lt, akin.indents, takeWhile_map_strictMono mono,
    dropWhile_map_strictMono mono, head?_map_getD zero, mono.injective.eq_iff]
  split at read
  · rename_i deeper
    cases read
    rw [if_pos deeper]
    refine ⟨_, rfl, ⟨rfl, akin.brackets, rfl, ⟨.indent, c'.pos⟩ :: ts, ?_, .cons ⟨rfl, pos⟩ known⟩⟩
    rw [tokens]
    rfl
  · rename_i deeper
    rw [if_neg deeper]
    dsimp only at read
    split at read
    · rename_i level
      cases read
      rw [if_pos level]
      refine ⟨_, rfl, rfl, akin.brackets, rfl,
        ((s.indents.takeWhile (column < ·)).map f).map (fun _ => ⟨.dedent, c'.pos⟩) ++ ts, ?_, ?_⟩
      · rw [tokens, List.append_assoc]
      · refine List.rel_append ?_ known
        rw [List.map_map]
        exact List.forall₂_map_left_iff.2 (List.forall₂_map_right_iff.2
          (List.forall₂_same.2 fun _ _ => ⟨rfl, pos⟩))
    · cases read

end Layout

end Token

end Console
