import Console.Proofs.Token.Akin
import Console.Proofs.Token.Steps
import Mathlib.Data.List.TakeWhile

/-!
# Runs over the same text

Akin states before the same text take the same steps over it. Where nothing is behind the text, so do
the whole runs.
-/

namespace Console.Token

open Text

variable {A : Alignment} {base : List Token} {tail tail' word : List Char} {s s' next last : LexState}

/-- Akin states before the same word. -/
structure Lockstep (A : Alignment) (base : List Token) (tail tail' word : List Char)
    (s s' : LexState) : Prop where
  akin : Akin A id base s s'
  cursor : Cursor.Abreast A tail tail' word s.cursor s'.cursor

/-- The second state takes the same step, within the word. -/
def InStep (A : Alignment) (base : List Token) (tail tail' word : List Char) (next : LexState)
    (r' : Except SyntaxError Step) : Prop :=
  ∃ next' letters, r' = .ok (.more next') ∧ letters <:+ word ∧
    Lockstep A base tail tail' letters next next'

theorem InStep.of_suffix {letters : List Char} {r' : Except SyntaxError Step}
    (inStep : InStep A base tail tail' letters next r') (inside : letters <:+ word) :
    InStep A base tail tail' word next r' := by
  obtain ⟨next', letters', read, inside', known⟩ := inStep
  exact ⟨next', letters', read, inside'.trans inside, known⟩

theorem Akin.opensLine {f : Nat → Nat} (h : Akin A f base s s') : s'.opensLine = s.opensLine := by
  rw [LexState.opensLine, h.line, h.isEmpty_brackets]
  rfl

theorem cursor_stepNewline (s : LexState) (c : Cursor) : (stepNewline s c).cursor = c.drop 1 := by
  unfold stepNewline
  split <;> rfl

/-- A comment ends with its line. -/
theorem dropWhile_ne_nil_of_lineEnd {text : List Char} (mem : '\n' ∈ text) :
    text.dropWhile (· ≠ '\n') ≠ [] := by
  intro blank
  simpa using List.dropWhile_eq_nil_iff.1 blank '\n' mem

/-- A step within the word is taken by both. -/
theorem step_lockstep (h : Lockstep A base tail tail' word s s')
    (comments : ∀ text, word.dropWhile isSpace = '#' :: text →
      '\n' ∈ text ∨ tail = [] ∧ tail' = [])
    (visible : word.dropWhile isSpace ≠ []) (stopped : Stopped tail) (stopped' : Stopped tail')
    (apart : ∀ t ∈ base.head?, ∀ text, t.kind ≠ .str text)
    (read : step s = .ok (.more next)) (left : tail.length ≤ next.cursor.rest.length) :
    InStep A base tail tail' word next (step s') := by
  obtain ⟨blanks, behind⟩ := h.cursor.dropWhile (.inl visible)
  obtain ⟨ch, letters, same⟩ := List.exists_cons_of_ne_nil visible
  rw [same] at behind comments
  have inside : (ch :: letters) <:+ word := by
    rw [← same]
    exact List.dropWhile_suffix _
  have start := h.akin.opensLine
  have first {d : Char} {text : List Char} (begins : (s.cursor.dropWhile isSpace).rest = d :: text) :
      ch = d := (List.cons.inj (behind.rest.symm.trans begins)).1
  refine InStep.of_suffix ?_ inside
  cases step_more_iff.1 read with
  | emptyLine opens begins =>
    obtain rfl := first begins
    exact ⟨_, _, step_more_iff.2 (.emptyLine (start.trans opens) behind.rest'), List.drop_suffix 1 _,
      h.akin.moved _ _, behind.drop (by simp)⟩
  | commentLine opens begins =>
    obtain rfl := first begins
    refine ⟨_, _, step_more_iff.2 (.commentLine (start.trans opens) behind.rest'),
      (List.drop_suffix 1 _).trans (List.dropWhile_suffix (· ≠ '\n')), h.akin.moved _ _, ?_⟩
    rcases comments letters rfl with more | ⟨rfl, rfl⟩
    · have ends := dropWhile_ne_nil_of_lineEnd (List.mem_cons_of_mem '#' more)
      exact (behind.dropWhile (.inl ends)).2.drop (List.length_pos_iff.2 ends)
    · exact (behind.dropWhile (.inr ⟨by simp, by simp⟩)).2.drop_beyond rfl rfl 1
  | line opens begins lineEnd comment laid =>
    obtain rfl := first begins
    obtain ⟨next', laid', akin⟩ := leads_layout strictMono_id rfl h.akin behind.pos laid
    rw [id, ← blanks] at laid'
    refine ⟨next', _, step_more_iff.2 (.line (start.trans opens) behind.rest' lineEnd comment laid'),
      List.suffix_refl _, akin, ?_⟩
    rw [(layout_ok laid).1, (layout_ok laid').1]
    exact behind
  | lineEnd inline begins =>
    obtain rfl := first begins
    refine ⟨_, _, step_more_iff.2 (.lineEnd (start.trans inline) behind.rest'), List.drop_suffix 1 _,
      h.akin.newline behind.pos, ?_⟩
    rw [cursor_stepNewline, cursor_stepNewline]
    exact behind.drop (by simp)
  | comment inline begins =>
    obtain rfl := first begins
    refine ⟨_, _, step_more_iff.2 (.comment (start.trans inline) behind.rest'),
      List.dropWhile_suffix (· ≠ '\n'), h.akin.moved _ _, ?_⟩
    rcases comments letters rfl with more | ⟨rfl, rfl⟩
    · exact (behind.dropWhile (.inl (dropWhile_ne_nil_of_lineEnd (List.mem_cons_of_mem _ more)))).2
    · exact (behind.dropWhile (.inr ⟨by simp, by simp⟩)).2
  | @joint text inline begins =>
    obtain ⟨more, whole, begins'⟩ := eq_cons_cons_of_left behind begins
      (by rw [Cursor.rest_drop, begins]; rfl) left
    cases whole
    exact ⟨_, _, step_more_iff.2 (.joint (start.trans inline) begins'), List.drop_suffix 2 _,
      h.akin.moved _ _, behind.drop (by simp)⟩
  | token inline begins opens taken =>
    obtain rfl := first begins
    obtain ⟨next', letters', taken', inside', akin, cursor⟩ :=
      leads_token apart stopped stopped' h.akin behind behind.rest (by simp) next taken left
    exact ⟨next', letters', step_more_iff.2 (.token (start.trans inline) behind.rest' opens taken'),
      inside', akin, cursor⟩

/-- The same text is read from akin states alike. -/
theorem run_lockstep (apart : ∀ t ∈ base.head?, ∀ text, t.kind ≠ .str text)
    (h : Lockstep A base [] [] word s s') (read : run s = .ok last) :
    ∃ last', run s' = .ok last' ∧ Akin A id base last last' ∧
      A.aligned last.cursor.pos last'.cursor.pos := by
  fun_induction run s generalizing word s'
  case case1 => cases read
  case case2 s last' finished =>
    cases read
    obtain ⟨blank, outside, rfl⟩ := step_finished finished
    obtain ⟨-, behind⟩ := h.cursor.dropWhile (p := isSpace) (.inr ⟨by simp, by simp⟩)
    have same : (s'.cursor.dropWhile isSpace).rest = (s.cursor.dropWhile isSpace).rest := by
      rw [behind.rest, behind.rest']
    exact ⟨_, run_finished ((step_nothing (same.trans blank)).1 (h.akin.outside.2 outside)),
      h.akin.moved _ _, behind.pos⟩
  case case3 s next onward ih =>
    have visible : word.dropWhile isSpace ≠ [] := by
      have more := rest_of_more onward
      rwa [Cursor.rest_dropWhile, h.cursor.rest, List.append_nil] at more
    obtain ⟨next', letters, onward', -, known⟩ := step_lockstep h (fun _ _ => .inr ⟨rfl, rfl⟩)
      visible .nil .nil apart onward (Nat.zero_le _)
    rw [run_more onward']
    exact ih known read

end Console.Token
