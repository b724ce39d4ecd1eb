import Console.Proofs.Token.Gaps
import Console.Proofs.Token.Stream
import Console.Proofs.Tree.Prospects

/-!
# Texts that end inside a bracket

A lexer that lacks a bracket has come to the end of its text. Another line goes on from there, since a
line end inside a bracket is blank space; a string literal at the end may go on in it. The words that
complete an expression are read one by one, and those that close brackets close them.
-/

namespace Console.Token

open Text Parse LexState

variable {s s' : LexState} {e : SyntaxError} {more rest : List Char} {kinds : List TokenKind}

/-- The state in which the lexer comes to the end of its text, or fails. -/
def stop (s : LexState) : LexState :=
  match _ : step s with
  | .error _ => s
  | .ok (.finished s') => s'
  | .ok (.more s') => stop s'
termination_by s.size
decreasing_by exact size_step_lt ‹_›

/-- The tokens that the lexer has read of a source when it comes to its end, or fails. -/
def tokensRead (source : String) : List Token := (stop (.ofString source)).tokens.reverse

theorem stop_error (failed : step s = .error e) : stop s = s := by
  rw [stop]
  split <;> simp_all

theorem stop_more (onward : step s = .ok (.more s')) : stop s = stop s' := by
  rw [stop]
  split <;> simp_all

/-- What holds of the tokens holds wherever the rest of the text stands. -/
theorem Sound.at (h : Sound s) (c : Cursor) : Sound { s with cursor := c } :=
  ⟨h.inside, h.opened, h.start⟩

/-- A state at the end of its text, inside a bracket. -/
structure Open (s : LexState) : Prop where
  sound : Sound s
  formed : Formed s
  inline : s.lineStart = false
  opened : s.brackets ≠ []
  blank : (s.cursor.dropWhile isSpace).rest = []

theorem Moves.not_closingBracket {c : Cursor} {r : Except SyntaxError LexState} (moves : Moves s c r)
    (failed : r.map Step.more = .error e) : e.fault ≠ .incomplete .closingBracket := by
  intro lacks
  cases r with
  | ok s' => cases failed
  | error error =>
    cases failed
    have := moves .closingBracket (by rw [lacks]; rfl)
    simp [Lacks] at this

/-- A step that lacks a bracket is at the end of the text. -/
theorem open_of_step (sound : Sound s) (formed : Formed s) (failed : step s = .error e)
    (lacks : e.fault = .incomplete .closingBracket) : Open s := by
  unfold step at failed
  split at failed
  · unfold stepLine at failed
    dsimp only at failed
    split at failed
    · cases failed
    · split at failed
      · cases failed
      · split at failed
        · cases failed
        · exact absurd lacks ((moves_layout _).not_closingBracket failed)
  · rename_i within
    have inline : s.lineStart = false := by
      by_contra start
      rw [Bool.not_eq_false] at start
      simp [start, (sound.start start).1] at within
    unfold stepWithin at failed
    dsimp only at failed
    split at failed
    · rename_i blank
      refine ⟨sound, formed, inline, ?_, blank⟩
      intro outside
      rw [outside] at failed
      cases failed
    · rename_i ch tail begins
      split at failed
      · cases failed
      · split at failed
        · cases failed
        · split at failed
          · rename_i backslash
            subst backslash
            exact absurd lacks ((moves_backslash begins).not_closingBracket failed)
          · exact absurd lacks ((moves_token inline).not_closingBracket failed)

/-- A run that lacks a bracket stops inside of it. A further line goes on from there. -/
theorem open_of_run (sound : Sound s) (formed : Formed s) (failed : run s = .error e)
    (lacks : e.fault = .incomplete .closingBracket) :
    Open (stop s) ∧ ∀ more, run (s.followed more) = run ((stop s).followed more) := by
  fun_induction run s
  case case1 s error stuck =>
    cases failed
    rw [stop_error stuck]
    exact ⟨open_of_step sound formed stuck lacks, fun _ => rfl⟩
  case case2 => cases failed
  case case3 s s' onward ih =>
    have moves := step_moves sound
    have forms := step_forms formed sound
    rw [onward] at moves forms
    obtain ⟨stopped, further⟩ := ih (sound.move moves.1) forms failed
    rw [stop_more onward]
    refine ⟨stopped, fun more => ?_⟩
    have kept := step_followed s more
    rw [onward] at kept
    rcases kept with same | ⟨finished, -⟩
    · rw [run_more same, further]
    · rw [run_finished finished] at failed
      cases failed

/-- A line end inside a bracket is blank space. -/
theorem Open.run_followed (h : Open s) (more : List Char) :
    ∃ pos, run (s.followed more) = run { s with cursor := ⟨more, pos⟩ } := by
  have blanks : ((s.followed more).cursor.dropWhile isSpace) =
      (s.cursor.dropWhile isSpace).followed more := Cursor.dropWhile_followed rfl
  have begins : ((s.followed more).cursor.dropWhile isSpace).rest = '\n' :: more := by
    rw [blanks, Cursor.rest_followed, h.blank]
    rfl
  have inside : (s.followed more).brackets.isEmpty = false := by
    rw [Bool.eq_false_iff]
    exact fun empty => h.opened (List.isEmpty_iff.1 empty)
  cases here : (s.followed more).cursor.dropWhile isSpace with
  | mk rest p =>
    rw [here] at begins
    obtain rfl : rest = '\n' :: more := begins
    refine ⟨p.next '\n', run_more ?_⟩
    rw [step_inline (s := s.followed more) h.inline]
    unfold stepWithin
    dsimp only
    rw [here]
    dsimp only
    rw [if_pos rfl, stepNewline, inside, if_neg Bool.false_ne_true]
    rfl

/-- A literal with a space behind it goes on with the literal before it, if there is one. -/
theorem run_literal {text : List Char} (inline : s.lineStart = false)
    (begins : s.cursor.rest = quote text ++ ' ' :: rest) :
    ∃ pos, run s = run (s.addString text s.cursor.pos ⟨rest, pos⟩) := by
  have mark := quoteMark_cases text
  have opens : opensToken (quoteMark text) = true := by
    rcases mark with mark | mark <;> rw [mark] <;> rfl
  have stops : (' ' :: rest).head? ≠ some (quoteMark text) := by
    rcases mark with mark | mark <;> simp [mark]
  obtain ⟨⟨_, pos⟩, behind, read⟩ := readString_quote begins stops s.cursor.pos
  dsimp only at behind
  subst behind
  have token : stepToken s s.cursor (quoteMark text) =
      .ok (s.addString text s.cursor.pos ⟨' ' :: rest, pos⟩) := by
    unfold stepToken
    rw [if_pos mark, read]
  have after : (s.addString text s.cursor.pos ⟨' ' :: rest, pos⟩).cursor = ⟨' ' :: rest, pos⟩ ∧
      (s.addString text s.cursor.pos ⟨' ' :: rest, pos⟩).lineStart = false := by
    unfold LexState.addString
    split <;> exact ⟨rfl, inline⟩
  refine ⟨pos.next ' ', ?_⟩
  rw [run_token inline begins opens token, run_space after.2 rfl (by rw [after.1])]
  unfold LexState.addString
  split <;> rfl

/-- A literal in front may go on in the next line. -/
theorem Open.grows (h : Open s) (more : String) :
    ∃ v word, Sound v ∧ Formed v ∧ v.lineStart = false ∧ v.brackets = s.brackets ∧
      v.indents = s.indents ∧ v.tokens = grown more s.tokens ∧
      ∀ rest, ∃ pos, run (s.followed (word ++ rest)) = run { v with cursor := ⟨rest, pos⟩ } := by
  by_cases literal : ∃ text p others, s.tokens = ⟨.str text, p⟩ :: others
  · obtain ⟨text, p, others, tokens⟩ := literal
    obtain ⟨cursor, indents, brackets, lineStart, _⟩ := s
    obtain rfl : lineStart = false := h.inline
    subst tokens
    refine ⟨_, quote more.toList ++ [' '], h.sound.move (.addString rfl more.toList .start cursor),
      h.formed.addString h.sound more.toList .start cursor, rfl, rfl, rfl, ?_, fun rest => ?_⟩
    · simp [LexState.addString, grown]
    · obtain ⟨pos, further⟩ := h.run_followed (quote more.toList ++ ' ' :: rest)
      obtain ⟨pos', passed⟩ := run_literal (s := ⟨⟨quote more.toList ++ ' ' :: rest, pos⟩, indents,
        brackets, false, ⟨.str text, p⟩ :: others⟩) rfl rfl
      refine ⟨pos', ?_⟩
      rw [List.append_assoc, List.singleton_append, further, passed]
      rfl
  · refine ⟨s, [], h.sound, h.formed, h.inline, rfl, rfl, ?_, fun rest => h.run_followed rest⟩
    unfold grown
    split
    · rename_i same
      exact absurd ⟨_, _, _, same⟩ literal
    · rfl

/-- How a word is written. -/
def written : TokenKind → List Char
  | .name text | .op text => text.toList
  | _ => []

theorem nesting_closing (σ : List Bracket) :
    nesting? σ (σ.map fun b => .op b.closing) = some [] := by
  induction σ with
  | nil => rfl
  | cons b σ ih =>
    have first : nestWord? (b :: σ) (.op b.closing) = some σ := by cases b <;> rfl
    rw [List.map_cons, nesting?, List.foldlM_cons, first]
    exact ih

/-- A closing sign closes the innermost bracket. -/
theorem closes_of_nest {b : Bracket} {brackets : List (Bracket × Position)} {σ : List Bracket}
    (nested : nestWord? (brackets.map (·.1)) (.op b.closing) = some σ) :
    ∃ p outer, brackets = (b, p) :: outer ∧ outer.map (·.1) = σ := by
  cases brackets with
  | nil => cases b <;> cases nested
  | cons first outer =>
    obtain ⟨b', p⟩ := first
    have same : b' = b := by
      by_contra other
      cases b <;> cases b' <;> first | exact other rfl | cases nested
    subst same
    refine ⟨p, outer, rfl, ?_⟩
    cases b' <;> exact Option.some.inj nested

/-- One of the words that completions are made of. -/
theorem passes_spare {kind : TokenKind} {σ : List Bracket} (inline : s.lineStart = false)
    (spare : isSpare kind = true) (nested : nestWord? (s.brackets.map (·.1)) kind = some σ)
    (begins : s.cursor.rest = written kind ++ ' ' :: rest) :
    ∃ brackets s', brackets.map (·.1) = σ ∧ Passes [kind] (' ' :: rest) brackets s s' := by
  have closing (b : Bracket) (same : kind = .op b.closing) :
      ∃ brackets s', brackets.map (·.1) = σ ∧ Passes [kind] (' ' :: rest) brackets s s' := by
    subst same
    obtain ⟨p, outer, opened, left⟩ := closes_of_nest nested
    obtain ⟨s', passes⟩ := passes_closing inline begins opened
    exact ⟨outer, s', left, passes⟩
  have other (flat : nestWord? (s.brackets.map (·.1)) kind = some (s.brackets.map (·.1)))
      (passes : ∃ s', Passes [kind] (' ' :: rest) s.brackets s s') :
      ∃ brackets s', brackets.map (·.1) = σ ∧ Passes [kind] (' ' :: rest) brackets s s' := by
    obtain ⟨s', passes⟩ := passes
    exact ⟨s.brackets, s', Option.some.inj (flat.symm.trans nested), passes⟩
  unfold isSpare at spare
  split at spare
  · rename_i text
    refine other rfl ?_
    obtain ⟨⟨_, pos⟩, indents, brackets, lineStart, tokens⟩ := s
    dsimp only at begins inline
    subst begins inline
    simp only [List.contains_eq_mem, List.mem_cons, decide_eq_true_eq, List.not_mem_nil,
      or_false] at spare
    rcases spare with rfl | rfl | rfl | rfl | rfl | rfl
    all_goals exact ⟨_, run_more rfl, rfl, rfl, rfl, rfl, rfl⟩
  · rename_i symbol
    simp only [List.contains_eq_mem, List.mem_cons, decide_eq_true_eq, List.not_mem_nil,
      or_false] at spare
    rcases spare with rfl | rfl | rfl | rfl | rfl | rfl
    · exact closing .round rfl
    · exact closing .square rfl
    · exact closing .curly rfl
    · exact other rfl (passes_sign inline (.inr rfl) begins)
    all_goals
      refine other rfl ?_
      obtain ⟨⟨_, pos⟩, indents, brackets, lineStart, tokens⟩ := s
      dsimp only at begins inline
      subst begins inline
      exact ⟨_, run_more rfl, rfl, rfl, rfl, rfl, rfl⟩
  · cases spare

/-- How words are written that stand on one line. -/
def writtenLine (kinds : List TokenKind) : List Char :=
  kinds.flatMap fun kind => written kind ++ [' ']

theorem passes_line {σ : List Bracket} (inline : s.lineStart = false)
    (spare : ∀ kind ∈ kinds, isSpare kind = true)
    (nested : nesting? (s.brackets.map (·.1)) kinds = some σ)
    (begins : s.cursor.rest = writtenLine kinds ++ rest) :
    ∃ brackets s', brackets.map (·.1) = σ ∧ Passes kinds rest brackets s s' := by
  induction kinds generalizing s with
  | nil => exact ⟨s.brackets, s, Option.some.inj nested, rfl, begins, inline, rfl, rfl, rfl⟩
  | cons kind kinds ih =>
    obtain ⟨first, others⟩ := List.forall_mem_cons.1 spare
    obtain ⟨ρ, here, further⟩ := nesting_cons nested
    have begins : s.cursor.rest = written kind ++ ' ' :: (writtenLine kinds ++ rest) := by
      simpa [writtenLine] using begins
    obtain ⟨brackets₁, s₁, rfl, passes₁⟩ := passes_spare inline first here begins
    obtain ⟨s₂, passes₂⟩ := passes_space passes₁.inline passes₁.rest
    have passes := passes₁.trans passes₂
    rw [List.append_nil, passes₁.brackets] at passes
    rw [← passes.brackets] at further
    obtain ⟨brackets₃, s₃, left, passes₃⟩ := ih passes.inline others further passes.rest
    exact ⟨brackets₃, s₃, left, passes.trans passes₃⟩

/-- Words that close all brackets, and the end of their line. -/
theorem run_line (inline : s.lineStart = false) (spare : ∀ kind ∈ kinds, isSpare kind = true)
    (nested : nesting? (s.brackets.map (·.1)) kinds = some [])
    (begins : s.cursor.rest = writtenLine kinds ++ ['\n']) :
    ∃ last, run s = .ok last ∧ last.lineStart = true ∧ last.indents = s.indents ∧
      last.tokens.map Token.kind = .newline :: (kinds.reverse ++ s.tokens.map Token.kind) := by
  obtain ⟨brackets, s', outside, passes⟩ := passes_line inline spare nested begins
  obtain ⟨⟨_, pos⟩, indents, _, lineStart, tokens⟩ := s'
  have rest := passes.rest
  have inline := passes.inline
  have same := passes.brackets
  dsimp only at rest inline same
  subst rest inline
  obtain rfl := List.map_eq_nil_iff.1 outside
  subst same
  refine ⟨⟨⟨[], pos.next '\n'⟩, indents, [], true, ⟨.newline, pos⟩ :: tokens⟩, ?_, rfl,
    passes.indents, congrArg (TokenKind.newline :: ·) passes.tokens⟩
  exact passes.run.trans ((run_more rfl).trans (run_finished rfl))

end Console.Token
