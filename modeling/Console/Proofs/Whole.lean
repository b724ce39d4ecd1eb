import Console.Proofs.Token.Stream
import Console.Proofs.Tree.Joining

/-!
# Whole sources

The tokens of a source whose blocks are all closed at its end. Two sources with the same words and as
many open blocks at their ends are programs with the same statements.
-/

namespace Console

open Token Parse LexState

/-- Tokens that close a block for each column. -/
def Closings (columns : List Nat) (ts : List Token) : Prop :=
  ts.map Token.kind = columns.map fun _ => .dedent

/-- The lines of a text and the ends of their blocks, as tokens. -/
def wholeOf (last : LexState) : List Token :=
  linesOf last ++ last.indents.map fun _ => ⟨.dedent, last.cursor.pos⟩

theorem finish_eq_wholeOf (last : LexState) :
    finish last true = wholeOf last ++ [⟨.endMarker, last.cursor.pos⟩] := by
  rw [finish_eq, closedAtEnd, if_pos rfl]
  rfl

theorem closings_map (columns : List Nat) (p : Position) :
    Closings columns (columns.map fun _ => ⟨.dedent, p⟩) := by
  simp [Closings]

variable {text : String} {last : LexState}

theorem ended_wholeOf (lexed : run (.ofString text) = .ok last) : Ended (wholeOf last) := by
  have whole := linesOf_whole lexed
  refine ⟨fun x mem => ?_, fun x final => ?_⟩
  · rcases List.mem_append.1 mem with mem | mem
    · exact whole.inside x mem
    · obtain ⟨_, -, rfl⟩ := List.mem_map.1 mem
      rfl
  · rcases List.eq_nil_or_concat last.indents with level | ⟨columns, column, nested⟩
    · rw [wholeOf, level, List.map_nil, List.append_nil] at final
      have line := whole.ended x final
      simp [isLayout, kind_of_isNewline line]
    · rw [wholeOf, nested] at final
      obtain rfl : (⟨.dedent, last.cursor.pos⟩ : Token) = x := by simpa using final
      rfl

/-- Where blocks are closed makes no difference. -/
theorem sameWord_closings {place place' : Nat → Nat} {columns columns' : List Nat}
    {D D' : List Token} (closes : Closings columns D) (closes' : Closings columns' D')
    (same : columns.length = columns'.length) : List.Forall₂ (SameWord place place') D D' := by
  unfold Closings at closes closes'
  induction columns generalizing columns' D D' with
  | nil =>
    obtain rfl := List.length_eq_zero_iff.1 same.symm
    rw [List.map_nil, List.map_eq_nil_iff] at closes closes'
    subst closes closes'
    exact .nil
  | cons column columns ih =>
    obtain ⟨column', columns', rfl⟩ := List.exists_cons_of_length_eq_add_one same.symm
    obtain ⟨t, ts, rfl, kind, rest⟩ := List.map_eq_cons_iff.1 closes
    obtain ⟨t', ts', rfl, kind', rest'⟩ := List.map_eq_cons_iff.1 closes'
    exact .cons ⟨kind'.trans kind.symm, by simp [isLayout, kind]⟩
      (ih rest rest' (by simpa using same))

/-- Sources with the same words are the same program, if as many blocks are open at their ends. -/
theorem Program.ofTokens_finish {place place' : Nat → Nat} {last' : LexState} {mode : Mode} {t : Bool}
    {program : Program} (lexed : run (.ofString text) = .ok last)
    (same : List.Forall₂ (SameWord place place') (last.nextLine []).tokens (last'.nextLine []).tokens)
    (columns : last.indents.length = last'.indents.length)
    (read : ofTokens (finish last true) mode t = .ok program) (t' : Bool) :
    ∃ program', ofTokens (finish last' true) mode t' = .ok program' ∧
      program'.future = program.future ∧ SameBody place place' program.body program'.body := by
  have words : List.Forall₂ (SameWord place place') (wholeOf last) (wholeOf last') :=
    List.rel_append (List.rel_reverse same)
      (sameWord_closings (closings_map _ _) (closings_map _ _) columns)
  rw [finish_eq_wholeOf] at read ⊢
  exact ofTokens_relocated rfl rfl words (ended_wholeOf lexed) read t'

end Console
