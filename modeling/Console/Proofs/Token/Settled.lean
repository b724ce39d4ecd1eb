import Mathlib.Data.List.TakeWhile
import Console.Proofs.Token.Progress
import Console.Proofs.Token.Stream

/-!
# Streams that are settled

What every end of a stream of tokens has that its source was read into: no block ends where it begins,
and names are made of the characters of names.
-/

namespace Console.Token

open Text Parse

variable {c : Cursor} {s next last : LexState}

/-- If the token is a name, it is made of the characters of names. -/
def Spelled (t : Token) : Prop := ∀ word, t.kind = .name word → ∀ ch ∈ word.toList, isNamePart ch = true

theorem Spelled.of_kind {t : Token} (other : ∀ word, t.kind ≠ .name word) : t.Spelled :=
  fun word kind => absurd kind (other word)

/-- All names read so far are. -/
def AllSpelled (s : LexState) : Prop := ∀ t ∈ s.tokens, t.Spelled

namespace AllSpelled

variable (h : AllSpelled s)
include h

theorem add {kind : TokenKind} {start : Position} (spelled : Spelled ⟨kind, start⟩) (after : Cursor) :
    AllSpelled (s.add kind start after) :=
  List.forall_mem_cons.2 ⟨spelled, h⟩

theorem addString (text : List Char) (start : Position) (after : Cursor) :
    AllSpelled (s.addString text start after) := by
  unfold LexState.addString
  split
  · next others same =>
    refine List.forall_mem_cons.2 ⟨.of_kind (by simp), fun t inside => h t ?_⟩
    rw [same]
    exact List.mem_cons_of_mem _ inside
  · exact h.add (.of_kind (by simp)) after

theorem name (read : stepName s c = .ok next) : AllSpelled next := by
  unfold stepName at read
  dsimp only at read
  split at read
  · split at read
    · cases read
    · cases read
      exact h.addString _ _ _
  · cases read
    refine h.add (fun word kind ch inside => ?_) _
    cases kind
    rw [String.toList_ofList] at inside
    exact List.mem_takeWhile_imp inside

theorem operator (read : stepOperator s c = .ok next) : AllSpelled next := by
  have added (symbol : String) : AllSpelled (s.add (.op symbol) c.pos (c.drop symbol.toList.length)) :=
    h.add (.of_kind (by simp)) _
  unfold stepOperator at read
  split at read
  · cases read
  · next symbol _ =>
    dsimp only at read
    split at read
    · split at read
      · cases read
      · cases read
        exact added symbol
    · split at read
      · split at read
        · cases read
          exact added symbol
        · cases read
      · cases read
    · cases read
      exact added symbol

theorem token {ch : Char} (read : stepToken s c ch = .ok next) : AllSpelled next := by
  unfold stepToken at read
  split at read
  · split at read
    · cases read
    · cases read
      exact h.addString _ _ _
  · split at read
    · rcases readNumeral_cases c with ⟨kind, behind, numeral, -, number⟩ | ⟨_, _, -, -, failed⟩
      · rw [numeral] at read
        cases read
        refine h.add (.of_kind fun word => ?_) _
        rcases number with ⟨n, rfl⟩ | ⟨x, rfl⟩ <;> simp
      · rw [failed] at read
        cases read
    · split at read
      · exact h.name read
      · exact h.operator read

theorem layout {column : Nat} (read : layout s column c = .ok next) : AllSpelled next := by
  unfold Token.layout at read
  split at read
  · cases read
    exact List.forall_mem_cons.2 ⟨.of_kind (by simp), h⟩
  · dsimp only at read
    split at read
    · cases read
      refine List.forall_mem_append.2 ⟨fun t inside => ?_, h⟩
      obtain ⟨_, -, rfl⟩ := List.mem_map.1 inside
      exact .of_kind (by simp)
    · cases read

theorem newline (c : Cursor) : AllSpelled (stepNewline s c) := by
  unfold stepNewline
  split
  · exact h.add (.of_kind (by simp)) (c.drop 1)
  · exact h

theorem step (read : step s = .ok (.more next)) : AllSpelled next := by
  cases step_more_iff.1 read with
  | emptyLine | commentLine | comment | joint => exact h
  | line _ _ _ _ laid => exact h.layout laid
  | lineEnd => exact h.newline _
  | token _ _ _ read => exact h.token read

theorem run (read : run s = .ok last) : AllSpelled last := by
  fun_induction Token.run s
  case case1 => cases read
  case case2 s last' finished =>
    cases read
    obtain ⟨-, -, rfl⟩ := step_finished finished
    exact h
  case case3 s s' onward ih => exact ih (h.step onward) read

theorem finish (closeBlocks : Bool) : ∀ t ∈ finish s closeBlocks, t.Spelled := by
  have last : ∀ t ∈ (s.nextLine []).tokens, t.Spelled := by
    unfold LexState.nextLine
    dsimp only
    split
    · exact h
    · exact List.forall_mem_cons.2 ⟨.of_kind (by simp), h⟩
  rw [finish_eq]
  refine List.forall_mem_append.2 ⟨List.forall_mem_append.2 ⟨?_, fun t inside => ?_⟩, ?_⟩
  · simpa using last
  · obtain ⟨_, -, rfl⟩ := List.mem_map.1 inside
    exact .of_kind (by simp)
  · exact List.forall_mem_singleton.2 (.of_kind (by simp))

end AllSpelled

/-- No block ends where it begins, and names are spelled as names are. -/
structure Settled (ts : List Token) : Prop where
  blocks : ∀ before t u after, ts = before ++ t :: u :: after → isIndent t = true → isDedent u = false
  names : ∀ t ∈ ts, t.Spelled

namespace Settled

theorem of_suffix {ts rest : List Token} (h : Settled ts) (suffix : rest <:+ ts) : Settled rest := by
  obtain ⟨passed, rfl⟩ := suffix
  refine ⟨fun before t u after same => ?_, fun t inside => h.names t (List.mem_append_right _ inside)⟩
  exact h.blocks (passed ++ before) t u after (by rw [same, List.append_assoc])

/-- Behind the beginning of a block stands no end of one. -/
theorem behind_indent {ts : List Token} (h : Settled ts) (opens : isIndent (front ts) = true) :
    isDedent (front ts.tail) = false := by
  match ts with
  | [] | [_] => rfl
  | t :: u :: after => exact h.blocks [] t u after rfl opens

theorem of_tokenize {source : String} {mode : Mode} {tokens : List Token}
    (read : tokenize source mode = .ok tokens) : Settled tokens := by
  unfold tokenize at read
  cases lexed : Token.run (.ofString source) with
  | error error =>
    rw [lexed] at read
    cases read
  | ok last =>
    rw [lexed] at read
    cases read
    obtain ⟨sound, outside⟩ := run_sound (sound_ofString source) lexed
    have formed := run_formed (formed_ofString source) (sound_ofString source) lexed
    have whole := wellFormed_finish (formed_nextLine formed sound outside)
      (sound.nextLine outside []) outside (mode = .script || endsWithBlankLine source)
    refine ⟨fun before t u after same opens => ?_, AllSpelled.finish (AllSpelled.run ?_ lexed) _⟩
    · -- A block ends behind the end of a line or of another block.
      have fits := whole.fits (before ++ [t]) u after (same.trans (by simp))
      by_contra closes
      obtain ⟨p, last, ends⟩ := fits.dedent (by simpa using closes)
      obtain rfl : t = p := by simpa using last
      cases kind : t.kind <;> simp_all [isIndent, isNewline, isDedent]
    · intro t inside
      cases inside

end Settled

end Console.Token
