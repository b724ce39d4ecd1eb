import Console.Proofs.Completeness
import Console.Proofs.Token.OpenBrackets
import Console.Proofs.Tree.BlockProspects

/-!
# An open bracket

The lexer says that a bracket is missing before the parser has seen any token. Whatever the text goes
on with, the tokens begin with those it has read, so a fault for good among them is there to stay, and
so is something assigned that is no target. Without either, words that close the brackets, the end of
their line and a blank line make the text a unit.
-/

namespace Console

open Text Token Parse LexState

namespace Token

variable {ts base : List Token} {kinds : List TokenKind} {more : String}

theorem length_grown (more : String) (ts : List Token) : (grown more ts).length = ts.length := by
  unfold grown
  split <;> rfl

theorem mem_of_mem_grown {x : Token} (mem : x ∈ grown more ts) (aim : isAim x.kind = true) :
    x ∈ ts := by
  unfold grown at mem
  split at mem
  · rcases List.mem_cons.1 mem with rfl | mem
    · cases aim
    · exact List.mem_cons_of_mem _ mem
  · exact mem

/-- A literal that keeps its kind has not gone on. -/
theorem grown_eq_of_kinds (same : (grown more ts).map Token.kind = ts.map Token.kind) :
    grown more ts = ts := by
  unfold grown at *
  split
  · simp only [List.map_cons, List.cons.injEq] at same
    rw [same.1]
  · rfl

/-- Tokens are told by their kinds if the first of them stay. -/
theorem exists_added (after : grown more base <:+ ts)
    (same : ts.map Token.kind = kinds ++ base.map Token.kind) :
    ∃ added, ts = added ++ base ∧ added.map Token.kind = kinds := by
  obtain ⟨added, rfl⟩ := after
  rw [List.map_append] at same
  obtain ⟨first, last⟩ := List.append_inj' same (by simp [length_grown])
  exact ⟨added, by rw [grown_eq_of_kinds last], first⟩

end Token

/-- Only the lexer lacks a bracket. -/
theorem Parse.program_lacks_no_bracket {tokens : List Token} {t : Bool} {error : SyntaxError}
    (failed : program tokens .single t = .error error) :
    error.fault ≠ .incomplete .closingBracket := by
  let watch : Watch (t || Mode.single = .script) := {
    tokens := fun _ => True
    errors := fun e => e.fault ≠ .incomplete .closingBracket
    nothing := trivial
    final := by
      rintro x f - final rfl
      cases final
    misplaced := by
      intro x _
      unfold unexpectedFault
      split
      · simp only [SyntaxError.of]
        split <;> simp
      all_goals simp [SyntaxError.of]
    bodiless := by
      intro x _
      simp only [SyntaxError.of]
      split <;> simp }
  have given := gives_program watch (fun x (_ : x ∈ tokens) => trivial)
  rwa [failed] at given

namespace Token

/-- A text with a line end at its end ends with a blank line. -/
theorem endsWithBlankLine_lineEnd (text : String) (line : List Char) :
    endsWithBlankLine (text ++ "\n" ++ String.ofList (line ++ ['\n'])) = true := by
  have split : (text ++ "\n" ++ String.ofList (line ++ ['\n'])).toList =
      (text.toList ++ '\n' :: line) ++ '\n' :: [] := by
    simp [String.toList_append, show "\n".toList = ['\n'] from rfl]
  unfold endsWithBlankLine
  rw [split, pieces_append, List.reverse_append]
  obtain ⟨p, ps, pieces⟩ := List.exists_cons_of_ne_nil
    (List.reverse_ne_nil_iff.2 (pieces_ne_nil '\n' (text.toList ++ '\n' :: line)))
  rw [pieces]
  rfl

/-- The tokens read of a source, if a literal at their end goes on with `more`. -/
def tokensGrown (source more : String) : List Token :=
  (grown more (stop (.ofString source)).tokens).reverse

theorem length_tokensGrown (source more : String) :
    (tokensGrown source more).length = (tokensRead source).length := by
  simp [tokensGrown, tokensRead, length_grown]

section

variable {source : String} {error : SyntaxError} (failed : run (.ofString source) = .error error)
  (lacks : error.fault = .incomplete .closingBracket)
include failed lacks

/-- Whatever further lines are, the tokens begin with those read before. -/
theorem tokens_of_longer {more : String} {tokens : List Token}
    (read : tokenize (source ++ "\n" ++ more) .single = .ok tokens) :
    ∃ more' D, tokens = tokensGrown source more' ++ D := by
  obtain ⟨opened, further⟩ :=
    open_of_run (sound_ofString source) (formed_ofString source) failed lacks
  obtain ⟨pos, onward⟩ := opened.run_followed more.toList
  rw [← further, ← ofString_append] at onward
  generalize (⟨more.toList, pos⟩ : Cursor) = c at onward
  cases ended : run { stop (.ofString source) with cursor := c } with
  | error error =>
    rw [tokenize_of_error (onward.trans ended)] at read
    cases read
  | ok last =>
    rw [tokenize_of_run (onward.trans ended)] at read
    cases read
    obtain ⟨more', added, kept⟩ := run_keeps (opened.sound.at c) ended
    obtain ⟨R, ends, -⟩ := finish_tokens last (endsWithBlankLine (source ++ "\n" ++ more))
    refine ⟨more', added.reverse ++ R, ?_⟩
    rw [ends, ← kept, List.reverse_append, List.append_assoc, tokensGrown]

/-- The tokens stand inside a bracket. -/
theorem unclosed_tokensGrown (more : String) :
    Unclosed (∃ x ∈ tokensRead source, isAim x.kind = true) (tokensGrown source more) := by
  obtain ⟨opened, -⟩ :=
    open_of_run (sound_ofString source) (formed_ofString source) failed lacks
  obtain ⟨v, word, sound, formed, -, brackets, -, tokens, -⟩ := opened.grows more
  rw [tokensGrown, ← tokens]
  refine ⟨fun x mem => sound.inside x (List.mem_reverse.1 mem), fun x mem aim => ?_, ?_⟩
  · rw [tokens, List.mem_reverse] at mem
    exact ⟨x, List.mem_reverse.2 (mem_of_mem_grown mem aim), aim⟩
  · obtain ⟨b, outer, same⟩ := List.exists_cons_of_ne_nil opened.opened
    exact ⟨_, _, formed.brackets.trans (by rw [brackets, same]; rfl)⟩

/-- To the lexer nothing is wanting but the signs that close the brackets. -/
theorem completed_by_closing (more : String) :
    Completed (fun _ => True) (tokensGrown source more) := by
  obtain ⟨opened, -⟩ :=
    open_of_run (sound_ofString source) (formed_ofString source) failed lacks
  obtain ⟨v, word, sound, formed, -, -, -, tokens, -⟩ := opened.grows more
  rw [tokensGrown, ← tokens]
  refine ⟨(v.brackets.map (·.1)).map fun b => .op b.closing, v.indents.length, fun kind mem => ?_,
    ⟨_, formed.brackets, nesting_closing _⟩, ?_, fun _ _ _ _ _ _ _ => trivial⟩
  · obtain ⟨b, -, rfl⟩ := List.mem_map.1 mem
    cases b <;> rfl
  · rw [depth_reverse, sound.opened]

/-- The words that complete the tokens, on a line of their own, end the line and all blocks. -/
theorem exists_longer {P : Except SyntaxError (List Statement) → Prop} (more : String)
    (completed : Completed P (tokensGrown source more)) :
    ∃ text tail, endsWithBlankLine (source ++ "\n" ++ text) = true ∧
      tokenize (source ++ "\n" ++ text) .single = .ok (tokensGrown source more ++ tail) ∧
        (∀ x ∈ tail, isSpare x.kind = true ∨ isLayout x = true) ∧
          P (Parse.program (tokensGrown source more ++ tail) .single true) := by
  obtain ⟨C, k, spare, ⟨σ, known, closes⟩, blocks, holds⟩ := completed
  obtain ⟨opened, further⟩ :=
    open_of_run (sound_ofString source) (formed_ofString source) failed lacks
  obtain ⟨v, word, sound, formed, inline, brackets, indents, tokens, lexed⟩ := opened.grows more
  rw [tokensGrown, ← tokens] at known blocks holds ⊢
  obtain rfl : v.brackets.map (·.1) = σ := Option.some.inj (formed.brackets.symm.trans known)
  obtain ⟨pos, onward⟩ := lexed (writtenLine C ++ ['\n'])
  obtain ⟨last, ended, start, closed, kinds⟩ :=
    run_line (s := { v with cursor := ⟨writtenLine C ++ ['\n'], pos⟩ }) inline spare closes rfl
  obtain ⟨more', after⟩ := run_keeps (sound.at _) ended
  obtain ⟨added, whole, words⟩ := exists_added after (kinds.trans (List.cons_append ..).symm)
  obtain ⟨R, ends, shut⟩ := finish_closed start
  rw [closed] at shut
  have blank := endsWithBlankLine_lineEnd source (word ++ writtenLine C)
  have spelled : added.reverse.map Token.kind = C ++ [.newline] := by
    rw [List.map_reverse, words]
    simp
  refine ⟨_, added.reverse ++ R, blank, ?_, fun x mem => ?_, ?_⟩
  · have same :
        run (.ofString (source ++ "\n" ++ String.ofList (word ++ writtenLine C ++ ['\n']))) =
          .ok last := by
      rw [ofString_append, further, String.toList_ofList, List.append_assoc, onward, ended]
    rw [tokenize_of_run same, blank, ends, whole, List.reverse_append, List.append_assoc]
  · rcases List.mem_append.1 mem with word | behind
    · have kind := List.mem_map_of_mem (f := Token.kind) word
      rw [spelled, List.mem_append, List.mem_singleton] at kind
      rcases kind with written | newline
      · exact .inl (spare _ written)
      · exact .inr (by simp [isLayout, newline])
    · obtain ⟨closed, dedents, -, rfl⟩ := shut
      rcases List.mem_append.1 behind with dedent | last
      · exact .inr (by simp [isLayout, dedents x dedent])
      · obtain rfl := List.mem_singleton.1 last
        exact .inr rfl
  · refine holds true _ R [⟨.endMarker, last.cursor.pos⟩] (spells_of_map spelled R) ?_ rfl
    rw [depth_reverse, sound.opened] at blocks
    rwa [Int.ofNat.inj blocks]

end

end Token

namespace Program

/-- A source lacks a bracket where its lexer does. -/
theorem run_of_open_bracket {source : String} {error : SyntaxError}
    (failed : compile source .single = .error error)
    (lacks : error.fault = .incomplete .closingBracket) :
    run (.ofString source) = .error error := by
  cases read : run (.ofString source) with
  | error error' =>
    rw [compile_of_error (tokenize_of_error read)] at failed
    cases failed
    rfl
  | ok last =>
    rw [compile_of_tokenize (tokenize_of_run read)] at failed
    rcases ofTokens_error failed with failed | ⟨body, -, failed⟩
    · exact absurd lacks (program_lacks_no_bracket failed)
    · have final := futureFrom_final failed
      simp [SyntaxError.isIncomplete, lacks, SyntaxFault.missing?] at final

/-- Behind the tokens of a text there are only words of completions, and ends of lines and blocks. -/
def OnlySpare (source : String) (tokens : List Token) : Prop :=
  ∀ x ∈ tokens.drop (tokensRead source).length, isSpare x.kind = true ∨ isLayout x = true

/-- There are further lines of words of completions that can be read as tokens. -/
def Closable (source : String) : Prop :=
  ∃ more tokens, tokenize (source ++ "\n" ++ more) .single = .ok tokens ∧ OnlySpare source tokens

/-- Words of completions on further lines make a unit of the text. -/
def Curable (source : String) : Prop :=
  ∃ more tokens unit, tokenize (source ++ "\n" ++ more) .single = .ok tokens ∧
    OnlySpare source tokens ∧ compile (source ++ "\n" ++ more) .single = .ok unit

/-- One of the tokens of the text, or of the next two, is a fault for good, whatever the further lines
are. -/
def Faulty (source : String) : Prop :=
  ∀ more tokens, tokenize (source ++ "\n" ++ more) .single = .ok tokens →
    ∃ fault n, SyntaxFault.missing? fault = none ∧ n ≤ (tokensRead source).length + 1 ∧
      compile (source ++ "\n" ++ more) .single = .error (.of fault (front (tokens.drop n)).pos)

/-- The text aims at something and misses it: no further lines make a unit of it, and behind words of
completions the fault is that something is no target, or an import from the future. -/
def Misaimed (source : String) : Prop :=
  (∃ x ∈ tokensRead source, isAim x.kind = true) ∧
    (∀ more unit, compile (source ++ "\n" ++ more) .single ≠ .ok unit) ∧
      ∃ more tokens error, tokenize (source ++ "\n" ++ more) .single = .ok tokens ∧
        OnlySpare source tokens ∧ compile (source ++ "\n" ++ more) .single = .error error ∧
          (isMisdirected error.fault = true ∨ isFutureFault error.fault = true)

section

variable {source : String} {error : SyntaxError} (failed : run (.ofString source) = .error error)
  (lacks : error.fault = .incomplete .closingBracket)
include failed lacks

/-- Further lines that bring what completes the tokens. -/
theorem exists_compiled {P : Except SyntaxError (List Statement) → Prop} {more : String}
    (completed : Completed P (tokensGrown source more)) :
    ∃ text tokens, tokenize (source ++ "\n" ++ text) .single = .ok tokens ∧
      OnlySpare source tokens ∧ P (Parse.program tokens .single true) ∧
        compile (source ++ "\n" ++ text) .single = ofTokens tokens .single true := by
  obtain ⟨text, tail, blank, read, spare, holds⟩ := exists_longer failed lacks more completed
  refine ⟨text, _, read, ?_, holds, ?_⟩
  · rw [OnlySpare, ← length_tokensGrown source more, List.drop_left]
    exact spare
  · rw [compile_of_tokenize read, blank]

theorem closable : Closable source := by
  obtain ⟨text, tokens, read, spare, -⟩ :=
    exists_compiled failed lacks (completed_by_closing failed lacks "")
  exact ⟨text, tokens, read, spare⟩

theorem curable_of_completed {more : String} (completed : Completed
      (fun r => ∃ body, Stage.leading.Keeps body ∧ r = .ok body) (tokensGrown source more)) :
    Curable source := by
  obtain ⟨text, tokens, read, spare, ⟨body, ⟨future, imported⟩, parsed⟩, compiled⟩ :=
    exists_compiled failed lacks completed
  exact ⟨text, tokens, ⟨body, future⟩, read, spare,
    compiled.trans (ofTokens_eq_ok_iff.2 ⟨parsed, imported⟩)⟩

/-- What cannot be cured by words of completions cannot be cured at all. -/
theorem compile_ne_ok (incurable : ¬ Curable source) (more : String) (unit : Program) :
    compile (source ++ "\n" ++ more) .single ≠ .ok unit := by
  intro compiled
  obtain ⟨tokens, read⟩ : ∃ tokens, tokenize (source ++ "\n" ++ more) .single = .ok tokens := by
    cases read : tokenize (source ++ "\n" ++ more) .single with
    | error e =>
      rw [compile_of_error read] at compiled
      cases compiled
    | ok tokens => exact ⟨tokens, rfl⟩
  rw [compile_of_tokenize read, ofTokens_eq_ok_iff] at compiled
  obtain ⟨parsed, imported⟩ := compiled
  obtain ⟨more', D, rfl⟩ := tokens_of_longer failed lacks read
  rcases program_prospect (unclosed_tokensGrown failed lacks more') with
    hopeless | ⟨-, astray⟩ | completed
  · obtain ⟨fault, n, -, -, rejected⟩ := hopeless (endsWithBlankLine (source ++ "\n" ++ more)) D
    rw [rejected] at parsed
    cases parsed
  · exact astray _ D _ parsed ⟨_, imported⟩
  · exact incurable (curable_of_completed failed lacks completed)

/-- If not all hope is lost, words of completions bring out what is missed. -/
theorem misaimed_of_hopeful (incurable : ¬ Curable source) {more : String}
    (hopeful : ¬ Hopeless (tokensGrown source more)) : Misaimed source := by
  have unclosed := unclosed_tokensGrown failed lacks more
  obtain ⟨aim, astray⟩ : (∃ x ∈ tokensRead source, isAim x.kind = true) ∧ _ :=
    ((program_prospect unclosed).resolve_left hopeful).resolve_right fun completed =>
      incurable (curable_of_completed failed lacks completed)
  obtain ⟨text, tokens, read, spare, parsed, compiled⟩ :=
    exists_compiled failed lacks (program_completed unclosed hopeful)
  refine ⟨aim, compile_ne_ok failed lacks incurable, text, tokens, ?_⟩
  cases answer : ofTokens tokens .single true with
  | ok unit => exact absurd (compiled.trans answer) (compile_ne_ok failed lacks incurable text unit)
  | error error =>
    refine ⟨error, read, spare, compiled.trans answer, ?_⟩
    rcases ofTokens_error answer with failed | ⟨body, -, imported⟩
    · rcases parsed with ⟨body, read⟩ | ⟨e, fault, same⟩
      · cases read.symm.trans failed
      · cases same.symm.trans failed
        exact .inl fault
    · obtain ⟨s, -, fault, future, rfl⟩ := futureFrom_error imported
      exact .inr future

end

/-- Words close the brackets that a text lacks. Some of them make a unit of it, unless it is beyond hope:
one of its tokens is a fault for good, or it aims at something and misses it. -/
theorem open_bracket_is_cured_unless_hopeless {source : String} {error : SyntaxError}
    (failed : compile source .single = .error error)
    (lacks : error.fault = .incomplete .closingBracket) :
    Closable source ∧ (Curable source ∨ Faulty source ∨ Misaimed source) := by
  have stuck := run_of_open_bracket failed lacks
  refine ⟨closable stuck lacks, ?_⟩
  by_cases curable : Curable source
  · exact .inl curable
  by_cases hopeless : ∀ more, Hopeless (tokensGrown source more)
  · refine .inr (.inl fun more tokens read => ?_)
    obtain ⟨more', D, rfl⟩ := tokens_of_longer stuck lacks read
    obtain ⟨fault, n, final, near, rejected⟩ :=
      hopeless more' (endsWithBlankLine (source ++ "\n" ++ more)) D
    rw [length_tokensGrown] at near
    refine ⟨fault, n, final, near, ?_⟩
    rw [compile_of_tokenize read, ofTokens, rejected]
    rfl
  · obtain ⟨more, hopeful⟩ := not_forall.1 hopeless
    exact .inr (.inr (misaimed_of_hopeful stuck lacks curable hopeful))

/-- A call inside a block that is left open in the middle of its arguments is curable. -/
theorem call_in_a_block_is_cured_unless_hopeless :
    ∃ error, compile "if a:\n  f(b=1, c" .single = .error error ∧
      error.fault = .incomplete .closingBracket ∧ Curable "if a:\n  f(b=1, c" := by
  have found : (match compile "if a:\n  f(b=1, c" .single with
      | .error error => error.fault
      | .ok _ => .invalidSyntax) = .incomplete .closingBracket := by decide +kernel
  have closed : (compile ("if a:\n  f(b=1, c" ++ "\n" ++ "=x)\n\n") .single).isOk = true := by
    decide +kernel
  cases answer : compile "if a:\n  f(b=1, c" .single with
  | ok unit =>
    rw [answer] at found
    cases found
  | error error =>
    rw [answer] at found
    refine ⟨error, rfl, found, ?_⟩
    obtain ⟨unit, compiled⟩ : ∃ unit, compile ("if a:\n  f(b=1, c" ++ "\n" ++ "=x)\n\n") .single =
        .ok unit := by
      cases read : compile ("if a:\n  f(b=1, c" ++ "\n" ++ "=x)\n\n") .single with
      | ok unit => exact ⟨unit, rfl⟩
      | error e =>
        rw [read] at closed
        cases closed
    rcases (open_bracket_is_cured_unless_hopeless answer found).2 with curable | faulty | misaimed
    · exact curable
    · cases read : tokenize ("if a:\n  f(b=1, c" ++ "\n" ++ "=x)\n\n") .single with
      | ok tokens =>
        obtain ⟨_, _, -, -, rejected⟩ := faulty _ tokens read
        cases rejected.symm.trans compiled
      | error e => cases (compile_of_error read).symm.trans compiled
    · exact absurd compiled (misaimed.2.1 _ unit)

/-- The lexer behind two numbers and a bracket that is left open. -/
def behindTwoNumbers (more : List Char) : LexState where
  cursor := ⟨more, ⟨5, 1, 5⟩⟩
  indents := []
  brackets := [(.round, ⟨4, 1, 4⟩)]
  lineStart := false
  tokens := [⟨.op "(", ⟨4, 1, 4⟩⟩, ⟨.int 1, ⟨2, 1, 2⟩⟩, ⟨.int 1, ⟨0, 1, 0⟩⟩]

theorem run_twoNumbers (more : String) :
    run (.ofString ("1 1 (" ++ more)) = run (behindTwoNumbers more.toList) := by
  simp only [LexState.ofString, Cursor.ofString, String.toList_append]
  generalize more.toList = rest
  calc
    _ = run ⟨⟨'1' :: ' ' :: '1' :: ' ' :: '(' :: rest, ⟨0, 1, 0⟩⟩, [], [], false, []⟩ := run_more rfl
    _ = run ⟨⟨' ' :: '1' :: ' ' :: '(' :: rest, ⟨1, 1, 1⟩⟩, [], [], false,
          [⟨.int 1, ⟨0, 1, 0⟩⟩]⟩ := run_more rfl
    _ = run ⟨⟨' ' :: '(' :: rest, ⟨3, 1, 3⟩⟩, [], [], false,
          [⟨.int 1, ⟨2, 1, 2⟩⟩, ⟨.int 1, ⟨0, 1, 0⟩⟩]⟩ := run_more rfl
    _ = run (behindTwoNumbers rest) := run_more rfl

/-- Behind one number there is another, and a bracket is left open: the bracket is all that the text
is said to lack, and whatever follows, it is no unit. -/
theorem hopeless_text_waits_for_its_bracket :
    (∃ error, compile "1 1 (" .single = .error error ∧ error.fault = .incomplete .closingBracket) ∧
      ∀ more, ∃ error, compile ("1 1 (" ++ more) .single = .error error := by
  have found : (match compile "1 1 (" .single with
      | .error error => error.fault
      | .ok _ => .invalidSyntax) = .incomplete .closingBracket := by decide +kernel
  refine ⟨?_, fun more => ?_⟩
  · cases answer : compile "1 1 (" .single with
    | ok unit =>
      rw [answer] at found
      cases found
    | error error =>
      rw [answer] at found
      exact ⟨error, rfl, found⟩
  · cases ended : run (behindTwoNumbers more.toList) with
    | error error =>
      exact ⟨_, compile_of_error (tokenize_of_error ((run_twoNumbers more).trans ended))⟩
    | ok last =>
      have sound : Sound (behindTwoNumbers more.toList) :=
        ⟨by simp [behindTwoNumbers, isEnd], rfl, fun start => by cases start⟩
      obtain ⟨added, kept⟩ :=
        run_extends_of_apart (by simp [behindTwoNumbers]) sound (List.suffix_refl _) ended
      obtain ⟨R, ends, -⟩ := finish_tokens last (endsWithBlankLine ("1 1 (" ++ more))
      rw [compile_of_tokenize (tokenize_of_run ((run_twoNumbers more).trans ended)), ends, ← kept,
        List.reverse_append]
      exact ⟨_, rfl⟩

end Program

end Console
