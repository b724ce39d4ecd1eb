import Console.Proofs.Program
import Console.Proofs.Text.Lines
import Console.Proofs.Token.Body
import Console.Proofs.Tree.Watching

/-!
# What more lines can make of a text

A text that is wrong for good stays wrong whatever is typed behind it. One that lacks a block or the
end of a block becomes a program with just that. Behind two blank lines a text lacks nothing but the
end of a bracket or of a literal.
-/

namespace Console

open Text Token Parse Completeness LexState

theorem ofString_append (text more : String) :
    LexState.ofString (text ++ "\n" ++ more) = (LexState.ofString text).followed more.toList := by
  simp [LexState.ofString, followed, Cursor.ofString, Cursor.followed, String.toList_append,
    show "\n".toList = ['\n'] from rfl]

theorem tokenize_of_run {text : String} {last : LexState}
    (read : run (.ofString text) = .ok last) :
    tokenize text .single = .ok (finish last (endsWithBlankLine text)) := by
  unfold tokenize
  rw [read]
  rfl

theorem tokenize_of_error {text : String} {error : SyntaxError}
    (failed : run (.ofString text) = .error error) : tokenize text .single = .error error := by
  unfold tokenize
  rw [failed]
  rfl

/-- The lines of a text that is read to its end, as tokens. -/
def linesOf (last : LexState) : List Token := (last.nextLine []).tokens.reverse

section

variable {text : String} {last : LexState} (read : run (.ofString text) = .ok last)
include read

theorem linesOf_whole : WholeLines (linesOf last) := by
  obtain ⟨sound, outside⟩ := run_sound (sound_ofString text) read
  exact (sound.nextLine outside []).wholeLines rfl

theorem depth_linesOf : depth (linesOf last) = last.indents.length := by
  obtain ⟨sound, outside⟩ := run_sound (sound_ofString text) read
  rw [linesOf, depth_reverse, (sound.nextLine outside []).opened]
  rfl

theorem tokenize_open (goesOn : endsWithBlankLine text = false) :
    tokenize text .single = .ok (linesOf last ++ [⟨.endMarker, last.cursor.pos⟩]) := by
  rw [tokenize_of_run read, goesOn, finish_open last []]
  rfl

theorem run_append (more : String) :
    run (.ofString (text ++ "\n" ++ more)) = run (last.nextLine more.toList) := by
  rw [ofString_append]
  exact (run_followed _ _).1 last read

/-- The longer text begins with the same lines. -/
theorem tokenize_append {more : String} {tokens : List Token}
    (read' : tokenize (text ++ "\n" ++ more) .single = .ok tokens) :
    ∃ R, tokens = linesOf last ++ R := by
  obtain ⟨sound, outside⟩ := run_sound (sound_ofString text) read
  have next := sound.nextLine outside more.toList
  cases onward : run (last.nextLine more.toList) with
  | error error =>
    rw [tokenize_of_error ((run_append read more).trans onward)] at read'
    cases read'
  | ok last' =>
    rw [tokenize_of_run ((run_append read more).trans onward)] at read'
    cases read'
    obtain ⟨added, same⟩ := run_extends (next.start rfl).2 next (List.suffix_refl _) onward
    obtain ⟨R, ends, -⟩ := finish_tokens last' (endsWithBlankLine (text ++ "\n" ++ more))
    refine ⟨added.reverse ++ R, ?_⟩
    rw [ends, ← same, List.reverse_append, List.append_assoc]
    rfl

end

/-- A text that ends in no blank line and is no program for good begins no program. Only its tokens
may end in what still lacks something. -/
theorem compile_hopeless {text : String} {error : SyntaxError}
    (goesOn : endsWithBlankLine text = false) (failed : Program.compile text .single = .error error)
    (final : error.isIncomplete = false) (more : String) :
    ∃ error', Program.compile (text ++ "\n" ++ more) .single = .error error' ∧
      (error'.isIncomplete = false ∨
        ∃ last, run (.ofString text) = .ok last ∧ run (last.nextLine more.toList) = .error error') := by
  cases read : run (.ofString text) with
  | error error' =>
    rw [Program.compile_of_error (tokenize_of_error read)] at failed
    cases failed
    have same := (run_followed (.ofString text) more.toList).2 error read final
    rw [← ofString_append] at same
    exact ⟨error, Program.compile_of_error (tokenize_of_error same), .inl final⟩
  | ok last =>
    rw [Program.compile_of_tokenize (tokenize_open read goesOn), goesOn] at failed
    cases onward : run (last.nextLine more.toList) with
    | error error' =>
      have stuck := tokenize_of_error ((run_append read more).trans onward)
      exact ⟨error', Program.compile_of_error stuck, .inr ⟨last, rfl, onward⟩⟩
    | ok last' =>
      have read' := tokenize_of_run ((run_append read more).trans onward)
      obtain ⟨R, same⟩ := tokenize_append read read'
      obtain ⟨error', final', failed'⟩ := Program.ofTokens_hopeless (linesOf_whole read) rfl failed
        final R (endsWithBlankLine (text ++ "\n" ++ more))
      refine ⟨error', ?_, .inl final'⟩
      rw [Program.compile_of_tokenize read', same]
      exact failed'

theorem probe_eq_complete {text : String} :
    probe text = .complete ↔ ∃ program, Program.compile text .single = .ok program := by
  unfold probe
  cases Program.compile text .single with
  | ok program => simp
  | error error => cases final : error.isIncomplete <;> simp [final]

theorem probe_eq_incomplete {text : String} :
    probe text = .incomplete ↔
      ∃ error, Program.compile text .single = .error error ∧ error.isIncomplete = true := by
  unfold probe
  cases Program.compile text .single with
  | ok program => simp
  | error error => cases lacks : error.isIncomplete <;> simp [lacks]

theorem probe_eq_invalid {text : String} :
    probe text = .invalid ↔
      ∃ error, Program.compile text .single = .error error ∧ error.isIncomplete = false := by
  unfold probe
  cases Program.compile text .single with
  | ok program => simp
  | error error => cases final : error.isIncomplete <;> simp [final]

/-- A line that holds a body. -/
def bodyLine (n : Nat) : String := String.ofList (spaces n) ++ "pass"

theorem toList_bodyLine (n : Nat) : (bodyLine n).toList = spaces n ++ bodyTail [] := by
  rw [bodyLine, String.toList_append, String.toList_ofList]
  rfl

theorem withBody_eq (text : String) :
    withBody text = text ++ "\n" ++ bodyLine (lastIndent text.toList + 4) := by
  exact String.append_assoc

/-- A body below does not help. -/
theorem probe_withBody {text : String} (goesOn : endsWithBlankLine text = false)
    (hopeless : probe text = .invalid) : probe (withBody text) = .invalid := by
  obtain ⟨error, failed, final⟩ := probe_eq_invalid.1 hopeless
  rw [withBody_eq]
  generalize lastIndent text.toList + 4 = n
  obtain ⟨error', failed', final' | ⟨last, read, stuck⟩⟩ :=
    compile_hopeless goesOn failed final (bodyLine n)
  · exact probe_eq_invalid.2 ⟨error', failed', final'⟩
  · refine probe_eq_invalid.2 ⟨error', failed', ?_⟩
    obtain ⟨-, outside⟩ := run_sound (sound_ofString text) read
    rcases run_body (s := last.nextLine (bodyLine n).toList) rfl outside (toList_bodyLine n) with
      ⟨last', read'⟩ | ⟨error'', final'', failed''⟩
    · rw [stuck] at read'
      cases read'
    · rw [stuck] at failed''
      cases failed''
      exact final''

theorem classify_hopeless {text : String} (goesOn : endsWithBlankLine text = false)
    (hopeless : probe text = .invalid) : classify text = .rejected := by
  unfold classify
  rw [hopeless, probe_withBody goesOn hopeless]
  simp

theorem classify_eq_rejected {text : String} (rejected : classify text = .rejected) :
    probe text = .invalid := by
  unfold classify at rejected
  split at rejected
  · cases rejected
  · cases rejected
  · assumption

/-- A text that is wrong for good is rejected, and begins no program. So while the lines of a program
are typed, they are never rejected behind a line that is not blank. -/
theorem rejected_text_begins_no_program :
    (∀ text, endsWithBlankLine text = false → probe text = .invalid →
      classify text = .rejected ∧
        ∀ more, ∃ error, Program.compile (text ++ "\n" ++ more) .single = .error error) ∧
    ∀ typed rest program, typed ≠ [] →
      Program.compile ("\n".intercalate (typed ++ rest)) .single = .ok program →
      endsWithBlankLine ("\n".intercalate typed) = false →
      classify ("\n".intercalate typed) ≠ .rejected := by
  have hopeless (text : String) (goesOn : endsWithBlankLine text = false)
      (invalid : probe text = .invalid) (more : String) :
      ∃ error, Program.compile (text ++ "\n" ++ more) .single = .error error := by
    obtain ⟨error, failed, final⟩ := probe_eq_invalid.1 invalid
    obtain ⟨error', failed', -⟩ := compile_hopeless goesOn failed final more
    exact ⟨error', failed'⟩
  refine ⟨fun text goesOn invalid => ⟨classify_hopeless goesOn invalid, hopeless text goesOn invalid⟩,
    fun typed rest program nonempty compiles goesOn rejected => ?_⟩
  have invalid := classify_eq_rejected rejected
  by_cases whole : rest = []
  · subst whole
    rw [List.append_nil] at compiles
    obtain ⟨error, failed, -⟩ := probe_eq_invalid.1 invalid
    rw [compiles] at failed
    cases failed
  · rw [String.intercalate_append_of_ne_nil nonempty whole] at compiles
    obtain ⟨error, failed⟩ := hopeless _ goesOn invalid ("\n".intercalate rest)
    rw [compiles] at failed
    cases failed

theorem unfinished_sum_begins_no_program :
    (endsWithBlankLine "1 +" = false ∧ probe "1 +" = .invalid ∧ classify "1 +" = .rejected ∧
      ∀ more, ∃ error, Program.compile ("1 +" ++ "\n" ++ more) .single = .error error) ∧
    probe "if x:\n  y\n" = .complete ∧ endsWithBlankLine "if x:" = false ∧
      classify "if x:" ≠ .rejected := by
  have goesOn : endsWithBlankLine "1 +" = false := by decide +kernel
  have invalid : probe "1 +" = .invalid := by decide +kernel
  have complete : probe "if x:\n  y\n" = .complete := by decide +kernel
  have header : endsWithBlankLine "if x:" = false := by decide +kernel
  obtain ⟨program, compiles⟩ := probe_eq_complete.1 complete
  exact ⟨⟨goesOn, invalid, rejected_text_begins_no_program.1 "1 +" goesOn invalid⟩, complete, header,
    rejected_text_begins_no_program.2 ["if x:"] ["  y", ""] program (by simp) compiles header⟩

/-- Where a source is terminated no failure asks for more text. -/
def settled : Watch true where
  tokens _ := True
  errors e := e.isIncomplete = false
  nothing := trivial
  final _ final := by simp [SyntaxError.of, SyntaxError.isIncomplete, final]
  misplaced _ := by
    unfold unexpectedFault
    split <;> rfl
  bodiless _ := rfl

/-- Behind a blank line only the lexer lacks anything. -/
theorem compile_terminated {text : String} (blank : endsWithBlankLine text = true)
    {error : SyntaxError} (failed : Program.compile text .single = .error error)
    (lacks : error.isIncomplete = true) : run (.ofString text) = .error error := by
  cases read : run (.ofString text) with
  | error error' =>
    rw [Program.compile_of_error (tokenize_of_error read)] at failed
    cases failed
    rfl
  | ok last =>
    rw [Program.compile_of_tokenize (tokenize_of_run read), blank] at failed
    rcases Program.ofTokens_error failed with stuck | ⟨body, -, late⟩
    · have final := @gives_program .single true settled (finish last true) fun _ _ => trivial
      rw [stuck] at final
      exact absurd lacks (Bool.eq_false_iff.1 final)
    · exact absurd lacks (Bool.eq_false_iff.1 (Program.futureFrom_final late))

/-- The innermost column that is open at the end of a text. -/
def openColumn (text : String) : Nat :=
  match run (.ofString text) with
  | .ok last => last.column
  | .error _ => 0

/-- A text that lacks a block or its end is read to its end, and not terminated. -/
theorem run_of_lacks {text : String} {error : SyntaxError} {missing : Missing}
    (failed : Program.compile text .single = .error error)
    (lacks : error.fault.missing? = some missing)
    (block : missing = .block ∨ missing = .blockEnd) :
    endsWithBlankLine text = false ∧ ∃ last, run (.ofString text) = .ok last := by
  have lexed : ∀ error', run (.ofString text) = .error error' → error' ≠ error := by
    rintro error' stuck rfl
    rcases run_lacks (sound_ofString text) stuck lacks with rfl | rfl | ⟨rfl, -⟩ <;>
      simp at block
  have incomplete : error.isIncomplete = true := by simp [SyntaxError.isIncomplete, lacks]
  constructor
  · cases blank : endsWithBlankLine text with
    | false => rfl
    | true => exact absurd rfl (lexed error (compile_terminated blank failed incomplete))
  · cases read : run (.ofString text) with
    | ok last => exact ⟨last, rfl⟩
    | error error' =>
      rw [Program.compile_of_error (tokenize_of_error read)] at failed
      cases failed
      exact absurd rfl (lexed error read)

/-- The text of a longer source makes a program if it brings what is missing. -/
theorem compile_cured {text : String} {last last' : LexState} {error : SyntaxError}
    {missing : Missing} {p : Position} (read : run (.ofString text) = .ok last)
    (failed : Program.ofTokens (linesOf last ++ [⟨.endMarker, p⟩]) .single false = .error error)
    (lacks : error.fault.missing? = some missing)
    (more : String) (onward : run (last.nextLine more.toList) = .ok last') {R S : List Token}
    (tokens : finish last' (endsWithBlankLine (text ++ "\n" ++ more)) = linesOf last ++ R)
    (cures : Cures missing last.indents.length R S) (ending : isEnd (front S) = true) :
    ∃ program, Program.compile (text ++ "\n" ++ more) .single = .ok program := by
  obtain ⟨⟨n, opened, cured⟩, -⟩ := Program.ofTokens_lacking (linesOf_whole read) rfl failed lacks R
    (endsWithBlankLine (text ++ "\n" ++ more))
  obtain rfl : n = last.indents.length := by
    have := depth_linesOf read
    omega
  obtain ⟨program, compiles⟩ := cured S cures ending
  refine ⟨program, ?_⟩
  rw [Program.compile_of_tokenize (tokenize_of_run ((run_append read more).trans onward)), tokens]
  exact compiles

/-- One blank line ends every block that is open. -/
theorem compile_blankLine {text : String} {error : SyntaxError}
    (failed : Program.compile text .single = .error error)
    (fault : error.fault = .incomplete .blockEnd) :
    ∃ program, Program.compile (text ++ "\n") .single = .ok program := by
  have lacks : error.fault.missing? = some .blockEnd := by rw [fault]; rfl
  obtain ⟨goesOn, last, read⟩ := run_of_lacks failed lacks (.inr rfl)
  obtain ⟨-, outside⟩ := run_sound (sound_ofString text) read
  have onward : run (last.nextLine []) = .ok (last.nextLine []) :=
    run_finished (step_over rfl outside rfl)
  obtain ⟨R, tokens, closes⟩ := finish_closed (s := last.nextLine []) rfl
  have blank : endsWithBlankLine (text ++ "\n" ++ "") = true := by
    rw [String.append_empty]
    exact endsWithBlankLine_append text
  rw [Program.compile_of_tokenize (tokenize_open read goesOn), goesOn] at failed
  have compiles := compile_cured read failed lacks "" onward (by rw [blank]; exact tokens) closes rfl
  rwa [String.append_empty] at compiles

theorem toList_bodyText (n : Nat) :
    (String.ofList (spaces n) ++ "pass" ++ "\n").toList = spaces n ++ bodyTail ['\n'] := by
  rw [String.toList_append, String.toList_append, String.toList_ofList, List.append_assoc]
  rfl

/-- A body at any deeper column is the body that is missing. -/
theorem compile_body {text : String} {last : LexState} {error : SyntaxError} {p : Position}
    (read : run (.ofString text) = .ok last)
    (failed : Program.ofTokens (linesOf last ++ [⟨.endMarker, p⟩]) .single false = .error error)
    (lacks : error.fault.missing? = some .block) {n : Nat} (deeper : last.column < n) :
    ∃ program, Program.compile
      (text ++ "\n" ++ (String.ofList (spaces n) ++ "pass" ++ "\n")) .single = .ok program := by
  obtain ⟨-, outside⟩ := run_sound (sound_ofString text) read
  have begins := toList_bodyText n
  have blank : endsWithBlankLine (text ++ "\n" ++ (String.ofList (spaces n) ++ "pass" ++ "\n")) =
      true := by
    rw [← String.append_assoc]
    exact endsWithBlankLine_append _
  revert begins blank
  generalize String.ofList (spaces n) ++ "pass" ++ "\n" = more
  intro begins blank
  obtain ⟨last', p, q, r, onward, start, indents, tokens⟩ :=
    run_bodyLine (s := last.nextLine more.toList) rfl outside begins deeper
  obtain ⟨R, ends, closes⟩ := finish_closed start
  rw [indents] at closes
  have cures : Cures .block last.indents.length
      (⟨.indent, p⟩ :: ⟨.name "pass", q⟩ :: ⟨.newline, r⟩ :: R)
      [⟨.endMarker, last'.cursor.pos⟩] :=
    ⟨_, _, _, R, rfl, rfl, rfl, rfl, closes⟩
  refine compile_cured read failed lacks more onward ?_ cures rfl
  rw [blank, ends, tokens]
  simp [linesOf, LexState.nextLine]

theorem openColumn_of_run {text : String} {last : LexState}
    (read : run (.ofString text) = .ok last) : openColumn text = last.column := by
  unfold openColumn
  rw [read]

theorem compile_bodyText {text : String} {error : SyntaxError}
    (failed : Program.compile text .single = .error error)
    (fault : error.fault = .incomplete .block) {n : Nat} (deeper : openColumn text < n) :
    ∃ program, Program.compile
      (text ++ "\n" ++ (String.ofList (spaces n) ++ "pass" ++ "\n")) .single = .ok program := by
  have lacks : error.fault.missing? = some .block := by rw [fault]; rfl
  obtain ⟨goesOn, last, read⟩ := run_of_lacks failed lacks (.inl rfl)
  rw [Program.compile_of_tokenize (tokenize_open read goesOn), goesOn] at failed
  rw [openColumn_of_run read] at deeper
  exact compile_body read failed lacks deeper

/-- A text that lacks a block becomes a program with one: a blank line ends all blocks that are open,
and a body at any deeper column is the body that is missing. -/
theorem incomplete_block_is_completed :
    (∀ text error, Program.compile text .single = .error error →
      error.fault = .incomplete .blockEnd →
      ∃ program, Program.compile (text ++ "\n") .single = .ok program) ∧
    ∀ text error n, Program.compile text .single = .error error →
      error.fault = .incomplete .block → openColumn text < n →
      ∃ program, Program.compile
        (text ++ "\n" ++ String.ofList (Text.spaces n) ++ "pass" ++ "\n") .single =
          .ok program := by
  refine ⟨fun text error failed fault => compile_blankLine failed fault,
    fun text error n failed fault deeper => ?_⟩
  obtain ⟨program, compiles⟩ := compile_bodyText failed fault deeper
  refine ⟨program, ?_⟩
  rw [← compiles, ← String.append_assoc, ← String.append_assoc]

theorem incomplete_loop_is_completed :
    (∃ program, Program.compile ("if x:\n  y" ++ "\n") .single = .ok program) ∧
    openColumn "if x:\n  while y:" = 2 ∧
    ∃ program, Program.compile
      ("if x:\n  while y:" ++ "\n" ++ String.ofList (spaces 3) ++ "pass" ++ "\n") .single =
        .ok program := by
  have lacking {text : String} {missing : Missing}
      (found : (match Program.compile text .single with
        | .error error => error.fault
        | .ok _ => .invalidSyntax) = .incomplete missing) :
      ∃ error, Program.compile text .single = .error error ∧
        error.fault = .incomplete missing := by
    cases answer : Program.compile text .single with
    | ok program =>
      rw [answer] at found
      cases found
    | error error =>
      rw [answer] at found
      exact ⟨error, rfl, found⟩
  have column : openColumn "if x:\n  while y:" = 2 := by decide +kernel
  obtain ⟨unclosed, failed, fault⟩ : ∃ error, Program.compile "if x:\n  y" .single =
      .error error ∧ error.fault = .incomplete .blockEnd := lacking (by decide +kernel)
  obtain ⟨missing, failed', fault'⟩ : ∃ error, Program.compile "if x:\n  while y:" .single =
      .error error ∧ error.fault = .incomplete .block := lacking (by decide +kernel)
  exact ⟨incomplete_block_is_completed.1 _ unclosed failed fault, column,
    incomplete_block_is_completed.2 _ missing 3 failed' fault' (by rw [column]; decide)⟩

/-- A bracket or a triple-quoted literal is open at the end of the text. -/
def LexicallyOpen (text : String) : Prop :=
  ∃ error, tokenize text .single = .error error ∧
    (error.fault = .incomplete .closingBracket ∨ error.fault = .incomplete .closingQuotes)

theorem eq_incomplete_of_missing {fault : SyntaxFault} {missing : Missing}
    (lacks : fault.missing? = some missing) : fault = .incomplete missing := by
  cases fault <;> cases lacks
  rfl

theorem classify_eq_needsMore {text : String} (two : endsWithTwoBlankLines text = true) :
    classify text = .needsMore ↔ LexicallyOpen text := by
  have blank := endsWithBlankLine_of_two two
  constructor
  · intro waits
    have incomplete : probe text = .incomplete := by
      unfold classify at waits
      split at waits
      · cases waits
      · assumption
      · simp [two] at waits
    obtain ⟨error, failed, lacks⟩ := probe_eq_incomplete.1 incomplete
    have stuck := compile_terminated blank failed lacks
    obtain ⟨missing, known⟩ := Option.isSome_iff_exists.1 lacks
    refine ⟨error, tokenize_of_error stuck, ?_⟩
    rcases run_lacks (sound_ofString text) stuck known with rfl | rfl | ⟨rfl, last⟩
    · exact .inl (eq_incomplete_of_missing known)
    · exact .inr (eq_incomplete_of_missing known)
    · -- The text does not end in a backslash, since its last line is blank.
      have := not_endsWithBlankLine_of_visible (show isBlank '\\' = false by decide) last
      rw [blank] at this
      cases this
  · rintro ⟨error, failed, fault⟩
    have lacks : error.isIncomplete = true := by
      rcases fault with fault | fault <;> simp [SyntaxError.isIncomplete, fault,
        SyntaxFault.missing?]
    unfold classify
    rw [probe_eq_incomplete.2 ⟨error, Program.compile_of_error failed, lacks⟩]

end Console
