import Console.Proofs.Modes

/-!
# A blank line behind a header

Behind one blank line a text that lacks a body is tried with a body on its next line. It waits for more
where that body opens a block, and is rejected where the body stands too far to the left, whatever
could have been typed.
-/

namespace Console

open Text Token Parse Completeness LexState

/-- What is read as one statement is read so whether or not a blank line ends the source. -/
theorem Parse.program_single_ok {tokens : List Token} {t : Bool} {body : List Statement}
    (read : program tokens .single t = .ok body) (t' : Bool) :
    program tokens .single t' = .ok body := by
  obtain ⟨lines, rest, skipped, -, -⟩ := skipNewlines_ok (enoughFuel tokens) tokens
  rw [program_single skipped] at read ⊢
  obtain ⟨left, alone⟩ := map_fst_ok read
  have same : oneStatement ⟨t', false, false⟩ (enoughFuel tokens) rest = .ok (body, left) := by
    obtain ⟨ending, ⟨rfl, rfl⟩ | ⟨more, taken⟩⟩ := oneStatement_cases alone
    · exact oneStatement_end ending
    · have taken' := (((reach t t' _ _).statement (.inl rfl) false false).ok taken).1
      rw [oneStatement_ok more taken', if_pos ending]
  rw [same]
  rfl

/-- What the lines of a text come to before a blank line ends them. -/
def linesAlone (last : LexState) : Except SyntaxError Program :=
  Program.ofTokens (linesOf last ++ [⟨.endMarker, last.cursor.pos⟩]) .single false

section

variable {text : String} {last : LexState} (read : run (.ofString text) = .ok last)
include read

/-- A text that a program begins with is one itself, or only lacks a block or its end. -/
theorem linesAlone_cases {more : String} {program : Program}
    (compiles : Program.compile (text ++ "\n" ++ more) .single = .ok program) :
    (∃ unit, linesAlone last = .ok unit) ∨
      ∃ error missing, linesAlone last = .error error ∧ error.fault.missing? = some missing ∧
        (missing = .block ∨ missing = .blockEnd) := by
  have whole := linesOf_whole read
  cases lexed : tokenize (text ++ "\n" ++ more) .single with
  | error error =>
    rw [Program.compile_of_error lexed] at compiles
    cases compiles
  | ok tokens =>
    obtain ⟨R, same⟩ := tokenize_append read lexed
    rw [Program.compile_of_tokenize lexed, same] at compiles
    cases alone : linesAlone last with
    | ok unit => exact .inl ⟨unit, rfl⟩
    | error error =>
      right
      cases lacks : error.fault.missing? with
      | none =>
        have final : error.isIncomplete = false := by simp [SyntaxError.isIncomplete, lacks]
        obtain ⟨error', -, failed⟩ := Program.ofTokens_hopeless whole rfl alone final R
          (endsWithBlankLine (text ++ "\n" ++ more))
        rw [compiles] at failed
        cases failed
      | some missing =>
        have lacking := Program.ofTokens_lacking whole rfl alone lacks R true
        exact ⟨error, missing, rfl, lacks, lacking.2.1⟩

/-- A blank line ends the blocks that are open. -/
theorem tokenize_closed (blank : endsWithBlankLine text = true) :
    ∃ R, tokenize text .single = .ok (linesOf last ++ R) ∧
      Closes last.indents.length R [⟨.endMarker, last.cursor.pos⟩] := by
  refine ⟨last.indents.map (fun _ => ⟨.dedent, last.cursor.pos⟩) ++
    [⟨.endMarker, last.cursor.pos⟩], ?_, _, ?_, List.length_map _, rfl⟩
  · rw [tokenize_of_run read, blank]
    cases line : last.lineStart <;> simp [finish, linesOf, LexState.nextLine, line]
  · intro t mem
    obtain ⟨_, -, rfl⟩ := List.mem_map.1 mem
    rfl

theorem probe_of_unit (blank : endsWithBlankLine text = true) {unit : Program}
    (alone : linesAlone last = .ok unit) : probe text = .complete := by
  obtain ⟨body, parsed, same⟩ := Program.ofTokens_ok alone
  have level : last.indents.length = 0 := by
    have closed := depth_of_single (linesOf_whole read).inside rfl parsed
    rw [depth_linesOf read] at closed
    omega
  obtain ⟨R, lexed, closed, -, count, rfl⟩ := tokenize_closed read blank
  obtain rfl : closed = [] := List.length_eq_zero_iff.1 (count.trans level)
  refine probe_eq_complete.2 ⟨unit, ?_⟩
  rw [Program.compile_of_tokenize lexed, blank]
  exact same _ _ (program_single_ok parsed true)

theorem probe_of_blockEnd (blank : endsWithBlankLine text = true) {error : SyntaxError}
    (alone : linesAlone last = .error error) (lacks : error.fault.missing? = some .blockEnd) :
    probe text = .complete := by
  obtain ⟨R, lexed, closes⟩ := tokenize_closed read blank
  obtain ⟨⟨n, opened, cured⟩, -⟩ :=
    Program.ofTokens_lacking (linesOf_whole read) rfl alone lacks R true
  obtain rfl : n = last.indents.length := by
    have := depth_linesOf read
    omega
  obtain ⟨unit, compiles⟩ := cured _ closes rfl
  refine probe_eq_complete.2 ⟨unit, ?_⟩
  rw [Program.compile_of_tokenize lexed, blank]
  exact compiles

section

variable {error : SyntaxError} (alone : linesAlone last = .error error)
  (lacks : error.fault.missing? = some .block)
include alone lacks

/-- A text that lacks a block cannot go on without one. -/
theorem probe_of_withholds {longer : String} {R : List Token}
    (lexed : tokenize longer .single = .ok (linesOf last ++ R)) (withholds : Withholds R) :
    probe longer = .invalid := by
  obtain ⟨-, -, withheld⟩ := Program.ofTokens_lacking (linesOf_whole read) rfl alone lacks R
    (endsWithBlankLine longer)
  obtain ⟨error', final, failed⟩ := withheld rfl withholds
  refine probe_eq_invalid.2 ⟨error', ?_, final⟩
  rw [Program.compile_of_tokenize lexed]
  exact failed

theorem probe_of_deepBody {n : Nat} (deeper : last.column < n) :
    probe (text ++ "\n" ++ bodyLine n) ≠ .invalid := by
  intro invalid
  obtain ⟨error', failed, final⟩ := probe_eq_invalid.1 invalid
  have goesOn : endsWithBlankLine (text ++ "\n" ++ bodyLine n) = false := by
    apply not_endsWithBlankLine_of_visible (show isBlank 's' = false by decide)
    refine ⟨(text ++ "\n").toList ++ (spaces n ++ ['p', 'a', 's']), ?_⟩
    simp [bodyLine]
  obtain ⟨error'', failed', -⟩ := compile_hopeless goesOn failed final ""
  obtain ⟨program, compiles⟩ := compile_body read alone lacks deeper
  have same : text ++ "\n" ++ bodyLine n ++ "\n" ++ "" =
      text ++ "\n" ++ (String.ofList (spaces n) ++ "pass" ++ "\n") := by
    simp [bodyLine, String.append_assoc]
  rw [same, compiles] at failed'
  cases failed'

theorem probe_of_shallowBody {n : Nat} (shallow : n ≤ last.column) :
    probe (text ++ "\n" ++ bodyLine n) = .invalid := by
  obtain ⟨-, outside⟩ := run_sound (sound_ofString text) read
  have begins := toList_bodyLine n
  have onward := run_append read (bodyLine n)
  rcases run_body (s := last.nextLine (bodyLine n).toList) rfl outside begins with
    ⟨last', read'⟩ | ⟨error', final, failed⟩
  · obtain ⟨closed, p, q, tokens⟩ := run_shallowBody (s := last.nextLine (bodyLine n).toList) rfl
      outside begins shallow read'
    obtain ⟨R, ends, -⟩ := finish_tokens last' (endsWithBlankLine (text ++ "\n" ++ bodyLine n))
    have lexed : tokenize (text ++ "\n" ++ bodyLine n) .single =
        .ok (linesOf last ++ (List.replicate closed ⟨.dedent, p⟩ ++ ⟨.name "pass", q⟩ :: R)) := by
      rw [tokenize_of_run (onward.trans read'), ends, tokens]
      simp [linesOf, LexState.nextLine]
    apply probe_of_withholds read alone lacks lexed
    cases closed <;> simp [Withholds, front, isEnd, List.replicate_succ]
  · exact probe_eq_invalid.2
      ⟨error', Program.compile_of_error (tokenize_of_error (onward.trans failed)), final⟩

end

end

/-- A text that a program begins with lacks nothing that the lexer would miss for good. -/
theorem run_of_begun {text more : String} {program : Program} {error : SyntaxError}
    (compiles : Program.compile (text ++ "\n" ++ more) .single = .ok program)
    (failed : run (.ofString text) = .error error) : probe text = .incomplete := by
  cases final : error.isIncomplete with
  | true =>
    have same := Program.compile_of_error (tokenize_of_error failed)
    exact probe_eq_incomplete.2 ⟨error, same, final⟩
  | false =>
    have stuck := (run_followed (.ofString text) more.toList).2 error failed final
    rw [← ofString_append] at stuck
    rw [Program.compile_of_error (tokenize_of_error stuck)] at compiles
    cases compiles

/-- A text that begins a program is rejected behind a blank line just where it is none itself and the
body that is tried stands at no deeper column than the innermost open one. -/
theorem rejected_behind_blank_line_iff (text more : String) (program : Program)
    (blank : endsWithBlankLine text = true) (one : endsWithTwoBlankLines text = false)
    (compiles : Program.compile (text ++ "\n" ++ more) .single = .ok program) :
    classify text = .rejected ↔
      probe text = .invalid ∧ lastIndent text.toList + 4 ≤ openColumn text := by
  have tried : classify text = .rejected ↔
      probe text = .invalid ∧ probe (withBody text) = .invalid := by
    constructor
    · intro rejected
      have invalid := classify_eq_rejected rejected
      refine ⟨invalid, ?_⟩
      by_contra helped
      simp [classify, invalid, one, helped] at rejected
    · rintro ⟨invalid, useless⟩
      simp [classify, invalid, useless]
  rw [tried, withBody_eq]
  have positive : 0 < lastIndent text.toList + 4 := Nat.succ_pos _
  generalize lastIndent text.toList + 4 = n at positive
  cases read : run (.ofString text) with
  | error error => simp [run_of_begun compiles read]
  | ok last =>
    rw [openColumn_of_run read]
    rcases linesAlone_cases read compiles with
      ⟨unit, alone⟩ | ⟨error, missing, alone, lacks, rfl | rfl⟩
    · simp [probe_of_unit read blank alone]
    · by_cases deeper : last.column < n
      · have helps := probe_of_deepBody read alone lacks deeper
        simp [helps, Nat.not_le.2 deeper]
      · have shallow : n ≤ last.column := Nat.not_lt.1 deeper
        simp [probe_of_shallowBody read alone lacks shallow, shallow]
    · simp [probe_of_blockEnd read blank alone lacks]

/-- A header behind spaces, and one with a comment at the margin below it. -/
theorem header_and_comment_behind_blank_line :
    (∃ text more program, text = "if x:\n  if y:\n" ∧ more = "    pass\n" ∧
      endsWithBlankLine text = true ∧ endsWithTwoBlankLines text = false ∧
      Program.compile (text ++ "\n" ++ more) .single = .ok program ∧
      (classify text = .rejected ↔
        probe text = .invalid ∧ lastIndent text.toList + 4 ≤ openColumn text)) ∧
    ∃ text more program, text = "if x:\n      if y:\n# z\n" ∧ more = "        pass\n" ∧
      endsWithBlankLine text = true ∧ endsWithTwoBlankLines text = false ∧
      Program.compile (text ++ "\n" ++ more) .single = .ok program ∧
      (classify text = .rejected ↔
        probe text = .invalid ∧ lastIndent text.toList + 4 ≤ openColumn text) := by
  have complete : probe ("if x:\n  if y:\n" ++ "\n" ++ "    pass\n") = .complete := by
    decide +kernel
  have complete' : probe ("if x:\n      if y:\n# z\n" ++ "\n" ++ "        pass\n") =
      .complete := by
    decide +kernel
  obtain ⟨program, compiles⟩ := probe_eq_complete.1 complete
  obtain ⟨program', compiles'⟩ := probe_eq_complete.1 complete'
  have blank : endsWithBlankLine "if x:\n  if y:\n" = true := by decide +kernel
  have one : endsWithTwoBlankLines "if x:\n  if y:\n" = false := by decide +kernel
  have blank' : endsWithBlankLine "if x:\n      if y:\n# z\n" = true := by decide +kernel
  have one' : endsWithTwoBlankLines "if x:\n      if y:\n# z\n" = false := by decide +kernel
  exact ⟨⟨_, _, program, rfl, rfl, blank, one, compiles,
      rejected_behind_blank_line_iff _ _ program blank one compiles⟩,
    _, _, program', rfl, rfl, blank', one', compiles',
    rejected_behind_blank_line_iff _ _ program' blank' one' compiles'⟩

/-- A tab counts for nothing when the body is tried, and for eight columns when the text is read. -/
theorem tabbed_header_is_rejected_too_early :
    ∃ text more program, text = "if x:\n\tif y:\n" ∧ more = "\t\tpass\n" ∧
      endsWithBlankLine text = true ∧ endsWithTwoBlankLines text = false ∧
      Program.compile (text ++ "\n" ++ more) .single = .ok program ∧ classify text = .rejected := by
  have complete : probe ("if x:\n\tif y:\n" ++ "\n" ++ "\t\tpass\n") = .complete := by
    decide +kernel
  obtain ⟨program, compiles⟩ := probe_eq_complete.1 complete
  exact ⟨_, _, program, rfl, rfl, by decide +kernel, by decide +kernel, compiles,
    by decide +kernel⟩

end Console
