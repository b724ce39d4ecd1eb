import Console.Proofs.Completeness
import Console.Proofs.Tree.Beginnings

/-!
# Units typed by hand and scripts

A source that is a unit is a script with the same statements and features. A script that ends in a
blank line is a unit if one of its lines at most begins a statement.
-/

namespace Console

open Token Parse

namespace Parse

variable {tokens rest : List Token} {t t' : Bool}

theorem map_fst_ok {body : List Statement} {r : Except SyntaxError (List Statement × List Token)}
    (read : r.map Prod.fst = .ok body) : ∃ rest, r = .ok (body, rest) := by
  cases r with
  | error error => cases read
  | ok x =>
    cases read
    exact ⟨x.2, rfl⟩

/-- The depth of reading that whole streams get is more than their statements need. -/
theorem within_enoughFuel {lines : List Token} {f : Nat} (same : tokens = lines ++ rest)
    (fuel : enoughFuel tokens = f + 1) :
    Within (f + 1) f (16 * rest.length + 14) := by
  have shorter : rest.length ≤ tokens.length := by rw [same]; simp
  unfold enoughFuel at fuel
  unfold Within
  omega

/-- One statement at most, read alone, is all that a stream writes. -/
theorem script_of_single {body : List Statement} (read : program tokens .single t = .ok body) :
    program tokens .script t' = .ok body := by
  obtain ⟨lines, rest, skipped, same, -⟩ := skipNewlines_ok (enoughFuel tokens) tokens
  obtain ⟨f, fuel⟩ : ∃ f, enoughFuel tokens = f + 1 := ⟨_, rfl⟩
  rw [program_single skipped] at read
  rw [program_script skipped]
  obtain ⟨left, alone⟩ := map_fst_ok read
  rw [fuel] at alone ⊢
  rw [statements_of_oneStatement (within_enoughFuel same fuel) alone]
  rfl

/-- All statements that a stream writes can be read as one if one line at most begins any. -/
theorem single_of_script {body : List Statement} (few : beginnings 0 true tokens ≤ 1)
    (read : program tokens .script t' = .ok body) : program tokens .single t = .ok body := by
  obtain ⟨lines, rest, skipped, same, newlines⟩ := skipNewlines_ok (enoughFuel tokens) tokens
  obtain ⟨f, fuel⟩ : ∃ f, enoughFuel tokens = f + 1 := ⟨_, rfl⟩
  rw [program_script skipped] at read
  rw [program_single skipped]
  obtain ⟨left, all⟩ := map_fst_ok read
  have few : beginnings 0 true rest ≤ 1 := by
    rwa [same, beginnings_newlines newlines] at few
  rw [fuel] at all ⊢
  rw [oneStatement_of_statements (within_enoughFuel same fuel) few all]
  rfl

/-- Where one statement is all that a stream writes, no block is open at its end. -/
theorem depth_of_single {B : List Token} {e : Token} {body : List Statement}
    (inside : ∀ x ∈ B, isEnd x = false) (ending : isEnd e = true)
    (read : program (B ++ [e]) .single t = .ok body) : depth B = 0 := by
  have closed {before rest : List Token} (same : B ++ [e] = before ++ rest)
      (none_open : depth before = 0) (last : isEnd (front rest) = true) : depth B = 0 := by
    rcases List.append_eq_append_iff.1 same with ⟨more, rfl, tail⟩ | ⟨more, rfl, rfl⟩
    · cases more with
      | nil => simpa using none_open
      | cons x more =>
        obtain ⟨rfl, nothing⟩ := List.cons.inj tail
        obtain ⟨rfl, rfl⟩ := List.append_eq_nil_iff.1 nothing.symm
        simpa [kind_of_isEnd ending, depthOf] using none_open
    · cases more with
      | nil => simpa using none_open
      | cons x more => simp [inside x (by simp), front] at last
  obtain ⟨lines, rest, skipped, same, newlines⟩ :=
    skipNewlines_ok (enoughFuel (B ++ [e])) (B ++ [e])
  rw [program_single skipped] at read
  obtain ⟨left, alone⟩ := map_fst_ok read
  obtain ⟨ending, ⟨rfl, -⟩ | ⟨-, taken⟩⟩ := oneStatement_cases alone
  · exact closed same (depth_newlines newlines) ending
  · obtain ⟨words, last, rfl, -, opened⟩ :=
      (((reach t t _ _).statement (.inl rfl) false false).ok taken).2
    refine @closed (lines ++ (words ++ [last])) left ?_ ?_ ending
    · rw [same]
      simp
    · rw [depth_append, depth_newlines newlines, opened]
      rfl

end Parse

namespace Program

theorem ofTokens_ok {tokens : List Token} {mode : Mode} {t : Bool} {program : Program}
    (read : ofTokens tokens mode t = .ok program) :
    ∃ body, Parse.program tokens mode t = .ok body ∧
      ∀ mode' t', Parse.program tokens mode' t' = .ok body →
        ofTokens tokens mode' t' = .ok program := by
  cases parsed : Parse.program tokens mode t with
  | error error =>
    unfold ofTokens at read
    rw [parsed] at read
    cases read
  | ok body =>
    refine ⟨body, rfl, fun mode' t' parsed' => ?_⟩
    unfold ofTokens at read ⊢
    rw [parsed] at read
    rwa [parsed']

/-- Where a source is a unit, no block of it is left open, so that its tokens are those of a
script. -/
theorem tokenize_of_single {source : String} {unit : Program}
    (read : compile source .single = .ok unit) :
    ∃ tokens, tokenize source .single = .ok tokens ∧ tokenize source .script = .ok tokens := by
  cases lexed : run (.ofString source) with
  | error error =>
    rw [compile_of_error (tokenize_of_error lexed)] at read
    cases read
  | ok last =>
    refine ⟨_, tokenize_of_run lexed, ?_⟩
    unfold tokenize
    rw [lexed]
    cases blank : endsWithBlankLine source with
    | true => rfl
    | false =>
      have goesOn := tokenize_open lexed blank
      rw [compile_of_tokenize goesOn] at read
      obtain ⟨body, parsed, -⟩ := ofTokens_ok read
      have closed := depth_of_single (linesOf_whole lexed).inside rfl parsed
      rw [depth_linesOf lexed] at closed
      have level : last.indents = [] := List.eq_nil_of_length_eq_zero (by omega)
      simp [Except.map, finish, level]

/-- A unit typed by hand means the same as a script: the one compiles to the program that the other
compiles to. In the other direction the source has to end in a blank line, and one line of it at most
may begin a statement outside all blocks. -/
theorem units_and_scripts_agree (source : String) :
    (∀ unit, compile source .single = .ok unit → compile source .script = .ok unit) ∧
      (endsWithBlankLine source = true → ∀ tokens script, tokenize source .script = .ok tokens →
        beginnings 0 true tokens ≤ 1 → compile source .script = .ok script →
        compile source .single = .ok script) := by
  refine ⟨fun unit read => ?_, fun blank tokens script lexed few read => ?_⟩
  · obtain ⟨tokens, single, script⟩ := tokenize_of_single read
    rw [compile_of_tokenize single] at read
    rw [compile_of_tokenize script]
    obtain ⟨body, parsed, same⟩ := ofTokens_ok read
    exact same _ _ (script_of_single parsed)
  · have single : tokenize source .single = .ok tokens := by
      unfold tokenize at lexed ⊢
      rwa [blank]
    rw [compile_of_tokenize lexed] at read
    rw [compile_of_tokenize single]
    obtain ⟨body, parsed, same⟩ := ofTokens_ok read
    exact same _ _ (single_of_script few parsed)

/-- A statement without a line end, and a conditional with another branch. -/
theorem conditional_is_unit_and_script :
    (∃ unit, compile "x = 1" .single = .ok unit ∧ compile "x = 1" .script = .ok unit) ∧
    ∃ script, compile "if x:\n  y\nelse:\n  z\n" .script = .ok script ∧
      compile "if x:\n  y\nelse:\n  z\n" .single = .ok script := by
  have ok (source : String) (mode : Mode) (compiles : (compile source mode).toBool = true) :
      ∃ program, compile source mode = .ok program := by
    cases answer : compile source mode with
    | error error =>
      rw [answer] at compiles
      cases compiles
    | ok program => exact ⟨program, rfl⟩
  obtain ⟨unit, single⟩ := ok "x = 1" .single (by decide +kernel)
  obtain ⟨script, all⟩ := ok "if x:\n  y\nelse:\n  z\n" .script (by decide +kernel)
  refine ⟨⟨unit, single, (units_and_scripts_agree _).1 unit single⟩, script, all, ?_⟩
  have few : (tokenize "if x:\n  y\nelse:\n  z\n" .script).toOption.map (beginnings 0 true) =
      some 1 := by decide +kernel
  cases lexed : tokenize "if x:\n  y\nelse:\n  z\n" .script with
  | error error =>
    rw [lexed] at few
    cases few
  | ok tokens =>
    rw [lexed] at few
    exact (units_and_scripts_agree _).2 (by decide +kernel) tokens script lexed
      (Option.some.inj few).le all

end Program

end Console
