import Console.Proofs.Tree.Continuation
import Console.Program

/-!
# One statement of a source that goes on

What the tokens of a text tell of the tokens of a longer text that begins with the same lines. A
program that fails for good fails whatever follows; a program that only lacks the rest of a block
becomes one with that rest.
-/

namespace Console

open Token Parse

namespace Parse

/-! ## Blank lines -/

/-- Blank lines in front of a statement are passed, whatever follows the statement. -/
theorem skipNewlines_lines {B : List Token} (whole : WholeLines B) :
    ∃ C, WholeLines C ∧ C.length ≤ B.length ∧ depth C = depth B ∧
      ∀ ts, (C ≠ [] ∨ isNewline (front ts) = false) → ∀ f, B.length ≤ f →
        skipNewlines f (B ++ ts) = .ok ((), C ++ ts) := by
  induction B with
  | nil =>
    refine ⟨[], .nil, Nat.le_refl _, rfl, fun ts other f _ => ?_⟩
    cases f with
    | zero => rfl
    | succ f =>
      rw [skipNewlines, run_atNewline]
      simp only [ne_eq, not_true_eq_false, false_or] at other
      simp [other]
      rfl
  | cons x B ih =>
    by_cases newline : isNewline x = true
    · obtain ⟨C, wholeC, le, same, skip⟩ := ih whole.tail
      refine ⟨C, wholeC, Nat.le_succ_of_le le, ?_, fun ts other f enough => ?_⟩
      · simp [same, kind_of_isNewline newline, depthOf]
      · obtain ⟨f, rfl⟩ : ∃ f', f = f' + 1 := ⟨f - 1, by simp at enough; omega⟩
        rw [skipNewlines, run_atNewline]
        simp only [front, List.cons_append, List.head?_cons, Option.getD_some, newline, if_true]
        exact skip ts other f (by simpa using enough)
    · refine ⟨x :: B, whole, Nat.le_refl _, rfl, fun ts _ f enough => ?_⟩
      obtain ⟨f, rfl⟩ : ∃ f', f = f' + 1 := ⟨f - 1, by simp at enough; omega⟩
      rw [skipNewlines, run_atNewline]
      simp only [front, List.cons_append, List.head?_cons, Option.getD_some, newline]
      rfl

/-! ## Simple and compound statements -/

/-- The token starts a line of simple statements, or no statement. -/
def startsSimple : TokenKind → Bool
  | .name "if" | .name "while" | .name "for" | .name "def" | .name "class" => false
  | .indent | .dedent | .endMarker => false
  | _ => true

theorem statement_simple {ts : List Token} (simple : startsSimple (front ts).kind = true)
    (ctx : Context) (f : Nat) : statement ctx (f + 1) ts = simpleLine ctx f ts := by
  rw [statement, run_current]
  dsimp only
  rw [run_current]
  refine congrFun ?_ ts
  split <;> simp_all [startsSimple]

theorem ifStatement_ok {ctx : Context} {f : Nat} {ts rest : List Token} {s : Statement}
    (read : ifStatement ctx f ts = .ok (s, rest)) :
    ∃ line test body orelse, s = .ifElse line test body orelse := by
  cases f with
  | zero => cases read
  | succ f =>
    rw [ifStatement] at read
    obtain ⟨first, _, _, read⟩ := bind_ok read
    obtain ⟨_, _, _, read⟩ := bind_ok read
    obtain ⟨test, _, _, read⟩ := bind_ok read
    obtain ⟨body, _, _, read⟩ := bind_ok read
    obtain ⟨branch, _, _, read⟩ := bind_ok read
    cases branch with
    | true =>
      obtain ⟨orelse, _, _, read⟩ := bind_ok read
      cases read
      exact ⟨_, _, _, _, rfl⟩
    | false =>
      obtain ⟨orelse, _, _, read⟩ := bind_ok read
      cases read
      exact ⟨_, _, _, _, rfl⟩

/-- A compound statement imports nothing from the future. -/
theorem futureFrom_compound {ts rest : List Token} (compound : startsSimple (front ts).kind = false)
    {ctx : Context} {f : Nat} {body : List Statement}
    (read : statement ctx (f + 1) ts = .ok (body, rest)) :
    Program.futureFrom .none body = .ok .none := by
  rw [statement, run_current] at read
  dsimp only at read
  rw [run_current] at read
  unfold startsSimple at compound
  split at compound
  case h_1 kind =>
    simp only [kind] at read
    obtain ⟨s, _, branch, read⟩ := bind_ok read
    obtain ⟨line, test, body, orelse, rfl⟩ := ifStatement_ok branch
    cases read
    rfl
  case h_2 kind | h_3 kind =>
    simp only [kind] at read
    obtain ⟨_, _, _, read⟩ := bind_ok read
    obtain ⟨_, _, _, read⟩ := bind_ok read
    obtain ⟨_, _, _, read⟩ := bind_ok read
    obtain ⟨_, _, _, read⟩ := bind_ok read
    cases read
    rfl
  case h_4 kind | h_5 kind =>
    simp only [kind] at read
    obtain ⟨_, _, _, read⟩ := bind_ok read
    obtain ⟨_, _, _, read⟩ := bind_ok read
    obtain ⟨_, _, _, read⟩ := bind_ok read
    cases read
    rfl
  case h_6 kind | h_7 kind | h_8 kind =>
    simp only [kind] at read
    cases read
  case h_9 => cases compound

/-! ## One statement -/

variable {ctx : Context} {f : Nat} {ts rest : List Token} {body : List Statement}

theorem oneStatement_end (ending : isEnd (front ts) = true) :
    oneStatement ctx f ts = .ok ([], ts) := by
  rw [oneStatement, run_current]
  simp only [ending, if_true]
  show (if isEnd (front ts) = true then _ else _ : Parser _) ts = _
  rw [if_pos ending]
  rfl

theorem oneStatement_error {error : SyntaxError} (more : isEnd (front ts) = false)
    (failed : statement ctx f ts = .error error) : oneStatement ctx f ts = .error error := by
  rw [oneStatement, run_current]
  simp only [more]
  exact run_bind_error failed

theorem oneStatement_ok (more : isEnd (front ts) = false)
    (read : statement ctx f ts = .ok (body, rest)) :
    oneStatement ctx f ts =
      if isEnd (front rest) = true then .ok (body, rest)
      else .error (.of .multipleStatements (front rest).pos) := by
  rw [oneStatement, run_current]
  simp only [more]
  refine (run_bind read).trans ?_
  show (if isEnd (front rest) = true then _ else _ : Parser _) rest = _
  split <;> rfl

end Parse

namespace Program

/-! ## Programs as tokens -/

/-- The program that tokens write. -/
def ofTokens (tokens : List Token) (mode : Mode) (terminated : Bool) :
    Except SyntaxError Program := do
  let body ← Parse.program tokens mode terminated
  return ⟨body, ← futureFrom .none body⟩

theorem compile_of_tokenize {source : String} {mode : Mode} {tokens : List Token}
    (read : tokenize source mode = .ok tokens) :
    compile source mode = ofTokens tokens mode (endsWithBlankLine source) := by
  show (tokenize source mode >>= _) = _
  rw [read]
  rfl

theorem compile_of_error {source : String} {mode : Mode} {error : SyntaxError}
    (failed : tokenize source mode = .error error) : compile source mode = .error error := by
  show (tokenize source mode >>= _) = _
  rw [failed]
  rfl

theorem ofTokens_eq_ok_iff {tokens : List Token} {mode : Mode} {t : Bool} {program : Program} :
    ofTokens tokens mode t = .ok program ↔
      Parse.program tokens mode t = .ok program.body ∧
        futureFrom .none program.body = .ok program.future := by
  unfold ofTokens
  cases parsed : Parse.program tokens mode t with
  | error error => exact ⟨nofun, fun read => nomatch read.1⟩
  | ok body =>
    show (futureFrom .none body >>= fun future => pure (⟨body, future⟩ : Program)) = _ ↔ _
    cases imported : futureFrom .none body with
    | error error =>
      refine ⟨nofun, fun ⟨same, read⟩ => ?_⟩
      cases same
      rw [imported] at read
      cases read
    | ok future =>
      constructor
      · rintro ⟨⟩
        exact ⟨rfl, imported⟩
      · obtain ⟨body', future'⟩ := program
        rintro ⟨⟨⟩, read⟩
        rw [imported] at read
        cases read
        rfl

/-- Tokens that write no program fail to be statements, or to import from the future. -/
theorem ofTokens_error {tokens : List Token} {mode : Mode} {t : Bool} {error : SyntaxError}
    (failed : ofTokens tokens mode t = .error error) :
    Parse.program tokens mode t = .error error ∨
      ∃ body, Parse.program tokens mode t = .ok body ∧ futureFrom .none body = .error error := by
  unfold ofTokens at failed
  cases parsed : Parse.program tokens mode t with
  | error error' =>
    rw [parsed] at failed
    cases failed
    exact .inl rfl
  | ok body =>
    rw [parsed] at failed
    change (futureFrom .none body >>= fun future => pure (⟨body, future⟩ : Program)) = _ at failed
    cases imported : futureFrom .none body with
    | error error' =>
      rw [imported] at failed
      cases failed
      exact .inr ⟨body, rfl, imported⟩
    | ok future =>
      rw [imported] at failed
      cases failed

/-- What a program is made of that a source text means. -/
theorem compile_ok {source : String} {mode : Mode} {program : Program}
    (compiles : compile source mode = .ok program) :
    ∃ tokens, tokenize source mode = .ok tokens ∧
      Parse.program tokens mode (endsWithBlankLine source) = .ok program.body ∧
      futureFrom .none program.body = .ok program.future := by
  cases lexed : tokenize source mode with
  | error error =>
    rw [compile_of_error lexed] at compiles
    cases compiles
  | ok tokens =>
    rw [compile_of_tokenize lexed] at compiles
    exact ⟨tokens, rfl, ofTokens_eq_ok_iff.1 compiles⟩

/-- What may be wrong with an import from the future. -/
def isFutureFault : SyntaxFault → Bool
  | .notAChance | .unknownFeature _ | .lateFuture => true
  | _ => false

/-- A feature is not missing for want of more text. -/
theorem missing_of_isFutureFault {fault : SyntaxFault} (future : isFutureFault fault = true) :
    fault.missing? = none := by
  cases fault <;> first | rfl | cases future

/-- The fault is told at the start of the line. -/
theorem addFeatures_error {line : Nat} {features : Features} {names : List String}
    {error : SyntaxError} (failed : addFeatures line features names = .error error) :
    ∃ fault, isFutureFault fault = true ∧ error = ⟨fault, line, 0⟩ := by
  induction names generalizing features with
  | nil => cases failed
  | cons name names ih =>
    rw [addFeatures] at failed
    split at failed
    · cases failed
      exact ⟨_, rfl, rfl⟩
    · split at failed
      · exact ih failed
      · cases failed
        exact ⟨_, rfl, rfl⟩

theorem futureFrom_error {features : Features} {body : List Statement} {error : SyntaxError}
    (failed : futureFrom features body = .error error) :
    ∃ s ∈ body, ∃ fault, isFutureFault fault = true ∧ error = ⟨fault, s.line, 0⟩ := by
  induction body generalizing features with
  | nil => cases failed
  | cons s rest ih =>
    rw [futureFrom] at failed
    split at failed
    · rename_i names _
      cases added : addFeatures s.line features names with
      | error error' =>
        rw [added] at failed
        cases failed
        exact ⟨s, List.mem_cons_self, addFeatures_error added⟩
      | ok features' =>
        rw [added] at failed
        obtain ⟨s', inside, told⟩ := ih failed
        exact ⟨s', List.mem_cons_of_mem _ inside, told⟩
    · split at failed
      · rename_i late found
        cases failed
        exact ⟨late, List.mem_cons_of_mem _ (List.mem_of_find?_eq_some found), _, rfl, rfl⟩
      · cases failed

theorem futureFrom_final {features : Features} {body : List Statement} {error : SyntaxError}
    (failed : futureFrom features body = .error error) : error.isIncomplete = false := by
  obtain ⟨s, -, fault, future, rfl⟩ := futureFrom_error failed
  exact congrArg Option.isSome (missing_of_isFutureFault future)

/-- What the statements of a unit come to once they are read. -/
def withFuture (read : Except SyntaxError (List Statement × List Token)) :
    Except SyntaxError Program := do
  let body := (← read).1
  return ⟨body, ← futureFrom .none body⟩

theorem ofTokens_single (tokens : List Token) (terminated : Bool) :
    ofTokens tokens .single terminated =
      withFuture ((skipNewlines (enoughFuel tokens) >>= fun _ =>
        oneStatement ⟨terminated, false, false⟩ (enoughFuel tokens)) tokens) := by
  have context : (terminated || decide (Mode.single = .script)) = terminated := by simp
  unfold ofTokens Parse.program withFuture
  rw [context]
  show ((((skipNewlines (enoughFuel tokens) >>= fun _ =>
    oneStatement ⟨terminated, false, false⟩ (enoughFuel tokens)) : Parser _) tokens).map Prod.fst
      >>= _) = _
  cases ((skipNewlines (enoughFuel tokens) >>= fun _ =>
    oneStatement ⟨terminated, false, false⟩ (enoughFuel tokens)) : Parser _) tokens <;> rfl

/-- The statement of a unit stands behind blank lines. -/
theorem ofTokens_lines {B : List Token} (whole : WholeLines B) :
    ∃ C, WholeLines C ∧ C.length ≤ B.length ∧ depth C = depth B ∧
      ∀ ts terminated, (C ≠ [] ∨ isNewline (front ts) = false) →
        ofTokens (B ++ ts) .single terminated =
          withFuture (oneStatement ⟨terminated, false, false⟩ (enoughFuel (B ++ ts)) (C ++ ts)) := by
  obtain ⟨C, wholeC, le, same, skip⟩ := skipNewlines_lines whole
  refine ⟨C, wholeC, le, same, fun ts terminated other => ?_⟩
  rw [ofTokens_single,
    run_bind (skip ts other (enoughFuel (B ++ ts)) (by simp [enoughFuel]; omega))]

/-! ## A source that goes on -/

section

variable {B R : List Token} {e : Token} {error : SyntaxError}

/-- What a statement comes to if another token stands behind it. -/
theorem withFuture_oneStatement {ctx : Context} {f : Nat} {ts rest : List Token}
    {body : List Statement} (more : isEnd (front ts) = false)
    (read : statement ctx f ts = .ok (body, rest)) :
    withFuture (oneStatement ctx f ts) =
      if isEnd (front rest) = true then
        (futureFrom .none body).map fun future => ⟨body, future⟩
      else .error (.of .multipleStatements (front rest).pos) := by
  rw [oneStatement_ok more read]
  split
  · show (futureFrom .none body >>= fun _ => _) = _
    cases futureFrom .none body <;> rfl
  · rfl

theorem withFuture_error {ctx : Context} {f : Nat} {ts : List Token}
    (more : isEnd (front ts) = false) (failed : statement ctx f ts = .error error) :
    withFuture (oneStatement ctx f ts) = .error error := by
  rw [oneStatement_error more failed]
  rfl

theorem isEnd_front_append (whole : WholeLines B) (more : B ≠ []) (ts : List Token) :
    isEnd (front (B ++ ts)) = false := by
  cases B with
  | nil => contradiction
  | cons x B => exact whole.inside x (by simp)

theorem eq_nil_of_isEnd_front {ts : List Token} (whole : WholeLines B)
    (ending : isEnd (front (B ++ ts)) = true) : B = [] := by
  cases B with
  | nil => rfl
  | cons x B =>
    have := whole.inside x (by simp)
    simp_all [front]

section Hopeless

variable {f g : Nat} (whole : WholeLines B) (more : B ≠ []) (ending : isEnd e = true)
  (enough : Enough R (f + 1) (g + 1) B 14)
  (failed : withFuture (oneStatement ⟨false, false, false⟩ (f + 1) (B ++ [e])) = .error error)
include whole more ending enough failed

theorem simple_hopeless (simple : startsSimple (front (B ++ [e])).kind = true) (terminated : Bool) :
    error.isIncomplete = false ∧ ∃ error', error'.isIncomplete = false ∧
      withFuture (oneStatement ⟨terminated, false, false⟩ (g + 1) (B ++ R)) = .error error' := by
  have begins := isEnd_front_append whole more
  have left := statement_simple simple ⟨false, false, false⟩ f
  rw [← front_append more R [e]] at simple
  have right := statement_simple simple ⟨terminated, false, false⟩ g
  rcases simpleLine_extends whole more (enough.pred (by omega)) e terminated false false with
    ⟨error', final, read, read'⟩ | ⟨body, C, whole, -, -, read, read'⟩
  · rw [withFuture_error (begins [e]) (left.trans read)] at failed
    cases failed
    exact ⟨final, error, final, withFuture_error (begins R) (right.trans read')⟩
  · rw [withFuture_oneStatement (begins [e]) (left.trans read)] at failed
    rw [withFuture_oneStatement (begins R) (right.trans read')]
    by_cases nothing : isEnd (front (C ++ [e])) = true
    · -- The features of the statement fail, unless something else follows it.
      obtain rfl := eq_nil_of_isEnd_front whole nothing
      rw [if_pos nothing] at failed
      have final : error.isIncomplete = false := by
        cases future : futureFrom .none body with
        | ok features => rw [future] at failed; cases failed
        | error error' => rw [future] at failed; cases failed; exact futureFrom_final future
      refine ⟨final, ?_⟩
      by_cases ended : isEnd (front ([] ++ R)) = true
      · rw [if_pos ended]
        exact ⟨error, final, failed⟩
      · rw [if_neg ended]
        exact ⟨_, rfl, rfl⟩
    · have left : C ≠ [] := by
        rintro rfl
        exact nothing ending
      rw [if_neg nothing] at failed
      cases failed
      rw [if_neg (by simp [isEnd_front_append whole left])]
      exact ⟨rfl, _, rfl, rfl⟩

theorem compound_hopeless (compound : startsSimple (front (B ++ [e])).kind = false)
    (final : error.isIncomplete = false) (terminated : Bool) :
    ∃ error', error'.isIncomplete = false ∧
      withFuture (oneStatement ⟨terminated, false, false⟩ (g + 1) (B ++ R)) = .error error' := by
  have begins := isEnd_front_append whole more
  have carried := (blocksCarry ending terminated R (f + 1) (g + 1)).statement whole more enough
    false false
  cases left : statement ⟨false, false, false⟩ (f + 1) (B ++ [e]) with
  | error error' =>
    rw [withFuture_error (begins [e]) left] at failed
    cases failed
    rw [left] at carried
    have missing : error.fault.missing? = none := by simpa [SyntaxError.isIncomplete] using final
    unfold Carries at carried
    simp only [missing] at carried
    exact ⟨error, final, withFuture_error (begins R) carried⟩
  | ok read =>
    obtain ⟨body, rest⟩ := read
    rw [left] at carried
    obtain ⟨C, rfl, whole, -, -, right⟩ := carried
    rw [withFuture_oneStatement (begins [e]) left, futureFrom_compound compound left] at failed
    by_cases nothing : C = []
    · subst nothing
      rw [if_pos (show isEnd (front ([] ++ [e])) = true from ending)] at failed
      cases failed
    · rw [withFuture_oneStatement (begins R) (right (.inl nothing)),
        isEnd_front_append whole nothing]
      exact ⟨_, rfl, rfl⟩

theorem compound_lacking (compound : startsSimple (front (B ++ [e])).kind = false)
    {missing : Missing} (lacks : error.fault.missing? = some missing) (terminated : Bool) :
    (∃ n : Nat, (n : Int) = depth B ∧ ∀ S, Cures missing n R S → isEnd (front S) = true →
      ∃ program, withFuture (oneStatement ⟨terminated, false, false⟩ (g + 1) (B ++ R)) =
        .ok program) ∧
    (missing = .block ∨ missing = .blockEnd) ∧
    (missing = .block → Withholds R → ∃ error', error'.isIncomplete = false ∧
      withFuture (oneStatement ⟨terminated, false, false⟩ (g + 1) (B ++ R)) = .error error') := by
  have begins := isEnd_front_append whole more
  have carried := (blocksCarry ending terminated R (f + 1) (g + 1)).statement whole more enough
    false false
  cases left : statement ⟨false, false, false⟩ (f + 1) (B ++ [e]) with
  | error error' =>
    rw [withFuture_error (begins [e]) left] at failed
    cases failed
    rw [left] at carried
    unfold Carries at carried
    simp only [lacks] at carried
    obtain ⟨⟨n, opened, cured⟩, either, withheld⟩ := carried
    refine ⟨⟨n, opened, fun S cures ended => ?_⟩, either, fun block withholds => ?_⟩
    · obtain ⟨body, right⟩ := cured S cures
        ⟨not_isWord_of_isEnd ended _, not_isWord_of_isEnd ended _⟩
      rw [← front_append more R [e]] at compound
      rw [withFuture_oneStatement (begins R) right, futureFrom_compound compound right,
        if_pos ended]
      exact ⟨_, rfl⟩
    · obtain ⟨error', final, right⟩ := withheld block withholds
      exact ⟨error', final, withFuture_error (begins R) right⟩
  | ok read =>
    obtain ⟨body, rest⟩ := read
    rw [left] at carried
    obtain ⟨C, rfl, whole, -, -, -⟩ := carried
    rw [withFuture_oneStatement (begins [e]) left, futureFrom_compound compound left] at failed
    by_cases nothing : C = []
    · subst nothing
      rw [if_pos (show isEnd (front ([] ++ [e])) = true from ending)] at failed
      cases failed
    · rw [isEnd_front_append whole nothing] at failed
      cases failed
      cases lacks

end Hopeless

/-- The depths at which a unit is read suffice for what follows the blank lines before it. -/
theorem enough_enoughFuel {C : List Token} (le : C.length ≤ B.length) :
    ∃ f g, enoughFuel (B ++ [e]) = f + 1 ∧ enoughFuel (B ++ R) = g + 1 ∧
      Enough R (f + 1) (g + 1) C 14 := by
  refine ⟨16 * (B.length + 2) + 15, 16 * (B.length + R.length + 1) + 15, ?_, ?_, ?_⟩
  · simp [enoughFuel]
    omega
  · simp [enoughFuel]
    omega
  · unfold Enough
    omega

/-- Tokens that are no program, and never will be, begin no program. -/
theorem ofTokens_hopeless (whole : WholeLines B) (ending : isEnd e = true)
    (failed : ofTokens (B ++ [e]) .single false = .error error)
    (final : error.isIncomplete = false) (R : List Token) (terminated : Bool) :
    ∃ error', error'.isIncomplete = false ∧
      ofTokens (B ++ R) .single terminated = .error error' := by
  obtain ⟨C, whole, le, -, lines⟩ := ofTokens_lines whole
  rw [lines [e] false (.inr (by simp [front, isNewline, kind_of_isEnd ending]))] at failed
  by_cases more : C = []
  · subst more
    rw [List.nil_append, oneStatement_end (show isEnd (front [e]) = true from ending)] at failed
    cases failed
  · rw [lines R terminated (.inl more)]
    obtain ⟨f, g, fuel, fuel', enough⟩ := enough_enoughFuel (R := R) (e := e) le
    rw [fuel] at failed
    rw [fuel']
    cases simple : startsSimple (front (C ++ [e])).kind with
    | true => exact (simple_hopeless whole more ending enough failed simple terminated).2
    | false => exact compound_hopeless whole more ending enough failed simple final terminated

/-- Tokens that lack a block or its end make a program with what they lack. A block that is lacking has
to come next. -/
theorem ofTokens_lacking (whole : WholeLines B) (ending : isEnd e = true)
    (failed : ofTokens (B ++ [e]) .single false = .error error) {missing : Missing}
    (lacks : error.fault.missing? = some missing) (R : List Token) (terminated : Bool) :
    (∃ n : Nat, (n : Int) = depth B ∧ ∀ S, Cures missing n R S → isEnd (front S) = true →
      ∃ program, ofTokens (B ++ R) .single terminated = .ok program) ∧
    (missing = .block ∨ missing = .blockEnd) ∧
    (missing = .block → Withholds R → ∃ error', error'.isIncomplete = false ∧
      ofTokens (B ++ R) .single terminated = .error error') := by
  obtain ⟨C, whole, le, opened, lines⟩ := ofTokens_lines whole
  rw [lines [e] false (.inr (by simp [front, isNewline, kind_of_isEnd ending]))] at failed
  by_cases more : C = []
  · subst more
    rw [List.nil_append, oneStatement_end (show isEnd (front [e]) = true from ending)] at failed
    cases failed
  · rw [lines R terminated (.inl more), ← opened]
    obtain ⟨f, g, fuel, fuel', enough⟩ := enough_enoughFuel (R := R) (e := e) le
    rw [fuel] at failed
    rw [fuel']
    cases simple : startsSimple (front (C ++ [e])).kind with
    | true =>
      have final := (simple_hopeless whole more ending enough failed simple terminated).1
      simp [SyntaxError.isIncomplete, lacks] at final
    | false => exact compound_lacking whole more ending enough failed simple lacks terminated

end

end Program

end Console
