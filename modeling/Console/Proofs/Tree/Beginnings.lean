import Console.Proofs.Tree.Extent

/-!
# Where statements begin

A statement begins with a word that is no branch of the statement above it. `beginnings` counts the
lines outside all blocks that begin so. A stream with one of them at most writes one statement at
most, so it makes no difference whether one statement is read from it or all.
-/

namespace Console.Parse

open Token

variable {ctx : Context} {f : Nat} {ts rest : List Token}

/-- A word that continues the statement above it. -/
def isBranch (t : Token) : Bool := isWord t "elif" || isWord t "else"

theorem kind_of_isWord {t : Token} {word : String} (h : isWord t word = true) :
    t.kind = .name word := by
  unfold isWord at h
  split at h
  · simp_all
  · cases h

theorem kind_of_isOp {t : Token} {symbol : String} (h : isOp t symbol = true) :
    t.kind = .op symbol := by
  unfold isOp at h
  split at h
  · simp_all
  · cases h

/-- A token that a literal, a name or a bracketed expression starts with. -/
def startsAtom (t : Token) : Bool :=
  match t.kind with
  | .int _ | .float _ | .str _ => true
  | .name word => (wordAtom? word).isSome
  | .op symbol => symbol == "(" || symbol == "[" || symbol == "\x7b"
  | _ => false

/-- The level at which a token stands before its operand. -/
def prefix? : TokenKind → Option Level
  | .name "not" => some .negation
  | .op "-" | .op "+" => some .sign
  | _ => none

theorem atom_unexpected (misplaced : startsAtom (front ts) = false) :
    atom ctx (f + 1) ts = unexpected ctx ts := by
  rw [atom, run_current]
  refine congrFun ?_ ts
  split
  case h_4 word kind =>
    cases value : wordAtom? word with
    | none => rfl
    | some e => simp [startsAtom, kind, value] at misplaced
  case h_8 => rfl
  all_goals simp_all [startsAtom]

/-- What is read at a level starts with a prefix of that level or a tighter one, or with an atom. -/
theorem front_of_expression {level : Level} {e : Expr}
    (read : expression ctx f level ts = .ok (e, rest)) :
    (∃ l, prefix? (front ts).kind = some l ∧ l.rank ≤ level.rank) ∨
      startsAtom (front ts) = true := by
  induction f generalizing level ts rest e with
  | zero => cases read
  | succ f ih =>
    -- Where no prefix is taken, a tighter level reads the first operand.
    have tighter (level' : Level) (less : level'.rank ≤ level.rank) (next : Expr → Parser Expr)
        (read : (expression ctx f level' >>= next) ts = .ok (e, rest)) :
        (∃ l, prefix? (front ts).kind = some l ∧ l.rank ≤ level.rank) ∨
          startsAtom (front ts) = true := by
      obtain ⟨_, _, first, -⟩ := bind_ok read
      rcases ih first with ⟨l, marked, le⟩ | starts
      · exact .inl ⟨l, marked, Nat.le_trans le less⟩
      · exact .inr starts
    cases level with
    | conditional =>
      rw [expression, run_atWord] at read
      split at read
      · cases read
      · exact tighter _ (by decide) _ read
    | negation =>
      rw [expression] at read
      by_cases marked : isWord (front ts) "not" = true
      · exact .inl ⟨.negation, by rw [kind_of_isWord marked]; rfl, Nat.le_refl _⟩
      · rw [run_bind (eatWord_absent (by simpa using marked))] at read
        exact tighter .comparison (by decide) pure (by simpa using read)
    | sign =>
      rw [expression] at read
      by_cases minus : isOp (front ts) "-" = true
      · exact .inl ⟨.sign, by rw [kind_of_isOp minus]; rfl, Nat.le_refl _⟩
      · rw [run_bind (eatOp_absent (by simpa using minus)), if_neg (by simp)] at read
        by_cases plus : isOp (front ts) "+" = true
        · exact .inl ⟨.sign, by rw [kind_of_isOp plus]; rfl, Nat.le_refl _⟩
        · rw [run_bind (eatOp_absent (by simpa using plus))] at read
          exact tighter .power (by decide) pure (by simpa using read)
    | atom =>
      rw [expression] at read
      cases starts : startsAtom (front ts) with
      | true => exact .inr rfl
      | false =>
        cases f with
        | zero => cases read
        | succ f =>
          rw [atom_unexpected starts] at read
          cases read
    | comparison | power | trailer =>
      rw [expression] at read
      exact tighter _ (by decide) _ read
    | disjunction | conjunction | sum | product =>
      rw [Simulation.expression_of_groups rfl] at read
      exact tighter _ (by decide) _ read

theorem kind_of_prefix {kind : TokenKind} {level : Level} (marked : prefix? kind = some level) :
    kind = .name "not" ∨ kind = .op "-" ∨ kind = .op "+" := by
  unfold prefix? at marked
  split at marked
  · exact .inl rfl
  · exact .inr (.inl rfl)
  · exact .inr (.inr rfl)
  · cases marked

/-- Every expression is read from a word or mark that it can start with. -/
theorem startsExpression_of_ok {level : Level} {e : Expr}
    (read : expression ctx f level ts = .ok (e, rest)) : startsExpression (front ts) = true := by
  rcases front_of_expression read with ⟨l, marked, -⟩ | starts
  · rcases kind_of_prefix marked with kind | kind | kind <;>
      simp [startsExpression, kind, isKeyword, keywords]
  · unfold startsAtom at starts
    unfold startsExpression
    cases kind : (front ts).kind with
    | name word =>
      simp only [kind] at starts ⊢
      unfold wordAtom? at starts
      split at starts
      case h_4 =>
        split at starts
        · cases starts
        · simp_all
      all_goals rfl
    | op symbol =>
      simp only [kind, Bool.or_eq_true, beq_iff_eq] at starts
      rcases starts with (rfl | rfl) | rfl <;> rfl
    | int | float | str => rfl
    | newline | indent | dedent | endMarker => simp [kind] at starts

/-- A word that starts a line of its own. -/
def isBeginning (t : Token) : Bool := !isLayout t && !isBranch t

theorem isBeginning_of_startsExpression {t : Token} (starts : startsExpression t = true) :
    isBeginning t = true := by
  cases begins : isBeginning t with
  | true => rfl
  | false =>
    rw [startsExpression] at starts
    cases kind : t.kind with
    | name word =>
      have branch : word = "elif" ∨ word = "else" := by
        simpa [isBeginning, isLayout, isBranch, isWord, kind, Classical.or_iff_not_imp_left]
          using begins
      rcases branch with rfl | rfl <;> simp [kind, isKeyword, keywords] at starts
    | _ => simp_all [isBeginning, isLayout, isBranch, isWord]

theorem simpleStatement_misplaced (misplaced : isBeginning (front ts) = false) :
    simpleStatement ctx f ts = expressionStatement ctx f ts := by
  rw [simpleStatement, run_current]
  refine congrFun ?_ ts
  split <;> simp_all [isBeginning, isLayout, isBranch, isWord]

theorem isBeginning_of_simpleStatement {s : Simple}
    (read : simpleStatement ctx f ts = .ok (s, rest)) : isBeginning (front ts) = true := by
  cases begins : isBeginning (front ts) with
  | true => rfl
  | false =>
    rw [simpleStatement_misplaced begins] at read
    obtain ⟨_, _, first, -⟩ := bind_ok read
    cases f with
    | zero => cases first
    | succ f =>
      obtain ⟨_, _, item, -⟩ := bind_ok first
      rw [isBeginning_of_startsExpression (startsExpression_of_ok item)] at begins
      cases begins

/-- The words of compound statements start no simple statement. -/
theorem startsSimple_of_simpleStatement {s : Simple}
    (read : simpleStatement ctx f ts = .ok (s, rest)) : startsSimple (front ts).kind = true := by
  cases simple : startsSimple (front ts).kind with
  | true => rfl
  | false =>
    have plain : simpleStatement ctx f ts = expressionStatement ctx f ts := by
      rw [simpleStatement, run_current]
      refine congrFun ?_ ts
      split <;> simp_all [startsSimple]
    rw [plain] at read
    obtain ⟨_, _, first, -⟩ := bind_ok read
    cases f with
    | zero => cases first
    | succ f =>
      obtain ⟨_, _, item, -⟩ := bind_ok first
      have starts := startsExpression_of_ok item
      unfold startsSimple at simple
      split at simple
      case h_9 => cases simple
      all_goals simp_all [startsExpression, isKeyword, keywords]

theorem isBeginning_of_statement {body : List Statement}
    (read : statement ctx f ts = .ok (body, rest)) : isBeginning (front ts) = true := by
  cases f with
  | zero => cases read
  | succ f =>
    cases simple : startsSimple (front ts).kind with
    | true =>
      rw [statement_simple simple] at read
      cases f with
      | zero => cases read
      | succ f =>
        rw [simpleLine, run_current] at read
        obtain ⟨_, _, first, -⟩ := bind_ok read
        exact isBeginning_of_simpleStatement first
    | false =>
      rw [statement, run_current] at read
      dsimp only at read
      rw [run_current] at read
      unfold startsSimple at simple
      split at simple
      case h_6 kind | h_7 kind | h_8 kind =>
        simp only [kind] at read
        cases read
      case h_9 => cases simple
      all_goals simp_all [isBeginning, isLayout, isBranch, isWord]

/-- The lines that begin a statement where no block is open. Tokens that open or close blocks count
from `opened` on, and `fresh` says that the first token starts a line. -/
def beginnings : (opened : Int) → (fresh : Bool) → List Token → Nat
  | _, _, [] => 0
  | opened, fresh, t :: ts =>
    if isLayout t then beginnings (opened + depthOf t.kind) true ts
    else (fresh && opened == 0 && !isBranch t).toNat + beginnings opened false ts

theorem beginnings_layout {t : Token} (shapes : isLayout t = true) (opened : Int) (fresh : Bool) :
    beginnings opened fresh (t :: ts) = beginnings (opened + depthOf t.kind) true ts := by
  rw [beginnings, if_pos shapes]

theorem beginnings_word {t : Token} (word : isLayout t = false) (opened : Int) (fresh : Bool) :
    beginnings opened fresh (t :: ts) =
      (fresh && opened == 0 && !isBranch t).toNat + beginnings opened false ts := by
  rw [beginnings, if_neg (by simp [word])]

/-- Behind whole lines the count goes on. -/
theorem beginnings_lines_le {d : Int} (lines : BehindLines d ts rest) (opened : Int)
    (fresh : Bool) : beginnings (opened + d) true rest ≤ beginnings opened fresh ts := by
  obtain ⟨words, last, rfl, ends, rfl⟩ := lines
  induction words generalizing opened fresh with
  | nil =>
    have shapes : isLayout last = true := by rcases ends with kind | kind <;> simp [isLayout, kind]
    refine Nat.le_of_eq ?_
    rw [List.nil_append, List.nil_append, beginnings_layout shapes, depth_cons, depth_nil,
      Int.add_zero]
  | cons x words ih =>
    rw [List.cons_append, List.cons_append, depth_cons]
    cases word : isLayout x with
    | true =>
      rw [beginnings_layout word, ← Int.add_assoc]
      exact ih _ _
    | false =>
      rw [beginnings_word word, depthOf_of_isLayout word, Int.zero_add]
      have := ih opened false
      omega

/-- A statement begins once. -/
theorem beginnings_statement (t' : Bool) {t loop function : Bool} {body : List Statement}
    (read : statement ⟨t, loop, function⟩ f ts = .ok (body, rest)) :
    beginnings 0 true rest < beginnings 0 true ts := by
  have lines := (((reach t t' f f).statement (.inl rfl) loop function).ok read).2
  obtain ⟨inline, own⟩ : isLayout (front ts) = false ∧ isBranch (front ts) = false := by
    simpa [isBeginning] using isBeginning_of_statement read
  rw [eq_cons_of_word inline] at lines ⊢
  rw [beginnings_word inline, own]
  have := beginnings_lines_le (lines.tail inline) 0 false
  simp only [Int.add_zero] at this
  simp only [Bool.true_and, BEq.rfl, Bool.not_false, Bool.toNat_true]
  omega

variable {t t' : Bool} {g : Nat} {body : List Statement}

/-- What is read as one statement is nothing at all, or a statement with nothing behind it. -/
theorem oneStatement_cases (read : oneStatement ctx f ts = .ok (body, rest)) :
    isEnd (front rest) = true ∧ (rest = ts ∧ body = [] ∨
      isEnd (front ts) = false ∧ statement ctx f ts = .ok (body, rest)) := by
  cases ending : isEnd (front ts) with
  | true =>
    rw [oneStatement_end ending] at read
    cases read
    exact ⟨ending, .inl ⟨rfl, rfl⟩⟩
  | false =>
    cases taken : statement ctx f ts with
    | error e =>
      rw [oneStatement_error ending taken] at read
      cases read
    | ok x =>
      rw [oneStatement_ok ending taken] at read
      split at read
      · cases read
        exact ⟨‹_›, .inr ⟨rfl, rfl⟩⟩
      · cases read

theorem statements_end (ending : isEnd (front ts) = true) :
    statements ctx (f + 1) ts = .ok ([], ts) := by
  rw [statements, run_current, if_pos ending]
  rfl

theorem statements_cons (more : isEnd (front ts) = false) :
    statements ctx (f + 1) ts = (statement ctx f >>= fun first =>
      statements ctx f >>= fun others => pure (first ++ others)) ts := by
  rw [statements, run_current, if_neg (by simp [more])]

/-- What is read as one statement is all that there is to read. -/
theorem statements_of_oneStatement (within : Within f g (16 * ts.length + 14))
    (read : oneStatement ⟨t, false, false⟩ f ts = .ok (body, rest)) :
    statements ⟨t', false, false⟩ (g + 1) ts = .ok (body, rest) := by
  obtain ⟨ending, ⟨rfl, rfl⟩ | ⟨more, taken⟩⟩ := oneStatement_cases read
  · exact statements_end ending
  · have taken' := (((reach t t' f g).statement within false false).ok taken).1
    cases g with
    | zero => cases taken'
    | succ g =>
      rw [statements_cons more, run_bind taken', run_bind (statements_end ending), List.append_nil]
      rfl

/-- Where one line at most begins a statement, no statement follows another. -/
theorem oneStatement_of_statements (within : Within f g (16 * ts.length + 14))
    (few : beginnings 0 true ts ≤ 1)
    (read : statements ⟨t', false, false⟩ (g + 1) ts = .ok (body, rest)) :
    oneStatement ⟨t, false, false⟩ f ts = .ok (body, rest) := by
  cases ending : isEnd (front ts) with
  | true =>
    rw [statements_end ending] at read
    cases read
    exact oneStatement_end ending
  | false =>
    rw [statements_cons ending] at read
    obtain ⟨first, between, taken', read⟩ := bind_ok read
    obtain ⟨others, _, onward, read⟩ := bind_ok read
    cases read
    have within : Within g f (16 * ts.length + 14) := by
      unfold Within at *
      omega
    have taken := (((reach t' t g f).statement within false false).ok taken').1
    have once := beginnings_statement t taken'
    cases g with
    | zero => cases onward
    | succ g =>
      cases last : isEnd (front between) with
      | true =>
        rw [statements_end last] at onward
        cases onward
        rw [oneStatement_ok ending taken, if_pos last, List.append_nil]
      | false =>
        rw [statements_cons last] at onward
        obtain ⟨_, _, second, -⟩ := bind_ok onward
        have twice := beginnings_statement t second
        omega

/-- Blank lines are all that is passed in front of a program. -/
theorem skipNewlines_ok (f : Nat) (ts : List Token) :
    ∃ lines rest, skipNewlines f ts = .ok ((), rest) ∧ ts = lines ++ rest ∧
      ∀ x ∈ lines, isNewline x = true := by
  induction f generalizing ts with
  | zero => exact ⟨[], ts, rfl, rfl, by simp⟩
  | succ f ih =>
    rw [skipNewlines, run_atNewline]
    cases line : isNewline (front ts) with
    | false => exact ⟨[], ts, rfl, rfl, by simp⟩
    | true =>
      cases ts with
      | nil => cases line
      | cons x ts =>
        obtain ⟨lines, rest, skipped, rfl, newlines⟩ := ih ts
        exact ⟨x :: lines, rest, skipped, rfl, List.forall_mem_cons.2 ⟨line, newlines⟩⟩

theorem depth_newlines {lines : List Token} (newlines : ∀ x ∈ lines, isNewline x = true) :
    depth lines = 0 := by
  induction lines with
  | nil => rfl
  | cons x lines ih =>
    obtain ⟨newline, newlines⟩ := List.forall_mem_cons.1 newlines
    rw [depth_cons, kind_of_isNewline newline, ih newlines]
    rfl

theorem beginnings_newlines {lines : List Token} (newlines : ∀ x ∈ lines, isNewline x = true) :
    beginnings 0 true (lines ++ ts) = beginnings 0 true ts := by
  induction lines with
  | nil => rfl
  | cons x lines ih =>
    obtain ⟨newline, newlines⟩ := List.forall_mem_cons.1 newlines
    have kind := kind_of_isNewline newline
    rw [List.cons_append, beginnings_layout (by simp [isLayout, kind]), kind]
    exact ih newlines

section

variable {tokens : List Token}

theorem program_single (skipped : skipNewlines (enoughFuel tokens) tokens = .ok ((), rest)) :
    program tokens .single t =
      (oneStatement ⟨t, false, false⟩ (enoughFuel tokens) rest).map Prod.fst := by
  have context : (t || decide (Mode.single = .script)) = t := by simp
  unfold program
  rw [context]
  exact congrArg (Except.map Prod.fst) (run_bind skipped)

theorem program_script (skipped : skipNewlines (enoughFuel tokens) tokens = .ok ((), rest)) :
    program tokens .script t =
      (statements ⟨true, false, false⟩ (enoughFuel tokens) rest).map Prod.fst := by
  have context : (t || decide (Mode.script = .script)) = true := by simp
  unfold program
  rw [context]
  exact congrArg (Except.map Prod.fst) (run_bind skipped)

end

end Console.Parse
