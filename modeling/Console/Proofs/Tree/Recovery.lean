import Console.Proofs.Tree.LineRecovery

/-!
# Programs read back

Every program that is well formed is read back from its tokens: statement by statement, with the
blocks of each read before the statement itself.
-/

namespace Console.Parse

open Token Filter Kinds Mark

variable {ctx : Context} {ts mid rest : List Token} {further : List Statement → Bool}

/-! ## Marks in a stream -/

theorem written_append (ms ms' : List Mark) (ts rest : List Token) :
    Written (ms ++ ms') ts rest ↔ ∃ mid, Written ms ts mid ∧ Written ms' mid rest := by
  induction ms generalizing ts with
  | nil => simp [Written]
  | cons m ms ih =>
    simp only [List.cons_append, Written, ih]
    constructor
    · rintro ⟨t, later, same, fits, mid, first, last⟩
      exact ⟨mid, ⟨t, later, same, fits, first⟩, last⟩
    · rintro ⟨mid, ⟨t, later, same, fits, first⟩, last⟩
      exact ⟨t, later, same, fits, mid, first, last⟩

theorem written_plain (kinds : List TokenKind) (ts rest : List Token) :
    Written (plain kinds) ts rest ↔ Spells kinds ts rest := by
  induction kinds generalizing ts with
  | nil => exact Iff.rfl
  | cons kind kinds ih =>
    show (∃ t later, ts = t :: later ∧ _ ∧ Written (plain kinds) later rest) ↔ _
    simp [ih, Spells, Mark.Fits]

theorem spells_of_starting {line : Nat} {kind : TokenKind} {kinds : List TokenKind}
    (written : Written (starting line (kind :: kinds)) ts rest) :
    Spells (kind :: kinds) ts rest ∧ (front ts).pos.line = line := by
  obtain ⟨t, later, rfl, fits, others⟩ := written
  exact ⟨⟨t, later, rfl, fits.1, (written_plain _ _ _).1 others⟩, fits.2 line rfl⟩

/-- All marks can be written. -/
theorem written_tokens (ms : List Mark) : Written ms (ms.map Mark.token) [] := by
  induction ms with
  | nil => rfl
  | cons m ms ih =>
    refine ⟨m.token, ms.map Mark.token, rfl, ⟨rfl, fun n line => ?_⟩, ih⟩
    simp [Mark.token, Option.mem_def.1 line]

/-- A header starts with a word on the line of its statement. -/
theorem spells_of_header {line : Nat} {text : String} {kinds : List TokenKind}
    (written : Written (starting line (word text ++ kinds)) ts rest) :
    (front ts).kind = .name text ∧ (front ts).pos.line = line ∧ Spells kinds ts.tail rest := by
  obtain ⟨spells, place⟩ := spells_of_starting written
  obtain ⟨t, later, rfl, kind, others⟩ := spells
  exact ⟨kind, place, others⟩

/-! ## Lines and blocks -/

theorem front_of_literal {kind : TokenKind} (spells : Spells (literal kind) ts rest) :
    (front ts).kind = kind ∧ ts.tail = rest := by
  obtain ⟨t, rfl, same⟩ := (spells_literal kind ts rest).1 spells
  exact ⟨same, rfl⟩

theorem expectNewline_of_spells (spells : Spells (literal .newline) ts rest) (ctx : Context) :
    expectNewline ctx ts = .ok ((), rest) := by
  obtain ⟨kind, rfl⟩ := front_of_literal spells
  rw [expectNewline, run_atNewline, if_pos (by simp [isNewline, kind])]
  rfl

theorem reads_simpleLine {line : Nat} {action : Simple}
    (formed : action.wellFormed ctx.inLoop ctx.inFunction = true)
    (written : Written (starting line (action.kinds ++ literal .newline)) ts rest) :
    Reads (simpleLine ctx) ts [.simple line action] rest := by
  obtain ⟨spells, place⟩ : Spells (action.kinds ++ literal .newline) ts rest ∧
      (front ts).pos.line = line := by
    cases kinds : action.kinds ++ literal .newline with
    | nil => simp [literal] at kinds
    | cons kind others =>
      rw [kinds] at written
      exact spells_of_starting written
  obtain ⟨mid, words, ending⟩ := (spells_append _ _ _ _).1 spells
  have kind := (front_of_literal ending).1
  refine .succ ?_
  filter_upwards [reads_simpleStatement kind formed words] with f taken
  rw [simpleLine, run_current]
  dsimp only
  rw [run_bind taken, run_bind (eatOp_absent (by simp [isOp, kind])), if_neg (by simp),
    run_bind (expectNewline_of_spells ending ctx), place]
  rfl

theorem startsSimple_of_simpleLine {f : Nat} {body : List Statement}
    (read : simpleLine ctx f ts = .ok (body, rest)) : startsSimple (front ts).kind = true := by
  cases f with
  | zero => cases read
  | succ f =>
    rw [simpleLine, run_current] at read
    obtain ⟨_, _, first, -⟩ := bind_ok read
    exact startsSimple_of_simpleStatement first

/-- Statements that are read one by one are read by a loop that goes on from one to the next. -/
theorem reads_lines {body : List Statement} {ctx : Context} {loop : Nat → Parser (List Statement)}
    (step : ∀ f ts, isBeginning (front ts) = true → loop (f + 1) ts =
      (statement ctx f >>= fun first => loop f >>= fun others => pure (first ++ others)) ts)
    (each : ∀ s ∈ body, ∀ ts rest, Written (s.marks further) ts rest →
      isBranch (front rest) = false → Reads (statement ctx) ts [s] rest)
    (written : Written (Statement.linesMarks further body) ts mid)
    (closed : isBranch (front mid) = false) (last : Reads loop mid [] rest) :
    isBranch (front ts) = false ∧ Reads loop ts body rest := by
  induction body generalizing ts with
  | nil =>
    obtain rfl : ts = mid := written
    exact ⟨closed, last⟩
  | cons s body ih =>
    obtain ⟨between, first, others⟩ := (written_append _ _ _ _).1 written
    obtain ⟨separate, onward⟩ := ih (fun s mem => each s (by simp [mem])) others
    have read := each s (by simp) ts between first separate
    have begins : isBeginning (front ts) = true := by
      obtain ⟨f, taken⟩ := read.once
      exact isBeginning_of_statement taken
    refine ⟨by simp_all [isBeginning], .succ ?_⟩
    filter_upwards [read, onward] with f taken further
    rw [step f ts begins, run_bind taken, run_bind further]
    rfl

theorem blockRest_of_beginning (begins : isBeginning (front ts) = true) (f : Nat) :
    blockRest ctx (f + 1) ts = (statement ctx f >>= fun first =>
      blockRest ctx f >>= fun others => pure (first ++ others)) ts := by
  rw [blockRest, run_current]
  refine congrFun ?_ ts
  split <;> simp_all [isBeginning, isLayout]

theorem statements_of_beginning (begins : isBeginning (front ts) = true) (f : Nat) :
    statements ctx (f + 1) ts = (statement ctx f >>= fun first =>
      statements ctx f >>= fun others => pure (first ++ others)) ts := by
  refine statements_cons ?_
  cases kind : (front ts).kind <;> simp_all [isBeginning, isLayout, isEnd]

theorem reads_block {body : List Statement} {ctx : Context}
    (each : ∀ s ∈ body, ∀ ts rest, Written (s.marks further) ts rest →
      isBranch (front rest) = false → Reads (statement ctx) ts [s] rest)
    (written : Written (Mark.block (Statement.linesMarks further body)) ts rest) :
    Reads (Parse.block ctx) ts body rest := by
  obtain ⟨mid, written, closing⟩ := (written_append _ _ _ _).1 written
  obtain ⟨inside, opening, lines⟩ := (written_append _ _ _ _).1 written
  obtain ⟨start, newline, indent⟩ := (spells_append _ _ _ _).1 ((written_plain _ _ _).1 opening)
  obtain ⟨kind, rfl⟩ := front_of_literal newline
  obtain ⟨kind', rfl⟩ := front_of_literal indent
  obtain ⟨kind'', rfl⟩ := front_of_literal ((written_plain _ _ _).1 closing)
  have last : Reads (blockRest ctx) mid [] mid.tail := by
    refine .succ (.of_forall fun f => ?_)
    rw [blockRest, run_current]
    simp only [kind'']
    rfl
  have read := (reads_lines (fun f ts begins => blockRest_of_beginning begins f) each lines
    (by simp [isBranch, isWord, kind'']) last).2
  refine .succ ?_
  filter_upwards [read] with f taken
  rw [Parse.block, run_atNewline, if_pos (by simp [isNewline, kind]), run_advance, run_current]
  simp only [kind']
  exact taken

theorem reads_otherwise {orelse : List Statement} {ctx : Context}
    (each : ∀ s ∈ orelse, ∀ ts rest, Written (s.marks further) ts rest →
      isBranch (front rest) = false → Reads (statement ctx) ts [s] rest)
    (written : Written (Statement.otherwise orelse (Statement.linesMarks further orelse)) ts rest)
    (closed : isBranch (front rest) = false) :
    isWord (front ts) "elif" = false ∧ Reads (elseBlock ctx) ts orelse rest := by
  unfold Statement.otherwise at written
  by_cases empty : orelse = []
  · subst empty
    obtain rfl : ts = rest := written
    obtain ⟨unbranched, absent⟩ :
        isWord (front ts) "elif" = false ∧ isWord (front ts) "else" = false := by
      simpa [isBranch] using closed
    exact ⟨unbranched, .succ (.of_forall fun f => elseBlock_absent absent ctx f)⟩
  · rw [if_neg (by simpa using empty)] at written
    obtain ⟨mid, header, lines⟩ := (written_append _ _ _ _).1 written
    obtain ⟨start, branch, colon⟩ := (spells_append _ _ _ _).1 ((written_plain _ _ _).1 header)
    have kind := (front_of_word branch).1
    refine ⟨by simp [isWord_of_kind kind], .succ ?_⟩
    filter_upwards [reads_block each lines] with f taken
    rw [elseBlock, run_bind (eatWord_of_spells branch), if_pos rfl,
      run_bind (expectOp_of_spells colon ctx), taken]

/-! ## Statements -/

/-- A conditional from its first word on, whatever that word is. -/
theorem reads_ifStatement {line : Nat} {text : String} {test : Expr} {body orelse : List Statement}
    {lines alternative : List Mark} (formed : test.wellFormed = true)
    (written : Written (starting line (word text ++ test.kinds .conditional ++ op ":") ++ lines ++
      alternative) ts rest)
    (first : ∀ {ts rest}, Written lines ts rest → Reads (Parse.block ctx) ts body rest)
    (second : ∀ {ts}, Written alternative ts rest →
      (isWord (front ts) "elif" = true ∧ ∃ s, orelse = [s] ∧ Reads (ifStatement ctx) ts s rest) ∨
        isWord (front ts) "elif" = false ∧ Reads (elseBlock ctx) ts orelse rest) :
    Reads (ifStatement ctx) ts (.ifElse line test body orelse) rest := by
  obtain ⟨mid, written, other⟩ := (written_append _ _ _ _).1 written
  obtain ⟨between, header, inside⟩ := (written_append _ _ _ _).1 written
  rw [List.append_assoc] at header
  obtain ⟨-, rfl, tested⟩ := spells_of_header header
  have read : Reads (testHeader ctx) _ test _ := reads_testHeader formed tested
  refine .succ ?_
  rcases second other with ⟨branch, s, rfl, onward⟩ | ⟨last, onward⟩
  · filter_upwards [read, first inside, onward] with f taken taken' further
    rw [ifStatement, run_current, run_advance, run_bind taken, run_bind taken', run_atWord,
      if_pos branch, run_bind further]
    rfl
  · filter_upwards [read, first inside, onward] with f taken taken' further
    rw [ifStatement, run_current, run_advance, run_bind taken, run_bind taken', run_atWord, last,
      if_neg (by simp), run_bind further]
    rfl

section

variable {line : Nat} {body orelse : List Statement} {lines alternative : List Mark}

theorem reads_while {test : Expr} (formed : test.wellFormed = true)
    (written : Written (starting line (word "while" ++ test.kinds .conditional ++ op ":") ++
      lines ++ alternative) ts rest)
    (first : ∀ {ts rest}, Written lines ts rest →
      Reads (Parse.block { ctx with inLoop := true }) ts body rest)
    (second : ∀ {ts}, Written alternative ts rest → Reads (elseBlock ctx) ts orelse rest) :
    Reads (statement ctx) ts [.whileLoop line test body orelse] rest := by
  obtain ⟨mid, written, other⟩ := (written_append _ _ _ _).1 written
  obtain ⟨between, header, inside⟩ := (written_append _ _ _ _).1 written
  rw [List.append_assoc] at header
  obtain ⟨kind, rfl, tested⟩ := spells_of_header header
  have read : Reads (testHeader ctx) _ test _ := reads_testHeader formed tested
  refine .succ ?_
  filter_upwards [read, first inside, second other] with f taken taken' further
  rw [statement, run_current]
  dsimp only
  rw [run_current]
  simp only [kind]
  rw [run_advance, run_bind taken, run_bind taken', run_bind further]
  rfl

theorem reads_for {target iterable : Expr} (formed : target.wellFormed = true)
    (assignable : target.isAssignable = true) (formed' : iterable.wellFormed = true)
    (written : Written (starting line (word "for" ++ target.kinds .sum ++ word "in" ++
      iterable.kinds .conditional ++ op ":") ++ lines ++ alternative) ts rest)
    (first : ∀ {ts rest}, Written lines ts rest →
      Reads (Parse.block { ctx with inLoop := true }) ts body rest)
    (second : ∀ {ts}, Written alternative ts rest → Reads (elseBlock ctx) ts orelse rest) :
    Reads (statement ctx) ts [.forLoop line target iterable body orelse] rest := by
  obtain ⟨mid, written, other⟩ := (written_append _ _ _ _).1 written
  obtain ⟨between, header, inside⟩ := (written_append _ _ _ _).1 written
  simp only [List.append_assoc] at header
  obtain ⟨kind, rfl, places⟩ := spells_of_header header
  have read : Reads (forHeader ctx) ts.tail (target, iterable) between :=
    reads_forHeader formed assignable formed' (by simpa only [List.append_assoc] using places)
  refine .succ ?_
  filter_upwards [read, first inside, second other] with f taken taken' further
  rw [statement, run_current]
  dsimp only
  rw [run_current]
  simp only [kind]
  rw [run_advance, run_bind taken]
  dsimp only
  rw [run_bind taken', run_bind further]
  rfl

theorem reads_function {id : String} {ps : List Parameter} (free : isKeyword id = false)
    (formed : Parameter.wellFormed ps = true)
    (written : Written (starting line (word "def" ++ word id ++ op "(" ++
      joined "," (ps.map Parameter.kinds) ++ op ")" ++ op ":") ++ lines) ts rest)
    (first : ∀ {ts rest}, Written lines ts rest →
      Reads (Parse.block { ctx with inLoop := false, inFunction := true }) ts body rest) :
    Reads (statement ctx) ts [.function line id ps body] rest := by
  obtain ⟨between, header, inside⟩ := (written_append _ _ _ _).1 written
  simp only [List.append_assoc] at header
  obtain ⟨kind, rfl, signature⟩ := spells_of_header header
  have read : Reads (functionHeader ctx) ts.tail (id, ps) between :=
    reads_functionHeader free formed (by simpa only [List.append_assoc] using signature)
  refine .succ ?_
  filter_upwards [read, first inside] with f taken taken'
  rw [statement, run_current]
  dsimp only
  rw [run_current]
  simp only [kind]
  rw [run_advance, run_bind taken]
  exact (run_bind taken').trans rfl

theorem reads_class {id : String} {bases : List Expr} (free : isKeyword id = false)
    (formed : ∀ e ∈ bases, e.wellFormed = true)
    (written : Written (starting line
      (word "class" ++ word id ++ Statement.baseKinds bases ++ op ":") ++ lines) ts rest)
    (first : ∀ {ts rest}, Written lines ts rest →
      Reads (Parse.block { ctx with inLoop := false, inFunction := false }) ts body rest) :
    Reads (statement ctx) ts [.classBody line id bases body] rest := by
  obtain ⟨between, header, inside⟩ := (written_append _ _ _ _).1 written
  simp only [List.append_assoc] at header
  obtain ⟨kind, rfl, signature⟩ := spells_of_header header
  have read : Reads (classHeader ctx) ts.tail (id, bases) between :=
    reads_classHeader free formed (by simpa only [List.append_assoc] using signature)
  refine .succ ?_
  filter_upwards [read, first inside] with f taken taken'
  rw [statement, run_current]
  dsimp only
  rw [run_current]
  simp only [kind]
  rw [run_advance, run_bind taken]
  exact (run_bind taken').trans rfl

end

/-- How a statement is read from its marks: as a statement, and from its second word on as a branch
if it is a conditional. -/
structure ReadBack (further : List Statement → Bool) (s : Statement) : Prop where
  statement : ∀ {ctx : Context} {ts rest : List Token},
    s.wellFormed ctx.inLoop ctx.inFunction = true → Written (s.marks further) ts rest →
      isBranch (front rest) = false → Reads (statement ctx) ts [s] rest
  branch : ∀ {ctx : Context} {ts rest : List Token} (text : String),
    Statement.isConditional [s] = true → s.wellFormed ctx.inLoop ctx.inFunction = true →
      Written (beginning text (s.marks further)) ts rest → isBranch (front rest) = false →
        Reads (ifStatement ctx) ts s rest

theorem wellFormed_of_mem {inLoop inFunction : Bool} {body : List Statement}
    (formed : Statement.allWellFormed inLoop inFunction body = true) {s : Statement}
    (mem : s ∈ body) : s.wellFormed inLoop inFunction = true := by
  induction body with
  | nil => cases mem
  | cons s' body ih =>
    simp only [Statement.allWellFormed, Bool.and_eq_true] at formed
    rcases List.mem_cons.1 mem with rfl | mem
    · exact formed.1
    · exact ih formed.2 mem

section

variable {body orelse : List Statement}

theorem ReadBack.block (each : ∀ s ∈ body, ReadBack further s)
    (formed : Statement.allWellFormed ctx.inLoop ctx.inFunction body = true)
    (written : Written (Mark.block (Statement.linesMarks further body)) ts rest) :
    Reads (Parse.block ctx) ts body rest :=
  reads_block (fun s mem _ _ => (each s mem).statement (wellFormed_of_mem formed mem)) written

theorem ReadBack.otherwise (each : ∀ s ∈ orelse, ReadBack further s)
    (formed : Statement.allWellFormed ctx.inLoop ctx.inFunction orelse = true)
    (written : Written (Statement.otherwise orelse (Statement.linesMarks further orelse)) ts rest)
    (closed : isBranch (front rest) = false) :
    isWord (front ts) "elif" = false ∧ Reads (elseBlock ctx) ts orelse rest :=
  reads_otherwise (fun s mem _ _ => (each s mem).statement (wellFormed_of_mem formed mem)) written
    closed

theorem ReadBack.ifElse {line : Nat} {test : Expr} (first : ∀ s ∈ body, ReadBack further s)
    (second : ∀ s ∈ orelse, ReadBack further s) :
    ReadBack further (.ifElse line test body orelse) := by
  have branch {ctx : Context} {ts rest : List Token} (text : String)
      (formed : (Statement.ifElse line test body orelse).wellFormed ctx.inLoop
        ctx.inFunction = true)
      (written : Written (beginning text ((Statement.ifElse line test body orelse).marks further))
        ts rest)
      (closed : isBranch (front rest) = false) :
      Reads (ifStatement ctx) ts (.ifElse line test body orelse) rest := by
    simp only [Statement.wellFormed, Bool.and_eq_true] at formed
    obtain ⟨⟨⟨tested, -⟩, bodyFormed⟩, orelseFormed⟩ := formed
    refine reads_ifStatement tested written (ReadBack.block first bodyFormed)
      fun {ts} written => ?_
    cases alone : Statement.isConditional orelse && further orelse with
    | false =>
      rw [alone, if_neg (by simp)] at written
      exact .inr (ReadBack.otherwise second orelseFormed written closed)
    | true =>
      rw [alone, if_pos rfl] at written
      obtain ⟨line', test', body', orelse', rfl⟩ :
          ∃ l t b o, orelse = [Statement.ifElse l t b o] := by
        simp only [Bool.and_eq_true] at alone
        have conditional := alone.1
        unfold Statement.isConditional at conditional
        split at conditional
        · exact ⟨_, _, _, _, rfl⟩
        · cases conditional
      have elif : isWord (front ts) "elif" = true := by
        obtain ⟨t, later, rfl, fits, -⟩ := written
        simp [front, isWord, fits.1]
      refine .inl ⟨elif, _, rfl, ?_⟩
      rw [Statement.linesMarks, Statement.linesMarks, List.append_nil] at written
      exact (second _ (by simp)).branch "elif" rfl (wellFormed_of_mem orelseFormed (by simp))
        written closed
  refine ⟨fun {ctx ts rest} formed written closed => ?_, fun text _ => branch text⟩
  have kind : (front ts).kind = .name "if" := by
    obtain ⟨t, later, rfl, fits, -⟩ := written
    exact fits.1
  refine .succ ?_
  filter_upwards [branch "if" formed written closed] with f taken
  rw [Parse.statement, run_current]
  dsimp only
  rw [run_current]
  simp only [kind]
  exact (run_bind taken).trans rfl

end

mutual

/-- Every statement is read back. -/
theorem readBack : (s : Statement) → ReadBack further s
  | .simple line action => by
    refine ⟨fun formed written _ => ?_, fun _ conditional => by cases conditional⟩
    have read := reads_simpleLine formed written
    refine .succ ?_
    filter_upwards [read] with f taken
    have simple := startsSimple_of_simpleLine taken
    rw [statement_simple simple, taken]
  | .ifElse line test body orelse => .ifElse (readBack_all body) (readBack_all orelse)
  | .whileLoop line test body orelse => by
    refine ⟨fun formed written closed => ?_, fun _ conditional => by cases conditional⟩
    simp only [Statement.wellFormed, Bool.and_eq_true] at formed
    exact reads_while formed.1.1.1 written (ReadBack.block (readBack_all body) formed.1.2)
      fun written => (ReadBack.otherwise (readBack_all orelse) formed.2 written closed).2
  | .forLoop line target iterable body orelse => by
    refine ⟨fun formed written closed => ?_, fun _ conditional => by cases conditional⟩
    simp only [Statement.wellFormed, Bool.and_eq_true] at formed
    obtain ⟨⟨⟨⟨⟨placed, assignable⟩, iterated⟩, -⟩, inside⟩, other⟩ := formed
    exact reads_for placed assignable iterated written (ReadBack.block (readBack_all body) inside)
      fun written => (ReadBack.otherwise (readBack_all orelse) other written closed).2
  | .function line id parameters body => by
    refine ⟨fun formed written closed => ?_, fun _ conditional => by cases conditional⟩
    simp only [Statement.wellFormed, Bool.and_eq_true, Bool.not_eq_true'] at formed
    exact reads_function formed.1.1.1 formed.1.1.2 written
      (ReadBack.block (readBack_all body) formed.2)
  | .classBody line id bases body => by
    refine ⟨fun formed written closed => ?_, fun _ conditional => by cases conditional⟩
    simp only [Statement.wellFormed, Bool.and_eq_true, Bool.not_eq_true', List.all_eq_true]
      at formed
    exact reads_class formed.1.1.1 formed.1.1.2 written
      (ReadBack.block (readBack_all body) formed.2)

/-- The statements of a script are read back one by one. -/
theorem readBack_all : (body : List Statement) → ∀ s ∈ body, ReadBack further s
  | [] => by simp
  | s :: body => List.forall_mem_cons.2 ⟨readBack s, readBack_all body⟩

end

/-! ## Whole programs -/

theorem skipNewlines_absent (other : isNewline (front ts) = false) (f : Nat) :
    skipNewlines f ts = .ok ((), ts) := by
  cases f with
  | zero => rfl
  | succ f =>
    rw [skipNewlines, run_atNewline, if_neg (by simp [other])]
    rfl

theorem reads_script {body : List Statement}
    (formed : Statement.allWellFormed ctx.inLoop ctx.inFunction body = true)
    (written : Written (Statement.scriptMarks further body) ts rest) :
    ∃ left, Reads (statements ctx) ts body left := by
  obtain ⟨mid, lines, closing⟩ := (written_append _ _ _ _).1 written
  have kind := (front_of_literal ((written_plain _ _ _).1 closing)).1
  have last : Reads (statements ctx) mid [] mid :=
    .succ (.of_forall fun f => statements_end (by simp [isEnd, kind]))
  exact ⟨mid, (reads_lines (fun f ts begins => statements_of_beginning begins f)
    (fun s mem _ _ => (readBack s).statement (wellFormed_of_mem formed mem)) lines
    (by simp [isBranch, isWord, kind]) last).2⟩

theorem isLayout_of_isBeginning {t : Token} (begins : isBeginning t = true) :
    isLayout t = false := by
  simp only [isBeginning, Bool.and_eq_true, Bool.not_eq_true'] at begins
  exact begins.1

theorem isNewline_of_isBeginning {t : Token} (begins : isBeginning t = true) :
    isNewline t = false := by
  have inline := isLayout_of_isBeginning begins
  cases kind : t.kind <;> simp_all [isLayout, isNewline]

theorem isNewline_of_statements {f : Nat} {body : List Statement}
    (read : statements ctx f ts = .ok (body, rest)) : isNewline (front ts) = false := by
  cases f with
  | zero => cases read
  | succ f =>
    cases ending : isEnd (front ts) with
    | true => simp [isNewline, kind_of_isEnd ending]
    | false =>
      rw [statements_cons ending] at read
      obtain ⟨_, _, first, -⟩ := bind_ok read
      exact isNewline_of_isBeginning (isBeginning_of_statement first)

/-- The parser recovers every program that is well formed from every stream of tokens that writes it.
The conditionals that `further` chooses are written as further branches; of the positions of the
tokens only the lines that statements start on are given. -/
theorem every_program_is_recovered (further : List Statement → Bool) {body : List Statement}
    (formed : Statement.allWellFormed false false body = true) {tokens : List Token}
    (written : Written (Statement.scriptMarks further body) tokens []) (terminated : Bool) :
    program tokens .script terminated = .ok body := by
  obtain ⟨left, read⟩ : ∃ left, Reads (statements ⟨true, false, false⟩) tokens body left :=
    reads_script formed written
  obtain ⟨f, taken, deep⟩ := (read.and (eventually_gt_atTop (16 * tokens.length + 15))).exists
  have skipped := skipNewlines_absent (isNewline_of_statements taken) (enoughFuel tokens)
  have within : Within f (enoughFuel tokens) (16 * tokens.length + 15) := by
    unfold Within enoughFuel
    omega
  rw [program_script skipped, ((same_statements within false false).ok taken).1]
  rfl

/-- A loop over a chain of conditionals: a comparison that is negated, a power of a sign, a tuple of
one item, and a call with a keyword. -/
theorem loop_over_conditionals_is_recovered :
    ∃ body : List Statement, Statement.allWellFormed false false body = true ∧ body.length = 2 ∧
      ∀ terminated, program ((Statement.scriptMarks (fun _ => true) body).map Mark.token) .script
        terminated = .ok body := by
  have formed : Statement.allWellFormed false false
      [.simple 1 (.importModules ["a.b"]),
        .forLoop 2 (.tuple [.name "k", .name "v"])
          (.call (.attribute (.name "d") "items") [.tuple [.int 1]] [("n", .str "x")])
          [.ifElse 3
            (.unary .not (.compare (.name "k") [(.lt, .binary .pow (.unary .neg (.int 2)) (.name "v")),
              (.isNot, .none)]))
            [.simple 4 .continue]
            [.ifElse 5 (.name "v") [.simple 6 .break] [.simple 8 (.assign [.name "k"] (.dict []))]]]
          []] = true := by decide
  exact ⟨_, formed, rfl, fun terminated =>
    every_program_is_recovered (fun _ => true) formed (written_tokens _) terminated⟩

end Console.Parse
