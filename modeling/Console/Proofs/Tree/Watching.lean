import Console.Proofs.Tree.Lines

/-!
# What is known of the tokens of a stream

A parser fails at a token of its stream. So what is known of all tokens tells of every error, and of the
line of every statement. Within lines this is the simulation that relates a stream to itself.
-/

namespace Console.Parse

open Token

variable {α β : Type} {t : Bool}

/-- What is known of the tokens of a stream, and what of the errors at such tokens; `t` says whether the
source is terminated. -/
structure Watch (t : Bool) where
  tokens : Token → Prop
  errors : SyntaxError → Prop
  /-- Behind the last token there is nothing but the end. -/
  nothing : tokens ⟨.endMarker, .start⟩
  final : ∀ {x f}, tokens x → SyntaxFault.missing? f = none → errors (.of f x.pos)
  misplaced : ∀ {x}, tokens x → errors (.of (unexpectedFault t x.kind) x.pos)
  bodiless : ∀ {x}, tokens x → errors (.of (if t then .expectedBlock else .incomplete .block) x.pos)

namespace Watch

variable {W : Watch t} {P : α → Prop} {Q : β → Prop}

/-- What comes of reading a stream of such tokens. -/
def Outcome (W : Watch t) (P : α → Prop) : Except SyntaxError (α × List Token) → Prop
  | .ok (v, rest) => P v ∧ ∀ x ∈ rest, W.tokens x
  | .error e => W.errors e

/-- The parser yields values with the property `P` and fails with such errors, wherever it is run on
such tokens. -/
def Reads (W : Watch t) (P : α → Prop) (p : Parser α) : Prop :=
  ∀ ts, (∀ x ∈ ts, W.tokens x) → W.Outcome P (p ts)

theorem front {ts : List Token} (known : ∀ x ∈ ts, W.tokens x) : W.tokens (Parse.front ts) := by
  cases ts with
  | nil => exact W.nothing
  | cons x ts => exact known x List.mem_cons_self

/-- Such a stream, and itself. -/
def itself (W : Watch t) : Simulation t t where
  streams ts ts' := ts' = ts ∧ ∀ x ∈ ts, W.tokens x
  errors e _ := W.errors e
  sameFront := by rintro ts _ ⟨rfl, -⟩; rfl
  sameSecond := by rintro ts _ ⟨rfl, -⟩ _; rfl
  behind := by
    rintro ts _ ⟨rfl, known⟩ _
    exact ⟨rfl, fun x inside => known x (List.mem_of_mem_tail inside)⟩
  final := by
    rintro ts _ f ⟨-, known⟩ final
    exact W.final (front known) final
  misplaced := by
    rintro ts _ ⟨-, known⟩
    exact W.misplaced (front known)

namespace Reads

theorem of_respects {rank slack f : Nat} {read : Context → Nat → Parser α}
    (respects : W.itself.Respects f f rank slack read) (loop function : Bool) :
    W.Reads (fun _ => True) (read ⟨t, loop, function⟩ f) := by
  intro ts known
  have alike := @respects loop function ts ts ⟨rfl, known⟩ (.inl rfl)
  rcases alike.cases with ⟨e, _, watched, left, -⟩ | ⟨v, rest, rest', ⟨⟨-, inside⟩, -⟩, left, -⟩
  · rw [left]
    exact watched
  · rw [left]
    exact ⟨trivial, inside⟩

theorem pure {v : α} (value : P v) : W.Reads P (Pure.pure v : Parser α) :=
  fun _ known => ⟨value, known⟩

theorem bind {p : Parser α} {k : α → Parser β} (first : W.Reads P p)
    (next : ∀ v, P v → W.Reads Q (k v)) : W.Reads Q (p >>= k) := by
  intro ts known
  have outcome := first ts known
  cases read : p ts with
  | error e =>
    rw [run_bind_error read]
    rwa [read] at outcome
  | ok x =>
    rw [read] at outcome
    rw [run_bind read]
    exact next x.1 outcome.1 x.2 outcome.2

theorem mono {P' : α → Prop} {p : Parser α} (h : W.Reads P p) (weaker : ∀ v, P v → P' v) :
    W.Reads P' p := by
  intro ts known
  have outcome := h ts known
  cases read : p ts with
  | error e =>
    rw [read] at outcome
    exact outcome
  | ok x =>
    rw [read] at outcome
    exact ⟨weaker x.1 outcome.1, outcome.2⟩

theorem current : W.Reads W.tokens current := fun _ known => ⟨front known, known⟩

theorem advance : W.Reads (fun _ => True) advance :=
  fun _ known => ⟨trivial, fun x inside => known x (List.mem_of_mem_tail inside)⟩

theorem fail {fault : SyntaxFault} (final : fault.missing? = none) :
    W.Reads P (fail fault : Parser α) :=
  fun _ known => W.final (front known) final

theorem unexpected (loop function : Bool) : W.Reads P (unexpected ⟨t, loop, function⟩ : Parser α) :=
  fun _ known => W.misplaced (front known)

theorem bodiless : W.Reads P (Parse.fail (if t then .expectedBlock else .incomplete .block) : Parser α) :=
  fun _ known => W.bodiless (front known)

theorem atNewline : W.Reads (fun _ => True) atNewline := fun _ known => ⟨trivial, known⟩

theorem atWord (word : String) : W.Reads (fun _ => True) (atWord word) := fun _ known => ⟨trivial, known⟩

theorem eatOp (symbol : String) : W.Reads (fun _ => True) (eatOp symbol) :=
  @of_respects _ _ W 0 1 0 (fun _ _ => Parse.eatOp symbol)
    (fun _ _ _ _ related _ => Simulation.alike_ateOp related symbol) false false

theorem eatWord (word : String) : W.Reads (fun _ => True) (eatWord word) :=
  bind (atWord word) fun here _ => by
    cases here with
    | true => exact bind advance fun _ _ => pure trivial
    | false => exact pure trivial

theorem expectOp (loop function : Bool) (symbol : String) :
    W.Reads (fun _ => True) (expectOp ⟨t, loop, function⟩ symbol) :=
  @of_respects _ _ W 0 0 0 (fun ctx _ => Parse.expectOp ctx symbol)
    (fun _ _ _ _ related _ => Simulation.alike_expectOp related _ _ symbol) loop function

theorem expectNewline (loop function : Bool) :
    W.Reads (fun _ => True) (expectNewline ⟨t, loop, function⟩) :=
  bind atNewline fun here _ => by
    cases here with
    | true => exact advance
    | false => exact unexpected loop function

end Reads

/-- The statement stands on the line of a token. -/
def Placed (W : Watch t) (s : Statement) : Prop := ∃ x, W.tokens x ∧ s.line = x.pos.line

theorem placed_of_line {x : Token} (known : W.tokens x) {s : Statement} (line : s.line = x.pos.line) :
    ∀ s' ∈ [s], W.Placed s' := by
  intro s' inside
  rw [List.mem_singleton.1 inside]
  exact ⟨x, known, line⟩

theorem reads_simpleLine (f : Nat) (loop function : Bool) :
    W.Reads (fun body => ∀ s ∈ body, W.Placed s) (simpleLine ⟨t, loop, function⟩ f) := by
  induction f with
  | zero => exact .fail rfl
  | succ f ih =>
    rw [simpleLine]
    refine .bind .current fun first known =>
      .bind (.of_respects (Simulation.respects_simpleStatement f f) loop function) fun action _ =>
      .bind (.eatOp ";") fun more _ => ?_
    have one := placed_of_line known (s := .simple first.pos.line action) rfl
    cases more with
    | true =>
      refine .bind .atNewline fun ending _ => ?_
      cases ending with
      | true => exact .bind (.expectNewline loop function) fun _ _ => .pure one
      | false =>
        exact .bind ih fun rest others => .pure (List.forall_mem_append.2 ⟨one, others⟩)
    | false => exact .bind (.expectNewline loop function) fun _ _ => .pure one

/-- What comes of reading statements at a depth. -/
structure Blocks (W : Watch t) (f : Nat) : Prop where
  statement : ∀ loop function,
    W.Reads (fun body => ∀ s ∈ body, W.Placed s) (statement ⟨t, loop, function⟩ f)
  ifStatement : ∀ loop function, W.Reads W.Placed (ifStatement ⟨t, loop, function⟩ f)
  elseBlock : ∀ loop function, W.Reads (fun _ => True) (elseBlock ⟨t, loop, function⟩ f)
  block : ∀ loop function, W.Reads (fun _ => True) (block ⟨t, loop, function⟩ f)
  blockRest : ∀ loop function, W.Reads (fun _ => True) (blockRest ⟨t, loop, function⟩ f)

namespace Blocks

variable {f : Nat} (ih : W.Blocks f) (loop function : Bool)
include ih

theorem next_statement : W.Reads (fun body => ∀ s ∈ body, W.Placed s)
    (Parse.statement ⟨t, loop, function⟩ (f + 1)) := by
  rw [Parse.statement]
  refine .bind .current fun first known => .bind .current fun token _ => ?_
  split
  · refine .bind (ih.ifStatement loop function) fun s placed => .pure fun s' inside => ?_
    rwa [List.mem_singleton.1 inside]
  · exact .bind .advance fun _ _ =>
      .bind (.of_respects (Simulation.respects_testHeader f f) loop function) fun _ _ =>
      .bind (ih.block true function) fun _ _ => .bind (ih.elseBlock loop function) fun _ _ =>
      .pure (placed_of_line known rfl)
  · exact .bind .advance fun _ _ =>
      .bind (.of_respects (Simulation.respects_forHeader f f) loop function) fun _ _ =>
      .bind (ih.block true function) fun _ _ => .bind (ih.elseBlock loop function) fun _ _ =>
      .pure (placed_of_line known rfl)
  · exact .bind .advance fun _ _ =>
      .bind (.of_respects (Simulation.respects_functionHeader f f) loop function) fun _ _ =>
      .bind (ih.block false true) fun _ _ => .pure (placed_of_line known rfl)
  · exact .bind .advance fun _ _ =>
      .bind (.of_respects (Simulation.respects_classHeader f f) loop function) fun _ _ =>
      .bind (ih.block false false) fun _ _ => .pure (placed_of_line known rfl)
  · exact .unexpected loop function
  · exact .unexpected loop function
  · exact .unexpected loop function
  · exact reads_simpleLine f loop function

theorem next_ifStatement : W.Reads W.Placed (Parse.ifStatement ⟨t, loop, function⟩ (f + 1)) := by
  rw [Parse.ifStatement]
  refine .bind .current fun first known => .bind .advance fun _ _ =>
    .bind (.of_respects (Simulation.respects_testHeader f f) loop function) fun _ _ =>
    .bind (ih.block loop function) fun _ _ => .bind (.atWord "elif") fun branch _ => ?_
  cases branch with
  | true => exact .bind (ih.ifStatement loop function) fun _ _ => .pure ⟨first, known, rfl⟩
  | false => exact .bind (ih.elseBlock loop function) fun _ _ => .pure ⟨first, known, rfl⟩

theorem next_elseBlock :
    W.Reads (fun _ => True) (Parse.elseBlock ⟨t, loop, function⟩ (f + 1)) := by
  rw [Parse.elseBlock]
  refine .bind (.eatWord "else") fun branch _ => ?_
  cases branch with
  | true => exact .bind (.expectOp loop function ":") fun _ _ => ih.block loop function
  | false => exact .pure trivial

theorem next_block : W.Reads (fun _ => True) (Parse.block ⟨t, loop, function⟩ (f + 1)) := by
  rw [Parse.block]
  refine .bind .atNewline fun line _ => ?_
  cases line with
  | true =>
    refine .bind .advance fun _ _ => .bind .current fun token _ => ?_
    split
    · exact .bind .advance fun _ _ => ih.blockRest loop function
    · exact .bodiless
    · exact .fail rfl
  | false => exact (reads_simpleLine f loop function).mono fun _ _ => trivial

theorem next_blockRest :
    W.Reads (fun _ => True) (Parse.blockRest ⟨t, loop, function⟩ (f + 1)) := by
  rw [Parse.blockRest]
  refine .bind .current fun token _ => ?_
  split
  · exact .bind .advance fun _ _ => .pure trivial
  · exact .unexpected loop function
  · exact .bind (ih.statement loop function) fun _ _ =>
      .bind (ih.blockRest loop function) fun _ _ => .pure trivial

end Blocks

theorem blocks (W : Watch t) (f : Nat) : W.Blocks f := by
  induction f with
  | zero =>
    constructor <;> · intro loop function; exact Reads.fail rfl
  | succ f ih => exact {
      statement := ih.next_statement
      ifStatement := ih.next_ifStatement
      elseBlock := ih.next_elseBlock
      block := ih.next_block
      blockRest := ih.next_blockRest }

theorem reads_skipNewlines (f : Nat) : W.Reads (fun _ => True) (skipNewlines f) := by
  induction f with
  | zero => exact .pure trivial
  | succ f ih =>
    rw [skipNewlines]
    refine .bind .atNewline fun line _ => ?_
    cases line with
    | true => exact .bind .advance fun _ _ => ih
    | false => exact .pure trivial

theorem reads_statements (f : Nat) :
    W.Reads (fun body => ∀ s ∈ body, W.Placed s) (statements ⟨t, false, false⟩ f) := by
  induction f with
  | zero => exact .fail rfl
  | succ f ih =>
    rw [statements]
    refine .bind .current fun token _ => ?_
    split
    · exact .pure (List.forall_mem_nil _)
    · exact .bind ((W.blocks f).statement false false) fun first placed => .bind ih fun rest others =>
        .pure (List.forall_mem_append.2 ⟨placed, others⟩)

theorem reads_oneStatement (f : Nat) :
    W.Reads (fun body => ∀ s ∈ body, W.Placed s) (oneStatement ⟨t, false, false⟩ f) := by
  unfold oneStatement
  have ends (body : List Statement) (placed : ∀ s ∈ body, W.Placed s) :
      W.Reads (fun body => ∀ s ∈ body, W.Placed s) (do
        unless isEnd (← Parse.current) do Parse.fail .multipleStatements
        return body) := by
    refine .bind .current fun token _ => ?_
    dsimp only
    split
    · exact .pure placed
    · exact .bind (P := fun _ => True) (.fail rfl) fun _ _ => .pure placed
  refine .bind .current fun token _ => ?_
  dsimp only
  split
  · exact .bind (.pure (List.forall_mem_nil _)) ends
  · exact .bind ((W.blocks f).statement false false) ends

end Watch

/-- What comes of reading a whole stream. -/
def Watch.Gives (W : Watch t) (P : α → Prop) : Except SyntaxError α → Prop
  | .ok v => P v
  | .error e => W.errors e

theorem Watch.Reads.gives {W : Watch t} {P : α → Prop} {p : Parser α} (h : W.Reads P p)
    {ts : List Token} (known : ∀ x ∈ ts, W.tokens x) : W.Gives P (p.run' ts) := by
  have outcome := h ts known
  change W.Gives P ((p ts).map Prod.fst)
  cases read : p ts with
  | error e =>
    rw [read] at outcome
    exact outcome
  | ok x =>
    rw [read] at outcome
    exact outcome.1

/-- Every statement of a program stands on the line of a token, and a text that is none fails at one. -/
theorem gives_program {mode : Mode} {terminated : Bool} (W : Watch (terminated || mode = .script))
    {tokens : List Token} (known : ∀ x ∈ tokens, W.tokens x) :
    W.Gives (fun body => ∀ s ∈ body, W.Placed s) (program tokens mode terminated) := by
  have blank := Watch.reads_skipNewlines (W := W) (enoughFuel tokens)
  cases mode with
  | single =>
    exact Watch.Reads.gives (.bind blank fun _ _ => Watch.reads_oneStatement (enoughFuel tokens)) known
  | script =>
    exact Watch.Reads.gives (.bind blank fun _ _ => Watch.reads_statements (enoughFuel tokens)) known

end Console.Parse
