import Console.Proofs.Modes

/-!
# Where jumps stand

The statements of every program that compiles stand where they may: a jump in the body of a loop, and a
return in the body of a function. The suite behind `else` belongs to what surrounds the loop.
-/

namespace Console

def Simple.placed (inLoop inFunction : Bool) : Simple → Bool
  | .break | .continue => inLoop
  | .return _ => inFunction
  | _ => true

mutual

/-- Each jump in a statement has a loop to act on, and each return a function to end. -/
def Statement.placed (inLoop inFunction : Bool) : Statement → Bool
  | .simple _ action => action.placed inLoop inFunction
  | .ifElse _ _ body orelse => allPlaced inLoop inFunction body && allPlaced inLoop inFunction orelse
  | .whileLoop _ _ body orelse | .forLoop _ _ _ body orelse =>
    allPlaced true inFunction body && allPlaced inLoop inFunction orelse
  | .function _ _ _ body => allPlaced false true body
  | .classBody _ _ _ body => allPlaced false false body

def allPlaced (inLoop inFunction : Bool) : List Statement → Bool
  | [] => true
  | s :: rest => s.placed inLoop inFunction && allPlaced inLoop inFunction rest

end

theorem placed_of_mem {inLoop inFunction : Bool} {body : List Statement}
    (placed : allPlaced inLoop inFunction body = true) {s : Statement} (inside : s ∈ body) :
    s.placed inLoop inFunction = true := by
  induction body with
  | nil => cases inside
  | cons t rest ih =>
    obtain ⟨here, there⟩ := Bool.and_eq_true_iff.1 placed
    rcases List.mem_cons.1 inside with rfl | inside
    · exact here
    · exact ih there inside

theorem allPlaced_append {inLoop inFunction : Bool} {body rest : List Statement}
    (first : allPlaced inLoop inFunction body = true)
    (others : allPlaced inLoop inFunction rest = true) :
    allPlaced inLoop inFunction (body ++ rest) = true := by
  induction body with
  | nil => exact others
  | cons s body ih =>
    obtain ⟨here, there⟩ := Bool.and_eq_true_iff.1 first
    exact Bool.and_eq_true_iff.2 ⟨here, ih there⟩

namespace Parse

open Token

variable {α β : Type} {P : α → Prop} {Q : β → Prop}

/-- All that the parser reads has the property. -/
def Yields (P : α → Prop) (p : Parser α) : Prop :=
  ∀ ts v rest, p ts = .ok (v, rest) → P v

namespace Yields

variable {p : Parser α} {f : α → Parser β}

theorem pure {v : α} (value : P v) : Yields P (Pure.pure v : Parser α) := by
  intro ts w rest read
  cases read
  exact value

theorem fail (fault : SyntaxFault) : Yields P (Parse.fail fault : Parser α) := by
  intro ts v rest read
  cases read

theorem unexpected (ctx : Context) : Yields P (Parse.unexpected ctx : Parser α) := by
  intro ts v rest read
  cases read

theorem bind (first : Yields P p) (next : ∀ v, P v → Yields Q (f v)) : Yields Q (p >>= f) := by
  intro ts w rest read
  obtain ⟨v, between, taken, onward⟩ := bind_ok read
  exact next v (first ts v between taken) between w rest onward

/-- What is read first does not matter. -/
theorem skip (next : ∀ v, Yields Q (f v)) : Yields Q (p >>= f) :=
  bind (P := fun _ => True) (fun _ _ _ _ => trivial) fun v _ => next v

/-- What is read behind a check is read where the check held. -/
theorem check {c : Bool} {fault : SyntaxFault} {q : Unit → Parser β}
    (next : c = true → Yields Q (q ())) :
    Yields Q (if c = true then q () else Parse.fail fault >>= q) := by
  split
  · rename_i held
    exact next held
  · exact bind (fail fault) fun _ => False.elim

end Yields

variable {ctx : Context}

theorem yields_jump {action : Simple} (word : String)
    (placed : ctx.inLoop = true → action.placed ctx.inLoop ctx.inFunction = true) :
    Yields (fun s => s.placed ctx.inLoop ctx.inFunction = true) (jump ctx word action) :=
  .check fun inside => .skip fun _ => .pure (placed inside)

theorem yields_expressionStatement (inLoop inFunction : Bool) (f : Nat) :
    Yields (fun s => s.placed inLoop inFunction = true) (expressionStatement ctx f) := by
  refine .skip fun first => .skip fun t => ?_
  split
  · exact .check fun _ => .skip fun _ => .skip fun _ => .pure rfl
  · refine .skip fun equals => ?_
    split
    · exact .skip fun _ => .check fun _ => .pure rfl
    · exact .pure rfl

theorem yields_importStatement (inLoop inFunction : Bool) (f : Nat) :
    Yields (fun s => s.placed inLoop inFunction = true) (importStatement ctx f) := by
  refine .skip fun module => .skip fun _ => .skip fun star => ?_
  split
  · exact .pure rfl
  · refine .skip fun bracketed => .skip fun names => ?_
    split
    · exact .skip fun _ => .pure rfl
    · exact .pure rfl

theorem yields_simpleStatement (f : Nat) :
    Yields (fun s => s.placed ctx.inLoop ctx.inFunction = true) (simpleStatement ctx f) := by
  refine .skip fun t => ?_
  split
  · exact .skip fun _ => .pure rfl
  · exact yields_jump _ id
  · exact yields_jump _ id
  · exact .check fun inside => .skip fun _ => .skip fun _ => .pure inside
  · exact .skip fun _ => .skip fun _ => .pure rfl
  · refine .skip fun _ => .skip fun test => .skip fun comma => ?_
    split
    · exact .skip fun _ => .pure rfl
    · exact .pure rfl
  · exact .skip fun _ => .skip fun _ => .pure rfl
  · exact .skip fun _ => .skip fun targets => .check fun _ => .pure rfl
  · exact .skip fun _ => .skip fun _ => .pure rfl
  · exact .skip fun _ => yields_importStatement _ _ f
  · exact yields_expressionStatement _ _ f

theorem yields_simpleLine (f : Nat) :
    Yields (fun body => allPlaced ctx.inLoop ctx.inFunction body = true) (simpleLine ctx f) := by
  induction f with
  | zero => exact .fail _
  | succ f ih =>
    have one {line : Nat} {s : Simple} (placed : s.placed ctx.inLoop ctx.inFunction = true) :
        allPlaced ctx.inLoop ctx.inFunction [.simple line s] = true := by
      simpa [allPlaced, Statement.placed] using placed
    refine .skip fun t => .bind (yields_simpleStatement f) fun s placed => .skip fun more => ?_
    split
    · refine .skip fun ending => ?_
      split
      · exact .skip fun _ => .pure (one placed)
      · exact .bind ih fun rest others => .pure (allPlaced_append (one placed) others)
    · exact .skip fun _ => .pure (one placed)

/-- All readings of statements yield statements that stand where they may. -/
structure Places (f : Nat) : Prop where
  statement : ∀ ctx, Yields (fun body => allPlaced ctx.inLoop ctx.inFunction body = true)
    (statement ctx f)
  ifStatement : ∀ ctx, Yields (fun s => s.placed ctx.inLoop ctx.inFunction = true)
    (ifStatement ctx f)
  elseBlock : ∀ ctx, Yields (fun body => allPlaced ctx.inLoop ctx.inFunction body = true)
    (elseBlock ctx f)
  block : ∀ ctx, Yields (fun body => allPlaced ctx.inLoop ctx.inFunction body = true) (block ctx f)
  blockRest : ∀ ctx, Yields (fun body => allPlaced ctx.inLoop ctx.inFunction body = true)
    (blockRest ctx f)

theorem allPlaced_singleton {inLoop inFunction : Bool} {s : Statement}
    (placed : s.placed inLoop inFunction = true) : allPlaced inLoop inFunction [s] = true := by
  simpa [allPlaced] using placed

section

variable {f : Nat} (ih : Places f)
include ih

theorem yields_statement (ctx : Context) :
    Yields (fun body => allPlaced ctx.inLoop ctx.inFunction body = true)
      (statement ctx (f + 1)) := by
  unfold statement
  refine .skip fun t => .skip fun t => ?_
  split
  · exact .bind (ih.ifStatement ctx) fun s placed => .pure (allPlaced_singleton placed)
  · exact .skip fun _ => .skip fun test => .bind (ih.block _) fun body placed =>
      .bind (ih.elseBlock ctx) fun orelse placed' =>
        .pure (allPlaced_singleton (Bool.and_eq_true_iff.2 ⟨placed, placed'⟩))
  · exact .skip fun _ => .skip fun header => .bind (ih.block _) fun body placed =>
      .bind (ih.elseBlock ctx) fun orelse placed' =>
        .pure (allPlaced_singleton (Bool.and_eq_true_iff.2 ⟨placed, placed'⟩))
  · exact .skip fun _ => .skip fun header => .bind (ih.block _) fun body placed =>
      .pure (allPlaced_singleton placed)
  · exact .skip fun _ => .skip fun header => .bind (ih.block _) fun body placed =>
      .pure (allPlaced_singleton placed)
  · exact .unexpected ctx
  · exact .unexpected ctx
  · exact .unexpected ctx
  · exact yields_simpleLine f

theorem yields_ifStatement (ctx : Context) :
    Yields (fun s => s.placed ctx.inLoop ctx.inFunction = true) (ifStatement ctx (f + 1)) := by
  unfold ifStatement
  refine .skip fun t => .skip fun _ => .skip fun test => .bind (ih.block ctx) fun body placed =>
    .skip fun branch => ?_
  split
  · exact .bind (ih.ifStatement ctx) fun s placed' =>
      .pure (Bool.and_eq_true_iff.2 ⟨placed, allPlaced_singleton placed'⟩)
  · exact .bind (ih.elseBlock ctx) fun orelse placed' =>
      .pure (Bool.and_eq_true_iff.2 ⟨placed, placed'⟩)

theorem yields_elseBlock (ctx : Context) :
    Yields (fun body => allPlaced ctx.inLoop ctx.inFunction body = true)
      (elseBlock ctx (f + 1)) := by
  unfold elseBlock
  refine .skip fun branch => ?_
  split
  · exact .skip fun _ => ih.block ctx
  · exact .pure rfl

theorem yields_block (ctx : Context) :
    Yields (fun body => allPlaced ctx.inLoop ctx.inFunction body = true) (block ctx (f + 1)) := by
  unfold block
  refine .skip fun newline => ?_
  split
  · refine .skip fun _ => .skip fun t => ?_
    split
    · exact .skip fun _ => ih.blockRest ctx
    · exact .fail _
    · exact .fail _
  · exact yields_simpleLine f

theorem yields_blockRest (ctx : Context) :
    Yields (fun body => allPlaced ctx.inLoop ctx.inFunction body = true)
      (blockRest ctx (f + 1)) := by
  unfold blockRest
  refine .skip fun t => ?_
  split
  · exact .skip fun _ => .pure rfl
  · exact .unexpected ctx
  · exact .bind (ih.statement ctx) fun first placed => .bind (ih.blockRest ctx) fun rest placed' =>
      .pure (allPlaced_append placed placed')

end

theorem places (f : Nat) : Places f := by
  induction f with
  | zero => constructor <;> · intro ctx; exact .fail _
  | succ f ih => exact {
      statement := yields_statement ih
      ifStatement := yields_ifStatement ih
      elseBlock := yields_elseBlock ih
      block := yields_block ih
      blockRest := yields_blockRest ih }

theorem yields_statements (ctx : Context) (f : Nat) :
    Yields (fun body => allPlaced ctx.inLoop ctx.inFunction body = true) (statements ctx f) := by
  induction f with
  | zero => exact .fail _
  | succ f ih =>
    refine .skip fun t => ?_
    split
    · exact .pure rfl
    · exact .bind ((places f).statement ctx) fun first placed => .bind ih fun rest placed' =>
        .pure (allPlaced_append placed placed')

theorem yields_oneStatement (ctx : Context) (f : Nat) :
    Yields (fun body => allPlaced ctx.inLoop ctx.inFunction body = true) (oneStatement ctx f) := by
  have ends (body : List Statement) (placed : allPlaced ctx.inLoop ctx.inFunction body = true) :
      Yields (fun body => allPlaced ctx.inLoop ctx.inFunction body = true)
        (do unless isEnd (← current) do Parse.fail .multipleStatements
            return body) :=
    .skip fun t => .check fun _ => .pure placed
  refine .skip fun t => ?_
  dsimp only
  split
  · exact .bind (P := fun body => allPlaced ctx.inLoop ctx.inFunction body = true) (.pure rfl) ends
  · exact .bind ((places f).statement ctx) ends

theorem placed_of_program {tokens : List Token} {mode : Mode} {t : Bool} {body : List Statement}
    (read : program tokens mode t = .ok body) : allPlaced false false body = true := by
  obtain ⟨lines, rest, skipped, -, -⟩ := skipNewlines_ok (enoughFuel tokens) tokens
  cases mode with
  | single =>
    rw [program_single skipped] at read
    obtain ⟨left, alone⟩ := map_fst_ok read
    exact yields_oneStatement _ _ _ _ _ alone
  | script =>
    rw [program_script skipped] at read
    obtain ⟨left, all⟩ := map_fst_ok read
    exact yields_statements _ _ _ _ _ all

end Parse

/-- Every program that compiles has its jumps and returns where they may stand. -/
theorem Program.placed_of_compile {source : String} {mode : Token.Mode} {program : Program}
    (compiles : Program.compile source mode = .ok program) :
    allPlaced false false program.body = true := by
  obtain ⟨tokens, -, parsed, -⟩ := compile_ok compiles
  exact Parse.placed_of_program parsed

end Console
