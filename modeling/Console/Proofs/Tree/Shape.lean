import Console.Proofs.Text.Lines
import Console.Proofs.Tree.ExpressionShape

/-!
# The shape of programs

All statements that are read off a settled stream are well formed: targets can be assigned to, places
can be changed and deleted, bodies are not empty, and the parameters of a function differ, those with
defaults last. As the tokens of every source are settled, every program that compiles is well formed.
-/

namespace Console

namespace Parse

open Token Text

variable {ctx : Context}

/-! ## Names -/

/-- A point is no character of a name, so the words of a longer name are those that it was read from. -/
theorem dottedWellFormed_of_word {word : String} (free : isKeyword word = false)
    (spelled : ∀ ch ∈ word.toList, isNamePart ch = true) : Simple.dottedWellFormed word = true := by
  have undotted : '.' ∉ word.toList := fun inside => absurd (spelled '.' inside) (by decide)
  simp [Simple.dottedWellFormed, dottedWords, pieces_of_not_mem undotted, free]

theorem dottedWellFormed_cons {word name : String} (free : isKeyword word = false)
    (spelled : ∀ ch ∈ word.toList, isNamePart ch = true) (rest : Simple.dottedWellFormed name = true) :
    Simple.dottedWellFormed (word ++ "." ++ name) = true := by
  have undotted : '.' ∉ word.toList := fun inside => absurd (spelled '.' inside) (by decide)
  have letters : (word ++ "." ++ name).toList = word.toList ++ '.' :: name.toList := by simp
  unfold Simple.dottedWellFormed dottedWords at rest ⊢
  rw [letters, pieces_append, pieces_of_not_mem undotted]
  simpa [free] using rest

theorem takes_dottedName (f : Nat) :
    Takes (fun name => Simple.dottedWellFormed name = true) (dottedName ctx f) := by
  induction f with
  | zero => exact .fail _
  | succ f ih =>
    refine (Takes.identifier ctx).bind fun word ⟨free, spelled⟩ => (Takes.eatOp _).bind fun more _ => ?_
    split
    · exact ih.bind fun name formed => .pure (dottedWellFormed_cons free spelled formed)
    · exact .pure (dottedWellFormed_of_word free spelled)

/-- Something is read, and all of it has the property. -/
theorem takes_commaSeparated {α : Type} {P : α → Prop} {item : Parser α} (each : Takes P item)
    (f : Nat) : Takes (fun as => as ≠ [] ∧ ∀ a ∈ as, P a) (commaSeparated item f) := by
  induction f with
  | zero => exact .fail _
  | succ f ih =>
    refine each.bind fun first holds => (Takes.eatOp _).bind fun more _ => ?_
    split
    · exact ih.bind fun rest others =>
        .pure ⟨List.cons_ne_nil _ _, List.forall_mem_cons.2 ⟨holds, others.2⟩⟩
    · exact .pure ⟨List.cons_ne_nil _ _, List.forall_mem_singleton.2 holds⟩

theorem takes_importedNames (bracketed : Bool) (f : Nat) :
    Takes (fun names => names ≠ [] ∧ ∀ name ∈ names, isKeyword name = false)
      (importedNames ctx bracketed f) := by
  induction f with
  | zero => exact .fail _
  | succ f ih =>
    refine (Takes.identifier ctx).bind fun first ⟨free, _⟩ => (Takes.eatOp _).bind fun more _ => ?_
    have one : [first] ≠ [] ∧ ∀ name ∈ [first], isKeyword name = false :=
      ⟨List.cons_ne_nil _ _, List.forall_mem_singleton.2 free⟩
    split
    · have onward : Takes (fun names => names ≠ [] ∧ ∀ name ∈ names, isKeyword name = false)
          (do return first :: (← importedNames ctx bracketed f)) :=
        ih.bind fun rest others =>
          .pure ⟨List.cons_ne_nil _ _, List.forall_mem_cons.2 ⟨free, others.2⟩⟩
      cases bracketed with
      | false => exact onward
      | true =>
        refine (Takes.atOp _).bind fun closed _ => ?_
        split
        · exact .pure one
        · exact onward
    · exact .pure one

/-! ## Simple statements -/

theorem takes_atStatementEnd : Takes (fun _ => True) atStatementEnd :=
  Takes.atNewline.bind fun newline _ => by
    cases newline with
    | true => exact .pure trivial
    | false => exact (Takes.atOp _).bind fun _ _ => .pure trivial

theorem takes_deletedPlaces (f : Nat) :
    Takes (fun es => es ≠ [] ∧ ∀ e ∈ es, e.wellFormed = true) (deletedPlaces ctx f) := by
  induction f with
  | zero => exact .fail _
  | succ f ih =>
    refine ((expresses f).expression ctx _).bind fun first formed => (Takes.eatOp _).bind fun more _ => ?_
    have one : [first] ≠ [] ∧ ∀ e ∈ [first], e.wellFormed = true :=
      ⟨List.cons_ne_nil _ _, List.forall_mem_singleton.2 formed⟩
    split
    · refine takes_atStatementEnd.bind fun ends _ => ?_
      split
      · exact .pure one
      · exact ih.bind fun rest others =>
          .pure ⟨List.cons_ne_nil _ _, List.forall_mem_cons.2 ⟨formed, others.2⟩⟩
    · exact .pure one

theorem takes_assigned (f : Nat) :
    Takes (fun r => (∀ e ∈ r.1, e.wellFormed = true) ∧ r.2.wellFormed = true) (assigned ctx f) := by
  induction f with
  | zero => exact .fail _
  | succ f ih =>
    refine ((expresses f).sequence ctx _).bind fun value formed => (Takes.eatOp _).bind fun more _ => ?_
    split
    · exact ih.bind fun r ⟨targets, last⟩ => .pure ⟨List.forall_mem_cons.2 ⟨formed, targets⟩, last⟩
    · exact .pure ⟨by simp, formed⟩

theorem takes_optionalValue {value : Parser Expr} (takes : Takes (fun e => e.wellFormed = true) value) :
    Takes (fun e => e.all Expr.wellFormed = true) (optionalValue value) := by
  refine takes_atStatementEnd.bind fun ends _ => ?_
  split
  · exact .pure rfl
  · exact takes.bind fun e formed => .pure formed

section

variable (inLoop inFunction : Bool) (f : Nat)

theorem takes_expressionStatement :
    Takes (fun s => s.wellFormed inLoop inFunction = true) (expressionStatement ctx f) := by
  refine ((expresses f).sequence ctx _).bind fun first formed => Takes.current.bind fun t _ => ?_
  split
  · refine .check fun place => Takes.advance.bind fun _ _ =>
      ((expresses f).sequence ctx _).bind fun value formed' => .pure ?_
    simp [Simple.wellFormed, formed, place, formed']
  · refine (Takes.eatOp _).bind fun equals _ => ?_
    split
    · refine (takes_assigned f).bind fun r ⟨targets, value⟩ => .check fun assignable => .pure ?_
      have all : ∀ e ∈ first :: r.1, e.wellFormed = true := List.forall_mem_cons.2 ⟨formed, targets⟩
      rw [List.all_eq_true] at assignable
      simp only [Simple.wellFormed, value, Bool.and_true, Bool.and_eq_true, List.all_eq_true]
      exact ⟨rfl, fun e inside => ⟨all e inside, assignable e inside⟩⟩
    · exact .pure formed

theorem takes_deleteStatement :
    Takes (fun s => s.wellFormed inLoop inFunction = true) (deleteStatement ctx f) := by
  refine (takes_deletedPlaces f).bind fun targets ⟨listed, formed⟩ => .check fun places => .pure ?_
  rw [List.all_eq_true] at places
  simp only [Simple.wellFormed, Bool.and_eq_true, List.all_eq_true]
  exact ⟨by simpa using listed, fun e inside => ⟨formed e inside, places e inside⟩⟩

theorem takes_importStatement :
    Takes (fun s => s.wellFormed inLoop inFunction = true) (importStatement ctx f) := by
  refine (takes_dottedName f).bind fun module formed => (Takes.expectWord ctx _).bind fun _ _ =>
    (Takes.eatOp _).bind fun star _ => ?_
  split
  · refine .pure ?_
    simp only [Simple.wellFormed, formed]
    decide
  · refine (Takes.eatOp _).bind fun bracketed _ => (takes_importedNames bracketed f).bind
      fun names ⟨listed, free⟩ => ?_
    have all : (Simple.importNames module names).wellFormed inLoop inFunction = true := by
      simpa [Simple.wellFormed, formed, listed] using free
    dsimp only
    split
    · exact (Takes.expectOp ctx _).bind fun _ _ => .pure all
    · exact .pure all

theorem takes_assertStatement :
    Takes (fun s => s.wellFormed inLoop inFunction = true) (assertStatement ctx f) := by
  refine ((expresses f).expression ctx _).bind fun test formed => (Takes.eatOp _).bind fun more _ => ?_
  split
  · exact ((expresses f).expression ctx _).bind fun message formed' => .pure (by
      simp [Simple.wellFormed, formed, formed'])
  · exact .pure (by simp [Simple.wellFormed, formed])

end

theorem takes_jump {action : Simple} (word : String)
    (formed : ctx.inLoop = true → action.wellFormed ctx.inLoop ctx.inFunction = true) :
    Takes (fun s => s.wellFormed ctx.inLoop ctx.inFunction = true) (jump ctx word action) :=
  .check fun inside => Takes.advance.bind fun _ _ => .pure (formed inside)

theorem takes_simpleStatement (f : Nat) :
    Takes (fun s => s.wellFormed ctx.inLoop ctx.inFunction = true) (simpleStatement ctx f) := by
  refine Takes.current.bind fun t _ => ?_
  split
  · exact Takes.advance.bind fun _ _ => .pure rfl
  · exact takes_jump _ id
  · exact takes_jump _ id
  · exact .check fun inside => Takes.advance.bind fun _ _ =>
      (takes_optionalValue ((expresses f).sequence ctx _)).bind fun e formed => .pure (by
        simp [Simple.wellFormed, inside, formed])
  · exact Takes.advance.bind fun _ _ =>
      (takes_optionalValue ((expresses f).expression ctx _)).bind fun e formed => .pure formed
  · exact Takes.advance.bind fun _ _ => takes_assertStatement _ _ f
  · refine Takes.advance.bind fun _ _ => (takes_commaSeparated (Takes.identifier ctx) f).bind
      fun names ⟨listed, words⟩ => .pure ?_
    simpa [Simple.wellFormed, listed] using fun name inside => (words name inside).1
  · exact Takes.advance.bind fun _ _ => takes_deleteStatement _ _ f
  · refine Takes.advance.bind fun _ _ => (takes_commaSeparated (takes_dottedName f) f).bind
      fun names ⟨listed, formed⟩ => .pure ?_
    simpa [Simple.wellFormed, listed] using formed
  · exact Takes.advance.bind fun _ _ => takes_importStatement _ _ f
  · exact takes_expressionStatement _ _ f

/-! ## Suites -/

/-- The statements are well formed in their context, and there are some. -/
def Suite (ctx : Context) (body : List Statement) : Prop :=
  body ≠ [] ∧ Statement.allWellFormed ctx.inLoop ctx.inFunction body = true

theorem allWellFormed_append {inLoop inFunction : Bool} {body rest : List Statement}
    (first : Statement.allWellFormed inLoop inFunction body = true)
    (others : Statement.allWellFormed inLoop inFunction rest = true) :
    Statement.allWellFormed inLoop inFunction (body ++ rest) = true := by
  induction body with
  | nil => exact others
  | cons s body ih =>
    simp only [Statement.allWellFormed, Bool.and_eq_true, List.cons_append] at first ⊢
    exact ⟨first.1, ih first.2⟩

theorem Suite.one {s : Statement} (formed : s.wellFormed ctx.inLoop ctx.inFunction = true) :
    Suite ctx [s] :=
  ⟨List.cons_ne_nil _ _, by simpa [Statement.allWellFormed] using formed⟩

theorem Suite.append {body rest : List Statement} (first : Suite ctx body)
    (others : Statement.allWellFormed ctx.inLoop ctx.inFunction rest = true) :
    Suite ctx (body ++ rest) :=
  ⟨List.append_ne_nil_of_left_ne_nil first.1 _, allWellFormed_append first.2 others⟩

theorem takes_simpleLine (f : Nat) : Takes (Suite ctx) (simpleLine ctx f) := by
  induction f with
  | zero => exact .fail _
  | succ f ih =>
    refine Takes.current.bind fun t _ => (takes_simpleStatement f).bind fun s formed =>
      (Takes.eatOp _).bind fun more _ => ?_
    have one : Suite ctx [.simple t.pos.line s] := .one formed
    split
    · refine Takes.atNewline.bind fun ending _ => ?_
      split
      · exact (Takes.expectNewline ctx).bind fun _ _ => .pure one
      · exact ih.bind fun rest others => .pure (one.append others.2)
    · exact (Takes.expectNewline ctx).bind fun _ _ => .pure one

/-! ## Headers -/

/-- The parameters read so far, latest first. -/
structure ParametersFormed (seen : List Parameter) : Prop where
  free : ∀ p ∈ seen, isKeyword p.name = false ∧ p.default.all Expr.wellFormed = true
  differ : (seen.map Parameter.name).Nodup
  ordered : seen.Pairwise fun p q => q.default.isSome → p.default.isSome

theorem ParametersFormed.wellFormed {seen : List Parameter} (formed : ParametersFormed seen) :
    Parameter.wellFormed seen.reverse = true := by
  simp only [Parameter.wellFormed, Bool.and_eq_true, decide_eq_true_eq, List.all_reverse,
    List.all_eq_true, Bool.not_eq_true', List.map_reverse, List.nodup_reverse, List.pairwise_reverse]
  exact ⟨⟨formed.free, formed.differ⟩, formed.ordered⟩

theorem ParametersFormed.cons {seen : List Parameter} (formed : ParametersFormed seen) {p : Parameter}
    (free : isKeyword p.name = false ∧ p.default.all Expr.wellFormed = true)
    (fresh : seen.any (·.name == p.name) = false)
    (last : p.default = none → seen.any (·.default.isSome) = false) : ParametersFormed (p :: seen) := by
  refine ⟨List.forall_mem_cons.2 ⟨free, formed.free⟩, ?_, ?_⟩
  · rw [List.map_cons, List.nodup_cons]
    refine ⟨fun inside => ?_, formed.differ⟩
    simp only [List.any_eq_false, beq_iff_eq] at fresh
    obtain ⟨q, mem, same⟩ := List.mem_map.1 inside
    exact fresh q mem same
  · refine List.pairwise_cons.2 ⟨fun q inside defaulted => ?_, formed.ordered⟩
    cases default : p.default with
    | some e => rfl
    | none => exact absurd defaulted (List.any_eq_false.1 (last default) q inside)

theorem takes_parameters (f : Nat) (seen : List Parameter) (formed : ParametersFormed seen) :
    Takes (fun ps => Parameter.wellFormed ps = true) (parameters ctx f seen) := by
  induction f generalizing seen with
  | zero => exact .fail _
  | succ f ih =>
    refine (Takes.atOp _).bind fun closed _ => ?_
    split
    · exact .pure formed.wellFormed
    · refine (Takes.identifier ctx).bind fun name ⟨free, _⟩ => .refuse fun fresh =>
        (Takes.eatOp _).bind fun equals _ => ?_
      have onward (default : Option Expr) (kept : default.all Expr.wellFormed = true ∧
          (default = none → seen.any (·.default.isSome) = false)) :
          Takes (fun ps => Parameter.wellFormed ps = true)
            (do if ← eatOp "," then parameters ctx f (⟨name, default⟩ :: seen)
                else return (⟨name, default⟩ :: seen).reverse) := by
        have more : ParametersFormed (⟨name, default⟩ :: seen) :=
          formed.cons ⟨free, kept.1⟩ fresh kept.2
        refine (Takes.eatOp _).bind fun comma _ => ?_
        split
        · exact ih _ more
        · exact .pure more.wellFormed
      dsimp only
      split
      · exact (((expresses f).expression ctx _).map fun e formed => ⟨formed, nofun⟩).bind
          onward
      · exact .refuse fun absent => .bind (.pure ⟨rfl, fun _ => absent⟩) onward

theorem takes_baseClasses (f : Nat) :
    Takes (fun es => es.all Expr.wellFormed = true) (baseClasses ctx f) := by
  induction f with
  | zero => exact .fail _
  | succ f ih =>
    refine (Takes.atOp _).bind fun closed _ => ?_
    split
    · exact .pure rfl
    · refine ((expresses f).expression ctx _).bind fun base formed => (Takes.eatOp _).bind
        fun more _ => ?_
      split
      · exact ih.bind fun rest others => .pure (by rw [List.all_cons, formed, others]; rfl)
      · exact .pure (by rw [List.all_cons, formed]; rfl)

theorem takes_functionHeader (f : Nat) :
    Takes (fun h => isKeyword h.1 = false ∧ Parameter.wellFormed h.2 = true) (functionHeader ctx f) := by
  refine (Takes.identifier ctx).bind fun name ⟨free, _⟩ => (Takes.expectOp ctx _).bind fun _ _ =>
    (takes_parameters f [] ⟨by simp, by simp, by simp⟩).bind fun ps formed =>
      (Takes.expectOp ctx _).bind fun _ _ => (Takes.eatOp _).bind fun arrow _ => ?_
  have header : Takes (fun h => isKeyword h.1 = false ∧ Parameter.wellFormed h.2 = true)
      (do expectOp ctx ":"
          return (name, ps)) :=
    (Takes.expectOp ctx _).bind fun _ _ => .pure ⟨free, formed⟩
  dsimp only
  split
  · exact (((expresses f).expression ctx _).map (Q := fun _ => True) fun _ _ => trivial).bind
      fun _ _ => header
  · exact header

theorem takes_classHeader (f : Nat) :
    Takes (fun h => isKeyword h.1 = false ∧ h.2.all Expr.wellFormed = true) (classHeader ctx f) := by
  refine (Takes.identifier ctx).bind fun name ⟨free, _⟩ => (Takes.eatOp _).bind fun listed _ => ?_
  have header (bases : List Expr) (formed : bases.all Expr.wellFormed = true) :
      Takes (fun h => isKeyword h.1 = false ∧ h.2.all Expr.wellFormed = true)
        (do expectOp ctx ":"
            return (name, bases)) :=
    (Takes.expectOp ctx _).bind fun _ _ => .pure ⟨free, formed⟩
  dsimp only
  split
  · exact (takes_baseClasses f).bind fun bases formed => (Takes.expectOp ctx _).bind fun _ _ =>
      .bind (P := fun bases => bases.all Expr.wellFormed = true) (.pure formed) header
  · exact .bind (P := fun bases => bases.all Expr.wellFormed = true) (.pure rfl) header

theorem takes_forHeader (f : Nat) :
    Takes (fun h => h.1.wellFormed = true ∧ h.1.isAssignable = true ∧ h.2.wellFormed = true)
      (forHeader ctx f) :=
  ((expresses f).sequence ctx _).bind fun _ formed => .check fun assignable =>
    (Takes.expectWord ctx _).bind fun _ _ => ((expresses f).sequence ctx _).bind
      fun _ formed' => (Takes.expectOp ctx _).bind fun _ _ =>
        .pure ⟨formed, assignable, formed'⟩

theorem takes_testHeader (f : Nat) : Takes (fun e => e.wellFormed = true) (testHeader ctx f) :=
  ((expresses f).expression ctx _).bind fun _ formed => (Takes.expectOp ctx _).bind fun _ _ =>
    .pure formed

/-! ## Compound statements -/

/-- All readings of statements at a depth take well-formed ones. -/
structure Shapes (f : Nat) : Prop where
  statement : ∀ ctx, Takes (Suite ctx) (statement ctx f)
  ifStatement : ∀ ctx, Takes (fun s => s.wellFormed ctx.inLoop ctx.inFunction = true)
    (ifStatement ctx f)
  elseBlock : ∀ ctx,
    Takes (fun body => Statement.allWellFormed ctx.inLoop ctx.inFunction body = true) (elseBlock ctx f)
  block : ∀ ctx, Takes (Suite ctx) (block ctx f)
  blockRest : ∀ ctx,
    Takes (fun body => Statement.allWellFormed ctx.inLoop ctx.inFunction body = true) (blockRest ctx f)
  /-- A block ends behind a statement of its own. -/
  begun : ∀ ctx ts body rest, Settled ts → isDedent (front ts) = false →
    Parse.blockRest ctx f ts = .ok (body, rest) → body ≠ []

namespace Shapes

variable {f : Nat} (ih : Shapes f)
include ih

theorem next_statement (ctx : Context) : Takes (Suite ctx) (Parse.statement ctx (f + 1)) := by
  unfold Parse.statement
  refine Takes.current.bind fun t _ => Takes.current.bind fun t' _ => ?_
  split
  · exact (ih.ifStatement ctx).bind fun s formed => .pure (.one formed)
  · refine Takes.advance.bind fun _ _ => (takes_testHeader f).bind fun test formed =>
      (ih.block _).bind fun body suite => (ih.elseBlock ctx).bind fun orelse formed' =>
        .pure (.one ?_)
    simp [Statement.wellFormed, formed, suite.1, suite.2, formed']
  · refine Takes.advance.bind fun _ _ => (takes_forHeader f).bind fun header formed =>
      (ih.block _).bind fun body suite => (ih.elseBlock ctx).bind fun orelse formed' =>
        .pure (.one ?_)
    simp [Statement.wellFormed, formed, suite.1, suite.2, formed']
  · refine Takes.advance.bind fun _ _ => (takes_functionHeader f).bind fun header formed =>
      (ih.block _).bind fun body suite => .pure (.one ?_)
    simp [Statement.wellFormed, formed, suite.1, suite.2]
  · refine Takes.advance.bind fun _ _ => (takes_classHeader f).bind fun header formed =>
      (ih.block _).bind fun body suite => .pure (.one ?_)
    simp only [Statement.wellFormed, formed.1, formed.2, suite.2]
    simpa using suite.1
  · exact .unexpected ctx
  · exact .unexpected ctx
  · exact .unexpected ctx
  · exact takes_simpleLine f

theorem next_ifStatement (ctx : Context) :
    Takes (fun s => s.wellFormed ctx.inLoop ctx.inFunction = true) (Parse.ifStatement ctx (f + 1)) := by
  unfold Parse.ifStatement
  refine Takes.current.bind fun t _ => Takes.advance.bind fun _ _ => (takes_testHeader f).bind
    fun test formed => (ih.block ctx).bind fun body suite => (Takes.atWord _).bind fun branch _ => ?_
  split
  · refine (ih.ifStatement ctx).bind fun s formed' => .pure ?_
    simp [Statement.wellFormed, Statement.allWellFormed, formed, suite.1, suite.2, formed']
  · refine (ih.elseBlock ctx).bind fun orelse formed' => .pure ?_
    simp [Statement.wellFormed, formed, suite.1, suite.2, formed']

theorem next_elseBlock (ctx : Context) :
    Takes (fun body => Statement.allWellFormed ctx.inLoop ctx.inFunction body = true)
      (Parse.elseBlock ctx (f + 1)) := by
  unfold Parse.elseBlock
  refine (Takes.eatWord _).bind fun branch _ => ?_
  split
  · exact (Takes.expectOp ctx _).bind fun _ _ => (ih.block ctx).mono fun body suite => suite.2
  · exact .pure rfl

theorem next_block (ctx : Context) : Takes (Suite ctx) (Parse.block ctx (f + 1)) := by
  unfold Parse.block
  refine Takes.atNewline.bind fun newline _ => ?_
  split
  · intro ts body rest settled read
    obtain ⟨_, opening, passed, opened⟩ := bind_ok read
    obtain ⟨_, settled⟩ := Takes.advance ts _ opening settled passed
    rw [run_current] at opened
    cases kind : (front opening).kind with
    | indent =>
      simp only [kind, run_advance] at opened
      have left := settled.of_suffix opening.tail_suffix
      have begins := settled.behind_indent (by simp [isIndent, kind])
      obtain ⟨formed, after⟩ := ih.blockRest ctx _ body rest left opened
      exact ⟨⟨ih.begun ctx _ body rest left begins opened, formed⟩, after⟩
    | _ =>
      simp only [kind] at opened
      cases opened
  · exact takes_simpleLine f

theorem next_blockRest (ctx : Context) :
    Takes (fun body => Statement.allWellFormed ctx.inLoop ctx.inFunction body = true)
      (Parse.blockRest ctx (f + 1)) := by
  unfold Parse.blockRest
  refine Takes.current.bind fun t _ => ?_
  split
  · exact Takes.advance.bind fun _ _ => .pure rfl
  · exact .unexpected ctx
  · exact (ih.statement ctx).bind fun first suite => (ih.blockRest ctx).bind fun rest formed =>
      .pure (allWellFormed_append suite.2 formed)

/-- Where no block ends, one more statement is read. -/
theorem next_begun (ctx : Context) (ts : List Token) (body : List Statement) (rest : List Token)
    (settled : Settled ts) (begins : isDedent (front ts) = false)
    (read : Parse.blockRest ctx (f + 1) ts = .ok (body, rest)) : body ≠ [] := by
  unfold Parse.blockRest at read
  rw [run_current] at read
  cases kind : (front ts).kind with
  | dedent => simp [isDedent, kind] at begins
  | endMarker =>
    simp only [kind] at read
    cases read
  | _ =>
    simp only [kind] at read
    obtain ⟨first, between, taken, onward⟩ := bind_ok read
    obtain ⟨others, left, -, done⟩ := bind_ok onward
    cases done
    exact List.append_ne_nil_of_left_ne_nil ((ih.statement ctx) ts first between settled taken).1.1 _

end Shapes

theorem shapes (f : Nat) : Shapes f := by
  induction f with
  | zero =>
    refine ⟨fun _ => .fail _, fun _ => .fail _, fun _ => .fail _, fun _ => .fail _, fun _ => .fail _, ?_⟩
    intro ctx ts body rest settled begins read
    cases read
  | succ f ih => exact {
      statement := ih.next_statement
      ifStatement := ih.next_ifStatement
      elseBlock := ih.next_elseBlock
      block := ih.next_block
      blockRest := ih.next_blockRest
      begun := ih.next_begun }

/-! ## Programs -/

theorem takes_statements (ctx : Context) (f : Nat) :
    Takes (fun body => Statement.allWellFormed ctx.inLoop ctx.inFunction body = true)
      (statements ctx f) := by
  induction f with
  | zero => exact .fail _
  | succ f ih =>
    refine Takes.current.bind fun t _ => ?_
    split
    · exact .pure rfl
    · exact ((shapes f).statement ctx).bind fun first suite => ih.bind fun rest formed =>
        .pure (allWellFormed_append suite.2 formed)

theorem takes_oneStatement (ctx : Context) (f : Nat) :
    Takes (fun body => Statement.allWellFormed ctx.inLoop ctx.inFunction body = true)
      (oneStatement ctx f) := by
  have ends (body : List Statement)
      (formed : Statement.allWellFormed ctx.inLoop ctx.inFunction body = true) :
      Takes (fun body => Statement.allWellFormed ctx.inLoop ctx.inFunction body = true)
        (do unless isEnd (← current) do Parse.fail .multipleStatements
            return body) :=
    Takes.current.bind fun _ _ => .check fun _ => .pure formed
  refine Takes.current.bind fun t _ => ?_
  dsimp only
  split
  · exact .bind (P := fun body => Statement.allWellFormed ctx.inLoop ctx.inFunction body = true)
      (.pure rfl) ends
  · exact ((shapes f).statement ctx).bind fun body suite => ends body suite.2

theorem wellFormed_of_program {tokens : List Token} (settled : Settled tokens) {mode : Mode} {t : Bool}
    {body : List Statement} (read : program tokens mode t = .ok body) :
    Statement.allWellFormed false false body = true := by
  obtain ⟨lines, rest, skipped, same, -⟩ := skipNewlines_ok (enoughFuel tokens) tokens
  have left : Settled rest := settled.of_suffix ⟨lines, same.symm⟩
  cases mode with
  | single =>
    rw [program_single skipped] at read
    obtain ⟨behind, alone⟩ := map_fst_ok read
    exact (takes_oneStatement _ _ _ _ _ left alone).1
  | script =>
    rw [program_script skipped] at read
    obtain ⟨behind, all⟩ := map_fst_ok read
    exact (takes_statements _ _ _ _ _ left all).1

end Parse

/-- Every program that compiles is well formed. -/
theorem Program.wellFormed_of_compile {source : String} {mode : Token.Mode} {program : Program}
    (compiles : Program.compile source mode = .ok program) :
    Statement.allWellFormed false false program.body = true := by
  obtain ⟨tokens, lexed, parsed, -⟩ := compile_ok compiles
  exact Parse.wellFormed_of_program (.of_tokenize lexed) parsed

end Console
