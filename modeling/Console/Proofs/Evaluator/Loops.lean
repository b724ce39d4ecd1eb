import Console.Evaluator
import Console.Proofs.Machine

/-!
# Which loop a jump acts on

A jump acts on the innermost loop that it stands in the body of. From the suite behind the `else` of a
loop it leaves that loop for the one around it.
-/

namespace Console

open Eval

namespace Flow

variable {m m₁ m₂ m' : Machine}

/-- The loop goes into its body on the machine `m₁`; behind that round it is the loop `others`. -/
inductive Enters (body : Eval Flow) (m m₁ : Machine) : (loop others : Eval Flow) → Prop
  | whileLoop {test : Eval Bool} (holds : test m = .ok true m₁) (orelse : Eval Flow) (steps : Nat) :
    Enters body m m₁ (whileLoop test body orelse (steps + 1)) (whileLoop test body orelse steps)
  | forLoop {assign : Value → Eval Unit} {v : Value} (bound : assign v m = .ok () m₁)
    (orelse : Eval Flow) (rest : List Value) :
    Enters body m m₁ (forLoop assign body orelse (v :: rest)) (forLoop assign body orelse rest)

/-- The loop goes on until its test fails or its values are used up, without a break or a return. -/
inductive RunsOut (body orelse : Eval Flow) : (loop : Eval Flow) → Machine → Machine → Prop
  | fails {test : Eval Bool} {steps : Nat} {m m' : Machine} (fails : test m = .ok false m') :
    RunsOut body orelse (whileLoop test body orelse (steps + 1)) m m'
  | usedUp {assign : Value → Eval Unit} {m : Machine} :
    RunsOut body orelse (forLoop assign body orelse []) m m
  | round {loop others : Eval Flow} {m m₁ m₂ m' : Machine} {flow : Flow}
    (enters : Enters body m m₁ loop others) (ran : body m₁ = .ok flow m₂)
    (stays : flow = .normal ∨ flow = .continue) (rest : RunsOut body orelse others m₂ m') :
    RunsOut body orelse loop m m'

variable {body orelse loop others : Eval Flow}

theorem Enters.of_stays (enters : Enters body m m₁ loop others) {flow : Flow}
    (ran : body m₁ = .ok flow m₂) (stays : flow = .normal ∨ flow = .continue) :
    loop m = others m₂ := by
  cases enters with
  | whileLoop holds =>
    rw [Flow.whileLoop, run_bind holds, if_pos rfl, run_bind ran]
    rcases stays with rfl | rfl <;> rfl
  | forLoop bound =>
    rw [Flow.forLoop, run_bind bound, run_bind ran]
    rcases stays with rfl | rfl <;> rfl

theorem Enters.of_break (enters : Enters body m m₁ loop others) (ran : body m₁ = .ok .break m₂) :
    loop m = .ok .normal m₂ := by
  cases enters with
  | whileLoop holds =>
    rw [Flow.whileLoop, run_bind holds, if_pos rfl, run_bind ran]
    rfl
  | forLoop bound =>
    rw [Flow.forLoop, run_bind bound, run_bind ran]
    rfl

/-- A loop that runs out ends as what stands behind its `else`. -/
theorem RunsOut.loop_eq (out : RunsOut body orelse loop m m') : loop m = orelse m' := by
  induction out with
  | fails fails =>
    rw [whileLoop, run_bind fails]
    rfl
  | usedUp => rfl
  | round enters ran stays _ ih => rw [enters.of_stays ran stays, ih]

variable {α : Type} {exec : α → Eval Flow} {s : α}

theorem block_of_normal (first : exec s m = .ok .normal m') (rest : List α) :
    block exec (s :: rest) m = block exec rest m' := by
  rw [block, run_bind first]

theorem block_of_jump {jump : Flow} (leaves : jump ≠ .normal) (first : exec s m = .ok jump m')
    (rest : List α) : block exec (s :: rest) m = .ok jump m' := by
  rw [block, run_bind first]
  cases jump with
  | normal => exact absurd rfl leaves
  | «break» => rfl
  | «continue» => rfl
  | «return» v => rfl

end Flow

namespace Evaluator

/-- Running a suite arrives at one of its simple statements and has made the machine `m'` by then. It
goes through branches and through what stands behind `else`, but not into the body of a loop: what is in
there belongs to that loop. -/
inductive Arrives (frame : Frame) (action : Simple) (m' : Machine) :
    Nat → List Statement → Machine → Prop
  | here {steps line : Nat} {rest : List Statement} :
    Arrives frame action m' (steps + 1) (.simple line action :: rest) m'
  | later {steps : Nat} {s : Statement} {rest : List Statement} {m m₁ : Machine}
    (first : exec steps frame s m = .ok .normal m₁) (others : Arrives frame action m' steps rest m₁) :
    Arrives frame action m' steps (s :: rest) m
  | branch {steps line : Nat} {test : Expr} {body orelse rest : List Statement} {holds : Bool}
    {m m₁ : Machine} (decided : (do isTrue (← eval steps frame test)) m = .ok holds m₁)
    (within : Arrives frame action m' steps (if holds then body else orelse) m₁) :
    Arrives frame action m' (steps + 1) (.ifElse line test body orelse :: rest) m
  | whileElse {steps line : Nat} {test : Expr} {body orelse rest : List Statement} {m m₁ : Machine}
    (out : Flow.RunsOut (Flow.block (exec steps frame) body) (Flow.block (exec steps frame) orelse)
      (Flow.whileLoop (do isTrue (← eval steps frame test)) (Flow.block (exec steps frame) body)
        (Flow.block (exec steps frame) orelse) steps) m m₁)
    (within : Arrives frame action m' steps orelse m₁) :
    Arrives frame action m' (steps + 1) (.whileLoop line test body orelse :: rest) m
  | forElse {steps line : Nat} {target iterable : Expr} {body orelse rest : List Statement}
    {values : Array Value} {m m₀ m₁ : Machine}
    (given : (do items (← eval steps frame iterable)) m = .ok values m₀)
    (out : Flow.RunsOut (Flow.block (exec steps frame) body) (Flow.block (exec steps frame) orelse)
      (Flow.forLoop (Target.assign (eval steps frame) frame target)
        (Flow.block (exec steps frame) body) (Flow.block (exec steps frame) orelse) values.toList)
      m₀ m₁)
    (within : Arrives frame action m' steps orelse m₁) :
    Arrives frame action m' (steps + 1) (.forLoop line target iterable body orelse :: rest) m

section

variable (steps : Nat) (frame : Frame) (line : Nat) (body orelse : List Statement)

theorem exec_simple (action : Simple) : exec (steps + 1) frame (.simple line action) =
    located line (action.exec (eval steps frame) ⟨call steps, steps⟩ frame) := rfl

theorem exec_ifElse (test : Expr) : exec (steps + 1) frame (.ifElse line test body orelse) =
    located line (do
      if ← isTrue (← eval steps frame test) then Flow.block (exec steps frame) body
      else Flow.block (exec steps frame) orelse) := rfl

theorem exec_whileLoop (test : Expr) : exec (steps + 1) frame (.whileLoop line test body orelse) =
    located line (Flow.whileLoop (do isTrue (← eval steps frame test))
      (Flow.block (exec steps frame) body) (Flow.block (exec steps frame) orelse) steps) := rfl

theorem exec_forLoop (target iterable : Expr) :
    exec (steps + 1) frame (.forLoop line target iterable body orelse) =
      located line (do
        let values ← items (← eval steps frame iterable)
        Flow.forLoop (Target.assign (eval steps frame) frame target)
          (Flow.block (exec steps frame) body) (Flow.block (exec steps frame) orelse)
          values.toList) := rfl

end

variable {frame : Frame} {action : Simple} {steps : Nat} {body : List Statement} {m m' : Machine}

theorem located_ok {α : Type} {line : Nat} {x : Eval α} {a : α} (run : x m = .ok a m') :
    located line x m = .ok a m' := by
  simp only [located, run]

/-- What goes on from the result of two evaluations. -/
theorem run_bind_bind {α β γ : Type} {x : Eval α} {f : α → Eval β} {b : β}
    (run : (do f (← x)) m = .ok b m') (g : β → Eval γ) : (do g (← f (← x))) m = g b m' := by
  rw [← bind_assoc]
  exact run_bind run g

/-- A suite that arrives at a jump ends in it. -/
theorem Arrives.block_eq {jump : Flow} (leaves : jump ≠ .normal)
    (acts : ∀ eval caller, action.exec eval caller frame = return jump)
    (arrives : Arrives frame action m' steps body m) :
    Flow.block (exec steps frame) body m = .ok jump m' := by
  induction arrives with
  | here =>
    refine Flow.block_of_jump leaves ?_ _
    rw [exec_simple, acts]
    rfl
  | later first _ ih => rw [Flow.block_of_normal first, ih]
  | branch decided _ ih =>
    refine Flow.block_of_jump leaves ?_ _
    rw [exec_ifElse]
    apply located_ok
    rw [run_bind_bind decided, ← ih]
    split <;> rfl
  | whileElse out _ ih =>
    refine Flow.block_of_jump leaves ?_ _
    rw [exec_whileLoop]
    apply located_ok
    rw [out.loop_eq, ih]
  | forElse given out _ ih =>
    refine Flow.block_of_jump leaves ?_ _
    rw [exec_forLoop]
    apply located_ok
    rw [run_bind_bind given, out.loop_eq, ih]

end Evaluator

end Console
