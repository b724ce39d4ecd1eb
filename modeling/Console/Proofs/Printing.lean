import Console.Printing
import Console.Proofs.Machine

/-!
# What is noted while a value is written

Writing a value leaves the containers noted as it found them, whether it fails or not. So it is told
apart from the notes: what stands around a value is handed down, and nothing is handed back.
-/

namespace Console.Eval

variable {α β γ : Type} {caller : Caller}

/-- The value whose parts a container has. -/
def Container.value : Container → Value
  | .list r => .list r
  | .dict r => .dict r

/-- Writes a value inside the containers `around`. -/
def reprWithin (caller : Caller) : (depth : Nat) → List Container → Value → Eval String
  | 0, _, _ => exhausted
  | depth + 1, around, v => do
    match v with
    | .list r =>
      if around.contains (.list r) then return "[...]"
      let parts ← (← ask (·.list r)).toList.mapM (reprWithin caller depth (.list r :: around))
      return "[" ++ ", ".intercalate parts ++ "]"
    | .tuple r =>
      let parts ← (← ask (·.tuple r)).toList.mapM (reprWithin caller depth around)
      return parenthesised parts
    | .dict r =>
      if around.contains (.dict r) then return "\x7b...\x7d"
      let parts ← (← ask (·.dict r)).toList.mapM fun e => do
        -- Both sides are written before a failure of the first counts.
        let key ← attempt (reprWithin caller depth (.dict r :: around) e.1)
        let value ← attempt (reprWithin caller depth (.dict r :: around) e.2)
        return (← ofExcept key) ++ ": " ++ (← ofExcept value)
      return "\x7b" ++ ", ".intercalate parts ++ "\x7d"
    | .instance r =>
      if (← ask fun h => h.classAttr? (h.inst r).cls "__repr__").isSome then
        callForText caller v "__repr__"
      else ask (plainRepr · v)
    | v => ask (plainRepr · v)

theorem attempt_bind (x : Eval α) (f : α → Eval β) :
    attempt (x >>= f) = attempt x >>= fun
      | .ok a => attempt (f a)
      | .error e => pure (.error e) := by
  funext m
  simp only [attempt, bind, EStateM.bind]
  cases x m with
  | ok a m => rfl
  | error stop m => cases stop <;> rfl

theorem attempt_attempt (x : Eval α) : attempt (attempt x) = attempt x >>= fun r => pure (.ok r) := by
  funext m
  simp only [attempt, bind, EStateM.bind]
  cases x m with
  | ok a m => rfl
  | error stop m => cases stop <;> rfl

theorem ofExcept_attempt (x : Eval α) : attempt x >>= ofExcept = x := by
  funext m
  simp only [attempt, bind, EStateM.bind]
  cases x m with
  | ok a m => rfl
  | error stop m => cases stop <;> rfl

/-- An entry of a dict is written where both its sides are, each on its own. -/
theorem run_entry {m : Machine} {write : Value → Eval String} {e : Value × Value}
    {key value : String} (first : write e.1 m = .ok key m) (second : write e.2 m = .ok value m) :
    (do
      let key ← attempt (write e.1)
      let value ← attempt (write e.2)
      return (← ofExcept key) ++ ": " ++ (← ofExcept value)) m = .ok (key ++ ": " ++ value) m := by
  rw [run_bind (run_attempt first), run_bind (run_attempt second)]
  rfl

namespace Writing

/-- What is written depends on the containers noted, and they are the same ones afterwards. -/
def Keeps (x : Writing α) (y : List Container → Eval α) : Prop :=
  ∀ around, x.run.run around = attempt (y around) >>= fun result => pure (result, around)

namespace Keeps

variable {x : Writing α} {y : List Container → Eval α}

theorem pure (a : α) : Keeps (pure a) fun _ => pure a := fun _ => rfl

theorem ofEval (z : Eval α) : Keeps (ofEval z) fun _ => z := fun _ => rfl

theorem bind {f : α → Writing β} {g : α → List Container → Eval β} (first : Keeps x y)
    (others : ∀ a, Keeps (f a) (g a)) :
    Keeps (x >>= f) fun around => y around >>= fun a => g a around := by
  intro around
  have steps : (x >>= f).run.run around = x.run.run around >>= fun
      | (.ok a, noted) => (f a).run.run noted
      | (.error e, noted) => Pure.pure (.error e, noted) := by
    rw [ExceptT.run_bind, StateT.run_bind]
    refine bind_congr fun ⟨result, noted⟩ => ?_
    cases result <;> rfl
  rw [steps, first around, attempt_bind, bind_assoc, bind_assoc]
  refine bind_congr fun result => ?_
  cases result with
  | ok a => exact others a around
  | error e => rfl

theorem either {c : Bool} {x' : Writing α} {y' : List Container → Eval α}
    (first : Keeps x y) (second : Keeps x' y') :
    Keeps (if c then x else x') fun around => if c then y around else y' around := by
  split
  · exact first
  · exact second

theorem get : Keeps get fun around => Pure.pure around := fun _ => rfl

theorem mapM {f : γ → Writing β} {g : γ → List Container → Eval β} (cs : List γ)
    (each : ∀ c, Keeps (f c) (g c)) : Keeps (cs.mapM f) fun around => cs.mapM (g · around) := by
  induction cs with
  | nil => exact pure []
  | cons c cs ih =>
    simp only [List.mapM_cons]
    exact (each c).bind fun b => ih.bind fun bs => pure (b :: bs)

theorem inside {c : Container} (keeps : Keeps x y) :
    Keeps (inside c x) fun around => y (c :: around) := by
  intro around
  have steps : (Writing.inside c x).run.run around = x.run.run (c :: around) >>= fun
      | (result, noted) => Pure.pure (result, noted.tail) := rfl
  rw [steps, keeps, bind_assoc]
  rfl

theorem both {x' : Writing β} {y' : List Container → Eval β} (first : Keeps x y)
    (second : Keeps x' y') :
    Keeps (both x x') fun around => do
      let a ← attempt (y around)
      let b ← attempt (y' around)
      return (← ofExcept a, ← ofExcept b) := by
  intro around
  have steps : (Writing.both x x').run.run around = x.run.run around >>= fun
      | (a, noted) => x'.run.run noted >>= fun
        | (b, noted) => Pure.pure (do return (← a, ← b), noted) := rfl
  rw [steps, first around, attempt_bind, attempt_attempt, bind_assoc, bind_assoc, bind_assoc]
  refine bind_congr fun a => ?_
  show x'.run.run around >>= _ = attempt (attempt (y' around) >>= _) >>= _
  rw [second around, attempt_bind, attempt_attempt, bind_assoc, bind_assoc, bind_assoc]
  refine bind_congr fun b => ?_
  cases a with
  | error e => rfl
  | ok a => cases b <;> rfl

theorem entry {x x' : Writing String} {y y' : List Container → Eval String} (first : Keeps x y)
    (second : Keeps x' y') :
    Keeps (do
      let (key, value) ← Writing.both x x'
      return key ++ ": " ++ value) fun around => do
        let key ← attempt (y around)
        let value ← attempt (y' around)
        return (← ofExcept key) ++ ": " ++ (← ofExcept value) := by
  intro around
  rw [(first.both second).bind (fun sides => pure (sides.1 ++ ": " ++ sides.2)) around]
  simp only [bind_assoc, pure_bind]

end Keeps

/-- A value is written as it is where nothing is noted, and the notes are kept. -/
theorem keeps_value (caller : Caller) (depth : Nat) (v : Value) :
    Keeps (value caller depth v) fun around => reprWithin caller depth around v := by
  induction depth generalizing v with
  | zero => exact .ofEval exhausted
  | succ depth ih =>
    cases v with
    | list r =>
      have parts := (Keeps.ofEval (ask (·.list r))).bind fun items =>
        (Keeps.mapM items.toList fun item => ih item).bind fun parts =>
          .pure ("[" ++ ", ".intercalate parts ++ "]")
      exact Keeps.get.bind fun noted => (Keeps.pure "[...]").either parts.inside
    | tuple r =>
      exact (Keeps.ofEval (ask (·.tuple r))).bind fun items =>
        (Keeps.mapM items.toList fun item => ih item).bind fun parts => .pure (parenthesised parts)
    | dict r =>
      have parts := (Keeps.ofEval (ask (·.dict r))).bind fun entries =>
        (Keeps.mapM entries.toList fun e => (ih e.1).entry (ih e.2)).bind fun parts =>
          .pure ("\x7b" ++ ", ".intercalate parts ++ "\x7d")
      exact Keeps.get.bind fun noted => (Keeps.pure "\x7b...\x7d").either parts.inside
    | «instance» r => exact .ofEval _
    | _ => exact .ofEval _

end Writing

/-- Writing a value is writing it inside no containers. -/
theorem repr_eq (caller : Caller) (v : Value) :
    repr caller v = ask (fun h => caller.depth + h.unfoldedDepth) >>= fun depth =>
      reprWithin caller depth [] v := by
  rw [repr]
  refine bind_congr fun depth => ?_
  rw [Writing.keeps_value caller depth v [], bind_assoc]
  exact ofExcept_attempt _

end Console.Eval
