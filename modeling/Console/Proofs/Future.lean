import Console.Proofs.Evaluator.Features
import Console.Proofs.Program

/-!
# Future imports

The future imports that a program begins with take effect: each name that they import is a feature, and
that feature is in force whenever a statement of the program is executed. A future import that stands
deeper is accepted wherever it stands and whatever it names, and adds nothing to them.
-/

namespace Console

theorem Feature.ofName?_eq_some {word : String} {f : Feature} :
    ofName? word = some f ↔ f.name = word := by
  constructor
  · intro found
    simpa using List.find?_some found
  · rintro rfl
    cases f <;> rfl

namespace Statement

/-- The suites of a statement. -/
def suites : Statement → List (List Statement)
  | .simple _ _ => []
  | .ifElse _ _ body orelse | .whileLoop _ _ body orelse | .forLoop _ _ _ body orelse => [body, orelse]
  | .function _ _ _ body | .classBody _ _ _ body => [body]

end Statement

/-- The statement stands in a body, or in a suite of a statement in there, at any depth. -/
inductive Stands (t : Statement) : List Statement → Prop
  | here {body : List Statement} (inside : t ∈ body) : Stands t body
  | within {body suite : List Statement} {s : Statement} (inside : s ∈ body) (own : suite ∈ s.suites)
    (deeper : Stands t suite) : Stands t body

/-- Each of the names is a feature, and one of these. -/
def TakesEffect (features : Features) (names : List String) : Prop :=
  ∀ name ∈ names, ∃ f, Feature.ofName? name = some f ∧ features.has f = true

theorem TakesEffect.union {features : Features} {names : List String}
    (effect : TakesEffect features names) (before : Features) :
    TakesEffect (before.union features) names := by
  intro name inside
  obtain ⟨f, known, has⟩ := effect name inside
  exact ⟨f, known, by rw [Features.has_union, has, Bool.or_true]⟩

namespace Program

/-- The name is imported from the future by one of the statements, not by one in a suite of theirs. -/
def Imports (body : List Statement) (name : String) : Prop :=
  ∃ s ∈ body, ∃ names, futureNames? s = some names ∧ name ∈ names

theorem imports_cons_of_names {s : Statement} {names : List String} (imports : futureNames? s = some names)
    {rest : List Statement} {name : String} :
    Imports (s :: rest) name ↔ name ∈ names ∨ Imports rest name := by
  simp [Imports, imports]

/-- The features that are added are those that are named. -/
theorem addFeatures_ok {line : Nat} {features features' : Features} {names : List String}
    (added : addFeatures line features names = .ok features') :
    (∀ name ∈ names, ∃ f, Feature.ofName? name = some f) ∧
      ∀ f, features'.has f = true ↔ features.has f = true ∨ f.name ∈ names := by
  induction names generalizing features with
  | nil =>
    cases added
    simp
  | cons name names ih =>
    rw [addFeatures] at added
    split at added
    · cases added
    · cases found : Feature.ofName? name with
      | none =>
        rw [found] at added
        cases added
      | some feature =>
        rw [found] at added
        obtain ⟨known, has⟩ := ih added
        refine ⟨List.forall_mem_cons.2 ⟨⟨feature, found⟩, known⟩, fun f => ?_⟩
        have same : feature = f ↔ f.name = name := by
          rw [← Feature.ofName?_eq_some, found, Option.some_inj]
        rw [has, Features.has_union, Features.has_only, Bool.or_eq_true, decide_eq_true_iff, same,
          List.mem_cons, or_assoc]

/-- The future imports lead, and the features are those that they name. -/
theorem futureFrom_ok {features features' : Features} {body : List Statement}
    (read : futureFrom features body = .ok features') :
    (∃ leading others, body = leading ++ others ∧ (∀ s ∈ leading, (futureNames? s).isSome) ∧
      ∀ s ∈ others, futureNames? s = none) ∧
    (∀ name, Imports body name → ∃ f, Feature.ofName? name = some f) ∧
    ∀ f, features'.has f = true ↔ features.has f = true ∨ Imports body f.name := by
  induction body generalizing features with
  | nil =>
    cases read
    exact ⟨⟨[], [], rfl, by simp, by simp⟩, by simp [Imports], by simp [Imports]⟩
  | cons s rest ih =>
    rw [futureFrom] at read
    cases imports : futureNames? s with
    | some names =>
      rw [imports] at read
      dsimp only at read
      cases added : addFeatures s.line features names with
      | error e =>
        rw [added] at read
        cases read
      | ok more =>
        rw [added] at read
        obtain ⟨⟨leading, others, rfl, lead, follow⟩, known, has⟩ := ih read
        obtain ⟨known', has'⟩ := addFeatures_ok added
        refine ⟨⟨s :: leading, others, rfl, ?_, follow⟩, fun name imported => ?_, fun f => ?_⟩
        · exact List.forall_mem_cons.2 ⟨by simp [imports], lead⟩
        · rcases (imports_cons_of_names imports).1 imported with inside | imported
          · exact known' name inside
          · exact known name imported
        · rw [has, has', imports_cons_of_names imports, or_assoc]
    | none =>
      rw [imports] at read
      dsimp only at read
      cases late : rest.find? fun s => (futureNames? s).isSome with
      | some s' =>
        rw [late] at read
        cases read
      | none =>
        rw [late] at read
        cases read
        have nowhere : ∀ t ∈ s :: rest, futureNames? t = none :=
          List.forall_mem_cons.2 ⟨imports, fun t inside => by
            simpa using List.find?_eq_none.1 late t inside⟩
        have nothing (name : String) : ¬ Imports (s :: rest) name := by
          rintro ⟨t, inside, names, future, -⟩
          rw [nowhere t inside] at future
          cases future
        exact ⟨⟨[], s :: rest, rfl, by simp, nowhere⟩, fun name imported => absurd imported (nothing name),
          fun f => by simp [nothing]⟩

/-- A future import takes effect just where each of its names is imported by a leading one. -/
theorem takesEffect_iff {p : Program} (read : futureFrom .none p.body = .ok p.future)
    {names : List String} : TakesEffect p.future names ↔ ∀ name ∈ names, Imports p.body name := by
  obtain ⟨-, known, has⟩ := futureFrom_ok read
  have has (f : Feature) : p.future.has f = true ↔ Imports p.body f.name := by
    simpa using has f
  constructor
  · intro effect name inside
    obtain ⟨f, found, inForce⟩ := effect name inside
    rw [← Feature.ofName?_eq_some.1 found]
    exact (has f).1 inForce
  · intro imported name inside
    obtain ⟨f, found⟩ := known name (imported name inside)
    refine ⟨f, found, (has f).2 ?_⟩
    rw [Feature.ofName?_eq_some.1 found]
    exact imported name inside

/-- The future imports that are no part of a suite lead the program. They take effect, and the features
of the program are those that they name. One in a suite takes effect just where they name all that it
names. While the program runs its features are in force, as no statement is executed under others: a
handler of such statements makes no difference. -/
theorem leading_imports_take_effect {source : String} {mode : Token.Mode} {p : Program}
    (compiles : compile source mode = .ok p) :
    (∃ leading others, p.body = leading ++ others ∧ (∀ s ∈ leading, (futureNames? s).isSome) ∧
      ∀ s ∈ others, futureNames? s = none) ∧
    (∀ f, p.future.has f = true ↔ Imports p.body f.name) ∧
    (∀ t ∈ p.body, ∀ names, futureNames? t = some names →
      TakesEffect p.future names ∧
        ∀ before : Features, TakesEffect (before.union p.future) names) ∧
    (∀ t names, Stands t p.body → futureNames? t = some names →
      (TakesEffect p.future names ↔ ∀ name ∈ names, Imports p.body name)) ∧
    ∀ (m : Machine) handler steps echo before, m.runProgram steps echo before p =
      m.runUnder handler steps echo (before.union p.future) p.body := by
  obtain ⟨tokens, -, -, read⟩ := compile_ok compiles
  obtain ⟨leads, -, has⟩ := futureFrom_ok read
  refine ⟨leads, fun f => by simpa using has f, fun t inside names imports => ?_,
    fun t names _ _ => takesEffect_iff read,
    fun m handler steps echo before => m.runProgram_eq_runUnder handler steps echo before p⟩
  have effect : TakesEffect p.future names :=
    (takesEffect_iff read).2 fun name named => ⟨t, inside, names, imports, named⟩
  exact ⟨effect, effect.union⟩

/-- A future import in a suite of a statement of a program, and what is known of the program. -/
theorem exists_nested (source : String) (line : Nat) (names : List String) (known : Program → Bool)
    (checked : (compile source .script).toOption.any (fun p => known p && p.body.any fun s =>
      s.suites.any fun suite => suite.any fun t =>
        decide (t.line = line ∧ futureNames? t = some names)) = true) :
    ∃ p t, compile source .script = .ok p ∧ known p = true ∧ Stands t p.body ∧ t.line = line ∧
      futureNames? t = some names := by
  cases compiles : compile source .script with
  | error e =>
    rw [compiles] at checked
    cases checked
  | ok p =>
    rw [compiles] at checked
    obtain ⟨holds, nested⟩ := Bool.and_eq_true_iff.1 checked
    obtain ⟨s, inside, nested⟩ := List.any_eq_true.1 nested
    obtain ⟨suite, own, nested⟩ := List.any_eq_true.1 nested
    obtain ⟨t, here, nested⟩ := List.any_eq_true.1 nested
    obtain ⟨place, imports⟩ := of_decide_eq_true nested
    exact ⟨p, t, rfl, holds, .within inside own (.here here), place, imports⟩

/-- In a branch an import of an unknown feature is accepted, and it is executed without a fault. -/
theorem unknown_feature_in_a_branch_is_accepted :
    ∃ p t, compile "if 1:\n    from __future__ import telepathy\n" .script = .ok p ∧
      Stands t p.body ∧ futureNames? t = some ["telepathy"] ∧ ¬ TakesEffect p.future ["telepathy"] ∧
      (Machine.fresh.runProgram 9 false .none p).1.succeeded = true := by
  obtain ⟨p, t, compiles, runs, nested, -, imports⟩ := exists_nested
    "if 1:\n    from __future__ import telepathy\n" 2 ["telepathy"]
    (fun p => (Machine.fresh.runProgram 9 false .none p).1.succeeded) (by decide +kernel)
  refine ⟨p, t, compiles, nested, imports, fun effect => ?_, runs⟩
  obtain ⟨f, found, -⟩ := effect "telepathy" List.mem_cons_self
  have unknown : Feature.ofName? "telepathy" = none := by decide
  rw [unknown] at found
  cases found

/-- In a function an import takes effect if the program begins with the same one. -/
theorem division_in_a_function_takes_effect :
    ∃ p t, compile "from __future__ import division\ndef f():\n    from __future__ import division\n"
        .script = .ok p ∧
      Stands t p.body ∧ t.line = 3 ∧ futureNames? t = some ["division"] ∧
      TakesEffect p.future ["division"] := by
  obtain ⟨p, t, compiles, first, nested, line, imports⟩ := exists_nested
    "from __future__ import division\ndef f():\n    from __future__ import division\n" 3 ["division"]
    (fun p => p.future.has .division) (by decide +kernel)
  obtain ⟨-, has, -, deeper, -⟩ := leading_imports_take_effect compiles
  refine ⟨p, t, compiles, nested, line, imports, (deeper t _ nested imports).2 fun name inside => ?_⟩
  rw [List.mem_singleton.1 inside]
  exact (has .division).1 first

end Program

end Console
