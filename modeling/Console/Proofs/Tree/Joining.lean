import Console.Proofs.Modes
import Console.Proofs.Tree.Relocation

/-!
# Programs behind each other

`Holds` says that a stream writes a program, at every depth of reading that suffices. Statements that
are read up to their end are read on other lines too, and with another program behind them, and then
all their statements come first.
-/

namespace Console

open Token Parse Statement

namespace Parse

variable {ts ts' X X' R tokens : List Token} {e : Token} {t : Bool} {body others : List Statement}
  {place place' : Nat → Nat}

theorem skipNewlines_eq {f : Nat} (enough : ts.length ≤ f) :
    skipNewlines f ts = .ok ((), ts.dropWhile isNewline) := by
  induction f generalizing ts with
  | zero =>
    obtain rfl := List.eq_nil_of_length_eq_zero (Nat.le_zero.1 enough)
    rfl
  | succ f ih =>
    rw [skipNewlines, run_atNewline]
    cases ts with
    | nil => rfl
    | cons x ts =>
      rw [List.dropWhile_cons]
      cases line : isNewline x with
      | false =>
        rw [front, List.head?_cons, Option.getD_some, line]
        rfl
      | true =>
        rw [front, List.head?_cons, Option.getD_some, line]
        exact ih (by simpa using enough)

theorem length_le_enoughFuel (ts : List Token) : ts.length ≤ enoughFuel ts := by
  unfold enoughFuel
  omega

theorem program_script_eq (tokens : List Token) (t : Bool) :
    program tokens .script t = (statements ⟨true, false, false⟩ (enoughFuel tokens)
      (tokens.dropWhile isNewline)).map Prod.fst :=
  program_script (skipNewlines_eq (length_le_enoughFuel tokens))

theorem forall₂_dropWhile_isNewline (same : List.Forall₂ (SameWord place place') X X') :
    List.Forall₂ (SameWord place place') (X.dropWhile isNewline) (X'.dropWhile isNewline) := by
  induction same with
  | nil => exact .nil
  | @cons x x' X X' first same ih =>
    have line : isNewline x' = isNewline x := by
      unfold isNewline
      rw [first.1]
    rw [List.dropWhile_cons, List.dropWhile_cons, line]
    split
    · exact ih
    · exact .cons first same

theorem dropWhile_concat_end (ending : isEnd e = true) (X : List Token) :
    (X ++ [e]).dropWhile isNewline = X.dropWhile isNewline ++ [e] := by
  have word : isNewline e = false := by simp [isNewline, kind_of_isEnd ending]
  induction X with
  | nil => simp [word]
  | cons x X ih =>
    rw [List.cons_append, List.dropWhile_cons, List.dropWhile_cons, ih]
    split <;> rfl

theorem Ended.dropWhile (ended : Ended X) : Ended (X.dropWhile isNewline) := by
  induction X with
  | nil => exact ended
  | cons x X ih =>
    rw [List.dropWhile_cons]
    split
    · exact ih ended.tail
    · exact ended

/-- Statements that a stream writes up to its end. -/
def Holds (ts : List Token) (body : List Statement) : Prop :=
  ∀ g, 16 * ts.length + 15 < g → ∃ left, statements ⟨true, false, false⟩ g ts = .ok (body, left)

namespace Holds

theorem program_iff : program tokens .script t = .ok body ↔
    Holds (tokens.dropWhile isNewline) body := by
  have le : (tokens.dropWhile isNewline).length ≤ tokens.length :=
    (List.dropWhile_sublist _).length_le
  have enough : 16 * (tokens.dropWhile isNewline).length + 15 < enoughFuel tokens := by
    unfold enoughFuel
    omega
  rw [program_script_eq]
  constructor
  · intro read g enough'
    obtain ⟨left, read⟩ := map_fst_ok read
    exact ⟨left, ((same_statements (.inr ⟨enough, enough'⟩) false false).ok read).1⟩
  · intro holds
    obtain ⟨left, read⟩ := holds _ enough
    rw [read]
    rfl

theorem nil (ending : isEnd e = true) : Holds [e] [] := by
  intro g enough
  cases g with
  | zero => omega
  | succ g => exact ⟨[e], statements_end ending⟩

theorem eq_nil_of_end (ending : isEnd e = true) (holds : Holds [e] body) : body = [] := by
  obtain ⟨left, read⟩ := holds (16 * [e].length + 15 + 1) (Nat.lt_succ_self _)
  rw [statements_end (show isEnd (front [e]) = true from ending)] at read
  cases read
  rfl

/-- What is read ends, or begins with a statement. -/
theorem begins (holds : Holds ts body) :
    isEnd (front ts) = true ∨ isBeginning (front ts) = true := by
  cases ending : isEnd (front ts) with
  | true => exact .inl rfl
  | false =>
    obtain ⟨left, read⟩ := holds (16 * ts.length + 15 + 1) (Nat.lt_succ_self _)
    rw [statements_cons ending] at read
    obtain ⟨_, _, first, -⟩ := bind_ok read
    exact .inr (isBeginning_of_statement first)

/-- Nothing read is a branch of what stands before it. -/
theorem sealed (holds : Holds ts body) : Sealed ts := by
  rcases holds.begins with ending | begins
  · exact ⟨not_isWord_of_isEnd ending _, not_isWord_of_isEnd ending _⟩
  · simp only [isBeginning, isBranch, Bool.and_eq_true, Bool.not_eq_true', Bool.or_eq_false_iff]
      at begins
    exact begins.2

/-- No line ends before it. -/
theorem dropWhile_isNewline (holds : Holds ts body) : ts.dropWhile isNewline = ts := by
  cases ts with
  | nil => rfl
  | cons x ts =>
    have word : isNewline x = false := by
      rcases holds.begins with ending | begins
      · simp [isNewline, kind_of_isEnd (t := x) ending]
      · simp only [isBeginning, isLayout, front, List.head?_cons, Option.getD_some] at begins
        unfold isNewline
        split at begins <;> simp_all
    rw [List.dropWhile_cons, word]
    rfl

/-- Statements on other lines, with more statements behind them. -/
theorem beside (ending : isEnd e = true) (holds : Holds (X ++ [e]) body)
    (same : List.Forall₂ (SameWord place place') X X') (ended : Ended X) (behind : Holds R others) :
    ∃ body', Holds (X' ++ R) (body' ++ others) ∧ SameBody place place' body body' := by
  -- What is read at one depth is read at every other depth that suffices.
  suffices all : ∀ f ts ts' body left, Beside place place' e R ts ts' → 16 * ts.length + 15 < f →
      statements ⟨true, false, false⟩ f ts = .ok (body, left) →
      ∃ body', Holds ts' (body' ++ others) ∧ SameBody place place' body body' by
    obtain ⟨left, read⟩ := holds _ (Nat.lt_succ_self _)
    exact all _ _ _ _ _ ⟨X, X', rfl, rfl, same, ended⟩ (Nat.lt_succ_self _) read
  intro f
  induction f with
  | zero =>
    intro ts ts' body left beside enough
    omega
  | succ f ih =>
    intro ts ts' body left beside enough read
    cases done : isEnd (front ts) with
    | true =>
      obtain ⟨rfl, rfl⟩ := beside.of_end done
      rw [statements_end done] at read
      cases read
      exact ⟨[], behind, rfl⟩
    | false =>
      rw [statements_cons done] at read
      obtain ⟨first, rest, taken, read⟩ := bind_ok read
      obtain ⟨more, _, onward, read⟩ := bind_ok read
      cases read
      obtain ⟨g, deep⟩ : ∃ g, g = 16 * ts.length + 16 * ts'.length + 15 := ⟨_, rfl⟩
      obtain ⟨first', rest', taken', known, behind', short⟩ :=
        (blocksFollow place place' ending behind.sealed true true f g).statement beside
          (.inr ⟨by omega, by omega⟩) false false first rest taken
      obtain ⟨more', holds', known'⟩ := ih rest rest' more left behind' (by omega) onward
      refine ⟨first' ++ more', fun h enough' => ?_, known.append known'⟩
      cases h with
      | zero => omega
      | succ h =>
        obtain ⟨same, lines⟩ :=
          ((reach true true g h).statement (.inr ⟨by omega, by omega⟩) false false).ok taken'
        have short' := lines.length_lt
        obtain ⟨left', onward'⟩ := holds' h (by omega)
        have more : isEnd (front ts') = false := by
          rw [isEnd, (beside.front_of_more done ending).1.1]
          exact done
        rw [statements_cons more, run_bind same, run_bind onward', List.append_assoc]
        exact ⟨left', rfl⟩

/-- A whole stream on other lines. -/
theorem relocated {e' : Token} (ending : isEnd e = true) (ending' : isEnd e' = true)
    (same : List.Forall₂ (SameWord place place') X X') (ended : Ended X)
    (read : program (X ++ [e]) .script t = .ok body) (t' : Bool) :
    ∃ body', program (X' ++ [e']) .script t' = .ok body' ∧ SameBody place place' body body' := by
  have holds := program_iff.1 read
  rw [dropWhile_concat_end ending] at holds
  obtain ⟨body', holds', known⟩ := holds.beside ending (forall₂_dropWhile_isNewline same)
    ended.dropWhile (.nil ending')
  rw [List.append_nil, ← dropWhile_concat_end ending'] at holds'
  exact ⟨body', program_iff.2 holds', known⟩

end Holds

/-- One statement alone, on other lines. -/
theorem program_single_relocated {e' : Token} (ending : isEnd e = true) (ending' : isEnd e' = true)
    (same : List.Forall₂ (SameWord place place') X X') (ended : Ended X)
    (read : program (X ++ [e]) .single t = .ok body) (t' : Bool) :
    ∃ body', program (X' ++ [e']) .single t' = .ok body' ∧ SameBody place place' body body' := by
  have short : ((X ++ [e]).dropWhile isNewline).length ≤ (X ++ [e]).length :=
    (List.dropWhile_sublist _).length_le
  have beside : Beside place place' e [e'] ((X ++ [e]).dropWhile isNewline)
      ((X' ++ [e']).dropWhile isNewline) := by
    rw [dropWhile_concat_end ending, dropWhile_concat_end ending']
    exact ⟨_, _, rfl, rfl, forall₂_dropWhile_isNewline same, ended.dropWhile⟩
  have within : Within (enoughFuel (X ++ [e])) (enoughFuel (X' ++ [e']))
      (16 * ((X ++ [e]).dropWhile isNewline).length + 14) := by
    have length := same.length_eq
    simp only [List.length_append, List.length_singleton] at short
    unfold Within enoughFuel
    simp only [List.length_append, List.length_singleton]
    omega
  rw [program_single (skipNewlines_eq (length_le_enoughFuel _))] at read ⊢
  generalize (X ++ [e]).dropWhile isNewline = ts at beside within read
  generalize (X' ++ [e']).dropWhile isNewline = ts' at beside
  obtain ⟨left, alone⟩ := map_fst_ok read
  obtain ⟨done, ⟨rfl, rfl⟩ | ⟨more, taken⟩⟩ := oneStatement_cases alone
  · obtain ⟨-, rfl⟩ := beside.of_end done
    rw [oneStatement_end (show isEnd (front [e']) = true from ending')]
    exact ⟨[], rfl, rfl⟩
  · obtain ⟨body', left', taken', known, behind, -⟩ :=
      (blocksFollow place place' ending (Holds.nil ending').sealed t t' _ _).statement beside within
        false false body left taken
    obtain ⟨-, rfl⟩ := behind.of_end done
    have more' : isEnd (front ts') = false := by
      rw [isEnd, (beside.front_of_more more ending).1.1]
      exact more
    rw [oneStatement_ok more' taken', if_pos (show isEnd (front [e']) = true from ending')]
    exact ⟨body', rfl, known⟩

/-- What a stream writes, it writes on other lines too. -/
theorem program_relocated {mode : Mode} {e' : Token} (ending : isEnd e = true)
    (ending' : isEnd e' = true) (same : List.Forall₂ (SameWord place place') X X') (ended : Ended X)
    (read : program (X ++ [e]) mode t = .ok body) (t' : Bool) :
    ∃ body', program (X' ++ [e']) mode t' = .ok body' ∧ SameBody place place' body body' := by
  cases mode with
  | single => exact program_single_relocated ending ending' same ended read t'
  | script => exact Holds.relocated ending ending' same ended read t'

end Parse

namespace Program

variable {place place' : Nat → Nat} {body body' : List Statement} {features : Features}

theorem toOption_addFeatures (line line' : Nat) (features : Features) (names : List String) :
    (addFeatures line features names).toOption = (addFeatures line' features names).toOption := by
  induction names generalizing features with
  | nil => rfl
  | cons name names ih =>
    rw [addFeatures, addFeatures]
    split
    · rfl
    · split
      · exact ih _
      · rfl

theorem futureNames?_relocate (place : Nat → Nat) (s : Statement) :
    futureNames? (s.relocate place) = futureNames? s := by
  cases s with
  | simple line action =>
    rw [relocate]
    unfold futureNames?
    split <;> simp_all
  | ifElse | whileLoop | forLoop | function | classBody =>
    rw [relocate]
    rfl

theorem find?_relocateAll (place : Nat → Nat) (body : List Statement) :
    ((relocateAll place body).find? fun s => (futureNames? s).isSome) =
      (body.find? fun s => (futureNames? s).isSome).map (relocate place) := by
  induction body with
  | nil => rfl
  | cons s body ih =>
    rw [relocateAll, List.find?_cons, List.find?_cons, futureNames?_relocate, ih]
    split <;> rfl

/-- The features of statements do not depend on their lines. -/
theorem toOption_futureFrom_relocateAll (place : Nat → Nat) (features : Features)
    (body : List Statement) :
    (futureFrom features (relocateAll place body)).toOption =
      (futureFrom features body).toOption := by
  induction body generalizing features with
  | nil => rfl
  | cons s body ih =>
    rw [relocateAll, futureFrom, futureFrom, futureNames?_relocate]
    cases futureNames? s with
    | none =>
      dsimp only
      rw [find?_relocateAll]
      cases body.find? fun s => (futureNames? s).isSome <;> rfl
    | some names =>
      have same := toOption_addFeatures (s.relocate place).line s.line features names
      dsimp only
      cases added : addFeatures s.line features names with
      | error error =>
        rw [added] at same
        cases added' : addFeatures (s.relocate place).line features names with
        | error error' => rfl
        | ok features' =>
          rw [added'] at same
          cases same
      | ok features' =>
        rw [added] at same
        cases added' : addFeatures (s.relocate place).line features names with
        | error error' =>
          rw [added'] at same
          cases same
        | ok features'' =>
          rw [added'] at same
          cases same
          exact ih features'

theorem futureFrom_sameBody (same : SameBody place place' body body') {future : Features}
    (read : futureFrom features body = .ok future) : futureFrom features body' = .ok future := by
  have known := toOption_futureFrom_relocateAll place' features body'
  rw [show relocateAll place' body' = relocateAll place body from same,
    toOption_futureFrom_relocateAll, read] at known
  cases read' : futureFrom features body' with
  | error error =>
    rw [read'] at known
    cases known
  | ok future' =>
    rw [read'] at known
    cases known
    rfl

/-- A program on other lines has the same features. -/
theorem ofTokens_relocated {X X' : List Token} {e e' : Token} {mode : Mode} {t : Bool}
    {program : Program}
    (ending : isEnd e = true) (ending' : isEnd e' = true)
    (same : List.Forall₂ (SameWord place place') X X') (ended : Ended X)
    (read : ofTokens (X ++ [e]) mode t = .ok program) (t' : Bool) :
    ∃ program', ofTokens (X' ++ [e']) mode t' = .ok program' ∧
      program'.future = program.future ∧ SameBody place place' program.body program'.body := by
  obtain ⟨parsed, imported⟩ := ofTokens_eq_ok_iff.1 read
  obtain ⟨body', parsed', known⟩ := program_relocated ending ending' same ended parsed t'
  exact ⟨⟨body', program.future⟩,
    ofTokens_eq_ok_iff.2 ⟨parsed', futureFrom_sameBody known imported⟩, rfl, known⟩

end Program

end Console
