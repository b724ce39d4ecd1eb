import Console.Interpreter
import Console.Proofs.History
import Console.Proofs.Token.Trailing
import Console.Proofs.Whole

/-!
# Entries are units

What the history holds of a unit, with one line end behind it, is the same unit: without the blanks
behind it the unit has the same lines, and the line end closes what it opened.
-/

namespace Console

open Text Token Parse Statement

namespace History

theorem toList_entryOf_append (source : String) :
    (entryOf source ++ "\n").toList = trimEnd source.toList ++ ['\n'] := by
  rw [String.toList_append, entryOf, String.toList_ofList]
  rfl

/-- An entry is read as the unit that it was made of. -/
theorem run_entryOf {source : String} {last : LexState} (lexed : run (.ofString source) = .ok last) :
    EndsAlike last (run (.ofString (entryOf source ++ "\n"))) := by
  obtain ⟨W, whole, blank⟩ := exists_trimEnd_append source.toList
  have start : (Alignment.below 0).aligned .start .start := rfl
  have lockstep : Lockstep (.below 0) [] W ['\n'] (trimEnd source.toList) (.ofString source)
      (.ofString (entryOf source ++ "\n")) :=
    ⟨akin_ofString _ _ _ _, (rest_ofString _).trans whole,
      (rest_ofString _).trans (toList_entryOf_append source), start⟩
  exact run_trimmed lockstep blank (fun c last => isBlank_of_mem_getLast? last) lexed

theorem compile_entryOf {source : String} {unit : Program}
    (compiled : Program.compile source .single = .ok unit) :
    Program.compile (entryOf source ++ "\n") .single = .ok unit := by
  obtain ⟨tokens, single, script⟩ := Program.tokenize_of_single compiled
  rw [Program.compile_of_tokenize single] at compiled
  unfold tokenize at script
  cases lexed : run (.ofString source) with
  | error error =>
    rw [lexed] at script
    cases script
  | ok last =>
    rw [lexed] at script
    cases script
    obtain ⟨last', lexed', indents, words⟩ := run_entryOf lexed
    have tokens' : tokenize (entryOf source ++ "\n") .single = .ok (finish last' true) := by
      rw [tokenize_of_run lexed', endsWithBlankLine_append]
    obtain ⟨unit', compiled', future, same⟩ := Program.ofTokens_finish lexed words
      (by rw [indents]) compiled (endsWithBlankLine (entryOf source ++ "\n"))
    rw [SameBody, relocateAll_id, relocateAll_id] at same
    rw [Program.compile_of_tokenize tokens', compiled']
    obtain ⟨body, features⟩ := unit
    obtain ⟨body', features'⟩ := unit'
    cases same
    cases future
    rfl

theorem fromEnd_append {h : History} {unit : String} (visible : isVisible unit = true)
    (room : 0 < h.capacity) : (h.append unit).fromEnd? 0 = some (entryOf unit) := by
  have something : (trimEnd unit.toList).isEmpty = false := by simpa [isVisible] using visible
  simp [append, fromEnd?, something, Nat.ne_of_gt room, entryOf]

/-- Every entry can be run again. What the history holds of a unit is its text without the blanks behind
it. With one line end behind it, this is the same unit, its statements on the same lines and with the
same features, and it does to any machine what the unit does. -/
theorem entries_run_again (source : String) (unit : Program)
    (compiled : Program.compile source .single = .ok unit) :
    (∀ h : History, isVisible source = true → 0 < h.capacity →
      (h.append source).fromEnd? 0 = some (entryOf source)) ∧
    Program.compile (entryOf source ++ "\n") .single = .ok unit ∧
    ∀ (m : Machine) (features : Features),
      m.execute (entryOf source ++ "\n") features = m.execute source features := by
  refine ⟨fun h => fromEnd_append, compile_entryOf compiled, fun m features => ?_⟩
  unfold Machine.execute Machine.run
  rw [compile_entryOf compiled, compiled]

/-- A block without the blank line that closed it, nor the space behind its comment. -/
theorem closed_block_runs_again :
    ∃ source unit, entryOf source = "if x:\n  y  # last" ∧
      Program.compile source .single = .ok unit ∧
      Program.compile ("if x:\n  y  # last" ++ "\n") .single = .ok unit := by
  have compiles : (Program.compile "if x:\n  y  # last \n\n" .single).toBool = true := by
    decide +kernel
  have entry : entryOf "if x:\n  y  # last \n\n" = "if x:\n  y  # last" := by decide +kernel
  cases compiled : Program.compile "if x:\n  y  # last \n\n" .single with
  | error error =>
    rw [compiled] at compiles
    cases compiles
  | ok unit =>
    have again := (entries_run_again _ unit compiled).2.1
    rw [entry] at again
    exact ⟨_, unit, entry, compiled, again⟩

end History

end Console
