import Console.Proofs.Evaluator.Features
import Console.Proofs.Session.Saving
import Console.Proofs.Session.Accounting

/-!
# The features of a session

A record of the programs that were run since the session was started or last replayed says which
features are in force: those that the session began with, and those that these programs import. Each of
them runs under the features of the programs before it and its own.
-/

namespace Console

theorem Features.union_self (s : Features) : s.union s = s := by
  rw [union, BitVec.or_self]

theorem Features.union_union (s t : Features) : s.union (s.union t) = s.union t := by
  rw [union, union, ← BitVec.or_assoc, BitVec.or_self]

open Completeness

namespace Session

/-- A program that was run, and what came of it. -/
structure Run where
  source : String
  mode : Token.Mode
  execution : Execution

/-- One program after the other was run, the first on this machine and under these features. Each of
them compiles, and what came of it is what comes of it under the features before it and its own: no
statement of it was executed under others, as a handler of such statements makes no difference. -/
inductive Ran : Machine → Features → List Run → Machine → Features → Prop
  | nil {m : Machine} {features : Features} : Ran m features [] m features
  | cons {m m₁ m' : Machine} {features features' : Features} {run : Run} {runs : List Run}
    {p : Program} (compiles : Program.compile run.source run.mode = .ok p)
    (under : ∀ handler, m.runUnder handler Machine.ampleSteps (run.mode = .single)
      (features.union p.future) p.body = (run.execution, m₁))
    (rest : Ran m₁ (features.union p.future) runs m' features') :
    Ran m features (run :: runs) m' features'

namespace Ran

variable {m m₁ m' : Machine} {features features₁ features' : Features} {runs runs' : List Run}

theorem eq_of_nil (ran : Ran m features [] m' features') : m' = m ∧ features' = features := by
  cases ran
  exact ⟨rfl, rfl⟩

theorem trans (before : Ran m features runs m₁ features₁)
    (behind : Ran m₁ features₁ runs' m' features') : Ran m features (runs ++ runs') m' features' := by
  induction before with
  | nil => exact behind
  | cons compiles under _ ih => exact .cons compiles under (ih behind)

/-- The features behind the programs are those before them and their own. -/
theorem has_iff (ran : Ran m features runs m' features') (x : Feature) :
    features'.has x = true ↔ features.has x = true ∨
      ∃ run ∈ runs, ∃ p, Program.compile run.source run.mode = .ok p ∧ p.future.has x = true := by
  induction ran with
  | nil => simp
  | @cons _ _ _ _ _ run _ p compiles _ _ ih =>
    have own : (∃ q, Program.compile run.source run.mode = .ok q ∧ q.future.has x = true) ↔
        p.future.has x = true := by
      simp [compiles]
    rw [ih, Features.has_union, Bool.or_eq_true, List.exists_mem_cons_iff, own, or_assoc]

end Ran

/-- A program that compiles is run under the features before it and its own. -/
theorem ran_of_compiles {m : Machine} {features : Features} {source : String} {mode : Token.Mode}
    {p : Program} (compiles : Program.compile source mode = .ok p) :
    Ran m features [⟨source, mode, (m.run source mode features).1⟩] (m.run source mode features).2
      (features.union (m.run source mode features).1.features) := by
  have same : m.run source mode features =
      m.runProgram Machine.ampleSteps (mode = .single) features p := by
    rw [Machine.run, compiles]
  have own : (m.run source mode features).1.features = features.union p.future := by
    rw [same]
    rfl
  rw [own, Features.union_union]
  refine .cons compiles (fun handler => ?_) .nil
  rw [← Machine.runProgram_eq_runUnder, ← same]

/-- What is run when a line is fed: the unit that it ends, if it ends one that is not rejected. -/
def fedRuns (s : Session) (recorded : Bool) (line : String) : List Run :=
  match (s.feed recorded line).1 with
  | .executed e => [⟨s.pushedText line, .single, e⟩]
  | _ => []

def fedAllRuns (s : Session) (recorded : Bool) : List String → List Run
  | [] => []
  | line :: rest => s.fedRuns recorded line ++ (s.feed recorded line).2.fedAllRuns recorded rest

/-- What is run by up to `n` empty lines, as long as a unit is open. -/
def closingRuns (s : Session) (recorded : Bool) : (n : Nat) → List Run
  | 0 => []
  | n + 1 =>
    if s.buffer.isEmpty then []
    else s.fedRuns recorded "" ++ (s.feed recorded "").2.closingRuns recorded n

/-- What is run when lines are fed and the unit that they leave is closed. -/
def linesRuns (s : Session) (recorded : Bool) (lines : List String) : List Run :=
  s.fedAllRuns recorded lines ++ (s.feedAll recorded lines).2.closingRuns recorded closingLines

variable {s : Session}

theorem ran_feed (s : Session) (recorded : Bool) (line : String) :
    Ran s.machine s.features (s.fedRuns recorded line) (s.feed recorded line).2.machine
      (s.feed recorded line).2.features := by
  unfold fedRuns
  rw [feed_eq]
  cases made : classify (s.pushedText line) with
  | needsMore => exact .nil
  | rejected => exact .nil
  | finished =>
    obtain ⟨program, compiles⟩ := probe_eq_complete.1 (classify_eq_finished made)
    exact ran_of_compiles compiles

theorem ran_feedAll (recorded : Bool) (lines : List String) :
    Ran s.machine s.features (s.fedAllRuns recorded lines) (s.feedAll recorded lines).2.machine
      (s.feedAll recorded lines).2.features := by
  induction lines generalizing s with
  | nil => exact .nil
  | cons line lines ih => exact (s.ran_feed recorded line).trans ih

theorem ran_close (recorded : Bool) (n : Nat) :
    Ran s.machine s.features (s.closingRuns recorded n) (s.close recorded n).2.machine
      (s.close recorded n).2.features := by
  induction n generalizing s with
  | zero => exact .nil
  | succ n ih =>
    rw [close_succ, closingRuns]
    split
    · exact .nil
    · exact (s.ran_feed recorded "").trans ih

theorem ran_lines (s : Session) (recorded : Bool) (lines : List String) :
    Ran s.machine s.features (s.linesRuns recorded lines)
      ((s.feedAll recorded lines).2.close recorded closingLines).2.machine
      ((s.feedAll recorded lines).2.close recorded closingLines).2.features :=
  (ran_feedAll recorded lines).trans (ran_close recorded closingLines)

/-- What can be done with a session. -/
inductive Operation
  | act (action : Action)
  | withHistory (history : History)
  | runScript (source : String)
  | editBlock (editor : Editor)
  | editSession (editor : Editor)

/-- An editor that gives no text leaves the session as it was. -/
def operate (s : Session) : Operation → Session
  | .act action => (s.act action).2
  | .withHistory history => { s with history }
  | .runScript source => (s.runScript source).2
  | .editBlock editor =>
    match s.editBlock editor with
    | .ok (_, edited) => edited
    | .error _ => s
  | .editSession editor =>
    match s.editSession editor with
    | .ok (_, edited) => edited
    | .error _ => s

/-- The record of what was run, with an operation taken down. A replay starts it over. -/
def record (s : Session) (runs : List Run) : Operation → List Run
  | .act (.push line) => runs ++ s.fedRuns true line
  | .runScript source =>
    match Program.compile source .script with
    | .ok _ => runs ++ [⟨source, .script, (s.runScript source).1⟩]
    | .error _ => runs
  | .editBlock editor =>
    match editor s.buffer.block with
    | .ok text => runs ++ s.interrupt.linesRuns true (blockLines text)
    | .error _ => runs
  | .editSession editor =>
    match editor s.toFile with
    | .ok text =>
      if (SessionFile.ofText text).code.all isBlankLine then runs
      else s.restarted.linesRuns false (SessionFile.ofText text).code
    | .error _ => runs
  | _ => runs

/-- The session behind some operations, and the record of what was run since its last replay. -/
def operateAll (s : Session) (runs : List Run) : List Operation → List Run × Session
  | [] => (runs, s)
  | operation :: rest => (s.operate operation).operateAll (s.record runs operation) rest

/-- What can be done without running anything. -/
inductive Idle (s : Session) : Operation → Prop
  /-- A line that is waited behind, or that ends a unit which is rejected. -/
  | pushed {line : String} (nothing : ∀ e, (s.push line).1 ≠ .executed e) : Idle s (.act (.push line))
  | interrupt : Idle s (.act .interrupt)
  | setCurrent (text : String) : Idle s (.act (.setCurrent text))
  | recallLastWord : Idle s (.act .recallLastWord)
  | withHistory (history : History) : Idle s (.withHistory history)
  | script {source : String} {e : SyntaxError} (failed : Program.compile source .script = .error e) :
    Idle s (.runScript source)
  | failedBlock {editor : Editor} {fault : EditorFault} (failed : editor s.buffer.block = .error fault) :
    Idle s (.editBlock editor)
  | blankBlock {editor : Editor} {text : String} (edited : editor s.buffer.block = .ok text)
    (blank : (editedLines text).all isBlankLine = true) : Idle s (.editBlock editor)
  | failedSession {editor : Editor} {fault : EditorFault} (failed : editor s.toFile = .error fault) :
    Idle s (.editSession editor)
  | blankSession {editor : Editor} {text : String} (edited : editor s.toFile = .ok text)
    (blank : (SessionFile.ofText text).code.all isBlankLine = true) : Idle s (.editSession editor)

theorem machine_setCurrent (s : Session) (text : String) : (s.setCurrent text).machine = s.machine := rfl

theorem features_setCurrent (s : Session) (text : String) :
    (s.setCurrent text).features = s.features := rfl

section

variable {editor : Editor} {text : String}

theorem operate_editBlock (edited : editor s.buffer.block = .ok text) :
    s.operate (.editBlock editor) = (s.replaceBlock text).2 := by
  have answer : s.editBlock editor = .ok (s.replaceBlock text) := by
    rw [editBlock, edited]
    rfl
  simp only [operate, answer]

theorem operate_editSession (edited : editor s.toFile = .ok text) :
    s.operate (.editSession editor) = (s.replay (.ofText text)).2 := by
  have answer : s.editSession editor = .ok (s.replay (.ofText text)) := by
    rw [editSession, edited]
    rfl
  simp only [operate, answer]

theorem operate_editBlock_of_error {fault : EditorFault} (failed : editor s.buffer.block = .error fault) :
    s.operate (.editBlock editor) = s := by
  simp only [operate, editBlock, failed]
  rfl

theorem operate_editSession_of_error {fault : EditorFault} (failed : editor s.toFile = .error fault) :
    s.operate (.editSession editor) = s := by
  simp only [operate, editSession, failed]
  rfl

end

theorem runScript_of_error {source : String} {e : SyntaxError}
    (failed : Program.compile source .script = .error e) : (s.runScript source).2 = s := by
  have same : s.machine.runScript source s.features =
      (⟨"", e.render source, s.features⟩, s.machine) := by
    rw [Machine.runScript, Machine.run, failed]
  simp only [runScript, same, Features.union_self]

/-- Nothing is fed of a text whose lines are all blank. -/
theorem blockLines_of_blank {text : String} (blank : (editedLines text).all isBlankLine = true) :
    blockLines text = [] := by
  have all : ∀ line ∈ (editedLines text).reverse, isBlankLine line = true := fun line inside =>
    List.all_eq_true.1 blank line (List.mem_reverse.1 inside)
  rw [blockLines, List.dropWhile_eq_nil_iff.2 all, List.reverse_nil]

/-- An operation keeps what is upheld, if the history that it brings in, if any, does. -/
theorem Upheld.operate {P : Session → Prop} (upheld : Upheld P) (operation : Operation)
    (replaced : ∀ history, operation = .withHistory history → P { s with history })
    (holds : P s) : P (s.operate operation) := by
  cases operation with
  | act action =>
    cases action with
    | push line => exact upheld.feed true line holds
    | interrupt => exact upheld.interrupt holds
    | setCurrent text => exact upheld.setCurrent text holds
    | recallLastWord => exact upheld.recallLastWord holds
  | withHistory history => exact replaced history rfl
  | runScript source => exact upheld.runScript source holds
  | editBlock editor =>
    cases edited : s.editBlock editor with
    | ok answer =>
      have same : s.operate (.editBlock editor) = answer.2 := by simp only [Session.operate, edited]
      rw [same]
      exact upheld.editBlock edited holds
    | error fault =>
      have same : s.operate (.editBlock editor) = s := by simp only [Session.operate, edited]
      rwa [same]
  | editSession editor =>
    cases edited : s.editSession editor with
    | ok answer =>
      have same : s.operate (.editSession editor) = answer.2 := by simp only [Session.operate, edited]
      rw [same]
      exact upheld.editSession edited holds
    | error fault =>
      have same : s.operate (.editSession editor) = s := by simp only [Session.operate, edited]
      rwa [same]

theorem Lasting.operate {P : Session → Prop} (lasting : Lasting P) (operation : Operation)
    (holds : P s) : P (s.operate operation) :=
  lasting.toUpheld.operate operation (fun history _ => lasting.withHistory history holds) holds

/-- What a replay starts with stays the same. -/
theorem lasting_initialFeatures (features : Features) : Lasting fun s => s.initialFeatures = features where
  feed recorded line same := (initialFeatures_feed _ recorded line).trans same
  interrupt same := same
  setCurrent _ same := same
  recallLastWord same := by
    obtain ⟨cursor, current, eq⟩ := recallLastWord_eq _
    rw [eq]
    exact same
  withHistory _ same := same
  runScript _ same := same
  restarted same := same

/-- What is done without running anything leaves machine, features and record as they are. -/
theorem Idle.same {operation : Operation} (idle : Idle s operation) (runs : List Run) :
    (s.operate operation).machine = s.machine ∧ (s.operate operation).features = s.features ∧
      s.record runs operation = runs := by
  cases idle with
  | @pushed line nothing =>
    have fed : s.fedRuns true line = [] := by
      unfold fedRuns
      cases answer : (s.feed true line).1 with
      | executed e => exact absurd answer (nothing e)
      | needsMore indent => rfl
      | rejected error rendered => rfl
    have ran := s.ran_feed true line
    rw [fed] at ran
    obtain ⟨machine, features⟩ := ran.eq_of_nil
    refine ⟨machine, features, ?_⟩
    change runs ++ s.fedRuns true line = runs
    rw [fed, List.append_nil]
  | interrupt => exact ⟨rfl, rfl, rfl⟩
  | setCurrent text => exact ⟨rfl, rfl, rfl⟩
  | recallLastWord =>
    obtain ⟨cursor, current, same⟩ := recallLastWord_eq s
    change s.recallLastWord.machine = _ ∧ s.recallLastWord.features = _ ∧ runs = runs
    rw [same]
    exact ⟨rfl, rfl, rfl⟩
  | withHistory history => exact ⟨rfl, rfl, rfl⟩
  | script failed =>
    change (s.runScript _).2.machine = _ ∧ (s.runScript _).2.features = _ ∧ _
    rw [runScript_of_error failed]
    exact ⟨rfl, rfl, by simp only [record, failed]⟩
  | failedBlock failed =>
    rw [operate_editBlock_of_error failed]
    exact ⟨rfl, rfl, by simp only [record, failed]⟩
  | blankBlock edited blank =>
    rw [operate_editBlock edited, replaceBlock_snd, blockLines_of_blank blank]
    refine ⟨rfl, rfl, ?_⟩
    simp only [record, edited, blockLines_of_blank blank]
    exact List.append_nil runs
  | failedSession failed =>
    rw [operate_editSession_of_error failed]
    exact ⟨rfl, rfl, by simp only [record, failed]⟩
  | blankSession edited blank =>
    rw [operate_editSession edited, replay_without_code blank]
    exact ⟨rfl, rfl, by simp only [record, edited, blank, if_true]⟩

/-- The record says what was run on a session that was started with these features. -/
structure Recorded (features : Features) (runs : List Run) (s : Session) : Prop where
  ran : Ran .fresh features runs s.machine s.features
  initial : s.initialFeatures = features

namespace Recorded

variable {features : Features} {runs : List Run}

theorem start (history : History) (tabLength : Nat) (features : Features) :
    Recorded features [] (start history tabLength features) :=
  ⟨.nil, rfl⟩

theorem ran_record (recorded : Recorded features runs s) (operation : Operation) :
    Ran .fresh features (s.record runs operation) (s.operate operation).machine
      (s.operate operation).features := by
  have idle (idle : Idle s operation) : Ran .fresh features (s.record runs operation)
      (s.operate operation).machine (s.operate operation).features := by
    obtain ⟨machine, features, runs⟩ := idle.same runs
    rw [machine, features, runs]
    exact recorded.ran
  cases operation with
  | act action =>
    cases action with
    | push line => exact recorded.ran.trans (s.ran_feed true line)
    | interrupt => exact idle .interrupt
    | setCurrent text => exact idle (.setCurrent text)
    | recallLastWord => exact idle .recallLastWord
  | withHistory history => exact idle (.withHistory history)
  | runScript source =>
    cases compiled : Program.compile source .script with
    | error e => exact idle (.script compiled)
    | ok p =>
      simp only [record, compiled]
      exact recorded.ran.trans (ran_of_compiles compiled)
  | editBlock editor =>
    cases edited : editor s.buffer.block with
    | error fault => exact idle (.failedBlock edited)
    | ok text =>
      rw [operate_editBlock edited, replaceBlock_snd]
      simp only [record, edited]
      exact recorded.ran.trans (s.interrupt.ran_lines true (blockLines text))
  | editSession editor =>
    cases edited : editor s.toFile with
    | error fault => exact idle (.failedSession edited)
    | ok text =>
      cases code : (SessionFile.ofText text).code.all isBlankLine with
      | true => exact idle (.blankSession edited code)
      | false =>
        rw [operate_editSession edited, replay_of_code code, machine_setCurrent, features_setCurrent]
        simp only [record, edited, code, Bool.false_eq_true, if_false]
        have again := s.restarted.ran_lines false (SessionFile.ofText text).code
        change Ran .fresh s.initialFeatures _ _ _ at again
        rw [recorded.initial] at again
        exact again

theorem operate (recorded : Recorded features runs s) (operation : Operation) :
    Recorded features (s.record runs operation) (s.operate operation) :=
  ⟨recorded.ran_record operation,
    (lasting_initialFeatures features).operate operation recorded.initial⟩

theorem operateAll (recorded : Recorded features runs s) (operations : List Operation) :
    Recorded features (s.operateAll runs operations).1 (s.operateAll runs operations).2 := by
  induction operations generalizing s runs with
  | nil => exact recorded
  | cons operation rest ih => exact ih (recorded.operate operation)

end Recorded

/-- The features in force are those that the session began with and those of the programs that compiled
and were run since it was last replayed, or since the start, whatever came of them. Each of these ran
under the features before it and its own. A line that ends no unit or one that is rejected, a script
that does not compile, an interrupt and an edit that gives no code change nothing. -/
theorem features_are_those_declared (history : History) (tabLength : Nat) (features : Features)
    (operations : List Operation) {runs : List Run} {s : Session}
    (operated : (start history tabLength features).operateAll [] operations = (runs, s)) :
    Ran .fresh features runs s.machine s.features ∧
    (∀ x, s.features.has x = true ↔ features.has x = true ∨
      ∃ run ∈ runs, ∃ p, Program.compile run.source run.mode = .ok p ∧ p.future.has x = true) ∧
    ∀ operation, Idle s operation → (s.operate operation).machine = s.machine ∧
      (s.operate operation).features = s.features ∧ s.record runs operation = runs := by
  have recorded := (Recorded.start history tabLength features).operateAll operations
  rw [operated] at recorded
  exact ⟨recorded.ran, recorded.ran.has_iff, fun operation idle => idle.same runs⟩

/-- The script before the replay is forgotten, and the unit that raises an exception is not. -/
theorem features_outlast_an_exception :
    ∃ operations runs s,
      operations = [.runScript "from __future__ import absolute_import\n",
        .editSession fun _ => .ok "from __future__ import generators",
        .act (.push "from __future__ import division; raise")] ∧
      (start (.empty 10) 4 (.only .withStatement)).operateAll [] operations = (runs, s) ∧
      runs.map (fun run => (run.source, run.execution.succeeded)) =
        [("from __future__ import generators", true),
          ("from __future__ import division; raise", false)] ∧
      s.features.toList = [.division, .withStatement, .generators] ∧
      Ran .fresh (.only .withStatement) runs s.machine s.features ∧
      (∀ x, s.features.has x = true ↔ (Features.only .withStatement).has x = true ∨
        ∃ run ∈ runs, ∃ p, Program.compile run.source run.mode = .ok p ∧ p.future.has x = true) ∧
      Idle s (.runScript "x =") ∧ (s.operate (.runScript "x =")).machine = s.machine ∧
        (s.operate (.runScript "x =")).features = s.features ∧
        s.record runs (.runScript "x =") = runs := by
  generalize given : [Operation.runScript "from __future__ import absolute_import\n",
    .editSession fun _ => .ok "from __future__ import generators",
    .act (.push "from __future__ import division; raise")] = operations
  obtain ⟨runs, s, operated⟩ : ∃ runs s, (start (.empty 10) 4 (.only .withStatement)).operateAll []
    operations = (runs, s) := ⟨_, _, rfl⟩
  have known : (fun operated : List Run × Session =>
      (operated.1.map fun run => (run.source, run.execution.succeeded), operated.2.features.toList))
        ((start (.empty 10) 4 (.only .withStatement)).operateAll [] operations) =
      ([("from __future__ import generators", true),
        ("from __future__ import division; raise", false)],
        [.division, .withStatement, .generators]) := by
    rw [← given]
    decide +kernel
  rw [operated] at known
  obtain ⟨e, failed⟩ : ∃ e, Program.compile "x =" .script = .error e := by
    have error : (Program.compile "x =" .script).toOption.isNone = true := by decide +kernel
    cases compiled : Program.compile "x =" .script with
    | error e => exact ⟨e, rfl⟩
    | ok p =>
      rw [compiled] at error
      cases error
  obtain ⟨isRan, isFeatures, idle⟩ :=
    features_are_those_declared (.empty 10) 4 (.only .withStatement) operations operated
  exact ⟨operations, runs, s, rfl, operated, congrArg Prod.fst known, congrArg Prod.snd known, isRan,
    isFeatures, .script failed, idle _ (.script failed)⟩

end Session

end Console
