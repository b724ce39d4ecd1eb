import Console.Proofs.History
import Console.Proofs.Session.Use

/-!
# Every pushed line is accounted for

A ledger is what a bystander writes down who sees the lines that are pushed and the answers that they
get: the lines since one answer that ends a unit, up to the next, are one unit. What a session runs,
rejects and keeps waiting, and what it puts into its history, is what its ledger says.
-/

namespace Console

open Completeness

namespace Session

/-- A unit that an answer ended. -/
structure EndedUnit where
  lines : List String
  outcome : Outcome

namespace EndedUnit

def text (u : EndedUnit) : String := "\n".intercalate u.lines

/-- The text of a unit that was run, and what came of it. -/
def execution? (u : EndedUnit) : Option (String × Execution) :=
  match u.outcome with
  | .executed e => some (u.text, e)
  | _ => none

/-- A unit that was run compiles. One that was rejected does not, for a reason that more text would not
cure, and that reason is the answer. -/
def Sound (u : EndedUnit) : Prop :=
  match u.outcome with
  | .executed _ => ∃ program, Program.compile u.text .single = .ok program
  | .rejected error rendered =>
    Program.compile u.text .single = .error error ∧ error.isIncomplete = false ∧
      rendered = error.render u.text
  | .needsMore _ => False

end EndedUnit

structure Ledger where
  ended : List EndedUnit
  /-- The lines since the last answer that ended a unit. -/
  pending : List String

namespace Ledger

def note (l : Ledger) : Event → Ledger
  | .answered line (.needsMore _) =>
    { l with pending := l.pending ++ [LineBuffer.withoutLineEnd line] }
  | .answered line outcome =>
    ⟨l.ended ++ [⟨l.pending ++ [LineBuffer.withoutLineEnd line], outcome⟩], []⟩
  | .dropped _ => { l with pending := [] }
  | .edited => l

/-- The ledger of a session that has some lines pending when it is opened. -/
def ofEvents (pending : List String) (events : List Event) : Ledger :=
  events.foldl note ⟨[], pending⟩

/-- The texts of the units that were run, each with what came of it. -/
def executed (l : Ledger) : List (String × Execution) := l.ended.filterMap EndedUnit.execution?

end Ledger

/-- The pushed lines in order; an interrupt takes back as many of the last ones as it drops. -/
def keep (lines : List String) : Event → List String
  | .answered line _ => lines ++ [LineBuffer.withoutLineEnd line]
  | .dropped count => lines.take (lines.length - count)
  | .edited => lines

/-- Runs units one after the other, each under the features that are then in force. -/
def runUnits (m : Machine) (features : Features) :
    List String → List Execution × Machine × Features
  | [] => ([], m, features)
  | unit :: rest =>
    let (e, m) := m.execute unit features
    let (es, last) := runUnits m (features.union e.features) rest
    (e :: es, last)

/-- Whether a unit has a line that is neither blank nor a comment. -/
def holdsCode (unit : String) : Bool :=
  (Text.lines unit.toList).any fun line =>
    !Text.allBlank line && (Text.trimStart line).head? != some '#'

/-- A ledger and the lines that were kept say what has become of a session since it was `first`. -/
structure Accounts (first : Session) (l : Ledger) (kept : List String) (last : Session) : Prop where
  waits : last.buffer.isEmpty = true ∨ classify last.buffer.text = .needsMore
  pending : l.pending = last.buffer.lines
  /-- Every line that was kept is in one unit that was ended, or pending. -/
  lines : kept = l.ended.flatMap EndedUnit.lines ++ last.buffer.lines
  /-- The units that were run are run once each, in order, and nothing else is. -/
  ran : runUnits first.machine first.features (l.executed.map Prod.fst) =
    (l.executed.map Prod.snd, last.machine, last.features)
  sound : ∀ u ∈ l.ended, u.Sound
  history : last.history =
    ((l.executed.map Prod.fst).filter holdsCode).foldl History.append first.history

theorem allBlank_iff (line : List Char) : Text.allBlank line = true ↔ Text.trimStart line = [] := by
  simp [Text.allBlank, Text.trimStart, List.dropWhile_eq_nil_iff]

theorem isWorthRecording_eq (unit : String) : isWorthRecording unit = holdsCode unit := by
  unfold isWorthRecording holdsCode
  congr
  funext line
  have blank := allBlank_iff line
  cases start : Text.trimStart line with
  | nil => simp [blank.2 start]
  | cons c rest =>
    have visible : Text.allBlank line = false := by
      by_contra all
      rw [Bool.not_eq_false, blank, start] at all
      cases all
    by_cases comment : c = '#'
    · subst comment
      simp [visible]
    · simp [visible, bne]

/-- A unit that holds code leaves an entry. -/
theorem isVisible_of_holdsCode {unit : String} (code : holdsCode unit = true) :
    History.isVisible unit = true := by
  obtain ⟨line, inside, visible⟩ := List.any_eq_true.1 code
  obtain ⟨c, mem, shown⟩ : ∃ c ∈ line, Text.isBlank c = false := by
    simpa [Text.allBlank] using (Bool.and_eq_true_iff.1 visible).1
  by_contra blank
  have nothing : Text.trimEnd unit.toList = [] := by simpa [History.isVisible] using blank
  have all : ∀ d ∈ unit.toList, Text.isBlank d = true := by
    simpa [Text.trimEnd, List.dropWhile_eq_nil_iff] using nothing
  rw [all c (mem_of_mem_lines inside mem)] at shown
  cases shown

theorem filter_isVisible_holdsCode (units : List String) :
    (units.filter holdsCode).filter History.isVisible = units.filter holdsCode := by
  rw [List.filter_eq_self]
  intro unit mem
  exact isVisible_of_holdsCode (List.mem_filter.1 mem).2

/-- The answers to a line, each with the session that it leaves. -/
inductive Answers (s : Session) (line : String) : Outcome → Session → Prop
  | waits (indent : Nat) (more : classify (s.pushedText line) = .needsMore) :
    Answers s line (.needsMore indent) (s.entered line)
  | ran (t : Session) (program : Program)
    (compiles : Program.compile (s.pushedText line) .single = .ok program)
    (lines : t.buffer.lines = [])
    (machine : t.machine = (s.machine.execute (s.pushedText line) s.features).2)
    (features : t.features =
      s.features.union (s.machine.execute (s.pushedText line) s.features).1.features)
    (history : t.history =
      if holdsCode (s.pushedText line) then s.history.append (s.pushedText line) else s.history) :
    Answers s line (.executed (s.machine.execute (s.pushedText line) s.features).1) t
  | rejected (t : Session) (error : SyntaxError)
    (failed : Program.compile (s.pushedText line) .single = .error error)
    (final : error.isIncomplete = false) (lines : t.buffer.lines = [])
    (machine : t.machine = s.machine) (features : t.features = s.features)
    (history : t.history = s.history) :
    Answers s line (.rejected error (error.render (s.pushedText line))) t

theorem classify_eq_finished {text : String} (finished : classify text = .finished) :
    probe text = .complete := by
  unfold classify at finished
  split at finished
  · assumption
  · cases finished
  · split at finished
    · cases finished
    · split at finished <;> cases finished

theorem answers_push (s : Session) (line : String) : Answers s line (s.push line).1 (s.push line).2 := by
  unfold push
  rw [feed_eq]
  cases made : classify (s.pushedText line) with
  | needsMore => exact .waits _ made
  | finished =>
    obtain ⟨program, compiles⟩ := probe_eq_complete.1 (classify_eq_finished made)
    refine .ran _ program compiles rfl rfl rfl ?_
    simp [runUnit, recordOutput, isWorthRecording_eq, entered]
  | rejected =>
    obtain ⟨error, failed, final⟩ := probe_eq_invalid.1 (classify_eq_rejected made)
    have answer := Answers.rejected (s.entered line |>.rejectUnit (s.pushedText line)).2 error failed
      final rfl rfl rfl rfl
    have same : ((s.entered line).rejectUnit (s.pushedText line)).1 =
        .rejected error (error.render (s.pushedText line)) := by
      simp [rejectUnit, failed]
    dsimp only
    rw [same]
    exact answer

theorem runUnits_concat {m last : Machine} {features after : Features} {units : List String}
    {es : List Execution} (before : runUnits m features units = (es, last, after)) (unit : String) :
    runUnits m features (units ++ [unit]) = (es ++ [(last.execute unit after).1],
      (last.execute unit after).2, after.union (last.execute unit after).1.features) := by
  induction units generalizing m features es with
  | nil =>
    cases before
    rfl
  | cons first units ih =>
    rw [runUnits] at before
    rw [List.cons_append, runUnits]
    dsimp only at before ⊢
    obtain ⟨es', rest⟩ : ∃ es', runUnits (m.execute first features).2
        (features.union (m.execute first features).1.features) units = (es', last, after) := by
      cases rest : runUnits (m.execute first features).2
        (features.union (m.execute first features).1.features) units with
      | mk es' ended =>
        rw [rest] at before
        cases before
        exact ⟨es', rfl⟩
    rw [rest] at before
    cases before
    rw [ih rest]
    rfl

theorem lasting_waits :
    Lasting fun s => s.buffer.isEmpty = true ∨ classify s.buffer.text = .needsMore where
  feed recorded line _ := by
    cases left : (feed _ recorded line).2.buffer.isEmpty with
    | true => exact .inl rfl
    | false =>
      obtain ⟨lines, waits⟩ := left_of_feed left
      right
      rwa [LineBuffer.text, lines]
  interrupt _ := .inl rfl
  setCurrent _ waits := waits
  recallLastWord waits := by
    obtain ⟨cursor, current, same⟩ := recallLastWord_eq _
    rw [same]
    exact waits
  withHistory _ waits := waits
  runScript _ waits := waits
  restarted _ := .inl rfl

namespace Accounts

variable {first s : Session} {l : Ledger} {kept : List String}

theorem opened (waits : s.buffer.isEmpty = true ∨ classify s.buffer.text = .needsMore) :
    Accounts s ⟨[], s.buffer.lines⟩ s.buffer.lines s where
  waits := waits
  pending := rfl
  lines := rfl
  ran := rfl
  sound := by simp
  history := rfl

/-- As long as the history was not too long to start with, it holds the newest of all entries. -/
theorem newest (accounts : Accounts first l kept s)
    (room : first.history.size ≤ first.history.capacity) :
    s.history.entries = (first.history.entries ++
      ((l.executed.map Prod.fst).filter holdsCode).map History.entryOf).rtake
        first.history.capacity := by
  rw [accounts.history, History.entries_foldl_append _ room, filter_isVisible_holdsCode]

theorem pushed_eq (accounts : Accounts first l kept s) (line : String) :
    s.pushed line = l.pending ++ [LineBuffer.withoutLineEnd line] := by
  rw [accounts.pending]
  rfl

theorem kept_concat (accounts : Accounts first l kept s) (line : String) :
    kept ++ [LineBuffer.withoutLineEnd line] =
      l.ended.flatMap EndedUnit.lines ++ s.pushed line := by
  rw [accounts.lines, List.append_assoc]
  rfl

theorem waited (accounts : Accounts first l kept s) {line : String} {indent : Nat}
    (more : classify (s.pushedText line) = .needsMore) :
    Accounts first (l.note (.answered line (.needsMore indent)))
      (keep kept (.answered line (.needsMore indent))) (s.entered line) where
  waits := .inr more
  pending := (accounts.pushed_eq line).symm
  lines := accounts.kept_concat line
  ran := accounts.ran
  sound := accounts.sound
  history := accounts.history

/-- A line that ends a unit adds this unit to the ledger. -/
theorem note_of_ends (accounts : Accounts first l kept s) (line : String) {outcome : Outcome}
    (ends : ∀ indent, outcome ≠ .needsMore indent) :
    l.note (.answered line outcome) = ⟨l.ended ++ [⟨s.pushed line, outcome⟩], []⟩ := by
  rw [accounts.pushed_eq]
  cases outcome with
  | needsMore indent => exact absurd rfl (ends indent)
  | executed e => rfl
  | rejected error rendered => rfl

/-- What is left to say of an answer that ends a unit is what was run and what was recorded. -/
theorem ended (accounts : Accounts first l kept s) {line : String} {outcome : Outcome} {t : Session}
    (ends : ∀ indent, outcome ≠ .needsMore indent) (lines : t.buffer.lines = [])
    (sound : (EndedUnit.mk (s.pushed line) outcome).Sound)
    (ran : runUnits first.machine first.features
        ((l.note (.answered line outcome)).executed.map Prod.fst) =
      ((l.note (.answered line outcome)).executed.map Prod.snd, t.machine, t.features))
    (history : t.history =
      (((l.note (.answered line outcome)).executed.map Prod.fst).filter holdsCode).foldl
        History.append first.history) :
    Accounts first (l.note (.answered line outcome)) (keep kept (.answered line outcome)) t where
  waits := by simp [LineBuffer.isEmpty, lines]
  pending := by rw [accounts.note_of_ends line ends, lines]
  lines := by simp [accounts.note_of_ends line ends, lines, keep, accounts.kept_concat]
  ran := ran
  sound := by
    intro u mem
    rw [accounts.note_of_ends line ends] at mem
    rcases List.mem_append.1 mem with mem | mem
    · exact accounts.sound u mem
    · obtain rfl := List.mem_singleton.1 mem
      exact sound
  history := history

theorem push (accounts : Accounts first l kept s) (line : String) :
    Accounts first (l.note (.answered line (s.push line).1))
      (keep kept (.answered line (s.push line).1)) (s.push line).2 := by
  have answer := answers_push s line
  generalize (s.push line).1 = outcome at answer
  generalize (s.push line).2 = t at answer
  cases answer with
  | waits indent more => exact accounts.waited more
  | ran t program compiles lines machine features history =>
    have executed : (l.note (.answered line
        (.executed (s.machine.execute (s.pushedText line) s.features).1))).executed =
          l.executed ++ [(s.pushedText line,
            (s.machine.execute (s.pushedText line) s.features).1)] := by
      rw [accounts.note_of_ends line (by simp), Ledger.executed, List.filterMap_append]
      rfl
    apply accounts.ended (by simp) lines
    · exact ⟨program, compiles⟩
    · rw [executed, List.map_append, List.map_append, machine, features]
      exact runUnits_concat accounts.ran _
    · rw [executed, List.map_append, List.filter_append, List.foldl_append, ← accounts.history,
        history]
      cases code : holdsCode (s.pushedText line) <;> simp [code]
  | rejected t error failed final lines machine features history =>
    have executed : (l.note (.answered line
        (.rejected error (error.render (s.pushedText line))))).executed = l.executed := by
      simp [Ledger.note, Ledger.executed, EndedUnit.execution?]
    apply accounts.ended (by simp) lines
    · exact ⟨failed, final, rfl⟩
    · rw [executed, machine, features]
      exact accounts.ran
    · rw [executed, history]
      exact accounts.history

theorem interrupt (accounts : Accounts first l kept s) :
    Accounts first (l.note (.dropped s.buffer.lines.length))
      (keep kept (.dropped s.buffer.lines.length)) s.interrupt where
  waits := .inl rfl
  pending := rfl
  lines := by
    have emptied : s.interrupt.buffer.lines = [] := rfl
    rw [emptied, List.append_nil, keep, accounts.lines, List.length_append, Nat.add_sub_cancel,
      List.take_left]
    rfl
  ran := accounts.ran
  sound := accounts.sound
  history := accounts.history

theorem act (accounts : Accounts first l kept s) (action : Action) :
    Accounts first (l.note (s.act action).1) (keep kept (s.act action).1) (s.act action).2 := by
  cases action with
  | push line => exact accounts.push line
  | interrupt => exact accounts.interrupt
  | setCurrent text => exact { accounts with }
  | recallLastWord =>
    obtain ⟨cursor, current, same⟩ := recallLastWord_eq s
    unfold Session.act
    rw [same]
    exact { accounts with }

theorem perform (accounts : Accounts first l kept s) (actions : List Action) :
    Accounts first ((s.perform actions).1.foldl Ledger.note l) ((s.perform actions).1.foldl keep kept)
      (s.perform actions).2 := by
  induction actions generalizing l kept s with
  | nil => exact accounts
  | cons action actions ih => exact ih (accounts.act action)

end Accounts

variable {s : Session}

theorem InUse.waits (used : InUse s) :
    s.buffer.isEmpty = true ∨ classify s.buffer.text = .needsMore :=
  used.keeps lasting_waits fun _ _ _ => .inl rfl

/-- An answer other than that a unit was run leaves everything but the lines alone. -/
theorem push_of_not_executed (line : String) (idle : ∀ e, (s.push line).1 ≠ .executed e) :
    (s.push line).2.machine = s.machine ∧ (s.push line).2.features = s.features ∧
      (s.push line).2.history = s.history := by
  have answer := answers_push s line
  generalize (s.push line).1 = outcome at answer idle
  generalize (s.push line).2 = t at answer
  cases answer with
  | waits indent more => exact ⟨rfl, rfl, rfl⟩
  | ran t program compiles lines machine features history => exact absurd rfl (idle _)
  | rejected t error failed final lines machine features history => exact ⟨machine, features, history⟩

/-- No pushed line is lost, run twice or run in part. Whatever is done at the prompt of a session that
is in use, every line that was not dropped is in one unit that was run or rejected, or is pending; the
machine has run the units that compile, each once and in order, and nothing else; and the history has
got the units among these that hold code. -/
theorem every_pushed_line_is_accounted_for :
    (∀ s, InUse s → ∀ actions, ∃ events t, s.perform actions = (events, t) ∧
      Accounts s (.ofEvents s.buffer.lines events) (events.foldl keep s.buffer.lines) t ∧
      (s.history.size ≤ s.history.capacity → t.history.entries = (s.history.entries ++
        (((Ledger.ofEvents s.buffer.lines events).executed.map Prod.fst).filter holdsCode).map
          History.entryOf).rtake s.history.capacity)) ∧
    ∀ (s : Session) (line : String), (∀ e, (s.push line).1 ≠ .executed e) →
      (s.push line).2.machine = s.machine ∧ (s.push line).2.features = s.features ∧
        (s.push line).2.history = s.history := by
  constructor
  · intro s used actions
    have accounts := (Accounts.opened used.waits).perform actions
    exact ⟨_, _, rfl, accounts, accounts.newest⟩
  · intro s line idle
    exact push_of_not_executed line idle

/-- A unit that runs, one that is dropped, a comment and a line that is rejected. -/
theorem conditional_and_comment_are_accounted_for :
    (∃ s actions, s = ((start (.empty 1) 4 .none).push "if 1:").2 ∧
      actions = [.push "  x = 2\n", .push "", .push "if x:", .interrupt, .push "# x", .push "x )"] ∧
      InUse s ∧ ∃ events t, s.perform actions = (events, t) ∧
      Accounts s (.ofEvents s.buffer.lines events) (events.foldl keep s.buffer.lines) t ∧
      (s.history.size ≤ s.history.capacity → t.history.entries = (s.history.entries ++
        (((Ledger.ofEvents s.buffer.lines events).executed.map Prod.fst).filter holdsCode).map
          History.entryOf).rtake s.history.capacity)) ∧
    ∃ s line, s = start (.empty 1) 4 .none ∧ line = "x )" ∧
      (∀ e, (s.push line).1 ≠ .executed e) ∧
      (s.push line).2.machine = s.machine ∧ (s.push line).2.features = s.features ∧
        (s.push line).2.history = s.history := by
  have used : InUse ((start (.empty 1) 4 .none).push "if 1:").2 := (InUse.start ..).push "if 1:"
  have idle : ∀ e, ((start (.empty 1) 4 .none).push "x )").1 ≠ .executed e := by
    have answer : ((start (.empty 1) 4 .none).push "x )").1 = .rejected ⟨.invalidSyntax, 1, 2⟩
        "  File \"<input>\", line 1\n    x )\n      ^\nSyntaxError: invalid syntax\n" := by
      decide +kernel
    simp [answer]
  exact ⟨⟨_, _, rfl, rfl, used, every_pushed_line_is_accounted_for.1 _ used _⟩, _, _, rfl, rfl, idle,
    every_pushed_line_is_accounted_for.2 _ _ idle⟩

end Session

end Console
