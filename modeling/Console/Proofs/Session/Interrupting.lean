import Console.Proofs.Session.Use

/-!
# Interrupting a unit

The transcript of every session ends in the lines of the unit being typed. So what an interrupt cuts off
it are these lines, and the session is again what it was before the first of them.
-/

namespace Console

open Completeness

namespace Session

/-- The entries that the lines of a unit make when they are typed. -/
def inputs : List String → List Entry
  | [] => []
  | first :: rest => .input .primary first :: rest.map (.input .continuation)

@[simp] theorem length_inputs (typed : List String) : (inputs typed).length = typed.length := by
  cases typed <;> simp [inputs]

theorem inputs_concat (typed : List String) (line : String) :
    inputs (typed ++ [line]) =
      inputs typed ++ [.input (if typed.isEmpty then .primary else .continuation) line] := by
  cases typed <;> simp [inputs]

/-- The transcript ends in the lines of the unit being typed. -/
def Trailed (s : Session) : Prop :=
  ∃ before typed, s.transcript = before ++ inputs typed ∧
    typed.map LineBuffer.withoutLineEnd = s.buffer.lines

variable {s t : Session}

theorem trailed_of_nil (nothing : s.buffer.lines = []) : Trailed s :=
  ⟨s.transcript, [], by simp [inputs], by simp [nothing]⟩

theorem prompt_eq (typed : List String) (lines : typed.map LineBuffer.withoutLineEnd = s.buffer.lines) :
    s.prompt = if typed.isEmpty then .primary else .continuation := by
  unfold prompt LineBuffer.isEmpty
  rw [← lines]
  cases typed <;> rfl

theorem Trailed.entered (trailed : Trailed s) (line : String) : Trailed (s.entered line) := by
  obtain ⟨before, typed, transcript, lines⟩ := trailed
  refine ⟨before, typed ++ [line], ?_, ?_⟩
  · rw [inputs_concat, ← prompt_eq typed lines, ← List.append_assoc, ← transcript]
    rfl
  · rw [List.map_append, lines]
    rfl

theorem lasting_trailed : Lasting Trailed where
  feed recorded line trailed := by
    rcases feed_cases _ recorded line with ⟨-, same⟩ | ⟨-, same | same⟩
    · rw [same]
      exact trailed.entered line
    · rw [same]
      exact trailed_of_nil rfl
    · rw [same]
      exact trailed_of_nil rfl
  interrupt _ := trailed_of_nil rfl
  setCurrent _ trailed := trailed
  recallLastWord trailed := by
    obtain ⟨cursor, current, same⟩ := recallLastWord_eq _
    rw [same]
    exact trailed
  withHistory _ trailed := trailed
  runScript _ trailed := trailed
  restarted _ := trailed_of_nil rfl

theorem InUse.trailed (used : InUse s) : Trailed s :=
  used.keeps lasting_trailed fun _ _ _ => trailed_of_nil rfl

/-- The last entries of the transcript, as many as the buffer has lines, are these lines, and the ones
before them stay. -/
theorem Trailed.interrupt (trailed : Trailed s) :
    s.buffer.lines.length ≤ s.transcript.length ∧
    ∃ typed, typed.map LineBuffer.withoutLineEnd = s.buffer.lines ∧
      s.transcript.drop (s.transcript.length - s.buffer.lines.length) = inputs typed ∧
      s.interrupt.transcript ++ inputs typed = s.transcript := by
  obtain ⟨before, typed, transcript, lines⟩ := trailed
  have count : s.transcript.length - s.buffer.lines.length = before.length := by
    simp [transcript, ← lines]
  have kept : s.interrupt.transcript = before := by
    change s.transcript.take (s.transcript.length - s.buffer.lines.length) = before
    rw [count, transcript, List.take_left]
  refine ⟨by simp [transcript, ← lines], typed, lines, ?_, ?_⟩
  · rw [count, transcript, List.drop_left]
  · rw [kept, transcript]

/-- What was done left the unit being typed as it was, or waiting for one line more. -/
def Event.waits : Event → Bool
  | .answered _ (.needsMore _) | .edited => true
  | _ => false

/-- The second session is the first one with lines of a unit typed into it. -/
def Opens (s t : Session) : Prop :=
  ∃ typed current cursor, t = { s with
    transcript := s.transcript ++ inputs typed
    buffer := ⟨typed.map LineBuffer.withoutLineEnd, current⟩
    cursor }

theorem opens_self (nothing : s.buffer.isEmpty = true) : Opens s s := by
  obtain ⟨machine, ⟨lines, current⟩, history, cursor, features, initial, transcript, tabs⟩ := s
  obtain rfl : lines = [] := List.isEmpty_iff.1 nothing
  exact ⟨[], current, cursor, by simp [inputs]⟩

theorem feed_of_needsMore {recorded : Bool} {line : String} {indent : Nat}
    (answer : (s.feed recorded line).1 = .needsMore indent) :
    (s.feed recorded line).2 = s.entered line := by
  rw [feed_eq] at answer ⊢
  cases made : classify (s.pushedText line) with
  | needsMore => rfl
  | finished => simp [made, runUnit] at answer
  | rejected => simp [made, rejectUnit] at answer

theorem Opens.entered (opens : Opens s t) (line : String) : Opens s (t.entered line) := by
  obtain ⟨typed, current, cursor, rfl⟩ := opens
  refine ⟨typed ++ [line], "", .idle, ?_⟩
  rw [inputs_concat, ← List.append_assoc, List.map_append]
  unfold Session.entered
  rw [prompt_eq typed rfl]
  rfl

theorem Opens.act (opens : Opens s t) (action : Action) (waits : (t.act action).1.waits = true) :
    Opens s (t.act action).2 := by
  cases action with
  | push line =>
    change (Event.answered line (t.push line).1).waits = true at waits
    change Opens s (t.push line).2
    cases answer : (t.push line).1 with
    | needsMore indent =>
      rw [show (t.push line).2 = t.entered line from feed_of_needsMore answer]
      exact opens.entered line
    | executed e => simp [answer, Event.waits] at waits
    | rejected error rendered => simp [answer, Event.waits] at waits
  | interrupt => cases waits
  | setCurrent text =>
    obtain ⟨typed, current, cursor, rfl⟩ := opens
    exact ⟨typed, text, .idle, rfl⟩
  | recallLastWord =>
    obtain ⟨typed, current, cursor, rfl⟩ := opens
    obtain ⟨cursor', current', same⟩ := recallLastWord_eq _
    exact ⟨typed, current', cursor', same⟩

theorem Opens.perform (opens : Opens s t) (actions : List Action)
    (waits : ∀ e ∈ (t.perform actions).1, e.waits = true) : Opens s (t.perform actions).2 := by
  induction actions generalizing t with
  | nil => exact opens
  | cons action actions ih =>
    have first := opens.act action (waits _ (List.mem_cons_self ..))
    exact ih first fun e mem => waits e (List.mem_cons_of_mem _ mem)

/-- Only the line under the cursor is lost as well. -/
theorem Opens.interrupt (opens : Opens s t) (nothing : s.buffer.isEmpty = true) :
    t.interrupt = s.setCurrent "" := by
  obtain ⟨typed, current, cursor, rfl⟩ := opens
  obtain ⟨machine, ⟨lines, current'⟩, history, cursor', features, initial, transcript, tabs⟩ := s
  obtain rfl : lines = [] := List.isEmpty_iff.1 nothing
  unfold Session.interrupt Session.setCurrent
  simp [LineBuffer.clear, LineBuffer.setCurrent]

/-- An interrupt drops the unit being typed and nothing else. Its lines are the last ones in the
transcript of every session, and lines that were all waited for leave no trace once they are dropped. -/
theorem interrupt_drops_the_open_unit :
    (∀ s, InUse s →
      s.buffer.lines.length ≤ s.transcript.length ∧
      ∃ typed, typed.map LineBuffer.withoutLineEnd = s.buffer.lines ∧
        s.transcript.drop (s.transcript.length - s.buffer.lines.length) = inputs typed ∧
        s.interrupt.transcript ++ inputs typed = s.transcript) ∧
    ∀ (s : Session) (actions : List Action), s.buffer.isEmpty = true →
      (∀ e ∈ (s.perform actions).1, e.waits = true) →
      ∃ t, (s.perform actions).2.interrupt = t ∧
        t.transcript = s.transcript ∧ t.history = s.history ∧ t.features = s.features ∧
        t.machine = s.machine ∧ t.buffer = .empty ∧ t.cursor = .idle := by
  constructor
  · intro s used
    exact used.trailed.interrupt
  · intro s actions nothing waits
    have opens := (opens_self nothing).perform actions waits
    refine ⟨_, opens.interrupt nothing, rfl, rfl, rfl, rfl, ?_, rfl⟩
    have empty : s.buffer.lines = [] := List.isEmpty_iff.1 nothing
    simp [setCurrent, LineBuffer.setCurrent, LineBuffer.empty, empty]

/-- A header with a body behind it, the lines of which were typed and then dropped. -/
theorem interrupted_conditional_leaves_no_trace :
    (∃ s, s = (((start (.empty 10) 4 .none).push "x = 1").2.push "if x:").2 ∧
      s.buffer.lines.length ≤ s.transcript.length ∧
      ∃ typed, typed.map LineBuffer.withoutLineEnd = s.buffer.lines ∧
        s.transcript.drop (s.transcript.length - s.buffer.lines.length) = inputs typed ∧
        s.interrupt.transcript ++ inputs typed = s.transcript) ∧
    ∃ s actions, s = ((start (.empty 10) 4 .none).push "x = 1").2 ∧
      actions = [.push "if x:", .recallLastWord, .setCurrent "  y", .push "  y"] ∧
      s.buffer.isEmpty = true ∧ (∀ e ∈ (s.perform actions).1, e.waits = true) ∧
      ∃ t, (s.perform actions).2.interrupt = t ∧
        t.transcript = s.transcript ∧ t.history = s.history ∧ t.features = s.features ∧
        t.machine = s.machine ∧ t.buffer = .empty ∧ t.cursor = .idle := by
  have used : InUse (((start (.empty 10) 4 .none).push "x = 1").2.push "if x:").2 :=
    ((InUse.start ..).push "x = 1").push "if x:"
  have nothing : ((start (.empty 10) 4 .none).push "x = 1").2.buffer.isEmpty = true := by
    decide +kernel
  have waits : ∀ e ∈ (((start (.empty 10) 4 .none).push "x = 1").2.perform
      [.push "if x:", .recallLastWord, .setCurrent "  y", .push "  y"]).1, e.waits = true := by
    decide +kernel
  exact ⟨⟨_, rfl, interrupt_drops_the_open_unit.1 _ used⟩, _, _, rfl, rfl, nothing, waits,
    interrupt_drops_the_open_unit.2 _ _ nothing waits⟩

end Session

end Console
