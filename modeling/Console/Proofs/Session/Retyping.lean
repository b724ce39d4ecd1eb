import Console.Proofs.Session.File
import Console.Proofs.Session.Interrupting
import Mathlib.Data.List.TakeWhile

/-!
# Editing a unit without changing it

Every beginning of the unit being typed needs more lines. So when an editor gives the unit back as it
was, each of its lines is typed again and waited for as before, and the session goes on as if the
current line had been pushed. The buffer keeps no line ends, so those that a line was typed with are
gone from the transcript.
-/

namespace Console

open Completeness

namespace Session

variable {s : Session}

/-- However many of the first lines of the unit were typed, more were needed. -/
def Waiting (s : Session) : Prop :=
  ∀ first, first <+: s.buffer.lines → first ≠ [] →
    classify ("\n".intercalate first) = .needsMore

theorem waiting_of_nil (nothing : s.buffer.lines = []) : s.Waiting := by
  intro first beginning nonempty
  rw [nothing] at beginning
  exact absurd (List.prefix_nil.1 beginning) nonempty

theorem lasting_waiting : Lasting Waiting where
  feed recorded line waiting := by
    cases left : (feed _ recorded line).2.buffer.isEmpty with
    | true => exact waiting_of_nil (List.isEmpty_iff.1 left)
    | false =>
      obtain ⟨lines, waits⟩ := left_of_feed left
      intro first beginning nonempty
      rw [lines, pushed, List.prefix_concat_iff] at beginning
      rcases beginning with rfl | beginning
      · exact waits
      · exact waiting first beginning nonempty
  interrupt _ := waiting_of_nil rfl
  setCurrent _ waiting := waiting
  recallLastWord waiting := by
    obtain ⟨cursor, current, same⟩ := recallLastWord_eq _
    rw [same]
    exact waiting
  withHistory _ waiting := waiting
  runScript _ waiting := waiting
  restarted _ := waiting_of_nil rfl

theorem InUse.waiting (used : InUse s) : s.Waiting :=
  used.keeps lasting_waiting fun _ _ _ => waiting_of_nil rfl

/-- The session behind the lines of a unit, typed where no unit was open. -/
def opened (s : Session) (typed : List String) : Session :=
  { s with
    transcript := s.transcript ++ inputs typed
    buffer := ⟨typed.map LineBuffer.withoutLineEnd, ""⟩
    cursor := .idle }

theorem entered_opened (typed : List String) (line : String) :
    (s.opened typed).entered line = s.opened (typed ++ [line]) := by
  unfold opened
  rw [inputs_concat, ← List.append_assoc, List.map_append]
  unfold entered
  rw [prompt_eq typed rfl]
  rfl

theorem interrupt_opened : s.interrupt.opened [] = s.interrupt := by
  unfold opened
  rw [inputs, List.append_nil]
  rfl

/-- The answer to a line that is waited for. -/
def held (s : Session) (line : String) : Outcome :=
  .needsMore (Indent.predict line.toList s.tabLength)

theorem feed_of_waits {recorded : Bool} {line : String}
    (waits : classify (s.pushedText line) = .needsMore) :
    s.feed recorded line = (s.held line, s.entered line) := by
  rw [feed_eq, waits]
  rfl

/-- Lines each beginning of which needs more are all waited for. -/
theorem feedAll_opened {recorded : Bool} {typed lines : List String}
    (waits : ∀ first, first <+: lines → first ≠ [] →
      classify ("\n".intercalate ((typed ++ first).map LineBuffer.withoutLineEnd)) = .needsMore) :
    (s.opened typed).feedAll recorded lines = (lines.map s.held, s.opened (typed ++ lines)) := by
  induction lines generalizing typed with
  | nil =>
    rw [List.append_nil]
    rfl
  | cons line lines ih =>
    have one : classify ((s.opened typed).pushedText line) = .needsMore := by
      have first := waits [line] (by simp) (by simp)
      rwa [List.map_append] at first
    have others := @ih (typed ++ [line]) fun first beginning _ => by
      rw [List.append_assoc]
      exact waits (line :: first) (List.cons_prefix_cons.2 ⟨rfl, beginning⟩) (by simp)
    rw [feedAll, feed_of_waits one, entered_opened]
    dsimp only
    rw [others, List.append_assoc]
    rfl

theorem feedAll_concat (s : Session) (recorded : Bool) (lines : List String) (line : String) :
    s.feedAll recorded (lines ++ [line]) =
      ((s.feedAll recorded lines).1 ++ [((s.feedAll recorded lines).2.feed recorded line).1],
        ((s.feedAll recorded lines).2.feed recorded line).2) := by
  induction lines generalizing s with
  | nil => rfl
  | cons first lines ih =>
    rw [List.cons_append, feedAll, feedAll]
    dsimp only
    rw [ih]
    rfl

/-- The lines of the unit being typed, as they were typed: the transcript keeps them whole, the buffer
without the line ends behind them. -/
def typedLines (s : Session) : List String :=
  typed (s.transcript.drop (s.transcript.length - s.buffer.lines.length))

theorem typed_inputs (lines : List String) : typed (inputs lines) = lines := by
  cases lines with
  | nil => rfl
  | cons first rest =>
    unfold typed inputs
    rw [List.filterMap_cons, List.filterMap_map]
    simp

/-- The unit being typed was opened where an interrupt leads to. -/
theorem Trailed.opened (trailed : Trailed s) :
    s.typedLines.map LineBuffer.withoutLineEnd = s.buffer.lines ∧
      s = { s.interrupt.opened s.typedLines with buffer := s.buffer, cursor := s.cursor } := by
  obtain ⟨-, lines, stripped, ended, whole⟩ := trailed.interrupt
  have same : s.typedLines = lines := by rw [typedLines, ended, typed_inputs]
  rw [same]
  refine ⟨stripped, ?_⟩
  unfold Session.opened
  rw [whole]
  rfl

/-- A line without line feeds and carriage returns. -/
def Bare (line : String) : Prop := '\n' ∉ line.toList ∧ '\r' ∉ line.toList

theorem withoutLineEnd_of_bare {line : String} (bare : Bare line) :
    LineBuffer.withoutLineEnd line = line := by
  have stays : line.toList.reverse.dropWhile (fun c => c == '\n' || c == '\r') =
      line.toList.reverse := by
    rw [List.dropWhile_eq_self_iff]
    intro nonempty
    have inside := List.mem_reverse.1 (List.getElem_mem nonempty)
    simp only [Bool.or_eq_true, beq_iff_eq, not_or]
    exact ⟨fun feed => bare.1 (feed ▸ inside), fun ret => bare.2 (ret ▸ inside)⟩
  unfold LineBuffer.withoutLineEnd
  rw [stays, List.reverse_reverse, String.ofList_toList]

theorem map_withoutLineEnd {lines : List String} (bare : ∀ line ∈ lines, Bare line) :
    lines.map LineBuffer.withoutLineEnd = lines := by
  rw [List.map_congr_left fun line inside => withoutLineEnd_of_bare (bare line inside)]
  exact List.map_id'' (fun _ => rfl) lines

/-- An editor that changes nothing gives back all lines, as the last one is not blank. -/
theorem blockLines_block {b : LineBuffer} (lines : ∀ line ∈ b.lines, Inline line)
    (current : Inline b.current) (visible : isBlankLine b.current = false) :
    blockLines b.block = b.lines ++ [b.current] := by
  have inline : ∀ line ∈ b.lines ++ [b.current], Inline line := by
    intro line mem
    rcases List.mem_append.1 mem with mem | mem
    · exact lines line mem
    · rw [List.mem_singleton.1 mem]
      exact current
  unfold blockLines LineBuffer.block
  rw [editedLines_intercalate (by simp) inline, List.reverse_concat,
    List.dropWhile_cons_of_neg (by simp [visible]), List.reverse_cons, List.reverse_reverse]

/-- Pushes up to `n` empty lines, as long as a unit is open. -/
def pushEmpty (s : Session) : (n : Nat) → List Outcome × Session
  | 0 => ([], s)
  | n + 1 =>
    if s.buffer.isEmpty then ([], s)
    else
      let (outcome, s) := s.push ""
      let (outcomes, s) := s.pushEmpty n
      (outcome :: outcomes, s)

/-- Pushes the current line, and at most two empty lines as long as its unit is open. -/
def finishByHand (s : Session) : List Outcome × Session :=
  let (outcome, s) := s.push s.buffer.current
  let (outcomes, s) := s.pushEmpty 2
  (outcome :: outcomes, s)

theorem close_eq_pushEmpty (s : Session) (n : Nat) : s.close true n = s.pushEmpty n := by
  induction n generalizing s with
  | zero => rfl
  | succ n ih =>
    rw [close, pushEmpty, push]
    dsimp only
    rw [ih]

theorem finishByHand_eq (s : Session) : s.finishByHand =
    ((s.push s.buffer.current).1 :: ((s.push s.buffer.current).2.close true closingLines).1,
      ((s.push s.buffer.current).2.close true closingLines).2) := by
  rw [close_eq_pushEmpty]
  rfl

theorem replaceBlock_eq (s : Session) (text : String) : s.replaceBlock text =
    ((s.interrupt.feedAll true (blockLines text)).1 ++
        ((s.interrupt.feedAll true (blockLines text)).2.close true closingLines).1,
      ((s.interrupt.feedAll true (blockLines text)).2.close true closingLines).2) := rfl

def withTranscript (s : Session) (t : List Entry) : Session := { s with transcript := t }

/-- An action that writes something behind the transcript, whatever stands there. -/
def Appends {α : Type} (act : Session → α × Session) : Prop :=
  ∀ s, ∃ shown, ∀ t, act (s.withTranscript t) =
    ((act s).1, (act s).2.withTranscript (t ++ shown))

theorem Appends.transcript {α : Type} (act : Session → α × Session) {shown : List Entry}
    (appends : ∀ t, act (s.withTranscript t) = ((act s).1, (act s).2.withTranscript (t ++ shown))) :
    (act s).2.transcript = s.transcript ++ shown :=
  congrArg (fun answer => answer.2.transcript) (appends s.transcript)

/-- What is done one after the other is written one behind the other. -/
theorem Appends.bind {α β γ : Type} {act : Session → α × Session} {next : Session → β × Session}
    (first : Appends act) (second : Appends next) (join : α → β → γ) :
    Appends fun s => (join (act s).1 (next (act s).2).1, (next (act s).2).2) := by
  intro s
  obtain ⟨shown, same⟩ := first s
  obtain ⟨shown', same'⟩ := second (act s).2
  refine ⟨shown ++ shown', fun t => ?_⟩
  dsimp only
  rw [same, ← List.append_assoc]
  dsimp only
  rw [same']

/-- The lines of a text that is shown. -/
def outputs (text : String) : List Entry :=
  (Text.lines text.toList).map fun line => .output (String.ofList line)

theorem appends_runUnit (recorded : Bool) (unit : String) :
    Appends fun s => s.runUnit recorded unit := by
  intro s
  let e := (s.machine.execute unit s.features).1
  refine ⟨outputs e.stdout ++ outputs e.stderr, fun t => ?_⟩
  rw [← List.append_assoc]
  rfl

theorem appends_rejectUnit (unit : String) : Appends fun s => s.rejectUnit unit :=
  fun _ => ⟨_, fun _ => rfl⟩

theorem appends_entered (line : String) : Appends fun s => (s.held line, s.entered line) :=
  fun s => ⟨[.input s.prompt line], fun _ => rfl⟩

theorem appends_feed (recorded : Bool) (line : String) :
    Appends fun s => s.feed recorded line := by
  intro s
  have again (t : List Entry) : (s.withTranscript t).pushedText line = s.pushedText line := rfl
  simp only [feed_eq, again]
  cases classify (s.pushedText line) with
  | needsMore => exact appends_entered line s
  | finished =>
    exact (appends_entered line).bind (appends_runUnit recorded (s.pushedText line))
      (fun _ outcome => outcome) s
  | rejected =>
    exact (appends_entered line).bind (appends_rejectUnit (s.pushedText line))
      (fun _ outcome => outcome) s

theorem appends_close (recorded : Bool) (n : Nat) : Appends fun s => s.close recorded n := by
  induction n with
  | zero => exact fun s => ⟨[], fun t => by rw [List.append_nil]; rfl⟩
  | succ n ih =>
    intro s
    cases nothing : s.buffer.isEmpty with
    | true =>
      refine ⟨[], fun t => ?_⟩
      have nothing' : (s.withTranscript t).buffer.isEmpty = true := nothing
      simp only [close, nothing, nothing', if_true, List.append_nil]
    | false =>
      obtain ⟨shown, same⟩ := (appends_feed recorded "").bind ih List.cons s
      refine ⟨shown, fun t => ?_⟩
      have still : (s.withTranscript t).buffer.isEmpty = false := nothing
      simp only [close, nothing, still, Bool.false_eq_true, if_false]
      exact same t

theorem appends_finishByHand : Appends finishByHand := by
  intro s
  obtain ⟨shown, same⟩ :=
    (appends_feed true s.buffer.current).bind (appends_close true closingLines) List.cons s
  exact ⟨shown, fun t => by rw [finishByHand_eq, finishByHand_eq]; exact same t⟩

/-- What the next line does depends on the lines before it, not on the line under the cursor. -/
theorem feed_opened {typed : List String}
    (stripped : typed.map LineBuffer.withoutLineEnd = s.buffer.lines) (line : String) :
    (s.interrupt.opened typed).feed true line =
      (s.withTranscript (s.interrupt.transcript ++ inputs typed)).push line := by
  obtain ⟨_, ⟨lines, _⟩, _⟩ := s
  subst stripped
  rfl

/-- The lines of the unit wait again when they are typed again. -/
theorem feedAll_pending (used : InUse s) (pending : ∀ line ∈ s.buffer.lines, Bare line) :
    s.interrupt.feedAll true s.buffer.lines =
      (s.buffer.lines.map s.held, s.interrupt.opened s.buffer.lines) := by
  have again := @feedAll_opened s.interrupt true [] s.buffer.lines fun first beginning nonempty => by
    have bare : ∀ line ∈ first, Bare line := fun line inside => pending line (beginning.subset inside)
    rw [List.nil_append, map_withoutLineEnd bare]
    exact used.waiting first beginning nonempty
  rw [interrupt_opened, List.nil_append] at again
  exact again

/-- The unit is typed again without the line ends of its lines, and finished by hand. -/
theorem editBlock_unchanged (used : InUse s) (pending : ∀ line ∈ s.buffer.lines, Bare line)
    (current : Bare s.buffer.current) (visible : isBlankLine s.buffer.current = false) :
    s.editBlock (fun text => .ok text) = .ok
      (s.buffer.lines.map s.held ++
          (s.withTranscript (s.interrupt.transcript ++ inputs s.buffer.lines)).finishByHand.1,
        (s.withTranscript (s.interrupt.transcript ++ inputs s.buffer.lines)).finishByHand.2) := by
  have fed : blockLines s.buffer.block = s.buffer.lines ++ [s.buffer.current] :=
    blockLines_block (fun line inside => (pending line inside).1) current.1 visible
  have edited : s.editBlock (fun text => .ok text) = .ok (s.replaceBlock s.buffer.block) := rfl
  rw [edited, replaceBlock_eq, fed, feedAll_concat, feedAll_pending used pending]
  dsimp only
  rw [feed_opened (map_withoutLineEnd pending), finishByHand_eq, List.append_assoc]
  rfl

/-- The unit being typed, none of whose lines has a line end inside, is edited without a change. Then
each of its lines waits once more, and the session goes on as if the current line were pushed and the
unit closed by hand. Only the transcript tells the two apart: the lines of the buffer, which are typed
again, have lost the line ends behind them, and the lines as they were typed have not. -/
theorem unchanged_block_is_finished_by_hand {s : Session} (used : InUse s)
    (pending : ∀ line ∈ s.buffer.lines, Bare line) (current : Bare s.buffer.current)
    (visible : isBlankLine s.buffer.current = false) :
    ∃ edited before shown,
      s.editBlock (fun text => .ok text) = .ok
        (s.buffer.lines.map (fun line => .needsMore (Indent.predict line.toList s.tabLength)) ++
          s.finishByHand.1, edited) ∧
      s.finishByHand.2.transcript = before ++ inputs s.typedLines ++ shown ∧
      edited = s.finishByHand.2.withTranscript (before ++ inputs s.buffer.lines ++ shown) ∧
      (edited = s.finishByHand.2 ↔ ∀ line ∈ s.typedLines, Bare line) := by
  obtain ⟨stripped, whole⟩ := used.trailed.opened
  obtain ⟨shown, same⟩ := appends_finishByHand s
  have kept : s.transcript = s.interrupt.transcript ++ inputs s.typedLines :=
    congrArg Session.transcript whole
  have byHand : s.finishByHand.2.transcript =
      s.interrupt.transcript ++ inputs s.typedLines ++ shown := by
    rw [Appends.transcript finishByHand same, kept]
  refine ⟨_, s.interrupt.transcript, shown, ?_, byHand, rfl, ?_⟩
  · rw [editBlock_unchanged used pending current visible, same]
    rfl
  · constructor
    · intro alike
      have transcripts := (congrArg Session.transcript alike).trans byHand
      have lines : inputs s.buffer.lines = inputs s.typedLines :=
        List.append_cancel_left (List.append_cancel_right transcripts)
      have typed : s.buffer.lines = s.typedLines := by
        rw [← typed_inputs s.buffer.lines, lines, typed_inputs]
      rwa [← typed]
    · intro bare
      have typed : s.buffer.lines = s.typedLines := by
        rw [← stripped, map_withoutLineEnd bare]
      rw [typed, ← byHand]
      rfl

/-- A header that was typed behind a unit, and its body under the cursor. -/
theorem unchanged_conditional_is_finished_by_hand :
    ∃ s, s = ((((start (.empty 10) 4 .none).push "x = 1").2.push "if x:").2.setCurrent "  x = 2") ∧
      InUse s ∧ (∀ line ∈ s.buffer.lines, Bare line) ∧ Bare s.buffer.current ∧
      isBlankLine s.buffer.current = false ∧ (∀ line ∈ s.typedLines, Bare line) ∧
      s.editBlock (fun text => .ok text) =
        .ok ([.needsMore 4] ++ s.finishByHand.1, s.finishByHand.2) := by
  have used : InUse ((((start (.empty 10) 4 .none).push "x = 1").2.push "if x:").2.setCurrent
      "  x = 2") :=
    ((((InUse.start ..).push "x = 1").push "if x:").setCurrent _)
  generalize same : ((((start (.empty 10) 4 .none).push "x = 1").2.push "if x:").2.setCurrent
      "  x = 2") = s at used
  have lines : s.buffer.lines = ["if x:"] := by
    subst same
    decide +kernel
  have typed : s.typedLines = ["if x:"] := by
    subst same
    decide +kernel
  have current : s.buffer.current = "  x = 2" := by
    subst same
    rfl
  have width : s.tabLength = 4 := by
    subst same
    decide +kernel
  have bare : ∀ line ∈ ["if x:"], Bare line := by
    unfold Bare
    decide
  have current' : Bare s.buffer.current := by
    rw [current]
    unfold Bare
    decide
  have visible : isBlankLine s.buffer.current = false := by
    rw [current]
    decide
  obtain ⟨edited, before, shown, answer, -, -, same'⟩ :=
    unchanged_block_is_finished_by_hand used (by rwa [lines]) current' visible
  refine ⟨s, rfl, used, by rwa [lines], current', visible, by rwa [typed], ?_⟩
  rw [answer, same'.2 (by rwa [typed]), lines, width]
  rfl

/-- A header is typed with its line end, which the buffer does not keep. So editing the unit without a
change loses it, and the transcript is not that of a unit finished by hand. -/
theorem line_end_is_lost_in_an_unchanged_block :
    ∃ s, s = ((start (.empty 10) 4 .none).push "if x:\n").2.setCurrent "  x = 2" ∧ InUse s ∧
      s.buffer.lines = ["if x:"] ∧ (∀ line ∈ s.buffer.lines, Bare line) ∧ Bare s.buffer.current ∧
      isBlankLine s.buffer.current = false ∧
      ∀ outcomes, s.editBlock (fun text => .ok text) ≠ .ok (outcomes, s.finishByHand.2) := by
  have used : InUse (((start (.empty 10) 4 .none).push "if x:\n").2.setCurrent "  x = 2") :=
    ((InUse.start ..).push "if x:\n").setCurrent _
  generalize same : ((start (.empty 10) 4 .none).push "if x:\n").2.setCurrent "  x = 2" = s at used
  have lines : s.buffer.lines = ["if x:"] := by
    subst same
    decide +kernel
  have transcript : s.transcript = [.input .primary "if x:\n"] := by
    subst same
    decide +kernel
  have current : s.buffer.current = "  x = 2" := by
    subst same
    rfl
  have bare : ∀ line ∈ s.buffer.lines, Bare line := by
    rw [lines]
    unfold Bare
    decide
  have current' : Bare s.buffer.current := by
    rw [current]
    unfold Bare
    decide
  have visible : isBlankLine s.buffer.current = false := by
    rw [current]
    decide
  refine ⟨s, rfl, used, lines, bare, current', visible, fun outcomes answer => ?_⟩
  rw [editBlock_unchanged used bare current' visible] at answer
  obtain ⟨shown, onto⟩ := appends_finishByHand s
  rw [onto] at answer
  have sessions := congrArg Prod.snd (Except.ok.inj answer)
  have transcripts :=
    (congrArg Session.transcript sessions).trans (Appends.transcript finishByHand onto)
  have heads := List.append_cancel_right transcripts
  have interrupted : s.interrupt.transcript = [] := by
    simp [interrupt, Session.setCurrent, transcript, lines]
  rw [interrupted, lines, transcript] at heads
  exact absurd heads (by decide)

end Session

end Console
