import Console.Proofs.Completeness
import Console.Session.Editing

/-!
# Closing a unit

A line that is fed stays in the buffer as long as more lines are needed, and clears the buffer
otherwise. So the two empty lines that close a unit leave nothing in the buffer, unless a bracket or
a literal is open.
-/

namespace Console

open Completeness

namespace Session

/-- The lines of the buffer once a line is pushed. -/
def pushed (s : Session) (line : String) : List String :=
  s.buffer.lines ++ [LineBuffer.withoutLineEnd line]

/-- The session that waits behind a line. -/
def entered (s : Session) (line : String) : Session :=
  { s with
    transcript := s.transcript ++ [.input s.prompt line]
    buffer := (s.buffer.push line).setCurrent ""
    cursor := .idle }

/-- A line that is fed leaves the unit waiting, or the unit is run or dropped. -/
theorem feed_cases (s : Session) (recorded : Bool) (line : String) :
    (classify ("\n".intercalate (s.pushed line)) = .needsMore ∧
      (s.feed recorded line).2 = s.entered line) ∨
    classify ("\n".intercalate (s.pushed line)) ≠ .needsMore ∧
      ((s.feed recorded line).2 =
          ((s.entered line).runUnit recorded ("\n".intercalate (s.pushed line))).2 ∨
        (s.feed recorded line).2 =
          ((s.entered line).rejectUnit ("\n".intercalate (s.pushed line))).2) := by
  have unit : ((s.buffer.push line).setCurrent "").text = "\n".intercalate (s.pushed line) := rfl
  unfold feed
  dsimp only
  rw [unit]
  cases classify ("\n".intercalate (s.pushed line)) with
  | needsMore => exact .inl ⟨rfl, rfl⟩
  | finished => exact .inr ⟨nofun, .inl rfl⟩
  | rejected => exact .inr ⟨nofun, .inr rfl⟩

theorem lines_feed (s : Session) (recorded : Bool) (line : String) :
    (s.feed recorded line).2.buffer.lines =
      if classify ("\n".intercalate (s.pushed line)) = .needsMore then s.pushed line else [] := by
  rcases s.feed_cases recorded line with ⟨waits, same⟩ | ⟨ends, same | same⟩
  · rw [same, if_pos waits]
    rfl
  · rw [same, if_neg ends]
    rfl
  · rw [same, if_neg ends]
    rfl

/-- What a line leaves in the buffer are the lines that need more. -/
theorem left_of_feed {s : Session} {recorded : Bool} {line : String}
    (left : (s.feed recorded line).2.buffer.isEmpty = false) :
    (s.feed recorded line).2.buffer.lines = s.pushed line ∧
      classify ("\n".intercalate (s.pushed line)) = .needsMore := by
  unfold LineBuffer.isEmpty at left
  rw [lines_feed] at left ⊢
  split at left
  · rename_i waits
    rw [if_pos waits]
    exact ⟨rfl, waits⟩
  · cases left

theorem close_zero (s : Session) (recorded : Bool) : (s.close recorded 0).2 = s := rfl

theorem close_succ (s : Session) (recorded : Bool) (n : Nat) :
    (s.close recorded (n + 1)).2 =
      if s.buffer.isEmpty = true then s else ((s.feed recorded "").2.close recorded n).2 := by
  rw [close]
  split <;> rfl

/-- The empty lines that close a unit leave a text in the buffer only inside brackets or quotes. -/
theorem open_of_close (s : Session) (recorded : Bool)
    (left : (s.close recorded closingLines).2.buffer.isEmpty = false) :
    LexicallyOpen (s.close recorded closingLines).2.buffer.text := by
  rw [closingLines, close_succ] at left ⊢
  by_cases nothing : s.buffer.isEmpty = true
  · rw [if_pos nothing, nothing] at left
    cases left
  · rw [if_neg nothing] at left ⊢
    generalize first : (s.feed recorded "").2 = s₁ at left ⊢
    rw [close_succ] at left ⊢
    by_cases nothing₁ : s₁.buffer.isEmpty = true
    · rw [if_pos nothing₁, nothing₁] at left
      cases left
    · rw [if_neg nothing₁, close_zero] at left ⊢
      -- Both empty lines stay, so the text ends in two blank lines and still needs more.
      have left₁ : (s.feed recorded "").2.buffer.isEmpty = false := by
        rw [first]
        simpa using nothing₁
      obtain ⟨lines₁, -⟩ := left_of_feed left₁
      obtain ⟨lines₂, waits⟩ := left_of_feed left
      have empty : LineBuffer.withoutLineEnd "" = "" := rfl
      have lines : s₁.pushed "" = s.buffer.lines ++ ["", ""] := by
        rw [first] at lines₁
        rw [pushed, lines₁, pushed, empty, List.append_assoc]
        rfl
      rw [LineBuffer.text, lines₂]
      rw [lines] at waits ⊢
      have nonempty : s.buffer.lines ≠ [] := by simpa [LineBuffer.isEmpty] using nothing
      exact (classify_eq_needsMore (endsWithTwoBlankLines_intercalate nonempty)).1 waits

/-- The lines of an edited block that are fed. -/
def blockLines (text : String) : List String :=
  ((editedLines text).reverse.dropWhile isBlankLine).reverse

theorem replaceBlock_snd (s : Session) (text : String) :
    (s.replaceBlock text).2 =
      ((s.interrupt.feedAll true (blockLines text)).2.close true closingLines).2 := by
  unfold replaceBlock
  rfl

theorem isEmpty_setCurrent (s : Session) (text : String) :
    (s.setCurrent text).buffer.isEmpty = s.buffer.isEmpty := rfl

theorem text_setCurrent (s : Session) (text : String) :
    (s.setCurrent text).buffer.text = s.buffer.text := rfl

/-- The session that a replay starts from. -/
def restarted (s : Session) : Session :=
  { s with
    machine := .fresh, features := s.initialFeatures, transcript := []
    buffer := s.buffer.clear }

theorem replay_of_code {file : SessionFile} (code : file.code.all isBlankLine = false)
    (s : Session) :
    s.replay file = (true, ((s.restarted.feedAll false file.code).2.close false
      closingLines).2.setCurrent file.current) := by
  unfold replay
  rw [if_neg (by rw [code]; decide)]
  rfl

theorem replay_without_code {file : SessionFile} (code : file.code.all isBlankLine = true)
    (s : Session) : s.replay file = (false, s) := by
  unfold replay
  rw [if_pos code]

theorem editBlock_ok {s s' : Session} {editor : Editor} {outcomes : List Outcome}
    (edited : s.editBlock editor = .ok (outcomes, s')) :
    ∃ text, editor s.buffer.block = .ok text ∧ s' = (s.replaceBlock text).2 := by
  unfold editBlock at edited
  cases answer : editor s.buffer.block with
  | error fault =>
    rw [answer] at edited
    cases edited
  | ok text =>
    rw [answer] at edited
    exact ⟨text, rfl, (congrArg Prod.snd (Except.ok.inj edited)).symm⟩

theorem editSession_ok {s s' : Session} {editor : Editor} {replayed : Bool}
    (edited : s.editSession editor = .ok (replayed, s')) :
    ∃ text, editor s.toFile = .ok text ∧ s.replay (.ofText text) = (replayed, s') := by
  unfold editSession at edited
  cases answer : editor s.toFile with
  | error fault =>
    rw [answer] at edited
    cases edited
  | ok text =>
    rw [answer] at edited
    exact ⟨text, rfl, Except.ok.inj edited⟩

theorem open_of_editBlock {s s' : Session} {editor : Editor} {outcomes : List Outcome}
    (edited : s.editBlock editor = .ok (outcomes, s')) (left : s'.buffer.isEmpty = false) :
    LexicallyOpen s'.buffer.text := by
  obtain ⟨text, -, rfl⟩ := editBlock_ok edited
  rw [replaceBlock_snd] at left ⊢
  exact open_of_close _ true left

theorem open_of_editSession {s s' : Session} {editor : Editor}
    (edited : s.editSession editor = .ok (true, s')) (left : s'.buffer.isEmpty = false) :
    LexicallyOpen s'.buffer.text := by
  obtain ⟨text, -, replayed⟩ := editSession_ok edited
  cases code : (SessionFile.ofText text).code.all isBlankLine with
  | true =>
    rw [replay_without_code code] at replayed
    cases replayed
  | false =>
    rw [replay_of_code code] at replayed
    obtain rfl := congrArg Prod.snd replayed
    rw [isEmpty_setCurrent] at left
    rw [text_setCurrent]
    exact open_of_close _ false left

/-- Two blank lines end every text outside of brackets and quotes. So a session that has closed a unit
holds text only inside of them, whether it closed an edited unit or a replay. -/
theorem two_blank_lines_end_a_unit :
    (∀ text, endsWithTwoBlankLines text = true →
      (classify text = .needsMore ↔ LexicallyOpen text) ∧
      (¬ LexicallyOpen text → classify text = .finished ∨ classify text = .rejected)) ∧
    (∀ (s : Session) (recorded : Bool),
      (s.close recorded closingLines).2.buffer.isEmpty = false →
      LexicallyOpen (s.close recorded closingLines).2.buffer.text) ∧
    (∀ (s s' : Session) (editor : Editor) (outcomes : List Outcome),
      s.editBlock editor = .ok (outcomes, s') → s'.buffer.isEmpty = false →
      LexicallyOpen s'.buffer.text) ∧
    ∀ (s s' : Session) (editor : Editor), s.editSession editor = .ok (true, s') →
      s'.buffer.isEmpty = false → LexicallyOpen s'.buffer.text := by
  refine ⟨fun text two => ⟨classify_eq_needsMore two, fun shut => ?_⟩,
    fun s recorded => open_of_close s recorded,
    fun s s' editor outcomes => open_of_editBlock, fun s s' editor => open_of_editSession⟩
  cases answer : classify text with
  | needsMore => exact absurd ((classify_eq_needsMore two).1 answer) shut
  | finished => exact .inl rfl
  | rejected => exact .inr rfl

theorem open_bracket_outlasts_blank_lines :
    endsWithTwoBlankLines "f(\n\n" = true ∧ LexicallyOpen "f(\n\n" ∧
    (((start (.empty 0) 4 .none).push "f(").2.close true closingLines).2.buffer.isEmpty = false ∧
    LexicallyOpen
      (((start (.empty 0) 4 .none).push "f(").2.close true closingLines).2.buffer.text ∧
    (∃ outcomes s', (start (.empty 0) 4 .none).editBlock (fun _ => .ok "f(") =
      .ok (outcomes, s') ∧ s'.buffer.isEmpty = false ∧ LexicallyOpen s'.buffer.text) ∧
    ∃ s', (start (.empty 0) 4 .none).editSession (fun _ => .ok "f(") = .ok (true, s') ∧
      s'.buffer.isEmpty = false ∧ LexicallyOpen s'.buffer.text := by
  have two : endsWithTwoBlankLines "f(\n\n" = true := by decide +kernel
  have waits : classify "f(\n\n" = .needsMore := by decide +kernel
  have left : (((start (.empty 0) 4 .none).push "f(").2.close true
      closingLines).2.buffer.isEmpty = false := by decide +kernel
  have edited : (start (.empty 0) 4 .none).editBlock (fun _ => .ok "f(") =
    .ok ((start (.empty 0) 4 .none).replaceBlock "f(") := rfl
  have left' : ((start (.empty 0) 4 .none).replaceBlock "f(").2.buffer.isEmpty = false := by
    decide +kernel
  have code : (SessionFile.ofText "f(").code.all isBlankLine = false := by decide +kernel
  have restored : (start (.empty 0) 4 .none).editSession (fun _ => .ok "f(") =
    .ok ((start (.empty 0) 4 .none).replay (.ofText "f(")) := rfl
  have left'' : ((start (.empty 0) 4 .none).replay (.ofText "f(")).2.buffer.isEmpty = false := by
    decide +kernel
  rw [replay_of_code code] at restored left''
  obtain ⟨texts, sessions, blocks, files⟩ := two_blank_lines_end_a_unit
  exact ⟨two, (texts _ two).1.1 waits, left, sessions _ _ left,
    ⟨_, _, edited, left', blocks _ _ _ _ edited left'⟩,
    _, restored, left'', files _ _ _ restored left''⟩

end Session

end Console
