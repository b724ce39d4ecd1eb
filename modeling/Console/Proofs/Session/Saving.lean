import Console.Proofs.Session.File
import Console.Proofs.Text.Words

/-!
# Saving the session file unchanged

Whatever was typed and edited before, the typed lines in the transcript restore the session. So a
session file that is saved as it is leaves everything as it was.
-/

namespace Console

open Text

namespace Session

theorem Inline.append {first second : String} (inline : Inline first) (inline' : Inline second) :
    Inline (first ++ second) := by
  unfold Inline at inline inline' ⊢
  rw [String.toList_append, List.mem_append, not_or]
  exact ⟨inline, inline'⟩

theorem inline_withoutEnd {line : String} (inline : Inline line) (word : String) :
    Inline (Recall.withoutEnd line word) := by
  unfold Recall.withoutEnd
  split
  · unfold Inline
    rw [String.toList_ofList]
    exact fun mem => inline (List.mem_of_mem_take mem)
  · exact inline

/-- A recalled word stays in the line. -/
theorem inline_of_next {cursor cursor' : Recall} {history : History} {line line' : String}
    (inline : Inline line) (next : cursor.next history line = some (cursor', line')) :
    Inline line' := by
  unfold Recall.next at next
  split at next
  · cases next
  · obtain ⟨-, rfl⟩ := Prod.mk.inj (Option.some.inj next)
    refine Inline.append ?_ ?_
    · cases cursor with
      | idle => exact inline
      | inserted back word => exact inline_withoutEnd inline word
    · split
      · rename_i word found
        obtain ⟨entry, -, last⟩ := Option.bind_eq_some_iff.1 found
        simpa [Inline] using not_mem_of_lastWord last
      · exact inline_empty

/-- A session that its file restores. -/
structure Restorable (s : Session) : Prop where
  faithful : s.core.Faithful s.initialFeatures
  kept : ∀ e ∈ s.transcript, Kept e
  inline : Inline s.buffer.current

theorem initialFeatures_feed (s : Session) (recorded : Bool) (line : String) :
    (s.feed recorded line).2.initialFeatures = s.initialFeatures := by
  rcases s.feed_cases recorded line with ⟨-, same⟩ | ⟨-, same | same⟩ <;> rw [same] <;> rfl

theorem current_feed (s : Session) (recorded : Bool) (line : String) :
    (s.feed recorded line).2.buffer.current = "" := by
  rcases s.feed_cases recorded line with ⟨-, same⟩ | ⟨-, same | same⟩ <;> rw [same] <;> rfl

/-- What is replayed stays out of the history. -/
theorem history_feed (s : Session) (line : String) :
    (s.feed false line).2.history = s.history := by
  rcases s.feed_cases false line with ⟨-, same⟩ | ⟨-, same | same⟩ <;> rw [same] <;> rfl

theorem history_feedAll (s : Session) (lines : List String) :
    (s.feedAll false lines).2.history = s.history := by
  induction lines generalizing s with
  | nil => rfl
  | cons line lines ih => exact (ih _).trans (s.history_feed line)

theorem core_feedAll (s : Session) (recorded : Bool) (lines : List String) :
    (s.feedAll recorded lines).2.core = s.core.feedAll lines := by
  induction lines generalizing s with
  | nil => rfl
  | cons line lines ih =>
    have first := s.core_feed recorded line
    exact (ih _).trans (congrArg (Core.feedAll · lines) first)

namespace Restorable

variable {s : Session}

theorem start (history : History) (tabLength : Nat) (features : Features) :
    (start history tabLength features).Restorable :=
  ⟨.fresh, by simp [Session.start], inline_empty⟩

theorem feed (restorable : s.Restorable) (recorded : Bool) {line : String} (code : IsCode line) :
    (s.feed recorded line).2.Restorable := by
  refine ⟨?_, ?_, ?_⟩
  · rw [core_feed, initialFeatures_feed]
    exact restorable.faithful.feed line
  · obtain ⟨entries, transcript, shown, -⟩ := s.feed_enters recorded line
    intro e mem
    rw [transcript] at mem
    rcases List.mem_append.1 mem with mem | mem
    · exact restorable.kept e mem
    · rcases List.mem_cons.1 mem with rfl | mem
      · exact code
      · exact shown.kept e mem
  · rw [current_feed]
    exact inline_empty

theorem feedAll (restorable : s.Restorable) (recorded : Bool) {lines : List String}
    (code : ∀ line ∈ lines, IsCode line) : (s.feedAll recorded lines).2.Restorable := by
  induction lines generalizing s with
  | nil => exact restorable
  | cons line lines ih =>
    have first := restorable.feed recorded (code line (by simp))
    exact ih first fun line mem => code line (by simp [mem])

theorem close (restorable : s.Restorable) (recorded : Bool) (n : Nat) :
    (s.close recorded n).2.Restorable := by
  induction n generalizing s with
  | zero => exact restorable
  | succ n ih =>
    rw [close_succ]
    split
    · exact restorable
    · exact ih (restorable.feed recorded ⟨inline_empty, rfl⟩)

theorem interrupt (restorable : s.Restorable) : s.interrupt.Restorable := by
  refine ⟨restorable.faithful.settled, fun e mem => ?_, inline_empty⟩
  exact restorable.kept e (List.mem_of_mem_take mem)

theorem setCurrent (restorable : s.Restorable) {text : String} (inline : Inline text) :
    (s.setCurrent text).Restorable :=
  ⟨restorable.faithful, restorable.kept, inline⟩

theorem recallLastWord (restorable : s.Restorable) : s.recallLastWord.Restorable := by
  unfold Session.recallLastWord
  split
  · rename_i next
    exact ⟨restorable.faithful, restorable.kept, inline_of_next restorable.inline next⟩
  · exact restorable

theorem appendHistory (restorable : s.Restorable) (unit : String) :
    Restorable { s with history := s.history.append unit } :=
  ⟨restorable.faithful, restorable.kept, restorable.inline⟩

theorem editBlock (restorable : s.Restorable) {s' : Session} {editor : Editor}
    {outcomes : List Outcome} (edited : s.editBlock editor = .ok (outcomes, s'))
    (code : ∀ text, editor s.buffer.block = .ok text →
      ∀ line ∈ blockLines text, isComment line = false) : s'.Restorable := by
  obtain ⟨text, answer, rfl⟩ := editBlock_ok edited
  rw [replaceBlock_snd]
  refine (restorable.interrupt.feedAll true fun line mem => ?_).close true closingLines
  exact ⟨inline_of_mem_editedLines (mem_of_mem_blockLines mem), code text answer line mem⟩

theorem editSession (restorable : s.Restorable) {s' : Session} {editor : Editor}
    {replayed : Bool} (edited : s.editSession editor = .ok (replayed, s')) : s'.Restorable := by
  obtain ⟨text, -, replayed⟩ := editSession_ok edited
  obtain ⟨code, inline⟩ := isCode_ofText text
  cases blank : (SessionFile.ofText text).code.all isBlankLine with
  | true =>
    rw [replay_without_code blank] at replayed
    obtain rfl := congrArg Prod.snd replayed
    exact restorable
  | false =>
    rw [replay_of_code blank] at replayed
    obtain rfl := congrArg Prod.snd replayed
    have restarted : s.restarted.Restorable :=
      ⟨.fresh, by simp [Session.restarted], restorable.inline⟩
    exact ((restarted.feedAll false code).close false closingLines).setCurrent inline

end Restorable

/-- The sessions that typing and editing reach, when every line is a single line and no line that is
typed or fed from an edited block is a comment of session files. -/
inductive Reachable : Session → Prop
  | start (history : History) (tabLength : Nat) (features : Features) :
    Reachable (start history tabLength features)
  | push {s : Session} (line : String) :
    Reachable s → Inline line → isComment line = false → Reachable (s.push line).2
  | interrupt {s : Session} : Reachable s → Reachable s.interrupt
  | setCurrent {s : Session} (text : String) :
    Reachable s → Inline text → Reachable (s.setCurrent text)
  | recallLastWord {s : Session} : Reachable s → Reachable s.recallLastWord
  | appendHistory {s : Session} (unit : String) :
    Reachable s → Reachable { s with history := s.history.append unit }
  | editBlock {s s' : Session} {editor : Editor} {outcomes : List Outcome} :
    Reachable s → s.editBlock editor = .ok (outcomes, s') →
    (∀ text, editor s.buffer.block = .ok text →
      ∀ line ∈ blockLines text, isComment line = false) → Reachable s'
  | editSession {s s' : Session} {editor : Editor} {replayed : Bool} :
    Reachable s → s.editSession editor = .ok (replayed, s') → Reachable s'

theorem Reachable.restorable {s : Session} (reached : Reachable s) : s.Restorable := by
  induction reached with
  | start history tabLength features => exact .start history tabLength features
  | push line _ inline code ih => exact ih.feed true ⟨inline, code⟩
  | interrupt _ ih => exact ih.interrupt
  | setCurrent text _ inline ih => exact ih.setCurrent inline
  | recallLastWord _ ih => exact ih.recallLastWord
  | appendHistory unit _ ih => exact ih.appendHistory unit
  | editBlock _ edited code ih => exact ih.editBlock edited code
  | editSession _ edited ih => exact ih.editSession edited

/-- A session whose file is saved unchanged between two units stays as it was. -/
theorem unchanged_file_restores_session {s : Session} (reached : Reachable s)
    (between : s.buffer.isEmpty = true) :
    ∃ replayed s', s.editSession (fun text => .ok text) = .ok (replayed, s') ∧
      s'.machine = s.machine ∧ s'.transcript = s.transcript ∧ s'.features = s.features ∧
      s'.buffer = s.buffer ∧ s'.history = s.history := by
  obtain ⟨faithful, kept, inline⟩ := reached.restorable
  have file := ofText_toFile kept inline
  have edited : s.editSession (fun text => .ok text) =
      .ok (s.replay ⟨typed s.transcript, s.buffer.current⟩) := by
    rw [← file]
    rfl
  cases blank : (SessionFile.mk (typed s.transcript) s.buffer.current).code.all isBlankLine with
  | true =>
    rw [replay_without_code blank] at edited
    exact ⟨false, s, edited, rfl, rfl, rfl, rfl, rfl⟩
  | false =>
    rw [replay_of_code blank] at edited
    refine ⟨true, _, edited, ?_⟩
    have core := s.restarted.core_feedAll false (typed s.transcript)
    have history := s.restarted.history_feedAll (typed s.transcript)
    dsimp only
    generalize (s.restarted.feedAll false (typed s.transcript)).2 = t at core history ⊢
    have core : t.core = s.core := core.trans faithful.whole
    have lines : t.buffer.lines = s.buffer.lines := congrArg Core.lines core
    have closed : (t.close false closingLines).2 = t := by
      rw [closingLines, close_succ, if_pos]
      rw [LineBuffer.isEmpty, lines]
      exact between
    rw [closed]
    exact ⟨congrArg Core.machine core, congrArg Core.transcript core,
      congrArg Core.features core, congrArg (LineBuffer.mk · s.buffer.current) lines, history⟩

theorem unchanged_file_restores_assignment :
    ∃ s, s = (((start (.empty 10) 4 .none).push "if x:").2.interrupt.push "x = 1").2.setCurrent "y" ∧
      s.buffer.isEmpty = true ∧ ∃ replayed s',
        s.editSession (fun text => .ok text) = .ok (replayed, s') ∧
        s'.machine = s.machine ∧ s'.transcript = s.transcript ∧ s'.features = s.features ∧
        s'.buffer = s.buffer ∧ s'.history = s.history := by
  have header : Reachable ((start (.empty 10) 4 .none).push "if x:").2 :=
    (Reachable.start ..).push "if x:" (by unfold Inline; decide) (by decide)
  have assignment := header.interrupt.push "x = 1" (by unfold Inline; decide) (by decide)
  have reached := assignment.setCurrent "y" (by unfold Inline; decide)
  have between : ((((start (.empty 10) 4 .none).push "if x:").2.interrupt.push "x = 1").2.setCurrent
    "y").buffer.isEmpty = true := by decide +kernel
  exact ⟨_, rfl, between, unchanged_file_restores_session reached between⟩

end Session

end Console
