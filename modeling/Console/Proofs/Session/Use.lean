import Console.Proofs.Session.Closing

/-!
# Sessions in use

The sessions that typing, scripts and editing lead to. What starting a session makes true, and every
operation keeps, holds of all of them. What is done at the prompt alone is a list of actions, and each
action is answered by an event.
-/

namespace Console

namespace Session

/-- The sessions that any use of the console leads to. An editor that gives no text leaves its session
as it was. -/
inductive InUse : Session → Prop
  | start (history : History) (tabLength : Nat) (features : Features) :
    InUse (start history tabLength features)
  | push {s : Session} (line : String) : InUse s → InUse (s.push line).2
  | interrupt {s : Session} : InUse s → InUse s.interrupt
  | setCurrent {s : Session} (text : String) : InUse s → InUse (s.setCurrent text)
  | recallLastWord {s : Session} : InUse s → InUse s.recallLastWord
  | withHistory {s : Session} (history : History) : InUse s → InUse { s with history }
  | runScript {s : Session} (source : String) : InUse s → InUse (s.runScript source).2
  | editBlock {s s' : Session} {editor : Editor} {outcomes : List Outcome} :
    InUse s → s.editBlock editor = .ok (outcomes, s') → InUse s'
  | editSession {s s' : Session} {editor : Editor} {replayed : Bool} :
    InUse s → s.editSession editor = .ok (replayed, s') → InUse s'

/-- A property of sessions that their operations keep, as long as no other history is brought in. -/
structure Upheld (P : Session → Prop) : Prop where
  feed : ∀ {s : Session} (recorded : Bool) (line : String), P s → P (s.feed recorded line).2
  interrupt : ∀ {s : Session}, P s → P s.interrupt
  setCurrent : ∀ {s : Session} (text : String), P s → P (s.setCurrent text)
  recallLastWord : ∀ {s : Session}, P s → P s.recallLastWord
  runScript : ∀ {s : Session} (source : String), P s → P (s.runScript source).2
  restarted : ∀ {s : Session}, P s → P s.restarted

/-- A property of sessions that all their operations keep. -/
structure Lasting (P : Session → Prop) : Prop extends Upheld P where
  withHistory : ∀ {s : Session} (history : History), P s → P { s with history }

namespace Upheld

variable {P : Session → Prop} (upheld : Upheld P) {s s' : Session} {editor : Editor}
include upheld

theorem feedAll (recorded : Bool) (lines : List String) (holds : P s) :
    P (s.feedAll recorded lines).2 := by
  induction lines generalizing s with
  | nil => exact holds
  | cons line lines ih => exact ih (upheld.feed recorded line holds)

theorem close (recorded : Bool) (n : Nat) (holds : P s) : P (s.close recorded n).2 := by
  induction n generalizing s with
  | zero => exact holds
  | succ n ih =>
    rw [close_succ]
    split
    · exact holds
    · exact ih (upheld.feed recorded "" holds)

theorem editBlock {outcomes : List Outcome} (edited : s.editBlock editor = .ok (outcomes, s'))
    (holds : P s) : P s' := by
  obtain ⟨text, -, rfl⟩ := editBlock_ok edited
  rw [replaceBlock_snd]
  apply upheld.close
  apply upheld.feedAll
  exact upheld.interrupt holds

theorem editSession {replayed : Bool} (edited : s.editSession editor = .ok (replayed, s'))
    (holds : P s) : P s' := by
  obtain ⟨text, -, same⟩ := editSession_ok edited
  cases code : (SessionFile.ofText text).code.all isBlankLine with
  | true =>
    rw [replay_without_code code] at same
    obtain rfl := congrArg Prod.snd same
    exact holds
  | false =>
    rw [replay_of_code code] at same
    obtain rfl := congrArg Prod.snd same
    apply upheld.setCurrent
    apply upheld.close
    apply upheld.feedAll
    exact upheld.restarted holds

end Upheld

theorem InUse.keeps {P : Session → Prop} (lasting : Lasting P)
    (begins : ∀ history tabLength features, P (Session.start history tabLength features))
    {s : Session} (used : InUse s) : P s := by
  induction used with
  | start history tabLength features => exact begins history tabLength features
  | push line _ ih => exact lasting.feed true line ih
  | interrupt _ ih => exact lasting.interrupt ih
  | setCurrent text _ ih => exact lasting.setCurrent text ih
  | recallLastWord _ ih => exact lasting.recallLastWord ih
  | withHistory history _ ih => exact lasting.withHistory history ih
  | runScript source _ ih => exact lasting.runScript source ih
  | editBlock _ edited ih => exact lasting.editBlock edited ih
  | editSession _ edited ih => exact lasting.editSession edited ih

/-- What is done at the prompt. -/
inductive Action
  | push (line : String)
  | interrupt
  | setCurrent (text : String)
  | recallLastWord

/-- What an action did. -/
inductive Event
  /-- A line was pushed and got an answer. -/
  | answered (line : String) (outcome : Outcome)
  /-- The unit being typed was dropped, with so many lines. -/
  | dropped (count : Nat)
  /-- Only the current line changed. -/
  | edited

def act (s : Session) : Action → Event × Session
  | .push line => (.answered line (s.push line).1, (s.push line).2)
  | .interrupt => (.dropped s.buffer.lines.length, s.interrupt)
  | .setCurrent text => (.edited, s.setCurrent text)
  | .recallLastWord => (.edited, s.recallLastWord)

/-- The events of one action after the other, and the session that they lead to. -/
def perform (s : Session) : List Action → List Event × Session
  | [] => ([], s)
  | action :: rest =>
    ((s.act action).1 :: ((s.act action).2.perform rest).1, ((s.act action).2.perform rest).2)

/-- The text that the buffer holds once a line is pushed. -/
def pushedText (s : Session) (line : String) : String := "\n".intercalate (s.pushed line)

theorem feed_eq (s : Session) (recorded : Bool) (line : String) :
    s.feed recorded line =
      match Completeness.classify (s.pushedText line) with
      | .needsMore => (.needsMore (Indent.predict line.toList s.tabLength), s.entered line)
      | .finished => (s.entered line).runUnit recorded (s.pushedText line)
      | .rejected => (s.entered line).rejectUnit (s.pushedText line) := rfl

theorem recallLastWord_eq (s : Session) : ∃ cursor current,
    s.recallLastWord = { s with cursor, buffer := s.buffer.setCurrent current } := by
  unfold recallLastWord
  split
  · exact ⟨_, _, rfl⟩
  · exact ⟨s.cursor, s.buffer.current, rfl⟩

end Session

end Console
