import Console.Proofs.Session.Closing

/-!
# A session as its typed lines

What a replay restores is the core of a session: machine, features, transcript and the lines of the
unit being typed. Each fed line changes the core in a way that depends on nothing else, so the core is
at all times what the typed lines in its transcript make of a fresh one.
-/

namespace Console

open Completeness

namespace Session

/-- What a replay restores. -/
structure Core where
  machine : Machine
  features : Features
  transcript : List Entry
  lines : List String

def core (s : Session) : Core := ⟨s.machine, s.features, s.transcript, s.buffer.lines⟩

namespace Core

def fresh (features : Features) : Core := ⟨.fresh, features, [], []⟩

/-- A session around a core. -/
def session (c : Core) : Session :=
  ⟨c.machine, ⟨c.lines, ""⟩, .empty 0, .idle, c.features, .none, c.transcript, 0⟩

/-- The core once a line is fed. -/
def feed (c : Core) (line : String) : Core := (c.session.feed false line).2.core

def feedAll (c : Core) (lines : List String) : Core := lines.foldl feed c

end Core

/-- A fed line changes the core of a session as it changes that core in any session. -/
theorem core_feed (s : Session) (recorded : Bool) (line : String) :
    (s.feed recorded line).2.core = s.core.feed line := by
  have unit : ((s.buffer.push line).setCurrent "").text = "\n".intercalate (s.pushed line) := rfl
  have unit' : ((s.core.session.buffer.push line).setCurrent "").text =
      "\n".intercalate (s.pushed line) := rfl
  unfold Core.feed feed
  dsimp only
  rw [unit, unit']
  cases classify ("\n".intercalate (s.pushed line)) <;> rfl

/-- Lines shown by a program. -/
def Shown (entries : List Entry) : Prop :=
  ∀ e ∈ entries, ∃ text : String, e = .output text ∧ '\n' ∉ text.toList

theorem transcript_recordOutput (s : Session) (text : String) :
    ∃ entries, (s.recordOutput text).transcript = s.transcript ++ entries ∧ Shown entries := by
  refine ⟨_, rfl, fun e mem => ?_⟩
  obtain ⟨line, inside, rfl⟩ := List.mem_map.1 mem
  exact ⟨_, rfl, by simpa using not_mem_of_mem_lines inside⟩

theorem runUnit_shows (s : Session) (recorded : Bool) (unit : String) :
    ∃ entries, (s.runUnit recorded unit).2.transcript = s.transcript ++ entries ∧ Shown entries := by
  obtain ⟨out, same, shown⟩ := transcript_recordOutput s (s.machine.execute unit s.features).1.stdout
  obtain ⟨err, same', shown'⟩ := transcript_recordOutput
    (s.recordOutput (s.machine.execute unit s.features).1.stdout)
    (s.machine.execute unit s.features).1.stderr
  refine ⟨out ++ err, ?_, fun e mem => ?_⟩
  · rw [same, List.append_assoc] at same'
    exact same'
  · rcases List.mem_append.1 mem with mem | mem
    · exact shown e mem
    · exact shown' e mem

theorem rejectUnit_shows (s : Session) (unit : String) :
    ∃ entries, (s.rejectUnit unit).2.transcript = s.transcript ++ entries ∧ Shown entries :=
  transcript_recordOutput { s with buffer := s.buffer.clear } _

/-- A fed line is put into the transcript, what it shows behind it. It either ends the unit, or waits
for more lines and shows nothing. -/
theorem feed_enters (s : Session) (recorded : Bool) (line : String) :
    ∃ entries, (s.feed recorded line).2.transcript =
        s.transcript ++ .input s.prompt line :: entries ∧ Shown entries ∧
      ((s.feed recorded line).2.buffer.lines = [] ∨
        entries = [] ∧ (s.feed recorded line).2.buffer.lines.length = s.buffer.lines.length + 1 ∧
          (s.feed recorded line).2.machine = s.machine ∧
          (s.feed recorded line).2.features = s.features) := by
  rcases s.feed_cases recorded line with ⟨-, same⟩ | ⟨-, same | same⟩
  · rw [same]
    exact ⟨[], rfl, by simp [Shown], .inr ⟨rfl, by simp [entered, LineBuffer.push,
      LineBuffer.setCurrent], rfl, rfl⟩⟩
  · obtain ⟨entries, transcript, shown⟩ := runUnit_shows (s.entered line) recorded
      ("\n".intercalate (s.pushed line))
    rw [same]
    exact ⟨entries, by rw [transcript]; simp [entered], shown, .inl rfl⟩
  · obtain ⟨entries, transcript, shown⟩ := rejectUnit_shows (s.entered line)
      ("\n".intercalate (s.pushed line))
    rw [same]
    exact ⟨entries, by rw [transcript]; simp [entered], shown, .inl rfl⟩

/-- The lines that were typed. -/
def typed (entries : List Entry) : List String :=
  entries.filterMap fun
    | .input _ code => some code
    | .output _ => none

theorem typed_append (first second : List Entry) :
    typed (first ++ second) = typed first ++ typed second :=
  List.filterMap_append

theorem typed_entered (prompt : Prompt) (line : String) {entries : List Entry}
    (shown : Shown entries) : typed (.input prompt line :: entries) = [line] := by
  have untyped : typed entries = [] := by
    refine List.filterMap_eq_nil_iff.2 fun e mem => ?_
    obtain ⟨text, rfl, -⟩ := shown e mem
    rfl
  unfold typed at untyped ⊢
  rw [List.filterMap_cons, untyped]

namespace Core

theorem feedAll_append (c : Core) (first second : List String) :
    c.feedAll (first ++ second) = (c.feedAll first).feedAll second :=
  List.foldl_append

/-- The core without the unit being typed. -/
def settled (c : Core) : Core :=
  { c with transcript := c.transcript.take (c.transcript.length - c.lines.length), lines := [] }

/-- What the typed lines in a transcript make of a fresh core. -/
def replayed (features : Features) (transcript : List Entry) : Core :=
  (fresh features).feedAll (typed transcript)

/-- A core that its typed lines restore, both with the unit being typed and without it. -/
structure Faithful (features : Features) (c : Core) : Prop where
  whole : replayed features c.transcript = c
  before : replayed features c.settled.transcript = c.settled
  /-- The lines of the unit being typed are the last ones in the transcript. -/
  pending : c.lines.length ≤ c.transcript.length

theorem settled_of_nil {c : Core} (nothing : c.lines = []) : c.settled = c := by
  obtain ⟨machine, features, transcript, lines⟩ := c
  obtain rfl : lines = [] := nothing
  simp [settled]

namespace Faithful

variable {features : Features} {c : Core}

theorem fresh : (Core.fresh features).Faithful features :=
  ⟨rfl, rfl, Nat.le_refl 0⟩

theorem settled (faithful : c.Faithful features) : c.settled.Faithful features := by
  have same : c.settled.settled = c.settled := settled_of_nil rfl
  exact ⟨faithful.before, by rw [same]; exact faithful.before, Nat.zero_le _⟩

theorem feed (faithful : c.Faithful features) (line : String) :
    (c.feed line).Faithful features := by
  obtain ⟨entries, transcript, shown, ending⟩ := c.session.feed_enters false line
  change (c.feed line).transcript = c.transcript ++ _ at transcript
  have whole : replayed features (c.feed line).transcript = c.feed line := by
    have again : replayed features c.transcript = c := faithful.whole
    unfold replayed at again ⊢
    rw [transcript, typed_append, typed_entered _ line shown, feedAll_append, again]
    rfl
  rcases ending with nothing | ⟨rfl, more, machine, features'⟩
  · change (c.feed line).lines = [] at nothing
    refine ⟨whole, ?_, ?_⟩
    · rw [settled_of_nil nothing, whole]
    · rw [nothing]
      exact Nat.zero_le _
  · -- The line waits, so what lies before the unit is what lay before it.
    change (c.feed line).lines.length = c.lines.length + 1 at more
    change (c.feed line).machine = c.machine at machine
    change (c.feed line).features = c.features at features'
    have length : (c.feed line).transcript.length = c.transcript.length + 1 := by
      rw [transcript]
      simp
    have same : (c.feed line).settled = c.settled := by
      unfold Core.settled
      have bound := Nat.sub_le c.transcript.length c.lines.length
      rw [length, more, machine, features', transcript, Nat.add_sub_add_right,
        List.take_append_of_le_length bound]
    have pending := faithful.pending
    exact ⟨whole, by rw [same]; exact faithful.before, by omega⟩

end Faithful

end Core

end Session

end Console
