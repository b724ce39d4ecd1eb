import Console.Proofs.History
import Console.Proofs.Session.Features

/-!
# Recalling last words

The word that a recall puts in stays at the end of the current line as long as it is remembered, as
whatever else changes the line forgets it. So each recall takes off what the one before it put there and
nothing else, and recalls one after the other go back entry by entry and stay at the oldest one.
-/

namespace Console

open Text

namespace History

variable {h : History}

/-- Units were appended to an empty history, one after the other. -/
def Appended (h : History) : Prop :=
  ∃ (capacity : Nat) (units : List String), h = units.foldl append (empty capacity)

/-- A history file is appended line by line. -/
theorem appended_load (file : String) (capacity : Nat) : (load file capacity).Appended := by
  refine ⟨capacity, (lines file.toList).map fun line => String.ofList (unescape line), ?_⟩
  rw [List.foldl_map]
  rfl

theorem Trimmed.append (trimmed : h.Trimmed) (unit : String) : (h.append unit).Trimmed := by
  by_cases visible : isVisible unit = true
  · have something : (trimEnd unit.toList).isEmpty = false := by simpa [isVisible] using visible
    unfold History.append
    dsimp only
    split
    · exact trimmed
    · intro entry mem
      rcases List.mem_append.1 mem with old | new
      · refine trimmed entry ?_
        split at old
        · exact List.mem_of_mem_tail old
        · exact old
      · exact ⟨unit, visible, List.mem_singleton.1 new⟩
  · rw [append_of_not_isVisible (Bool.eq_false_iff.2 visible)]
    exact trimmed

theorem Appended.trimmed (appended : h.Appended) : h.Trimmed := by
  obtain ⟨capacity, units, rfl⟩ := appended
  have empty : (empty capacity).Trimmed := by
    intro entry mem
    cases mem
  induction units using List.reverseRecOn with
  | nil => exact empty
  | append_singleton units unit ih =>
    rw [List.foldl_append]
    exact ih.append unit

/-- The last word of the entry `back` places before the newest, or no text if there is none. -/
def lastWordAt (h : History) (back : Nat) : String :=
  match (h.fromEnd? back).bind fun entry => lastWord? entry.toList with
  | some word => String.ofList word
  | none => ""

/-- Every entry has a last word, as it is not blank. -/
theorem Trimmed.exists_lastWordAt (trimmed : h.Trimmed) {back : Nat} (inside : back < h.size) :
    ∃ entry, h.fromEnd? back = some entry ∧ IsLastWord (h.lastWordAt back).toList entry.toList := by
  have bound : back < h.entries.reverse.length := by
    rw [List.length_reverse]
    exact inside
  have found : h.fromEnd? back = some h.entries.reverse[back] := List.getElem?_eq_getElem bound
  obtain ⟨unit, visible, entry⟩ := trimmed _ (List.mem_reverse.1 (List.getElem_mem bound))
  have shown : allBlank (h.entries.reverse[back]).toList = false := by
    rw [← isVisible_entryOf, isVisible_eq] at visible
    rw [entry]
    simpa using visible
  obtain ⟨word, last⟩ := exists_isLastWord shown
  refine ⟨_, found, ?_⟩
  rw [lastWordAt, found, Option.bind_some, last.lastWord?, String.toList_ofList]
  exact last

end History

namespace Recall

variable {h : History}

/-- What was put behind a line is taken off it again. -/
theorem withoutEnd_append (line word : String) : withoutEnd (line ++ word) word = line := by
  have ends : word.toList.isSuffixOf (line ++ word).toList = true := by
    rw [String.toList_append]
    exact List.isSuffixOf_iff_suffix.2 (List.suffix_append _ _)
  rw [withoutEnd, if_pos ends, String.toList_append, List.length_append, Nat.add_sub_cancel,
    List.take_left, String.ofList_toList]

theorem next_idle (held : 0 < h.size) (line : String) :
    idle.next h line = some (.inserted 0 (h.lastWordAt 0), line ++ h.lastWordAt 0) := by
  have nonempty : h.entries.isEmpty = false := by
    rw [List.isEmpty_eq_false_iff]
    exact List.ne_nil_of_length_pos held
  rw [next, nonempty, if_neg Bool.false_ne_true]
  rfl

/-- The word that is there gives way to that of the next older entry, if there is one. -/
theorem next_inserted (held : 0 < h.size) (back : Nat) (line word : String) :
    (inserted back word).next h (line ++ word) =
      some (.inserted (min (back + 1) (h.size - 1)) (h.lastWordAt (min (back + 1) (h.size - 1))),
        line ++ h.lastWordAt (min (back + 1) (h.size - 1))) := by
  have nonempty : h.entries.isEmpty = false := by
    rw [List.isEmpty_eq_false_iff]
    exact List.ne_nil_of_length_pos held
  rw [next, nonempty, if_neg Bool.false_ne_true]
  dsimp only
  rw [withoutEnd_append]
  rfl

end Recall

namespace Session

variable {s : Session}

/-- The session with the word of an entry behind a line. -/
def recalled (s : Session) (line : String) (back : Nat) : Session :=
  { s with
    cursor := .inserted back (s.history.lastWordAt back)
    buffer := s.buffer.setCurrent (line ++ s.history.lastWordAt back) }

theorem recallLastWord_eq_of_next {cursor : Recall} {line : String}
    (next : s.cursor.next s.history s.buffer.current = some (cursor, line)) :
    s.recallLastWord = { s with cursor, buffer := s.buffer.setCurrent line } := by
  unfold recallLastWord
  rw [next]

theorem recallLastWord_idle (idle : s.cursor = .idle) (held : 0 < s.history.size) :
    s.recallLastWord = s.recalled s.buffer.current 0 := by
  have next := Recall.next_idle held s.buffer.current
  rw [← idle] at next
  exact recallLastWord_eq_of_next next

theorem recallLastWord_recalled (held : 0 < s.history.size) (line : String) (back : Nat) :
    (s.recalled line back).recallLastWord =
      s.recalled line (min (back + 1) (s.history.size - 1)) := by
  have next := Recall.next_inserted held back line (s.history.lastWordAt back)
  exact recallLastWord_eq_of_next (s := s.recalled line back) next

/-- Every recall goes back one entry further, up to the oldest one. -/
theorem iterate_recallLastWord (idle : s.cursor = .idle) (held : 0 < s.history.size) (k : Nat) :
    recallLastWord^[k + 1] s = s.recalled s.buffer.current (min k (s.history.size - 1)) := by
  induction k with
  | zero =>
    rw [Nat.zero_min]
    exact recallLastWord_idle idle held
  | succ k ih =>
    have onward : min (min k (s.history.size - 1) + 1) (s.history.size - 1) =
        min (k + 1) (s.history.size - 1) := by omega
    rw [Function.iterate_succ_apply', ih, recallLastWord_recalled held, onward]

/-- The entries of the history hold words, and the word that is remembered ends the current line. -/
structure Recalling (s : Session) : Prop where
  trimmed : s.history.Trimmed
  word : ∀ back word, s.cursor = .inserted back word →
    word ≠ "" ∧ ∃ line, s.buffer.current = line ++ word

namespace Recalling

/-- Nothing is remembered. -/
theorem of_idle (trimmed : s.history.Trimmed) (idle : s.cursor = .idle) : s.Recalling := by
  refine ⟨trimmed, fun back word inserted => ?_⟩
  rw [idle] at inserted
  cases inserted

theorem recalled (trimmed : s.history.Trimmed) (line : String) {back : Nat}
    (inside : back < s.history.size) : (s.recalled line back).Recalling := by
  refine ⟨trimmed, fun _ _ inserted => ?_⟩
  cases inserted
  obtain ⟨entry, -, before, behind, -, nonempty, -⟩ := trimmed.exists_lastWordAt inside
  refine ⟨?_, line, rfl⟩
  intro nothing
  rw [nothing] at nonempty
  exact nonempty rfl

theorem recallLastWord (h : s.Recalling) : s.recallLastWord.Recalling := by
  by_cases held : 0 < s.history.size
  · cases cursor : s.cursor with
    | idle =>
      rw [recallLastWord_idle cursor held]
      exact recalled h.trimmed _ held
    | inserted back word =>
      obtain ⟨-, line, ends⟩ := h.word back word cursor
      have next := Recall.next_inserted held back line word
      rw [← cursor, ← ends] at next
      have same : s.recallLastWord = s.recalled line (min (back + 1) (s.history.size - 1)) :=
        recallLastWord_eq_of_next next
      rw [same]
      exact recalled h.trimmed line (by omega)
  · have nothing : s.history.entries = [] := by
      rw [← List.length_eq_zero_iff]
      exact Nat.eq_zero_of_not_pos held
    have same : s.recallLastWord = s := by
      unfold Session.recallLastWord Recall.next
      rw [nothing]
      rfl
    rwa [same]

/-- A line that is fed leaves nothing to remember, and at most its unit is new in the history. -/
theorem feed (h : s.Recalling) (recorded : Bool) (line : String) :
    (s.feed recorded line).2.Recalling := by
  have appended (unit : String) : (if (recorded && isWorthRecording unit) = true then
      s.history.append unit else s.history).Trimmed := by
    split
    · exact h.trimmed.append unit
    · exact h.trimmed
  rcases s.feed_cases recorded line with ⟨-, same⟩ | ⟨-, same | same⟩
  · rw [same]
    exact of_idle h.trimmed rfl
  · rw [same]
    exact of_idle (appended _) rfl
  · rw [same]
    exact of_idle h.trimmed rfl

theorem upheld : Upheld Recalling where
  feed recorded line h := h.feed recorded line
  interrupt h := of_idle h.trimmed rfl
  setCurrent _ h := of_idle h.trimmed rfl
  recallLastWord h := h.recallLastWord
  runScript _ h := ⟨h.trimmed, h.word⟩
  restarted h := ⟨h.trimmed, h.word⟩

end Recalling

/-- The sessions that any use of the console leads to, with histories that units were appended to. -/
inductive Logging : Session → Prop
  | start {history : History} (appended : history.Appended) (tabLength : Nat) (features : Features) :
    Logging (start history tabLength features)
  | withTabLength {s : Session} (tabLength : Nat) : Logging s → Logging { s with tabLength }
  | withFeatures {s : Session} (features : Features) :
    Logging s → Logging { s with features, initialFeatures := features }
  | operate {s : Session} (operation : Operation)
    (appended : ∀ history, operation = .withHistory history → history.Appended) :
    Logging s → Logging (s.operate operation)

theorem Logging.recalling (logging : Logging s) : s.Recalling := by
  induction logging with
  | start appended tabLength features => exact .of_idle appended.trimmed rfl
  | withTabLength tabLength _ ih => exact ⟨ih.trimmed, ih.word⟩
  | withFeatures features _ ih => exact ⟨ih.trimmed, ih.word⟩
  | operate operation appended _ ih =>
    refine Recalling.upheld.operate operation (fun history brought => ?_) ih
    exact ⟨(appended history brought).trimmed, ih.word⟩

/-- Recalls go back through the history. The first of them puts the last word of the newest entry behind
the line, each further one takes it off for the last word of the entry before, and from the oldest entry
on nothing changes any more. Whatever was done with a session, the word that it remembers ends its
current line, so that just this word is taken off. -/
theorem recalls_go_back_through_the_history {s : Session} (logging : Logging s) :
    (s.cursor = .idle → 0 < s.history.size → ∀ k, 0 < k →
      ∃ entry word : String,
        s.history.fromEnd? (min (k - 1) (s.history.size - 1)) = some entry ∧
        IsLastWord word.toList entry.toList ∧
        (recallLastWord^[k] s).buffer.current = s.buffer.current ++ word ∧
        recallLastWord^[k] s = { s with
          cursor := .inserted (min (k - 1) (s.history.size - 1)) word
          buffer := s.buffer.setCurrent (s.buffer.current ++ word) }) ∧
    ∀ back word, s.cursor = .inserted back word →
      word ≠ "" ∧ ∃ line, s.buffer.current = line ++ word ∧
        Recall.withoutEnd s.buffer.current word = line := by
  have recalling := logging.recalling
  constructor
  · intro idle held k pos
    obtain ⟨k, rfl⟩ := Nat.exists_eq_add_one.2 pos
    have inside : min k (s.history.size - 1) < s.history.size := by omega
    obtain ⟨entry, found, last⟩ := recalling.trimmed.exists_lastWordAt inside
    have same := iterate_recallLastWord idle held k
    exact ⟨entry, _, found, last, by rw [same]; rfl, same⟩
  · intro back word inserted
    obtain ⟨nonempty, line, ends⟩ := recalling.word back word inserted
    refine ⟨nonempty, line, ends, ?_⟩
    rw [ends]
    exact Recall.withoutEnd_append line word

/-- The line ends in the word of the newest entry, which ends that of the entry before. -/
theorem recalls_of_words_that_end_alike :
    ∃ s t, s = (start (History.load "x ab\nb\n" 10) 4 .none).setCurrent "ab" ∧
      t = (s.push "1").2.recallLastWord ∧ Logging s ∧ Logging t ∧
      s.cursor = .idle ∧ 0 < s.history.size ∧ 0 < 2 ∧
      (∃ entry word : String,
        s.history.fromEnd? (min (2 - 1) (s.history.size - 1)) = some entry ∧
        IsLastWord word.toList entry.toList ∧
        (recallLastWord^[2] s).buffer.current = s.buffer.current ++ word ∧
        recallLastWord^[2] s = { s with
          cursor := .inserted (min (2 - 1) (s.history.size - 1)) word
          buffer := s.buffer.setCurrent (s.buffer.current ++ word) }) ∧
      (recallLastWord^[2] s).buffer.current = "abab" ∧
      t.cursor = .inserted 0 "1" ∧ "1" ≠ "" ∧ ∃ line, t.buffer.current = line ++ "1" ∧
        Recall.withoutEnd t.buffer.current "1" = line := by
  have logging : Logging ((start (History.load "x ab\nb\n" 10) 4 .none).setCurrent "ab") :=
    .operate (.act (.setCurrent "ab")) nofun (.start (History.appended_load _ _) 4 .none)
  have pushed := logging.operate (.act (.push "1")) nofun
  have remembers := pushed.operate (.act .recallLastWord) nofun
  have held : 0 < ((start (History.load "x ab\nb\n" 10) 4 .none).setCurrent "ab").history.size := by
    decide +kernel
  have cursor : (((start (History.load "x ab\nb\n" 10) 4 .none).setCurrent "ab").push
      "1").2.recallLastWord.cursor = .inserted 0 "1" := by decide +kernel
  refine ⟨_, _, rfl, rfl, logging, remembers, rfl, held, by decide, ?_, by decide +kernel, cursor, ?_⟩
  · exact (recalls_go_back_through_the_history logging).1 rfl held 2 (by decide)
  · exact (recalls_go_back_through_the_history remembers).2 0 "1" cursor

end Session

end Console
