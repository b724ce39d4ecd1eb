import Console.CommandWords
import Mathlib.Tactic.Common

/-!
# Quoted words

A word is quoted by a backslash before each of its characters, by double quotes, or by single quotes.
Splitting a command takes off what quoting has put on, however the words were quoted and whatever
blanks stand between them.
-/

namespace Console.CommandWords

open Text

/-- The ways to quote a word. -/
inductive Quoting
  | backslashes
  | double
  | single
  deriving DecidableEq, Repr

/-- A character between double quotes: those that mean something there stand behind a backslash. -/
def inDouble (c : Char) : List Char := if c = '\x22' ∨ c = '\\' then ['\\', c] else [c]

namespace Quoting

/-- The words that can be quoted so. Backslashes leave no trace of an empty word, and between single
quotes nothing stands for a single quote. -/
def Fits : Quoting → List Char → Prop
  | .backslashes, word => word ≠ []
  | .double, _ => True
  | .single, word => '\x27' ∉ word

def write : Quoting → List Char → List Char
  | .backslashes, word => word.flatMap fun c => ['\\', c]
  | .double, word => '\x22' :: (word.flatMap inDouble ++ ['\x22'])
  | .single, word => '\x27' :: (word ++ ['\x27'])

end Quoting

/-- The text consists of these texts with blanks before each, and perhaps behind the last. -/
inductive GoesOn : List (List Char) → List Char → Prop
  | ends (blanks : List Char) (blank : allBlank blanks = true) : GoesOn [] blanks
  | next (gap : List Char) {text rest : List Char} {texts : List (List Char)}
    (blank : allBlank gap = true) (apart : gap ≠ []) (more : GoesOn texts rest) :
    GoesOn (text :: texts) (gap ++ (text ++ rest))

/-- The command consists of these texts with blanks between them, and perhaps at both ends. -/
inductive Joined : List (List Char) → List Char → Prop
  | nothing (blanks : List Char) (blank : allBlank blanks = true) : Joined [] blanks
  | first (before : List Char) {text rest : List Char} {texts : List (List Char)}
    (blank : allBlank before = true) (more : GoesOn texts rest) :
    Joined (text :: texts) (before ++ (text ++ rest))

namespace Reader

variable {r : Reader}

/-- Puts a text behind the word begun. -/
def addText (r : Reader) (text : List Char) : Reader :=
  { r with word := some (text.reverse ++ r.word.getD []) }

theorem addText_addChar (r : Reader) (c : Char) (text : List Char) :
    (r.addChar c).addText text = r.addText (c :: text) := by
  simp [addText, addChar]

theorem addText_nil (begun : r.word.isSome = true) : r.addText [] = r := by
  obtain ⟨mark, word, done⟩ := r
  cases word with
  | none => cases begun
  | some word => rfl

theorem endWord_addText (idle : r.word = none) (text : List Char) :
    (r.addText text).endWord.done = String.ofList text :: r.done := by
  simp [addText, endWord, idle]

theorem endWord_idle (idle : r.word = none) : r.endWord = r := by
  unfold endWord
  rw [idle]

theorem word_endWord (r : Reader) : r.endWord.word = none := by
  unfold endWord
  split
  · rfl
  · assumption

theorem mark_endWord (r : Reader) : r.endWord.mark = r.mark := by
  unfold endWord
  split <;> rfl

end Reader

variable {r : Reader}

theorem readFrom_escaped {c : Char} (outside : r.mark = none) (rest : List Char) :
    readFrom r ('\\' :: c :: rest) = readFrom (r.addChar c) rest := by
  rw [readFrom]
  simp [outside]

theorem readFrom_opens {q : Char} (outside : r.mark = none) (quote : q = '\x27' ∨ q = '\x22')
    (rest : List Char) : readFrom r (q :: rest) = readFrom { r.beginWord with mark := some q } rest := by
  rw [readFrom.eq_def]
  rcases quote with rfl | rfl <;> simp [outside]

theorem readFrom_closes {q : Char} (inside : r.mark = some q) (rest : List Char) :
    readFrom r (q :: rest) = readFrom { r with mark := none } rest := by
  rw [readFrom.eq_def]
  simp [inside]

theorem readFrom_backslashes {word : List Char} (outside : r.mark = none) (nonempty : word ≠ [])
    (rest : List Char) :
    readFrom r (Quoting.backslashes.write word ++ rest) = readFrom (r.addText word) rest := by
  induction word generalizing r with
  | nil => contradiction
  | cons c word ih =>
    have first : readFrom r (Quoting.backslashes.write (c :: word) ++ rest) =
        readFrom (r.addChar c) (Quoting.backslashes.write word ++ rest) :=
      readFrom_escaped outside _
    rw [first]
    by_cases last : word = []
    · subst last
      rw [← Reader.addText_addChar, Reader.addText_nil (by rfl)]
      rfl
    · rw [ih (r := r.addChar c) outside last, Reader.addText_addChar]

theorem readFrom_double {word : List Char} (inside : r.mark = some '\x22')
    (begun : r.word.isSome = true) (rest : List Char) :
    readFrom r (word.flatMap inDouble ++ '\x22' :: rest) =
      readFrom { r.addText word with mark := none } rest := by
  induction word generalizing r with
  | nil =>
    rw [Reader.addText_nil begun]
    exact readFrom_closes inside rest
  | cons c word ih =>
    have first : readFrom r ((c :: word).flatMap inDouble ++ '\x22' :: rest) =
        readFrom (r.addChar c) (word.flatMap inDouble ++ '\x22' :: rest) := by
      rw [List.flatMap_cons, List.append_assoc]
      by_cases special : c = '\x22' ∨ c = '\\'
      · rw [inDouble, if_pos special, List.cons_append, List.singleton_append, readFrom]
        simp [inside]
      · rw [inDouble, if_neg special, List.singleton_append, readFrom.eq_def]
        obtain ⟨quote, backslash⟩ := not_or.1 special
        simp [inside, backslash, Ne.symm quote]
    rw [first, ih (r := r.addChar c) inside rfl, Reader.addText_addChar]

theorem readFrom_single {word : List Char} (inside : r.mark = some '\x27')
    (begun : r.word.isSome = true) (absent : '\x27' ∉ word) (rest : List Char) :
    readFrom r (word ++ '\x27' :: rest) = readFrom { r.addText word with mark := none } rest := by
  induction word generalizing r with
  | nil =>
    rw [Reader.addText_nil begun]
    exact readFrom_closes inside rest
  | cons c word ih =>
    obtain ⟨other, absent⟩ := not_or.1 (mt List.mem_cons.2 absent)
    have first : readFrom r (c :: word ++ '\x27' :: rest) =
        readFrom (r.addChar c) (word ++ '\x27' :: rest) := by
      rw [List.cons_append, readFrom.eq_def]
      simp [inside, other]
    rw [first, ih (r := r.addChar c) inside rfl absent, Reader.addText_addChar]

/-- Between words, a quoted word is begun and nothing else is changed. -/
theorem readFrom_write {q : Quoting} {word : List Char} (outside : r.mark = none)
    (idle : r.word = none) (fits : q.Fits word) (rest : List Char) :
    readFrom r (q.write word ++ rest) = readFrom (r.addText word) rest := by
  have opened (mark : Char) :
      { ({ r.beginWord with mark := some mark } : Reader).addText word with mark := none } =
        r.addText word := by
    simp [Reader.addText, Reader.beginWord, idle, outside]
  cases q with
  | backslashes => exact readFrom_backslashes outside fits rest
  | double =>
    rw [Quoting.write, List.cons_append, List.append_assoc, readFrom_opens outside (.inr rfl),
      List.singleton_append, readFrom_double rfl rfl, opened]
  | single =>
    rw [Quoting.write, List.cons_append, List.append_assoc, readFrom_opens outside (.inl rfl),
      List.singleton_append, readFrom_single rfl rfl fits, opened]

/-- The first blank ends the word begun, and those behind it change nothing. -/
theorem readFrom_blank {c : Char} (outside : r.mark = none) (blank : isBlank c = true)
    (rest : List Char) : readFrom r (c :: rest) = readFrom r.endWord rest := by
  have visible {mark : Char} (seen : isBlank mark = false) : c ≠ mark := by
    rintro rfl
    rw [blank] at seen
    cases seen
  have backslash : c ≠ '\\' := visible (by decide)
  have single : c ≠ '\x27' := visible (by decide)
  have double : c ≠ '\x22' := visible (by decide)
  rw [readFrom.eq_def]
  simp [outside, backslash, single, double, blank]

theorem readFrom_gap {gap : List Char} (outside : r.mark = none) (blank : allBlank gap = true)
    (free : gap ≠ [] ∨ r.word = none) (rest : List Char) :
    readFrom r (gap ++ rest) = readFrom r.endWord rest := by
  induction gap generalizing r with
  | nil =>
    obtain idle := free.resolve_left (by simp)
    rw [Reader.endWord_idle idle]
    rfl
  | cons c gap ih =>
    obtain ⟨first, others⟩ : isBlank c = true ∧ allBlank gap = true := by
      simpa [allBlank] using blank
    have idle := r.word_endWord
    rw [List.cons_append, readFrom_blank outside first,
      ih (r.mark_endWord.trans outside) others (.inr idle), Reader.endWord_idle idle]

/-- The texts of quoted words. -/
abbrev written (words : List (Quoting × String)) : List (List Char) :=
  words.map fun w => w.1.write w.2.toList

theorem done_of_goesOn {words : List (Quoting × String)} {text : List Char}
    (outside : r.mark = none) (fits : ∀ w ∈ words, w.1.Fits w.2.toList)
    (goes : GoesOn (written words) text) :
    (readFrom r text).endWord.done = (words.map (·.2)).reverse ++ r.endWord.done := by
  induction words generalizing r text with
  | nil =>
    cases goes with
    | ends _ blank =>
      -- What may stand behind the last word ends it, or leaves that to the end of the command.
      by_cases empty : text = []
      · subst empty
        rfl
      · rw [← List.append_nil text, readFrom_gap outside blank (.inl empty), readFrom,
          Reader.endWord_idle r.word_endWord]
        rfl
  | cons w words ih =>
    obtain ⟨here, later⟩ := List.forall_mem_cons.1 fits
    cases goes with
    | next gap blank apart more =>
      have idle := r.word_endWord
      have outside' := r.mark_endWord.trans outside
      rw [readFrom_gap outside blank (.inl apart), readFrom_write outside' idle here,
        ih (r := r.endWord.addText w.2.toList) outside' later more, Reader.endWord_addText idle]
      simp

/-- Words that are quoted, each in a way that fits it, and joined by blanks are the words of the command
that they make. -/
theorem split_undoes_quoting (words : List (Quoting × String)) (command : String)
    (fits : ∀ w ∈ words, w.1.Fits w.2.toList) (joined : Joined (written words) command.toList) :
    split command = words.map (·.2) := by
  have outside : Reader.start.mark = none := rfl
  have ended : (readFrom .start command.toList).endWord.done = (words.map (·.2)).reverse := by
    cases words with
    | nil =>
      cases joined with
      | nothing _ blank => exact done_of_goesOn outside fits (.ends _ blank)
    | cons w words =>
      generalize command.toList = text at joined
      obtain ⟨here, later⟩ := List.forall_mem_cons.1 fits
      cases joined with
      | first before blank more =>
        rw [readFrom_gap outside blank (.inr rfl), Reader.endWord_idle (r := .start) rfl,
          readFrom_write outside rfl here,
          done_of_goesOn (r := Reader.start.addText w.2.toList) outside later more,
          Reader.endWord_addText rfl]
        simp [Reader.start]
  rw [split, ended, List.reverse_reverse]

/-- A word of each quoting, and an empty word, behind and before blanks. -/
theorem editor_command_is_split :
    ∃ (words : List (Quoting × String)) (command : String),
      words = [(.single, "/opt/my \"editor\""), (.double, "a\\b\"c'"), (.backslashes, "-c '"),
        (.single, "")] ∧
      command = "'/opt/my \"editor\"' \t \"a\\\\b\\\"c'\"  \\-\\c\\ \\' ''\n" ∧
      (∀ w ∈ words, w.1.Fits w.2.toList) ∧ Joined (written words) command.toList ∧
      split command = words.map (·.2) := by
  have fits : ∀ w ∈ [(Quoting.single, "/opt/my \"editor\""), (.double, "a\\b\"c'"),
      (.backslashes, "-c '"), (.single, "")], w.1.Fits w.2.toList := by
    simp [Quoting.Fits]
  have joined : Joined (written [(Quoting.single, "/opt/my \"editor\""), (.double, "a\\b\"c'"),
      (.backslashes, "-c '"), (.single, "")])
      "'/opt/my \"editor\"' \t \"a\\\\b\\\"c'\"  \\-\\c\\ \\' ''\n".toList := by
    exact .first [] rfl <| .next [' ', '\t', ' '] rfl nofun <| .next [' ', ' '] rfl nofun <|
      .next [' '] rfl nofun <| .ends ['\n'] rfl
  exact ⟨_, _, rfl, rfl, fits, joined, split_undoes_quoting _ _ fits joined⟩

end Console.CommandWords
