import Console.Text
import Mathlib.Data.List.DropRight

/-!
# Words and the blanks around them

What is left of a trimmed text ends in no blank, and blanks stand before and behind it. A word of a text
holds no blank, so it holds no line feed. The last word of a text is told by what stands around it, and
every text that is not blank has one.
-/

namespace Console.Text

theorem trimEnd_eq_nil_iff (s : List Char) : trimEnd s = [] ↔ allBlank s = true := by
  simp [trimEnd, allBlank, List.dropWhile_eq_nil_iff]

/-- Without the blanks behind it a text ends in no blank. -/
theorem isBlank_of_mem_getLast? {s : List Char} {c : Char} (last : c ∈ (trimEnd s).getLast?) :
    isBlank c = false := by
  rw [trimEnd, List.getLast?_reverse] at last
  cases rest : s.reverse.dropWhile isBlank with
  | nil => simp [rest] at last
  | cons d others =>
    obtain rfl : d = c := by simpa [rest] using last
    have stops := List.head?_dropWhile_not isBlank s.reverse
    simpa [rest] using stops

theorem trimEnd_trimEnd (s : List Char) : trimEnd (trimEnd s) = trimEnd s := by
  simp [trimEnd, List.dropWhile_idempotent]

theorem trimEnd_append_blank (s : List Char) {W : List Char} (blank : ∀ c ∈ W, isBlank c = true) :
    trimEnd (s ++ W) = trimEnd s := by
  have behind : ∀ c ∈ W.reverse, isBlank c = true := fun c mem => blank c (List.mem_reverse.1 mem)
  rw [trimEnd, List.reverse_append, List.dropWhile_append_of_pos behind, trimEnd]

theorem trimEnd_of_getLast? {s : List Char} {c : Char} (last : s.getLast? = some c)
    (solid : isBlank c = false) : trimEnd s = s := by
  obtain ⟨before, rfl⟩ := List.getLast?_eq_some_iff.1 last
  rw [trimEnd, List.reverse_append, List.reverse_singleton, List.singleton_append,
    List.dropWhile_cons_of_neg (by rw [solid]; exact Bool.false_ne_true), List.reverse_cons,
    List.reverse_reverse]

/-- Without the blanks behind it a text is what comes before them. -/
theorem exists_trimEnd_append (s : List Char) :
    ∃ W, s = trimEnd s ++ W ∧ ∀ c ∈ W, isBlank c = true := by
  have whole : s = trimEnd s ++ (s.reverse.takeWhile isBlank).reverse := by
    rw [trimEnd, ← List.reverse_append, List.takeWhile_append_dropWhile, List.reverse_reverse]
  exact ⟨_, whole, fun c mem => List.mem_takeWhile_imp (List.mem_reverse.1 mem)⟩

/-- Blanks stand on both sides of what is left of a text. -/
theorem exists_trim_append (s : List Char) :
    ∃ trail, s = s.takeWhile isBlank ++ trim s ++ trail ∧ ∀ ch ∈ trail, isBlank ch = true := by
  obtain ⟨trail, rest, blank⟩ := exists_trimEnd_append (trimStart s)
  refine ⟨trail, ?_, blank⟩
  rw [trim, List.append_assoc, ← rest, trimStart, List.takeWhile_append_dropWhile]

theorem length_takeWhile_isBlank (s : List Char) :
    (s.takeWhile isBlank).length = s.length - (trimStart s).length := by
  have whole := congrArg List.length (List.takeWhile_append_dropWhile (p := isBlank) (l := s))
  rw [List.length_append] at whole
  rw [← whole, trimStart, Nat.add_sub_cancel]

theorem dropWhile_of_unblank {s : List Char} (unblank : ∀ c ∈ s, isBlank c = false) :
    s.dropWhile isBlank = s := by
  cases s with
  | nil => rfl
  | cons c s => simp [unblank c]

/-- Blanks around a text without blanks are trimmed off. -/
theorem trim_around {before s after : List Char} (blank : allBlank before = true)
    (blank' : allBlank after = true) (unblank : ∀ c ∈ s, isBlank c = false) :
    trim (before ++ s ++ after) = s := by
  rw [allBlank, List.all_eq_true] at blank blank'
  rw [trim, trimStart, List.append_assoc, List.dropWhile_append_of_pos blank]
  cases s with
  | nil =>
    have nothing : after.dropWhile isBlank = [] := List.dropWhile_eq_nil_iff.2 blank'
    simp [nothing, trimEnd]
  | cons c s =>
    have whole : (c :: s ++ after).dropWhile isBlank = c :: s ++ after := by simp [unblank c]
    have behind : ∀ c ∈ after.reverse, isBlank c = true := by simpa using blank'
    have inside : ∀ d ∈ (c :: s).reverse, isBlank d = false :=
      fun d mem => unblank d (List.mem_reverse.1 mem)
    rw [whole, trimEnd, List.reverse_append, List.dropWhile_append_of_pos behind,
      dropWhile_of_unblank inside, List.reverse_reverse]

end Console.Text

namespace Console

namespace Text

/-- The word being read and the words behind it hold no blank. -/
private def Unblank (done : List Char × List (List Char)) : Prop :=
  ∀ word ∈ done.1 :: done.2, ∀ c ∈ word, isBlank c = false

theorem isBlank_of_mem_words {s word : List Char} (mem : word ∈ words s) :
    ∀ c ∈ word, isBlank c = false := by
  have drop {done : List Char × List (List Char)} (unblank : Unblank done) :
      ∀ word ∈ if done.1.isEmpty then done.2 else done.1 :: done.2,
        ∀ c ∈ word, isBlank c = false := by
    intro word mem
    split at mem
    · exact unblank word (List.mem_cons_of_mem _ mem)
    · exact unblank word mem
  unfold words at mem
  refine drop (List.foldrRecOn s _ (by simp [Unblank]) fun done unblank c _ => ?_) word mem
  split
  · intro word mem
    rcases List.mem_cons.1 mem with rfl | mem
    · simp
    · exact drop unblank word mem
  · rename_i visible
    intro word mem
    rcases List.mem_cons.1 mem with rfl | mem
    · intro d inside
      rcases List.mem_cons.1 inside with rfl | inside
      · simpa using visible
      · exact unblank _ (List.mem_cons_self ..) d inside
    · exact unblank word (List.mem_cons_of_mem _ mem)

theorem not_mem_of_lastWord {s word : List Char} (last : lastWord? s = some word) :
    '\n' ∉ word := by
  intro mem
  have blank := isBlank_of_mem_words (List.mem_of_getLast? last) '\n' mem
  exact absurd blank (by decide)

/-- The words that are finished once the word being read is. -/
def ended (done : List Char × List (List Char)) : List (List Char) :=
  if done.1.isEmpty then done.2 else done.1 :: done.2

/-- The word being read and the words behind it, with one more character before them. -/
def readWord (c : Char) (done : List Char × List (List Char)) : List Char × List (List Char) :=
  if isBlank c then ([], ended done) else (c :: done.1, done.2)

theorem words_eq (s : List Char) : words s = ended (s.foldr readWord ([], [])) := rfl

/-- Only blanks stand behind the word, and a blank, if anything, before it. -/
def IsLastWord (word s : List Char) : Prop :=
  ∃ before behind, s = before ++ word ++ behind ∧ word ≠ [] ∧ (∀ c ∈ word, isBlank c = false) ∧
    (∀ c ∈ behind, isBlank c = true) ∧ ∀ c ∈ before.getLast?, isBlank c = true

theorem foldr_readWord_blank {behind : List Char} (blank : ∀ c ∈ behind, isBlank c = true) :
    behind.foldr readWord ([], []) = ([], []) := by
  induction behind with
  | nil => rfl
  | cons c behind ih =>
    have ⟨first, rest⟩ := List.forall_mem_cons.1 blank
    rw [List.foldr_cons, ih rest, readWord, if_pos first]
    rfl

theorem foldr_readWord_unblank {word : List Char} (unblank : ∀ c ∈ word, isBlank c = false) :
    word.foldr readWord ([], []) = (word, []) := by
  induction word with
  | nil => rfl
  | cons c word ih =>
    have ⟨first, rest⟩ := List.forall_mem_cons.1 unblank
    rw [List.foldr_cons, ih rest, readWord, first, if_neg Bool.false_ne_true]

/-- Characters before a finished word leave it the last one. -/
theorem getLast?_ended_readWord {done : List Char × List (List Char)} {word : List Char}
    (last : done.2.getLast? = some word) (before : List Char) :
    (ended (before.foldr readWord done)).getLast? = some word := by
  have keeps {done : List Char × List (List Char)} (last : done.2.getLast? = some word) :
      (ended done).getLast? = some word := by
    unfold ended
    split
    · exact last
    · rw [List.getLast?_cons, last]
      rfl
  suffices (before.foldr readWord done).2.getLast? = some word from keeps this
  induction before with
  | nil => exact last
  | cons c before ih =>
    rw [List.foldr_cons]
    unfold readWord
    split
    · exact keeps ih
    · exact ih

theorem IsLastWord.lastWord? {word s : List Char} (last : IsLastWord word s) :
    lastWord? s = some word := by
  obtain ⟨before, behind, rfl, nonempty, unblank, blank, apart⟩ := last
  obtain ⟨c, rest, rfl⟩ := List.exists_cons_of_ne_nil nonempty
  rw [Text.lastWord?, words_eq, List.foldr_append, List.foldr_append, foldr_readWord_blank blank,
    foldr_readWord_unblank unblank]
  rcases List.eq_nil_or_concat before with rfl | ⟨before, d, rfl⟩
  · rfl
  · have stop : isBlank d = true := apart d (by simp)
    rw [List.concat_eq_append, List.foldr_append, List.foldr_cons, List.foldr_nil,
      readWord, if_pos stop]
    exact getLast?_ended_readWord rfl before

/-- A text that is not blank has a last word. -/
theorem exists_isLastWord {s : List Char} (visible : allBlank s = false) : ∃ word, IsLastWord word s := by
  obtain ⟨behind, whole, blank⟩ := exists_trimEnd_append s
  have something : trimEnd s ≠ [] := by
    rw [ne_eq, trimEnd_eq_nil_iff, visible]
    exact Bool.false_ne_true
  obtain ⟨rest, c, ends⟩ := List.eq_nil_or_concat (trimEnd s) |>.resolve_left something
  rw [List.concat_eq_append] at ends
  have last : isBlank c = false := isBlank_of_mem_getLast? (s := s) (by simp [ends])
  have cut := List.takeWhile_append_dropWhile (p := (!isBlank ·)) (l := (trimEnd s).reverse)
  refine ⟨((trimEnd s).reverse.takeWhile (!isBlank ·)).reverse,
    ((trimEnd s).reverse.dropWhile (!isBlank ·)).reverse, behind, ?_, ?_, ?_, blank, ?_⟩
  · rw [← List.reverse_append, cut, List.reverse_reverse]
    exact whole
  · simp [ends, last]
  · intro d mem
    simpa using List.mem_takeWhile_imp (List.mem_reverse.1 mem)
  · intro d mem
    have stops := List.head?_dropWhile_not (!isBlank ·) (trimEnd s).reverse
    rw [List.getLast?_reverse] at mem
    rw [mem] at stops
    simpa using stops

end Text

end Console
