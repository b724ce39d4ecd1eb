import Console.History
import Console.Proofs.Text.Lines
import Console.Proofs.Text.Words
import Mathlib.Data.List.DropRight

/-!
# Histories and their files

Appending units one after the other leaves the newest of all entries, as many as there is room for. A
saved history is read back entry by entry: an escaped entry holds no line feed and ends in no carriage
return, so it is one line of the file, and what it stands for is the entry again.
-/

namespace Console.History

variable {h : History}

/-- Whether more than blanks is in a unit. -/
def isVisible (unit : String) : Bool := !(Text.trimEnd unit.toList).isEmpty

/-- A unit as it stands in the history. -/
def entryOf (unit : String) : String := String.ofList (Text.trimEnd unit.toList)

theorem append_of_not_isVisible {unit : String} (blank : isVisible unit = false) :
    h.append unit = h := by
  have nothing : (Text.trimEnd unit.toList).isEmpty = true := by simpa [isVisible] using blank
  simp [append, nothing]

@[simp] theorem capacity_append (h : History) (unit : String) :
    (h.append unit).capacity = h.capacity := by
  unfold append
  dsimp only
  split <;> rfl

/-- The newest entries, as many as there is room for. -/
theorem entries_append {unit : String} (visible : isVisible unit = true)
    (room : h.size ≤ h.capacity) :
    (h.append unit).entries = (h.entries ++ [entryOf unit]).rtake h.capacity := by
  obtain ⟨entries, capacity⟩ := h
  have something : (Text.trimEnd unit.toList).isEmpty = false := by simpa [isVisible] using visible
  cases capacity with
  | zero =>
    have nothing : entries = [] := by simpa [size] using room
    simp [append, nothing]
  | succ n =>
    have le : entries.length ≤ n + 1 := room
    rw [List.rtake_concat_succ]
    by_cases full : n + 1 ≤ entries.length
    · have rest : entries.tail = entries.rtake n := by
        rw [List.rtake, show entries.length - n = 1 by omega, List.drop_one]
      simp [append, something, full, rest, entryOf]
    · have rest : entries.rtake n = entries := by
        rw [List.rtake, show entries.length - n = 0 by omega, List.drop_zero]
      simp [append, something, full, rest, entryOf]

theorem rtake_append_rtake {α : Type} (first second : List α) (n : Nat) :
    (first.rtake n ++ second).rtake n = (first ++ second).rtake n := by
  simp only [List.rtake, List.drop_append, List.length_append, List.length_drop, List.drop_drop]
  congr 2 <;> omega

theorem size_append_le (room : h.size ≤ h.capacity) (unit : String) :
    (h.append unit).size ≤ h.capacity := by
  cases visible : isVisible unit with
  | false => rwa [append_of_not_isVisible visible]
  | true =>
    rw [size, entries_append visible room, List.rtake, List.length_drop]
    omega

/-- A history that has units appended holds the newest of all entries, without the blank units. -/
theorem entries_foldl_append (units : List String) (room : h.size ≤ h.capacity) :
    (units.foldl append h).entries =
      (h.entries ++ (units.filter isVisible).map entryOf).rtake h.capacity := by
  induction units generalizing h with
  | nil =>
    have whole : h.entries.length - h.capacity = 0 := by
      have : h.entries.length ≤ h.capacity := room
      omega
    simp [List.rtake, whole]
  | cons unit units ih =>
    have room' := size_append_le room unit
    rw [List.foldl_cons, ih (by simpa using room'), capacity_append]
    cases visible : isVisible unit with
    | false => simp [append_of_not_isVisible visible, visible]
    | true =>
      rw [entries_append visible room, rtake_append_rtake]
      simp [visible]

end Console.History

namespace Console

open Text

namespace History

theorem isVisible_eq (unit : String) : isVisible unit = !allBlank unit.toList := by
  have same := trimEnd_eq_nil_iff unit.toList
  unfold isVisible
  cases blank : allBlank unit.toList <;> simp_all

@[simp] theorem entryOf_entryOf (unit : String) : entryOf (entryOf unit) = entryOf unit := by
  simp [entryOf, trimEnd_trimEnd]

@[simp] theorem isVisible_entryOf (unit : String) : isVisible (entryOf unit) = isVisible unit := by
  simp [isVisible, entryOf, trimEnd_trimEnd]

/-- What an escaped character is written as. -/
def escapeOf (c : Char) : List Char :=
  if c = '\\' then ['\\', '\\'] else if c = '\n' then ['\\', 'n'] else [c]

theorem escape_eq (entry : List Char) : escape entry = entry.flatMap escapeOf := rfl

theorem unescape_cons {c : Char} (plain : c ≠ '\\') (rest : List Char) :
    unescape (c :: rest) = c :: unescape rest := by
  rw [unescape] <;> simp [plain]

theorem unescape_escapeOf (c : Char) (rest : List Char) :
    unescape (escapeOf c ++ rest) = c :: unescape rest := by
  unfold escapeOf
  split
  · rename_i backslash
    rw [backslash]
    rfl
  · split
    · rename_i lineFeed
      rw [lineFeed]
      rfl
    · exact unescape_cons ‹_› rest

theorem unescape_escape (entry : List Char) : unescape (escape entry) = entry := by
  rw [escape_eq]
  induction entry with
  | nil => rfl
  | cons c entry ih => rw [List.flatMap_cons, unescape_escapeOf, ih]

theorem not_mem_escape (entry : List Char) : '\n' ∉ escape entry := by
  rw [escape_eq, List.mem_flatMap]
  rintro ⟨c, -, mem⟩
  unfold escapeOf at mem
  split at mem
  · simp at mem
  · split at mem
    · simp at mem
    · rename_i other
      exact other (List.mem_singleton.1 mem).symm

/-- An escaped text ends in a carriage return only if the text does. -/
theorem getLast?_escape {entry : List Char} (last : entry.getLast? ≠ some '\r') :
    (escape entry).getLast? ≠ some '\r' := by
  rcases List.eq_nil_or_concat entry with rfl | ⟨before, c, rfl⟩
  · simp [escape]
  · rw [List.concat_eq_append] at last ⊢
    have other : c ≠ '\r' := by simpa using last
    rw [escape_eq, List.flatMap_append, List.flatMap_singleton, escapeOf]
    split
    · simp [List.getLast?_append]
    · split <;> simp [List.getLast?_append, other]

/-- Lines that each end in a line feed are read as these lines. -/
theorem lines_of_ended {ls : List (List Char)} (inline : ∀ line ∈ ls, '\n' ∉ line)
    (bare : ∀ line ∈ ls, line.getLast? ≠ some '\r') :
    Text.lines (ls.flatMap fun line => line ++ ['\n']) = ls := by
  have cut : pieces '\n' (ls.flatMap fun line => line ++ ['\n']) = ls ++ [[]] := by
    clear bare
    induction ls with
    | nil => rfl
    | cons line ls ih =>
      obtain ⟨alone, inline⟩ := List.forall_mem_cons.1 inline
      rw [List.flatMap_cons, List.append_assoc, List.singleton_append, pieces_append,
        pieces_of_not_mem alone, ih inline]
      rfl
  have kept : ls.map dropReturn = ls := by
    refine (List.map_congr_left fun line mem => ?_).trans (List.map_id ls)
    unfold dropReturn
    split
    · rename_i carriage
      exact absurd carriage (bare line mem)
    · rfl
  unfold Text.lines
  dsimp only
  rw [cut, List.dropLast_concat, kept, List.getLast?_concat]

variable {h : History}

theorem capacity_foldl_append (h : History) (units : List String) :
    (units.foldl append h).capacity = h.capacity := by
  induction units generalizing h with
  | nil => rfl
  | cons unit units ih => rw [List.foldl_cons, ih, capacity_append]

/-- Every entry is a visible unit without the blanks behind it. -/
def Trimmed (h : History) : Prop := ∀ entry ∈ h.entries, ∃ unit, isVisible unit = true ∧
  entry = entryOf unit

theorem lines_save (trimmed : Trimmed h) :
    Text.lines (save h).toList = h.entries.map fun entry => escape entry.toList := by
  have whole : (save h).toList =
      (h.entries.map fun entry => escape entry.toList).flatMap fun line => line ++ ['\n'] := by
    simp [save, List.flatMap_map]
  rw [whole]
  refine lines_of_ended ?_ ?_
  · intro line mem
    obtain ⟨entry, -, rfl⟩ := List.mem_map.1 mem
    exact not_mem_escape _
  · intro line mem
    obtain ⟨entry, inside, rfl⟩ := List.mem_map.1 mem
    obtain ⟨unit, -, rfl⟩ := trimmed entry inside
    refine getLast?_escape fun last => ?_
    rw [entryOf, String.toList_ofList] at last
    exact absurd (isBlank_of_mem_getLast? last) (by decide)

theorem load_save (trimmed : Trimmed h) (capacity : Nat) :
    load (save h) capacity = ⟨h.entries.rtake capacity, capacity⟩ := by
  have read : load (save h) capacity = h.entries.foldl append (empty capacity) := by
    unfold load
    rw [lines_save trimmed, List.foldl_map]
    simp only [unescape_escape, String.ofList_toList]
  have visible : h.entries.filter isVisible = h.entries := by
    refine List.filter_eq_self.2 fun entry mem => ?_
    obtain ⟨unit, visible, rfl⟩ := trimmed entry mem
    rwa [isVisible_entryOf]
  have same : h.entries.map entryOf = h.entries := by
    refine (List.map_congr_left fun entry mem => ?_).trans (List.map_id _)
    obtain ⟨unit, -, rfl⟩ := trimmed entry mem
    exact entryOf_entryOf unit
  have entries := entries_foldl_append (h := empty capacity) h.entries (Nat.zero_le _)
  rw [visible, same] at entries
  rw [read]
  generalize loaded : h.entries.foldl append (empty capacity) = log at entries
  have room := capacity_foldl_append (empty capacity) h.entries
  rw [loaded] at room
  obtain ⟨all, _⟩ := log
  cases entries
  cases room
  rfl

/-- A history that units were appended to holds the newest of those that are not blank, as many as
there is room for, without the blanks behind them. Its file is read as the newest of these entries,
as many as there is room for then. -/
theorem saved_history_reads_back (units : List String) (capacity capacity' : Nat) :
    (units.foldl append (empty capacity)).entries =
        ((units.filter fun unit => !allBlank unit.toList).map entryOf).rtake capacity ∧
      load (save (units.foldl append (empty capacity))) capacity' =
        ⟨(units.foldl append (empty capacity)).entries.rtake capacity', capacity'⟩ := by
  have entries := entries_foldl_append (h := empty capacity) units (Nat.zero_le _)
  refine ⟨by simpa [isVisible_eq, empty, funext isVisible_eq] using entries, load_save ?_ capacity'⟩
  intro entry mem
  rw [entries] at mem
  obtain ⟨unit, inside, rfl⟩ := List.mem_map.1 (List.mem_of_mem_drop mem)
  exact ⟨unit, (List.mem_filter.1 inside).2, rfl⟩

end History

end Console
