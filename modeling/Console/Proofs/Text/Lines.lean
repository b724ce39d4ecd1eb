import Mathlib.Data.List.DropRight
import Console.Completeness

/-!
# Texts as lines

Cutting a text at its line feeds and joining lines with line feeds undo each other. What a text ends
with is seen on its last pieces.
-/

namespace Console

open Text Token Completeness

theorem pieces_ne_nil (sep : Char) (s : List Char) : pieces sep s ≠ [] := by
  induction s with
  | nil => simp [pieces]
  | cons c s ih =>
    simp only [pieces, List.foldr_cons]
    split
    · simp
    · split <;> simp

theorem pieces_cons_sep (sep : Char) (s : List Char) :
    pieces sep (sep :: s) = [] :: pieces sep s := by
  simp [pieces]

theorem pieces_cons {sep c : Char} (other : c ≠ sep) {s p : List Char} {ps : List (List Char)}
    (rest : pieces sep s = p :: ps) : pieces sep (c :: s) = (c :: p) :: ps := by
  unfold pieces at rest ⊢
  simp only [List.foldr_cons, rest, if_neg other]

theorem pieces_append (sep : Char) (s t : List Char) :
    pieces sep (s ++ sep :: t) = pieces sep s ++ pieces sep t := by
  induction s with
  | nil => exact pieces_cons_sep sep t
  | cons c s ih =>
    by_cases same : c = sep
    · subst same
      rw [List.cons_append, pieces_cons_sep, pieces_cons_sep, ih, List.cons_append]
    · obtain ⟨p, ps, rest⟩ := List.exists_cons_of_ne_nil (pieces_ne_nil sep s)
      rw [rest, List.cons_append] at ih
      rw [List.cons_append, pieces_cons same ih, pieces_cons same rest, List.cons_append]

/-- A text without the separator is one piece. -/
theorem pieces_of_not_mem {sep : Char} {s : List Char} (h : sep ∉ s) : pieces sep s = [s] := by
  induction s with
  | nil => rfl
  | cons c s ih =>
    have ⟨other, inside⟩ : sep ≠ c ∧ sep ∉ s := by simpa using h
    exact pieces_cons other.symm (ih inside)

theorem not_mem_of_mem_pieces {sep : Char} {s piece : List Char} (mem : piece ∈ pieces sep s) :
    sep ∉ piece := by
  induction s generalizing piece with
  | nil =>
    obtain rfl : piece = [] := by simpa [pieces] using mem
    simp
  | cons c s ih =>
    by_cases same : c = sep
    · subst same
      rw [pieces_cons_sep] at mem
      rcases List.mem_cons.1 mem with rfl | mem
      · simp
      · exact ih mem
    · obtain ⟨p, ps, rest⟩ := List.exists_cons_of_ne_nil (pieces_ne_nil sep s)
      rw [pieces_cons same rest] at mem
      rw [rest] at ih
      rcases List.mem_cons.1 mem with rfl | mem
      · have := ih (List.mem_cons_self ..)
        simp [this, Ne.symm same]
      · exact ih (List.mem_cons_of_mem _ mem)

theorem mem_of_mem_pieces {sep c : Char} {s piece : List Char} (inside : piece ∈ pieces sep s)
    (mem : c ∈ piece) : c ∈ s := by
  induction s generalizing piece with
  | nil =>
    obtain rfl : piece = [] := by simpa [pieces] using inside
    cases mem
  | cons d s ih =>
    by_cases same : d = sep
    · subst same
      rw [pieces_cons_sep] at inside
      rcases List.mem_cons.1 inside with rfl | inside
      · cases mem
      · exact List.mem_cons_of_mem _ (ih inside mem)
    · obtain ⟨p, ps, rest⟩ := List.exists_cons_of_ne_nil (pieces_ne_nil sep s)
      rw [pieces_cons same rest] at inside
      rw [rest] at ih
      rcases List.mem_cons.1 inside with rfl | inside
      · rcases List.mem_cons.1 mem with rfl | mem
        · exact List.mem_cons_self ..
        · exact List.mem_cons_of_mem _ (ih (List.mem_cons_self ..) mem)
      · exact List.mem_cons_of_mem _ (ih (List.mem_cons_of_mem _ inside) mem)

theorem length_pieces (sep : Char) (s : List Char) : (pieces sep s).length = s.count sep + 1 := by
  induction s with
  | nil => rfl
  | cons c s ih =>
    by_cases same : c = sep
    · subst same
      rw [pieces_cons_sep, List.length_cons, ih, List.count_cons_self]
    · obtain ⟨p, ps, rest⟩ := List.exists_cons_of_ne_nil (pieces_ne_nil sep s)
      rw [pieces_cons same rest, List.length_cons, ← List.length_cons, ← rest, ih,
        List.count_cons_of_ne same]

/-- The first piece ends at the first separator. -/
theorem pieces_zero (sep : Char) (s : List Char) :
    (pieces sep s)[0]? = some (s.takeWhile (· ≠ sep)) := by
  induction s with
  | nil => rfl
  | cons c s ih =>
    by_cases same : c = sep
    · subst same
      rw [pieces_cons_sep]
      simp
    · obtain ⟨p, ps, rest⟩ := List.exists_cons_of_ne_nil (pieces_ne_nil sep s)
      rw [rest] at ih
      obtain rfl : p = s.takeWhile (· ≠ sep) := by simpa using ih
      rw [pieces_cons same rest]
      simp [same]

/-- The separators before a place tell which piece it is in, and the piece reaches from the last
separator before it to the first one behind it. -/
theorem pieces_count (sep : Char) (before after : List Char) :
    (pieces sep (before ++ after))[before.count sep]? =
      some (before.rtakeWhile (· ≠ sep) ++ after.takeWhile (· ≠ sep)) := by
  induction before using List.reverseRecOn generalizing after with
  | nil => exact pieces_zero sep after
  | append_singleton before c ih =>
    rw [List.append_assoc, List.singleton_append]
    by_cases same : c = sep
    · subst same
      rw [pieces_append, List.count_append, List.count_singleton_self,
        List.getElem?_append_right (by rw [length_pieces]), length_pieces, Nat.sub_self,
        pieces_zero, List.rtakeWhile_concat_neg _ _ _ (by simp), List.nil_append]
    · rw [List.count_append, List.count_singleton, if_neg (by simpa using same), Nat.add_zero, ih,
        List.rtakeWhile_concat_pos _ _ _ (by simpa using same), List.takeWhile_cons,
        if_pos (by simpa using same), List.append_assoc, List.singleton_append]

/-- A line is the piece of its number, maybe without its carriage return. -/
theorem exists_piece_of_lines {s line : List Char} {i : Nat} (here : (Text.lines s)[i]? = some line) :
    ∃ piece, (pieces '\n' s)[i]? = some piece ∧ (piece = line ∨ piece = line ++ ['\r']) := by
  have ended : ∀ line, ((pieces '\n' s).dropLast.map dropReturn)[i]? = some line →
      ∃ piece, (pieces '\n' s)[i]? = some piece ∧ (piece = line ∨ piece = line ++ ['\r']) := by
    intro line here
    rw [List.getElem?_map] at here
    obtain ⟨piece, inside, rfl⟩ := Option.map_eq_some_iff.1 here
    refine ⟨piece, ?_, ?_⟩
    · rw [List.getElem?_dropLast] at inside
      split at inside
      · exact inside
      · cases inside
    · unfold dropReturn
      split
      · rename_i last
        exact .inr (List.dropLast_append_getLast? _ last).symm
      · exact .inl rfl
  unfold Text.lines at here
  dsimp only at here
  split at here
  · rename_i c last final
    rw [List.getElem?_append, List.length_map, List.length_dropLast] at here
    split at here
    · exact ended line here
    · rw [List.getElem?_singleton] at here
      split at here
      · cases here
        rename_i beyond first
        rw [List.getLast?_eq_getElem?] at final
        refine ⟨_, ?_, .inl rfl⟩
        rw [← final]
        congr 1
        omega
      · cases here
  · exact ended line here

theorem exists_piece_of_mem_lines {s line : List Char} (mem : line ∈ Text.lines s) :
    ∃ piece ∈ pieces '\n' s, line ⊆ piece := by
  obtain ⟨i, here⟩ := List.mem_iff_getElem?.1 mem
  obtain ⟨piece, cut, rfl | rfl⟩ := exists_piece_of_lines here
  · exact ⟨piece, List.mem_of_getElem? cut, List.Subset.refl _⟩
  · exact ⟨_, List.mem_of_getElem? cut, List.subset_append_left _ _⟩

/-- The lines of a text hold no line feed. -/
theorem not_mem_of_mem_lines {s line : List Char} (mem : line ∈ Text.lines s) : '\n' ∉ line := by
  obtain ⟨piece, inside, within⟩ := exists_piece_of_mem_lines mem
  exact fun feed => not_mem_of_mem_pieces inside (within feed)

theorem mem_of_mem_lines {c : Char} {s line : List Char} (inside : line ∈ Text.lines s)
    (mem : c ∈ line) : c ∈ s := by
  obtain ⟨piece, cut, within⟩ := exists_piece_of_mem_lines inside
  exact mem_of_mem_pieces cut (within mem)

/-- The last character stands at the end of the last piece. -/
theorem pieces_concat {sep c : Char} (other : c ≠ sep) (s : List Char) :
    ∃ before last, pieces sep (s ++ [c]) = before ++ [last ++ [c]] := by
  induction s with
  | nil => exact ⟨[], [], pieces_cons other rfl⟩
  | cons d s ih =>
    obtain ⟨before, last, rest⟩ := ih
    by_cases same : d = sep
    · subst same
      exact ⟨[] :: before, last, by rw [List.cons_append, pieces_cons_sep, rest, List.cons_append]⟩
    · cases before with
      | nil => exact ⟨[], d :: last, pieces_cons same rest⟩
      | cons p before => exact ⟨(d :: p) :: before, last, pieces_cons same rest⟩

/-- Joined lines are cut into the same lines. -/
theorem pieces_intercalate {lines : List String} (nonempty : lines ≠ [])
    (inline : ∀ line ∈ lines, '\n' ∉ line.toList) :
    pieces '\n' ("\n".intercalate lines).toList = lines.map String.toList := by
  induction lines with
  | nil => contradiction
  | cons line lines ih =>
    have whole := pieces_of_not_mem (inline line (by simp))
    cases lines with
    | nil => rw [String.intercalate_singleton, whole]; rfl
    | cons next lines =>
      have rest := ih (by simp) fun line mem => inline line (by simp [mem])
      rw [String.intercalate_cons_cons, String.toList_append, String.toList_append]
      show pieces '\n' (line.toList ++ ['\n'] ++ _) = _
      rw [List.append_assoc, List.singleton_append, pieces_append, whole, rest]
      rfl

theorem endsWithBlankLine_append (text : String) : endsWithBlankLine (text ++ "\n") = true := by
  have cut : pieces '\n' (text ++ "\n").toList = pieces '\n' text.toList ++ [[]] := by
    rw [String.toList_append]
    exact pieces_append '\n' text.toList []
  obtain ⟨p, ps, last⟩ := List.exists_cons_of_ne_nil
    (List.reverse_ne_nil_iff.2 (pieces_ne_nil '\n' text.toList))
  unfold endsWithBlankLine
  rw [cut, List.reverse_append, last]
  rfl

theorem endsWithBlankLine_of_two {text : String} (two : endsWithTwoBlankLines text = true) :
    endsWithBlankLine text = true := by
  unfold endsWithTwoBlankLines at two
  unfold endsWithBlankLine
  split at two
  · rename_i last previous first others lines
    rw [Bool.and_eq_true] at two
    rw [lines]
    exact two.1
  · cases two

theorem not_endsWithBlankLine_of_visible {text : String} {c : Char} (visible : isBlank c = false)
    (last : [c] <:+ text.toList) : endsWithBlankLine text = false := by
  obtain ⟨s, whole⟩ := last
  have other : c ≠ '\n' := by
    rintro rfl
    simp [isBlank] at visible
  obtain ⟨before, piece, cut⟩ := pieces_concat other s
  unfold endsWithBlankLine
  rw [← whole, cut, List.reverse_append, List.reverse_singleton, List.singleton_append]
  split
  · rename_i line _ _ same
    obtain ⟨rfl, -⟩ := List.cons.inj same
    rw [allBlank, List.all_append]
    simp [visible]
  · rfl

/-- Two empty lines behind other lines. -/
theorem endsWithTwoBlankLines_intercalate {lines : List String} (nonempty : lines ≠ []) :
    endsWithTwoBlankLines ("\n".intercalate (lines ++ ["", ""])) = true := by
  have text : ("\n".intercalate (lines ++ ["", ""])).toList =
      ("\n".intercalate lines).toList ++ '\n' :: ['\n'] := by
    rw [String.intercalate_append_of_ne_nil nonempty (by simp), String.toList_append,
      String.toList_append, List.append_assoc]
    rfl
  have cut : pieces '\n' ("\n".intercalate (lines ++ ["", ""])).toList =
      pieces '\n' ("\n".intercalate lines).toList ++ [[], []] := by
    rw [text, pieces_append]
    rfl
  obtain ⟨p, ps, last⟩ := List.exists_cons_of_ne_nil
    (List.reverse_ne_nil_iff.2 (pieces_ne_nil '\n' ("\n".intercalate lines).toList))
  unfold endsWithTwoBlankLines
  rw [cut, List.reverse_append, last]
  rfl

end Console
