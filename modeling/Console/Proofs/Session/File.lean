import Console.Proofs.Session.Replay

/-!
# Sessions as files

A session file that is not changed holds the typed lines and the current line of its session. Its
header and the lines that were shown start as comments do, so a reader passes them.
-/

namespace Console

open Text

namespace Session

/-- Whether a line of a session file is a comment. -/
def isComment (line : String) : Bool := "###".toList.isPrefixOf line.toList

/-- A single line. -/
def Inline (line : String) : Prop := '\n' ∉ line.toList

theorem inline_empty : Inline "" := by simp [Inline]

/-- A line that stands for itself in a session file. -/
def IsCode (line : String) : Prop := Inline line ∧ isComment line = false

/-- An entry that a session file keeps. -/
def Kept : Entry → Prop
  | .input _ code => IsCode code
  | .output text => Inline text

theorem Shown.kept {entries : List Entry} (shown : Shown entries) : ∀ e ∈ entries, Kept e := by
  intro e mem
  obtain ⟨text, rfl, inline⟩ := shown e mem
  exact inline

theorem inline_of_mem_editedLines {text line : String} (mem : line ∈ editedLines text) :
    Inline line := by
  obtain ⟨piece, inside, rfl⟩ := List.mem_map.1 mem
  simpa [Inline] using not_mem_of_mem_pieces inside

/-- An editor that changes nothing gives back the lines it was shown. -/
theorem editedLines_intercalate {lines : List String} (nonempty : lines ≠ [])
    (inline : ∀ line ∈ lines, Inline line) : editedLines ("\n".intercalate lines) = lines := by
  unfold editedLines
  rw [pieces_intercalate nonempty inline, List.map_map]
  simp [Function.comp_def]

theorem mem_of_mem_blockLines {text line : String} (mem : line ∈ blockLines text) :
    line ∈ editedLines text := by
  unfold blockLines at mem
  have inside := (List.dropWhile_suffix isBlankLine).subset (List.mem_reverse.1 mem)
  exact List.mem_reverse.1 inside

theorem isComment_append (text : String) : isComment (commentMark ++ text) = true := by
  unfold isComment
  rw [String.toList_append]
  rfl

theorem splitCurrent_append (lines : List String) (text : String) :
    splitCurrent (lines ++ [commentMark ++ text]) = (lines, text) := by
  have marked : commentMark.toList.isPrefixOf (commentMark ++ text).toList = true := by
    rw [String.toList_append]
    exact List.isPrefixOf_iff_prefix.2 (List.prefix_append ..)
  have rest : String.ofList ((commentMark ++ text).toList.drop commentMark.length) = text := by
    rw [String.toList_append, List.drop_left' String.length_toList, String.ofList_toList]
  unfold splitCurrent
  rw [List.getLast?_concat, List.dropLast_concat]
  dsimp only
  rw [marked, rest]

theorem inline_fileLine {e : Entry} (kept : Kept e) : Inline (fileLine e) := by
  cases e with
  | input prompt code => exact kept.1
  | output text =>
    have inline : Inline text := kept
    unfold Inline at inline ⊢
    rw [fileLine, String.toList_append, List.mem_append, not_or]
    exact ⟨by decide, inline⟩

theorem filter_fileLine {entries : List Entry} (kept : ∀ e ∈ entries, Kept e) :
    ((entries.map fileLine).filter fun line => !isComment line) = typed entries := by
  induction entries with
  | nil => rfl
  | cons e entries ih =>
    have rest := ih fun e mem => kept e (by simp [mem])
    have kept := kept e (by simp)
    cases e with
    | input prompt code =>
      have code : isComment code = false := kept.2
      simp [fileLine, code, rest, typed]
    | output text => simp [fileLine, isComment_append, rest, typed]

theorem inline_of_mem_fileHeader : ∀ line ∈ fileHeader, Inline line := by
  simp [fileHeader, Inline]

/-- The code of a session file and its current line are single lines. -/
theorem isCode_ofText (text : String) :
    (∀ line ∈ (SessionFile.ofText text).code, IsCode line) ∧
      Inline (SessionFile.ofText text).current := by
  have inline {lines : List String} (sub : lines ⊆ editedLines text) :
      (∀ line ∈ (splitCurrent lines).1, Inline line) ∧ Inline (splitCurrent lines).2 := by
    have inline : ∀ line ∈ lines, Inline line :=
      fun line mem => inline_of_mem_editedLines (sub mem)
    unfold splitCurrent
    split
    · exact ⟨inline, inline_empty⟩
    · rename_i last final
      split
      · refine ⟨fun line mem => inline line (List.dropLast_subset _ mem), ?_⟩
        unfold Inline
        rw [String.toList_ofList]
        exact fun mem => inline last (List.mem_of_getLast? final) (List.mem_of_mem_drop mem)
      · exact ⟨inline, inline_empty⟩
  have sub : (if (editedLines text).getLast?.any isBlankLine then (editedLines text).dropLast
      else editedLines text) ⊆ editedLines text := by
    split
    · exact List.dropLast_subset _
    · exact List.Subset.refl _
  obtain ⟨code, current⟩ := inline sub
  refine ⟨fun line mem => ?_, current⟩
  obtain ⟨inside, plain⟩ := List.mem_filter.1 mem
  exact ⟨code line inside, by simpa [isComment] using plain⟩

/-- The file of a session holds its typed lines and its current line. -/
theorem ofText_toFile {s : Session} (kept : ∀ e ∈ s.transcript, Kept e)
    (inline : Inline s.buffer.current) :
    SessionFile.ofText s.toFile = ⟨typed s.transcript, s.buffer.current⟩ := by
  have lines : editedLines s.toFile = fileHeader ++ s.transcript.map fileLine ++
      [commentMark ++ s.buffer.current, ""] := by
    refine editedLines_intercalate (by simp) fun line mem => ?_
    rcases List.mem_append.1 mem with mem | mem
    · rcases List.mem_append.1 mem with mem | mem
      · exact inline_of_mem_fileHeader line mem
      · obtain ⟨e, inside, rfl⟩ := List.mem_map.1 mem
        exact inline_fileLine (kept e inside)
    · rcases List.mem_cons.1 mem with rfl | mem
      · exact inline_fileLine (e := .output s.buffer.current) inline
      · obtain rfl := List.mem_singleton.1 mem
        exact inline_empty
  have header : (fileHeader.filter fun line => !isComment line) = [] := by
    simp [fileHeader, isComment]
  have ended : (some "").any isBlankLine = true := by decide
  unfold SessionFile.ofText
  rw [lines, List.append_cons]
  dsimp only
  rw [List.getLast?_concat, List.dropLast_concat, if_pos ended, splitCurrent_append]
  change SessionFile.mk ((fileHeader ++ s.transcript.map fileLine).filter fun line =>
    !isComment line) s.buffer.current = _
  rw [List.filter_append, header, filter_fileLine kept]
  rfl

end Session

end Console
