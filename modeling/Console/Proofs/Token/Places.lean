import Mathlib.Data.List.DropRight
import Console.Proofs.Token.Progress

/-!
# Where tokens and faults stand

The cursor stands behind the part of the source that was read, and every token and every fault of the
lexer where it stood once. So their positions are told by the source alone, and they never decrease.
-/

namespace Console

namespace Position

/-- The position is behind the first part of a text. -/
def In (text : List Char) (p : Position) : Prop :=
  ∃ before, before <+: text ∧ p = start.past before

theorem in_start (text : List Char) : start.In text := ⟨[], List.nil_prefix, rfl⟩

theorem offset_past (p : Position) (text : List Char) :
    (p.past text).offset = p.offset + (String.ofList text).utf8ByteSize := by
  induction text generalizing p with
  | nil => rfl
  | cons ch text ih =>
    show ((p.next ch).past text).offset = _
    have onward : (p.next ch).offset = p.offset + ch.utf8Size := by
      unfold next
      split <;> rfl
    rw [ih, onward, String.ofList_cons, String.utf8ByteSize_append, String.utf8ByteSize_singleton,
      Nat.add_assoc]

/-- The column counts the characters behind the last line feed. -/
theorem column_past (text : List Char) :
    (start.past text).column = (text.rtakeWhile (· ≠ '\n')).length := by
  induction text using List.reverseRecOn with
  | nil => rfl
  | append_singleton text ch ih =>
    rw [past_append]
    change ((start.past text).next ch).column = _
    unfold next
    by_cases line : ch = '\n'
    · rw [if_pos line, List.rtakeWhile_concat_neg _ _ _ (by simpa using line)]
      rfl
    · rw [if_neg line, List.rtakeWhile_concat_pos _ _ _ (by simpa using line), List.length_append, ← ih]
      rfl

end Position

/-- The error stands on the line of a position in the text, and no further right. -/
def SyntaxError.Within (text : List Char) (e : SyntaxError) : Prop :=
  ∃ p : Position, p.In text ∧ e.line = p.line ∧ e.column ≤ p.column

theorem SyntaxError.within_of {text : List Char} {p : Position} (inside : p.In text)
    (fault : SyntaxFault) : (SyntaxError.of fault p).Within text :=
  ⟨p, inside, rfl, Nat.le_refl _⟩

namespace Cursor

variable {c c' : Cursor} {text : List Char}

/-- The start of a text. -/
def atStart (text : List Char) : Cursor := ⟨text, .start⟩

theorem Reaches.pos_in (reaches : (atStart text).Reaches c) : c.pos.In text := by
  obtain ⟨passed, rest, pos⟩ := reaches
  exact ⟨passed, ⟨c.rest, rest.symm⟩, pos⟩

theorem Reaches.offset_le (reaches : c.Reaches c') : c.pos.offset ≤ c'.pos.offset := by
  obtain ⟨passed, -, pos⟩ := reaches
  rw [pos, Position.offset_past]
  exact Nat.le_add_right _ _

end Cursor

namespace Token

open Text

variable {text : List Char} {s next last : LexState} {c : Cursor}

/-- The fault stands somewhere behind the cursor. -/
def Behind (c : Cursor) (e : SyntaxError) : Prop :=
  ∃ fault place, c.Reaches place ∧ e = .of fault place.pos

theorem Behind.within {e : SyntaxError} (behind : Behind c e)
    (reaches : (Cursor.atStart text).Reaches c) : e.Within text := by
  obtain ⟨fault, place, onward, rfl⟩ := behind
  exact SyntaxError.within_of (reaches.trans onward).pos_in fault

theorem Behind.trans {c' : Cursor} {e : SyntaxError} (behind : Behind c' e) (reaches : c.Reaches c') :
    Behind c e := by
  obtain ⟨fault, place, onward, rfl⟩ := behind
  exact ⟨fault, place, reaches.trans onward, rfl⟩

theorem behind_readHex {width : Nat} {e : SyntaxError} (failed : readHex width c = .error e) :
    Behind c e := by
  unfold readHex at failed
  dsimp only at failed
  split at failed
  · cases failed
    exact ⟨_, _, c.reaches_drop _, rfl⟩
  · split at failed
    · split at failed
      · cases failed
      · cases failed
        exact ⟨_, _, c.reaches_drop _, rfl⟩
    · cases failed
      exact ⟨_, _, c.reaches_drop _, rfl⟩

theorem behind_readEscape {ch : Char} {e : SyntaxError} (failed : readEscape ch c = .error e) :
    Behind c e := by
  unfold readEscape at failed
  split at failed
  · cases failed
  · split at failed
    · exact behind_readHex failed
    · split at failed
      · exact behind_readHex failed
      · split at failed <;> cases failed

/-- A literal that is not closed is a fault where it starts, all others stand in it. -/
theorem behind_readBody {o : Opening} {seen : List Char} {first : Cursor} (opened : first.pos = o.pos)
    (reaches : first.Reaches c) {e : SyntaxError} (failed : readBody o seen c = .error e) :
    Behind first e := by
  have unclosed (fault : SyntaxFault) : Behind first (.of fault o.pos) :=
    ⟨fault, first, .refl first, by rw [opened]⟩
  fun_induction readBody o seen c
  case case1 | case2 =>
    cases failed
    exact unclosed _
  case case3 =>
    cases failed
    exact ⟨_, _, reaches.trans (Cursor.reaches_drop _ 1), rfl⟩
  case case4 ih => exact ih (reaches.trans (Cursor.reaches_drop _ 2)) failed
  case case5 escape _ _ =>
    cases failed
    exact (behind_readEscape escape).trans (reaches.trans (Cursor.reaches_drop _ 2))
  case case6 escape _ _ ih =>
    exact ih ((reaches.trans (Cursor.reaches_drop _ 2)).trans (readEscape_reaches escape)) failed
  case case9 ih | case10 ih => exact ih (reaches.trans (Cursor.reaches_drop _ 1)) failed
  all_goals cases failed

theorem behind_readString {raw : Bool} {first : Cursor} (reaches : first.Reaches c) {e : SyntaxError}
    (failed : readString raw first.pos c = .error e) : Behind first e := by
  unfold readString at failed
  split at failed
  · exact behind_readBody rfl (reaches.trans (c.reaches_drop _)) failed
  · cases failed
    exact ⟨_, c, reaches, rfl⟩

theorem behind_name {e : SyntaxError} (failed : stepName s c = .error e) : Behind c e := by
  unfold stepName at failed
  dsimp only at failed
  split at failed
  · split at failed
    · rename_i unread
      cases failed
      exact behind_readString (c.reaches_drop _) unread
    · cases failed
  · cases failed

theorem behind_operator {e : SyntaxError} (failed : stepOperator s c = .error e) : Behind c e := by
  have here (fault : SyntaxFault) : Behind c (.of fault c.pos) := ⟨fault, c, .refl c, rfl⟩
  unfold stepOperator at failed
  split at failed
  · cases failed
    exact here _
  · dsimp only at failed
    split at failed
    · split at failed
      · cases failed
        exact here _
      · cases failed
    · split at failed
      · split at failed
        · cases failed
        · cases failed
          exact here _
      · cases failed
        exact here _
    · cases failed

theorem behind_token {ch : Char} {e : SyntaxError} (failed : stepToken s c ch = .error e) :
    Behind c e := by
  unfold stepToken at failed
  split at failed
  · split at failed
    · rename_i unread
      cases failed
      exact behind_readString (.refl c) unread
    · cases failed
  · split at failed
    · rcases readNumeral_cases c with ⟨_, _, numeral, -⟩ | ⟨fault, place, -, reaches, numeral⟩
      · rw [numeral] at failed
        cases failed
      · rw [numeral] at failed
        cases failed
        exact ⟨fault, place, reaches, rfl⟩
    · split at failed
      · exact behind_name failed
      · exact behind_operator failed

theorem behind_layout {column : Nat} {e : SyntaxError} (failed : layout s column c = .error e) :
    Behind c e := by
  unfold layout at failed
  split at failed
  · cases failed
  · dsimp only at failed
    split at failed
    · cases failed
    · cases failed
      exact ⟨_, c, .refl c, rfl⟩

theorem behind_backslash {e : SyntaxError} (failed : stepBackslash s c = .error e) : Behind c e := by
  unfold stepBackslash at failed
  split at failed
  · cases failed
    exact ⟨_, _, c.reaches_drop 1, rfl⟩
  · split at failed
    · cases failed
    · cases failed
      exact ⟨_, _, c.reaches_drop 1, rfl⟩

theorem error_of_map {r : Except SyntaxError LexState} {e : SyntaxError}
    (failed : r.map Step.more = .error e) : r = .error e := by
  cases r with
  | error error =>
    cases failed
    rfl
  | ok state => cases failed

/-- A step fails somewhere behind the cursor, or at a bracket that is still open. -/
theorem step_error {e : SyntaxError} (failed : step s = .error e) :
    Behind s.cursor e ∨ ∃ b ∈ s.brackets, ∃ fault, e = .of fault b.2 := by
  have onward (behind : Behind (s.cursor.dropWhile isSpace) e) : Behind s.cursor e :=
    behind.trans (s.cursor.reaches_dropWhile isSpace)
  unfold step at failed
  split at failed
  · unfold stepLine at failed
    dsimp only at failed
    split at failed
    · cases failed
    · split at failed
      · cases failed
      · split at failed
        · cases failed
        · exact .inl (onward (behind_layout (error_of_map failed)))
  · unfold stepWithin at failed
    dsimp only at failed
    split at failed
    · split at failed
      · rename_i b p others unclosed
        cases failed
        exact .inr ⟨(b, p), by rw [unclosed]; exact List.mem_cons_self, _, rfl⟩
      · cases failed
    · split at failed
      · cases failed
      · split at failed
        · cases failed
        · split at failed
          · exact .inl (onward (behind_backslash (error_of_map failed)))
          · exact .inl (onward (behind_token (error_of_map failed)))

/-- Where the tokens start that were read so far, the newest first. -/
def LexState.places (s : LexState) : List Position := s.tokens.map Token.pos

/-- The cursor stands behind the first part of the text. The tokens and the open brackets were found
there, each token no later than the next one. -/
structure Located (text : List Char) (s : LexState) : Prop where
  cursor : (Cursor.atStart text).Reaches s.cursor
  /-- The cursor is the latest place, so what is read next stands behind all tokens. -/
  ordered : (s.cursor.pos :: s.places).Pairwise fun later earlier => earlier.offset ≤ later.offset
  tokens : ∀ p ∈ s.places, p.In text
  brackets : ∀ b ∈ s.brackets, b.2.In text

/-- New tokens stand at one place ahead, and the cursor goes on from there. -/
theorem Located.onward (h : Located text s) (ahead : s.cursor.Reaches c)
    (reaches : c.Reaches next.cursor) {n : Nat}
    (places : next.places = List.replicate n c.pos ++ s.places)
    (brackets : ∀ b ∈ next.brackets, b ∈ s.brackets ∨ b.2 = c.pos) : Located text next := by
  have inside : c.pos.In text := (h.cursor.trans ahead).pos_in
  have ⟨before, sorted⟩ := List.pairwise_cons.1 h.ordered
  have old {p : Position} (mem : p ∈ s.places) : p.offset ≤ c.pos.offset :=
    Nat.le_trans (before p mem) ahead.offset_le
  refine ⟨(h.cursor.trans ahead).trans reaches, List.pairwise_cons.2 ⟨fun p mem => ?_, ?_⟩,
    fun p mem => ?_, fun b mem => ?_⟩
  · rw [places] at mem
    refine Nat.le_trans ?_ reaches.offset_le
    rcases List.mem_append.1 mem with mem | mem
    · rw [List.eq_of_mem_replicate mem]
    · exact old mem
  · rw [places]
    refine List.pairwise_append.2 ⟨List.pairwise_replicate.2 (.inr (Nat.le_refl _)), sorted,
      fun p mem q mem' => ?_⟩
    rw [List.eq_of_mem_replicate mem]
    exact old mem'
  · rw [places] at mem
    rcases List.mem_append.1 mem with mem | mem
    · rw [List.eq_of_mem_replicate mem]
      exact inside
    · exact h.tokens p mem
  · rcases brackets b mem with open' | here
    · exact h.brackets b open'
    · rw [here]
      exact inside

/-- What is no token is passed. -/
theorem Located.past (h : Located text s) (reaches : s.cursor.Reaches c) :
    Located text { s with cursor := c } :=
  h.onward (n := 0) reaches (.refl c) rfl fun _ old => .inl old

theorem Located.layout (h : Located text s) (ahead : s.cursor.Reaches c) {column : Nat}
    (read : layout s column c = .ok next) : Located text next := by
  unfold Token.layout at read
  split at read
  · cases read
    exact h.onward (n := 1) ahead (.refl c) rfl fun b mem => .inl mem
  · dsimp only at read
    split at read
    · cases read
      refine h.onward (n := (s.indents.takeWhile (column < ·)).length) ahead (.refl c) ?_
        fun b mem => .inl mem
      unfold LexState.places
      rw [List.map_append, List.map_map]
      exact congrArg (· ++ s.places) List.map_const
    · cases read

theorem Located.step (h : Located text s) (read : step s = .ok (.more next)) : Located text next := by
  have blanks := s.cursor.reaches_dropWhile isSpace
  have dropped (n : Nat) : s.cursor.Reaches ((s.cursor.dropWhile isSpace).drop n) :=
    blanks.trans (Cursor.reaches_drop _ n)
  have commented : s.cursor.Reaches ((s.cursor.dropWhile isSpace).dropWhile (· ≠ '\n')) :=
    blanks.trans (Cursor.reaches_dropWhile _ _)
  cases step_more_iff.1 read with
  | emptyLine => exact h.past (dropped 1)
  | commentLine => exact h.past (commented.trans (Cursor.reaches_drop _ 1))
  | line _ _ _ _ laid => exact h.layout blanks laid
  | lineEnd =>
    by_cases outside : s.brackets = []
    · rw [stepNewline_outside outside]
      exact h.onward (n := 1) blanks (Cursor.reaches_drop _ 1) rfl fun b mem => by cases mem
    · rw [stepNewline_within outside]
      exact h.past (dropped 1)
  | comment => exact h.past commented
  | joint => exact h.past (dropped 2)
  | token _ _ _ read =>
    have taken := taken_token read
    -- a literal behind another one is part of the token that starts there
    rcases taken.places with merged | added
    · exact h.onward (n := 0) blanks taken.reaches merged taken.brackets
    · exact h.onward (n := 1) blanks taken.reaches added taken.brackets

theorem Located.run (h : Located text s) (read : run s = .ok last) : Located text last := by
  fun_induction Token.run s
  case case1 => cases read
  case case2 s last' finished =>
    cases read
    obtain ⟨-, -, rfl⟩ := step_finished finished
    exact h.past (s.cursor.reaches_dropWhile isSpace)
  case case3 s s' onward ih => exact ih (h.step onward) read

/-- A run fails at a place of its text. -/
theorem Located.within (h : Located text s) {e : SyntaxError} (failed : Token.run s = .error e) :
    e.Within text := by
  fun_induction Token.run s
  case case1 s e' stops =>
    cases failed
    rcases step_error stops with behind | ⟨b, mem, fault, rfl⟩
    · exact behind.within h.cursor
    · exact SyntaxError.within_of (h.brackets b mem) fault
  case case2 => cases failed
  case case3 s s' onward ih => exact ih (h.step onward) failed

theorem Located.ofString (source : String) : Located source.toList (.ofString source) :=
  ⟨.refl _, List.pairwise_singleton _ _, fun _ mem => (List.not_mem_nil mem).elim,
    fun _ mem => (List.not_mem_nil mem).elim⟩

/-- The tokens of a source stand in it, each no later than the next one. -/
theorem Located.finished (h : Located text s) (closeBlocks : Bool) :
    (∀ x ∈ finish s closeBlocks, x.pos.In text) ∧
      ((finish s closeBlocks).map fun x => x.pos.offset).Pairwise (· ≤ ·) := by
  obtain ⟨R, ends, here⟩ := finish_tokens s closeBlocks
  have ⟨before, sorted⟩ := List.pairwise_cons.1 h.ordered
  rw [ends]
  constructor
  · intro x inside
    rcases List.mem_append.1 inside with old | new
    · exact h.tokens x.pos (List.mem_map_of_mem (List.mem_reverse.1 old))
    · rw [here x new]
      exact h.cursor.pos_in
  · refine List.pairwise_map.2 (List.pairwise_append.2 ⟨?_, ?_, fun x old y new => ?_⟩)
    · exact List.pairwise_reverse.2 (List.pairwise_map.1 sorted)
    · refine List.pairwise_of_forall_mem_list fun x new y new' => ?_
      rw [here x new, here y new']
    · rw [here y new]
      exact before x.pos (List.mem_map_of_mem (List.mem_reverse.1 old))

end Token

end Console
