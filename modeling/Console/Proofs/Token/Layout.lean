import Console.Proofs.Token.Lexer
import Console.Proofs.Tree.Blocks

/-!
# What a step of the lexer adds

Each step skips, adds one word, ends a line, or opens or closes blocks. So the tokens read so far
make whole lines at every start of a line, and open as many blocks as there are indented columns.
-/

namespace Console.Token

open Text Parse LexState

/-- What a step that leads on does to the tokens, the columns and the place in the line. -/
inductive Move (s s' : LexState) : Prop
  | skip (tokens : s'.tokens = s.tokens) (indents : s'.indents = s.indents)
      (line : s'.lineStart = s.lineStart) (brackets : s'.brackets = s.brackets)
  | indent (p : Position) (column : Nat) (tokens : s'.tokens = ⟨.indent, p⟩ :: s.tokens)
      (indents : s'.indents = column :: s.indents) (line : s'.lineStart = false)
  | dedents (p : Position) (closed : List Nat) (indents : s.indents = closed ++ s'.indents)
      (tokens : s'.tokens = closed.map (fun _ => ⟨.dedent, p⟩) ++ s.tokens)
      (line : s'.lineStart = false)
  | newline (p : Position) (tokens : s'.tokens = ⟨.newline, p⟩ :: s.tokens)
      (indents : s'.indents = s.indents) (line : s'.lineStart = true) (outside : s'.brackets = [])
  | word (t : Token) (inline : isLayout t = false) (tokens : s'.tokens = t :: s.tokens)
      (indents : s'.indents = s.indents) (line : s'.lineStart = false)
  | join (text more : String) (p : Position) (others : List Token)
      (before : s.tokens = ⟨.str text, p⟩ :: others)
      (tokens : s'.tokens = ⟨.str (text ++ more), p⟩ :: others) (indents : s'.indents = s.indents)
      (line : s'.lineStart = false)

namespace Move

variable {s : LexState} (within : s.lineStart = false)
include within

theorem addString (text : List Char) (start : Position) (after : Cursor) :
    Move s (s.addString text start after) := by
  unfold LexState.addString
  split
  · rename_i before first others same
    exact .join before _ first others same rfl rfl within
  · exact .word _ rfl rfl rfl within

theorem add {kind : TokenKind} {start : Position} (inline : isLayout ⟨kind, start⟩ = false)
    (after : Cursor) : Move s (s.add kind start after) :=
  .word _ inline rfl rfl within

end Move

variable {s : LexState} {c : Cursor} {ch : Char} {tail : List Char}

/-- What a step does to the text left, and what a failure of it may lack. -/
def Moves (s : LexState) (c : Cursor) (r : Except SyntaxError LexState) : Prop :=
  match r with
  | .ok s' => Move s s' ∧ s'.cursor.rest <:+ c.rest
  | .error error => ∀ missing, error.fault.missing? = some missing → Lacks missing c.rest

section Within

variable (within : s.lineStart = false)
include within

theorem moves_string {raw : Bool} {start : Position} {after : Cursor} (p : Position)
    (inside : after.rest <:+ c.rest) :
    Moves s c (match readString raw start after with
      | .error e => .error e
      | .ok (text, behind) => .ok (s.addString text p behind)) := by
  cases read : readString raw start after with
  | error error =>
    intro missing lacks
    exact (readString_lacks read lacks).of_suffix inside
  | ok x =>
    obtain ⟨text, behind⟩ := x
    refine ⟨.addString within text p behind, ?_⟩
    have left := (readString_reaches read).suffix.trans inside
    unfold addString
    split <;> exact left

theorem moves_name : Moves s c (stepName s c) := by
  unfold stepName
  dsimp only
  split
  · exact moves_string within c.pos (Cursor.suffix_drop _ _)
  · exact ⟨.add within rfl _, Cursor.suffix_drop _ _⟩

theorem moves_operator : Moves s c (stepOperator s c) := by
  unfold stepOperator
  split
  · exact fun missing lacks => by cases lacks
  · dsimp only
    split
    · split
      · exact fun missing lacks => by cases lacks
      · exact ⟨.word _ rfl rfl rfl within, Cursor.suffix_drop _ _⟩
    · split
      · split
        · exact ⟨.word _ rfl rfl rfl within, Cursor.suffix_drop _ _⟩
        · exact fun missing lacks => by cases lacks
      · exact fun missing lacks => by cases lacks
    · exact ⟨.add within rfl _, Cursor.suffix_drop _ _⟩

theorem moves_token : Moves s c (stepToken s c ch) := by
  unfold stepToken
  split
  · exact moves_string within c.pos (List.suffix_refl _)
  · split
    · rcases readNumeral_cases c with ⟨kind, after, read, inside, numeral⟩ |
        ⟨fault, place, final, -, failed⟩
      · rw [read]
        refine ⟨.add within ?_ after, inside.suffix⟩
        rcases numeral with ⟨n, rfl⟩ | ⟨x, rfl⟩ <;> rfl
      · rw [failed]
        intro missing lacks
        simp [SyntaxError.of, final] at lacks
    · split
      · exact moves_name within
      · exact moves_operator within

end Within

theorem moves_backslash (begins : c.rest = '\\' :: tail) : Moves s c (stepBackslash s c) := by
  unfold stepBackslash
  split
  · rename_i last
    intro missing lacks
    cases lacks
    have nothing : tail = [] := by simpa [begins] using last
    subst nothing
    rw [begins]
    exact .inr ⟨rfl, List.suffix_refl _⟩
  · split
    · exact ⟨.skip rfl rfl rfl rfl, Cursor.suffix_drop _ _⟩
    · exact fun missing lacks => by cases lacks

/-- The tokens read so far end no source, open a block for each indented column, and stand in whole
lines at the start of a line, where no bracket is open. -/
structure Sound (s : LexState) : Prop where
  inside : ∀ t ∈ s.tokens, isEnd t = false
  opened : depth s.tokens = s.indents.length
  start : s.lineStart = true → s.brackets = [] ∧ ∀ t ∈ s.tokens.head?, isNewline t = true

theorem sound_ofString (source : String) : Sound (.ofString source) :=
  ⟨by simp [ofString], rfl, fun _ => ⟨rfl, by simp [ofString]⟩⟩

theorem isEnd_of_isLayout {t : Token} (inline : isLayout t = false) : isEnd t = false := by
  unfold isLayout at inline
  unfold isEnd
  split at inline <;> simp_all

theorem depth_dedents (closed : List Nat) (p : Position) :
    depth (closed.map fun _ => ⟨.dedent, p⟩) = -(closed.length : Int) := by
  induction closed with
  | nil => rfl
  | cons column closed ih =>
    rw [List.map_cons, depth_cons, ih, List.length_cons]
    show -1 + -(closed.length : Int) = _
    omega

theorem Sound.move {s' : LexState} (h : Sound s) (move : Move s s') : Sound s' := by
  cases move with
  | skip tokens indents line brackets =>
    exact ⟨by rw [tokens]; exact h.inside, by rw [tokens, indents]; exact h.opened,
      by rw [tokens, line, brackets]; exact h.start⟩
  | indent p column tokens indents line =>
    refine ⟨?_, ?_, by simp [line]⟩
    · rw [tokens]
      exact List.forall_mem_cons.2 ⟨rfl, h.inside⟩
    · rw [tokens, indents, depth_cons, h.opened, List.length_cons]
      show 1 + (s.indents.length : Int) = _
      omega
  | dedents p closed indents tokens line =>
    refine ⟨?_, ?_, by simp [line]⟩
    · rw [tokens]
      intro t mem
      rcases List.mem_append.1 mem with mem | mem
      · obtain ⟨_, -, rfl⟩ := List.mem_map.1 mem
        rfl
      · exact h.inside t mem
    · have opened := h.opened
      rw [indents, List.length_append] at opened
      rw [tokens, depth_append, depth_dedents, opened]
      omega
  | newline p tokens indents line outside =>
    refine ⟨?_, ?_, fun _ => ⟨outside, ?_⟩⟩
    · rw [tokens]
      exact List.forall_mem_cons.2 ⟨rfl, h.inside⟩
    · rw [tokens, indents, depth_cons, h.opened]
      exact Int.zero_add _
    · rw [tokens]
      intro t same
      cases same
      rfl
  | word t inline tokens indents line =>
    refine ⟨?_, ?_, by simp [line]⟩
    · rw [tokens]
      exact List.forall_mem_cons.2 ⟨isEnd_of_isLayout inline, h.inside⟩
    · rw [tokens, indents, depth_cons, depthOf_of_isLayout inline, h.opened]
      exact Int.zero_add _
  | join text more p others before tokens indents line =>
    have inside := h.inside
    have opened := h.opened
    rw [before] at inside opened
    refine ⟨?_, ?_, by simp [line]⟩
    · rw [tokens]
      exact List.forall_mem_cons.2 ⟨rfl, (List.forall_mem_cons.1 inside).2⟩
    · rw [tokens, indents]
      exact opened

/-- A step moves, or is over outside of brackets, or fails; a failure that more text would cure lacks
a bracket, or what a text may lack outside of brackets. -/
def StepMoves (s : LexState) (r : Except SyntaxError Step) : Prop :=
  match r with
  | .ok (.more s') => Move s s' ∧ s'.cursor.rest <:+ s.cursor.rest
  | .ok (.finished s') => Move s s' ∧ s'.brackets = []
  | .error error => ∀ missing, error.fault.missing? = some missing →
      missing = .closingBracket ∨ Lacks missing s.cursor.rest

theorem StepMoves.of_moves {r : Except SyntaxError LexState} (moves : Moves s c r)
    (inside : c.rest <:+ s.cursor.rest) : StepMoves s (r.map .more) := by
  cases r with
  | ok s' => exact ⟨moves.1, moves.2.trans inside⟩
  | error error =>
    intro missing lacks
    exact .inr ((moves missing lacks).of_suffix inside)

theorem moves_layout (column : Nat) : Moves s c (layout s column c) := by
  unfold layout
  split
  · exact ⟨.indent c.pos column rfl rfl rfl, List.suffix_refl _⟩
  · dsimp only
    split
    · refine ⟨.dedents c.pos (s.indents.takeWhile (column < ·)) ?_ rfl rfl, List.suffix_refl _⟩
      exact List.takeWhile_append_dropWhile.symm
    · exact fun missing lacks => by cases lacks

theorem stepLine_moves (outside : s.brackets = []) : StepMoves s (stepLine s) := by
  have inside := Cursor.suffix_dropWhile s.cursor isSpace
  unfold stepLine
  dsimp only
  split
  · exact ⟨.skip rfl rfl rfl rfl, outside⟩
  · split
    · exact ⟨.skip rfl rfl rfl rfl, (Cursor.suffix_drop _ _).trans inside⟩
    · split
      · exact ⟨.skip rfl rfl rfl rfl,
          (Cursor.suffix_drop _ _).trans ((Cursor.suffix_dropWhile _ _).trans inside)⟩
      · exact .of_moves (moves_layout _) inside

theorem stepWithin_moves (within : s.lineStart = false) : StepMoves s (stepWithin s) := by
  have inside := Cursor.suffix_dropWhile s.cursor isSpace
  unfold stepWithin
  dsimp only
  split
  · split
    · intro missing lacks
      cases lacks
      exact .inl rfl
    · rename_i outside
      exact ⟨.skip rfl rfl rfl rfl, outside⟩
  · rename_i ch tail begins
    split
    · unfold stepNewline
      split
      · rename_i outside
        exact ⟨.newline _ rfl rfl rfl (List.isEmpty_iff.1 outside),
          (Cursor.suffix_drop _ _).trans inside⟩
      · exact ⟨.skip rfl rfl rfl rfl, (Cursor.suffix_drop _ _).trans inside⟩
    · split
      · exact ⟨.skip rfl rfl rfl rfl, (Cursor.suffix_dropWhile _ _).trans inside⟩
      · split
        · rename_i backslash
          subst backslash
          exact .of_moves (moves_backslash begins) inside
        · exact .of_moves (moves_token within) inside

theorem step_moves (sound : Sound s) : StepMoves s (step s) := by
  unfold step
  split
  · rename_i start
    rw [Bool.and_eq_true, List.isEmpty_iff] at start
    exact stepLine_moves start.2
  · rename_i start
    refine stepWithin_moves ?_
    cases line : s.lineStart with
    | false => rfl
    | true =>
      have outside := (sound.start line).1
      simp [line, outside] at start

/-- A run ends in a sound state outside of brackets. -/
theorem run_sound {last : LexState} (sound : Sound s) (read : run s = .ok last) :
    Sound last ∧ last.brackets = [] := by
  fun_induction run s
  case case1 => cases read
  case case2 s last' finished =>
    cases read
    have moves := step_moves sound
    rw [finished] at moves
    exact ⟨sound.move moves.1, moves.2⟩
  case case3 s s' onward ih =>
    have moves := step_moves sound
    rw [onward] at moves
    exact ih (sound.move moves.1) read

/-- What the end of a text may lack for the lexer. -/
theorem run_lacks {error : SyntaxError} {missing : Missing} (sound : Sound s)
    (failed : run s = .error error) (lacks : error.fault.missing? = some missing) :
    missing = .closingBracket ∨ Lacks missing s.cursor.rest := by
  fun_induction run s
  case case1 s error' stuck =>
    cases failed
    have moves := step_moves sound
    rw [stuck] at moves
    exact moves missing lacks
  case case2 => cases failed
  case case3 s s' onward ih =>
    have moves := step_moves sound
    rw [onward] at moves
    rcases ih (sound.move moves.1) failed with bracket | outside
    · exact .inl bracket
    · exact .inr (outside.of_suffix moves.2)

/-- Tokens, newest first, of which a literal in front may have gone on. -/
def grown (more : String) : List Token → List Token
  | ⟨.str text, p⟩ :: others => ⟨.str (text ++ more), p⟩ :: others
  | ts => ts

theorem grown_empty (ts : List Token) : grown "" ts = ts := by
  unfold grown
  split <;> simp

theorem grown_of_apart {ts : List Token} (apart : ∀ t ∈ ts.head?, ∀ text, t.kind ≠ .str text)
    (more : String) : grown more ts = ts := by
  unfold grown
  split
  · exact absurd rfl (apart _ rfl _)
  · rfl

theorem grown_append {ts others : List Token} {text more : String} {p : Position} (more' : String)
    (same : grown more ts = ⟨.str text, p⟩ :: others) :
    grown (more ++ more') ts = ⟨.str (text ++ more'), p⟩ :: others := by
  unfold grown at *
  split at same
  · cases same
    rw [String.append_assoc]
  · rename_i apart
    exact absurd same (apart _ _ _)

/-- Tokens stay as they are, but for a literal in front that goes on: more tokens are put before
them. -/
theorem run_grows {base : List Token} {last : LexState} (sound : Sound s)
    (before : ∃ more, grown more base <:+ s.tokens) (read : run s = .ok last) :
    ∃ more, grown more base <:+ last.tokens := by
  have kept {s s' : LexState} (before : ∃ more, grown more base <:+ s.tokens) (move : Move s s') :
      ∃ more, grown more base <:+ s'.tokens := by
    obtain ⟨more, before⟩ := before
    cases move with
    | skip tokens => exact ⟨more, by rwa [tokens]⟩
    | indent p column tokens => exact ⟨more, by rw [tokens]; exact before.trans (List.suffix_cons _ _)⟩
    | dedents p closed indents tokens =>
      exact ⟨more, by rw [tokens]; exact before.trans (List.suffix_append _ _)⟩
    | newline p tokens => exact ⟨more, by rw [tokens]; exact before.trans (List.suffix_cons _ _)⟩
    | word t inline tokens => exact ⟨more, by rw [tokens]; exact before.trans (List.suffix_cons _ _)⟩
    | join text more' p others same tokens =>
      rw [same] at before
      rcases List.suffix_cons_iff.1 before with all | rest
      · exact ⟨more ++ more', by simp [tokens, grown_append more' all]⟩
      · exact ⟨more, by rw [tokens]; exact rest.trans (List.suffix_cons _ _)⟩
  fun_induction run s
  case case1 => cases read
  case case2 s last' finished =>
    cases read
    have moves := step_moves sound
    rw [finished] at moves
    exact kept before moves.1
  case case3 s s' onward ih =>
    have moves := step_moves sound
    rw [onward] at moves
    exact ih (sound.move moves.1) (kept before moves.1) read

/-- What is read begins with the tokens that are there. -/
theorem run_keeps {last : LexState} (sound : Sound s) (read : run s = .ok last) :
    ∃ more, grown more s.tokens <:+ last.tokens :=
  run_grows sound ⟨"", by simp [grown_empty]⟩ read

/-- Tokens that end in no literal stay as they are. -/
theorem run_extends_of_apart {base : List Token} {last : LexState}
    (apart : ∀ t ∈ base.head?, ∀ text, t.kind ≠ .str text) (sound : Sound s)
    (before : base <:+ s.tokens) (read : run s = .ok last) : base <:+ last.tokens := by
  have here : grown "" base <:+ s.tokens := by rwa [grown_empty]
  obtain ⟨more, after⟩ := run_grows sound ⟨"", here⟩ read
  rwa [grown_of_apart apart] at after

/-- Whole lines stay as they are. -/
theorem run_extends {base : List Token} {last : LexState}
    (ended : ∀ t ∈ base.head?, isNewline t = true) (sound : Sound s)
    (before : base <:+ s.tokens) (read : run s = .ok last) : base <:+ last.tokens := by
  refine run_extends_of_apart (fun t first text kind => ?_) sound before read
  have := ended t first
  simp [isNewline, kind] at this

end Console.Token
