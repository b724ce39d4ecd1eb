import Console.Proofs.Token.Lockstep
import Console.Proofs.Token.Progress
import Console.Proofs.Whole

/-!
# Units one behind another

Where a text begins, blocks of the text before it may be open still. Its first line stands at column 0
and closes them all; from there on it is read as if it stood alone. So units that are typed one after
another make the script of their texts behind each other: its statements are those of the units in
order, each on the lines that it has there. No unit begins with a branch that the unit before it could
take.
-/

namespace Console.Token

open Text Parse LexState

variable {A : Alignment} {base : List Token} {pending : List Nat} {word : List Char}
  {c c' : Cursor} {next last : LexState}

/-- The state before a text, behind the tokens of `base` and with the columns `pending` open. -/
def LexState.before (base : List Token) (pending : List Nat) (c : Cursor) : LexState :=
  ⟨c, pending, [], true, base⟩

theorem sound_before (c : Cursor) : Sound (before [] [] c) :=
  ⟨by simp [before], rfl, fun _ => ⟨rfl, by simp [before]⟩⟩

/-- The first line of a text closes all blocks. -/
theorem layout_before (deep : ∀ column ∈ pending, 0 < column) (c : Cursor) :
    layout (before base pending c') 0 c =
      .ok ⟨c, [], [], false, pending.map (fun _ => ⟨.dedent, c.pos⟩) ++ base⟩ := by
  have all : pending.takeWhile (fun column => decide (0 < column)) = pending :=
    List.takeWhile_eq_self_iff.2 fun column mem => decide_eq_true (deep column mem)
  have kept : pending.dropWhile (fun column => decide (0 < column)) = [] :=
    List.dropWhile_eq_nil_iff.2 fun column mem => decide_eq_true (deep column mem)
  unfold layout before
  rw [if_neg (Nat.not_lt_zero _)]
  dsimp only
  rw [all, kept]
  rfl

/-- Behind a first line at column 0, which closes what was open, the text is read as it is alone. -/
theorem run_levelled {p : Position} (apart : ∀ t ∈ base.head?, ∀ text, t.kind ≠ .str text)
    (h : Cursor.Abreast A [] [] word c c') (read : run ⟨c, [], [], false, []⟩ = .ok last) :
    ∃ last', run ⟨c', [], [], false, pending.map (fun _ => ⟨.dedent, p⟩) ++ base⟩ = .ok last' ∧
      A.aligned last.cursor.pos last'.cursor.pos ∧
      Akin A id (pending.map (fun _ => ⟨.dedent, p⟩) ++ base) last last' := by
  have lockstep : Lockstep A (pending.map (fun _ => ⟨.dedent, p⟩) ++ base) [] [] word
      ⟨c, [], [], false, []⟩ ⟨c', [], [], false, pending.map (fun _ => ⟨.dedent, p⟩) ++ base⟩ :=
    ⟨⟨rfl, rfl, rfl, _, rfl, .nil⟩, h⟩
  obtain ⟨last', read', akin, pos⟩ := run_lockstep (by
    cases pending with
    | nil => exact apart
    | cons column pending => simp) lockstep read
  exact ⟨last', read', pos, akin⟩

/-- A first line at another column opens a block with its first token. -/
theorem indent_of_indented {column : Nat} (laid : layout (before [] [] c) (column + 1) c' = .ok next)
    (read : run next = .ok last) : [⟨.indent, c'.pos⟩] <:+ last.tokens := by
  have move := moves_layout (s := before [] [] c) (c := c') (column + 1)
  rw [laid] at move
  have sound := (sound_before c).move move.1
  unfold layout at laid
  rw [if_pos (show (before [] [] c).column < column + 1 from Nat.zero_lt_succ _)] at laid
  cases laid
  exact run_extends_of_apart (by simp) sound (List.suffix_refl _) read

/-- A text whose first line opens no block is read behind others as it is alone, once that line has
closed what was open. If no line of it has any token, what was open stays open. -/
theorem run_before (deep : ∀ column ∈ pending, 0 < column)
    (apart : ∀ t ∈ base.head?, ∀ text, t.kind ≠ .str text)
    (h : Cursor.Abreast A [] [] word c c') (read : run (before [] [] c) = .ok last)
    (level : ∀ p, ¬ [⟨.indent, p⟩] <:+ last.tokens) :
    ∃ last', run (before base pending c') = .ok last' ∧
      A.aligned last.cursor.pos last'.cursor.pos ∧
      ((∃ c c', last = before [] [] c ∧ last' = before base pending c') ∨
        ∃ p, Akin A id (pending.map (fun _ => ⟨.dedent, p⟩) ++ base) last last') := by
  generalize same : before [] [] c = s at read
  fun_induction run s generalizing word c c'
  case case1 => cases read
  case case2 s last' finished =>
    cases read
    subst same
    obtain ⟨blank, -, rfl⟩ := step_finished finished
    obtain ⟨-, behind⟩ := h.dropWhile (p := isSpace) (.inr ⟨by simp, by simp⟩)
    have none' : (c'.dropWhile isSpace).rest = [] := by
      rw [behind.rest', ← behind.rest]
      exact blank
    exact ⟨_, run_finished ((step_nothing none').1 rfl), behind.pos, .inl ⟨_, _, rfl, rfl⟩⟩
  case case3 s next onward ih =>
    subst same
    have visible : word.dropWhile isSpace ≠ [] := by
      have more := rest_of_more onward
      rwa [Cursor.rest_dropWhile, show (before [] [] c).cursor = c from rfl, h.rest,
        List.append_nil] at more
    obtain ⟨blanks, behind⟩ := h.dropWhile (.inl visible)
    obtain ⟨ch, letters, begins⟩ := List.exists_cons_of_ne_nil visible
    rw [begins] at behind
    have first {d : Char} {text : List Char} (begins : (c.dropWhile isSpace).rest = d :: text) :
        ch = d := (List.cons.inj (behind.rest.symm.trans begins)).1
    cases step_more_iff.1 onward with
    | emptyLine _ begins =>
      obtain rfl := first begins
      rw [run_more (step_more_iff.2 (.emptyLine rfl behind.rest'))]
      exact ih (behind.drop_beyond rfl rfl 1) rfl read
    | commentLine _ begins =>
      obtain rfl := first begins
      rw [run_more (step_more_iff.2 (.commentLine rfl behind.rest'))]
      exact ih ((behind.dropWhile (.inr ⟨by simp, by simp⟩)).2.drop_beyond rfl rfl 1) rfl read
    | line _ begins lineEnd comment laid =>
      obtain rfl := first begins
      have here {next : LexState} (laid : layout (before base pending c')
          (indentColumn (c.rest.takeWhile isSpace)) (c'.dropWhile isSpace) = .ok next) :
          step (before base pending c') = .ok (.more next) := by
        rw [← blanks] at laid
        exact step_more_iff.2 (.line rfl behind.rest' lineEnd comment laid)
      change layout (before [] [] c) (indentColumn (c.rest.takeWhile isSpace)) (c.dropWhile isSpace) =
        .ok next at laid
      generalize indentColumn (c.rest.takeWhile isSpace) = column at laid here
      cases column with
      | zero =>
        rw [layout_before (by simp)] at laid
        cases laid
        obtain ⟨last', read', pos, akin⟩ := run_levelled apart behind read
        exact ⟨last', (run_more (here (layout_before deep _))).trans read', pos, .inr ⟨_, akin⟩⟩
      | succ column => exact absurd (indent_of_indented laid read) (level _)
    | lineEnd inline | comment inline | joint inline | token inline => cases inline

end Console.Token

namespace Console

open Text Token Parse Statement LexState

variable {text : String} {last : LexState} {e : Token} {body others : List Statement}

/-- A text may start here: lines are over, outside of brackets, and `n` lines stand before it. -/
structure Ready (n : Nat) (s : LexState) : Prop where
  outside : s.brackets = []
  start : s.lineStart = true
  deep : ∀ column ∈ s.indents, 0 < column
  apart : ∀ t ∈ s.tokens.head?, ∀ text, t.kind ≠ .str text
  line : s.cursor.pos.line = 1 + n

theorem ready_ofString (source : String) : Ready 0 (.ofString source) :=
  ⟨rfl, rfl, by simp [ofString], by simp [ofString], rfl⟩

variable {s : LexState} {n : Nat}

theorem Ready.eq_before (ready : Ready n s) : s = before s.tokens s.indents s.cursor := by
  obtain ⟨cursor, indents, brackets, lineStart, tokens⟩ := s
  obtain ⟨rfl, rfl, -, -, -⟩ := ready
  rfl

/-- A program opens no block with its first line. -/
theorem not_indent_of_holds (holds : Holds (wholeOf last ++ [e]) body) (p : Position) :
    ¬ [⟨.indent, p⟩] <:+ last.tokens := by
  rintro ⟨others, same⟩
  have first : ∃ more, wholeOf last ++ [e] = ⟨.indent, p⟩ :: more := by
    have tokens : ∃ others', (last.nextLine []).tokens = others' ++ [⟨.indent, p⟩] := by
      unfold LexState.nextLine
      cases last.lineStart with
      | true => exact ⟨others, same.symm⟩
      | false => exact ⟨⟨.newline, last.cursor.pos⟩ :: others, by simp [← same]⟩
    obtain ⟨others', tokens⟩ := tokens
    exact ⟨_, by rw [wholeOf, linesOf, tokens, List.reverse_append]; rfl⟩
  obtain ⟨more, first⟩ := first
  rw [first] at holds
  rcases holds.begins with ending | begins
  · cases ending
  · cases begins

/-- Tokens that stand `n` lines apart are the same words there. -/
theorem sameWord_of_below {t t' : Token} (same : SameToken (.below n) t t') :
    SameWord (· + n) id t t' :=
  ⟨same.1, fun _ => same.2⟩

/-- The statements of one unit come before those of what is behind it. -/
theorem holds_lines (lexed : run (.ofString text) = .ok last) (ending : isEnd e = true)
    (holds : Holds (wholeOf last ++ [e]) body) {ts D R : List Token}
    (known : List.Forall₂ (SameToken (.below n)) (last.nextLine []).tokens ts)
    (closes : Closings last.indents D) (behind : Holds R others) :
    Holds (ts.reverse ++ D ++ R) (relocateAll (· + n) body ++ others) := by
  have lines : List.Forall₂ (SameWord (· + n) id) (linesOf last) ts.reverse :=
    List.rel_reverse (known.imp fun _ _ => sameWord_of_below)
  have whole : List.Forall₂ (SameWord (· + n) id) (wholeOf last) (ts.reverse ++ D) :=
    List.rel_append lines (sameWord_closings (closings_map _ _) closes rfl)
  obtain ⟨body', holds', same⟩ := holds.beside ending whole (ended_wholeOf lexed) behind
  rw [SameBody, relocateAll_id] at same
  rwa [same] at holds'

/-- The newest token ends a line, closes a block or stood there before, so it is no string. -/
theorem Ready.apart_behind {ts : List Token} {p : Position} (ready : Ready n s)
    (lexed : run (.ofString text) = .ok last)
    (known : List.Forall₂ (SameToken (.below n)) (last.nextLine []).tokens ts) :
    ∀ t ∈ (ts ++ (s.indents.map (fun _ => (⟨.dedent, p⟩ : Token)) ++ s.tokens)).head?, ∀ text,
      t.kind ≠ .str text := by
  obtain ⟨sound, outside⟩ := run_sound (sound_ofString text) lexed
  cases ts with
  | nil =>
    cases columns : s.indents with
    | nil => exact ready.apart
    | cons column columns => simp
  | cons t' ts =>
    obtain ⟨t, ts₀, ⟨kind, -⟩, -, tokens₀⟩ := List.forall₂_cons_right_iff.1 known
    have line := ((sound.nextLine outside []).start rfl).2 t (by rw [tokens₀]; rfl)
    rintro _ ⟨⟩ text string
    rw [kind, kind_of_isNewline line] at string
    cases string

/-- A unit is read behind others as it is alone, on the lines that it has there, and what is read behind
it comes next. -/
theorem read_behind (lexed : run (.ofString text) = .ok last) (ending : isEnd e = true)
    (holds : Holds (wholeOf last ++ [e]) body) (ready : Ready n s)
    (rest : s.cursor.rest = text.toList) :
    ∃ last', run s = .ok last' ∧
      (∀ more, Ready (n + text.toList.count '\n' + 1) (last'.nextLine more)) ∧
      ∀ D R others, Closings last'.indents D → Holds R others →
        ∃ D' Y, linesOf last' ++ D ++ R = s.tokens.reverse ++ D' ++ Y ∧ Closings s.indents D' ∧
          Holds Y (relocateAll (· + n) body ++ others) := by
  have abreast : Cursor.Abreast (.below n) [] [] text.toList (.ofString text) s.cursor :=
    ⟨(List.append_nil _).symm, by rw [rest, List.append_nil], ready.line⟩
  have outside := (run_sound (sound_ofString text) lexed).2
  obtain ⟨⟨deep, ends⟩, nothing⟩ := Ongoing.run ⟨by simp [ofString], rfl⟩ lexed
  have final : last.cursor.pos.line = 1 + text.toList.count '\n' := by
    rw [Cursor.last, nothing] at ends
    show (last.cursor.pos.past []).line = _
    rw [ends]
    exact Position.line_past _ _
  obtain ⟨last', read, pos, outcome⟩ := run_before ready.deep ready.apart abreast lexed
    (not_indent_of_holds holds)
  rw [← ready.eq_before] at read
  have line : (last'.cursor.pos.next '\n').line = 1 + (n + text.toList.count '\n' + 1) := by
    have same : last'.cursor.pos.line = last.cursor.pos.line + n := pos
    show last'.cursor.pos.line + 1 = _
    omega
  refine ⟨last', read, ?_⟩
  rcases outcome with ⟨c, c', rfl, rfl⟩ | ⟨p, akin⟩
  · -- No line of the unit has any token.
    obtain rfl := holds.eq_nil_of_end ending
    refine ⟨fun more => ⟨rfl, rfl, ready.deep, ready.apart, line⟩, fun D R others closes behind => ?_⟩
    exact ⟨D, R, rfl, closes, behind⟩
  · have columns : last'.indents = last.indents := by rw [akin.indents, List.map_id]
    obtain ⟨ts, tokens, known⟩ := akin.nextLine pos
    refine ⟨fun more => ⟨akin.outside.2 outside, rfl, by rw [← columns] at deep; exact deep, ?_, line⟩,
      fun D R others closes behind => ?_⟩
    · show ∀ t ∈ (last'.nextLine []).tokens.head?, _
      rw [tokens]
      exact ready.apart_behind lexed known
    · rw [columns] at closes
      refine ⟨(s.indents.map fun _ => ⟨.dedent, p⟩).reverse, ts.reverse ++ D ++ R, ?_, ?_,
        holds_lines lexed ending holds known closes behind⟩
      · rw [linesOf, tokens]
        simp
      · rw [List.map_const', List.reverse_replicate]
        simp [Closings]

/-- A text may be read from here, closes what is open and writes `body`. -/
def Writes (s : LexState) (body : List Statement) : Prop :=
  ∃ last, run s = .ok last ∧ ∃ D Y, finish last true = s.tokens.reverse ++ D ++ Y ∧
    Closings s.indents D ∧ Holds Y body

/-- The statements of units one behind another, each on the lines that it has behind `before` lines. -/
def joinedBodies (before : Nat) : List (String × Program) → List Statement
  | [] => []
  | (source, unit) :: units =>
    relocateAll (· + before) unit.body ++
      joinedBodies (before + source.toList.count '\n' + 1) units

/-- A source that is read alone and whose first token ends no line. -/
structure Accepted (source : String) (unit : Program) : Prop where
  compiled : Program.compile source .single = .ok unit
  begins : ∀ tokens, tokenize source .single = .ok tokens → isNewline (front tokens) = false

theorem Accepted.holds {source : String} {unit : Program} (accepted : Accepted source unit) :
    ∃ last, run (.ofString source) = .ok last ∧
      Holds (wholeOf last ++ [⟨.endMarker, last.cursor.pos⟩]) unit.body := by
  obtain ⟨tokens, single, script⟩ := Program.tokenize_of_single accepted.compiled
  have compiled := (Program.units_and_scripts_agree source).1 unit accepted.compiled
  rw [Program.compile_of_tokenize script] at compiled
  have holds := Holds.program_iff.1 (Program.ofTokens_eq_ok_iff.1 compiled).1
  have whole : tokens.dropWhile isNewline = tokens := by
    cases tokens with
    | nil => rfl
    | cons t ts =>
      rw [List.dropWhile_cons, show isNewline t = false from accepted.begins _ single]
      rfl
  rw [whole] at holds
  unfold tokenize at script
  cases lexed : run (.ofString source) with
  | error error =>
    rw [lexed] at script
    cases script
  | ok last =>
    rw [lexed] at script
    cases script
    refine ⟨last, rfl, ?_⟩
    rw [← finish_eq_wholeOf]
    exact holds

theorem writes_units {units : List (String × Program)} (nonempty : units ≠ [])
    (accepted : ∀ u ∈ units, Accepted u.1 u.2) (ready : Ready n s)
    (rest : s.cursor.rest = ("\n".intercalate (units.map Prod.fst)).toList) :
    Writes s (joinedBodies n units) := by
  induction units generalizing n s with
  | nil => contradiction
  | cons u units ih =>
    obtain ⟨source, unit⟩ := u
    obtain ⟨last, lexed, holds⟩ := (accepted (source, unit) (by simp)).holds
    cases units with
    | nil =>
      rw [List.map_singleton, String.intercalate_singleton] at rest
      obtain ⟨last', read, -, onward⟩ := read_behind lexed rfl holds ready rest
      obtain ⟨D, Y, same, closes, written⟩ := onward _ _ _ (closings_map _ last'.cursor.pos)
        (Holds.nil (e := ⟨.endMarker, last'.cursor.pos⟩) rfl)
      exact ⟨last', read, D, Y, by rw [← same, finish_eq_wholeOf]; rfl, closes, written⟩
    | cons v units =>
      rw [List.map_cons, List.map_cons, String.intercalate_cons_cons, String.toList_append,
        String.toList_append, ← List.map_cons] at rest
      generalize whole : "\n".intercalate ((v :: units).map Prod.fst) = more at rest
      obtain ⟨start, own, rfl, ready'⟩ : ∃ start : LexState, start.cursor.rest = source.toList ∧
          s = start.followed more.toList ∧ Ready n start := by
        refine ⟨{ s with cursor := ⟨source.toList, s.cursor.pos⟩ }, rfl, ?_, ready.outside,
          ready.start, ready.deep, ready.apart, ready.line⟩
        obtain ⟨⟨text, pos⟩, indents, brackets, lineStart, tokens⟩ := s
        dsimp only at rest
        subst rest
        simp [LexState.followed, Cursor.followed, show "\n".toList = ['\n'] from rfl]
      obtain ⟨last', alone, next, onward⟩ := read_behind lexed rfl holds ready' own
      obtain ⟨last'', read', D, Y, same, closes, written⟩ :=
        ih (by simp) (fun u mem => accepted u (by simp [mem])) (next more.toList)
          (by rw [whole]; rfl)
      obtain ⟨D', Y', same', closes', written'⟩ := onward D Y _ closes written
      refine ⟨last'', ((run_followed start more.toList).1 last' alone).trans read', D', Y', ?_, closes',
        written'⟩
      rw [same]
      exact same'

theorem futureNames_joinedBodies {units : List (String × Program)}
    (plain : ∀ u ∈ units, ∀ s ∈ u.2.body, Program.futureNames? s = none) (before : Nat) :
    ∀ s ∈ joinedBodies before units, Program.futureNames? s = none := by
  induction units generalizing before with
  | nil => simp [joinedBodies]
  | cons u units ih =>
    intro s mem
    rcases List.mem_append.1 mem with mem | mem
    · rw [relocateAll_eq_map] at mem
      obtain ⟨s', mem', rfl⟩ := List.mem_map.1 mem
      rw [Program.futureNames?_relocate]
      exact plain u (by simp) s' mem'
    · exact ih (fun u mem => plain u (by simp [mem])) _ s mem

theorem futureFrom_plain {body : List Statement}
    (plain : ∀ s ∈ body, Program.futureNames? s = none) :
    Program.futureFrom .none body = .ok .none := by
  cases body with
  | nil => rfl
  | cons s body =>
    obtain ⟨here, rest⟩ := List.forall_mem_cons.1 plain
    have nowhere : body.find? (fun s => (Program.futureNames? s).isSome) = none :=
      List.find?_eq_none.2 fun s mem => by simp [rest s mem]
    unfold Program.futureFrom
    rw [here]
    dsimp only
    rw [nowhere]

/-- What a source writes from its start is its script. -/
theorem compile_of_writes {source : String} (writes : Writes (.ofString source) body)
    (plain : ∀ s ∈ body, Program.futureNames? s = none) :
    Program.compile source .script = .ok ⟨body, .none⟩ := by
  obtain ⟨last, lexed, D, Y, same, closes, holds⟩ := writes
  obtain rfl : D = [] := List.map_eq_nil_iff.1 closes
  have tokens : tokenize source .script = .ok Y := by
    unfold tokenize
    rw [lexed]
    exact congrArg Except.ok same
  rw [Program.compile_of_tokenize tokens]
  refine Program.ofTokens_eq_ok_iff.2 ⟨Holds.program_iff.2 ?_, futureFrom_plain plain⟩
  rwa [holds.dropWhile_isNewline]

/-- Units typed one after another make the script of their texts behind each other. Units of which none
imports from the future, and none begins with the end of a line, are a script when they are joined by
line ends: its statements are theirs in order, each on the line that it has behind the units before it. -/
theorem units_make_a_script (units : List (String × Program))
    (compiled : ∀ u ∈ units, Program.compile u.1 .single = .ok u.2)
    (begins : ∀ u ∈ units, ∀ tokens, tokenize u.1 .single = .ok tokens →
      isNewline (front tokens) = false)
    (plain : ∀ u ∈ units, ∀ s ∈ u.2.body, Program.futureNames? s = none) :
    Program.compile ("\n".intercalate (units.map Prod.fst)) .script =
      .ok ⟨joinedBodies 0 units, .none⟩ := by
  refine compile_of_writes ?_ (futureNames_joinedBodies plain 0)
  by_cases nonempty : units = []
  · subst nonempty
    exact ⟨_, run_finished rfl, [], _, rfl, rfl, .nil rfl⟩
  · exact writes_units nonempty (fun u mem => ⟨compiled u mem, begins u mem⟩) (ready_ofString _) rfl

/-- A conditional whose block is open at the border, and an assignment three lines below. -/
theorem conditional_and_assignment_make_a_script :
    ∃ first second, Program.compile "if x:\n  y\n" .single = .ok first ∧
      Program.compile "z = 1  # last" .single = .ok second ∧
      Program.compile "if x:\n  y\n\nz = 1  # last" .script =
        .ok ⟨joinedBodies 0 [("if x:\n  y\n", first), ("z = 1  # last", second)], .none⟩ := by
  have unit (source : String)
      (compiles : (Program.compile source .single).toOption.map
        (fun unit => unit.body.all fun s => (Program.futureNames? s).isNone) = some true)
      (begins : (tokenize source .single).toOption.map (fun ts => isNewline (front ts)) =
        some false) :
      ∃ unit, Program.compile source .single = .ok unit ∧
        (∀ tokens, tokenize source .single = .ok tokens → isNewline (front tokens) = false) ∧
        ∀ s ∈ unit.body, Program.futureNames? s = none := by
    cases answer : Program.compile source .single with
    | error error =>
      rw [answer] at compiles
      cases compiles
    | ok unit =>
      rw [answer] at compiles
      refine ⟨unit, rfl, fun tokens lexed => ?_, ?_⟩
      · rw [lexed] at begins
        exact Option.some.inj begins
      · simpa [Except.toOption] using compiles
  obtain ⟨first, compiled, begins, plain⟩ := unit "if x:\n  y\n" (by decide +kernel) (by decide +kernel)
  obtain ⟨second, compiled', begins', plain'⟩ := unit "z = 1  # last" (by decide +kernel)
    (by decide +kernel)
  refine ⟨first, second, compiled, compiled', ?_⟩
  exact units_make_a_script [("if x:\n  y\n", first), ("z = 1  # last", second)]
    (by simp [compiled, compiled']) (by simpa using ⟨begins, begins'⟩) (by simpa using ⟨plain, plain'⟩)

end Console
