import Console.Proofs.Token.Body

/-!
# Streams of tokens

What a parser may rely on. `Fits` says where a token may stand behind others, and `WellFormed` says
of a whole stream that each token fits, that its brackets match and that the end marker is its last
token. One lemma for each kind of token that the lexer adds carries `Formed` through a run.
-/

namespace Console.Token

open Text Parse LexState

/-! ## Brackets -/

/-- What a token makes of the open brackets, innermost first; nothing if it closes a bracket other
than the innermost. -/
def nest? (opened : List Bracket) (t : Token) : Option (List Bracket) :=
  match t.kind with
  | .op symbol =>
    match Bracket.opened? symbol, Bracket.closed? symbol with
    | some b, _ => some (b :: opened)
    | none, some b => if opened.head? = some b then some opened.tail else none
    | none, none => some opened
  | _ => some opened

/-- The brackets still open behind tokens, innermost first; nothing if they do not match. -/
def openBrackets? (ts : List Token) : Option (List Bracket) := ts.foldlM nest? []

theorem openBrackets_concat {ts : List Token} {opened : List Bracket}
    (before : openBrackets? ts = some opened) (t : Token) :
    openBrackets? (ts ++ [t]) = nest? opened t := by
  unfold openBrackets? at *
  rw [List.foldlM_append, before]
  simp

/-- Only operators open and close brackets. -/
theorem nest_of_kind {t : Token} (other : ∀ symbol, t.kind ≠ .op symbol) (opened : List Bracket) :
    nest? opened t = some opened := by
  unfold nest?
  split
  · rename_i symbol kind
    exact absurd kind (other symbol)
  · rfl

/-! ## Well-formed streams -/

def isIndent (t : Token) : Bool :=
  match t.kind with
  | .indent => true
  | _ => false

def isDedent (t : Token) : Bool :=
  match t.kind with
  | .dedent => true
  | _ => false

def isString (t : Token) : Bool :=
  match t.kind with
  | .str _ => true
  | _ => false

/-- A token may stand behind the tokens before it. -/
structure Fits (before : List Token) (t : Token) : Prop where
  /-- Brackets match, and no more of them are open than may be. -/
  nested : ∃ opened, openBrackets? (before ++ [t]) = some opened ∧ opened.length ≤ Bracket.maxDepth
  /-- No line or block begins or ends inside brackets. -/
  outside : isLayout t = true → openBrackets? before = some []
  /-- No more blocks are closed than opened. -/
  blocks : (before ++ [t]).countP isDedent ≤ (before ++ [t]).countP isIndent
  indent : isIndent t = true → ∀ p ∈ before.getLast?, isNewline p = true
  dedent : isDedent t = true → ∃ p ∈ before.getLast?, isNewline p = true ∨ isDedent p = true
  ending : isEnd t = true → ∀ p ∈ before.getLast?, isNewline p = true ∨ isDedent p = true
  /-- Literals side by side are one token. -/
  string : isString t = true → ∀ p ∈ before.getLast?, isString p = false

/-- A stream of tokens that a parser can be given; `closed` says that the end of the source closes
all blocks. -/
structure WellFormed (closed : Prop) (tokens : List Token) : Prop where
  fits : ∀ before t after, tokens = before ++ t :: after → Fits before t
  ended : ∃ before last, tokens = before ++ [last] ∧ isEnd last = true ∧
    ∀ t ∈ before, isEnd t = false
  matched : openBrackets? tokens = some []
  balanced : closed → tokens.countP isDedent = tokens.countP isIndent

/-- `depth` counts the tokens that open blocks, less those that close them. -/
theorem depth_eq_count (ts : List Token) :
    depth ts = (ts.countP isIndent : Int) - ts.countP isDedent := by
  induction ts with
  | nil => rfl
  | cons t ts ih =>
    rw [depth_cons, ih, List.countP_cons, List.countP_cons]
    cases kind : t.kind <;> simp [depthOf, isIndent, isDedent, kind] <;> omega

/-! ## Tokens that fit -/

/-- Every token fits behind the ones before it. -/
def AllFit (ts : List Token) : Prop := ∀ before t after, ts = before ++ t :: after → Fits before t

theorem AllFit.nil : AllFit [] := by
  intro before t after absent
  simp at absent

theorem AllFit.concat {ts : List Token} {t : Token} (all : AllFit ts) (fits : Fits ts t) :
    AllFit (ts ++ [t]) := by
  intro before t' after whole
  rcases List.eq_nil_or_concat after with rfl | ⟨after, last, rfl⟩
  · obtain ⟨rfl, same⟩ := List.append_inj' whole rfl
    cases same
    exact fits
  · rw [List.concat_eq_append, ← List.cons_append, ← List.append_assoc] at whole
    obtain ⟨rfl, -⟩ := List.append_inj' whole rfl
    exact all before t' after rfl

theorem AllFit.of_concat {ts : List Token} {t : Token} (all : AllFit (ts ++ [t])) : AllFit ts := by
  intro before t' after whole
  exact all before t' (after ++ [t]) (by rw [whole, List.append_assoc]; rfl)

/-- Tokens of one line: they neither open nor close blocks, and a literal follows no literal. -/
theorem Fits.word {ts : List Token} {t : Token} {opened : List Bracket}
    (inline : isLayout t = false) (nested : openBrackets? (ts ++ [t]) = some opened)
    (shallow : opened.length ≤ Bracket.maxDepth) (blocks : 0 ≤ depth ts)
    (string : isString t = true → ∀ p ∈ ts.getLast?, isString p = false) : Fits ts t := by
  have flat : depth (ts ++ [t]) = depth ts := by simp [depthOf_of_isLayout inline]
  rw [← flat, depth_eq_count] at blocks
  exact {
    nested := ⟨opened, nested, shallow⟩
    outside := by simp [inline]
    blocks := by omega
    indent := by cases kind : t.kind <;> simp_all [isIndent, isLayout]
    dedent := by cases kind : t.kind <;> simp_all [isDedent, isLayout]
    ending := by simp [isEnd_of_isLayout inline]
    string }

/-- Tokens between lines, outside of brackets. -/
theorem Fits.between {ts : List Token} {t : Token} (layout : isLayout t = true)
    (outside : openBrackets? ts = some []) (blocks : 0 ≤ depth (ts ++ [t]))
    (indent : isIndent t = true → ∀ p ∈ ts.getLast?, isNewline p = true)
    (dedent : isDedent t = true → ∃ p ∈ ts.getLast?, isNewline p = true ∨ isDedent p = true)
    (ending : isEnd t = true → ∀ p ∈ ts.getLast?, isNewline p = true ∨ isDedent p = true) :
    Fits ts t := by
  have other : ∀ symbol, t.kind ≠ .op symbol := by
    intro symbol kind
    simp [isLayout, kind] at layout
  rw [depth_eq_count] at blocks
  exact {
    nested := ⟨[], by rw [openBrackets_concat outside, nest_of_kind other], Nat.zero_le _⟩
    outside := fun _ => outside
    blocks := by omega
    indent, dedent, ending
    string := by cases kind : t.kind <;> simp_all [isString, isLayout] }

/-- Blocks are closed one by one behind a line. -/
theorem AllFit.dedents {ts : List Token} (all : AllFit ts) (outside : openBrackets? ts = some [])
    (p : Position) (closed : List Nat) (blocks : (closed.length : Int) ≤ depth ts)
    (behind : closed ≠ [] → ∃ p ∈ ts.getLast?, isNewline p = true ∨ isDedent p = true) :
    AllFit (ts ++ closed.map fun _ => ⟨.dedent, p⟩) ∧
      openBrackets? (ts ++ closed.map fun _ => ⟨.dedent, p⟩) = some [] := by
  induction closed generalizing ts with
  | nil => simpa using ⟨all, outside⟩
  | cons column closed ih =>
    have one : depth (ts ++ [⟨.dedent, p⟩]) = depth ts - 1 := by
      rw [depth_append, depth_cons, depth_nil]
      show depth ts + (-1 + 0) = _
      omega
    rw [List.length_cons] at blocks
    have fits : Fits ts ⟨.dedent, p⟩ := by
      refine .between rfl outside (by omega) (fun no => by cases no) (fun _ => behind (by simp))
        (fun no => by cases no)
    have rest := ih (all.concat fits)
      (by rw [openBrackets_concat outside, nest_of_kind (by simp)]) (by omega)
      (fun _ => ⟨⟨.dedent, p⟩, by simp, .inr rfl⟩)
    simpa using rest

/-! ## Steps -/

/-- The tokens read so far fit, and their open brackets are those of the state. -/
structure Formed (s : LexState) : Prop where
  fits : AllFit s.tokens.reverse
  brackets : openBrackets? s.tokens.reverse = some (s.brackets.map (·.1))
  shallow : s.brackets.length ≤ Bracket.maxDepth

theorem formed_ofString (source : String) : Formed (.ofString source) :=
  ⟨.nil, rfl, Nat.zero_le _⟩

variable {s s' : LexState} {c : Cursor} {ch : Char} {tail : List Char}

theorem Sound.blocks (sound : Sound s) : 0 ≤ depth s.tokens.reverse := by
  rw [depth_reverse, sound.opened]
  omega

theorem Formed.outside (h : Formed s) (outside : s.brackets = []) :
    openBrackets? s.tokens.reverse = some [] := by
  rw [h.brackets, outside]
  rfl

/-- The brackets of a state may change with a token that opens or closes one. -/
theorem Formed.word {t : Token} (h : Formed s) (sound : Sound s) (inline : isLayout t = false)
    (tokens : s'.tokens = t :: s.tokens)
    (brackets : nest? (s.brackets.map (·.1)) t = some (s'.brackets.map (·.1)))
    (shallow : s'.brackets.length ≤ Bracket.maxDepth)
    (string : isString t = true → ∀ p ∈ s.tokens.head?, isString p = false) : Formed s' := by
  have nested : openBrackets? (s.tokens.reverse ++ [t]) = some (s'.brackets.map (·.1)) := by
    rw [openBrackets_concat h.brackets, brackets]
  refine ⟨?_, by rw [tokens, List.reverse_cons, nested], shallow⟩
  rw [tokens, List.reverse_cons]
  refine h.fits.concat (.word inline nested (by simpa using shallow) sound.blocks ?_)
  simpa using string

/-- A token that neither opens nor closes a bracket. -/
theorem Formed.add {kind : TokenKind} {p : Position} (h : Formed s) (sound : Sound s)
    (inline : isLayout ⟨kind, p⟩ = false) (symbol : ∀ symbol, kind ≠ .op symbol)
    (string : isString ⟨kind, p⟩ = true → ∀ p ∈ s.tokens.head?, isString p = false)
    (after : Cursor) : Formed (s.add kind p after) :=
  h.word sound inline rfl (nest_of_kind symbol _) h.shallow string

/-- A literal behind a literal takes its place. -/
theorem Formed.addString (h : Formed s) (sound : Sound s) (text : List Char) (start : Position)
    (after : Cursor) : Formed (s.addString text start after) := by
  unfold LexState.addString
  split
  · rename_i before first others same
    have fits := h.fits
    have brackets := h.brackets
    have blocks := sound.blocks
    rw [same, List.reverse_cons] at fits brackets blocks
    have last := fits others.reverse ⟨.str before, first⟩ [] rfl
    have opened := last.nested
    obtain ⟨opened, before', shallow⟩ := opened
    have inner : openBrackets? others.reverse = some (s.brackets.map (·.1)) := by
      cases rest : openBrackets? others.reverse with
      | none => simp [openBrackets?, List.foldlM_append] at rest brackets; simp [rest] at brackets
      | some opened' =>
        rw [openBrackets_concat rest, nest_of_kind (by simp)] at brackets
        exact brackets
    refine ⟨?_, ?_, h.shallow⟩
    · rw [List.reverse_cons]
      have nested : openBrackets? (others.reverse ++
          [⟨.str (before ++ String.ofList text), first⟩]) = some (s.brackets.map (·.1)) := by
        rw [openBrackets_concat inner, nest_of_kind (by simp)]
      refine fits.of_concat.concat (.word rfl nested (by simpa using h.shallow) ?_
        fun _ => last.string rfl)
      simpa [depthOf] using blocks
    · rw [List.reverse_cons, openBrackets_concat inner, nest_of_kind (by simp)]
  · rename_i other
    refine h.add sound rfl (by simp) (fun _ p first => ?_) after
    cases tokens : s.tokens with
    | nil => simp [tokens] at first
    | cons t others =>
      obtain rfl : t = p := by simpa [tokens] using first
      obtain ⟨kind, place⟩ := t
      cases kind <;> first | rfl | exact absurd tokens (other _ _ _)

/-- A step leaves a well-formed state behind. -/
def Forms (r : Except SyntaxError LexState) : Prop := ∀ s', r = .ok s' → Formed s'

section Within

variable (h : Formed s) (sound : Sound s)
include h sound

theorem forms_string {raw : Bool} {start : Position} {after : Cursor} (p : Position) :
    Forms (match readString raw start after with
      | .error e => .error e
      | .ok (text, behind) => .ok (s.addString text p behind)) := by
  intro s' read
  split at read
  · cases read
  · cases read
    exact h.addString sound _ _ _

theorem forms_name : Forms (stepName s c) := by
  unfold stepName
  dsimp only
  split
  · exact forms_string h sound c.pos
  · rintro _ ⟨⟩
    exact h.add sound rfl (by simp) (fun no => by cases no) _

theorem forms_operator : Forms (stepOperator s c) := by
  intro s' read
  unfold stepOperator at read
  split at read
  · cases read
  · rename_i op found
    have word
        (brackets : nest? (s.brackets.map (·.1)) ⟨.op op, c.pos⟩ = some (s'.brackets.map (·.1)))
        (shallow : s'.brackets.length ≤ Bracket.maxDepth)
        (tokens : s'.tokens = ⟨.op op, c.pos⟩ :: s.tokens) : Formed s' :=
      h.word sound rfl tokens brackets shallow fun no => by cases no
    dsimp only at read
    split at read
    · rename_i b opens
      split at read
      · cases read
      · rename_i room
        cases read
        refine word ?_ (Nat.lt_of_not_le room) rfl
        simp [nest?, opens]
    · rename_i b opens closes
      split at read
      · rename_i b' place outer same
        split at read
        · rename_i pairs
          cases read
          have shallow := h.shallow
          rw [same, List.length_cons] at shallow
          refine word ?_ (Nat.le_of_succ_le shallow) rfl
          simp [nest?, opens, closes, same, pairs]
        · cases read
      · cases read
    · rename_i opens closes
      cases read
      exact word (by simp [nest?, opens, closes, LexState.add]) h.shallow rfl

theorem forms_token : Forms (stepToken s c ch) := by
  unfold stepToken
  split
  · exact forms_string h sound c.pos
  · split
    · rcases readNumeral_cases c with ⟨kind, after, read, -, numeral⟩ | ⟨fault, place, -, -, failed⟩
      · rw [read]
        rintro _ ⟨⟩
        rcases numeral with ⟨n, rfl⟩ | ⟨x, rfl⟩
        · exact h.add sound rfl (by simp) (fun no => by cases no) after
        · exact h.add sound rfl (by simp) (fun no => by cases no) after
      · rw [failed]
        rintro _ ⟨⟩
    · split
      · exact forms_name h sound
      · exact forms_operator h sound

end Within

theorem forms_backslash (h : Formed s) : Forms (stepBackslash s c) := by
  intro s' read
  unfold stepBackslash at read
  split at read
  · cases read
  · split at read
    · cases read
      exact ⟨h.fits, h.brackets, h.shallow⟩
    · cases read

theorem formed_newline (h : Formed s) (sound : Sound s) : Formed (stepNewline s c) := by
  unfold stepNewline
  split
  · rename_i empty
    have outside := List.isEmpty_iff.1 empty
    have fits : Fits s.tokens.reverse ⟨.newline, c.pos⟩ := by
      refine .between rfl (h.outside outside) ?_ (fun no => by cases no) (fun no => by cases no)
        (fun no => by cases no)
      rw [depth_append]
      have := sound.blocks
      simpa [depthOf] using this
    refine ⟨?_, ?_, h.shallow⟩
    · show AllFit (⟨.newline, c.pos⟩ :: s.tokens).reverse
      rw [List.reverse_cons]
      exact h.fits.concat fits
    · show openBrackets? (⟨.newline, c.pos⟩ :: s.tokens).reverse = _
      rw [List.reverse_cons, openBrackets_concat h.brackets, nest_of_kind (by simp)]
      rfl
  · exact ⟨h.fits, h.brackets, h.shallow⟩

theorem forms_layout (h : Formed s) (sound : Sound s) (start : s.lineStart = true) (column : Nat) :
    Forms (layout s column c) := by
  obtain ⟨outside, line⟩ := sound.start start
  have unopened := h.outside outside
  have line' : ∀ p ∈ s.tokens.reverse.getLast?, isNewline p = true := by simpa using line
  intro s' read
  unfold layout at read
  split at read
  · cases read
    have fits : Fits s.tokens.reverse ⟨.indent, c.pos⟩ := by
      refine .between rfl unopened ?_ (fun _ => line') (fun no => by cases no) (fun no => by cases no)
      have := sound.blocks
      rw [depth_append, depth_cons, depth_nil]
      show 0 ≤ depth s.tokens.reverse + (1 + 0)
      omega
    refine ⟨?_, ?_, h.shallow⟩
    · rw [List.reverse_cons]
      exact h.fits.concat fits
    · rw [List.reverse_cons, openBrackets_concat unopened, nest_of_kind (by simp), outside]
      rfl
  · dsimp only at read
    split at read
    · cases read
      have opened : (s.indents.length : Int) = depth s.tokens.reverse := by
        rw [depth_reverse, sound.opened]
      have fewer : (s.indents.takeWhile (column < ·)).length ≤ s.indents.length :=
        (List.takeWhile_sublist _).length_le
      obtain ⟨fits, unopened⟩ := h.fits.dedents unopened c.pos (s.indents.takeWhile (column < ·))
        (by omega) (by
          intro closing
          have deeper : s.tokens ≠ [] := by
            intro outermost
            rw [outermost] at opened
            have : s.indents = [] := List.length_eq_zero_iff.1 (by simpa using opened)
            simp [this] at closing
          obtain ⟨t, others, same⟩ := List.exists_cons_of_ne_nil deeper
          exact ⟨t, by simp [same], .inl (line t (by simp [same]))⟩)
      have turned : (s.indents.takeWhile (column < ·)).map (fun _ => (⟨.dedent, c.pos⟩ : Token)) =
          ((s.indents.takeWhile (column < ·)).map fun _ => ⟨.dedent, c.pos⟩).reverse := by
        rw [List.map_const', List.reverse_replicate]
      refine ⟨?_, ?_, h.shallow⟩
      · rw [List.reverse_append, ← turned]
        exact fits
      · rw [List.reverse_append, ← turned, unopened, outside]
        rfl
    · cases read

/-! ## Runs -/

/-- A step that does not fail leaves a well-formed state behind. -/
def StepForms (r : Except SyntaxError Step) : Prop :=
  match r with
  | .ok (.more s') | .ok (.finished s') => Formed s'
  | .error _ => True

theorem StepForms.of_forms {r : Except SyntaxError LexState} (forms : Forms r) :
    StepForms (r.map .more) := by
  cases r with
  | ok s' => exact forms s' rfl
  | error error => trivial

theorem step_forms (h : Formed s) (sound : Sound s) : StepForms (step s) := by
  have same (c : Cursor) : Formed { s with cursor := c } := ⟨h.fits, h.brackets, h.shallow⟩
  unfold step
  split
  · rename_i start
    rw [Bool.and_eq_true] at start
    unfold stepLine
    dsimp only
    split
    · exact same _
    · split
      · exact same _
      · split
        · exact same _
        · exact .of_forms (forms_layout h sound start.1 _)
  · unfold stepWithin
    dsimp only
    split
    · split
      · trivial
      · exact same _
    · split
      · exact formed_newline h sound
      · split
        · exact same _
        · split
          · exact .of_forms (forms_backslash h)
          · exact .of_forms (forms_token h sound)

theorem run_formed {last : LexState} (h : Formed s) (sound : Sound s) (read : run s = .ok last) :
    Formed last := by
  fun_induction run s
  case case1 => cases read
  case case2 s last' finished =>
    cases read
    have forms := step_forms h sound
    rw [finished] at forms
    exact forms
  case case3 s s' onward ih =>
    have forms := step_forms h sound
    have moves := step_moves sound
    rw [onward] at forms moves
    exact ih forms (sound.move moves.1) read

/-- The lines of a source, as tokens. -/
theorem formed_nextLine (h : Formed s) (sound : Sound s) (outside : s.brackets = []) :
    Formed (s.nextLine []) := by
  cases start : s.lineStart with
  | true =>
    have same : (s.nextLine []).tokens = s.tokens := by simp [LexState.nextLine, start]
    exact ⟨by rw [same]; exact h.fits, by rw [same]; exact h.brackets, h.shallow⟩
  | false =>
    have newline : (s.nextLine []).tokens = (stepNewline s s.cursor).tokens := by
      simp [LexState.nextLine, start, stepNewline, outside, LexState.add]
    have brackets : (s.nextLine []).brackets = (stepNewline s s.cursor).brackets := by
      simp [LexState.nextLine, stepNewline, outside, LexState.add]
    obtain ⟨fits, same, shallow⟩ := formed_newline (c := s.cursor) h sound
    exact ⟨by rw [newline]; exact fits, by rw [newline, brackets]; exact same,
      by rw [brackets]; exact shallow⟩

/-! ## The end of a source -/

/-- The columns whose blocks the end of a source closes. -/
def LexState.closedAtEnd (s : LexState) (closeBlocks : Bool) : List Nat :=
  if closeBlocks then s.indents else []

theorem length_closedAtEnd_le (s : LexState) (closeBlocks : Bool) :
    (s.closedAtEnd closeBlocks).length ≤ s.indents.length := by
  unfold LexState.closedAtEnd
  split <;> simp

theorem finish_eq (s : LexState) (closeBlocks : Bool) :
    finish s closeBlocks = (s.nextLine []).tokens.reverse ++
      ((s.closedAtEnd closeBlocks).map fun _ => ⟨.dedent, s.cursor.pos⟩) ++
      [⟨.endMarker, s.cursor.pos⟩] := by
  cases start : s.lineStart <;> cases closeBlocks <;>
    simp [finish, LexState.nextLine, LexState.closedAtEnd, start]

/-- Lines that fit, outside of brackets, and the blocks that end with them. -/
structure Ends (lines : List Token) : Prop where
  fits : AllFit lines
  outside : openBrackets? lines = some []
  inside : ∀ t ∈ lines, isEnd t = false
  ended : ∀ t ∈ lines.getLast?, isNewline t = true ∨ isDedent t = true

theorem Ends.dedents {lines : List Token} (h : Ends lines) (p : Position) (closed : List Nat)
    (blocks : (closed.length : Int) ≤ depth lines) :
    Ends (lines ++ closed.map fun _ => ⟨.dedent, p⟩) := by
  obtain ⟨fits, outside⟩ := h.fits.dedents h.outside p closed blocks (by
    intro closing
    have more : lines ≠ [] := by
      rintro rfl
      rw [depth_nil] at blocks
      exact closing (List.length_eq_zero_iff.1 (by omega))
    obtain ⟨before, t, rfl⟩ := (List.eq_nil_or_concat lines).resolve_left more
    exact ⟨t, by simp, h.ended t (by simp)⟩)
  refine ⟨fits, outside, fun t mem => ?_, fun t last => ?_⟩
  · rcases List.mem_append.1 mem with mem | mem
    · exact h.inside t mem
    · obtain ⟨_, -, rfl⟩ := List.mem_map.1 mem
      rfl
  · rcases List.eq_nil_or_concat closed with rfl | ⟨closed, column, rfl⟩
    · exact h.ended t (by simpa using last)
    · obtain rfl : (⟨.dedent, p⟩ : Token) = t := by simpa using last
      exact .inr rfl

theorem Ends.endMarker {lines : List Token} (h : Ends lines) (p : Position)
    (blocks : 0 ≤ depth lines) : WellFormed (depth lines = 0) (lines ++ [⟨.endMarker, p⟩]) := by
  have flat : depth (lines ++ [⟨.endMarker, p⟩]) = depth lines := by simp [depthOf]
  have last : Fits lines ⟨.endMarker, p⟩ :=
    .between rfl h.outside (by rw [flat]; exact blocks) (fun no => by cases no)
      (fun no => by cases no) (fun _ => h.ended)
  refine ⟨h.fits.concat last, ⟨lines, _, rfl, rfl, h.inside⟩, ?_, fun level => ?_⟩
  · rw [openBrackets_concat h.outside, nest_of_kind (by simp)]
  · rw [← flat, depth_eq_count] at level
    omega

theorem wellFormed_finish {s : LexState} (h : Formed (s.nextLine []))
    (sound : Sound (s.nextLine [])) (outside : s.brackets = []) (closeBlocks : Bool) :
    WellFormed (closeBlocks = true) (finish s closeBlocks) := by
  have opened : depth (s.nextLine []).tokens.reverse = s.indents.length := by
    rw [depth_reverse, sound.opened]
    rfl
  have lines : Ends (s.nextLine []).tokens.reverse :=
    { fits := h.fits
      outside := h.outside outside
      inside := by simpa using sound.inside
      ended := fun t last => .inl ((sound.start rfl).2 t (by simpa using last)) }
  have few := length_closedAtEnd_le s closeBlocks
  have deep : depth ((s.nextLine []).tokens.reverse ++
      (s.closedAtEnd closeBlocks).map fun _ => ⟨.dedent, s.cursor.pos⟩) =
        s.indents.length - (s.closedAtEnd closeBlocks).length := by
    rw [depth_append, depth_dedents, opened]
    omega
  have whole := (lines.dedents s.cursor.pos (s.closedAtEnd closeBlocks) (by omega)).endMarker
    s.cursor.pos (by omega)
  rw [finish_eq]
  refine { whole with balanced := fun closes => whole.balanced ?_ }
  rw [deep, LexState.closedAtEnd, if_pos closes]
  omega

/-- The tokens of every source are well formed: the end marker is the last and only one, behind the
end of a line or of a block; brackets match, at most 200 deep, and hold no line end; blocks open
behind line ends, close behind line ends and other closings, and are all closed where the source is a
script or ends in a blank line; no two literals stand side by side. -/
theorem tokens_of_every_source_are_well_formed {source : String} {mode : Mode}
    {tokens : List Token} (read : tokenize source mode = .ok tokens) :
    WellFormed (mode = .script ∨ endsWithBlankLine source = true) tokens := by
  unfold tokenize at read
  cases lexed : run (.ofString source) with
  | error error =>
    rw [lexed] at read
    cases read
  | ok last =>
    rw [lexed] at read
    cases read
    obtain ⟨sound, outside⟩ := run_sound (sound_ofString source) lexed
    have formed := run_formed (formed_ofString source) (sound_ofString source) lexed
    have whole := wellFormed_finish (formed_nextLine formed sound outside)
      (sound.nextLine outside []) outside (mode = .script || endsWithBlankLine source)
    exact { whole with balanced := fun closed => whole.balanced (by simpa using closed) }

/-- A call over two lines in a block that nothing closes. -/
theorem tokens_of_open_block_are_well_formed :
    ∃ tokens, tokenize "if x:\n  f('a' 'b',\n[1])" .single = .ok tokens ∧
      tokens.countP isIndent = 1 ∧ tokens.countP isDedent = 0 ∧ tokens.countP isString = 1 ∧
      WellFormed (Mode.single = .script ∨ endsWithBlankLine "if x:\n  f('a' 'b',\n[1])" = true)
        tokens := by
  cases read : tokenize "if x:\n  f('a' 'b',\n[1])" .single with
  | error error =>
    have ok : (tokenize "if x:\n  f('a' 'b',\n[1])" .single).toBool = true := by decide +kernel
    rw [read] at ok
    cases ok
  | ok tokens =>
    have count (p : Token → Bool) (n : Nat)
        (counted : (tokenize "if x:\n  f('a' 'b',\n[1])" .single).toOption.map (·.countP p) =
          some n) : tokens.countP p = n := by
      rw [read] at counted
      exact Option.some.inj counted
    exact ⟨tokens, rfl, count _ _ (by decide +kernel), count _ _ (by decide +kernel),
      count _ _ (by decide +kernel), tokens_of_every_source_are_well_formed read⟩

end Console.Token
