import Console.Proofs.Token.Lockstep
import Console.Proofs.Tree.Relocation

/-!
# Blanks at the end of a text

The blanks behind a text end its last line and no more: whatever blanks they are, one line end has the
same effect, wherever the last line comes to its end.
-/

namespace Console.Token

open Text Parse

variable {c after : Cursor} {s s' next last : LexState} {W word text : List Char} {ch : Char}

/-- A literal ends with its mark. -/
theorem mark_suffix_readBody {o : Opening} {seen text : List Char}
    (read : readBody o seen c = .ok (text, after)) : o.mark :: after.rest <:+ c.rest := by
  fun_induction readBody o seen c
  case case4 ih => exact (ih read).trans (Cursor.suffix_drop _ _)
  case case6 escape _ _ ih =>
    exact (ih read).trans ((Cursor.reaches_drop _ _).trans (readEscape_reaches escape)).suffix
  case case7 seen c more single cons inline other =>
    cases read
    rw [Cursor.rest_drop, cons]
    exact List.suffix_refl _
  case case8 seen c more tripled closes cons inline other =>
    cases read
    obtain ⟨more', same⟩ := List.isPrefixOf_iff_prefix.1 closes
    rw [Cursor.rest_drop, cons] at same
    obtain rfl : o.mark :: o.mark :: more' = more := same
    rw [Cursor.rest_drop, cons]
    exact List.drop_suffix 2 (o.mark :: o.mark :: o.mark :: more')
  case case9 ih => exact (ih read).trans (Cursor.suffix_drop _ _)
  case case10 ih => exact (ih read).trans (Cursor.suffix_drop _ _)
  all_goals cases read

theorem mark_suffix_readString {raw : Bool} {start : Position} {mark : Char} {value : List Char}
    (begins : c.rest = mark :: text) (read : readString raw start c = .ok (value, after)) :
    mark :: after.rest <:+ c.rest := by
  unfold readString at read
  rw [begins] at read
  exact (mark_suffix_readBody read).trans (Cursor.suffix_drop _ _)

section Token

variable (blank : ∀ d ∈ W, isBlank d = true)
include blank

theorem stopped_of_blank : Stopped W := by
  intro d first
  simp [isStop, blank d (List.mem_of_mem_head? first)]

/-- What ends with a mark ends before the blanks. -/
theorem left_of_mark {mark : Char} (plain : isBlank mark = false)
    (inside : mark :: text <:+ word ++ W) : W.length ≤ text.length := by
  by_contra beyond
  have within : mark :: text <:+ W := List.suffix_of_suffix_length_le inside
    (List.suffix_append word W) (by rw [List.length_cons]; omega)
  have contrary := blank mark (within.subset (by simp))
  rw [plain] at contrary
  cases contrary

theorem left_string {raw : Bool} {start p : Position} {mark : Char} (rest : c.rest <:+ word ++ W)
    (begins : c.rest = mark :: text) (quote : mark = '\x27' ∨ mark = '\x22')
    (read : (match readString raw start c with
      | .error e => .error e
      | .ok (text, after) => .ok (s.addString text p after) : Except SyntaxError LexState) =
        .ok next) : W.length ≤ next.cursor.rest.length := by
  split at read
  · cases read
  · rename_i taken
    cases read
    rw [cursor_addString]
    have plain : isBlank mark = false := by rcases quote with rfl | rfl <;> decide
    exact left_of_mark blank plain ((mark_suffix_readString begins taken).trans rest)

/-- A token leaves the blanks behind its word. -/
theorem left_token (rest : c.rest = word ++ W) (begins : c.rest = ch :: text)
    (read : stepToken s c ch = .ok next) : W.length ≤ next.cursor.rest.length := by
  have whole : c.rest <:+ word ++ W := ⟨[], rest⟩
  have stopped := stopped_of_blank blank
  have abreast : Cursor.Abreast .any W W word c c := ⟨rest, rest, trivial⟩
  have left {n : Nat} (inside : n ≤ word.length) : W.length ≤ (c.drop n).rest.length := by
    rw [(abreast.drop inside).rest, List.length_append]
    omega
  unfold stepToken at read
  split at read
  · rename_i quote
    exact left_string blank whole begins quote read
  · split at read
    · split at read
      · cases read
      · rename_i taken
        cases read
        obtain ⟨_, _, -, taken', behind⟩ := readNumeral_abreast stopped stopped abreast taken
        show W.length ≤ _
        dsimp only [LexState.add]
        rw [behind.rest, List.length_append]
        omega
    · split at read
      · unfold stepName at read
        have name : (c.rest.takeWhile isNamePart).length ≤ word.length := by
          rw [rest, stopped.takeWhile any_stops_isNamePart]
          exact length_takeWhile_le
        dsimp only at read
        split at read
        · rename_i quoted
          obtain ⟨mark, text, begins, quote⟩ := quote_of_atQuote (Bool.and_eq_true_iff.1 quoted).1
          exact left_string blank ((Cursor.suffix_drop _ _).trans whole) begins quote read
        · cases read
          exact left name
      · unfold stepOperator at read
        split at read
        · cases read
        · rename_i op found
          have inside := left ((operatorAt_abreast stopped stopped abreast).2 op found)
          dsimp only at read
          split at read
          · split at read
            · cases read
            · cases read
              exact inside
          · split at read
            · split at read
              · cases read
                exact inside
              · cases read
            · cases read
          · cases read
            exact inside

end Token

/-- No token begins with a blank. -/
theorem stepToken_blank (blank : isBlank ch = true) (begins : c.rest = ch :: text) :
    ∃ error, stepToken s c ch = .error error := by
  have stopped : Stopped c.rest := begins ▸ .cons (by simp [isStop, blank]) text
  have plain {p : Char → Bool} (fails : stops.any p = false) : p ch = false :=
    stopped.not fails ch (by rw [begins]; rfl)
  have quote : ¬(ch = '\x27' ∨ ch = '\x22') :=
    of_decide_eq_false (plain (p := fun c => c = '\x27' ∨ c = '\x22') (by decide))
  have point : ch ≠ '.' := of_decide_eq_false (plain (p := fun c => c = '.') (by decide))
  have numeral : startsNumeral c.rest = false := by
    rw [begins]
    have digit := plain (p := Char.isDigit) (by decide)
    unfold startsNumeral
    split <;> simp_all
  have name : isNameStart ch = false := by
    rw [Bool.eq_false_iff]
    intro starts
    exact absurd (isNamePart_of_isNameStart starts) (by rw [plain any_stops_isNamePart]; decide)
  have operator : operatorAt? c.rest = none := by
    have abreast : Cursor.Abreast .any c.rest c.rest [] c c := ⟨rfl, rfl, trivial⟩
    refine Option.eq_none_iff_forall_not_mem.2 fun op found => ?_
    have short := (operatorAt_abreast stopped stopped abreast).2 op found
    have long := (operator_ne_nil found).1
    exact absurd long (Nat.not_lt.2 short)
  unfold stepToken
  rw [if_neg quote, numeral, if_neg Bool.false_ne_true, name, if_neg Bool.false_ne_true]
  unfold stepOperator
  rw [operator]
  exact ⟨_, rfl⟩

/-- No step goes on with a blank that is neither a space nor the end of a line. -/
theorem not_more_of_blank (inline : s.opensLine = false)
    (begins : (s.cursor.dropWhile isSpace).rest = ch :: text) (blank : isBlank ch = true)
    (line : ch ≠ '\n') : step s ≠ .ok (.more next) := by
  intro onward
  have first {d : Char} {text' : List Char} (begins' : (s.cursor.dropWhile isSpace).rest = d :: text') :
      ch = d := (List.cons.inj (begins.symm.trans begins')).1
  cases step_more_iff.1 onward with
  | emptyLine start | commentLine start | line start =>
    rw [inline] at start
    cases start
  | lineEnd _ begins' => exact line (first begins')
  | comment _ begins' | joint _ begins' =>
    obtain rfl := first begins'
    cases blank
  | token _ begins' _ read =>
    obtain rfl := first begins'
    obtain ⟨error, failed⟩ := stepToken_blank (s := s) blank begins'
    rw [failed] at read
    cases read

/-- Where only blanks are left, no bracket is open, and a line that is not over ends. -/
structure Over (s last : LexState) : Prop where
  outside : s.brackets = []
  indents : last.indents = s.indents
  tokens : ∃ p, (last.nextLine []).tokens =
    if s.lineStart then s.tokens else ⟨.newline, p⟩ :: s.tokens

theorem run_blank (blank : ∀ d ∈ s.cursor.rest, isBlank d = true) (read : run s = .ok last) :
    Over s last := by
  fun_induction run s
  case case1 => cases read
  case case2 s last' finished =>
    cases read
    obtain ⟨-, outside, rfl⟩ := step_finished finished
    exact ⟨outside, rfl, _, rfl⟩
  case case3 s next onward ih =>
    obtain ⟨ch, text, begins⟩ := List.exists_cons_of_ne_nil (rest_of_more onward)
    have left : ch :: text <:+ s.cursor.rest := begins ▸ Cursor.suffix_dropWhile _ _
    have here : isBlank ch = true := blank ch (left.subset (by simp))
    have behind : ∀ d ∈ ((s.cursor.dropWhile isSpace).drop 1).rest, isBlank d = true := by
      rw [Cursor.rest_drop, begins]
      exact fun d mem => blank d (left.subset (List.mem_cons_of_mem ch mem))
    have hash : ch ≠ '#' := by
      rintro rfl
      cases here
    have first {d : Char} {text' : List Char}
        (begins' : (s.cursor.dropWhile isSpace).rest = d :: text') : ch = d :=
      (List.cons.inj (begins.symm.trans begins')).1
    have lineEnds (inline : s.opensLine = false) : ch = '\n' :=
      by_contra fun other => not_more_of_blank inline begins here other onward
    cases step_more_iff.1 onward with
    | emptyLine =>
      have known := ih behind read
      exact ⟨known.outside, known.indents, known.tokens⟩
    | lineEnd inline =>
      by_cases outside : s.brackets = []
      · rw [stepNewline_outside outside] at ih read
        have line : s.lineStart = false := by simpa [LexState.opensLine, outside] using inline
        have known := ih behind read
        obtain ⟨p, tokens⟩ := known.tokens
        exact ⟨outside, known.indents, (s.cursor.dropWhile isSpace).pos, by rw [tokens, line]; rfl⟩
      · rw [stepNewline_within outside] at ih read
        exact absurd (ih behind read).outside outside
    | line _ begins' lineEnd _ laid =>
      -- No line begins with another blank.
      obtain rfl := first begins'
      obtain ⟨cursor, inline, -⟩ := layout_ok laid
      have begins₁ : (next.cursor.dropWhile isSpace).rest = ch :: text := by
        rw [cursor, dropWhile_here begins (isSpace_of_begins begins), begins]
      obtain ⟨next', onward', -⟩ := onward_of_run read (by rw [begins₁]; exact List.cons_ne_nil _ _)
      exact absurd onward' (not_more_of_blank (LexState.opensLine_inline inline) begins₁ here lineEnd)
    | commentLine _ begins' => exact absurd (first begins') hash
    | comment inline begins' | joint inline begins' =>
      have same := (first begins').symm.trans (lineEnds inline)
      cases same
    | token inline begins' opens =>
      obtain rfl := (first begins').symm.trans (lineEnds inline)
      cases opens

/-- A line end, or nothing at all, ends a source outside of brackets. -/
theorem run_lineEnd (outside : s.brackets = [])
    (rest : s.cursor.rest = [] ∨ s.cursor.rest = ['\n']) : ∃ last, run s = .ok last := by
  have nothing {s : LexState} (outside : s.brackets = []) (rest : s.cursor.rest = []) :
      ∃ last, run s = .ok last := by
    refine ⟨_, run_finished ((step_nothing ?_).1 outside)⟩
    rw [Cursor.rest_dropWhile, rest, List.dropWhile_nil]
  rcases rest with rest | rest
  · exact nothing outside rest
  · have begins : (s.cursor.dropWhile isSpace).rest = ['\n'] := by
      rw [Cursor.rest_dropWhile, rest]
      rfl
    have behind : ((s.cursor.dropWhile isSpace).drop 1).rest = [] := by
      rw [Cursor.rest_drop, begins]
      rfl
    cases start : s.opensLine with
    | true =>
      rw [run_more (step_more_iff.2 (.emptyLine start begins))]
      exact nothing outside behind
    | false =>
      rw [run_more (step_more_iff.2 (.lineEnd start begins)), stepNewline_outside outside]
      exact nothing rfl behind

/-- Runs that come to the same lines, which end at different places maybe. -/
def EndsAlike (last : LexState) (r' : Except SyntaxError LexState) : Prop :=
  ∃ last', r' = .ok last' ∧ last'.indents = last.indents ∧
    List.Forall₂ (SameWord id id) (last.nextLine []).tokens (last'.nextLine []).tokens

/-- One line end, or none, does for all blanks. -/
theorem ends_blank (akin : Akin (.below 0) id [] s s') (blank : ∀ d ∈ s.cursor.rest, isBlank d = true)
    (short : s'.cursor.rest = [] ∨ s'.cursor.rest = ['\n']) (read : run s = .ok last) :
    EndsAlike last (run s') := by
  obtain ⟨outside, indents, p, tokens⟩ := run_blank blank read
  have outside' := akin.outside.2 outside
  obtain ⟨last', read'⟩ := run_lineEnd outside' short
  have blank' : ∀ d ∈ s'.cursor.rest, isBlank d = true := by
    rcases short with rest | rest <;> rw [rest]
    · exact List.forall_mem_nil _
    · exact List.forall_mem_singleton.2 rfl
  obtain ⟨-, indents', p', tokens'⟩ := run_blank blank' read'
  refine ⟨last', read', by rw [indents', indents, akin.indents, List.map_id], ?_⟩
  obtain ⟨ts, same, known⟩ := akin.tokens
  have words : List.Forall₂ (SameWord id id) s.tokens s'.tokens := by
    rw [same, List.append_nil]
    exact known.imp fun _ _ token => ⟨token.1, fun _ => token.2⟩
  rw [tokens, tokens', akin.line]
  split
  · exact words
  · exact .cons ⟨rfl, by simp [isLayout]⟩ words

section Trimmed

variable (h : Lockstep (.below 0) [] W ['\n'] word s s') (blank : ∀ d ∈ W, isBlank d = true)
include h blank

/-- A comment to the end of the text takes blanks with it, up to the end of its line. -/
theorem ends_comment {text : List Char} (comment : word.dropWhile isSpace = '#' :: text)
    (alone : '\n' ∉ text) (read : run s = .ok last) : EndsAlike last (run s') := by
  obtain ⟨-, behind⟩ := h.cursor.dropWhile (.inl (by rw [comment]; exact List.cons_ne_nil _ _))
  rw [comment] at behind
  have passed (tail : List Char) :
      ('#' :: text ++ tail).dropWhile (· ≠ '\n') = tail.dropWhile (· ≠ '\n') := by
    refine List.dropWhile_append_of_pos fun d mem => decide_eq_true ?_
    rintro rfl
    rcases List.mem_cons.1 mem with same | mem
    · cases same
    · exact alone mem
  have left : ∀ d ∈ W.dropWhile (· ≠ '\n'), isBlank d = true :=
    fun d mem => blank d ((List.dropWhile_sublist _).subset mem)
  have begins : (s.cursor.dropWhile isSpace).rest = '#' :: (text ++ W) := behind.rest
  have begins' : (s'.cursor.dropWhile isSpace).rest = '#' :: (text ++ ['\n']) := behind.rest'
  cases start : s.opensLine with
  | true =>
    rw [run_more (step_more_iff.2 (.commentLine start begins))] at read
    rw [run_more (step_more_iff.2 (.commentLine (h.akin.opensLine.trans start) begins'))]
    refine ends_blank (h.akin.moved _ _) ?_ (.inl ?_) read
    · dsimp only
      rw [Cursor.rest_drop, Cursor.rest_dropWhile, behind.rest, passed]
      exact fun d mem => left d (List.mem_of_mem_drop mem)
    · dsimp only
      rw [Cursor.rest_drop, Cursor.rest_dropWhile, behind.rest', passed]
      rfl
  | false =>
    rw [run_more (step_more_iff.2 (.comment start begins))] at read
    rw [run_more (step_more_iff.2 (.comment (h.akin.opensLine.trans start) begins'))]
    refine ends_blank (h.akin.moved _ _) ?_ (.inr ?_) read
    · dsimp only
      rw [Cursor.rest_dropWhile, behind.rest, passed]
      exact left
    · dsimp only
      rw [Cursor.rest_dropWhile, behind.rest', passed]
      rfl

/-- A joint at the end of the text takes the line end behind it. -/
theorem ends_joint (joint : word.dropWhile isSpace = ['\\']) (inline : s.opensLine = false)
    (onward : step s = .ok (.more next)) (read : run next = .ok last) : EndsAlike last (run s') := by
  obtain ⟨-, behind⟩ := h.cursor.dropWhile (.inl (by rw [joint]; exact List.cons_ne_nil _ _))
  rw [joint] at behind
  have first {d : Char} {text : List Char} (begins : (s.cursor.dropWhile isSpace).rest = d :: text) :
      '\\' = d := (List.cons.inj (behind.rest.symm.trans begins)).1
  cases step_more_iff.1 onward with
  | emptyLine start | commentLine start | line start =>
    rw [inline] at start
    cases start
  | lineEnd _ begins | comment _ begins => cases first begins
  | token _ begins opens =>
    obtain rfl := first begins
    cases opens
  | joint _ begins =>
    have tail := (List.cons.inj (behind.rest.symm.trans begins)).2
    have inline' := h.akin.opensLine.trans inline
    rw [run_more (step_more_iff.2 (.joint inline' behind.rest'))]
    refine ends_blank (h.akin.moved _ _) ?_ (.inl ?_) read
    · dsimp only
      rw [Cursor.rest_drop, behind.rest]
      exact fun d mem => blank d (List.mem_of_mem_drop mem)
    · dsimp only
      rw [Cursor.rest_drop, behind.rest']
      rfl

/-- A step that is neither of these leaves the blanks where they are. -/
theorem left_step (visible : word.dropWhile isSpace ≠ [])
    (comments : ∀ text, word.dropWhile isSpace = '#' :: text → '\n' ∈ text)
    (joints : word.dropWhile isSpace = ['\\'] → s.opensLine = true)
    (onward : step s = .ok (.more next)) : W.length ≤ next.cursor.rest.length := by
  obtain ⟨-, behind⟩ := h.cursor.dropWhile (.inl visible)
  obtain ⟨ch, letters, same⟩ := List.exists_cons_of_ne_nil visible
  rw [same] at behind comments joints
  have left {c c' : Cursor} {letters : List Char}
      (h : Cursor.Abreast (.below 0) W ['\n'] letters c c') : W.length ≤ c.rest.length := by
    rw [h.rest, List.length_append]
    omega
  have first {d : Char} {text : List Char} (begins : (s.cursor.dropWhile isSpace).rest = d :: text) :
      ch = d := (List.cons.inj (behind.rest.symm.trans begins)).1
  have passed (hash : ch = '#') : (ch :: letters).dropWhile (· ≠ '\n') ≠ [] :=
    dropWhile_ne_nil_of_lineEnd (List.mem_cons_of_mem ch (comments letters (by rw [hash])))
  cases step_more_iff.1 onward with
  | emptyLine => exact left (behind.drop (n := 1) (by simp))
  | commentLine _ begins =>
    have ends := passed (first begins)
    exact left ((behind.dropWhile (.inl ends)).2.drop (List.length_pos_iff.2 ends))
  | line _ _ _ _ laid =>
    rw [(layout_ok laid).1]
    exact left behind
  | lineEnd =>
    rw [cursor_stepNewline]
    exact left (behind.drop (n := 1) (by simp))
  | comment _ begins => exact left (behind.dropWhile (.inl (passed (first begins)))).2
  | joint inline begins =>
    obtain rfl := first begins
    cases letters with
    | nil =>
      rw [joints rfl] at inline
      cases inline
    | cons d letters => exact left (behind.drop (n := 2) (by simp))
  | token _ begins _ read =>
    exact left_token blank behind.rest begins read

end Trimmed

theorem isBlank_of_isSpace (space : isSpace ch = true) : isBlank ch = true := by
  simp only [isSpace, Bool.or_eq_true, beq_iff_eq] at space
  rcases space with ((rfl | rfl) | rfl) | rfl <;> decide

/-- A text whose last character is no blank is read alike before blanks and before one line end. -/
theorem run_trimmed (h : Lockstep (.below 0) [] W ['\n'] word s s')
    (blank : ∀ d ∈ W, isBlank d = true) (solid : ∀ d ∈ word.getLast?, isBlank d = false)
    (read : run s = .ok last) : EndsAlike last (run s') := by
  have alone {s s' : LexState} (h : Lockstep (.below 0) [] W ['\n'] [] s s')
      (read : run s = .ok last) : EndsAlike last (run s') :=
    ends_blank h.akin (by rw [h.cursor.rest]; exact blank) (.inr h.cursor.rest') read
  have visibly {word : List Char} (solid : ∀ d ∈ word.getLast?, isBlank d = false)
      (nonempty : word ≠ []) : word.dropWhile isSpace ≠ [] := by
    intro spaces
    have space := List.dropWhile_eq_nil_iff.1 spaces _ (List.getLast_mem nonempty)
    have plain := solid _ (List.getLast?_eq_some_getLast nonempty)
    rw [isBlank_of_isSpace space] at plain
    cases plain
  fun_induction run s generalizing word s'
  case case1 => cases read
  case case2 s last' finished =>
    cases read
    by_cases nothing : word = []
    · subst nothing
      exact alone h (run_finished finished)
    · have visible := visibly solid nothing
      have rest := (h.cursor.dropWhile (.inl visible)).2.rest
      rw [(step_finished finished).1] at rest
      exact absurd (List.append_eq_nil_iff.1 rest.symm).1 visible
  case case3 s next onward ih =>
    by_cases nothing : word = []
    · subst nothing
      exact alone h ((run_more onward).trans read)
    have visible := visibly solid nothing
    by_cases comment : ∃ text, word.dropWhile isSpace = '#' :: text ∧ '\n' ∉ text
    · obtain ⟨text, begins, alone⟩ := comment
      exact ends_comment h blank begins alone ((run_more onward).trans read)
    have comments : ∀ text, word.dropWhile isSpace = '#' :: text → '\n' ∈ text :=
      fun text begins => by_contra fun alone => comment ⟨text, begins, alone⟩
    by_cases joint : word.dropWhile isSpace = ['\\'] ∧ s.opensLine = false
    · exact ends_joint h blank joint.1 joint.2 onward read
    have joints : word.dropWhile isSpace = ['\\'] → s.opensLine = true :=
      fun same => by simpa using fun inline => joint ⟨same, inline⟩
    obtain ⟨next', letters, onward', inside, known⟩ := step_lockstep h
      (fun text begins => .inl (comments text begins)) visible (stopped_of_blank blank)
      (.cons (by decide) []) (by simp) onward (left_step h blank visible comments joints onward)
    rw [run_more onward']
    refine ih known (fun d mem => solid d ?_) read
    obtain ⟨before, rfl⟩ := inside
    rw [List.getLast?_append, mem]
    rfl

end Console.Token
