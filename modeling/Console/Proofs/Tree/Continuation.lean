import Console.Proofs.Tree.Blocks

/-!
# Statements of a source that goes on

Every reading of statements carries over from the stream that ends to the one that goes on, at any
two depths that are enough for their tokens.
-/

namespace Console.Parse

open Token

variable {t' : Bool} {e : Token} {R : List Token} {α : Type}

/-- Depths that suffice to read the lines `B` and what comes behind them. -/
def Enough (R : List Token) (f g : Nat) (B : List Token) (r : Nat) : Prop :=
  16 * (B.length + 1) + r < f ∧ 16 * (B.length + R.length + 1) + r < g

namespace Enough

variable {f g r r' : Nat} {B C : List Token}

theorem pred (h : Enough R (f + 1) (g + 1) B r) (less : r' < r) : Enough R f g B r' := by
  unfold Enough at *
  omega

theorem later (h : Enough R (f + 1) (g + 1) B r) (short : C.length < B.length) (small : r' < 16) :
    Enough R f g C r' := by
  unfold Enough at *
  omega

theorem same (h : Enough R f g B r) (short : C.length < B.length) (small : r' < 16) :
    Enough R f g C r' := by
  unfold Enough at *
  omega

theorem within (h : Enough R f g B r) : Within f g (16 * (B ++ [e]).length + r) := by
  unfold Enough at h
  simp only [Within, List.length_append, List.length_singleton]
  omega

end Enough

/-! ## Lines -/

/-- A line of simple statements is read or not whatever comes behind it. -/
theorem simpleLine_extends {f g : Nat} {B : List Token} (whole : WholeLines B) (more : B ≠ [])
    (enough : Enough R f g B 13) (e : Token) (t' loop function : Bool) :
    (∃ error, error.isIncomplete = false ∧
      simpleLine ⟨false, loop, function⟩ f (B ++ [e]) = .error error ∧
      simpleLine ⟨t', loop, function⟩ g (B ++ R) = .error error) ∨
    ∃ v C, WholeLines C ∧ C.length < B.length ∧ depth C = depth B ∧
      simpleLine ⟨false, loop, function⟩ f (B ++ [e]) = .ok (v, C ++ [e]) ∧
      simpleLine ⟨t', loop, function⟩ g (B ++ R) = .ok (v, C ++ R) := by
  have within := enough.within (e := e)
  obtain ⟨line, nl, C, rfl, inline, newline, whole⟩ := whole.split more
  have related : (onLine false t' newline (C ++ [e]) (C ++ R) (depth line)).streams
      (line ++ nl :: C ++ [e]) (line ++ nl :: C ++ R) := ⟨line, inline, rfl, by simp, by simp⟩
  have agree := Simulation.agree_simpleLine (by
    rintro ts ts' ⟨line, -, -, rfl, rfl⟩
    cases line <;> rfl) f g loop function related within
  rcases agree.cases with ⟨error, error', ⟨rfl, final⟩, left, right⟩ | ⟨v, rest, rest',
    ⟨last, last', ⟨M, words, opened, rfl, rfl⟩, ends, rfl, rfl⟩, left, right⟩
  · exact .inl ⟨error', final, left, right⟩
  · -- The end of the line is the first one behind it, so nothing is left of the line.
    have nothing : M = [] := by
      cases M with
      | nil => rfl
      | cons x M =>
        have := (words x (by simp)).1
        simp_all [front]
    subst nothing
    refine .inr ⟨v, C, whole, by simp; omega, ?_, left, right⟩
    have flat : depthOf nl.kind = 0 := by rw [kind_of_isNewline newline]; rfl
    rw [depth_nil] at opened
    simp [← opened, flat]

theorem carries_simpleLine {f g : Nat} {B : List Token} (whole : WholeLines B) (more : B ≠ [])
    (enough : Enough R f g B 13) (loop function : Bool) :
    Carries e R (depth B) B.length (simpleLine ⟨false, loop, function⟩ f (B ++ [e]))
      (simpleLine ⟨t', loop, function⟩ g (B ++ R)) := by
  rcases simpleLine_extends whole more enough e t' loop function with
    ⟨error, final, left, right⟩ | ⟨v, C, whole, short, opened, left, right⟩
  · rw [left, right]
    exact Carries.error final
  · rw [left, right]
    exact Carries.pure v whole short opened

/-- A header stands on one line; what comes behind it begins before the end of that line. -/
theorem carries_header (header : Context → Nat → Parser α) {β : Type} {q q' : α → Parser β}
    {f g : Nat} {B : List Token}
    (respects : ∀ S : Simulation false t', S.Respects f g 12 0 header) (whole : WholeLines B)
    (word : isLayout (front (B ++ [e])) = false) (more : B ≠ [])
    (enough : Enough R (f + 1) (g + 1) B 0) (loop function : Bool)
    (next : ∀ v C, WholeLines C → C ≠ [] → C.length < B.length → depth C = depth B →
      Carries e R (depth C) C.length (q v (C ++ [e])) (q' v (C ++ R))) :
    Carries e R (depth B) B.length
      ((header ⟨false, loop, function⟩ f >>= q) (B ++ [e]).tail)
      ((header ⟨t', loop, function⟩ g >>= q') (B ++ R).tail) := by
  have shorter := length_tail_lt word
  have same := depthOf_of_isLayout word
  obtain ⟨line, nl, D, rfl, inline, newline, below⟩ := whole.split more
  cases line with
  | nil => simp [front, isLayout, kind_of_isNewline newline] at word
  | cons x line =>
    have related : (onLine false t' newline (D ++ [e]) (D ++ R) (depth line)).streams
        (line ++ nl :: (D ++ [e])) (line ++ nl :: (D ++ R)) :=
      ⟨line, fun y mem => inline y (by simp [mem]), rfl, rfl, rfl⟩
    have within : Within f g (16 * (line ++ nl :: (D ++ [e])).length + 12) := by
      simp only [Within, Enough, List.length_append, List.length_cons, List.length_nil] at *
      omega
    simp only [List.cons_append, List.append_assoc, List.tail_cons]
    rcases (respects _ related within).cases with ⟨error, error', ⟨rfl, final⟩, left, right⟩ |
      ⟨v, rest, rest', ⟨⟨M, words, opened, rfl, rfl⟩, short⟩, left, right⟩
    · rw [run_bind_error left, run_bind_error right]
      exact Carries.error final
    · rw [run_bind left, run_bind right]
      have shallow : depth (M ++ nl :: D) = depth (x :: (line ++ nl :: D)) := by
        have : depthOf x.kind = 0 := same
        simp [this, opened]
      have fewer : (M ++ nl :: D).length < (x :: (line ++ nl :: D)).length := by
        simp only [List.length_append, List.length_cons] at *
        omega
      have whole : WholeLines (M ++ nl :: D) := .ofLine words newline below
      rw [← shallow]
      have carried := next v (M ++ nl :: D) whole (by simp) fewer shallow
      rw [List.append_assoc, List.append_assoc] at carried
      exact carried.mono (by omega)

/-! ## Blocks -/

/-- All readings of statements carry over at two depths. -/
structure BlocksCarry (t' : Bool) (e : Token) (R : List Token) (f g : Nat) : Prop where
  statement : ∀ {B}, WholeLines B → B ≠ [] → Enough R f g B 14 → ∀ loop function,
    Carries e R (depth B) B.length (statement ⟨false, loop, function⟩ f (B ++ [e]))
      (statement ⟨t', loop, function⟩ g (B ++ R))
  ifStatement : ∀ {B}, WholeLines B → B ≠ [] → isLayout (front (B ++ [e])) = false →
    Enough R f g B 0 → ∀ loop function,
    Carries e R (depth B) B.length (ifStatement ⟨false, loop, function⟩ f (B ++ [e]))
      (ifStatement ⟨t', loop, function⟩ g (B ++ R))
  elseBlock : ∀ {B}, WholeLines B → Enough R f g B 0 → ∀ loop function,
    Carries e R (depth B) (B.length + 1) (elseBlock ⟨false, loop, function⟩ f (B ++ [e]))
      (elseBlock ⟨t', loop, function⟩ g (B ++ R))
  block : ∀ {B}, WholeLines B → B ≠ [] → Enough R f g B 14 → ∀ loop function,
    Carries e R (depth B) B.length (block ⟨false, loop, function⟩ f (B ++ [e]))
      (block ⟨t', loop, function⟩ g (B ++ R))
  blockRest : ∀ {B}, WholeLines B → Enough R f g B 15 → ∀ loop function,
    Carries e R (depth B + 1) (B.length + 1) (blockRest ⟨false, loop, function⟩ f (B ++ [e]))
      (blockRest ⟨t', loop, function⟩ g (B ++ R))

theorem front_append {B : List Token} (more : B ≠ []) (ts ts' : List Token) :
    front (B ++ ts) = front (B ++ ts') := by
  cases B with
  | nil => contradiction
  | cons x B => rfl

theorem run_current {β : Type} (k : Token → Parser β) (ts : List Token) :
    (current >>= k) ts = k (front ts) ts := rfl

theorem run_advance {β : Type} (k : Unit → Parser β) (ts : List Token) :
    (advance >>= k) ts = k () ts.tail := rfl

theorem run_atNewline {β : Type} (k : Bool → Parser β) (ts : List Token) :
    (atNewline >>= k) ts = k (isNewline (front ts)) ts := rfl

theorem run_atWord {β : Type} (word : String) (k : Bool → Parser β) (ts : List Token) :
    (atWord word >>= k) ts = k (isWord (front ts) word) ts := rfl

theorem eatWord_absent {S : List Token} {word : String} (absent : isWord (front S) word = false) :
    eatWord word S = .ok (false, S) := by
  show (if isWord (front S) word = true then _ else _ : Parser Bool) S = _
  rw [absent]
  rfl

theorem eatWord_present {S : List Token} {word : String} (present : isWord (front S) word = true) :
    eatWord word S = .ok (true, S.tail) := by
  show (if isWord (front S) word = true then _ else _ : Parser Bool) S = _
  rw [present]
  rfl

theorem eatOp_absent {S : List Token} {symbol : String} (absent : isOp (front S) symbol = false) :
    eatOp symbol S = .ok (false, S) := by
  show (if isOp (front S) symbol = true then _ else _ : Parser Bool) S = _
  rw [absent]
  rfl

theorem eatOp_present {S : List Token} {symbol : String} (present : isOp (front S) symbol = true) :
    eatOp symbol S = .ok (true, S.tail) := by
  show (if isOp (front S) symbol = true then _ else _ : Parser Bool) S = _
  rw [present]
  rfl

theorem elseBlock_absent {S : List Token} (absent : isWord (front S) "else" = false) (ctx : Context)
    (f : Nat) : elseBlock ctx (f + 1) S = .ok ([], S) := by
  rw [elseBlock, run_bind (eatWord_absent absent)]
  rfl

theorem elseBlock_present {S : List Token} (present : isWord (front S) "else" = true)
    (ctx : Context) (f : Nat) :
    elseBlock ctx (f + 1) S = (expectOp ctx ":" >>= fun _ => block ctx f) S.tail := by
  rw [elseBlock, run_bind (eatWord_present present)]
  rfl

theorem not_isWord_of_isEnd {t : Token} (ending : isEnd t = true) (word : String) :
    isWord t word = false := by
  simp [isWord, kind_of_isEnd ending]

/-- The end of a source that may go on. -/
theorem unexpected_end (ending : isEnd e = true) (loop function : Bool) :
    (unexpected ⟨false, loop, function⟩ : Parser α) [e] =
      .error (.of (.incomplete .blockEnd) e.pos) := by
  show Except.error (SyntaxError.of (unexpectedFault false e.kind) e.pos) = _
  rw [kind_of_isEnd ending]
  rfl

/-- A body that was missing is read up to the end of its block. -/
theorem blockRest_pass {word newline : Token} {rest S : List Token} (pass : word.kind = .name "pass")
    (line : newline.kind = .newline) (closes : Closes 1 rest S) (ctx : Context) (f : Nat) :
    ∃ v, blockRest ctx (f + 4) (word :: newline :: rest) = .ok (v, S) := by
  obtain ⟨closed, dedents, one, rfl⟩ := closes
  obtain ⟨x, rfl⟩ := List.length_eq_one_iff.1 one
  have dedent := dedents x (by simp)
  obtain ⟨kind, p⟩ := word
  obtain ⟨kind', p'⟩ := newline
  obtain ⟨kind'', p''⟩ := x
  subst pass line dedent
  exact ⟨[.simple p.line .pass], rfl⟩

theorem blockRest_end (ending : isEnd e = true) (loop function : Bool) (f : Nat) :
    blockRest ⟨false, loop, function⟩ (f + 1) [e] = .error (.of (.incomplete .blockEnd) e.pos) := by
  rw [blockRest, run_current]
  simp only [front, List.head?_cons, Option.getD_some, kind_of_isEnd ending]
  exact unexpected_end ending loop function

theorem blockRest_closed {S T : List Token} (closes : Closes 1 S T) (ctx : Context) (f : Nat) :
    blockRest ctx (f + 1) S = .ok ([], T) := by
  obtain ⟨closed, dedents, one, rfl⟩ := closes
  obtain ⟨x, rfl⟩ := List.length_eq_one_iff.1 one
  rw [blockRest, run_current]
  simp only [front, List.cons_append, List.head?_cons, Option.getD_some, dedents x (by simp)]
  rfl

/-- Two parsers of which the one carries over to the other. -/
def Carried (e : Token) (R B : List Token) (p p' : Parser α) : Prop :=
  Carries e R (depth B) B.length (p (B ++ [e])) (p' (B ++ R))

theorem carried_advance {B : List Token} {p p' : Parser α}
    (h : Carries e R (depth B) B.length (p (B ++ [e]).tail) (p' (B ++ R).tail)) :
    Carried e R B (advance >>= fun _ => p) (advance >>= fun _ => p') :=
  h

section Step

variable {f g : Nat} {B : List Token} (ih : BlocksCarry t' e R f g)
include ih

theorem carries_elseBlock (ending : isEnd e = true) (whole : WholeLines B)
    (enough : Enough R (f + 1) (g + 1) B 0) (loop function : Bool) :
    Carries e R (depth B) (B.length + 1) (elseBlock ⟨false, loop, function⟩ (f + 1) (B ++ [e]))
      (elseBlock ⟨t', loop, function⟩ (g + 1) (B ++ R)) := by
  by_cases present : isWord (front (B ++ [e])) "else" = true
  · have more : B ≠ [] := by
      rintro rfl
      rw [List.nil_append, front, List.head?_cons, Option.getD_some,
        not_isWord_of_isEnd ending] at present
      cases present
    rw [elseBlock_present present, elseBlock_present (by rwa [front_append more R [e]])]
    refine Carries.mono ?_ (Nat.le_succ _)
    refine carries_header (fun ctx _ => expectOp ctx ":") ?_ whole
      (isLayout_false_of_isWord present) more enough loop function ?_
    · exact fun _ loop function _ _ related _ =>
        Simulation.alike_expectOp related loop function ":"
    · exact fun _ C whole more short opened =>
        ih.block whole more (enough.later short (by omega)) loop function
  · have absent : isWord (front (B ++ [e])) "else" = false := by simpa using present
    rw [elseBlock_absent absent]
    refine ⟨B, rfl, whole, by omega, rfl, fun follows => elseBlock_absent ?_ _ _⟩
    by_cases more : B = []
    · subst more
      have sealed : Sealed R := by simpa using follows
      exact sealed.2
    · rwa [front_append more R [e]]

theorem carries_body {q q' : List Statement → Parser α} (whole : WholeLines B) (more : B ≠ [])
    (enough : Enough R f g B 14) (loop function : Bool)
    (next : ∀ body C, WholeLines C → C.length < B.length → depth C = depth B →
      Carries e R (depth C) (C.length + 1) (q body (C ++ [e])) (q' body (C ++ R)))
    (quiet : ∀ body, ∃ w, q body [e] = .ok (w, [e]))
    (cured : ∀ body S, Sealed S → ∃ w, q' body S = .ok (w, S)) :
    Carries e R (depth B) B.length ((block ⟨false, loop, function⟩ f >>= q) (B ++ [e]))
      ((block ⟨t', loop, function⟩ g >>= q') (B ++ R)) := by
  rw [← Int.add_zero (depth B)]
  refine Carries.bind (k := 0) (ih.block whole more enough loop function) ?_ ?_ ?_
  · intro body C whole short opened
    have onward := next body C whole short opened
    rw [opened] at onward
    simpa using onward
  · intro body error failed
    obtain ⟨w, read⟩ := quiet body
    rw [read] at failed
    cases failed
  · rintro body S T ⟨closed, -, count, rfl⟩ sealed
    obtain rfl : closed = [] := List.length_eq_zero_iff.1 count
    exact cured body T sealed

/-- A body and the branch behind it. -/
theorem carries_loop (make : List Statement → List Statement → α) (whole : WholeLines B)
    (more : B ≠ []) (enough : Enough R f g B 14) (ending : isEnd e = true)
    (loop function loop' function' : Bool) :
    Carries e R (depth B) B.length
      ((block ⟨false, loop, function⟩ f >>= fun body =>
        elseBlock ⟨false, loop', function'⟩ f >>= fun orelse => pure (make body orelse)) (B ++ [e]))
      ((block ⟨t', loop, function⟩ g >>= fun body =>
        elseBlock ⟨t', loop', function'⟩ g >>= fun orelse => pure (make body orelse))
          (B ++ R)) := by
  obtain ⟨f, rfl⟩ : ∃ f', f = f' + 1 := ⟨f - 1, by unfold Enough at enough; omega⟩
  obtain ⟨g, rfl⟩ : ∃ g', g = g' + 1 := ⟨g - 1, by unfold Enough at enough; omega⟩
  refine carries_body ih whole more enough loop function ?_ ?_ ?_
  · exact fun body C whole short _ => Carries.map
      (ih.elseBlock whole (enough.same short (by omega)) loop' function')
  · intro body
    refine ⟨make body [], ?_⟩
    rw [run_bind (elseBlock_absent (S := [e]) (not_isWord_of_isEnd ending _) _ _)]
    rfl
  · intro body S sealed
    refine ⟨make body [], ?_⟩
    rw [run_bind (elseBlock_absent sealed.2 _ _)]
    rfl

theorem carries_ifStatement (ending : isEnd e = true) (whole : WholeLines B) (more : B ≠ [])
    (word : isLayout (front (B ++ [e])) = false) (enough : Enough R (f + 1) (g + 1) B 0)
    (loop function : Bool) :
    Carries e R (depth B) B.length (ifStatement ⟨false, loop, function⟩ (f + 1) (B ++ [e]))
      (ifStatement ⟨t', loop, function⟩ (g + 1) (B ++ R)) := by
  have place : front (B ++ R) = front (B ++ [e]) := front_append more R [e]
  rw [ifStatement, ifStatement]
  simp only [run_current, run_advance, place]
  refine carries_header testHeader (fun _ => Simulation.respects_testHeader f g) whole word more
    enough loop function ?_
  intro test C whole more short opened
  have enough : Enough R f g C 14 := enough.later short (by omega)
  obtain ⟨f, rfl⟩ : ∃ f', f = f' + 1 := ⟨f - 1, by unfold Enough at enough; omega⟩
  obtain ⟨g, rfl⟩ : ∃ g', g = g' + 1 := ⟨g - 1, by unfold Enough at enough; omega⟩
  have ended : Sealed [e] := ⟨not_isWord_of_isEnd ending _, not_isWord_of_isEnd ending _⟩
  -- Without another branch the statement ends here.
  have ends (ctx : Context) (f line : Nat) (body : List Statement) {S : List Token}
      (sealed : Sealed S) :
      (if isWord (front S) "elif" = true then do
          return Statement.ifElse line test body [← ifStatement ctx (f + 1)]
        else do
          return Statement.ifElse line test body (← elseBlock ctx (f + 1)) : Parser Statement) S =
        .ok (.ifElse line test body [], S) := by
    rw [sealed.1]
    exact run_bind (elseBlock_absent sealed.2 ctx f)
  refine carries_body ih whole more enough loop function ?_ ?_ ?_
  · intro body D whole short _
    have enough : Enough R (f + 1) (g + 1) D 0 := enough.same short (by omega)
    rw [run_atWord, run_atWord]
    by_cases more : D = []
    · subst more
      rw [List.nil_append, ends _ _ _ body ended]
      exact ⟨[], rfl, .nil, by omega, rfl, fun follows => ends _ _ _ body (by simpa using follows)⟩
    · rw [front_append more R [e]]
      by_cases branch : isWord (front (D ++ [e])) "elif" = true
      · rw [if_pos branch, if_pos branch]
        refine Carries.mono (Carries.map ?_) (Nat.le_succ _)
        exact ih.ifStatement whole more (isLayout_false_of_isWord branch) enough loop function
      · rw [if_neg branch, if_neg branch]
        exact Carries.map (ih.elseBlock whole enough loop function)
  · exact fun body => ⟨_, ends _ _ _ body ended⟩
  · exact fun body S sealed => ⟨_, ends _ _ _ body sealed⟩

theorem carries_block (ending : isEnd e = true) (whole : WholeLines B) (more : B ≠ [])
    (enough : Enough R (f + 1) (g + 1) B 14) (loop function : Bool) :
    Carries e R (depth B) B.length (block ⟨false, loop, function⟩ (f + 1) (B ++ [e]))
      (block ⟨t', loop, function⟩ (g + 1) (B ++ R)) := by
  rw [block, block]
  simp only [run_atNewline]
  rw [front_append more R [e]]
  by_cases line : isNewline (front (B ++ [e])) = true
  · rw [if_pos line, if_pos line]
    obtain ⟨x, B, rfl⟩ : ∃ x B', B = x :: B' := List.exists_cons_of_ne_nil more
    have flat : depthOf x.kind = 0 := by rw [kind_of_isNewline (t := x) line]; rfl
    simp only [run_advance, run_current, List.cons_append, List.tail_cons]
    cases B with
    | nil =>
      -- The body is missing, and `R` may bring it.
      rw [List.nil_append, List.nil_append, front, List.head?_cons, Option.getD_some,
        kind_of_isEnd ending]
      refine ⟨⟨0, by simp [flat], ?_⟩, .inl rfl, fun _ withholds => ?_⟩
      · rintro S ⟨opened, word, newline, rest, indent, pass, lineEnd, rfl, closes⟩ sealed
        obtain ⟨g, rfl⟩ : ∃ g', g = g' + 4 := ⟨g - 4, by unfold Enough at enough; omega⟩
        rw [front, List.head?_cons, Option.getD_some, indent]
        exact blockRest_pass pass lineEnd closes ⟨t', loop, function⟩ g
      · refine ⟨.of .expectedBlock (front R).pos, rfl, ?_⟩
        obtain ⟨other, more⟩ := withholds
        cases kind : (front R).kind with
        | indent => exact absurd kind other
        | endMarker => simp [isEnd, kind] at more
        | _ => rfl
    | cons y B =>
      simp only [List.cons_append, front, List.head?_cons, Option.getD_some]
      cases kind : y.kind with
      | indent =>
        have opened : depth (x :: y :: B) = depth B + 1 := by
          rw [depth_cons, depth_cons, flat, kind]
          show 0 + (1 + depth B) = depth B + 1
          omega
        rw [opened]
        refine Carries.mono ?_ (show B.length + 1 ≤ _ by simp)
        have enough : Enough R f g B 15 :=
          enough.later (Nat.lt_succ_of_lt (Nat.lt_succ_self _)) (by omega)
        exact ih.blockRest whole.tail.tail enough loop function
      | endMarker =>
        have := whole.inside y (by simp)
        simp [isEnd, kind] at this
      | _ => exact Carries.error rfl
  · rw [if_neg line, if_neg line]
    exact carries_simpleLine whole more (enough.pred (by omega)) loop function

theorem carries_blockRest (ending : isEnd e = true) (whole : WholeLines B)
    (enough : Enough R (f + 1) (g + 1) B 15) (loop function : Bool) :
    Carries e R (depth B + 1) (B.length + 1) (blockRest ⟨false, loop, function⟩ (f + 1) (B ++ [e]))
      (blockRest ⟨t', loop, function⟩ (g + 1) (B ++ R)) := by
  cases B with
  | nil =>
    -- The block is open, and `R` may close it.
    rw [List.nil_append, List.nil_append, blockRest_end ending]
    exact ⟨⟨1, rfl, fun S closes _ => ⟨[], blockRest_closed closes _ _⟩⟩, .inr rfl, by simp⟩
  | cons x B =>
    rw [blockRest, blockRest]
    simp only [run_current, List.cons_append, front, List.head?_cons, Option.getD_some]
    have first := ih.statement whole (by simp) (enough.pred (by omega)) loop function
    have onward : Carries e R (depth (x :: B) + (1 : Nat)) (x :: B).length
        ((statement ⟨false, loop, function⟩ f >>= fun first =>
          blockRest ⟨false, loop, function⟩ f >>= fun rest => pure (first ++ rest)) (x :: B ++ [e]))
        ((statement ⟨t', loop, function⟩ g >>= fun first =>
          blockRest ⟨t', loop, function⟩ g >>= fun rest => pure (first ++ rest)) (x :: B ++ R)) := by
      obtain ⟨f, rfl⟩ : ∃ f', f = f' + 1 := ⟨f - 1, by unfold Enough at enough; omega⟩
      obtain ⟨g, rfl⟩ : ∃ g', g = g' + 1 := ⟨g - 1, by unfold Enough at enough; omega⟩
      refine Carries.bind first ?_ ?_ ?_
      · intro v C whole short opened
        rw [← opened]
        exact Carries.map (ih.blockRest whole (enough.later short (by omega)) loop function)
      · intro v error failed
        rw [run_bind_error (blockRest_end ending _ _ _)] at failed
        cases failed
        rfl
      · intro v S T closes _
        refine ⟨v ++ [], ?_⟩
        rw [run_bind (blockRest_closed closes _ _)]
        rfl
    cases kind : x.kind with
    | dedent =>
      refine Carries.pure [] whole.tail (Nat.lt_succ_of_lt (Nat.lt_succ_self _)) ?_
      rw [depth_cons, kind]
      show depth B = -1 + depth B + 1
      omega
    | endMarker =>
      have := whole.inside x (by simp)
      simp [isEnd, kind] at this
    | _ => exact onward.mono (Nat.le_succ _)

theorem carries_statement (ending : isEnd e = true) (whole : WholeLines B) (more : B ≠ [])
    (enough : Enough R (f + 1) (g + 1) B 14) (loop function : Bool) :
    Carries e R (depth B) B.length (statement ⟨false, loop, function⟩ (f + 1) (B ++ [e]))
      (statement ⟨t', loop, function⟩ (g + 1) (B ++ R)) := by
  have place : front (B ++ R) = front (B ++ [e]) := front_append more R [e]
  have shallow : Enough R (f + 1) (g + 1) B 0 := by unfold Enough at *; omega
  rw [statement, statement]
  simp only [run_current, place]
  change Carried e R B _ _
  split
  case h_1 kind =>
    exact Carries.map (ih.ifStatement whole more (isLayout_false_of_name kind)
      (enough.pred (by omega)) loop function)
  case h_2 kind =>
    refine carried_advance (carries_header testHeader (fun _ => Simulation.respects_testHeader f g)
      whole (isLayout_false_of_name kind) more shallow loop function ?_)
    intro test C whole more short _
    let line := (front (B ++ [e])).pos.line
    exact carries_loop ih (fun body orelse => [Statement.whileLoop line test body orelse]) whole more
      (enough.later short (by omega)) ending true function loop function
  case h_3 kind =>
    refine carried_advance (carries_header forHeader
      (fun _ => Simulation.respects_forHeader f g) whole (isLayout_false_of_name kind) more shallow
      loop function ?_)
    rintro ⟨target, iterable⟩ C whole more short _
    let line := (front (B ++ [e])).pos.line
    exact carries_loop ih
      (fun body orelse => [Statement.forLoop line target iterable body orelse]) whole
      more (enough.later short (by omega)) ending true function loop function
  case h_4 kind =>
    refine carried_advance (carries_header functionHeader
      (fun _ => Simulation.respects_functionHeader f g) whole (isLayout_false_of_name kind) more
      shallow loop function ?_)
    rintro ⟨name, parameters⟩ C whole more short _
    exact Carries.map (ih.block whole more (enough.later short (by omega)) false true)
  case h_5 kind =>
    refine carried_advance (carries_header classHeader
      (fun _ => Simulation.respects_classHeader f g) whole (isLayout_false_of_name kind) more shallow
      loop function ?_)
    rintro ⟨name, bases⟩ C whole more short _
    exact Carries.map (ih.block whole more (enough.later short (by omega)) false false)
  case h_6 kind =>
    show Carries e R _ _ (.error (.of (unexpectedFault false (front (B ++ [e])).kind) _))
      (.error (.of (unexpectedFault t' (front (B ++ R)).kind) _))
    rw [place, kind]
    exact Carries.error rfl
  case h_7 kind =>
    show Carries e R _ _ (.error (.of (unexpectedFault false (front (B ++ [e])).kind) _))
      (.error (.of (unexpectedFault t' (front (B ++ R)).kind) _))
    rw [place, kind]
    exact Carries.error rfl
  case h_8 kind =>
    cases B with
    | nil => contradiction
    | cons x B =>
      have := whole.inside x (by simp)
      simp_all [isEnd, front]
  case h_9 => exact carries_simpleLine whole more (enough.pred (by omega)) loop function

end Step

/-- Statements carry over from the stream that ends to every stream that goes on. -/
theorem blocksCarry (ending : isEnd e = true) (t' : Bool) (R : List Token) (f g : Nat) :
    BlocksCarry t' e R f g := by
  induction f generalizing g with
  | zero =>
    constructor <;> · intros; simp_all [Enough]
  | succ f ih =>
    cases g with
    | zero => constructor <;> · intros; simp_all [Enough]
    | succ g => exact {
        statement := carries_statement (ih g) ending
        ifStatement := carries_ifStatement (ih g) ending
        elseBlock := carries_elseBlock (ih g) ending
        block := carries_block (ih g) ending
        blockRest := carries_blockRest (ih g) ending }

end Console.Parse
