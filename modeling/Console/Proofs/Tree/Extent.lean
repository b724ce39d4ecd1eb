import Console.Proofs.Program

/-!
# How far statements reach

A statement takes whole lines off its stream and closes the blocks that it opens. What it reads does
not depend on the depth of reading, as long as that suffices, nor on what is known of the end of the
source.
-/

namespace Console.Parse

open Token

variable {t t' : Bool} {α β : Type} {ts rest : List Token}

/-! ## What is left of a stream -/

/-- Only words stand before the rest. -/
def BehindWords (ts rest : List Token) : Prop :=
  ∃ words, (∀ x ∈ words, isLayout x = false) ∧ ts = words ++ rest

/-- What stands before the rest ends a line or a block, and opens `d` blocks more than it closes. -/
def BehindLines (d : Int) (ts rest : List Token) : Prop :=
  ∃ lines last, ts = lines ++ last :: rest ∧ (last.kind = .newline ∨ last.kind = .dedent) ∧
    depth (lines ++ [last]) = d

theorem depth_words {words : List Token} (inline : ∀ x ∈ words, isLayout x = false) :
    depth words = 0 := by
  induction words with
  | nil => rfl
  | cons x words ih =>
    rw [depth_cons, depthOf_of_isLayout (inline x (by simp)),
      ih fun y mem => inline y (by simp [mem])]
    rfl

theorem eq_cons_of_word (word : isLayout (front ts) = false) : ts = front ts :: ts.tail := by
  cases ts with
  | nil => cases word
  | cons x ts => rfl

namespace BehindWords

theorem refl (ts : List Token) : BehindWords ts ts := ⟨[], by simp, rfl⟩

theorem tail {whole : List Token} (h : BehindWords whole ts) (word : isLayout (front ts) = false) :
    BehindWords whole ts.tail := by
  obtain ⟨words, inline, rfl⟩ := h
  refine ⟨words ++ [front ts], ?_, ?_⟩
  · intro x mem
    rcases List.mem_append.1 mem with mem | mem
    · exact inline x mem
    · rwa [List.mem_singleton.1 mem]
  · rw [List.append_assoc]
    exact congrArg (words ++ ·) (eq_cons_of_word word)

end BehindWords

namespace BehindLines

variable {d d' : Int} {between : List Token}

/-- The end of a line behind its words. -/
theorem line (h : BehindWords ts between) (newline : isNewline (front between) = true) :
    BehindLines 0 ts between.tail := by
  obtain ⟨words, inline, rfl⟩ := h
  have kind := kind_of_isNewline newline
  cases between with
  | nil => cases newline
  | cons x between =>
    refine ⟨words, x, rfl, .inl kind, ?_⟩
    rw [depth_append, depth_words inline, depth_cons, depth_nil]
    simp only [front, List.head?_cons, Option.getD_some] at kind
    rw [kind]
    rfl

theorem words (h : BehindWords ts between) (h' : BehindLines d between rest) :
    BehindLines d ts rest := by
  obtain ⟨words, inline, rfl⟩ := h
  obtain ⟨lines, last, rfl, ends, opened⟩ := h'
  refine ⟨words ++ lines, last, by rw [List.append_assoc], ends, ?_⟩
  rw [List.append_assoc, depth_append, depth_words inline, opened, Int.zero_add]

theorem trans (h : BehindLines d ts between) (h' : BehindLines d' between rest) :
    BehindLines (d + d') ts rest := by
  obtain ⟨lines, last, rfl, -, opened⟩ := h
  obtain ⟨lines', last', rfl, ends, opened'⟩ := h'
  refine ⟨lines ++ last :: lines', last', by simp, ends, ?_⟩
  rw [← opened, ← opened', ← depth_append]
  simp

/-- One token that opens a block or closes it. -/
theorem cons {x : Token} (h : BehindLines d ts rest) :
    BehindLines (depthOf x.kind + d) (x :: ts) rest := by
  obtain ⟨lines, last, rfl, ends, opened⟩ := h
  exact ⟨x :: lines, last, rfl, ends, by rw [List.cons_append, depth_cons, opened]⟩

theorem tail {x : Token} (h : BehindLines d (x :: ts) rest) (word : isLayout x = false) :
    BehindLines d ts rest := by
  obtain ⟨lines, last, same, ends, opened⟩ := h
  cases lines with
  | nil =>
    cases same
    rcases ends with kind | kind <;> simp [isLayout, kind] at word
  | cons y lines =>
    cases same
    refine ⟨lines, last, rfl, ends, ?_⟩
    rwa [List.cons_append, depth_cons, depthOf_of_isLayout word, Int.zero_add] at opened

theorem length_lt (h : BehindLines d ts rest) : rest.length < ts.length := by
  obtain ⟨lines, last, rfl, -, -⟩ := h
  simp only [List.length_append, List.length_cons]
  omega

end BehindLines

/-! ## Two readings of one stream -/

/-- Two parsers that come to the same at a stream: both fail, or both take one value and leave one
rest, of which `left` is known. They fail with one error if `alike`. -/
def Same (alike : Prop) (left : List Token → Prop) (p p' : Parser α) (ts : List Token) : Prop :=
  match p ts, p' ts with
  | .ok x, .ok x' => x' = x ∧ left x.2
  | .error e, .error e' => alike → e' = e
  | _, _ => False

namespace Same

variable {alike : Prop} {left left' : List Token → Prop} {p p' : Parser α}

theorem cases (h : Same alike left p p' ts) :
    (∃ e e', (alike → e' = e) ∧ p ts = .error e ∧ p' ts = .error e') ∨
      ∃ v rest, left rest ∧ p ts = .ok (v, rest) ∧ p' ts = .ok (v, rest) := by
  unfold Same at h
  split at h
  · rename_i x x' read read'
    obtain ⟨rfl, known⟩ := h
    exact .inr ⟨_, _, known, read, read'⟩
  · exact .inl ⟨_, _, h, by assumption, by assumption⟩
  · exact h.elim

theorem of_error {e e' : SyntaxError} (same : alike → e' = e) (failed : p ts = .error e)
    (failed' : p' ts = .error e') : Same alike left p p' ts := by
  unfold Same
  rw [failed, failed']
  exact same

theorem of_ok {v : α} (read : p ts = .ok (v, rest)) (read' : p' ts = .ok (v, rest))
    (known : left rest) : Same alike left p p' ts := by
  unfold Same
  rw [read, read']
  exact ⟨rfl, known⟩

theorem mono (h : Same alike left p p' ts) (weaker : ∀ rest, left rest → left' rest) :
    Same alike left' p p' ts := by
  rcases h.cases with ⟨e, e', same, failed, failed'⟩ | ⟨v, rest, known, read, read'⟩
  · exact .of_error same failed failed'
  · exact .of_ok read read' (weaker rest known)

/-- What one of them reads, the other reads too. -/
theorem ok (h : Same alike left p p' ts) {v : α} (read : p ts = .ok (v, rest)) :
    p' ts = .ok (v, rest) ∧ left rest := by
  rcases h.cases with ⟨e, e', -, failed, -⟩ | ⟨v', rest', known, same, read'⟩
  · rw [read] at failed
    cases failed
  · rw [read] at same
    cases same
    exact ⟨read', known⟩

/-- Where they are alike, they fail with one error. -/
theorem error (h : Same alike left p p' ts) (same : alike) {e : SyntaxError}
    (failed : p ts = .error e) : p' ts = .error e := by
  rcases h.cases with ⟨e₁, e₂, one, failed₁, failed₂⟩ | ⟨v, rest, -, read, -⟩
  · rw [failed] at failed₁
    cases failed₁
    rw [failed₂, one same]
  · rw [failed] at read
    cases read

theorem bind {k k' : α → Parser β} (first : Same alike left p p' ts)
    (next : ∀ v rest, left rest → Same alike left' (k v) (k' v) rest) :
    Same alike left' (p >>= k) (p' >>= k') ts := by
  rcases first.cases with ⟨e, e', same, taken, taken'⟩ | ⟨v, rest, known, taken, taken'⟩
  · exact .of_error same (run_bind_error taken) (run_bind_error taken')
  · have onward := next v rest known
    unfold Same at onward ⊢
    rwa [run_bind taken, run_bind taken']

theorem map (change : α → β) (h : Same alike left p p' ts) :
    Same alike left (p >>= fun v => Pure.pure (change v)) (p' >>= fun v => Pure.pure (change v)) ts :=
  h.bind fun _ _ known => .of_ok rfl rfl known

theorem current {k k' : Token → Parser α} (next : Same alike left (k (front ts)) (k' (front ts)) ts) :
    Same alike left (Parse.current >>= k) (Parse.current >>= k') ts :=
  next

theorem advance {k k' : Unit → Parser α} (next : Same alike left (k ()) (k' ()) ts.tail) :
    Same alike left (Parse.advance >>= k) (Parse.advance >>= k') ts :=
  next

theorem atNewline {k k' : Bool → Parser α}
    (next : Same alike left (k (isNewline (front ts))) (k' (isNewline (front ts))) ts) :
    Same alike left (Parse.atNewline >>= k) (Parse.atNewline >>= k') ts :=
  next

theorem atWord {word : String} {k k' : Bool → Parser α}
    (next : Same alike left (k (isWord (front ts) word)) (k' (isWord (front ts) word)) ts) :
    Same alike left (Parse.atWord word >>= k) (Parse.atWord word >>= k') ts :=
  next

end Same

/-- A stream and itself, as long as only words have been taken off it. -/
def wordwise (whole : List Token) (t t' : Bool) : Simulation t t' where
  streams ts ts' := ts' = ts ∧ BehindWords whole ts
  errors e e' := t = t' → e' = e
  sameFront := by rintro ts _ ⟨rfl, -⟩; rfl
  sameSecond := by rintro ts _ ⟨rfl, -⟩ _; rfl
  behind := by rintro ts _ ⟨rfl, behind⟩ word; exact ⟨rfl, behind.tail word⟩
  final := by rintro ts _ f ⟨rfl, -⟩ - -; rfl
  misplaced := by rintro ts _ ⟨rfl, -⟩ rfl; rfl

/-- Simple statements are read up to the end of their line. -/
theorem same_simpleLine {f g : Nat} (within : Within f g (16 * ts.length + 13))
    (loop function : Bool) :
    Same (t = t') (BehindLines 0 ts) (simpleLine ⟨t, loop, function⟩ f) (simpleLine ⟨t', loop, function⟩ g)
      ts := by
  have agree := (wordwise ts t t').agree_simpleLine (by rintro ts _ ⟨rfl, -⟩; rfl) f g loop function
    ⟨rfl, .refl ts⟩ within
  rcases agree.cases with ⟨e, e', same, left, right⟩ |
    ⟨v, _, _, ⟨last, _, ⟨rfl, words⟩, ends, rfl, rfl⟩, left, right⟩
  · exact .of_error same left right
  · exact .of_ok left right (.line words ends)

/-- A header is made of words, and what comes behind it stands on its line. -/
theorem same_header (header : Context → Nat → Parser α) {q q' : α → Parser β} {f g : Nat}
    {left : List Token → Prop} (respects : ∀ S : Simulation t t', S.Respects f g 12 0 header)
    (word : isLayout (front ts) = false) (within : Within (f + 1) (g + 1) (16 * ts.length))
    (loop function : Bool)
    (next : ∀ v rest, BehindWords ts rest → rest.length < ts.length →
      Same (t = t') left (q v) (q' v) rest) :
    Same (t = t') left (header ⟨t, loop, function⟩ f >>= q) (header ⟨t', loop, function⟩ g >>= q')
      ts.tail := by
  have shorter := length_tail_lt word
  have related : (wordwise ts t t').streams ts.tail ts.tail := ⟨rfl, (BehindWords.refl ts).tail word⟩
  have taken : Same (t = t') (fun rest => BehindWords ts rest ∧ rest.length < ts.length)
      (header ⟨t, loop, function⟩ f) (header ⟨t', loop, function⟩ g) ts.tail := by
    have alike : (wordwise ts t t').Alike _ (header ⟨t, loop, function⟩ f)
        (header ⟨t', loop, function⟩ g) ts.tail ts.tail :=
      respects (wordwise ts t t') related (within.later (by omega) (by omega))
    rcases alike.cases with
      ⟨e, e', same, taken, taken'⟩ | ⟨v, rest, _, ⟨⟨rfl, words⟩, short⟩, taken, taken'⟩
    · exact .of_error same taken taken'
    · exact .of_ok taken taken' ⟨words, by omega⟩
  exact taken.bind fun v rest behind => next v rest behind.1 behind.2

/-! ## Blocks -/

/-- All readings of statements come to the same at two depths. -/
structure Reach (t t' : Bool) (f g : Nat) : Prop where
  statement : ∀ {ts}, Within f g (16 * ts.length + 14) → ∀ loop function,
    Same (t = t') (BehindLines 0 ts) (statement ⟨t, loop, function⟩ f) (statement ⟨t', loop, function⟩ g) ts
  ifStatement : ∀ {ts}, isLayout (front ts) = false → Within f g (16 * ts.length) →
    ∀ loop function, Same (t = t') (BehindLines 0 ts) (ifStatement ⟨t, loop, function⟩ f)
      (ifStatement ⟨t', loop, function⟩ g) ts
  elseBlock : ∀ {ts}, Within f g (16 * ts.length) → ∀ loop function,
    Same (t = t') (fun rest => rest = ts ∨ BehindLines 0 ts rest) (elseBlock ⟨t, loop, function⟩ f)
      (elseBlock ⟨t', loop, function⟩ g) ts
  block : ∀ {ts}, Within f g (16 * ts.length + 14) → ∀ loop function,
    Same (t = t') (BehindLines 0 ts) (block ⟨t, loop, function⟩ f) (block ⟨t', loop, function⟩ g) ts
  blockRest : ∀ {ts}, Within f g (16 * ts.length + 15) → ∀ loop function,
    Same (t = t') (BehindLines (-1) ts) (blockRest ⟨t, loop, function⟩ f)
      (blockRest ⟨t', loop, function⟩ g) ts

section Step

variable {f g : Nat} (ih : Reach t t' f g)
include ih

theorem reach_elseBlock (within : Within (f + 1) (g + 1) (16 * ts.length)) (loop function : Bool) :
    Same (t = t') (fun rest => rest = ts ∨ BehindLines 0 ts rest)
      (elseBlock ⟨t, loop, function⟩ (f + 1)) (elseBlock ⟨t', loop, function⟩ (g + 1)) ts := by
  by_cases present : isWord (front ts) "else" = true
  · have body : Same (t = t') (fun rest => rest = ts ∨ BehindLines 0 ts rest)
        (expectOp ⟨t, loop, function⟩ ":" >>= fun _ => block ⟨t, loop, function⟩ f)
        (expectOp ⟨t', loop, function⟩ ":" >>= fun _ => block ⟨t', loop, function⟩ g) ts.tail := by
      refine same_header (fun ctx _ => expectOp ctx ":") ?_
        (isLayout_false_of_isWord present) within loop function ?_
      · exact fun _ loop function _ _ related _ =>
          Simulation.alike_expectOp related loop function ":"
      · intro _ rest words short
        exact (ih.block (within.later (by omega) (by omega)) loop function).mono
          fun _ lines => .inr (.words words lines)
    unfold Same at body ⊢
    rwa [elseBlock_present present, elseBlock_present present]
  · have absent : isWord (front ts) "else" = false := by simpa using present
    exact .of_ok (elseBlock_absent absent _ _) (elseBlock_absent absent _ _) (.inl rfl)

/-- A body with the branch behind it, on the line of a header. -/
theorem reach_loop (make : List Statement → List Statement → α) {whole : List Token}
    (words : BehindWords whole ts) (within : Within f g (16 * ts.length + 14))
    (loop function loop' function' : Bool) :
    Same (t = t') (BehindLines 0 whole)
      (block ⟨t, loop, function⟩ f >>= fun body =>
        elseBlock ⟨t, loop', function'⟩ f >>= fun orelse => pure (make body orelse))
      (block ⟨t', loop, function⟩ g >>= fun body =>
        elseBlock ⟨t', loop', function'⟩ g >>= fun orelse => pure (make body orelse)) ts := by
  refine (ih.block within loop function).bind fun body rest lines => ?_
  have short := lines.length_lt
  refine Same.map _ ((ih.elseBlock (within.same (r := 0) (by omega) (by omega)) loop' function').mono
    ?_)
  rintro rest' (rfl | more)
  · exact .words words lines
  · exact .words words (lines.trans more)

theorem reach_ifStatement (word : isLayout (front ts) = false)
    (within : Within (f + 1) (g + 1) (16 * ts.length)) (loop function : Bool) :
    Same (t = t') (BehindLines 0 ts) (ifStatement ⟨t, loop, function⟩ (f + 1))
      (ifStatement ⟨t', loop, function⟩ (g + 1)) ts := by
  rw [ifStatement, ifStatement]
  refine .current (.advance ?_)
  refine same_header _ (fun _ => Simulation.respects_testHeader f g) word within loop function ?_
  intro test rest words short
  have within : Within f g (16 * rest.length + 14) := within.later (by omega) (by omega)
  refine (ih.block within loop function).bind fun body rest₂ lines => ?_
  have short₂ := lines.length_lt
  have within : Within f g (16 * rest₂.length) := within.same (r := 0) (by omega) (by omega)
  refine .atWord ?_
  by_cases branch : isWord (front rest₂) "elif" = true
  · rw [if_pos branch, if_pos branch]
    refine Same.map _
      ((ih.ifStatement (isLayout_false_of_isWord branch) within loop function).mono ?_)
    exact fun rest₃ more => .words words (lines.trans more)
  · rw [if_neg branch, if_neg branch]
    refine Same.map _ ((ih.elseBlock within loop function).mono ?_)
    rintro rest₃ (rfl | more)
    · exact .words words lines
    · exact .words words (lines.trans more)

theorem reach_block (within : Within (f + 1) (g + 1) (16 * ts.length + 14)) (loop function : Bool) :
    Same (t = t') (BehindLines 0 ts) (block ⟨t, loop, function⟩ (f + 1))
      (block ⟨t', loop, function⟩ (g + 1)) ts := by
  rw [block, block]
  refine .atNewline ?_
  by_cases line : isNewline (front ts) = true
  · rw [if_pos line, if_pos line]
    refine .advance (.current ?_)
    cases ts with
    | nil => cases line
    | cons x ts =>
      have newline : depthOf x.kind = 0 := by rw [kind_of_isNewline (t := x) line]; rfl
      rw [List.tail_cons]
      cases ts with
      | nil => exact .of_error (by rintro rfl; rfl) rfl rfl
      | cons y ts =>
        simp only [front, List.head?_cons, Option.getD_some]
        cases kind : y.kind with
        | indent =>
          have within : Within f g (16 * ts.length + 15) :=
            within.later (by simp only [List.length_cons]; omega) (by omega)
          refine .advance ((ih.blockRest within loop function).mono fun rest lines => ?_)
          have opened := (lines.cons (x := y)).cons (x := x)
          rw [newline, kind] at opened
          exact opened
        | _ => exact .of_error (by rintro rfl; rfl) rfl rfl
  · rw [if_neg line, if_neg line]
    exact same_simpleLine (within.pred (by omega)) loop function

theorem reach_blockRest (within : Within (f + 1) (g + 1) (16 * ts.length + 15))
    (loop function : Bool) :
    Same (t = t') (BehindLines (-1) ts) (blockRest ⟨t, loop, function⟩ (f + 1))
      (blockRest ⟨t', loop, function⟩ (g + 1)) ts := by
  have onward : Same (t = t') (BehindLines (-1) ts)
      (statement ⟨t, loop, function⟩ f >>= fun first =>
        blockRest ⟨t, loop, function⟩ f >>= fun rest => pure (first ++ rest))
      (statement ⟨t', loop, function⟩ g >>= fun first =>
        blockRest ⟨t', loop, function⟩ g >>= fun rest => pure (first ++ rest)) ts := by
    refine (ih.statement (within.pred (by omega)) loop function).bind fun first rest lines => ?_
    have short := lines.length_lt
    refine Same.map _ ((ih.blockRest (within.later (by omega) (by omega)) loop function).mono ?_)
    exact fun rest₂ more => by simpa using lines.trans more
  rw [blockRest, blockRest]
  refine .current ?_
  cases ts with
  | nil => exact .of_error (by rintro rfl; rfl) rfl rfl
  | cons x ts =>
    simp only [front, List.head?_cons, Option.getD_some]
    cases kind : x.kind with
    | dedent =>
      refine .advance (.of_ok rfl rfl ⟨[], x, rfl, .inr kind, ?_⟩)
      rw [List.nil_append, depth_cons, kind]
      rfl
    | endMarker => exact .of_error (by rintro rfl; rfl) rfl rfl
    | _ => exact onward

theorem reach_statement (within : Within (f + 1) (g + 1) (16 * ts.length + 14))
    (loop function : Bool) :
    Same (t = t') (BehindLines 0 ts) (statement ⟨t, loop, function⟩ (f + 1))
      (statement ⟨t', loop, function⟩ (g + 1)) ts := by
  have shallow : Within (f + 1) (g + 1) (16 * ts.length) := by unfold Within at *; omega
  have body {rest : List Token} (short : rest.length < ts.length) :
      Within f g (16 * rest.length + 14) := within.later (by omega) (by omega)
  rw [statement, statement]
  refine .current (.current ?_)
  split
  case h_1 kind =>
    exact Same.map _ (ih.ifStatement (isLayout_false_of_name kind) (within.pred (by omega)) loop
      function)
  case h_2 kind =>
    refine .advance (same_header _ (fun _ => Simulation.respects_testHeader f g)
      (isLayout_false_of_name kind) shallow loop function ?_)
    intro test rest words short
    exact reach_loop ih (fun body orelse =>
      [Statement.whileLoop (front ts).pos.line test body orelse]) words (body short) true function
      loop function
  case h_3 kind =>
    refine .advance (same_header _ (fun _ => Simulation.respects_forHeader f g)
      (isLayout_false_of_name kind) shallow loop function ?_)
    rintro ⟨target, iterable⟩ rest words short
    exact reach_loop ih (fun body orelse =>
      [Statement.forLoop (front ts).pos.line target iterable body orelse]) words (body short) true
      function loop function
  case h_4 kind =>
    refine .advance (same_header _ (fun _ => Simulation.respects_functionHeader f g)
      (isLayout_false_of_name kind) shallow loop function ?_)
    rintro ⟨name, parameters⟩ rest words short
    exact Same.map _ ((ih.block (body short) false true).mono fun _ lines => .words words lines)
  case h_5 kind =>
    refine .advance (same_header _ (fun _ => Simulation.respects_classHeader f g)
      (isLayout_false_of_name kind) shallow loop function ?_)
    rintro ⟨name, bases⟩ rest words short
    exact Same.map _ ((ih.block (body short) false false).mono fun _ lines => .words words lines)
  case h_6 | h_7 | h_8 => exact .of_error (by rintro rfl; rfl) rfl rfl
  case h_9 => exact same_simpleLine (within.pred (by omega)) loop function

end Step

/-- Readings at depth 0 fail. -/
theorem reach_exhausted {f g : Nat} (exhausted : f = 0 ∨ g = 0) : Reach t t' f g := by
  have spent {n : Nat} (within : Within f g n) : f = 0 ∧ g = 0 := by
    unfold Within at within
    omega
  constructor
  all_goals intro ts
  case ifStatement =>
    intro _ within loop function
    obtain ⟨rfl, rfl⟩ := spent within
    exact .of_error (fun _ => rfl) rfl rfl
  all_goals
    intro within loop function
    obtain ⟨rfl, rfl⟩ := spent within
    exact .of_error (fun _ => rfl) rfl rfl

theorem reach (t t' : Bool) (f g : Nat) : Reach t t' f g := by
  induction f generalizing g with
  | zero => exact reach_exhausted (.inl rfl)
  | succ f ih =>
    cases g with
    | zero => exact reach_exhausted (.inr rfl)
    | succ g => exact {
        statement := reach_statement (ih g)
        ifStatement := reach_ifStatement (ih g)
        elseBlock := reach_elseBlock (ih g)
        block := reach_block (ih g)
        blockRest := reach_blockRest (ih g) }

/-- Whole programs come to the same at all depths that suffice. -/
theorem same_statements {f g : Nat} (within : Within f g (16 * ts.length + 15))
    (loop function : Bool) :
    Same (t = t') (fun _ => True) (statements ⟨t, loop, function⟩ f) (statements ⟨t', loop, function⟩ g)
      ts := by
  induction f generalizing g ts with
  | zero =>
    obtain rfl : g = 0 := by
      unfold Within at within
      omega
    exact .of_error (fun _ => rfl) rfl rfl
  | succ f ih =>
    cases g with
    | zero =>
      unfold Within at within
      omega
    | succ g =>
      rw [statements, statements]
      refine .current ?_
      by_cases ending : isEnd (front ts) = true
      · rw [if_pos ending, if_pos ending]
        exact .of_ok rfl rfl trivial
      · rw [if_neg ending, if_neg ending]
        refine ((reach t t' f g).statement (within.pred (by omega)) loop function).bind
          fun first rest lines => ?_
        have short := lines.length_lt
        exact Same.map _ (ih (within.later (by omega) (by omega)))

theorem same_oneStatement {f g : Nat} (within : Within f g (16 * ts.length + 14))
    (loop function : Bool) :
    Same (t = t') (fun _ => True) (oneStatement ⟨t, loop, function⟩ f)
      (oneStatement ⟨t', loop, function⟩ g) ts := by
  have last (body : List Statement) (rest : List Token) :
      Same (t = t') (fun _ => True)
        (current >>= fun x => if isEnd x = true then pure body
          else fail .multipleStatements >>= fun (_ : Unit) => pure body)
        (current >>= fun x => if isEnd x = true then pure body
          else fail .multipleStatements >>= fun (_ : Unit) => pure body) rest := by
    refine .current ?_
    by_cases ending : isEnd (front rest) = true
    · rw [if_pos ending]
      exact .of_ok rfl rfl trivial
    · rw [if_neg ending]
      exact .of_error (fun _ => rfl) rfl rfl
  unfold oneStatement
  refine .current ?_
  by_cases ending : isEnd (front ts) = true
  · rw [if_pos ending, if_pos ending]
    exact last [] ts
  · rw [if_neg ending, if_neg ending]
    exact ((reach t t' f g).statement within loop function).bind fun body rest _ => last body rest

end Console.Parse
