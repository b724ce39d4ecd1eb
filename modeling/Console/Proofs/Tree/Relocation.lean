import Console.Proofs.Tree.Beginnings
import Mathlib.Data.List.Forall2

/-!
# Statements on other lines

Where a token stands is all that a parser takes from it besides its kind, and only for the line of a
statement. So two streams of the same words are read as the same statements on other lines, and it
makes no difference what stands behind the first of them, as long as it is no branch of the last
statement.
-/

namespace Console

open Token Parse

/-! ## Statements -/

namespace Statement

mutual

/-- A statement with every line `n` in it moved to `place n`. -/
def relocate (place : Nat → Nat) : Statement → Statement
  | .simple line action => .simple (place line) action
  | .ifElse line test body orelse =>
    .ifElse (place line) test (relocateAll place body) (relocateAll place orelse)
  | .whileLoop line test body orelse =>
    .whileLoop (place line) test (relocateAll place body) (relocateAll place orelse)
  | .forLoop line target iterable body orelse =>
    .forLoop (place line) target iterable (relocateAll place body) (relocateAll place orelse)
  | .function line name parameters body =>
    .function (place line) name parameters (relocateAll place body)
  | .classBody line name bases body => .classBody (place line) name bases (relocateAll place body)

def relocateAll (place : Nat → Nat) : List Statement → List Statement
  | [] => []
  | s :: rest => s.relocate place :: relocateAll place rest

end

theorem relocateAll_eq_map (place : Nat → Nat) (body : List Statement) :
    relocateAll place body = body.map (relocate place) := by
  induction body with
  | nil => rfl
  | cons s body ih => rw [relocateAll, ih, List.map_cons]

@[simp] theorem relocateAll_append (place : Nat → Nat) (body body' : List Statement) :
    relocateAll place (body ++ body') = relocateAll place body ++ relocateAll place body' := by
  simp only [relocateAll_eq_map, List.map_append]

mutual

theorem relocate_id (s : Statement) : s.relocate id = s := by
  cases s with
  | simple => rfl
  | ifElse | whileLoop | forLoop =>
    simp only [relocate, id, relocateAll_id]
  | function | classBody => simp only [relocate, id, relocateAll_id]

theorem relocateAll_id (body : List Statement) : relocateAll id body = body := by
  cases body with
  | nil => rfl
  | cons s body => rw [relocateAll, relocate_id, relocateAll_id]

end

end Statement

open Statement

/-- Statements that `place` and `place'` move to the same lines. -/
def SameBody (place place' : Nat → Nat) (body body' : List Statement) : Prop :=
  relocateAll place' body' = relocateAll place body

namespace SameBody

variable {place place' : Nat → Nat} {body body' others others' : List Statement}

theorem append (first : SameBody place place' body body')
    (second : SameBody place place' others others') :
    SameBody place place' (body ++ others) (body' ++ others') := by
  unfold SameBody at *
  rw [relocateAll_append, relocateAll_append, first, second]

theorem singleton {s s' : Statement} (same : s'.relocate place' = s.relocate place) :
    SameBody place place' [s] [s'] := by
  unfold SameBody
  rw [relocateAll, relocateAll, same, relocateAll, relocateAll]

end SameBody

namespace Parse

/-! ## Streams of the same words -/

/-- Two tokens of one kind, which `place` and `place'` move to the same line unless they shape lines or
blocks. -/
def SameWord (place place' : Nat → Nat) (x x' : Token) : Prop :=
  x'.kind = x.kind ∧ (isLayout x = false → place' x'.pos.line = place x.pos.line)

/-- Tokens that all have ends: none ends the source, and the last one ends a line or a block. -/
structure Ended (ts : List Token) : Prop where
  inside : ∀ x ∈ ts, isEnd x = false
  last : ∀ x ∈ ts.getLast?, isLayout x = true

theorem Ended.tail {x : Token} {ts : List Token} (h : Ended (x :: ts)) : Ended ts := by
  refine ⟨fun y mem => h.inside y (by simp [mem]), fun y last => h.last y ?_⟩
  cases ts with
  | nil => cases last
  | cons z ts => simpa using last

section

variable (place place' : Nat → Nat) (e : Token) (R : List Token)

/-- Streams of the same words; where the first one ends with `e`, the second goes on with `R`. -/
def Beside (ts ts' : List Token) : Prop :=
  ∃ X X', ts = X ++ [e] ∧ ts' = X' ++ R ∧ List.Forall₂ (SameWord place place') X X' ∧ Ended X

end

variable {place place' : Nat → Nat} {e : Token} {R : List Token} {t t' : Bool} {α β : Type}
  {ts ts' : List Token}

namespace Beside

variable (h : Beside place place' e R ts ts')
include h

theorem front_of_more (more : isEnd (front ts) = false) (ending : isEnd e = true) :
    SameWord place place' (front ts) (front ts') ∧ Beside place place' e R ts.tail ts'.tail ∧
      (isLayout (front ts) = false → isEnd (front ts.tail) = false) := by
  obtain ⟨X, X', rfl, rfl, same, ended⟩ := h
  cases same with
  | nil => simp [front, ending] at more
  | @cons x x' X X' first same =>
    refine ⟨first, ⟨X, X', rfl, rfl, same, ended.tail⟩, fun word => ?_⟩
    cases X with
    | nil => simp [front, ended.last x (by simp)] at word
    | cons y X => exact ended.inside y (by simp)

theorem of_end (done : isEnd (front ts) = true) : ts = [e] ∧ ts' = R := by
  obtain ⟨X, X', rfl, rfl, same, ended⟩ := h
  cases same with
  | nil => exact ⟨rfl, rfl⟩
  | cons first same => simp [front, ended.inside] at done

end Beside

theorem isEnd_of_word (word : isLayout (front ts) = false) : isEnd (front ts) = false := by
  unfold isLayout at word
  unfold isEnd
  split at word <;> simp_all

/-- Streams of the same words, as long as the first one has not come to its end. -/
def wordBeside (ending : isEnd e = true) (place place' : Nat → Nat) (R : List Token) (t t' : Bool) :
    Simulation t t' where
  streams ts ts' := Beside place place' e R ts ts' ∧ isEnd (front ts) = false
  errors _ _ := True
  sameFront := fun ⟨beside, more⟩ => (beside.front_of_more more ending).1.1
  sameSecond := fun ⟨beside, more⟩ word =>
    have ⟨_, behind, further⟩ := beside.front_of_more more ending
    (behind.front_of_more (further word) ending).1.1
  behind := fun ⟨beside, more⟩ word =>
    have ⟨_, behind, further⟩ := beside.front_of_more more ending
    ⟨behind, further word⟩
  final := fun _ _ => trivial
  misplaced := fun _ => trivial

/-! ## Two readings -/

/-- What the first parser reads, the second reads too: values of which `value` is known, with streams
behind them of which `left` is known. -/
def Follows (value : α → α → Prop) (left : List Token → List Token → Prop) (p p' : Parser α)
    (ts ts' : List Token) : Prop :=
  ∀ v rest, p ts = .ok (v, rest) → ∃ v' rest', p' ts' = .ok (v', rest') ∧ value v v' ∧
    left rest rest'

namespace Follows

variable {value : α → α → Prop} {value' : β → β → Prop} {left left' : List Token → List Token → Prop}
  {p p' : Parser α}

theorem of_ok {v v' : α} {rest rest' : List Token} (read : p ts = .ok (v, rest))
    (read' : p' ts' = .ok (v', rest')) (same : value v v') (known : left rest rest') :
    Follows value left p p' ts ts' := by
  intro w rest₂ taken
  rw [read] at taken
  cases taken
  exact ⟨v', rest', read', same, known⟩

theorem of_error {error : SyntaxError} (failed : p ts = .error error) :
    Follows value left p p' ts ts' := by
  intro v rest taken
  rw [failed] at taken
  cases taken

theorem mono (h : Follows value left p p' ts ts')
    (weaker : ∀ rest rest', left rest rest' → left' rest rest') :
    Follows value left' p p' ts ts' := by
  intro v rest taken
  obtain ⟨v', rest', taken', same, known⟩ := h v rest taken
  exact ⟨v', rest', taken', same, weaker _ _ known⟩

theorem bind {k k' : α → Parser β} (first : Follows value left p p' ts ts')
    (next : ∀ v v' rest rest', value v v' → left rest rest' →
      Follows value' left' (k v) (k' v') rest rest') :
    Follows value' left' (p >>= k) (p' >>= k') ts ts' := by
  intro w rest₂ taken
  obtain ⟨v, rest, taken, onward⟩ := bind_ok taken
  obtain ⟨v', rest', taken', same, known⟩ := first v rest taken
  obtain ⟨w', rest₂', onward', known'⟩ := next v v' rest rest' same known w rest₂ onward
  exact ⟨w', rest₂', (run_bind taken').trans onward', known'⟩

theorem map {change change' : α → β} (h : Follows value left p p' ts ts')
    (same : ∀ v v', value v v' → value' (change v) (change' v')) :
    Follows value' left (p >>= fun v => Pure.pure (change v))
      (p' >>= fun v => Pure.pure (change' v)) ts ts' :=
  h.bind fun v v' _ _ known behind => .of_ok rfl rfl (same v v' known) behind

theorem current {k k' : Token → Parser α}
    (next : Follows value left (k (front ts)) (k' (front ts')) ts ts') :
    Follows value left (Parse.current >>= k) (Parse.current >>= k') ts ts' :=
  next

theorem advance {k k' : Unit → Parser α}
    (next : Follows value left (k ()) (k' ()) ts.tail ts'.tail) :
    Follows value left (Parse.advance >>= k) (Parse.advance >>= k') ts ts' :=
  next

theorem atWord {word : String} {k k' : Bool → Parser α}
    (same : isWord (front ts') word = isWord (front ts) word)
    (next : Follows value left (k (isWord (front ts) word)) (k' (isWord (front ts) word)) ts ts') :
    Follows value left (Parse.atWord word >>= k) (Parse.atWord word >>= k') ts ts' := by
  intro v rest taken
  show ∃ v' rest', k' (isWord (front ts') word) ts' = .ok (v', rest') ∧ _
  rw [same]
  exact next v rest taken

theorem atNewline {k k' : Bool → Parser α} (same : isNewline (front ts') = isNewline (front ts))
    (next : Follows value left (k (isNewline (front ts))) (k' (isNewline (front ts))) ts ts') :
    Follows value left (Parse.atNewline >>= k) (Parse.atNewline >>= k') ts ts' := by
  intro v rest taken
  show ∃ v' rest', k' (isNewline (front ts')) ts' = .ok (v', rest') ∧ _
  rw [same]
  exact next v rest taken

end Follows

/-! ## Lines -/

theorem isBeginning_of_simpleLine {ctx : Context} {f : Nat} {rest : List Token}
    {body : List Statement} (read : simpleLine ctx f ts = .ok (body, rest)) :
    isBeginning (front ts) = true := by
  cases f with
  | zero => cases read
  | succ f =>
    rw [simpleLine, run_current] at read
    obtain ⟨_, _, first, -⟩ := bind_ok read
    exact isBeginning_of_simpleStatement first

/-- Streams beside each other, the first of them shorter than `m`. -/
def Left (place place' : Nat → Nat) (e : Token) (R : List Token) (m : Nat)
    (ts ts' : List Token) : Prop :=
  Beside place place' e R ts ts' ∧ ts.length < m

theorem Left.mono {m n : Nat} (le : m ≤ n) :
    ∀ rest rest', Left place place' e R m rest rest' → Left place place' e R n rest rest' :=
  fun _ _ h => ⟨h.1, Nat.lt_of_lt_of_le h.2 le⟩

section Line

variable (ending : isEnd e = true)
include ending

/-- The end of a line behind its words. -/
theorem follows_lineEnd (beside : Beside place place' e R ts ts') (more : isEnd (front ts) = false)
    {value : α → α → Prop} {v v' : α} (same : value v v') (loop function : Bool) :
    Follows value (Left place place' e R ts.length)
      (expectNewline ⟨t, loop, function⟩ >>= fun _ => pure v)
      (expectNewline ⟨t', loop, function⟩ >>= fun _ => pure v') ts ts' := by
  obtain ⟨first, behind, -⟩ := beside.front_of_more more ending
  have kind : isNewline (front ts') = isNewline (front ts) := by
    unfold isNewline
    rw [first.1]
  unfold expectNewline
  rw [bind_assoc, bind_assoc]
  refine .atNewline kind ?_
  by_cases line : isNewline (front ts) = true
  · rw [if_pos line, if_pos line]
    have shorter : ts.tail.length < ts.length := by
      cases ts with
      | nil => cases line
      | cons x ts => simp
    exact .of_ok rfl rfl same ⟨behind, shorter⟩
  · rw [if_neg line, if_neg line]
    exact .of_error rfl

/-- What agrees with itself within a line is followed there. -/
theorem follows_of_alike {m : Nat} {p p' : Parser α}
    (alike : (wordBeside ending place place' R t t').Alike m p p' ts ts') :
    Follows (fun v v' => v = v')
      (fun rest rest' => Left place place' e R m rest rest' ∧ isEnd (front rest) = false)
      p p' ts ts' := by
  rcases alike.cases with ⟨_, _, -, failed, -⟩ | ⟨v, rest, rest', ⟨⟨behind, more⟩, short⟩, read, read'⟩
  · exact .of_error failed
  · exact .of_ok read read' rfl ⟨⟨behind, short⟩, more⟩

/-- A line of simple statements starts with a word, whose line the first of them takes. -/
theorem follows_simpleLine (f g : Nat) (loop function : Bool)
    (beside : Beside place place' e R ts ts') (within : Within f g (16 * ts.length + 13)) :
    Follows (SameBody place place') (Left place place' e R ts.length)
      (simpleLine ⟨t, loop, function⟩ f) (simpleLine ⟨t', loop, function⟩ g) ts ts' := by
  induction f generalizing g ts ts' with
  | zero => exact .of_error rfl
  | succ f ih =>
    cases g with
    | zero =>
      unfold Within at within
      omega
    | succ g =>
      cases word : isLayout (front ts) with
      | true =>
        intro v rest read
        have begins := isBeginning_of_simpleLine read
        simp [isBeginning, word] at begins
      | false =>
        have more := isEnd_of_word word
        have related : (wordBeside ending place place' R t t').streams ts ts' := ⟨beside, more⟩
        have line := (beside.front_of_more more ending).1.2 word
        rw [simpleLine, simpleLine]
        refine .current ?_
        dsimp only
        refine (follows_of_alike ending (Simulation.respects_simpleStatement f g related
          (within.pred (by omega)))).bind ?_
        rintro first _ rest rest' rfl ⟨⟨behind, short⟩, more⟩
        have same : SameBody place place' [.simple (front ts).pos.line first]
            [.simple (front ts').pos.line first] := .singleton (by rw [relocate, relocate, line])
        have related : (wordBeside ending place place' R t t').streams rest rest' := ⟨behind, more⟩
        refine (follows_of_alike ending (Simulation.alike_ateOp related ";")).bind ?_
        rintro semicolon _ rest₂ rest₂' rfl ⟨⟨behind₂, short₂⟩, more₂⟩
        have lineEnd : Follows (SameBody place place') (Left place place' e R ts.length)
            (expectNewline ⟨t, loop, function⟩ >>= fun _ => pure [.simple (front ts).pos.line first])
            (expectNewline ⟨t', loop, function⟩ >>= fun _ =>
              pure [.simple (front ts').pos.line first]) rest₂ rest₂' :=
          (follows_lineEnd ending behind₂ more₂ same loop function).mono (Left.mono (by omega))
        cases semicolon with
        | false => exact lineEnd
        | true =>
          have kind : isNewline (front rest₂') = isNewline (front rest₂) := by
            unfold isNewline
            rw [(behind₂.front_of_more more₂ ending).1.1]
          refine .atNewline kind ?_
          by_cases last : isNewline (front rest₂) = true
          · rw [if_pos last, if_pos last]
            exact lineEnd
          · rw [if_neg last, if_neg last]
            refine ((ih g behind₂ (within.pred (by omega))).mono (Left.mono (by omega))).map ?_
            exact fun others others' same' => same.append same'

/-- A header is made of words, and what comes behind it stands on its line. -/
theorem follows_header (header : Context → Nat → Parser α) {value : β → β → Prop}
    {left : List Token → List Token → Prop} {q q' : α → Parser β} {f g : Nat}
    (respects : ∀ S : Simulation t t', S.Respects f g 12 0 header)
    (beside : Beside place place' e R ts ts') (word : isLayout (front ts) = false)
    (within : Within (f + 1) (g + 1) (16 * ts.length)) (loop function : Bool)
    (next : ∀ v rest rest', Left place place' e R ts.length rest rest' →
      Follows value left (q v) (q' v) rest rest') :
    Follows value left (header ⟨t, loop, function⟩ f >>= q) (header ⟨t', loop, function⟩ g >>= q')
      ts.tail ts'.tail := by
  have shorter := length_tail_lt word
  have related : (wordBeside ending place place' R t t').streams ts.tail ts'.tail :=
    (wordBeside ending place place' R t t').behind ⟨beside, isEnd_of_word word⟩ word
  refine (follows_of_alike ending (respects _ related (within.later (by omega) (by omega)))).bind ?_
  rintro v _ rest rest' rfl ⟨⟨behind, short⟩, -⟩
  exact next v rest rest' ⟨behind, by omega⟩

end Line

/-! ## Blocks -/

/-- All readings of statements are followed at two depths. -/
structure BlocksFollow (place place' : Nat → Nat) (e : Token) (R : List Token) (t t' : Bool)
    (f g : Nat) : Prop where
  statement : ∀ {ts ts'}, Beside place place' e R ts ts' → Within f g (16 * ts.length + 14) →
    ∀ loop function, Follows (SameBody place place') (Left place place' e R ts.length)
      (statement ⟨t, loop, function⟩ f) (statement ⟨t', loop, function⟩ g) ts ts'
  ifStatement : ∀ {ts ts'}, Beside place place' e R ts ts' → isLayout (front ts) = false →
    Within f g (16 * ts.length) → ∀ loop function,
    Follows (fun s s' => s'.relocate place' = s.relocate place) (Left place place' e R ts.length)
      (ifStatement ⟨t, loop, function⟩ f) (ifStatement ⟨t', loop, function⟩ g) ts ts'
  elseBlock : ∀ {ts ts'}, Beside place place' e R ts ts' → Within f g (16 * ts.length) →
    ∀ loop function, Follows (SameBody place place') (Left place place' e R (ts.length + 1))
      (elseBlock ⟨t, loop, function⟩ f) (elseBlock ⟨t', loop, function⟩ g) ts ts'
  block : ∀ {ts ts'}, Beside place place' e R ts ts' → Within f g (16 * ts.length + 14) →
    ∀ loop function, Follows (SameBody place place') (Left place place' e R ts.length)
      (block ⟨t, loop, function⟩ f) (block ⟨t', loop, function⟩ g) ts ts'
  blockRest : ∀ {ts ts'}, Beside place place' e R ts ts' → Within f g (16 * ts.length + 15) →
    ∀ loop function, Follows (SameBody place place') (Left place place' e R ts.length)
      (blockRest ⟨t, loop, function⟩ f) (blockRest ⟨t', loop, function⟩ g) ts ts'

/-- The words that a branch starts with stand in front of both streams or of neither. -/
theorem isWord_beside (ending : isEnd e = true) (sealed : Sealed R)
    (beside : Beside place place' e R ts ts') (word : String)
    (branch : word = "elif" ∨ word = "else") :
    isWord (front ts') word = isWord (front ts) word := by
  cases done : isEnd (front ts) with
  | false =>
    unfold isWord
    rw [(beside.front_of_more done ending).1.1]
  | true =>
    obtain ⟨rfl, rfl⟩ := beside.of_end done
    rw [not_isWord_of_isEnd done]
    rcases branch with rfl | rfl
    · exact sealed.1
    · exact sealed.2

/-- A body with the branch behind it, on the line of a header. -/
theorem follows_loop {f g : Nat} (ih : BlocksFollow place place' e R t t' f g)
    {value : α → α → Prop} {make make' : List Statement → List Statement → α}
    (same : ∀ body body' orelse orelse', SameBody place place' body body' →
      SameBody place place' orelse orelse' → value (make body orelse) (make' body' orelse'))
    (beside : Beside place place' e R ts ts') (within : Within f g (16 * ts.length + 14))
    (loop function loop' function' : Bool) :
    Follows value (Left place place' e R ts.length)
      (block ⟨t, loop, function⟩ f >>= fun body =>
        elseBlock ⟨t, loop', function'⟩ f >>= fun orelse => pure (make body orelse))
      (block ⟨t', loop, function⟩ g >>= fun body =>
        elseBlock ⟨t', loop', function'⟩ g >>= fun orelse => pure (make' body orelse)) ts ts' := by
  refine (ih.block beside within loop function).bind ?_
  rintro body body' rest rest' known ⟨behind, short⟩
  exact ((ih.elseBlock behind (within.same (r := 0) (by omega) (by omega)) loop' function').mono
    (Left.mono (by omega))).map fun orelse orelse' known' => same _ _ _ _ known known'

section Step

variable {f g : Nat} (ending : isEnd e = true) (sealed : Sealed R)
  (ih : BlocksFollow place place' e R t t' f g)
include ending sealed ih

theorem follows_elseBlock (beside : Beside place place' e R ts ts')
    (within : Within (f + 1) (g + 1) (16 * ts.length)) (loop function : Bool) :
    Follows (SameBody place place') (Left place place' e R (ts.length + 1))
      (elseBlock ⟨t, loop, function⟩ (f + 1)) (elseBlock ⟨t', loop, function⟩ (g + 1)) ts ts' := by
  have same := isWord_beside ending sealed beside "else" (.inr rfl)
  cases present : isWord (front ts) "else" with
  | false =>
    exact .of_ok (elseBlock_absent present _ _) (elseBlock_absent (same.trans present) _ _) rfl
      ⟨beside, Nat.lt_succ_self _⟩
  | true =>
    intro v rest read
    rw [elseBlock_present present] at read
    rw [elseBlock_present (same.trans present)]
    have body : Follows (SameBody place place') (Left place place' e R (ts.length + 1))
        (expectOp ⟨t, loop, function⟩ ":" >>= fun _ => block ⟨t, loop, function⟩ f)
        (expectOp ⟨t', loop, function⟩ ":" >>= fun _ => block ⟨t', loop, function⟩ g)
        ts.tail ts'.tail := by
      refine follows_header ending (fun ctx _ => expectOp ctx ":") ?_ beside
        (isLayout_false_of_isWord present) within loop function ?_
      · exact fun _ loop function _ _ related _ =>
          Simulation.alike_expectOp related loop function ":"
      · rintro _ rest rest' ⟨behind, short⟩
        exact (ih.block behind (within.later (by omega) (by omega)) loop function).mono
          (Left.mono (by omega))
    exact body v rest read

theorem follows_ifStatement (beside : Beside place place' e R ts ts')
    (word : isLayout (front ts) = false) (within : Within (f + 1) (g + 1) (16 * ts.length))
    (loop function : Bool) :
    Follows (fun s s' => s'.relocate place' = s.relocate place) (Left place place' e R ts.length)
      (ifStatement ⟨t, loop, function⟩ (f + 1)) (ifStatement ⟨t', loop, function⟩ (g + 1))
      ts ts' := by
  have line := (beside.front_of_more (isEnd_of_word word) ending).1.2 word
  rw [ifStatement, ifStatement]
  refine .current (.advance ?_)
  refine follows_header ending _ (fun _ => Simulation.respects_testHeader f g) beside word within
    loop function ?_
  rintro test rest rest' ⟨behind, short⟩
  have within : Within f g (16 * rest.length + 14) := within.later (by omega) (by omega)
  refine (ih.block behind within loop function).bind ?_
  rintro body body' rest₂ rest₂' same ⟨behind₂, short₂⟩
  have within : Within f g (16 * rest₂.length) := within.same (r := 0) (by omega) (by omega)
  have branch := isWord_beside ending sealed behind₂ "elif" (.inl rfl)
  have made {orelse orelse' : List Statement} (same' : SameBody place place' orelse orelse') :
      (Statement.ifElse (front ts').pos.line test body' orelse').relocate place' =
        (Statement.ifElse (front ts).pos.line test body orelse).relocate place := by
    rw [relocate, relocate, line, same, same']
  refine .atWord branch ?_
  by_cases further : isWord (front rest₂) "elif" = true
  · rw [if_pos further, if_pos further]
    exact ((ih.ifStatement behind₂ (isLayout_false_of_isWord further) within loop function).mono
      (Left.mono (by omega))).map fun _ _ same' => made (.singleton same')
  · rw [if_neg further, if_neg further]
    exact ((ih.elseBlock behind₂ within loop function).mono (Left.mono (by omega))).map
      fun _ _ same' => made same'

omit sealed

theorem follows_block (beside : Beside place place' e R ts ts')
    (within : Within (f + 1) (g + 1) (16 * ts.length + 14)) (loop function : Bool) :
    Follows (SameBody place place') (Left place place' e R ts.length)
      (block ⟨t, loop, function⟩ (f + 1)) (block ⟨t', loop, function⟩ (g + 1)) ts ts' := by
  cases done : isEnd (front ts) with
  | true =>
    intro v rest read
    rw [block, run_atNewline, show isNewline (front ts) = false by
      simp [isNewline, kind_of_isEnd done]] at read
    have begins := isBeginning_of_simpleLine read
    simp [isBeginning, isLayout, kind_of_isEnd done] at begins
  | false =>
    obtain ⟨first, behind, -⟩ := beside.front_of_more done ending
    have kind : isNewline (front ts') = isNewline (front ts) := by
      unfold isNewline
      rw [first.1]
    rw [block, block]
    refine .atNewline kind ?_
    by_cases line : isNewline (front ts) = true
    · rw [if_pos line, if_pos line]
      refine .advance (.current ?_)
      cases opens : (front ts.tail).kind with
      | indent =>
        obtain ⟨second, inner, -⟩ := behind.front_of_more (by simp [isEnd, opens]) ending
        have shorter : ts.tail.tail.length + 2 ≤ ts.length := by
          cases ts with
          | nil => cases line
          | cons x ts =>
            cases ts with
            | nil => cases opens
            | cons y ts => simp
        rw [second.1, opens]
        exact .advance ((ih.blockRest inner (within.later (by omega) (by omega)) loop function).mono
          (Left.mono (by omega)))
      | _ => exact .of_error rfl
    · rw [if_neg line, if_neg line]
      exact follows_simpleLine ending f g loop function beside (within.pred (by omega))

theorem follows_blockRest (beside : Beside place place' e R ts ts')
    (within : Within (f + 1) (g + 1) (16 * ts.length + 15)) (loop function : Bool) :
    Follows (SameBody place place') (Left place place' e R ts.length)
      (blockRest ⟨t, loop, function⟩ (f + 1)) (blockRest ⟨t', loop, function⟩ (g + 1)) ts ts' := by
  have onward : Follows (SameBody place place') (Left place place' e R ts.length)
      (statement ⟨t, loop, function⟩ f >>= fun first =>
        blockRest ⟨t, loop, function⟩ f >>= fun rest => pure (first ++ rest))
      (statement ⟨t', loop, function⟩ g >>= fun first =>
        blockRest ⟨t', loop, function⟩ g >>= fun rest => pure (first ++ rest)) ts ts' := by
    refine (ih.statement beside (within.pred (by omega)) loop function).bind ?_
    rintro first first' rest rest' same ⟨behind, short⟩
    exact ((ih.blockRest behind (within.later (by omega) (by omega)) loop function).mono
      (Left.mono (by omega))).map fun _ _ same' => same.append same'
  rw [blockRest, blockRest]
  refine .current ?_
  cases done : isEnd (front ts) with
  | true =>
    rw [kind_of_isEnd done]
    exact .of_error rfl
  | false =>
    obtain ⟨first, behind, -⟩ := beside.front_of_more done ending
    rw [first.1]
    cases kind : (front ts).kind with
    | dedent =>
      have shorter : ts.tail.length < ts.length := by
        cases ts with
        | nil => cases kind
        | cons x ts => simp
      exact .advance (.of_ok rfl rfl rfl ⟨behind, shorter⟩)
    | endMarker => exact .of_error rfl
    | _ => exact onward

theorem follows_statement (beside : Beside place place' e R ts ts')
    (within : Within (f + 1) (g + 1) (16 * ts.length + 14)) (loop function : Bool) :
    Follows (SameBody place place') (Left place place' e R ts.length)
      (statement ⟨t, loop, function⟩ (f + 1)) (statement ⟨t', loop, function⟩ (g + 1)) ts ts' := by
  cases word : isLayout (front ts) with
  | true =>
    intro v rest read
    have begins := isBeginning_of_statement read
    simp [isBeginning, word] at begins
  | false =>
    obtain ⟨kind, line⟩ := (beside.front_of_more (isEnd_of_word word) ending).1
    have line := line word
    have shallow : Within (f + 1) (g + 1) (16 * ts.length) := by unfold Within at *; omega
    have body {rest : List Token} (short : rest.length < ts.length) :
        Within f g (16 * rest.length + 14) := within.later (by omega) (by omega)
    rw [statement, statement]
    refine .current (.current ?_)
    dsimp only
    rw [kind]
    split
    case h_1 =>
      exact (ih.ifStatement beside word (within.pred (by omega)) loop function).map
        fun _ _ same => .singleton same
    case h_2 =>
      refine .advance (follows_header ending _ (fun _ => Simulation.respects_testHeader f g) beside
        word shallow loop function ?_)
      rintro test rest rest' ⟨behind, short⟩
      refine (follows_loop ih ?_ behind (body short) true function loop function).mono
        (Left.mono (by omega))
      exact fun _ _ _ _ same same' => .singleton (by rw [relocate, relocate, line, same, same'])
    case h_3 =>
      refine .advance (follows_header ending _ (fun _ => Simulation.respects_forHeader f g) beside
        word shallow loop function ?_)
      rintro ⟨target, iterable⟩ rest rest' ⟨behind, short⟩
      refine (follows_loop ih ?_ behind (body short) true function loop function).mono
        (Left.mono (by omega))
      exact fun _ _ _ _ same same' => .singleton (by rw [relocate, relocate, line, same, same'])
    case h_4 =>
      refine .advance (follows_header ending _ (fun _ => Simulation.respects_functionHeader f g)
        beside word shallow loop function ?_)
      rintro ⟨name, parameters⟩ rest rest' ⟨behind, short⟩
      refine ((ih.block behind (body short) false true).mono (Left.mono (by omega))).map ?_
      exact fun _ _ same => .singleton (by rw [relocate, relocate, line, same])
    case h_5 =>
      refine .advance (follows_header ending _ (fun _ => Simulation.respects_classHeader f g)
        beside word shallow loop function ?_)
      rintro ⟨name, bases⟩ rest rest' ⟨behind, short⟩
      refine ((ih.block behind (body short) false false).mono (Left.mono (by omega))).map ?_
      exact fun _ _ same => .singleton (by rw [relocate, relocate, line, same])
    case h_6 | h_7 | h_8 => exact .of_error rfl
    case h_9 => exact follows_simpleLine ending f g loop function beside (within.pred (by omega))

end Step

/-- Readings at depth 0 fail. -/
theorem follows_exhausted {f g : Nat} (exhausted : f = 0 ∨ g = 0) :
    BlocksFollow place place' e R t t' f g := by
  have spent {n : Nat} (within : Within f g n) : f = 0 := by
    unfold Within at within
    omega
  constructor
  all_goals intro ts ts' _
  case ifStatement =>
    intro _ within loop function
    obtain rfl := spent within
    exact .of_error rfl
  all_goals
    intro within loop function
    obtain rfl := spent within
    exact .of_error rfl

theorem blocksFollow (place place' : Nat → Nat) (ending : isEnd e = true) (sealed : Sealed R)
    (t t' : Bool) (f g : Nat) : BlocksFollow place place' e R t t' f g := by
  induction f generalizing g with
  | zero => exact follows_exhausted (.inl rfl)
  | succ f ih =>
    cases g with
    | zero => exact follows_exhausted (.inr rfl)
    | succ g => exact {
        statement := follows_statement ending (ih g)
        ifStatement := follows_ifStatement ending sealed (ih g)
        elseBlock := follows_elseBlock ending sealed (ih g)
        block := follows_block ending (ih g)
        blockRest := follows_blockRest ending (ih g) }

end Parse

end Console
