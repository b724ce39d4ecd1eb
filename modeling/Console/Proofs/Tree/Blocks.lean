import Console.Proofs.Tree.Lines

/-!
# Blocks of a source that goes on

A stream of whole lines that ends is compared with one that goes on behind the same lines. A final
error of the first is an error of the second, and what the first reads the second reads too, as long
as no other branch follows. Where the first only lacks the end or the body of a block, the second
reads on once that is there. `depth` counts the blocks that are open, for readers and lexer alike.
-/

namespace Console.Parse

open Token

/-- What a token adds to the number of open blocks. -/
def depthOf : TokenKind → Int
  | .indent => 1
  | .dedent => -1
  | _ => 0

/-- The blocks that tokens open, less those that they close. -/
def depth : List Token → Int
  | [] => 0
  | t :: ts => depthOf t.kind + depth ts

@[simp] theorem depth_nil : depth [] = 0 := rfl

@[simp] theorem depth_cons (t : Token) (ts : List Token) :
    depth (t :: ts) = depthOf t.kind + depth ts := rfl

@[simp] theorem depth_append (ts ts' : List Token) : depth (ts ++ ts') = depth ts + depth ts' := by
  induction ts with
  | nil => simp
  | cons t ts ih => simp [ih, Int.add_assoc]

theorem depthOf_of_isLayout {t : Token} (h : isLayout t = false) : depthOf t.kind = 0 := by
  unfold isLayout at h
  unfold depthOf
  split at h <;> simp_all

theorem kind_of_isNewline {t : Token} (h : isNewline t = true) : t.kind = .newline := by
  unfold isNewline at h
  split at h
  · assumption
  · cases h

theorem kind_of_isEnd {t : Token} (h : isEnd t = true) : t.kind = .endMarker := by
  unfold isEnd at h
  split at h
  · assumption
  · cases h

/-- Tokens that stand before the end of their line. -/
def Inline (ts : List Token) : Prop := ∀ x ∈ ts, isNewline x = false ∧ isEnd x = false

/-- Tokens that stand in lines with ends. -/
structure WholeLines (ts : List Token) : Prop where
  inside : ∀ x ∈ ts, isEnd x = false
  ended : ∀ x ∈ ts.getLast?, isNewline x = true

namespace WholeLines

theorem nil : WholeLines [] := ⟨by simp, by simp⟩

theorem tail {x : Token} {ts : List Token} (h : WholeLines (x :: ts)) : WholeLines ts := by
  refine ⟨fun y mem => h.inside y (by simp [mem]), fun y last => h.ended y ?_⟩
  cases ts with
  | nil => cases last
  | cons z ts => simpa using last

theorem cons {x : Token} {ts : List Token} (h : WholeLines ts) (inside : isEnd x = false)
    (more : ts ≠ []) : WholeLines (x :: ts) := by
  refine ⟨fun y mem => ?_, fun y last => h.ended y ?_⟩
  · rcases List.mem_cons.1 mem with rfl | mem
    · exact inside
    · exact h.inside y mem
  · rwa [List.getLast?_cons_of_ne_nil more] at last

theorem ofLine {line rest : List Token} {nl : Token} (inline : Inline line)
    (newline : isNewline nl = true) (h : WholeLines rest) : WholeLines (line ++ nl :: rest) := by
  induction line with
  | nil =>
    refine ⟨fun x mem => ?_, fun x last => ?_⟩
    · rcases List.mem_cons.1 mem with rfl | mem
      · simp [isEnd, kind_of_isNewline newline]
      · exact h.inside x mem
    · cases rest with
      | nil => simp_all
      | cons y rest => exact h.ended x (by simpa using last)
  | cons x line ih =>
    exact (ih fun y mem => inline y (by simp [mem])).cons (inline x (by simp)).2 (by simp)

/-- The first line with its end, and the lines after it. -/
theorem split {ts : List Token} (h : WholeLines ts) (more : ts ≠ []) :
    ∃ line nl rest, ts = line ++ nl :: rest ∧ Inline line ∧ isNewline nl = true ∧
      WholeLines rest := by
  induction ts with
  | nil => contradiction
  | cons x ts ih =>
    by_cases newline : isNewline x = true
    · exact ⟨[], x, ts, rfl, by simp [Inline], newline, h.tail⟩
    · have more : ts ≠ [] := by
        rintro rfl
        exact newline (h.ended x rfl)
      obtain ⟨line, nl, rest, rfl, inline, lineEnd, whole⟩ := ih h.tail more
      refine ⟨x :: line, nl, rest, rfl, ?_, lineEnd, whole⟩
      intro y mem
      rcases List.mem_cons.1 mem with rfl | mem
      · exact ⟨by simpa using newline, h.inside y (by simp)⟩
      · exact inline y mem

end WholeLines

/-- The streams that stand on the same line with `c` blocks opened before its end, and go on
differently behind it. -/
def onLine (t t' : Bool) {nl : Token} (newline : isNewline nl = true) (rest rest' : List Token)
    (c : Int) : Simulation t t' where
  streams ts ts' := ∃ line, Inline line ∧ depth line = c ∧
    ts = line ++ nl :: rest ∧ ts' = line ++ nl :: rest'
  errors e e' := e' = e ∧ e.isIncomplete = false
  sameFront := by
    rintro ts ts' ⟨line, inline, opened, rfl, rfl⟩
    cases line <;> rfl
  sameSecond := by
    rintro ts ts' ⟨line, inline, opened, rfl, rfl⟩ word
    cases line with
    | nil => simp [front, isLayout, kind_of_isNewline newline] at word
    | cons x line => cases line <;> rfl
  behind := by
    rintro ts ts' ⟨line, inline, opened, rfl, rfl⟩ word
    cases line with
    | nil => simp [front, isLayout, kind_of_isNewline newline] at word
    | cons x line =>
      refine ⟨line, fun y mem => inline y (by simp [mem]), ?_, rfl, rfl⟩
      have := depthOf_of_isLayout word
      simp_all [front]
  final := by
    rintro ts ts' f ⟨line, inline, opened, rfl, rfl⟩ final
    cases line <;> simp [front, SyntaxError.of, SyntaxError.isIncomplete, final]
  misplaced := by
    rintro ts ts' ⟨line, inline, opened, rfl, rfl⟩
    have other : (front (line ++ nl :: rest)).kind ≠ .endMarker := by
      cases line with
      | nil => simp [front, kind_of_isNewline newline]
      | cons x line =>
        have := (inline x (by simp)).2
        intro h
        simp_all [front, isEnd]
    have same : front (line ++ nl :: rest') = front (line ++ nl :: rest) := by cases line <;> rfl
    rw [same]
    unfold unexpectedFault
    split <;> simp_all [SyntaxError.of, SyntaxError.isIncomplete, SyntaxFault.missing?]

/-- `R` closes `n` blocks before `S`. -/
def Closes (n : Nat) (R S : List Token) : Prop :=
  ∃ closed : List Token, (∀ x ∈ closed, x.kind = .dedent) ∧ closed.length = n ∧ R = closed ++ S

/-- `R` brings what is missing with `n` blocks open, closes them, and goes on with `S`. -/
def Cures : Missing → Nat → List Token → List Token → Prop
  | .blockEnd, n, R, S => Closes n R S
  | .block, n, R, S => ∃ opened word newline rest, opened.kind = .indent ∧
      word.kind = .name "pass" ∧ newline.kind = .newline ∧
      R = opened :: word :: newline :: rest ∧ Closes (n + 1) rest S
  | _, _, _, _ => False

/-- `R` goes on, but with no block. -/
def Withholds (R : List Token) : Prop := (front R).kind ≠ .indent ∧ isEnd (front R) = false

/-- No further branch of a statement follows. -/
def Sealed (R : List Token) : Prop :=
  isWord (front R) "elif" = false ∧ isWord (front R) "else" = false

theorem sealed_of_kind {R : List Token} (h : ∀ word, (front R).kind ≠ .name word) : Sealed R := by
  unfold Sealed isWord
  constructor <;> split <;> simp_all

theorem Closes.sealed {n : Nat} {R S : List Token} (closes : Closes n R S) (sealed : Sealed S) :
    Sealed R := by
  obtain ⟨closed, dedents, -, rfl⟩ := closes
  cases closed with
  | nil => exact sealed
  | cons x closed => exact sealed_of_kind fun word => by simp [front, dedents x (by simp)]

theorem Cures.sealed {missing : Missing} {n : Nat} {R S : List Token} (cures : Cures missing n R S)
    (sealed : Sealed S) : Sealed R := by
  cases missing with
  | blockEnd => exact Closes.sealed cures sealed
  | block =>
    obtain ⟨opened, word, newline, rest, kind, -, -, rfl, -⟩ := cures
    exact sealed_of_kind fun word => by simp [front, kind]
  | _ => exact cures.elim

/-- The last blocks to be closed may be set apart. -/
theorem Closes.split {n k : Nat} {R T : List Token} (closes : Closes (n + k) R T) :
    ∃ S, Closes n R S ∧ Closes k S T := by
  obtain ⟨closed, dedents, length, rfl⟩ := closes
  refine ⟨closed.drop n ++ T, ⟨closed.take n, ?_, ?_, ?_⟩, closed.drop n, ?_, ?_, rfl⟩
  · exact fun x mem => dedents x (List.mem_of_mem_take mem)
  · rw [List.length_take]
    omega
  · rw [← List.append_assoc, List.take_append_drop]
  · exact fun x mem => dedents x (List.mem_of_mem_drop mem)
  · rw [List.length_drop]
    omega

theorem Cures.split {missing : Missing} {n k : Nat} {R T : List Token}
    (cures : Cures missing (n + k) R T) : ∃ S, Cures missing n R S ∧ Closes k S T := by
  cases missing with
  | blockEnd => exact Closes.split cures
  | block =>
    obtain ⟨opened, word, newline, rest, indent, pass, line, rfl, closes⟩ := cures
    rw [Nat.add_right_comm] at closes
    obtain ⟨S, first, last⟩ := closes.split
    exact ⟨S, ⟨opened, word, newline, rest, indent, pass, line, rfl, first⟩, last⟩
  | _ => exact cures.elim

variable {t' : Bool} {e : Token} {R : List Token} {α β : Type}

/-- What reading a stream with the end marker `e` tells of reading one with `R` in its place. `blocks`
blocks are open behind what was read; what is left is shorter than `m`. Nothing but a block or its end
is missing, and a block that is missing has to come next. -/
def Carries (e : Token) (R : List Token) (blocks : Int) (m : Nat)
    (r r' : Except SyntaxError (α × List Token)) : Prop :=
  match r with
  | .ok (v, rest) => ∃ C, rest = C ++ [e] ∧ WholeLines C ∧ C.length < m ∧ depth C = blocks ∧
      (C ≠ [] ∨ Sealed R → r' = .ok (v, C ++ R))
  | .error error =>
    match error.fault.missing? with
    | none => r' = .error error
    | some missing => (∃ n : Nat, (n : Int) = blocks ∧
        ∀ S, Cures missing n R S → Sealed S → ∃ v, r' = .ok (v, S)) ∧
      (missing = .block ∨ missing = .blockEnd) ∧
      (missing = .block → Withholds R →
        ∃ error', error'.isIncomplete = false ∧ r' = .error error')

namespace Carries

variable {blocks : Int} {m n : Nat} {ts ts' : List Token}

theorem mono {r r' : Except SyntaxError (α × List Token)} (h : Carries e R blocks n r r')
    (le : n ≤ m) : Carries e R blocks m r r' := by
  unfold Carries at *
  split at h
  · obtain ⟨C, left, whole, short, opened, same⟩ := h
    exact ⟨C, left, whole, by omega, opened, same⟩
  · exact h

theorem pure {C : List Token} (v : α) (whole : WholeLines C) (short : C.length < m)
    (opened : depth C = blocks) :
    Carries e R blocks m (.ok (v, C ++ [e])) (.ok (v, C ++ R)) :=
  ⟨C, rfl, whole, short, opened, fun _ => rfl⟩

theorem error {error : SyntaxError} (final : error.isIncomplete = false) :
    Carries e R blocks m (.error error : Except _ (α × List Token)) (.error error) := by
  have missing : error.fault.missing? = none := by
    unfold SyntaxError.isIncomplete at final
    simpa using final
  unfold Carries
  simp [missing]

/-- A part that fails fails the whole. Closing `k` more blocks is up to what would have come next. -/
theorem bind_error {error : SyntaxError} {p' : Parser α} {q' : α → Parser β} {k : Nat}
    (first : Carries e R blocks m (.error error : Except _ (α × List Token)) (p' ts'))
    (cured : ∀ v S T, Closes k S T → Sealed T → ∃ w, q' v S = .ok (w, T)) :
    Carries e R (blocks + k) m (.error error : Except _ (β × List Token)) ((p' >>= q') ts') := by
  unfold Carries at first ⊢
  dsimp only at first ⊢
  cases lacks : error.fault.missing? with
  | none =>
    rw [lacks] at first
    exact run_bind_error first
  | some missing =>
    rw [lacks] at first
    obtain ⟨⟨n, opened, first⟩, either, withheld⟩ := first
    refine ⟨⟨n + k, by omega, fun T cures sealed => ?_⟩, either, fun block withholds => ?_⟩
    · obtain ⟨S, cures, closes⟩ := cures.split
      obtain ⟨v, same⟩ := first S cures (closes.sealed sealed)
      rw [run_bind same]
      exact cured v S T closes sealed
    · obtain ⟨error', final, failed⟩ := withheld block withholds
      exact ⟨error', final, run_bind_error failed⟩

/-- Where nothing is left and `R` begins with a branch, the second reading is not bound. -/
theorem unbound {r r' r'' : Except SyntaxError (α × List Token)} (unsealed : ¬ Sealed R)
    (quiet : ∀ error, r = .error error → error.fault.missing? = some .blockEnd)
    (alone : Carries e R blocks 1 r r'') (short : 0 < m) : Carries e R blocks m r r' := by
  cases r with
  | error error =>
    have lacks := quiet error rfl
    unfold Carries at alone ⊢
    dsimp only at alone ⊢
    rw [lacks] at alone ⊢
    obtain ⟨⟨n, opened, -⟩, -⟩ := alone
    refine ⟨⟨n, opened, fun S cures sealed => ?_⟩, .inr rfl, fun block => nomatch block⟩
    exact absurd (cures.sealed sealed) unsealed
  | ok x =>
    obtain ⟨v, rest⟩ := x
    obtain ⟨C, rfl, whole, nothing, opened, -⟩ := alone
    obtain rfl : C = [] := List.length_eq_zero_iff.1 (Nat.lt_one_iff.1 nothing)
    exact ⟨[], rfl, whole, short, opened, fun follows => by simp [unsealed] at follows⟩

/-- After what both read, what comes next is compared where something is left or `R` is no branch. -/
theorem bind {p p' : Parser α} {q q' : α → Parser β} {k : Nat}
    (first : Carries e R blocks m (p ts) (p' ts'))
    (next : ∀ v C, WholeLines C → C.length < m → depth C = blocks →
      Carries e R (blocks + k) (C.length + 1) (q v (C ++ [e])) (q' v (C ++ R)))
    (quiet : ∀ v error, q v [e] = .error error → error.fault.missing? = some .blockEnd)
    (cured : ∀ v S T, Closes k S T → Sealed T → ∃ w, q' v S = .ok (w, T)) :
    Carries e R (blocks + k) m ((p >>= q) ts) ((p' >>= q') ts') := by
  cases taken : p ts with
  | error error =>
    rw [taken] at first
    rw [run_bind_error taken]
    exact first.bind_error cured
  | ok x =>
    obtain ⟨v, rest⟩ := x
    rw [taken] at first
    obtain ⟨C, rfl, whole, short, opened, same⟩ := first
    have second := next v C whole short opened
    rw [run_bind taken]
    by_cases follows : C ≠ [] ∨ Sealed R
    · rw [run_bind (same follows)]
      exact second.mono (by omega)
    · obtain ⟨rfl, unsealed⟩ : C = [] ∧ ¬ Sealed R := by simpa using follows
      exact second.unbound unsealed (quiet v) short

theorem map {p p' : Parser α} {f : α → β} (h : Carries e R blocks m (p ts) (p' ts')) :
    Carries e R blocks m ((p >>= fun v => Pure.pure (f v)) ts)
      ((p' >>= fun v => Pure.pure (f v)) ts') := by
  rw [← Int.add_zero blocks]
  refine Carries.bind (k := 0) (by simpa using h) ?_ ?_ ?_
  · intro v C whole short opened
    exact Carries.pure (f v) whole (by omega) (by simpa using opened)
  · intro v error failed
    cases failed
  · rintro v S T ⟨closed, -, count, rfl⟩ sealed
    obtain rfl : closed = [] := List.length_eq_zero_iff.1 count
    exact ⟨f v, rfl⟩

end Carries

end Console.Parse
