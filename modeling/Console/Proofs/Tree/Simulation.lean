import Console.Tree.Statements

/-!
# Streams that a line of reading cannot tell apart

A parser sees a stream through its first two tokens and moves on over one token at a time. Two
streams that agree on what can be seen, and go on agreeing behind every word, are read alike: both
readings fail with related errors, or both take the same value and leave related streams.
`Simulation` states the closure, `Agree` compares two results, and one rule for each way to read a
token carries `Alike` through a parser.
-/

namespace Console.Parse

open Token

/-- Tokens that shape lines and blocks; all others are words of a line. -/
def isLayout (t : Token) : Bool :=
  match t.kind with
  | .newline | .indent | .dedent | .endMarker => true
  | _ => false

theorem isLayout_false_of_isOp {t : Token} {symbol : String} (h : isOp t symbol = true) :
    isLayout t = false := by
  unfold isOp at h
  unfold isLayout
  split at h <;> simp_all

theorem isLayout_false_of_isWord {t : Token} {word : String} (h : isWord t word = true) :
    isLayout t = false := by
  unfold isWord at h
  unfold isLayout
  split at h <;> simp_all

theorem isLayout_false_of_name {t : Token} {word : String} (kind : t.kind = .name word) :
    isLayout t = false := by
  simp [isLayout, kind]

/-- Behind the last token the stream goes on with end markers, which are no words. -/
theorem length_tail_lt {ts : List Token} (word : isLayout (front ts) = false) :
    ts.tail.length < ts.length := by
  cases ts with
  | nil => simp [front, isLayout] at word
  | cons t rest => simp

section

variable {α β : Type} {p : Parser α} {k : α → Parser β} {ts rest : List Token}

theorem run_bind {v : α} (h : p ts = .ok (v, rest)) : (p >>= k) ts = k v rest := by
  change (p ts >>= fun x => k x.1 x.2) = _
  rw [h]
  rfl

theorem run_bind_error {error : SyntaxError} (h : p ts = .error error) :
    (p >>= k) ts = .error error := by
  change (p ts >>= fun x => k x.1 x.2) = _
  rw [h]
  rfl

theorem bind_ok {w : β} (h : (p >>= k) ts = .ok (w, rest)) :
    ∃ v between, p ts = .ok (v, between) ∧ k v between = .ok (w, rest) := by
  cases read : p ts with
  | error error =>
    rw [run_bind_error read] at h
    cases h
  | ok x => exact ⟨x.1, x.2, rfl, by rwa [run_bind read] at h⟩

end

/-- A relation of streams, and one of errors. `t` and `t'` say whether the source is terminated where
the first and where the second stream is read. -/
structure Simulation (t t' : Bool) where
  streams : List Token → List Token → Prop
  errors : SyntaxError → SyntaxError → Prop
  sameFront : ∀ {ts ts'}, streams ts ts' → (front ts').kind = (front ts).kind
  sameSecond : ∀ {ts ts'}, streams ts ts' → isLayout (front ts) = false →
    (front ts'.tail).kind = (front ts.tail).kind
  behind : ∀ {ts ts'}, streams ts ts' → isLayout (front ts) = false → streams ts.tail ts'.tail
  final : ∀ {ts ts' f}, streams ts ts' → SyntaxFault.missing? f = none →
    errors (.of f (front ts).pos) (.of f (front ts').pos)
  misplaced : ∀ {ts ts'}, streams ts ts' →
    errors (.of (unexpectedFault t (front ts).kind) (front ts).pos)
      (.of (unexpectedFault t' (front ts).kind) (front ts').pos)

/-- Two bounds on the depth of reading that make no difference: they are equal, or both exceed
`n`. -/
def Within (f g n : Nat) : Prop := f = g ∨ n < f ∧ n < g

theorem Within.pred {f g n n' : Nat} (within : Within (f + 1) (g + 1) n) (less : n' < n) :
    Within f g n' := by
  unfold Within at *
  omega

/-- Every token leaves room for sixteen readings nested in each other without a token between. -/
theorem Within.later {f g n r : Nat} {rest : List Token} (within : Within (f + 1) (g + 1) n)
    (shorter : 16 * (rest.length + 1) ≤ n) (small : r < 16) : Within f g (16 * rest.length + r) :=
  within.pred (by omega)

namespace Simulation

variable {t t' : Bool} {α β : Type}

/-- Results that cannot be told apart: related errors, or one value and what is `left` of the
streams. -/
def Agree (S : Simulation t t') (left : List Token → List Token → Prop)
    (r r' : Except SyntaxError (α × List Token)) : Prop :=
  match r, r' with
  | .ok (v, rest), .ok (v', rest') => v = v' ∧ left rest rest'
  | .error e, .error e' => S.errors e e'
  | _, _ => False

theorem Agree.cases {S : Simulation t t'} {left : List Token → List Token → Prop}
    {r r' : Except SyntaxError (α × List Token)} (h : S.Agree left r r') :
    (∃ error error', S.errors error error' ∧ r = .error error ∧ r' = .error error') ∨
      ∃ v rest rest', left rest rest' ∧ r = .ok (v, rest) ∧ r' = .ok (v, rest') := by
  unfold Agree at h
  split at h
  · obtain ⟨rfl, related⟩ := h
    exact .inr ⟨_, _, _, related, rfl, rfl⟩
  · exact .inl ⟨_, _, h, rfl, rfl⟩
  · exact h.elim

/-- Two parsers whose results at two streams cannot be told apart; what they leave is shorter than
`m`. -/
def Alike (S : Simulation t t') (m : Nat) (p p' : Parser α) (ts ts' : List Token) : Prop :=
  S.Agree (fun rest rest' => S.streams rest rest' ∧ rest.length < m) (p ts) (p' ts')

/-- A way to read that agrees with itself at the depths `f` and `g`. It nests at most `rank` readings
before it takes a token, and with `slack` 0 it takes at least one. -/
def Respects (S : Simulation t t') (f g rank slack : Nat)
    (read : Context → Nat → Parser α) : Prop :=
  ∀ ⦃loop function ts ts'⦄, S.streams ts ts' → Within f g (16 * ts.length + rank) →
    S.Alike (ts.length + slack) (read ⟨t, loop, function⟩ f) (read ⟨t', loop, function⟩ g) ts ts'

variable {S : Simulation t t'} {m n : Nat} {ts ts' : List Token}

theorem Alike.mono {p p' : Parser α} (h : S.Alike m p p' ts ts') (le : m ≤ n) :
    S.Alike n p p' ts ts' := by
  unfold Alike Agree at *
  split at h
  · exact ⟨h.1, h.2.1, by omega⟩
  · exact h
  · exact h

theorem alike_pure (related : S.streams ts ts') (v : α) (short : ts.length < m) :
    S.Alike m (pure v) (pure v) ts ts' :=
  ⟨rfl, related, short⟩

theorem agree_bind {p p' : Parser α} {k k' : α → Parser β}
    {between left : List Token → List Token → Prop} (first : S.Agree between (p ts) (p' ts'))
    (next : ∀ v rest rest', between rest rest' → S.Agree left (k v rest) (k' v rest')) :
    S.Agree left ((p >>= k) ts) ((p' >>= k') ts') := by
  rcases first.cases with ⟨error, error', related, taken, taken'⟩ |
    ⟨v, rest, rest', related, taken, taken'⟩
  · rw [run_bind_error taken, run_bind_error taken']
    exact related
  · rw [run_bind taken, run_bind taken']
    exact next v rest rest' related

theorem alike_bind {p p' : Parser α} {k k' : α → Parser β} (first : S.Alike n p p' ts ts')
    (next : ∀ v rest rest', S.streams rest rest' → rest.length < n →
      S.Alike m (k v) (k' v) rest rest') :
    S.Alike m (p >>= k) (p' >>= k') ts ts' :=
  agree_bind first fun v rest rest' h => next v rest rest' h.1 h.2

theorem alike_map {p p' : Parser α} (change : α → β) (h : S.Alike m p p' ts ts') :
    S.Alike m (change <$> p) (change <$> p') ts ts' :=
  alike_bind h fun v _ _ related short => alike_pure related (change v) short

theorem alike_fail (related : S.streams ts ts') {f : SyntaxFault} (final : f.missing? = none) :
    S.Alike m (fail f : Parser α) (fail f) ts ts' :=
  S.final related final

/-- What would follow a fault is never read. -/
theorem alike_fail_bind (related : S.streams ts ts') {f : SyntaxFault} (final : f.missing? = none)
    (k k' : α → Parser β) : S.Alike m (fail f >>= k) (fail f >>= k') ts ts' :=
  S.final related final

theorem alike_unexpected (related : S.streams ts ts') (loop function : Bool) :
    S.Alike m (unexpected ⟨t, loop, function⟩ : Parser α) (unexpected ⟨t', loop, function⟩)
      ts ts' := by
  show S.errors (.of (unexpectedFault t (front ts).kind) (front ts).pos)
    (.of (unexpectedFault t' (front ts').kind) (front ts').pos)
  rw [S.sameFront related]
  exact S.misplaced related

theorem alike_get {k k' : List Token → Parser β} (next : S.Alike m (k ts) (k' ts') ts ts') :
    S.Alike m (get >>= k) (get >>= k') ts ts' :=
  next

theorem alike_current {k k' : Token → Parser β}
    (next : S.Alike m (k (front ts)) (k' (front ts')) ts ts') :
    S.Alike m (current >>= k) (current >>= k') ts ts' :=
  next

theorem isOp_eq (related : S.streams ts ts') (symbol : String) :
    isOp (front ts') symbol = isOp (front ts) symbol := by
  unfold isOp
  rw [S.sameFront related]

theorem isWord_eq (related : S.streams ts ts') (word : String) :
    isWord (front ts') word = isWord (front ts) word := by
  unfold isWord
  rw [S.sameFront related]

theorem isNewline_eq (related : S.streams ts ts') :
    isNewline (front ts') = isNewline (front ts) := by
  unfold isNewline
  rw [S.sameFront related]

theorem alike_atOp (related : S.streams ts ts') (symbol : String) {p q p' q' : Parser β}
    (yes : S.Alike m p p' ts ts') (no : S.Alike m q q' ts ts') :
    S.Alike m (atOp symbol >>= fun b => if b = true then p else q)
      (atOp symbol >>= fun b => if b = true then p' else q') ts ts' := by
  show S.Alike m (if isOp (front ts) symbol = true then p else q)
    (if isOp (front ts') symbol = true then p' else q') ts ts'
  rw [isOp_eq related]
  split
  · exact yes
  · exact no

theorem alike_atWord (related : S.streams ts ts') (word : String) {p q p' q' : Parser β}
    (yes : S.Alike m p p' ts ts') (no : S.Alike m q q' ts ts') :
    S.Alike m (atWord word >>= fun b => if b = true then p else q)
      (atWord word >>= fun b => if b = true then p' else q') ts ts' := by
  show S.Alike m (if isWord (front ts) word = true then p else q)
    (if isWord (front ts') word = true then p' else q') ts ts'
  rw [isWord_eq related]
  split
  · exact yes
  · exact no

theorem alike_tail {k k' : Unit → Parser β} (next : S.Alike m (k ()) (k' ()) ts.tail ts'.tail) :
    S.Alike m (advance >>= k) (advance >>= k') ts ts' :=
  next

theorem alike_modify {change : List Token → List Token} {k k' : Unit → Parser β}
    (next : S.Alike m (k ()) (k' ()) (change ts) (change ts')) :
    S.Alike m (modify change >>= k) (modify change >>= k') ts ts' :=
  next

theorem alike_advance (related : S.streams ts ts') (word : isLayout (front ts) = false)
    {k k' : Unit → Parser β}
    (next : ∀ rest rest', S.streams rest rest' → rest.length < ts.length →
      S.Alike m (k ()) (k' ()) rest rest') :
    S.Alike m (advance >>= k) (advance >>= k') ts ts' :=
  next ts.tail ts'.tail (S.behind related word) (length_tail_lt word)

/-- An operator that comes next is taken on both sides or on neither. -/
theorem alike_eatOp_bind (related : S.streams ts ts') (symbol : String) {k k' : Bool → Parser β}
    (taken : ∀ rest rest', S.streams rest rest' → rest.length < ts.length →
      S.Alike m (k true) (k' true) rest rest')
    (left : S.Alike m (k false) (k' false) ts ts') :
    S.Alike m (eatOp symbol >>= k) (eatOp symbol >>= k') ts ts' := by
  unfold eatOp
  rw [bind_assoc, bind_assoc]
  show S.Alike m ((if isOp (front ts) symbol = true then _ else _ : Parser Bool) >>= k)
    ((if isOp (front ts') symbol = true then _ else _ : Parser Bool) >>= k') ts ts'
  rw [isOp_eq related]
  by_cases next : isOp (front ts) symbol = true
  · rw [if_pos next]
    have word := isLayout_false_of_isOp next
    exact taken ts.tail ts'.tail (S.behind related word) (length_tail_lt word)
  · rw [if_neg next]
    exact left

theorem alike_eatOp (related : S.streams ts ts') (symbol : String) {p q p' q' : Parser β}
    (taken : ∀ rest rest', S.streams rest rest' → rest.length < ts.length →
      S.Alike m p p' rest rest')
    (left : S.Alike m q q' ts ts') :
    S.Alike m (eatOp symbol >>= fun b => if b = true then p else q)
      (eatOp symbol >>= fun b => if b = true then p' else q') ts ts' :=
  alike_eatOp_bind related symbol taken left

theorem alike_eatWord_bind (related : S.streams ts ts') (word : String) {k k' : Bool → Parser β}
    (taken : ∀ rest rest', S.streams rest rest' → rest.length < ts.length →
      S.Alike m (k true) (k' true) rest rest')
    (left : S.Alike m (k false) (k' false) ts ts') :
    S.Alike m (eatWord word >>= k) (eatWord word >>= k') ts ts' := by
  unfold eatWord
  rw [bind_assoc, bind_assoc]
  show S.Alike m ((if isWord (front ts) word = true then _ else _ : Parser Bool) >>= k)
    ((if isWord (front ts') word = true then _ else _ : Parser Bool) >>= k') ts ts'
  rw [isWord_eq related]
  by_cases next : isWord (front ts) word = true
  · rw [if_pos next]
    have word := isLayout_false_of_isWord next
    exact taken ts.tail ts'.tail (S.behind related word) (length_tail_lt word)
  · rw [if_neg next]
    exact left

theorem alike_eatWord (related : S.streams ts ts') (word : String) {p q p' q' : Parser β}
    (taken : ∀ rest rest', S.streams rest rest' → rest.length < ts.length →
      S.Alike m p p' rest rest')
    (left : S.Alike m q q' ts ts') :
    S.Alike m (eatWord word >>= fun b => if b = true then p else q)
      (eatWord word >>= fun b => if b = true then p' else q') ts ts' :=
  alike_eatWord_bind related word taken left

theorem alike_expectOp (related : S.streams ts ts') (loop function : Bool) (symbol : String) :
    S.Alike ts.length (expectOp ⟨t, loop, function⟩ symbol) (expectOp ⟨t', loop, function⟩ symbol)
      ts ts' :=
  alike_eatOp related symbol (fun _ _ related short => alike_pure related () short)
    (alike_unexpected related loop function)

theorem alike_expectWord (related : S.streams ts ts') (loop function : Bool) (word : String) :
    S.Alike ts.length (expectWord ⟨t, loop, function⟩ word) (expectWord ⟨t', loop, function⟩ word)
      ts ts' :=
  alike_eatWord related word (fun _ _ related short => alike_pure related () short)
    (alike_unexpected related loop function)

theorem alike_identifier (related : S.streams ts ts') (loop function : Bool) :
    S.Alike ts.length (identifier ⟨t, loop, function⟩) (identifier ⟨t', loop, function⟩)
      ts ts' := by
  unfold identifier
  refine alike_current ?_
  rw [S.sameFront related]
  cases kind : (front ts).kind with
  | name word =>
    dsimp only
    by_cases reserved : isKeyword word = true
    · rw [if_pos reserved, if_pos reserved]
      exact alike_unexpected related loop function
    · rw [if_neg reserved, if_neg reserved]
      exact alike_advance related (by simp [isLayout, kind]) fun _ _ related short =>
        alike_pure related word short
  | _ => exact alike_unexpected related loop function

end Simulation

end Console.Parse
