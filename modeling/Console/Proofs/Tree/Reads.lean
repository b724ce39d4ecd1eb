import Mathlib.Order.Filter.AtTopBot.Basic
import Console.Proofs.Tree.Beginnings
import Console.Proofs.Tree.Rendering

/-!
# What is read at all depths that suffice

`Reads` says that a parser takes a value off a stream at every depth of reading from some depth on.
`Stops` says that a token does not go on with an operand, so that a level ends before it. An
expression that some kinds write `Leads` a level if that level reads it and then goes on with it as
its first operand; from there it leads every looser level.
-/

namespace Console.Parse

open Token Filter

variable {ctx : Context} {α β : Type} {ts mid rest : List Token}

theorem spells_append (ks ks' : List TokenKind) (ts rest : List Token) :
    Spells (ks ++ ks') ts rest ↔ ∃ mid, Spells ks ts mid ∧ Spells ks' mid rest := by
  induction ks generalizing ts with
  | nil => simp [Spells]
  | cons k ks ih =>
    simp only [List.cons_append, Spells, ih]
    constructor
    · rintro ⟨t, later, same, kind, mid, first, last⟩
      exact ⟨mid, ⟨t, later, same, kind, first⟩, last⟩
    · rintro ⟨mid, ⟨t, later, same, kind, first⟩, last⟩
      exact ⟨t, later, same, kind, mid, first, last⟩

theorem spells_of_map {kinds : List TokenKind} (same : ts.map Token.kind = kinds)
    (rest : List Token) : Spells kinds (ts ++ rest) rest := by
  induction ts generalizing kinds with
  | nil => subst same; rfl
  | cons t ts ih => subst same; exact ⟨t, ts ++ rest, rfl, rfl, ih rfl⟩

theorem spells_literal (kind : TokenKind) (ts rest : List Token) :
    Spells (Kinds.literal kind) ts rest ↔ ∃ t, ts = t :: rest ∧ t.kind = kind := by
  simp [Kinds.literal, Spells]

section

variable {symbol text : String}

theorem front_of_op (spells : Spells (Kinds.op symbol) ts rest) :
    (front ts).kind = .op symbol ∧ ts.tail = rest := by
  obtain ⟨t, rfl, kind⟩ := (spells_literal (.op symbol) ts rest).1 spells
  exact ⟨kind, rfl⟩

theorem front_of_word (spells : Spells (Kinds.word text) ts rest) :
    (front ts).kind = .name text ∧ ts.tail = rest := by
  obtain ⟨t, rfl, kind⟩ := (spells_literal (.name text) ts rest).1 spells
  exact ⟨kind, rfl⟩

theorem isOp_of_kind {t : Token} (kind : t.kind = .op symbol) (other : String) :
    isOp t other = (symbol == other) := by
  simp [isOp, kind]

theorem isWord_of_kind {t : Token} (kind : t.kind = .name text) (other : String) :
    isWord t other = (text == other) := by
  simp [isWord, kind]

theorem eatOp_of_spells (spells : Spells (Kinds.op symbol) ts rest) :
    eatOp symbol ts = .ok (true, rest) := by
  obtain ⟨kind, rfl⟩ := front_of_op spells
  exact eatOp_present (by simp [isOp_of_kind kind])

theorem eatWord_of_spells (spells : Spells (Kinds.word text) ts rest) :
    eatWord text ts = .ok (true, rest) := by
  obtain ⟨kind, rfl⟩ := front_of_word spells
  exact eatWord_present (by simp [isWord_of_kind kind])

theorem expectOp_of_spells (spells : Spells (Kinds.op symbol) ts rest) (ctx : Context) :
    expectOp ctx symbol ts = .ok ((), rest) :=
  run_bind (eatOp_of_spells spells)

theorem expectWord_of_spells (spells : Spells (Kinds.word text) ts rest) (ctx : Context) :
    expectWord ctx text ts = .ok ((), rest) :=
  run_bind (eatWord_of_spells spells)

theorem identifier_of_spells (spells : Spells (Kinds.word text) ts rest)
    (free : isKeyword text = false) (ctx : Context) : identifier ctx ts = .ok (text, rest) := by
  obtain ⟨kind, rfl⟩ := front_of_word spells
  rw [identifier, run_current]
  simp only [kind, free]
  rfl

end

theorem run_atOp (symbol : String) (k : Bool → Parser β) (ts : List Token) :
    (atOp symbol >>= k) ts = k (isOp (front ts) symbol) ts := rfl

/-- From some depth on the parser takes the value off the stream and leaves the rest. -/
def Reads (p : Nat → Parser α) (ts : List Token) (v : α) (rest : List Token) : Prop :=
  ∀ᶠ f in atTop, p f ts = .ok (v, rest)

namespace Reads

variable {p p' : Nat → Parser α} {v : α}

theorem succ (h : ∀ᶠ f in atTop, p (f + 1) ts = .ok (v, rest)) : Reads p ts v rest := by
  unfold Reads
  rw [← map_add_atTop_eq_nat 1, eventually_map]
  exact h

theorem of_eq (h : ∀ f, p f ts = .ok (v, rest)) : Reads p ts v rest := .of_forall h

theorem map (h : Reads p ts v rest) (g : α → β) :
    Reads (fun f => do return g (← p f)) ts (g v) rest := by
  filter_upwards [h] with f read
  exact (run_bind read).trans rfl

/-- Some depth suffices. -/
theorem once (h : Reads p ts v rest) : ∃ f, p f ts = .ok (v, rest) := h.exists

/-- Nothing else is read. -/
theorem unique {v' : α} {rest' : List Token} (h : Reads p ts v rest) (h' : Reads p ts v' rest') :
    v' = v ∧ rest' = rest := by
  obtain ⟨f, read, read'⟩ := (h.and h').exists
  rw [read] at read'
  cases read'
  exact ⟨rfl, rfl⟩

end Reads

/-- The level at which a token goes on with the operand before it. -/
def continues? : TokenKind → Option Level
  | .op "(" | .op "[" | .op "." => some .trailer
  | .op "**" => some .power
  | .op "*" | .op "/" | .op "//" | .op "%" => some .product
  | .op "+" | .op "-" => some .sum
  | .op "==" | .op "!=" | .op "<" | .op "<=" | .op ">" | .op ">=" => some .comparison
  | .name "in" | .name "not" | .name "is" => some .comparison
  | .name "and" => some .conjunction
  | .name "or" => some .disjunction
  | .name "if" => some .conditional
  | _ => none

/-- A level ends before the token: only looser ones go on with it. -/
def Stops (level : Level) (t : Token) : Prop :=
  ∀ l, continues? t.kind = some l → level.rank < l.rank

theorem continues_of_joiner {level : Level} {kind : TokenKind} {join : Expr → Expr → Expr}
    (joins : level.joiner? kind = some join) : continues? kind = some level := by
  unfold Level.joiner? at joins
  split at joins <;> first | rfl | cases joins

namespace Stops

variable {level level' : Level} {t : Token}

theorem mono (h : Stops level t) (le : level'.rank ≤ level.rank) : Stops level' t :=
  fun l goes => Nat.lt_of_le_of_lt le (h l goes)

theorem isOp_eq_false (h : Stops level t) {symbol : String} {l : Level}
    (goes : continues? (.op symbol) = some l) (le : l.rank ≤ level.rank) :
    isOp t symbol = false := by
  by_contra is
  have := h l (by rw [kind_of_isOp (by simpa using is), goes])
  omega

theorem isWord_eq_false (h : Stops level t) {text : String} {l : Level}
    (goes : continues? (.name text) = some l) (le : l.rank ≤ level.rank) :
    isWord t text = false := by
  by_contra is
  have := h l (by rw [kind_of_isWord (by simpa using is), goes])
  omega

theorem joiner_eq_none (h : Stops level t) : level.joiner? t.kind = none := by
  cases joins : level.joiner? t.kind with
  | none => rfl
  | some join => exact absurd (h level (continues_of_joiner joins)) (Nat.lt_irrefl _)

theorem comparisonAt_eq_none (h : Stops .comparison (front ts)) : comparisonAt? ts = none := by
  cases found : comparisonAt? ts with
  | none => rfl
  | some link =>
    have goes : continues? (front ts).kind = some .comparison := by
      unfold comparisonAt? at found
      split at found <;> first | cases found; done | (simp only [*]; rfl)
    exact absurd (h .comparison goes) (Nat.lt_irrefl _)

/-- Every level ends before a token that never goes on with an operand. -/
theorem of_kind {kind : TokenKind} (same : t.kind = kind) (ends : continues? kind = none) :
    Stops level t := by
  intro l goes
  rw [same, ends] at goes
  cases goes

end Stops

/-- What a level reads behind its first operand; a level that does not group takes no more. -/
def onward (ctx : Context) (f : Nat) : Level → Expr → Parser Expr
  | .trailer, e => trailers ctx f e
  | .disjunction, e => operands ctx f .disjunction e
  | .conjunction, e => operands ctx f .conjunction e
  | .sum, e => operands ctx f .sum e
  | .product, e => operands ctx f .product e
  | _, e => pure e

/-- The level that has ended behind a first operand. -/
def Level.inner : Level → Level
  | .trailer => .atom
  | .disjunction => .conjunction
  | .conjunction => .negation
  | .sum => .product
  | .product => .sign
  | level => level

theorem rank_inner_le (level : Level) : level.inner.rank ≤ level.rank := by
  cases level <;> decide

/-- At this level, tokens of these kinds are read as the expression. -/
def ReadsAs (level : Level) (kinds : List TokenKind) (e : Expr) : Prop :=
  ∀ (ctx : Context) (ts rest : List Token), Spells kinds ts rest → Stops level (front rest) →
    Reads (fun f => expression ctx f level) ts e rest

/-- At this level, tokens of these kinds are read as the first operand, or are all that is read. -/
def Leads (level : Level) (kinds : List TokenKind) (e : Expr) : Prop :=
  ∀ (ctx : Context) (ts mid rest : List Token) (whole : Expr), Spells kinds ts mid →
    Stops level.inner (front mid) → Reads (fun f => onward ctx f level e) mid whole rest →
    Reads (fun f => expression ctx f level) ts whole rest

variable {level : Level} {kinds : List TokenKind} {e : Expr}

theorem reads_operands (stops : Stops level (front ts)) :
    Reads (fun f => operands ctx f level e) ts e ts := by
  refine .succ (.of_forall fun f => ?_)
  rw [operands, run_current]
  simp only [stops.joiner_eq_none]
  rfl

theorem reads_trailers (stops : Stops .trailer (front ts)) :
    Reads (fun f => trailers ctx f e) ts e ts := by
  refine .succ (.of_forall fun f => ?_)
  rw [trailers, run_bind (eatOp_absent (stops.isOp_eq_false rfl (by decide))), if_neg (by simp),
    run_bind (eatOp_absent (stops.isOp_eq_false rfl (by decide))), if_neg (by simp),
    run_bind (eatOp_absent (stops.isOp_eq_false rfl (by decide))), if_neg (by simp)]
  rfl

theorem reads_onward (stops : Stops level (front ts)) :
    Reads (fun f => onward ctx f level e) ts e ts := by
  cases level with
  | trailer => exact reads_trailers stops
  | disjunction | conjunction | sum | product => exact reads_operands stops
  | _ => exact .of_eq fun _ => rfl

theorem Leads.reads (h : Leads level kinds e) : ReadsAs level kinds e :=
  fun ctx ts rest spells stops =>
    h ctx ts rest rest e spells (stops.mono (rank_inner_le level)) (reads_onward stops)

/-- What a tighter level reads is no prefix of the level. -/
theorem isWord_prefix_eq_false {level' : Level} {text : String}
    (h : Reads (fun f => expression ctx f level') ts e rest)
    (marked : prefix? (.name text) = some level) (looser : level'.rank < level.rank) :
    isWord (front ts) text = false := by
  obtain ⟨f, read⟩ := h.once
  by_contra is
  have kind := kind_of_isWord (by simpa using is)
  rcases front_of_expression read with ⟨l, found, le⟩ | starts
  · rw [kind, marked] at found
    cases found
    omega
  · rcases kind_of_prefix marked with same | same | same <;> cases same
    simp [startsAtom, kind, wordAtom?, isKeyword, keywords] at starts

theorem isOp_prefix_eq_false {level' : Level} {symbol : String}
    (h : Reads (fun f => expression ctx f level') ts e rest)
    (marked : prefix? (.op symbol) = some level) (looser : level'.rank < level.rank) :
    isOp (front ts) symbol = false := by
  obtain ⟨f, read⟩ := h.once
  by_contra is
  have kind := kind_of_isOp (by simpa using is)
  rcases front_of_expression read with ⟨l, found, le⟩ | starts
  · rw [kind, marked] at found
    cases found
    omega
  · rcases kind_of_prefix marked with same | same | same <;> cases same <;>
      simp [startsAtom, kind] at starts

theorem isWord_lambda_eq_false (h : Reads (fun f => expression ctx f level) ts e rest) :
    isWord (front ts) "lambda" = false := by
  obtain ⟨f, read⟩ := h.once
  by_contra is
  have kind := kind_of_isWord (by simpa using is)
  rcases front_of_expression read with ⟨l, found, -⟩ | starts
  · rw [kind] at found
    cases found
  · simp [startsAtom, kind, wordAtom?, isKeyword, keywords] at starts

section Looser

variable {whole : Expr}

theorem reads_conditional (first : Reads (fun f => expression ctx f .disjunction) ts e rest)
    (stops : Stops .conditional (front rest)) :
    Reads (fun f => expression ctx f .conditional) ts e rest := by
  refine .succ ?_
  filter_upwards [first] with f read
  rw [expression, run_atWord, isWord_lambda_eq_false first, if_neg (by simp)]
  dsimp only
  rw [run_bind read, run_bind (eatWord_absent (stops.isWord_eq_false rfl (by decide)))]
  rfl

theorem reads_negation (first : Reads (fun f => expression ctx f .comparison) ts e rest) :
    Reads (fun f => expression ctx f .negation) ts e rest := by
  have unmarked : isWord (front ts) "not" = false := isWord_prefix_eq_false first rfl (by decide)
  refine .succ ?_
  filter_upwards [first] with f read
  rw [expression, run_bind (eatWord_absent unmarked)]
  exact read

theorem reads_comparisonLinks (stops : Stops .comparison (front ts)) :
    Reads (comparisonLinks ctx) ts [] ts := by
  refine .succ (.of_forall fun f => ?_)
  rw [comparisonLinks, run_bind (show (get : Parser _) ts = .ok (ts, ts) from rfl)]
  simp only [stops.comparisonAt_eq_none]
  rfl

theorem reads_comparison (first : Reads (fun f => expression ctx f .sum) ts e rest)
    (stops : Stops .comparison (front rest)) :
    Reads (fun f => expression ctx f .comparison) ts e rest := by
  refine .succ ?_
  filter_upwards [first, reads_comparisonLinks stops] with f read links
  rw [expression, run_bind read, run_bind links]
  rfl

theorem reads_sign (first : Reads (fun f => expression ctx f .power) ts e rest) :
    Reads (fun f => expression ctx f .sign) ts e rest := by
  have unsigned : isOp (front ts) "-" = false := isOp_prefix_eq_false first rfl (by decide)
  have unsigned' : isOp (front ts) "+" = false := isOp_prefix_eq_false first rfl (by decide)
  refine .succ ?_
  filter_upwards [first] with f read
  rw [expression, run_bind (eatOp_absent unsigned), if_neg (by simp),
    run_bind (eatOp_absent unsigned'), if_neg (by simp)]
  exact read

theorem reads_power (first : Reads (fun f => expression ctx f .trailer) ts e rest)
    (stops : Stops .power (front rest)) :
    Reads (fun f => expression ctx f .power) ts e rest := by
  refine .succ ?_
  filter_upwards [first] with f read
  rw [expression, run_bind read,
    run_bind (eatOp_absent (stops.isOp_eq_false rfl (by decide))), if_neg (by simp)]
  rfl

theorem reads_trailer (first : Reads (fun f => expression ctx f .atom) ts e mid)
    (more : Reads (fun f => trailers ctx f e) mid whole rest) :
    Reads (fun f => expression ctx f .trailer) ts whole rest := by
  refine .succ ?_
  filter_upwards [first, more] with f read onward
  rw [expression, run_bind read]
  exact onward

theorem reads_groups (grouped : Simulation.groups level = true)
    (first : Reads (fun f => expression ctx f level.tighter) ts e mid)
    (more : Reads (fun f => operands ctx f level e) mid whole rest) :
    Reads (fun f => expression ctx f level) ts whole rest := by
  refine .succ ?_
  filter_upwards [first, more] with f read onward
  rw [Simulation.expression_of_groups grouped, run_bind read]
  exact onward

end Looser

/-- What a level reads leads the next looser one. -/
theorem ReadsAs.looser (h : ReadsAs level.tighter kinds e) (looser : level ≠ .atom) :
    Leads level kinds e := by
  intro ctx ts mid rest whole spells stops more
  have first (inner : level.tighter.rank ≤ level.inner.rank) :
      Reads (fun f => expression ctx f level.tighter) ts e mid :=
    h ctx ts mid spells (stops.mono inner)
  cases level with
  | atom => contradiction
  | trailer => exact reads_trailer (first (by decide)) more
  | disjunction | conjunction | sum | product => exact reads_groups rfl (first (by decide)) more
  | conditional =>
    obtain ⟨rfl, rfl⟩ := more.unique (.of_eq fun _ => rfl)
    exact reads_conditional (first (by decide)) stops
  | negation =>
    obtain ⟨rfl, rfl⟩ := more.unique (.of_eq fun _ => rfl)
    exact reads_negation (first (by decide))
  | comparison =>
    obtain ⟨rfl, rfl⟩ := more.unique (.of_eq fun _ => rfl)
    exact reads_comparison (first (by decide)) stops
  | sign =>
    obtain ⟨rfl, rfl⟩ := more.unique (.of_eq fun _ => rfl)
    exact reads_sign (first (by decide))
  | power =>
    obtain ⟨rfl, rfl⟩ := more.unique (.of_eq fun _ => rfl)
    exact reads_power (first (by decide)) stops

theorem rank_tighter {level : Level} (looser : level ≠ .atom) :
    level.tighter.rank + 1 = level.rank := by
  cases level <;> first | rfl | contradiction

theorem eq_of_rank {level level' : Level} (same : level.rank = level'.rank) : level = level' := by
  cases level <;> cases level' <;> first | rfl | cases same

/-- What leads a level leads every looser one. -/
theorem Leads.mono {level' : Level} (h : Leads level kinds e) (le : level.rank ≤ level'.rank) :
    Leads level' kinds e := by
  obtain ⟨n, more⟩ := Nat.exists_eq_add_of_le le
  induction n generalizing level' with
  | zero => rwa [← eq_of_rank (show level.rank = level'.rank by omega)]
  | succ n ih =>
    have looser : level' ≠ .atom := by
      rintro rfl
      have tightest : Level.atom.rank ≤ level.rank := by cases level <;> decide
      omega
    have next := rank_tighter looser
    have leads : Leads level'.tighter kinds e := ih (by omega) (by omega)
    exact leads.reads.looser looser

end Console.Parse
