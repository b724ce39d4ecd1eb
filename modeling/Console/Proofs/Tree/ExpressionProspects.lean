import Console.Proofs.Tree.Prospects

/-!
# Prospects of expressions

An expression that is cut off at any point is rejected for good, is over, or is completed by a name,
the signs that close its brackets, and what a conditional, a pair or a keyword lacks. The words `not` and
`is` and the name of an argument do not tell alone what they begin; the next token does.
-/

namespace Console.Parse

open Token Filter

variable {A A' : List Token} {loop function : Bool} {σ : List Bracket}

/-- What becomes of every reading of an expression. -/
structure Prospects (loop function : Bool) (A : List Token) : Prop where
  expression : ∀ σ level, Prospect σ σ (Stops level)
    (fun t f => expression ⟨t, loop, function⟩ f level) A
  operands : ∀ σ level left, Prospect σ σ (Stops level)
    (fun t f => operands ⟨t, loop, function⟩ f level left) A
  comparisonLinks : ∀ σ, Prospect σ σ (Stops .comparison)
    (fun t f => comparisonLinks ⟨t, loop, function⟩ f) A
  trailers : ∀ σ value, Prospect σ σ (Stops .trailer)
    (fun t f => trailers ⟨t, loop, function⟩ f value) A
  arguments : ∀ σ args keywords, Prospect σ σ (isOp · ")")
    (fun t f => arguments ⟨t, loop, function⟩ f args keywords) A
  sequence : ∀ σ level, Prospect σ σ (fun x => Stops level x ∧ isOp x "," = false)
    (fun t f => sequence ⟨t, loop, function⟩ f level) A
  sequenceRest : ∀ σ level, Prospect σ σ (fun x => Stops level x ∧ isOp x "," = false)
    (fun t f => sequenceRest ⟨t, loop, function⟩ f level) A
  listItems : ∀ σ, Prospect σ σ (isOp · "]") (fun t f => listItems ⟨t, loop, function⟩ f) A
  dictEntries : ∀ σ, Prospect σ σ (isOp · "\x7d")
    (fun t f => dictEntries ⟨t, loop, function⟩ f) A
  atom : ∀ σ, Prospect σ σ (fun _ => True) (fun t f => atom ⟨t, loop, function⟩ f) A

/-- What becomes of every reading of an expression that starts further on. -/
def Later (loop function : Bool) (A : List Token) : Prop :=
  (∀ x ∈ A, isEnd x = false) ∧
    ∀ A', A' <:+ A → A'.length < A.length → Prospects loop function A'

theorem Later.of_suffix (h : Later loop function A) (suffix : A' <:+ A) :
    Later loop function A' :=
  ⟨fun x mem => h.1 x (suffix.mem mem), fun A'' suffix' shorter =>
    h.2 A'' (suffix'.trans suffix) (Nat.lt_of_lt_of_le shorter suffix.length_le)⟩

theorem reads_filler (level : Level) : ReadsAs level (Kinds.word "x") (.name "x") :=
  ((leads_word rfl).mono (by cases level <;> decide)).reads

theorem Later.at {a : Token} (h : Later loop function (a :: A)) (suffix : A' <:+ A) :
    Prospects loop function A' :=
  h.2 A' (suffix.trans (List.suffix_cons a A)) (Nat.lt_succ_of_le suffix.length_le)

theorem Later.next {a : Token} (h : Later loop function (a :: A)) :
    Prospects loop function A :=
  h.at (List.suffix_refl A)

theorem rank_tighter_le (level : Level) : level.tighter.rank ≤ level.rank := by
  cases level <;> decide

namespace Prospects

open Outlook

/-- Operands, trailers and links may end where the tighter level has ended. -/
theorem finishes_operands {α : Type} (level : Level) (left : α → Expr) :
    Finishes σ σ (Stops level.tighter) (Stops level)
      (fun v t f => Parse.operands ⟨t, loop, function⟩ f level (left v)) :=
  .nothing (fun _ stops => stops.mono (rank_tighter_le level)) fun _ _ _ stops =>
    .of_reads (reads_operands stops)

theorem nest_joiner {level : Level} {a : Token} {join : Expr → Expr → Expr}
    (joins : level.joiner? a.kind = some join) : nestWord? σ a.kind = some σ := by
  unfold Level.joiner? at joins
  split at joins
  case h_9 => cases joins
  all_goals exact nest_of_same ‹_›

theorem finishes_expression {α : Type} (level : Level) :
    Finishes σ σ (fun x => x.kind = .name "x") (Stops level)
      (fun (_ : α) t f => Parse.expression ⟨t, loop, function⟩ f level) :=
  .one (by decide) rfl fun _ _ _ _ spells stops =>
    .of_reads (reads_filler level _ _ _ spells stops)

section

variable (later : Later loop function A)
include later

theorem prospect_operands (level : Level) (left : Expr) :
    Prospect σ σ (Stops level)
      (fun t f => Parse.operands ⟨t, loop, function⟩ f level left) A := by
  cases A with
  | nil =>
    refine .completed [] (by simp) rfl ?_
    rintro t ts _ rfl stops
    exact .of_reads (reads_operands stops)
  | cons a A =>
    refine .unfold (fun t f => by rw [Parse.operands]) (.current ?_)
    cases joins : level.joiner? a.kind with
    | none => exact .pure left
    | some join =>
      refine .advance (nest_joiner joins) (.bind (later.next.expression σ _) ?_
        (finishes_operands level (join left)))
      intro right b left' suffix
      exact (later.at suffix).operands σ level _

end

/-! ## Comparisons -/

/-- The kinds of tokens that a comparison is written with open no bracket and close none. -/
theorem nest_comparison (σ : List Bracket) {a : Token} {B : List Token} {op : Comparison} {width : Nat}
    (written : comparisonAt? (a :: B) = some (op, width)) :
    nestWord? σ a.kind = some σ ∧
      (width = 1 ∨ width = 2 ∧ ∃ b B', B = b :: B' ∧ nestWord? σ b.kind = some σ) := by
  have word {b : Token} {text : String} (is : isWord b text = true) : nestWord? σ b.kind = some σ :=
    nest_of_same (kind_of_isWord is)
  have second {text : String} (is : isWord (front B) text = true) :
      ∃ b B', B = b :: B' ∧ nestWord? σ b.kind = some σ := by
    cases B with
    | nil => cases is
    | cons b B => exact ⟨b, B, rfl, word is⟩
  unfold comparisonAt? at written
  rw [show front (a :: B) = a from rfl, List.tail_cons] at written
  split at written
  case h_8 kind =>
    split at written
    · rename_i follows
      cases written
      exact ⟨nest_of_same kind, .inr ⟨rfl, second follows⟩⟩
    · cases written
  case h_9 kind =>
    split at written
    · rename_i follows
      cases written
      exact ⟨nest_of_same kind, .inr ⟨rfl, second follows⟩⟩
    · cases written
      exact ⟨nest_of_same kind, .inl rfl⟩
  case h_10 => cases written
  all_goals
    rename_i kind
    cases written
    exact ⟨nest_of_same kind, .inl rfl⟩

theorem reads_link {ctx : Context} {ts mid rest : List Token} {op : Comparison} {width : Nat}
    {e : Expr} {links : List (Comparison × Expr)} (written : comparisonAt? ts = some (op, width))
    (item : Reads (fun f => Parse.expression ctx f .sum) (ts.drop width) e mid)
    (more : Reads (Parse.comparisonLinks ctx) mid links rest) :
    Reads (Parse.comparisonLinks ctx) ts ((op, e) :: links) rest := by
  refine .succ ?_
  filter_upwards [item, more] with f read further
  rw [Parse.comparisonLinks, run_bind (show (get : Parser _) ts = .ok (ts, ts) from rfl), written]
  dsimp only
  rw [run_bind (show (modify (·.drop width) : Parser _) ts = .ok ((), ts.drop width) from rfl),
    run_bind read, run_bind further]
  rfl

section

variable {a : Token} (later : Later loop function (a :: A))
include later

/-- What follows a comparison operator. -/
theorem prospect_link (op : Comparison) (suffix : A' <:+ A) :
    Prospect σ σ (Stops .comparison)
      (fun t f => Parse.expression ⟨t, loop, function⟩ f .sum >>= fun right =>
        Parse.comparisonLinks ⟨t, loop, function⟩ f >>= fun links =>
          pure ((op, right) :: links)) A' := by
  have finishes {α : Type} (right : α → Expr) :
      Finishes σ σ (Stops .sum) (Stops .comparison)
        (fun v t f => Parse.comparisonLinks ⟨t, loop, function⟩ f >>= fun links =>
          pure ((op, right v) :: links)) :=
    .nothing (fun _ stops => stops.mono (by decide)) fun _ _ _ stops =>
      .of_reads ((reads_comparisonLinks stops).map fun links => (op, _) :: links)
  refine .bind ((later.at suffix).expression σ .sum) (fun right b left suffix' => ?_) (finishes id)
  exact .bind ((later.at (suffix'.trans suffix)).comparisonLinks σ)
    (fun links c left _ => .pure _) (.pure _ fun _ stops => stops)

/-- Links whose operator does not depend on what follows. -/
theorem prospect_seenLinks
    (seen : ∀ D, comparisonAt? (a :: A ++ D) = comparisonAt? (a :: A)) :
    Prospect σ σ (Stops .comparison)
      (fun t f => Parse.comparisonLinks ⟨t, loop, function⟩ f) (a :: A) := by
  refine .unfold (fun t f => by rw [Parse.comparisonLinks]) ?_
  cases written : comparisonAt? (a :: A) with
  | none => exact .get (fun t f D => by rw [seen, written]) (.pure [])
  | some found =>
    obtain ⟨op, width⟩ := found
    refine .get (fun t f D => by rw [seen, written]) ?_
    obtain ⟨first, rfl | ⟨rfl, b, B, rfl, second⟩⟩ := nest_comparison σ written
    · exact .behind (X := [a]) (fun _ _ => .of_forall fun _ => rfl) ((nesting_one _).trans first)
        (prospect_link later op (List.suffix_refl A))
    · have words : nesting? σ ([a.kind] ++ [b.kind]) = some σ :=
        nesting_append ((nesting_one _).trans first) ((nesting_one _).trans second)
      exact .behind (X := [a, b]) (fun _ _ => .of_forall fun _ => rfl) words
        (prospect_link later op (List.suffix_cons b B))

end

theorem prospect_comparisonLinks (later : Later loop function A) :
    Prospect σ σ (Stops .comparison)
      (fun t f => Parse.comparisonLinks ⟨t, loop, function⟩ f) A := by
  cases A with
  | nil =>
    refine .completed [] (by simp) rfl ?_
    rintro t ts _ rfl stops
    exact .of_reads (reads_comparisonLinks stops)
  | cons a A =>
    cases A with
    | cons b A => exact prospect_seenLinks later fun D => rfl
    | nil =>
      -- The words `not` and `is` alone do not tell which operator they begin.
      have filled (C : List TokenKind) (op : Comparison) (width : Nat)
          (written : ∀ ts rest, Spells (C ++ Kinds.word "x") ts rest →
            comparisonAt? (a :: ts) = some (op, width) ∧
              Spells (Kinds.word "x") ((a :: ts).drop width) rest) (t : Bool) (ts rest : List Token)
          (spells : Spells (C ++ Kinds.word "x") ts rest) (stops : Stops .comparison (front rest)) :
          Completes (Parse.comparisonLinks ⟨t, loop, function⟩) ([a] ++ ts) rest := by
        obtain ⟨found, filler⟩ := written ts rest spells
        exact .of_reads (reads_link found
          (reads_filler .sum _ _ _ filler (stops.mono (by decide))) (reads_comparisonLinks stops))
      by_cases not : a.kind = .name "not"
      · refine .completed [.name "in", .name "x"] (by decide) ?_
          (filled [.name "in"] .notIn 2 ?_)
        · rw [List.map_singleton, not]
          rfl
        · rintro _ rest ⟨b, _, rfl, kind, filler⟩
          exact ⟨by simp [comparisonAt?, front, not, isWord_of_kind kind], filler⟩
      by_cases is : a.kind = .name "is"
      · refine .completed [.name "x"] (by decide) ?_
          (filled [] .is 1 ?_)
        · rw [List.map_singleton, is]
          rfl
        · rintro _ rest ⟨b, _, rfl, kind, rfl⟩
          exact ⟨by simp [comparisonAt?, front, is, isWord_of_kind kind], b, _, rfl, kind, rfl⟩
      · refine prospect_seenLinks later fun D => ?_
        unfold comparisonAt?
        simp only [front, List.cons_append, List.head?_cons, Option.getD_some]
        split <;> simp_all

/-! ## Atoms and trailers -/

/-- What is read up to a bracket that closes it. -/
theorem bracketed {α β : Type} {aimed lenient : Prop} {goal : β → Prop} {b : Bracket}
    {follow follow' : Token → Prop} {symbol : String} {inner : Bool → Nat → Parser α}
    {k : α → Bool → Nat → Parser β}
    (first : Prospect (b :: σ) (b :: σ) follow inner A) (inside : ∀ x ∈ A, isEnd x = false)
    (closing : isSpare (.op symbol) = true ∧ nestWord? (b :: σ) (.op symbol) = some σ)
    (follows : ∀ x : Token, x.kind = .op symbol → follow x)
    (next : ∀ v left, left <:+ A → Outlook aimed lenient goal σ σ follow' (k v) left)
    (finishes : Secures goal σ σ (fun _ => True) follow' k) :
    Outlook aimed lenient goal (b :: σ) σ follow'
      (fun t f => inner t f >>= fun v =>
        Parse.expectOp ⟨t, loop, function⟩ symbol >>= fun _ => k v t f) A := by
  refine .bind first (fun v a left suffix => ?_)
    (((Secures.expectOp closing.1 closing.2).bind (finishes.comp Prod.fst)).mono follows)
  exact .bind (.expectOp (fun x mem => inside x (suffix.mem mem)) closing.1 closing.2)
    (fun _ b rest suffix' => next v (b :: rest) (suffix'.trans suffix)) (finishes.comp fun _ => v)

theorem prospect_trailers (later : Later loop function A) (value : Expr) :
    Prospect σ σ (Stops .trailer)
      (fun t f => Parse.trailers ⟨t, loop, function⟩ f value) A := by
  cases A with
  | nil =>
    refine .completed [] (by simp) rfl ?_
    rintro t ts _ rfl stops
    exact .of_reads (reads_trailers stops)
  | cons a A =>
    have inside : ∀ x ∈ A, isEnd x = false := fun x mem => later.1 x (by simp [mem])
    have again {α : Type} (value : α → Expr) : Finishes σ σ (fun _ => True) (Stops .trailer)
        (fun v t f => Parse.trailers ⟨t, loop, function⟩ f (value v)) :=
      .nothing (fun _ _ => trivial) fun _ _ _ stops => .of_reads (reads_trailers stops)
    refine .unfold (fun t f => by rw [Parse.trailers]) (.eatOp rfl (fun _ => ?call) fun _ =>
      .eatOp rfl (fun _ => ?subscript) fun _ => .eatOp rfl (fun _ => ?member) fun _ => .pure value)
    case call =>
      exact bracketed (later.next.arguments (.round :: σ) [] []) inside ⟨by decide, rfl⟩
        (fun x kind => by simp [isOp, kind]) (fun v left suffix => (later.at suffix).trailers σ _)
        (again _)
    case subscript =>
      have closing : nestWord? (.square :: σ) (.op "]") = some σ := rfl
      refine .bind (later.next.sequence (.square :: σ) .conditional) (fun index b left suffix => ?_)
        ((((Secures.expectOp (by decide) closing).bind (again _)).atOp ?_).mono ?_)
      · have inside : ∀ x ∈ b :: left, isEnd x = false := fun x mem => inside x (suffix.mem mem)
        exact .atOp (fun _ => .fail_bind rfl _) fun _ =>
          .bind (.expectOp inside (by decide) closing)
            (fun _ c rest suffix' => (later.at (suffix'.trans suffix)).trailers σ _) (again _)
      · intro x kind
        simp [isOp, kind]
      · exact fun x kind => ⟨.of_kind kind rfl, by simp [isOp, kind]⟩
    case member =>
      exact .bind (.identifier inside) (fun name b left suffix => (later.at suffix).trailers σ _)
        (again _)

theorem prospect_atom (later : Later loop function A) :
    Prospect σ σ (fun _ => True) (fun t f => Parse.atom ⟨t, loop, function⟩ f) A := by
  cases A with
  | nil =>
    refine .completed [.name "x"] (by decide) rfl ?_
    rintro t _ rest ⟨x, _, rfl, kind, rfl⟩ _
    refine .succ (.of_eq (v := .name "x") fun f => ?_)
    rw [Parse.atom, run_current]
    simp only [List.nil_append, front, List.head?_cons, Option.getD_some, kind]
    rfl
  | cons a A =>
    have inside : ∀ x ∈ A, isEnd x = false := fun x mem => later.1 x (by simp [mem])
    have one (word : nestWord? σ a.kind = some σ) (e : Expr) :
        Prospect σ σ (fun _ => True) (fun _ _ => do advance; return e) (a :: A) :=
      .advance word (.pure e)
    have unexpected := later.1 a (by simp)
    refine .unfold (fun t f => by rw [Parse.atom]) (.current ?_)
    split
    case h_1 n kind => exact one (nest_of_same kind) _
    case h_2 x kind => exact one (nest_of_same kind) _
    case h_3 s kind => exact one (nest_of_same kind) _
    case h_4 word kind =>
      split
      · exact one (nest_of_same kind) _
      · exact .unexpected unexpected
    case h_5 kind =>
      have closing : nestWord? (.round :: σ) (.op ")") = some σ := rfl
      refine .advance (nest_of_same kind) ?_
      cases A with
      | nil =>
        refine .completed [.op ")"] (by decide) ((nesting_one _).trans closing) ?_
        exact fun t ts rest spells _ => .of_eq fun f => run_bind (eatOp_of_spells spells)
      | cons b A =>
        refine .eatOp closing (fun _ => .pure _) fun _ => ?_
        exact bracketed (later.next.sequence (.round :: σ) .conditional) inside ⟨by decide, closing⟩
          (fun x kind => ⟨.of_kind kind rfl, by simp [isOp, kind]⟩) (fun v _ _ => .pure v)
          (.pure _ fun _ ok => ok)
    case h_6 kind =>
      refine .advance (nest_of_same kind) ?_
      exact bracketed (later.next.listItems (.square :: σ)) inside ⟨by decide, rfl⟩
        (fun x kind => by simp [isOp, kind]) (fun items _ _ => .pure _) (.pure _ fun _ ok => ok)
    case h_7 kind =>
      refine .advance (nest_of_same kind) ?_
      exact bracketed (later.next.dictEntries (.curly :: σ)) inside ⟨by decide, rfl⟩
        (fun x kind => by simp [isOp, kind]) (fun entries _ _ => .pure _) (.pure _ fun _ ok => ok)
    case h_8 => exact .unexpected unexpected

/-! ## Levels -/

/-- Further operands may come behind the first, at a level that groups to the left. -/
theorem prospect_grouped (later : Later loop function A) (level : Level)
    (grouped : Simulation.groups level = true)
    (first : Prospect σ σ (Stops level.tighter)
      (fun t f => Parse.expression ⟨t, loop, function⟩ f level.tighter) A) :
    Prospect σ σ (Stops level)
      (fun t f => Parse.expression ⟨t, loop, function⟩ f level) A := by
  refine .unfold (fun t f => Simulation.expression_of_groups grouped _ f) ?_
  exact .bind first (fun left a rest suffix => prospect_operands (later.of_suffix suffix) level left)
    (finishes_operands level id)

/-- No token goes on with a signed operand that does not go on with a power. -/
theorem stops_sign {x : Token} (stops : Stops .power x) : Stops .sign x := by
  intro l goes
  have beyond := stops l goes
  have other : l ≠ .sign := by
    rintro rfl
    unfold continues? at goes
    split at goes <;> cases goes
  cases l <;> first | contradiction | decide

/-- The test and the other branch of a conditional expression. -/
theorem prospect_branches {a : Token} (later : Later loop function (a :: A)) (body : Expr) :
    Prospect σ σ (Stops .conditional)
      (fun t f => Parse.expression ⟨t, loop, function⟩ f .disjunction >>= fun test =>
        Parse.expectWord ⟨t, loop, function⟩ "else" >>= fun _ =>
          Parse.expression ⟨t, loop, function⟩ f .conditional >>= fun orelse =>
            pure (Expr.choose test body orelse)) A := by
  have last {α : Type} (test : α → Expr) : Finishes σ σ (fun _ => True) (Stops .conditional)
      (fun v t f => Parse.expression ⟨t, loop, function⟩ f .conditional >>= fun orelse =>
        pure (Expr.choose (test v) body orelse)) :=
    ((finishes_expression .conditional).bind (.pure _ fun _ stops => stops)).mono fun _ _ => trivial
  refine .bind (later.next.expression σ .disjunction) (fun test b rest suffix => ?_)
    (((Secures.expectWord (by decide)).bind (last Prod.fst)).mono fun x kind => .of_kind kind rfl)
  have inside : ∀ x ∈ b :: rest, isEnd x = false := fun x mem => later.1 x (by simp [suffix.mem mem])
  refine .bind (.expectWord inside (by decide)) (fun _ c rest' suffix' => ?_) (last fun _ => test)
  exact .bind ((later.at (suffix'.trans suffix)).expression σ .conditional) (fun _ _ _ _ => .pure _)
    (.pure _ fun _ stops => stops)

section Levels

variable {a : Token}

theorem prospect_trailer (later : Later loop function (a :: A))
    (tighter : Prospect σ σ (Stops .atom)
      (fun t f => Parse.expression ⟨t, loop, function⟩ f .atom) (a :: A)) :
    Prospect σ σ (Stops .trailer)
      (fun t f => Parse.expression ⟨t, loop, function⟩ f .trailer) (a :: A) := by
  refine .unfold (fun t f => by rw [Parse.expression]) (.bind tighter ?_ ?_)
  · exact fun value b rest suffix => prospect_trailers (later.of_suffix suffix) value
  · exact .nothing (fun _ stops => stops.mono (by decide)) fun _ _ _ stops =>
      .of_reads (reads_trailers stops)

theorem prospect_power (later : Later loop function (a :: A))
    (tighter : Prospect σ σ (Stops .trailer)
      (fun t f => Parse.expression ⟨t, loop, function⟩ f .trailer) (a :: A)) :
    Prospect σ σ (Stops .power)
      (fun t f => Parse.expression ⟨t, loop, function⟩ f .power) (a :: A) := by
  refine .unfold (fun t f => by rw [Parse.expression]) (.bind tighter ?_ ?_)
  · intro base b rest suffix
    refine .eatOp rfl (fun _ => ?_) fun _ => .pure base
    exact .bind ((later.of_suffix suffix).next.expression σ .sign) (fun _ _ _ _ => .pure _)
      (.pure _ fun _ => stops_sign)
  · refine ((Secures.pure id fun _ stops => stops).eatOp ?_).mono ?_
    · exact fun x (stops : Stops .power x) => stops.isOp_eq_false rfl (by decide)
    · exact fun x stops => stops.mono (by decide)

theorem prospect_sign (later : Later loop function (a :: A))
    (tighter : Prospect σ σ (Stops .power)
      (fun t f => Parse.expression ⟨t, loop, function⟩ f .power) (a :: A)) :
    Prospect σ σ (Stops .sign)
      (fun t f => Parse.expression ⟨t, loop, function⟩ f .sign) (a :: A) := by
  have signed (make : Expr → Expr) : Prospect σ σ (Stops .sign)
      (fun t f => do return make (← Parse.expression ⟨t, loop, function⟩ f .sign)) A :=
    .bind (later.next.expression σ .sign) (fun _ _ _ _ => .pure _) (.pure _ fun _ stops => stops)
  refine .unfold (fun t f => by rw [Parse.expression]) ?_
  exact .eatOp rfl (fun _ => signed _) fun _ => .eatOp rfl (fun _ => signed _) fun _ =>
    tighter.mono fun _ stops => stops.mono (by decide)

theorem prospect_comparison (later : Later loop function (a :: A))
    (tighter : Prospect σ σ (Stops .sum)
      (fun t f => Parse.expression ⟨t, loop, function⟩ f .sum) (a :: A)) :
    Prospect σ σ (Stops .comparison)
      (fun t f => Parse.expression ⟨t, loop, function⟩ f .comparison) (a :: A) := by
  refine .unfold (fun t f => by rw [Parse.expression])
    (.bind tighter (fun left b rest suffix => ?_) ?_)
  · exact .bind (prospect_comparisonLinks (later.of_suffix suffix))
      (fun links c rest _ => by cases links <;> exact .pure _) (.nothing (fun _ stops => stops)
        fun links _ _ _ => by cases links <;> exact .of_eq fun _ => rfl)
  · refine .nothing (fun _ stops => stops.mono (by decide)) fun left t ts stops => ?_
    exact .of_reads (v := left) (by
      filter_upwards [reads_comparisonLinks stops] with f links
      rw [run_bind links]
      rfl)

theorem prospect_negation (later : Later loop function (a :: A))
    (tighter : Prospect σ σ (Stops .comparison)
      (fun t f => Parse.expression ⟨t, loop, function⟩ f .comparison) (a :: A)) :
    Prospect σ σ (Stops .negation)
      (fun t f => Parse.expression ⟨t, loop, function⟩ f .negation) (a :: A) := by
  refine .unfold (fun t f => by rw [Parse.expression]) (.eatWord (fun _ => ?_) fun _ => ?_)
  · exact .bind (later.next.expression σ .negation) (fun _ _ _ _ => .pure _)
      (.pure _ fun _ stops => stops)
  · exact tighter.mono fun _ stops => stops.mono (by decide)

theorem prospect_conditional (later : Later loop function (a :: A))
    (tighter : Prospect σ σ (Stops .disjunction)
      (fun t f => Parse.expression ⟨t, loop, function⟩ f .disjunction) (a :: A)) :
    Prospect σ σ (Stops .conditional)
      (fun t f => Parse.expression ⟨t, loop, function⟩ f .conditional) (a :: A) := by
  refine .unfold (fun t f => by rw [Parse.expression]) (.atWord (fun _ => .fail_bind rfl _)
    fun _ => .bind tighter (fun body b rest suffix => ?_) ?_)
  · refine .eatWord (fun _ => ?_) fun _ => .pure body
    exact prospect_branches (later.of_suffix suffix) body
  · refine ((Secures.pure id fun _ stops => stops).eatWord ?_).mono ?_
    · exact fun x (stops : Stops .conditional x) => stops.isWord_eq_false rfl (by decide)
    · exact fun x stops => stops.mono (by decide)

end Levels

/-- An expression at any level: each level is built on the next tighter one. -/
theorem prospect_expression (later : Later loop function A) (level : Level) :
    Prospect σ σ (Stops level)
      (fun t f => Parse.expression ⟨t, loop, function⟩ f level) A := by
  cases A with
  | nil =>
    refine .completed [.name "x"] (by decide) rfl fun t ts rest spells stops => ?_
    exact .of_reads (reads_filler level _ _ _ spells stops)
  | cons a A =>
    have atom : Prospect σ σ (Stops .atom)
        (fun t f => Parse.expression ⟨t, loop, function⟩ f .atom) (a :: A) :=
      .unfold (fun t f => by rw [Parse.expression]) ((prospect_atom later).mono fun _ _ => trivial)
    have trailer := prospect_trailer later atom
    have power := prospect_power later trailer
    have sign := prospect_sign later power
    have product := prospect_grouped later .product rfl sign
    have sum := prospect_grouped later .sum rfl product
    have comparison := prospect_comparison later sum
    have negation := prospect_negation later comparison
    have conjunction := prospect_grouped later .conjunction rfl negation
    have disjunction := prospect_grouped later .disjunction rfl conjunction
    cases level with
    | conditional => exact prospect_conditional later disjunction
    | disjunction => exact disjunction
    | conjunction => exact conjunction
    | negation => exact negation
    | comparison => exact comparison
    | sum => exact sum
    | product => exact product
    | sign => exact sign
    | power => exact power
    | trailer => exact trailer
    | atom => exact atom

/-! ## Sequences and displays -/

/-- Behind a comma one more item may follow. -/
theorem reads_lastItem {level : Level} {t : Bool} {ts rest : List Token}
    (spells : Spells [.name "x"] ts rest) (stops : Stops level (front rest))
    (alone : isOp (front rest) "," = false) :
    Reads (fun f => do
      if startsExpression (← current) then
        let item ← Parse.expression ⟨t, loop, function⟩ f level
        return item :: (← Parse.sequenceRest ⟨t, loop, function⟩ f level)
      else return []) ts [.name "x"] rest := by
  filter_upwards [reads_filler level ⟨t, loop, function⟩ ts rest spells stops,
    (show Reads (fun f => Parse.sequenceRest ⟨t, loop, function⟩ f level) rest [] rest from
      reads_sequenceRest_end alone)] with f item onward
  rw [run_current, startsExpression_of_ok item, if_pos rfl, run_bind item, run_bind onward]
  rfl

/-- The follow of a sequence: it ends where its items end and no comma stands. -/
theorem prospect_sequenceRest (later : Later loop function A) (level : Level) :
    Prospect σ σ (fun x => Stops level x ∧ isOp x "," = false)
      (fun t f => Parse.sequenceRest ⟨t, loop, function⟩ f level) A := by
  cases A with
  | nil =>
    refine .completed [] (by simp) rfl ?_
    rintro t ts _ rfl ⟨-, alone⟩
    exact .of_reads (reads_sequenceRest_end alone)
  | cons a A =>
    refine .unfold (fun t f => by rw [Parse.sequenceRest]) (.eatOp rfl (fun separates => ?_)
      fun _ => .pure [])
    cases A with
    | nil =>
      refine .completed [.name "x"] (by decide) rfl ?_
      rintro t ts rest spells ⟨stops, alone⟩
      exact .of_reads (reads_lastItem spells stops alone)
    | cons b A =>
      refine .current ?_
      by_cases starts : startsExpression b = true
      · simp only [starts, if_true]
        refine .bind (later.next.expression σ level) (fun item c rest suffix => ?_) ?_
        · exact .bind ((later.at suffix).sequenceRest σ level) (fun _ _ _ _ => .pure _)
            (.pure _ fun _ ok => ok)
        · exact .nothing (fun _ ok => ok.1) fun item _ _ ok =>
            .of_reads ((reads_sequenceRest_end ok.2).map fun items => item :: items)
      · simp only [starts]
        exact .pure []

theorem prospect_sequence (later : Later loop function A) (level : Level) :
    Prospect σ σ (fun x => Stops level x ∧ isOp x "," = false)
      (fun t f => Parse.sequence ⟨t, loop, function⟩ f level) A := by
  refine .unfold (fun t f => by rw [Parse.sequence])
    (.bind (prospect_expression later level) (fun first a rest suffix => ?_) ?_)
  · refine .atOp (fun _ => ?_) fun _ => .pure first
    exact .bind (prospect_sequenceRest (later.of_suffix suffix) level) (fun _ _ _ _ => .pure _)
      (.pure _ fun _ ok => ok)
  · exact ((Secures.pure id fun _ ok => ok).atOp fun x ok => ok.2).mono fun x ok => ok.1

/-- Items behind commas up to a closing bracket, of which the last may be left out. -/
theorem prospect_items {α : Type} {symbol : String} {item : Bool → Nat → Parser α}
    {loop : Bool → Nat → Parser (List α)} {follow : Token → Prop}
    (unfolded : ∀ t f, loop t (f + 1) =
      (Parse.atOp symbol >>= fun b => if b = true then pure [] else item t f >>= fun first =>
        Parse.eatOp "," >>= fun b =>
          if b = true then loop t f >>= fun others => pure (first :: others) else pure [first]))
    (first : Prospect σ σ follow item A) (follows : ∀ x, isOp x symbol = true → follow x)
    (other : symbol ≠ ",")
    (again : ∀ a rest, a :: rest <:+ A → Prospect σ σ (isOp · symbol) loop rest) :
    Prospect σ σ (isOp · symbol) loop A := by
  cases A with
  | nil =>
    refine .completed [] (by simp) rfl ?_
    rintro t ts _ rfl ends
    refine .succ (.of_eq (v := []) fun f => ?_)
    rw [unfolded, List.nil_append, run_atOp, if_pos ends]
    rfl
  | cons a A =>
    refine .unfold unfolded (.atOp (fun _ => .pure []) fun _ => .bind first
      (fun value b rest suffix => ?_) ?_)
    · refine .eatOp rfl (fun _ => ?_) fun _ => .pure _
      exact .bind (again b rest suffix) (fun _ _ _ _ => .pure _) (.pure _ fun _ ok => ok)
    · refine ((Secures.pure (fun value => [value]) fun _ ok => ok).eatOp fun x ends => ?_).mono
        follows
      simp [isOp_of_kind (kind_of_isOp ends), other]

theorem prospect_listItems (later : Later loop function A) :
    Prospect σ σ (isOp · "]") (fun t f => Parse.listItems ⟨t, loop, function⟩ f) A :=
  prospect_items (fun t f => by rw [Parse.listItems]) (prospect_expression later .conditional)
    (fun x ends => .of_kind (kind_of_isOp ends) rfl) (by decide)
    fun a rest suffix => (later.of_suffix suffix).next.listItems σ

theorem prospect_entry (later : Later loop function A) :
    Prospect σ σ (Stops .conditional) (fun t f => entry ⟨t, loop, function⟩ f) A := by
  have value {α : Type} (key : α → Expr) :
      Finishes σ σ (fun x => x.kind = .name "x") (Stops .conditional)
        (fun v t f => Parse.expression ⟨t, loop, function⟩ f .conditional >>= fun value =>
          pure (key v, value)) :=
    (finishes_expression .conditional).bind (.pure _ fun _ stops => stops)
  have closing : nestWord? σ (.op ":") = some σ := rfl
  refine .bind (prospect_expression later .conditional) (fun key a rest suffix => ?_)
    (((Secures.expectOp (by decide) closing).bind ((value Prod.fst).mono fun _ _ => trivial)).mono
      fun x kind => .of_kind kind rfl)
  have later := later.of_suffix suffix
  refine .bind (.expectOp later.1 (by decide) closing) (fun _ b rest' suffix' => ?_)
    ((value fun _ => key).mono fun _ _ => trivial)
  exact .bind (prospect_expression (later.of_suffix suffix') .conditional) (fun _ _ _ _ => .pure _)
    (.pure _ fun _ stops => stops)

theorem prospect_dictEntries (later : Later loop function A) :
    Prospect σ σ (isOp · "\x7d") (fun t f => Parse.dictEntries ⟨t, loop, function⟩ f) A :=
  prospect_items (fun t f => by rw [Parse.dictEntries]; simp [entry]) (prospect_entry later)
    (fun x ends => .of_kind (kind_of_isOp ends) rfl) (by decide)
    fun a rest suffix => (later.of_suffix suffix).next.dictEntries σ

/-! ## Arguments -/

section

variable {args : List Expr} {keywords : List (String × Expr)}

/-- The value of an argument and what follows it. -/
theorem prospect_argument (later : Later loop function A)
    (make : Expr → List Expr × List (String × Expr)) :
    Prospect σ σ (isOp · ")")
      (fun t f => Parse.expression ⟨t, loop, function⟩ f .conditional >>= fun value =>
        argumentsRest ⟨t, loop, function⟩ f (make value).1 (make value).2) A := by
  refine .bind (prospect_expression later .conditional) (fun value a rest suffix => ?_) ?_
  · exact .eatOp rfl (fun _ => (later.of_suffix suffix).next.arguments σ _ _) fun _ => .pure _
  · refine ((Secures.pure (fun value => ((make value).1.reverse, (make value).2.reverse))
      fun _ ok => ok).eatOp fun x ends => ?_).mono fun x ends => .of_kind (kind_of_isOp ends) rfl
    simp [isOp_of_kind (kind_of_isOp ends)]

/-- An argument of which it is seen whether it has a name. -/
theorem prospect_seenArguments {a : Token} (later : Later loop function (a :: A))
    (seen : ∀ D, keywordAt? (a :: A ++ D) = keywordAt? (a :: A)) :
    Prospect σ σ (isOp · ")")
      (fun t f => Parse.arguments ⟨t, loop, function⟩ f args keywords) (a :: A) := by
  refine .unfold (fun t f => by rw [Parse.arguments]) (.atOp (fun _ => .pure _) fun _ => ?_)
  cases named : keywordAt? (a :: A) with
  | none =>
    refine .get (fun t f D => by rw [seen, named]) ?_
    dsimp only
    by_cases first : keywords.isEmpty = true
    · simp only [first, if_true]
      exact prospect_argument later fun value => (value :: args, keywords)
    · simp only [first]
      exact .fail_bind rfl _
  | some name =>
    obtain ⟨b, A, rfl, first, second⟩ : ∃ b B, A = b :: B ∧ nestWord? σ a.kind = some σ ∧
        nestWord? σ b.kind = some σ := by
      unfold keywordAt? at named
      split at named
      · rename_i word kind
        split at named
        · rename_i follows
          rw [Bool.and_eq_true, List.tail_cons] at follows
          cases A with
          | nil => cases follows.2
          | cons b A => exact ⟨b, A, rfl, nest_of_same kind, nest_of_same (kind_of_isOp follows.2)⟩
        · cases named
      · cases named
    refine .get (fun t f D => by rw [seen, named]) (.advance first (.advance second ?_))
    by_cases repeated : (keywords.any fun k => k.1 == name) = true
    · simp only [repeated, if_true]
      exact .fail_bind rfl _
    · simp only [repeated]
      exact prospect_argument (later.of_suffix (List.suffix_append [a, b] A)) fun value =>
        (args, (name, value) :: keywords)

/-- A name that a keyword argument has already is the name of a second one, or it is an argument of its
own, which may not come behind a keyword argument. -/
theorem run_arguments_repeated {a : Token} {word : String} (kind : a.kind = .name word)
    (free : isKeyword word = false) (nonempty : keywords.isEmpty = false)
    (repeated : (keywords.any fun k => k.1 == word) = true) (t : Bool) (f : Nat) (D : List Token) :
    Parse.arguments ⟨t, loop, function⟩ (f + 1) args keywords (a :: D) =
      if isOp (front D) "=" = true then
        .error (.of .repeatedKeyword (front ((a :: D).drop 2)).pos)
      else .error (.of .positionalAfterKeyword (front (a :: D)).pos) := by
  have named : keywordAt? (a :: D) = if isOp (front D) "=" then some word else none := by
    unfold keywordAt?
    rw [show front (a :: D) = a from rfl, kind, List.tail_cons]
    simp only [free, Bool.not_false, Bool.true_and]
  rw [Parse.arguments, run_atOp,
    show isOp (front (a :: D)) ")" = false by simp [front, isOp, kind], if_neg (by simp)]
  dsimp only
  rw [run_bind (show (MonadState.get : Parser _) (a :: D) = .ok (a :: D, a :: D) from rfl), named]
  by_cases equals : isOp (front D) "=" = true
  · rw [if_pos equals, if_pos equals]
    dsimp only
    rw [run_advance, run_advance, repeated, if_pos rfl, List.tail_cons, ← List.drop_one]
    rfl
  · rw [if_neg equals, if_neg equals]
    dsimp only
    rw [nonempty]
    rfl

/-- A name at the end may yet turn out to be that of a keyword argument. -/
theorem prospect_lastArgument {a : Token} {word : String} (kind : a.kind = .name word)
    (free : isKeyword word = false) :
    Prospect σ σ (isOp · ")")
      (fun t f => Parse.arguments ⟨t, loop, function⟩ f args keywords) [a] := by
  have last (args : List Expr) (keywords : List (String × Expr)) (t : Bool) {rest : List Token}
      (ends : isOp (front rest) ")" = true) :
      Reads (fun f => argumentsRest ⟨t, loop, function⟩ f args keywords) rest
        (args.reverse, keywords.reverse) rest :=
    reads_argumentsRest_end (by simp [isOp_of_kind (kind_of_isOp ends)])
  by_cases first : keywords = []
  · subst first
    refine .completed [] (by simp) (by rw [List.map_singleton, kind]; rfl) ?_
    rintro t ts _ rfl ends
    have closing := kind_of_isOp ends
    have alone : ReadsAs .conditional (Kinds.word word) (.name word) :=
      ((leads_word (wordAtom_of_free free)).mono (by decide)).reads
    refine .of_reads (reads_argument (alone _ _ ts ⟨a, ts, rfl, kind, rfl⟩ (.of_kind closing rfl))
      (by simp [isOp_of_kind closing]) (last _ _ t ends))
  by_cases fresh : ∀ k ∈ keywords, k.1 ≠ word
  · refine .completed [.op "=", .name "x"] (by decide)
      (by rw [List.map_singleton, kind]; rfl) ?_
    rintro t _ rest ⟨b, _, rfl, equals, filler⟩ ends
    exact .of_reads (reads_keyword ⟨a, _, rfl, kind, b, _, rfl, equals, rfl⟩ free fresh
      (reads_filler .conditional _ _ _ filler (.of_kind (kind_of_isOp ends) rfl)) (last _ _ t ends))
  · have repeated : (keywords.any fun k => k.1 == word) = true := by simpa using fresh
    have nonempty : keywords.isEmpty = false := by simpa using first
    refine .rejected fun t D => ?_
    have read (f : Nat) : Parse.arguments ⟨t, loop, function⟩ (f + 1) args keywords (a :: D) = _ :=
      run_arguments_repeated kind free nonempty repeated t f D
    by_cases equals : isOp (front D) "=" = true
    · exact ⟨.repeatedKeyword, 2, rfl, by simp, eventually_succ (.of_forall fun f =>
        (read f).trans (if_pos equals))⟩
    · exact ⟨.positionalAfterKeyword, 0, rfl, by simp, eventually_succ (.of_forall fun f =>
        (read f).trans (if_neg equals))⟩

theorem prospect_arguments (later : Later loop function A) :
    Prospect σ σ (isOp · ")")
      (fun t f => Parse.arguments ⟨t, loop, function⟩ f args keywords) A := by
  cases A with
  | nil =>
    refine .completed [] (by simp) rfl ?_
    rintro t ts _ rfl ends
    refine .succ (.of_eq (v := (args.reverse, keywords.reverse)) fun f => ?_)
    rw [Parse.arguments, List.nil_append, run_atOp, if_pos ends]
    rfl
  | cons a A =>
    cases A with
    | cons b A => exact prospect_seenArguments later fun D => rfl
    | nil =>
      by_cases word : ∃ word, a.kind = .name word ∧ isKeyword word = false
      · obtain ⟨word, kind, free⟩ := word
        exact prospect_lastArgument kind free
      · refine prospect_seenArguments later fun D => ?_
        unfold keywordAt?
        simp only [front, List.cons_append, List.head?_cons, Option.getD_some]
        split
        · rename_i text kind
          have reserved : isKeyword text = true := by
            by_contra free
            exact word ⟨text, kind, by simpa using free⟩
          simp [reserved]
        · rfl

end

/-! ## All readings -/

theorem prospects (loop function : Bool) {A : List Token}
    (inside : ∀ x ∈ A, isEnd x = false) : Prospects loop function A := by
  induction length : A.length using Nat.strongRecOn generalizing A with
  | ind n ih =>
    have later : Later loop function A := ⟨inside, fun A' suffix shorter =>
      ih A'.length (by omega) (fun x mem => inside x (suffix.mem mem)) rfl⟩
    exact {
      expression := fun σ level => prospect_expression later level
      operands := fun σ level left => prospect_operands later level left
      comparisonLinks := fun σ => prospect_comparisonLinks later
      trailers := fun σ value => prospect_trailers later value
      arguments := fun σ args keywords => prospect_arguments later
      sequence := fun σ level => prospect_sequence later level
      sequenceRest := fun σ level => prospect_sequenceRest later level
      listItems := fun σ => prospect_listItems later
      dictEntries := fun σ => prospect_dictEntries later
      atom := fun σ => prospect_atom later }

/-! ## Tokens that are left -/

/-- Induction on the tokens that are left: what holds behind each of them may be used. -/
@[elab_as_elim]
theorem left_induction {motive : ∀ A : List Token, (∀ x ∈ A, isEnd x = false) → Prop}
    (step : ∀ A inside, (∀ a rest (suffix : a :: rest <:+ A),
      motive rest fun x mem => inside x (suffix.mem (List.mem_cons_of_mem a mem))) → motive A inside)
    (A : List Token) (inside : ∀ x ∈ A, isEnd x = false) : motive A inside := by
  induction length : A.length using Nat.strongRecOn generalizing A with
  | ind n ih =>
    refine step A inside fun a rest suffix => ih rest.length ?_ rest _ rfl
    have shorter := suffix.length_le
    rw [List.length_cons] at shorter
    omega

theorem exists_cons_suffix {a : Token} {left : List Token} (suffix : left <:+ A) :
    ∃ b, b :: left <:+ a :: A := by
  obtain ⟨taken, rfl⟩ := suffix
  rcases List.eq_nil_or_concat taken with rfl | ⟨others, b, rfl⟩
  · exact ⟨a, List.suffix_refl _⟩
  · exact ⟨b, a :: others, by simp⟩

end Prospects

end Console.Parse
