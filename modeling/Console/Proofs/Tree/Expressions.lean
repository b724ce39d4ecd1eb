import Console.Proofs.Tree.Simulation

/-!
# Expressions read alike

Under a simulation every reading of an expression agrees with its counterpart, whatever the two
depths of reading are, as long as they are equal or enough for the tokens left. `Level.rank` counts
the readings that nest at one token.
-/

namespace Console.Parse

open Token

/-- The readings that a level may start without taking a token. -/
def Level.rank : Level → Nat
  | .atom => 1
  | .trailer => 2
  | .power => 3
  | .sign => 4
  | .product => 5
  | .sum => 6
  | .comparison => 7
  | .negation => 8
  | .conjunction => 9
  | .disjunction => 10
  | .conditional => 11

theorem Level.rank_le (level : Level) : level.rank ≤ 11 := by cases level <;> decide

theorem Level.rank_lt (level : Level) : level.rank < 16 := by
  have := level.rank_le
  omega

variable {t t' : Bool}

/-- All readings of expressions agree at two depths. -/
structure ReadAlike (S : Simulation t t') (f g : Nat) : Prop where
  expression : ∀ level, S.Respects f g level.rank 0 fun ctx f => expression ctx f level
  operands : ∀ level left, S.Respects f g 0 1 fun ctx f => operands ctx f level left
  comparisonLinks : S.Respects f g 0 1 comparisonLinks
  trailers : ∀ value, S.Respects f g 0 1 fun ctx f => trailers ctx f value
  arguments : ∀ args keywords, S.Respects f g 12 1 fun ctx f => arguments ctx f args keywords
  sequence : ∀ level, S.Respects f g 12 0 fun ctx f => sequence ctx f level
  sequenceRest : ∀ level, S.Respects f g 0 1 fun ctx f => sequenceRest ctx f level
  listItems : S.Respects f g 12 1 listItems
  dictEntries : S.Respects f g 12 1 dictEntries
  atom : S.Respects f g 0 0 atom

namespace Simulation

variable {S : Simulation t t'} {f g : Nat} {ts ts' : List Token}

/-! ## Operands and comparisons -/

theorem respects_operands (ih : ReadAlike S f g) (level : Level) (left : Expr) :
    S.Respects (f + 1) (g + 1) 0 1 fun ctx f => operands ctx f level left := by
  intro loop function ts ts' related within
  dsimp only
  rw [operands, operands]
  refine alike_current ?_
  rw [S.sameFront related]
  cases joined : level.joiner? (front ts).kind with
  | none => exact alike_pure related left (by omega)
  | some join =>
    have word : isLayout (front ts) = false := by
      unfold Level.joiner? at joined
      unfold isLayout
      split at joined <;> simp_all
    refine alike_advance related word fun rest rest' related short => ?_
    refine alike_bind (ih.expression _ related (within.later (by omega) (Level.rank_lt _))) ?_
    intro right rest₂ rest₂' related short₂
    exact (ih.operands _ _ related (within.later (by omega) (by omega))).mono (by omega)

/-- A comparison is written by words only. -/
theorem isLayout_of_comparisonAt {op : Comparison} {width : Nat}
    (h : comparisonAt? ts = some (op, width)) :
    isLayout (front ts) = false ∧
      (width = 1 ∨ width = 2 ∧ isLayout (front ts.tail) = false) := by
  unfold comparisonAt? at h
  have word {k : TokenKind} (kind : (front ts).kind = k)
      (other : k ≠ .newline ∧ k ≠ .indent ∧ k ≠ .dedent ∧ k ≠ .endMarker) :
      isLayout (front ts) = false := by
    unfold isLayout
    split <;> simp_all
  split at h
  case h_8 kind =>
    split at h
    · rename_i next
      cases h
      exact ⟨word kind (by simp), .inr ⟨rfl, isLayout_false_of_isWord next⟩⟩
    · cases h
  case h_9 kind =>
    split at h
    · rename_i next
      cases h
      exact ⟨word kind (by simp), .inr ⟨rfl, isLayout_false_of_isWord next⟩⟩
    · cases h
      exact ⟨word kind (by simp), .inl rfl⟩
  case h_10 => cases h
  all_goals
    rename_i kind
    cases h
    exact ⟨word kind (by simp), .inl rfl⟩

theorem comparisonAt_eq (related : S.streams ts ts') : comparisonAt? ts' = comparisonAt? ts := by
  have kind := S.sameFront related
  unfold comparisonAt?
  rw [kind]
  by_cases word : isLayout (front ts) = false
  · have next (w : String) : isWord (front ts'.tail) w = isWord (front ts.tail) w := by
      unfold isWord
      rw [S.sameSecond related word]
    simp only [next]
  · unfold isLayout at word
    split at word <;> simp_all

theorem respects_comparisonLinks (ih : ReadAlike S f g) :
    S.Respects (f + 1) (g + 1) 0 1 comparisonLinks := by
  intro loop function ts ts' related within
  rw [comparisonLinks, comparisonLinks]
  refine alike_get ?_
  rw [comparisonAt_eq related]
  cases written : comparisonAt? ts with
  | none => exact alike_pure related [] (by omega)
  | some found =>
    obtain ⟨op, width⟩ := found
    obtain ⟨word, wide⟩ := isLayout_of_comparisonAt written
    have one := length_tail_lt word
    have ⟨related, short⟩ : S.streams (ts.drop width) (ts'.drop width) ∧
        (ts.drop width).length < ts.length := by
      rcases wide with rfl | ⟨rfl, word₂⟩
      · rw [List.drop_one, List.drop_one]
        exact ⟨S.behind related word, one⟩
      · have two := length_tail_lt word₂
        have twice (l : List Token) : l.drop 2 = l.tail.tail := by
          rw [← List.drop_one, ← List.drop_one, List.drop_drop]
        rw [twice, twice]
        exact ⟨S.behind (S.behind related word) word₂, by omega⟩
    refine alike_modify ?_
    refine alike_bind (ih.expression _ related (within.later (by omega) (Level.rank_lt _))) ?_
    intro right rest₂ rest₂' related short₂
    refine alike_bind (ih.comparisonLinks related (within.later (by omega) (by omega))) ?_
    intro links rest₃ rest₃' related short₃
    exact alike_pure related _ (by omega)

/-! ## Trailers and arguments -/

theorem respects_trailers (ih : ReadAlike S f g) (value : Expr) :
    S.Respects (f + 1) (g + 1) 0 1 fun ctx f => trailers ctx f value := by
  intro loop function ts ts' related within
  dsimp only
  rw [trailers, trailers]
  refine alike_eatOp related "(" ?call (alike_eatOp related "[" ?subscript
    (alike_eatOp related "." ?member (alike_pure related value (by omega))))
  case call =>
    intro rest rest' related short
    refine alike_bind (ih.arguments _ _ related (within.later (by omega) (by omega))) ?_
    rintro ⟨args, keywords⟩ rest₂ rest₂' related short₂
    refine alike_bind (alike_expectOp related loop function ")") ?_
    intro _ rest₃ rest₃' related short₃
    exact (ih.trailers _ related (within.later (by omega) (by omega))).mono (by omega)
  case subscript =>
    intro rest rest' related short
    refine alike_bind (ih.sequence _ related (within.later (by omega) (by omega))) ?_
    intro index rest₂ rest₂' related short₂
    refine alike_atOp related ":" (alike_fail_bind related rfl _ _) ?_
    refine alike_bind (alike_expectOp related loop function "]") ?_
    intro _ rest₃ rest₃' related short₃
    exact (ih.trailers _ related (within.later (by omega) (by omega))).mono (by omega)
  case member =>
    intro rest rest' related short
    refine alike_bind (alike_identifier related loop function) ?_
    intro name rest₂ rest₂' related short₂
    exact (ih.trailers _ related (within.later (by omega) (by omega))).mono (by omega)

theorem keywordAt_eq (related : S.streams ts ts') : keywordAt? ts' = keywordAt? ts := by
  have kind := S.sameFront related
  unfold keywordAt?
  rw [kind]
  by_cases word : isLayout (front ts) = false
  · unfold isOp
    rw [S.sameSecond related word]
  · unfold isLayout at word
    split at word <;> simp_all

theorem isLayout_of_keywordAt {name : String} (h : keywordAt? ts = some name) :
    isLayout (front ts) = false ∧ isLayout (front ts.tail) = false := by
  unfold keywordAt? at h
  split at h
  · rename_i kind
    split at h
    · rename_i next
      rw [Bool.and_eq_true] at next
      exact ⟨by simp [isLayout, kind], isLayout_false_of_isOp next.2⟩
    · cases h
  · cases h

theorem respects_arguments (ih : ReadAlike S f g) (args : List Expr)
    (keywords : List (String × Expr)) :
    S.Respects (f + 1) (g + 1) 12 1 fun ctx f => arguments ctx f args keywords := by
  intro loop function ts ts' related within
  -- What follows an argument is the same whether the argument had a name or not.
  have onward {rest rest' : List Token} (args : List Expr) (keywords : List (String × Expr))
      (related : S.streams rest rest') (short : rest.length < ts.length) :
      S.Alike (ts.length + 1)
        (do
          if ← eatOp "," then arguments ⟨t, loop, function⟩ f args keywords
          else return (args.reverse, keywords.reverse))
        (do
          if ← eatOp "," then arguments ⟨t', loop, function⟩ g args keywords
          else return (args.reverse, keywords.reverse)) rest rest' := by
    refine alike_eatOp related "," ?_ (alike_pure related _ (by omega))
    intro rest₂ rest₂' related short₂
    exact (ih.arguments _ _ related (within.later (by omega) (by omega))).mono (by omega)
  dsimp only
  rw [arguments, arguments]
  refine alike_atOp related ")" (alike_pure related _ (by omega)) (alike_get ?_)
  rw [keywordAt_eq related]
  cases named : keywordAt? ts with
  | some name =>
    obtain ⟨word, word₂⟩ := isLayout_of_keywordAt named
    have one := length_tail_lt word
    have two := length_tail_lt word₂
    refine alike_tail (alike_tail ?_)
    have next := S.behind (S.behind related word) word₂
    dsimp only
    by_cases repeated : (keywords.any fun x => x.1 == name) = true
    · rw [if_pos repeated, if_pos repeated]
      exact alike_fail_bind next rfl _ _
    · rw [if_neg repeated, if_neg repeated]
      refine alike_bind (ih.expression _ next (within.later (by omega) (Level.rank_lt _))) ?_
      intro value rest rest' related short
      exact onward args ((name, value) :: keywords) related (by omega)
  | none =>
    dsimp only
    by_cases first : keywords.isEmpty = true
    · rw [if_pos first, if_pos first]
      refine alike_bind (ih.expression _ related (within.pred (by simp [Level.rank]))) ?_
      intro value rest rest' related short
      exact onward (value :: args) keywords related short
    · rw [if_neg first, if_neg first]
      exact alike_fail_bind related rfl _ _

/-! ## Sequences and displays -/

theorem respects_sequence (ih : ReadAlike S f g) (level : Level) :
    S.Respects (f + 1) (g + 1) 12 0 fun ctx f => sequence ctx f level := by
  intro loop function ts ts' related within
  have deeper := level.rank_le
  dsimp only
  rw [sequence, sequence]
  refine alike_bind (ih.expression _ related (within.pred (by omega))) ?_
  intro first rest rest' related short
  refine alike_atOp related "," ?_ (alike_pure related first short)
  refine alike_bind (ih.sequenceRest _ related (within.later (by omega) (by omega))) ?_
  intro items rest₂ rest₂' related short₂
  exact alike_pure related _ (by omega)

theorem respects_sequenceRest (ih : ReadAlike S f g) (level : Level) :
    S.Respects (f + 1) (g + 1) 0 1 fun ctx f => sequenceRest ctx f level := by
  intro loop function ts ts' related within
  dsimp only
  rw [sequenceRest, sequenceRest]
  refine alike_eatOp related "," ?_ (alike_pure related [] (by omega))
  intro rest rest' related short
  refine alike_current ?_
  have same : startsExpression (front rest') = startsExpression (front rest) := by
    unfold startsExpression
    rw [S.sameFront related]
  rw [same]
  by_cases starts : startsExpression (front rest) = true
  · rw [if_pos starts, if_pos starts]
    refine alike_bind (ih.expression _ related (within.later (by omega) (Level.rank_lt _))) ?_
    intro item rest₂ rest₂' related short₂
    refine alike_bind (ih.sequenceRest _ related (within.later (by omega) (by omega))) ?_
    intro items rest₃ rest₃' related short₃
    exact alike_pure related _ (by omega)
  · rw [if_neg starts, if_neg starts]
    exact alike_pure related [] (by omega)

theorem respects_listItems (ih : ReadAlike S f g) :
    S.Respects (f + 1) (g + 1) 12 1 listItems := by
  intro loop function ts ts' related within
  rw [listItems, listItems]
  refine alike_atOp related "]" (alike_pure related [] (by omega)) ?_
  refine alike_bind (ih.expression _ related (within.pred (by simp [Level.rank]))) ?_
  intro item rest rest' related short
  refine alike_eatOp related "," ?_ (alike_pure related [item] (by omega))
  intro rest₂ rest₂' related short₂
  refine alike_bind (ih.listItems related (within.later (by omega) (by omega))) ?_
  intro items rest₃ rest₃' related short₃
  exact alike_pure related _ (by omega)

theorem respects_dictEntries (ih : ReadAlike S f g) :
    S.Respects (f + 1) (g + 1) 12 1 dictEntries := by
  intro loop function ts ts' related within
  rw [dictEntries, dictEntries]
  refine alike_atOp related "\x7d" (alike_pure related [] (by omega)) ?_
  refine alike_bind (ih.expression _ related (within.pred (by simp [Level.rank]))) ?_
  intro key rest rest' related short
  refine alike_bind (alike_expectOp related loop function ":") ?_
  intro _ rest₂ rest₂' related short₂
  refine alike_bind (ih.expression _ related (within.later (by omega) (Level.rank_lt _))) ?_
  intro value rest₃ rest₃' related short₃
  refine alike_eatOp related "," ?_ (alike_pure related [(key, value)] (by omega))
  intro rest₄ rest₄' related short₄
  refine alike_bind (ih.dictEntries related (within.later (by omega) (by omega))) ?_
  intro entries rest₅ rest₅' related short₅
  exact alike_pure related _ (by omega)

theorem respects_atom (ih : ReadAlike S f g) : S.Respects (f + 1) (g + 1) 0 0 atom := by
  intro loop function ts ts' related within
  -- A literal or a name is one token.
  have one (word : isLayout (front ts) = false) (e : Expr) :
      S.Alike ts.length (do advance; return e) (do advance; return e) ts ts' :=
    alike_advance related word fun _ _ related short => alike_pure related e short
  rw [atom, atom]
  refine alike_current ?_
  rw [S.sameFront related]
  split
  case h_1 n kind => exact one (by simp [isLayout, kind]) _
  case h_2 x kind => exact one (by simp [isLayout, kind]) _
  case h_3 s kind => exact one (by simp [isLayout, kind]) _
  case h_4 word kind =>
    split
    · exact one (by simp [isLayout, kind]) _
    · exact alike_unexpected related loop function
  case h_5 kind =>
    refine alike_advance related (by simp [isLayout, kind]) fun rest rest' related short => ?_
    refine alike_eatOp related ")" (fun _ _ related _ => alike_pure related _ (by omega)) ?_
    refine alike_bind (ih.sequence _ related (within.later (by omega) (by omega))) ?_
    intro inner rest₂ rest₂' related short₂
    refine alike_bind (alike_expectOp related loop function ")") ?_
    intro _ rest₃ rest₃' related short₃
    exact alike_pure related inner (by omega)
  case h_6 kind =>
    refine alike_advance related (by simp [isLayout, kind]) fun rest rest' related short => ?_
    refine alike_bind (ih.listItems related (within.later (by omega) (by omega))) ?_
    intro items rest₂ rest₂' related short₂
    refine alike_bind (alike_expectOp related loop function "]") ?_
    intro _ rest₃ rest₃' related short₃
    exact alike_pure related _ (by omega)
  case h_7 kind =>
    refine alike_advance related (by simp [isLayout, kind]) fun rest rest' related short => ?_
    refine alike_bind (ih.dictEntries related (within.later (by omega) (by omega))) ?_
    intro entries rest₂ rest₂' related short₂
    refine alike_bind (alike_expectOp related loop function "\x7d") ?_
    intro _ rest₃ rest₃' related short₃
    exact alike_pure related _ (by omega)
  case h_8 => exact alike_unexpected related loop function

/-! ## Levels -/

/-- The levels whose operators group to the left. -/
def groups : Level → Bool
  | .disjunction | .conjunction | .sum | .product => true
  | _ => false

theorem expression_of_groups {level : Level} (grouped : groups level = true) (ctx : Context)
    (f : Nat) : expression ctx (f + 1) level =
      expression ctx f level.tighter >>= fun left => operands ctx f level left := by
  cases level <;> first | rfl | cases grouped

theorem rank_tighter_lt {level : Level} (h : groups level = true) :
    level.tighter.rank < level.rank := by
  cases level <;> first | decide | cases h

theorem respects_grouped (ih : ReadAlike S f g) {level : Level} (h : groups level = true) :
    S.Respects (f + 1) (g + 1) level.rank 0 fun ctx f => expression ctx f level := by
  intro loop function ts ts' related within
  have less := rank_tighter_lt h
  dsimp only
  rw [expression_of_groups h, expression_of_groups h]
  refine alike_bind (ih.expression _ related (within.pred (by omega))) ?_
  intro left rest rest' related short
  exact (ih.operands _ _ related (within.later (by omega) (by omega))).mono (by omega)

theorem respects_expression (ih : ReadAlike S f g) (level : Level) :
    S.Respects (f + 1) (g + 1) level.rank 0 fun ctx f => expression ctx f level := by
  intro loop function ts ts' related within
  have deep {level' : Level} (less : level'.rank < level.rank) :
      Within f g (16 * ts.length + level'.rank) := within.pred (by omega)
  cases level
  case conditional =>
    dsimp only
    rw [expression, expression]
    refine alike_atWord related "lambda" (alike_fail_bind related rfl _ _) ?_
    refine alike_bind (ih.expression _ related (deep (by decide))) ?_
    intro body rest rest' related short
    refine alike_eatWord related "if" ?_ (alike_pure related body short)
    intro rest₂ rest₂' related short₂
    refine alike_bind (ih.expression _ related (within.later (by omega) (Level.rank_lt _))) ?_
    intro test rest₃ rest₃' related short₃
    refine alike_bind (alike_expectWord related loop function "else") ?_
    intro _ rest₄ rest₄' related short₄
    refine alike_bind (ih.expression _ related (within.later (by omega) (Level.rank_lt _))) ?_
    intro orelse rest₅ rest₅' related short₅
    exact alike_pure related _ (by omega)
  case negation =>
    dsimp only
    rw [expression, expression]
    refine alike_eatWord related "not" ?_ (ih.expression _ related (deep (by decide)))
    intro rest rest' related short
    refine alike_bind (ih.expression _ related (within.later (by omega) (Level.rank_lt _))) ?_
    intro operand rest₂ rest₂' related short₂
    exact alike_pure related _ (by omega)
  case comparison =>
    dsimp only
    rw [expression, expression]
    refine alike_bind (ih.expression _ related (deep (by decide))) ?_
    intro left rest rest' related short
    refine alike_bind (ih.comparisonLinks related (within.later (by omega) (by omega))) ?_
    intro links rest₂ rest₂' related short₂
    cases links with
    | nil => exact alike_pure related left (by omega)
    | cons link links => exact alike_pure related _ (by omega)
  case sign =>
    dsimp only
    rw [expression, expression]
    have signed (op : UnaryOp) {rest rest' : List Token} (related : S.streams rest rest')
        (short : rest.length < ts.length) :
        S.Alike ts.length
          (do return Expr.unary op (← expression ⟨t, loop, function⟩ f .sign))
          (do return Expr.unary op (← expression ⟨t', loop, function⟩ g .sign)) rest rest' := by
      refine alike_bind (ih.expression _ related (within.later (by omega) (Level.rank_lt _))) ?_
      intro operand rest₂ rest₂' related short₂
      exact alike_pure related _ (by omega)
    exact alike_eatOp related "-" (fun _ _ related short => signed .neg related short)
      (alike_eatOp related "+" (fun _ _ related short => signed .pos related short)
        (ih.expression _ related (deep (by decide))))
  case power =>
    dsimp only
    rw [expression, expression]
    refine alike_bind (ih.expression _ related (deep (by decide))) ?_
    intro base rest rest' related short
    refine alike_eatOp related "**" ?_ (alike_pure related base short)
    intro rest₂ rest₂' related short₂
    refine alike_bind (ih.expression _ related (within.later (by omega) (Level.rank_lt _))) ?_
    intro exponent rest₃ rest₃' related short₃
    exact alike_pure related _ (by omega)
  case trailer =>
    dsimp only
    rw [expression, expression]
    refine alike_bind (ih.expression _ related (deep (by decide))) ?_
    intro value rest rest' related short
    exact (ih.trailers _ related (within.later (by omega) (by omega))).mono (by omega)
  case atom =>
    dsimp only
    rw [expression, expression]
    exact ih.atom related (within.pred (by simp [Level.rank]))
  all_goals exact respects_grouped ih rfl related within

end Simulation

/-! ## All depths -/

/-- A reading that is given no depth fails where it stands. -/
theorem respects_exhausted {α : Type} {S : Simulation t t'} {f g rank slack : Nat}
    (exhausted : f = 0 ∨ g = 0) {read : Context → Nat → Parser α}
    (fails : ∀ ctx, read ctx 0 = fail .invalidSyntax) : S.Respects f g rank slack read := by
  intro loop function ts ts' related within
  have ⟨left, right⟩ : f = 0 ∧ g = 0 := by
    unfold Within at within
    omega
  subst left right
  rw [fails, fails]
  exact Simulation.alike_fail related rfl

theorem readAlike_exhausted {S : Simulation t t'} {f g : Nat} (exhausted : f = 0 ∨ g = 0) :
    ReadAlike S f g where
  expression _ := respects_exhausted exhausted fun _ => rfl
  operands _ _ := respects_exhausted exhausted fun _ => rfl
  comparisonLinks := respects_exhausted exhausted fun _ => rfl
  trailers _ := respects_exhausted exhausted fun _ => rfl
  arguments _ _ := respects_exhausted exhausted fun _ => rfl
  sequence _ := respects_exhausted exhausted fun _ => rfl
  sequenceRest _ := respects_exhausted exhausted fun _ => rfl
  listItems := respects_exhausted exhausted fun _ => rfl
  dictEntries := respects_exhausted exhausted fun _ => rfl
  atom := respects_exhausted exhausted fun _ => rfl

/-- Expressions are read alike under every simulation. -/
theorem readAlike (S : Simulation t t') (f g : Nat) : ReadAlike S f g := by
  induction f generalizing g with
  | zero => exact readAlike_exhausted (.inl rfl)
  | succ f ih =>
    cases g with
    | zero => exact readAlike_exhausted (.inr rfl)
    | succ g => exact {
        expression := Simulation.respects_expression (ih g)
        operands := Simulation.respects_operands (ih g)
        comparisonLinks := Simulation.respects_comparisonLinks (ih g)
        trailers := Simulation.respects_trailers (ih g)
        arguments := Simulation.respects_arguments (ih g)
        sequence := Simulation.respects_sequence (ih g)
        sequenceRest := Simulation.respects_sequenceRest (ih g)
        listItems := Simulation.respects_listItems (ih g)
        dictEntries := Simulation.respects_dictEntries (ih g)
        atom := Simulation.respects_atom (ih g) }

end Console.Parse
