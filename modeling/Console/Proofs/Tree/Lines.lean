import Console.Proofs.Tree.Expressions

/-!
# Simple statements and headers read alike

What stands on one line: simple statements, and what a compound statement writes before its colon.
The end of a line is where a simulation stops, so a whole line is told by what stood before its
end.
-/

namespace Console.Parse

open Token

variable {t t' : Bool} {α : Type}

/-- Behind a token there is room again for all readings that nest without one. -/
theorem Within.same {f g n r : Nat} {rest : List Token} (within : Within f g n)
    (shorter : 16 * (rest.length + 1) ≤ n) (small : r < 16) : Within f g (16 * rest.length + r) := by
  unfold Within at *
  omega

/-- A reading that agrees with itself one level deeper agrees at all depths. -/
theorem respects_of_step {ι : Type} {S : Simulation t t'} {rank slack : Nat}
    (read : ι → Context → Nat → Parser α) (fails : ∀ i ctx, read i ctx 0 = fail .invalidSyntax)
    (step : ∀ f g, (∀ i, S.Respects f g rank slack (read i)) →
      ∀ i, S.Respects (f + 1) (g + 1) rank slack (read i))
    (f g : Nat) (i : ι) : S.Respects f g rank slack (read i) := by
  induction f generalizing g i with
  | zero => exact respects_exhausted (.inl rfl) (fails i)
  | succ f ih =>
    cases g with
    | zero => exact respects_exhausted (.inr rfl) (fails i)
    | succ g => exact step f g (ih g) i

namespace Simulation

variable {S : Simulation t t'} {ts ts' : List Token}

/-! ## Names and places -/

theorem respects_dottedName (f g : Nat) : S.Respects f g 0 0 dottedName := by
  refine respects_of_step (fun _ : Unit => dottedName) (fun _ _ => rfl) ?_ f g ()
  intro f g ih _ loop function ts ts' related within
  rw [dottedName, dottedName]
  refine alike_bind (alike_identifier related loop function) ?_
  intro first rest rest' related short
  refine alike_eatOp related "." ?_ (alike_pure related first short)
  intro rest₂ rest₂' related short₂
  refine alike_bind (ih () related (within.later (by omega) (by omega))) ?_
  intro others rest₃ rest₃' related short₃
  exact alike_pure related _ (by omega)

/-- The items may be read at a depth of their own. -/
theorem alike_commaSeparated {item item' : Parser α} {most : Nat}
    (items : ∀ {ts ts'}, S.streams ts ts' → ts.length ≤ most →
      S.Alike ts.length item item' ts ts') (f g : Nat) (related : S.streams ts ts')
    (le : ts.length ≤ most) (within : Within f g (16 * ts.length)) :
    S.Alike ts.length (commaSeparated item f) (commaSeparated item' g) ts ts' := by
  induction f generalizing g ts ts' with
  | zero =>
    obtain rfl : g = 0 := by
      unfold Within at within
      omega
    exact alike_fail related rfl
  | succ f ih =>
    cases g with
    | zero =>
      unfold Within at within
      omega
    | succ g =>
      rw [commaSeparated, commaSeparated]
      refine alike_bind (items related le) ?_
      intro first rest rest' related short
      refine alike_eatOp related "," ?_ (alike_pure related [first] short)
      intro rest₂ rest₂' related short₂
      refine alike_bind (ih g related (by omega) (within.pred (by omega))) ?_
      intro others rest₃ rest₃' related short₃
      exact alike_pure related _ (by omega)

theorem respects_importedNames (bracketed : Bool) (f g : Nat) :
    S.Respects f g 0 0 fun ctx f => importedNames ctx bracketed f := by
  refine respects_of_step (fun _ : Unit => fun ctx => importedNames ctx bracketed)
    (fun _ _ => rfl) ?_ f g ()
  intro f g ih _ loop function ts ts' related within
  dsimp only
  rw [importedNames, importedNames]
  refine alike_bind (alike_identifier related loop function) ?_
  intro first rest rest' related short
  refine alike_eatOp related "," ?_ (alike_pure related [first] short)
  intro rest₂ rest₂' related short₂
  -- A comma before the closing bracket ends the names; without brackets a name has to follow.
  have onward : S.Alike ts.length
      (do return first :: (← importedNames ⟨t, loop, function⟩ bracketed f))
      (do return first :: (← importedNames ⟨t', loop, function⟩ bracketed g)) rest₂ rest₂' := by
    refine alike_bind (ih () related (within.later (by omega) (by omega))) ?_
    intro others rest₃ rest₃' related short₃
    exact alike_pure related _ (by omega)
  cases bracketed with
  | true => exact alike_atOp related ")" (alike_pure related [first] (by omega)) onward
  | false => exact onward

theorem alike_atStatementEnd (related : S.streams ts ts') {β : Type} {m : Nat}
    {p q p' q' : Parser β} (yes : S.Alike m p p' ts ts') (no : S.Alike m q q' ts ts') :
    S.Alike m (atStatementEnd >>= fun b => if b = true then p else q)
      (atStatementEnd >>= fun b => if b = true then p' else q') ts ts' := by
  show S.Alike m (if (isNewline (front ts) || isOp (front ts) ";") = true then p else q)
    (if (isNewline (front ts') || isOp (front ts') ";") = true then p' else q') ts ts'
  rw [isNewline_eq related, isOp_eq related]
  split
  · exact yes
  · exact no

theorem respects_deletedPlaces (f g : Nat) : S.Respects f g 12 0 deletedPlaces := by
  refine respects_of_step (fun _ : Unit => deletedPlaces) (fun _ _ => rfl) ?_ f g ()
  intro f g ih _ loop function ts ts' related within
  have within' : Within f g (16 * ts.length + Level.sum.rank) := within.pred (by simp [Level.rank])
  rw [deletedPlaces, deletedPlaces]
  refine alike_bind ((readAlike S f g).expression _ related within') ?_
  intro first rest rest' related short
  refine alike_eatOp related "," ?_ (alike_pure related [first] short)
  intro rest₂ rest₂' related short₂
  refine alike_atStatementEnd related (alike_pure related [first] (by omega)) ?_
  refine alike_bind (ih () related (within.later (by omega) (by omega))) ?_
  intro others rest₃ rest₃' related short₃
  exact alike_pure related _ (by omega)

theorem respects_assigned (f g : Nat) : S.Respects f g 13 0 assigned := by
  refine respects_of_step (fun _ : Unit => assigned) (fun _ _ => rfl) ?_ f g ()
  intro f g ih _ loop function ts ts' related within
  rw [assigned, assigned]
  refine alike_bind ((readAlike S f g).sequence _ related (within.pred (by omega))) ?_
  intro value rest rest' related short
  refine alike_eatOp related "=" ?_ (alike_pure related _ short)
  intro rest₂ rest₂' related short₂
  refine alike_bind (ih () related (within.later (by omega) (by omega))) ?_
  rintro ⟨targets, last⟩ rest₃ rest₃' related short₃
  exact alike_pure related _ (by omega)

/-! ## Simple statements -/

theorem respects_expressionStatement (f g : Nat) :
    S.Respects f g 12 0 expressionStatement := by
  intro loop function ts ts' related within
  unfold expressionStatement
  refine alike_bind ((readAlike S f g).sequence _ related within) ?_
  intro first rest rest' related short
  refine alike_current ?_
  rw [S.sameFront related]
  cases augmented : augmentedOp? (front rest).kind with
  | some op =>
    have word : isLayout (front rest) = false := by
      unfold augmentedOp? at augmented
      unfold isLayout
      split at augmented <;> simp_all
    dsimp only
    by_cases place : first.isPlace = true
    · rw [if_pos place, if_pos place]
      refine alike_advance related word fun rest₂ rest₂' related short₂ => ?_
      refine alike_bind ((readAlike S f g).sequence _ related
        (within.same (by omega) (by omega))) ?_
      intro value rest₃ rest₃' related short₃
      exact alike_pure related _ (by omega)
    · rw [if_neg place, if_neg place]
      exact alike_fail_bind related rfl _ _
  | none =>
    refine alike_eatOp related "=" ?_ (alike_pure related _ short)
    intro rest₂ rest₂' related short₂
    refine alike_bind (respects_assigned f g related (within.same (by omega) (by omega))) ?_
    rintro ⟨targets, value⟩ rest₃ rest₃' related short₃
    dsimp only
    by_cases assignable : (first :: targets).all Expr.isAssignable = true
    · rw [if_pos assignable]
      exact alike_pure related _ (by omega)
    · rw [if_neg assignable]
      exact alike_fail_bind related rfl _ _

theorem alike_optionalValue {p p' : Parser Expr} (related : S.streams ts ts')
    (value : S.Alike ts.length p p' ts ts') :
    S.Alike (ts.length + 1) (optionalValue p) (optionalValue p') ts ts' := by
  refine alike_atStatementEnd related (alike_pure related _ (by omega)) ?_
  refine alike_bind value ?_
  intro v rest rest' related short
  exact alike_pure related _ (by omega)

theorem respects_deleteStatement (f g : Nat) : S.Respects f g 12 0 deleteStatement := by
  intro loop function ts ts' related within
  unfold deleteStatement
  refine alike_bind (respects_deletedPlaces f g related within) ?_
  intro targets rest rest' related short
  dsimp only
  by_cases places : targets.all Expr.isPlace = true
  · rw [if_pos places]
    exact alike_pure related _ short
  · rw [if_neg places]
    exact alike_fail_bind related rfl _ _

theorem respects_importStatement (f g : Nat) : S.Respects f g 0 0 importStatement := by
  intro loop function ts ts' related within
  unfold importStatement
  refine alike_bind (respects_dottedName f g related within) ?_
  intro module rest rest' related short
  refine alike_bind (alike_expectWord related loop function "import") ?_
  intro _ rest₂ rest₂' related short₂
  refine alike_eatOp related "*"
    (fun _ _ related _ => alike_pure related _ (by omega)) ?_
  have names (bracketed : Bool) {rest₃ rest₃' : List Token} (related : S.streams rest₃ rest₃')
      (short : rest₃.length < ts.length) :
      S.Alike ts.length
        (do
          let names ← importedNames ⟨t, loop, function⟩ bracketed f
          if bracketed then expectOp ⟨t, loop, function⟩ ")"
          return Simple.importNames module names)
        (do
          let names ← importedNames ⟨t', loop, function⟩ bracketed g
          if bracketed then expectOp ⟨t', loop, function⟩ ")"
          return Simple.importNames module names) rest₃ rest₃' := by
    refine alike_bind (respects_importedNames bracketed f g related
      (within.same (by omega) (by omega))) ?_
    intro names rest₄ rest₄' related short₄
    cases bracketed with
    | false => exact alike_pure related _ (by omega)
    | true =>
      refine alike_bind (alike_expectOp related loop function ")") ?_
      intro _ rest₅ rest₅' related short₅
      exact alike_pure related _ (by omega)
  refine alike_eatOp_bind related "(" ?_ (names false related (by omega))
  exact fun rest₃ rest₃' related short₃ => names true related (by omega)

theorem respects_assertStatement (f g : Nat) : S.Respects f g 12 0 assertStatement := by
  intro loop function ts ts' related within
  have conditional {rest rest' : List Token} (related : S.streams rest rest')
      (le : rest.length ≤ ts.length) :
      S.Alike rest.length (expression ⟨t, loop, function⟩ f .conditional)
        (expression ⟨t', loop, function⟩ g .conditional) rest rest' := by
    refine (readAlike S f g).expression _ related ?_
    unfold Within at *
    simp only [Level.rank]
    omega
  unfold assertStatement
  refine alike_bind (conditional related (by omega)) ?_
  intro test rest rest' related short
  refine alike_eatOp related "," ?_ (alike_pure related _ short)
  intro rest₂ rest₂' related short₂
  refine alike_bind (conditional related (by omega)) ?_
  intro message rest₃ rest₃' related short₃
  exact alike_pure related _ (by omega)

theorem alike_jump (related : S.streams ts ts') (loop function : Bool) (word : String)
    (action : Simple) (words : isLayout (front ts) = false) :
    S.Alike ts.length (jump ⟨t, loop, function⟩ word action) (jump ⟨t', loop, function⟩ word action)
      ts ts' := by
  unfold jump
  cases loop with
  | true => exact alike_advance related words fun _ _ related short => alike_pure related _ short
  | false => exact alike_fail_bind related rfl _ _

theorem respects_simpleStatement (f g : Nat) : S.Respects f g 12 0 simpleStatement := by
  intro loop function ts ts' related within
  have conditional {rest rest' : List Token} (related : S.streams rest rest')
      (short : rest.length < ts.length) :
      S.Alike rest.length (expression ⟨t, loop, function⟩ f .conditional)
        (expression ⟨t', loop, function⟩ g .conditional) rest rest' :=
    (readAlike S f g).expression _ related (within.same (by omega) (Level.rank_lt _))
  unfold simpleStatement
  refine alike_current ?_
  rw [S.sameFront related]
  split
  case h_1 kind =>
    exact alike_advance related (by simp [isLayout, kind]) fun _ _ related short =>
      alike_pure related _ short
  case h_2 kind => exact alike_jump related loop function _ _ (by simp [isLayout, kind])
  case h_3 kind => exact alike_jump related loop function _ _ (by simp [isLayout, kind])
  case h_4 kind =>
    cases function with
    | false => exact alike_fail_bind related rfl _ _
    | true =>
      refine alike_advance related (by simp [isLayout, kind]) fun rest rest' related short => ?_
      refine alike_bind (alike_optionalValue related ((readAlike S f g).sequence _ related
        (within.same (by omega) (by omega)))) ?_
      intro value rest₂ rest₂' related short₂
      exact alike_pure related _ (by omega)
  case h_5 kind =>
    refine alike_advance related (by simp [isLayout, kind]) fun rest rest' related short => ?_
    refine alike_bind (alike_optionalValue related (conditional related short)) ?_
    intro value rest₂ rest₂' related short₂
    exact alike_pure related _ (by omega)
  case h_6 kind =>
    refine alike_advance related (by simp [isLayout, kind]) fun rest rest' related short => ?_
    exact (respects_assertStatement f g related
      (within.same (by omega) (by omega))).mono (by omega)
  case h_7 kind =>
    refine alike_advance related (by simp [isLayout, kind]) fun rest rest' related short => ?_
    refine alike_bind (alike_commaSeparated (fun related _ => alike_identifier related loop function)
      f g related (Nat.le_refl _) (within.same (r := 0) (by omega) (by omega))) ?_
    intro names rest₂ rest₂' related short₂
    exact alike_pure related _ (by omega)
  case h_8 kind =>
    refine alike_advance related (by simp [isLayout, kind]) fun rest rest' related short => ?_
    exact (respects_deleteStatement f g related
      (within.same (by omega) (by omega))).mono (by omega)
  case h_9 kind =>
    refine alike_advance related (by simp [isLayout, kind]) fun rest rest' related short => ?_
    refine alike_bind (alike_commaSeparated (fun related le => respects_dottedName f g related
      (within.same (by omega) (by omega))) f g related (Nat.le_refl _)
      (within.same (r := 0) (by omega) (by omega))) ?_
    intro names rest₂ rest₂' related short₂
    exact alike_pure related _ (by omega)
  case h_10 kind =>
    refine alike_advance related (by simp [isLayout, kind]) fun rest rest' related short => ?_
    exact (respects_importStatement f g related
      (within.same (by omega) (by omega))).mono (by omega)
  case h_11 => exact respects_expressionStatement f g related within

/-! ## Headers -/

theorem respects_parameters (f g : Nat) (seen : List Parameter) :
    S.Respects f g 0 1 fun ctx f => parameters ctx f seen := by
  refine respects_of_step (fun seen ctx f => parameters ctx f seen) (fun _ _ => rfl) ?_ f g seen
  intro f g ih seen loop function ts ts' related within
  -- What follows a parameter is the same whether it has a default or not.
  have onward (parameter : Parameter) {rest rest' : List Token} (related : S.streams rest rest')
      (short : rest.length < ts.length) :
      S.Alike (ts.length + 1)
        (do
          if ← eatOp "," then parameters ⟨t, loop, function⟩ f (parameter :: seen)
          else return (parameter :: seen).reverse)
        (do
          if ← eatOp "," then parameters ⟨t', loop, function⟩ g (parameter :: seen)
          else return (parameter :: seen).reverse) rest rest' := by
    refine alike_eatOp related "," ?_ (alike_pure related _ (by omega))
    intro rest₂ rest₂' related short₂
    exact (ih _ related (within.later (by omega) (by omega))).mono (by omega)
  dsimp only
  rw [parameters, parameters]
  refine alike_atOp related ")" (alike_pure related _ (by omega)) ?_
  refine alike_bind (alike_identifier related loop function) ?_
  intro name rest rest' related short
  dsimp only
  by_cases repeated : (seen.any fun x => x.name == name) = true
  · rw [if_pos repeated, if_pos repeated]
    exact alike_fail_bind related rfl _ _
  · rw [if_neg repeated, if_neg repeated]
    refine alike_eatOp related "=" ?default ?none
    case default =>
      intro rest₂ rest₂' related short₂
      refine alike_bind (alike_map _ ((readAlike S f g).expression _ related
        (within.later (by omega) (Level.rank_lt _)))) ?_
      intro default rest₃ rest₃' related short₃
      exact onward ⟨name, default⟩ related (by omega)
    case none =>
      by_cases behind : (seen.any fun x => x.default.isSome) = true
      · rw [if_pos behind, if_pos behind]
        exact alike_fail_bind related rfl _ _
      · rw [if_neg behind, if_neg behind]
        exact onward ⟨name, none⟩ related (by omega)

theorem respects_baseClasses (f g : Nat) : S.Respects f g 12 1 baseClasses := by
  refine respects_of_step (fun _ : Unit => baseClasses) (fun _ _ => rfl) ?_ f g ()
  intro f g ih _ loop function ts ts' related within
  rw [baseClasses, baseClasses]
  refine alike_atOp related ")" (alike_pure related [] (by omega)) ?_
  refine alike_bind ((readAlike S f g).expression _ related
    (within.pred (by simp [Level.rank]))) ?_
  intro base rest rest' related short
  refine alike_eatOp related "," ?_ (alike_pure related [base] (by omega))
  intro rest₂ rest₂' related short₂
  refine alike_bind (ih () related (within.later (by omega) (by omega))) ?_
  intro bases rest₃ rest₃' related short₃
  exact alike_pure related _ (by omega)

theorem respects_testHeader (f g : Nat) : S.Respects f g 12 0 testHeader := by
  intro loop function ts ts' related within
  have within' : Within f g (16 * ts.length + Level.conditional.rank) := by
    unfold Within at *
    simp only [Level.rank]
    omega
  unfold testHeader
  refine alike_bind ((readAlike S f g).expression _ related within') ?_
  intro test rest rest' related short
  refine alike_bind (alike_expectOp related loop function ":") ?_
  intro _ rest₂ rest₂' related short₂
  exact alike_pure related _ (by omega)

theorem respects_forHeader (f g : Nat) : S.Respects f g 12 0 forHeader := by
  intro loop function ts ts' related within
  unfold forHeader
  refine alike_bind ((readAlike S f g).sequence _ related within) ?_
  intro target rest rest' related short
  dsimp only
  by_cases assignable : target.isAssignable = true
  · rw [if_pos assignable, if_pos assignable]
    refine alike_bind (alike_expectWord related loop function "in") ?_
    intro _ rest₂ rest₂' related short₂
    refine alike_bind ((readAlike S f g).sequence _ related
      (within.same (by omega) (by omega))) ?_
    intro iterable rest₃ rest₃' related short₃
    refine alike_bind (alike_expectOp related loop function ":") ?_
    intro _ rest₄ rest₄' related short₄
    exact alike_pure related _ (by omega)
  · rw [if_neg assignable, if_neg assignable]
    exact alike_fail_bind related rfl _ _

theorem respects_functionHeader (f g : Nat) : S.Respects f g 12 0 functionHeader := by
  intro loop function ts ts' related within
  unfold functionHeader
  refine alike_bind (alike_identifier related loop function) ?_
  intro name rest rest' related short
  refine alike_bind (alike_expectOp related loop function "(") ?_
  intro _ rest₂ rest₂' related short₂
  refine alike_bind (respects_parameters f g [] related (within.same (by omega) (by omega))) ?_
  intro parameters rest₃ rest₃' related short₃
  refine alike_bind (alike_expectOp related loop function ")") ?_
  intro _ rest₄ rest₄' related short₄
  have colon {rest₅ rest₅' : List Token} (related : S.streams rest₅ rest₅')
      (short : rest₅.length < ts.length) :
      S.Alike (ts.length + 0)
        (do expectOp ⟨t, loop, function⟩ ":"; return (name, parameters))
        (do expectOp ⟨t', loop, function⟩ ":"; return (name, parameters)) rest₅ rest₅' := by
    refine alike_bind (alike_expectOp related loop function ":") ?_
    intro _ rest₆ rest₆' related short₆
    exact alike_pure related _ (by omega)
  refine alike_eatOp related "->" ?_ (colon related (by omega))
  intro rest₅ rest₅' related short₅
  refine alike_bind (alike_map _ ((readAlike S f g).expression _ related
    (within.same (by omega) (Level.rank_lt _)))) ?_
  exact fun _ rest₆ rest₆' related short₆ => colon related (by omega)

theorem respects_classHeader (f g : Nat) : S.Respects f g 12 0 classHeader := by
  intro loop function ts ts' related within
  unfold classHeader
  refine alike_bind (alike_identifier related loop function) ?_
  intro name rest rest' related short
  have colon (bases : List Expr) {rest₂ rest₂' : List Token} (related : S.streams rest₂ rest₂')
      (short : rest₂.length < ts.length) :
      S.Alike (ts.length + 0)
        (do expectOp ⟨t, loop, function⟩ ":"; return (name, bases))
        (do expectOp ⟨t', loop, function⟩ ":"; return (name, bases)) rest₂ rest₂' := by
    refine alike_bind (alike_expectOp related loop function ":") ?_
    intro _ rest₃ rest₃' related short₃
    exact alike_pure related _ (by omega)
  refine alike_eatOp related "(" ?_ (colon [] related short)
  intro rest₂ rest₂' related short₂
  refine alike_bind (respects_baseClasses f g related (within.same (by omega) (by omega))) ?_
  intro bases rest₃ rest₃' related short₃
  refine alike_bind (alike_expectOp related loop function ")") ?_
  intro _ rest₄ rest₄' related short₄
  exact colon bases related (by omega)

/-! ## Whole lines -/

/-- Both streams stand behind the end of a line, and related streams stood before it. -/
def BehindLine (S : Simulation t t') (rest rest' : List Token) : Prop :=
  ∃ last last', S.streams last last' ∧ isNewline (front last) = true ∧
    rest = last.tail ∧ rest' = last'.tail

theorem alike_ateOp (related : S.streams ts ts') (symbol : String) :
    S.Alike (ts.length + 1) (eatOp symbol) (eatOp symbol) ts ts' := by
  rw [← bind_pure (eatOp symbol)]
  exact alike_eatOp_bind related symbol
    (fun _ _ related short => alike_pure related true (by omega))
    (alike_pure related false (by omega))

theorem agree_current {β : Type} {left : List Token → List Token → Prop} {k k' : Token → Parser β}
    (next : S.Agree left (k (front ts) ts) (k' (front ts') ts')) :
    S.Agree left ((current >>= k) ts) ((current >>= k') ts') :=
  next

/-- Without a word between, nothing but the end of the line ends a line. -/
theorem agree_lineEnd (related : S.streams ts ts') (loop function : Bool)
    (v : α) : S.Agree S.BehindLine
      ((expectNewline ⟨t, loop, function⟩ >>= fun _ => pure v : Parser α) ts)
      ((expectNewline ⟨t', loop, function⟩ >>= fun _ => pure v : Parser α) ts') := by
  show S.Agree S.BehindLine
    (((if isNewline (front ts) = true then advance else unexpected ⟨t, loop, function⟩) >>=
      fun _ => pure v : Parser α) ts)
    (((if isNewline (front ts') = true then advance else unexpected ⟨t', loop, function⟩) >>=
      fun _ => pure v : Parser α) ts')
  rw [isNewline_eq related]
  by_cases line : isNewline (front ts) = true
  · rw [if_pos line, if_pos line]
    exact ⟨rfl, ts, ts', related, line, rfl, rfl⟩
  · rw [if_neg line, if_neg line]
    exact alike_unexpected (α := Unit) (m := 0) related loop function

/-- A line of simple statements is read alike where related streams stand on the same lines of the
source. -/
theorem agree_simpleLine
    (place : ∀ {ts ts'}, S.streams ts ts' → (front ts').pos.line = (front ts).pos.line)
    (f g : Nat) (loop function : Bool) (related : S.streams ts ts')
    (within : Within f g (16 * ts.length + 13)) :
    S.Agree S.BehindLine (simpleLine ⟨t, loop, function⟩ f ts)
      (simpleLine ⟨t', loop, function⟩ g ts') := by
  induction f generalizing g ts ts' with
  | zero =>
    obtain rfl : g = 0 := by
      unfold Within at within
      omega
    exact S.final related rfl
  | succ f ih =>
    cases g with
    | zero =>
      unfold Within at within
      omega
    | succ g =>
      rw [simpleLine, simpleLine]
      refine agree_current ?_
      dsimp only
      refine agree_bind (respects_simpleStatement f g related (within.pred (by omega))) ?_
      rintro first rest rest' ⟨related', short⟩
      refine agree_bind (alike_ateOp related' ";") ?_
      rintro semicolon rest₂ rest₂' ⟨related₂, short₂⟩
      rw [place related]
      cases semicolon with
      | false => exact agree_lineEnd related₂ loop function _
      | true =>
        show S.Agree S.BehindLine ((if isNewline (front rest₂) = true then _ else _ : Parser _) rest₂)
          ((if isNewline (front rest₂') = true then _ else _ : Parser _) rest₂')
        rw [isNewline_eq related₂]
        by_cases line : isNewline (front rest₂) = true
        · rw [if_pos line, if_pos line]
          exact agree_lineEnd related₂ loop function _
        · rw [if_neg line, if_neg line]
          refine agree_bind (ih g related₂ (within.pred (by omega))) ?_
          exact fun others _ _ behind => ⟨rfl, behind⟩

end Simulation

end Console.Parse
