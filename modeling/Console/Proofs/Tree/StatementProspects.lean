import Console.Proofs.Tree.ImportProspects
import Console.Proofs.Tree.LineRecovery
import Console.Proofs.Tree.TargetProspects

/-!
# Prospects of statements

Each simple statement and each header of a block that is cut off can be completed, unless it is
rejected for good. Only what is assigned, deleted or looped over may be no target, whatever completes
it, and what is imported from the future may be at fault.
-/

namespace Console.Parse

open Token Filter

variable {aimed : Prop} {A X : List Token}

/-! ## Inside a bracket -/

theorem openBrackets_append (closed : openBrackets? X = some []) (A : List Token) :
    openBrackets? (X ++ A) = openBrackets? A := by
  unfold openBrackets? at *
  rw [List.foldlM_append, closed]
  rfl

/-- Tokens of which the last stand inside a bracket; something is aimed at if a target may stand
among them. -/
structure Unclosed (aimed : Prop) (A : List Token) : Prop where
  inside : ∀ x ∈ A, isEnd x = false
  aims : ∀ x ∈ A, isAim x.kind = true → aimed
  opened : ∃ b σ, openBrackets? A = some (b :: σ)

namespace Unclosed

theorem ne_nil (h : Unclosed aimed A) : A ≠ [] := by
  rintro rfl
  obtain ⟨b, σ, opened⟩ := h.opened
  cases opened

theorem left (h : Unclosed aimed (X ++ A)) (closed : openBrackets? X = some []) :
    Unclosed aimed A := by
  refine ⟨fun x mem => h.inside x (by simp [mem]), fun x mem => h.aims x (by simp [mem]), ?_⟩
  rw [← openBrackets_append closed]
  exact h.opened

theorem mono {aimed' : Prop} (h : Unclosed aimed A) (le : aimed → aimed') : Unclosed aimed' A :=
  ⟨h.inside, fun x mem aim => le (h.aims x mem aim), h.opened⟩

theorem tail {a : Token} (h : Unclosed aimed (a :: A)) (flat : nest? [] a = some []) :
    Unclosed aimed A :=
  h.left (X := [a]) ((List.foldlM_cons ..).trans (by rw [flat]; rfl))

theorem cons (h : Unclosed aimed A) : ∃ a rest, A = a :: rest ∧ isEnd a = false :=
  let ⟨a, rest, same⟩ := List.exists_cons_of_ne_nil h.ne_nil
  ⟨a, rest, same, h.inside a (by simp [same])⟩

end Unclosed

namespace Prospects

open Outlook

variable {α : Type} {A : List Token} {loop function : Bool} {σ : List Bracket} {aimed lenient : Prop}
  {stage : Stage}

theorem stops_of_newline {x : Token} {level : Level} (newline : isNewline x = true) :
    Stops level x := .of_kind (kind_of_isNewline newline) rfl

/-! ## Names -/

/-- The items are read at a depth of their own. -/
theorem prospect_commaSeparated {item : Bool → Nat → Parser α} {follow : Token → Prop}
    (items : ∀ A', A' <:+ A → Prospect σ σ follow item A') (n : Nat) :
    Prospect σ σ (fun x => follow x ∧ isOp x "," = false)
      (fun t f => commaSeparated (item t (f + n)) f) A := by
  induction length : A.length using Nat.strongRecOn generalizing A n with
  | ind m ih =>
    have deep (f : Nat) : f + 1 + n = f + (n + 1) := by omega
    refine .unfold (fun t f => by rw [commaSeparated, deep])
      (.bind ((items A (List.suffix_refl A)).deeper (n + 1))
        (fun first a rest suffix => .eatOp rfl (fun _ => ?_) fun _ => .pure _) ?_)
    · have shorter := suffix.length_le
      rw [List.length_cons] at shorter
      have further := (List.suffix_cons a rest).trans suffix
      exact .bind (ih rest.length (by omega) (fun A' suffix' => items A' (suffix'.trans further))
        (n + 1) rfl) (fun _ _ _ _ => .pure _) (.pure _ fun _ ok => ok)
    · exact ((Secures.pure (fun first => [first]) fun _ ok => ok).eatOp fun _ ok => ok.2).mono
        fun _ ok => ok.1

/-! ## Simple statements -/

/-- A statement that may end here does. -/
theorem secures_atStatementEnd {β : Type} {goal : β → Prop} (make : α → β)
    (meets : ∀ v, goal (make v)) {n : α → Bool → Nat → Parser β} :
    Secures goal σ σ (isNewline · = true) (isNewline · = true)
      (fun v t f => atStatementEnd >>= fun b => if b = true then pure (make v) else n v t f) := by
  refine .nothing (fun _ newline => newline) fun v t ts newline =>
    ⟨make v, meets v, .of_eq fun f => ?_⟩
  show (if (isNewline (front ts) || isOp (front ts) ";") = true then _ else _ : Parser β) ts = _
  rw [newline]
  rfl

/-- Places that all meet a goal. -/
theorem outlook_deletedPlaces (good : Expr → Prop) (inside : ∀ x ∈ A, isEnd x = false)
    (place : ∀ A', (∀ x ∈ A', isEnd x = false) → Outlook aimed lenient good σ σ (Stops .sum)
      (fun t f => Parse.expression ⟨t, loop, function⟩ f .sum) A') :
    Outlook aimed lenient (∀ e ∈ ·, good e) σ σ (isNewline · = true)
      (fun t f => deletedPlaces ⟨t, loop, function⟩ f) A := by
  have alone {first : Expr} (fine : good first) : ∀ e ∈ [first], good e := by simpa using fine
  have added {first : Expr} {others : List Expr} (fine : good first) (all : ∀ e ∈ others, good e) :
      ∀ e ∈ first :: others, good e := List.forall_mem_cons.2 ⟨fine, all⟩
  induction A, inside using left_induction with
  | step A inside ih =>
    refine .unfold (fun t f => by rw [deletedPlaces])
      (.bind_to (place A inside) ?implied ?next ?finishes)
    case implied =>
      intro t first f mid targets rest read all
      obtain ⟨separated, _, -, read⟩ := bind_ok read
      cases separated with
      | true =>
        obtain ⟨ends, _, -, read⟩ := bind_ok read
        cases ends with
        | true =>
          cases read
          exact all first List.mem_cons_self
        | false =>
          obtain ⟨others, _, -, made⟩ := bind_ok read
          cases made
          exact all first List.mem_cons_self
      | false =>
        cases read
        exact all first List.mem_cons_self
    case next =>
      intro first a rest fine suffix _
      refine .eatOp rfl (fun _ => ?_) fun _ => .pure_to [first] (alone fine)
      cases rest with
      | nil => exact .of_finishes (secures_atStatementEnd (fun _ => [first]) fun _ => alone fine)
      | cons b rest =>
        refine .atStatementEnd (.pure_to [first] (alone fine)) (.bind_to (ih a (b :: rest) suffix) ?_
          (fun others _ _ all _ _ => .pure_to _ (added fine all))
          (.pure_to _ (fun others => added fine others.2) fun _ ok => ok))
        intro t others f mid targets rest made all
        cases made
        exact (List.forall_mem_cons.1 all).2
    case finishes =>
      exact ((Secures.pure_to (fun first : {e : Expr // good e} => [first.1])
        (fun first => alone first.2) fun _ ok => ok).eatOp fun _ newline =>
          isOp_of_newline newline ",").mono fun _ => stops_of_newline

/-- The targets behind a first one, and the value. -/
theorem outlook_assigned (good : Expr → Prop) (aim : ∀ e, ¬ good e → aimed)
    (inside : ∀ x ∈ A, isEnd x = false) (first : Expr) :
    Outlook aimed lenient (fun x => ∀ e ∈ first :: x.1, good e) σ σ (isNewline · = true)
      (fun t f => assigned ⟨t, loop, function⟩ f) A := by
  induction A, inside using left_induction generalizing first with
  | step A inside ih =>
    by_cases fine : good first
    · simp only [List.forall_mem_cons, fine, true_and]
      refine .unfold (fun t f => by rw [assigned])
        (.bind ((prospects loop function inside).sequence σ .conditional)
        (fun value a rest suffix => .eatOp rfl (fun _ => ?_) fun _ =>
          .pure_to ([], value) (by simp)) ?_)
      · refine .bind_to (ih a rest suffix value) ?_ (fun x _ _ all _ _ => .pure_to _ all)
          (.pure_to _ Subtype.property fun _ ok => ok)
        intro t x f mid targets rest made all
        cases made
        exact all
      · exact ((Secures.pure_to (fun value => ([], value)) (by simp) fun _ ok => ok).eatOp
          fun _ newline => isOp_of_newline newline "=").mono
            fun _ newline => ⟨stops_of_newline newline, isOp_of_newline newline ","⟩
    · exact .missed (aim first fine) fun t D => .of_forall fun f x rest _ all =>
        fine (all first List.mem_cons_self)

theorem nest_augmentedOp {a : Token} {op : BinaryOp} (augmented : augmentedOp? a.kind = some op) :
    nestWord? σ a.kind = some σ := by
  unfold augmentedOp? at augmented
  split at augmented
  case h_8 => cases augmented
  all_goals exact nest_of_same ‹_›

theorem outlook_expressionStatement (inside : ∀ x ∈ A, isEnd x = false)
    (aims : ∀ x ∈ A, isAim x.kind = true → aimed ∨ lenient) :
    Outlook aimed lenient stage.Permits σ σ (isNewline · = true)
      (fun t f => expressionStatement ⟨t, loop, function⟩ f) A := by
  unfold expressionStatement
  refine .bind ((prospects loop function inside).sequence σ .conditional)
    (fun first a rest suffix => ?_) ?_
  · have inside : ∀ x ∈ rest, isEnd x = false := fun x mem => inside x (suffix.mem (by simp [mem]))
    refine .current ?_
    cases augmented : augmentedOp? a.kind with
    | some op =>
      dsimp only
      by_cases place : first.isPlace = true
      · simp only [place, if_true]
        exact .advance (nest_augmentedOp augmented) (.bind
          ((prospects loop function inside).sequence σ .conditional)
          (fun _ _ _ _ => .pure_to _ trivial) (.pure_to _ (fun _ => trivial)
            fun _ newline => ⟨stops_of_newline newline, isOp_of_newline newline ","⟩))
      · simp only [place]
        exact .fail_bind rfl _
    | none =>
      refine .eatOp rfl (fun equals => ?_) fun _ => .pure_to _ trivial
      rcases aims a (suffix.mem (by simp)) (by simp [isAim, kind_of_isOp equals]) with aim | allowed
      · refine .checked ?_ (fun _ _ _ _ => .pure_to _ trivial)
          (.pure_to _ (fun _ => trivial) fun _ newline => newline)
        simpa only [List.all_eq_true] using outlook_assigned _ (fun _ _ => aim) inside first
      · refine .condoned allowed rfl ?_ (fun _ _ _ _ => .pure_to _ trivial)
          (.pure_to _ (fun _ => trivial) fun _ newline => newline)
        simpa using outlook_assigned (fun _ => True) (by simp) inside first
  · refine .nothing (fun _ newline => ⟨stops_of_newline newline, isOp_of_newline newline ","⟩)
      fun first t ts newline => ⟨.expr first, trivial, .of_eq fun f => ?_⟩
    rw [run_current, kind_of_isNewline newline]
    exact run_bind (eatOp_absent (isOp_of_newline newline "="))

/-- What a statement returns or raises. -/
theorem prospect_optionalValue {value : Bool → Nat → Parser Expr} {follow : Token → Prop}
    (first : Prospect σ σ follow value A) (follows : ∀ x, isNewline x = true → follow x) :
    Prospect σ σ (isNewline · = true) (fun t f => optionalValue (value t f)) A := by
  unfold optionalValue
  cases A with
  | nil => exact .of_finishes (secures_atStatementEnd (fun _ => none) fun _ => trivial)
  | cons a A =>
    exact .atStatementEnd (.pure none) (.bind first (fun _ _ _ _ => .pure _) (.pure _ follows))

theorem outlook_deleteStatement (aim : aimed ∨ lenient) (inside : ∀ x ∈ A, isEnd x = false) :
    Outlook aimed lenient stage.Permits σ σ (isNewline · = true)
      (fun t f => deleteStatement ⟨t, loop, function⟩ f) A := by
  rcases aim with aim | allowed
  · refine .checked ?_ (fun _ _ _ _ => .pure_to _ trivial)
      (.pure_to _ (fun _ => trivial) fun _ newline => newline)
    simpa only [List.all_eq_true] using outlook_deletedPlaces _ inside fun _ inside =>
      outlook_target targeted_place aim inside
  · refine .condoned allowed rfl ?_ (fun _ _ _ _ => .pure_to _ trivial)
      (.pure_to _ (fun _ => trivial) fun _ newline => newline)
    simpa using outlook_deletedPlaces (fun _ => True) inside fun _ inside =>
      (prospects loop function inside).expression σ .sum

theorem outlook_assertStatement (inside : ∀ x ∈ A, isEnd x = false) :
    Outlook aimed lenient stage.Permits σ σ (isNewline · = true)
      (fun t f => assertStatement ⟨t, loop, function⟩ f) A := by
  unfold assertStatement
  refine .bind ((prospects loop function inside).expression σ .conditional)
    (fun test a rest suffix => .eatOp rfl (fun _ => ?_) fun _ => .pure_to _ trivial) ?_
  · have inside : ∀ x ∈ rest, isEnd x = false := fun x mem => inside x (suffix.mem (by simp [mem]))
    exact .bind ((prospects loop function inside).expression σ .conditional)
      (fun _ _ _ _ => .pure_to _ trivial) (.pure_to _ (fun _ => trivial) fun _ => stops_of_newline)
  · exact ((Secures.pure_to (fun test => Simple.assert test none) (fun _ => trivial)
      fun _ ok => ok).eatOp
      fun _ newline => isOp_of_newline newline ",").mono fun _ => stops_of_newline

theorem outlook_jump {a : Token} {word : String} {action : Simple} (permitted : stage.Permits action)
    (nested : nestWord? σ a.kind = some σ) :
    Outlook aimed lenient stage.Permits σ σ (isNewline · = true)
      (fun t _ => jump ⟨t, loop, function⟩ word action) (a :: A) := by
  unfold jump
  cases loop with
  | true => exact .advance nested (.pure_to action permitted)
  | false => exact .fail_bind rfl _

theorem outlook_simpleStatement (stage : Stage) (strict : stage ≠ .inside → ¬ lenient)
    (inside : ∀ x ∈ A, isEnd x = false) (aims : ∀ x ∈ A, isAim x.kind = true → aimed ∨ lenient) :
    Outlook aimed lenient stage.Permits σ σ (isNewline · = true)
      (fun t f => simpleStatement ⟨t, loop, function⟩ f) A := by
  cases A with
  | nil =>
    refine .of_finishes (.one (by decide : isSpare (.name "pass") = true) rfl ?_)
    rintro _ t _ rest ⟨x, _, rfl, kind, rfl⟩ _
    refine ⟨.pass, trivial, .of_eq fun f => ?_⟩
    rw [simpleStatement, run_current]
    simp only [front, List.head?_cons, Option.getD_some, kind]
    rfl
  | cons a A =>
    have inside' : ∀ x ∈ A, isEnd x = false := fun x mem => inside x (by simp [mem])
    unfold simpleStatement
    refine .current ?_
    split
    case h_1 kind => exact .advance (nest_of_same kind) (.pure_to _ trivial)
    case h_2 kind => exact outlook_jump trivial (nest_of_same kind)
    case h_3 kind => exact outlook_jump trivial (nest_of_same kind)
    case h_4 kind =>
      cases function with
      | false => exact .fail_bind rfl _
      | true =>
        refine .advance (nest_of_same kind) (.bind (prospect_optionalValue
          ((prospects loop true inside').sequence σ .conditional) ?_)
          (fun _ _ _ _ => .pure_to _ trivial) (.pure_to _ (fun _ => trivial) fun _ ok => ok))
        exact fun _ newline => ⟨stops_of_newline newline, isOp_of_newline newline ","⟩
    case h_5 kind =>
      exact .advance (nest_of_same kind) (.bind (prospect_optionalValue
        ((prospects loop function inside').expression σ .conditional) fun _ => stops_of_newline)
        (fun _ _ _ _ => .pure_to _ trivial) (.pure_to _ (fun _ => trivial) fun _ ok => ok))
    case h_6 kind => exact .advance (nest_of_same kind) (outlook_assertStatement inside')
    case h_7 kind =>
      have inside' (A' : List Token) (suffix : A' <:+ A) : ∀ x ∈ A', isEnd x = false :=
        fun x mem => inside' x (suffix.mem mem)
      exact .advance (nest_of_same kind) (.bind
        (prospect_commaSeparated (fun A' suffix => .identifier (inside' A' suffix)) 0)
        (fun _ _ _ _ => .pure_to _ trivial)
        (.pure_to _ (fun _ => trivial) fun _ newline => ⟨trivial, isOp_of_newline newline ","⟩))
    case h_8 kind =>
      have aim := aims a (by simp) (by rw [kind]; rfl)
      exact .advance (nest_of_same kind) (outlook_deleteStatement aim inside')
    case h_9 kind =>
      have inside' (A' : List Token) (suffix : A' <:+ A) : ∀ x ∈ A', isEnd x = false :=
        fun x mem => inside' x (suffix.mem mem)
      exact .advance (nest_of_same kind) (.bind
        (prospect_commaSeparated (fun A' suffix => prospect_dottedName (inside' A' suffix)) 0)
        (fun _ _ _ _ => .pure_to _ trivial)
        (.pure_to _ (fun _ => trivial) fun _ newline =>
          ⟨isOp_of_newline newline ".", isOp_of_newline newline ","⟩))
    case h_10 kind =>
      exact .advance (nest_of_same kind) (outlook_importStatement inside'
        fun asked x mem kind =>
          (aims x (by simp [mem]) (by rw [kind]; rfl)).resolve_right (strict asked))
    case h_11 => exact outlook_expressionStatement inside aims

/-! ## Headers -/

/-- A header ends with a colon. -/
theorem prospect_colon {α : Type} (v : α) (inside : ∀ x ∈ A, isEnd x = false) :
    Prospect σ σ (fun _ => True)
      (fun t _ => expectOp ⟨t, loop, function⟩ ":" >>= fun _ => pure v) A :=
  .bind (.expectOp inside (by decide) rfl) (fun _ _ _ _ => .pure v) (.pure _ fun _ ok => ok)

theorem finishes_colon {β : Type} (make : α → β) :
    Finishes σ σ (fun x => x.kind = .op ":") (fun _ => True)
      (fun v t _ => expectOp ⟨t, loop, function⟩ ":" >>= fun _ => pure (make v)) :=
  (Secures.expectOp (by decide) rfl).bind (.pure (fun x : α × Unit => make x.1) fun _ ok => ok)

theorem prospect_testHeader (inside : ∀ x ∈ A, isEnd x = false) :
    Prospect σ σ (fun _ => True) (fun t f => testHeader ⟨t, loop, function⟩ f) A := by
  unfold testHeader
  exact .bind ((prospects loop function inside).expression σ .conditional)
    (fun test a rest suffix => prospect_colon test fun x mem => inside x (suffix.mem mem))
    ((finishes_colon id).mono fun x kind => .of_kind kind rfl)

theorem finishes_sequence {α : Type} (level : Level) :
    Finishes σ σ (fun x => x.kind = .name "x") (fun x => Stops level x ∧ isOp x "," = false)
      (fun (_ : α) t f => Parse.sequence ⟨t, loop, function⟩ f level) :=
  .one (by decide) rfl fun _ _ _ _ spells ok =>
    .of_reads (reads_sequence (reads_filler level _ _ _ spells ok.1) ok.2)

/-- What is read behind the target of a loop. -/
def loopedOver (ctx : Context) (fuel : Nat) (target : Expr) : Parser (Expr × Expr) := do
  expectWord ctx "in"
  let iterable ← Parse.sequence ctx fuel .conditional
  expectOp ctx ":"
  return (target, iterable)

theorem finishes_iterable {α : Type} (target : α → Expr) :
    Finishes σ σ (fun _ => True) (fun _ => True) (fun v t f =>
      Parse.sequence ⟨t, loop, function⟩ f .conditional >>= fun iterable =>
        expectOp ⟨t, loop, function⟩ ":" >>= fun _ => pure (target v, iterable)) :=
  ((finishes_sequence .conditional).bind ((finishes_colon fun v : α × Expr => (target v.1, v.2)).mono
    fun x kind => ⟨.of_kind kind rfl, by simp [isOp, kind]⟩)).mono fun _ _ => trivial

theorem finishes_loopedOver :
    Finishes σ σ (fun x => Stops .sum x ∧ isOp x "," = false) (fun _ => True)
      (fun target t f => loopedOver ⟨t, loop, function⟩ f target) := by
  have word : Finishes σ σ (fun x => x.kind = .name "in") (fun _ => True)
      (fun (_ : Expr) t (_ : Nat) => expectWord ⟨t, loop, function⟩ "in") := .expectWord (by decide)
  unfold loopedOver
  refine (word.bind (finishes_iterable Prod.fst)).mono fun x kind => ⟨fun l goes => ?_, ?_⟩
  · rw [kind] at goes
    cases goes
    decide
  · simp [isOp, kind]

theorem prospect_loopedOver (inside : ∀ x ∈ A, isEnd x = false) (target : Expr) :
    Prospect σ σ (fun _ => True) (fun t f => loopedOver ⟨t, loop, function⟩ f target) A := by
  unfold loopedOver
  refine .bind (.expectWord inside (by decide)) (fun _ a rest suffix => ?_)
    (finishes_iterable fun _ => target)
  have inside : ∀ x ∈ a :: rest, isEnd x = false := fun x mem => inside x (suffix.mem mem)
  refine .bind ((prospects loop function inside).sequence σ .conditional)
    (fun iterable b left suffix => prospect_colon (target, iterable) fun x mem =>
      inside x (suffix.mem mem)) ?_
  exact (finishes_colon fun iterable => (target, iterable)).mono fun x kind =>
    ⟨.of_kind kind rfl, by simp [isOp, kind]⟩

theorem outlook_forHeader (aim : aimed ∨ lenient) (inside : ∀ x ∈ A, isEnd x = false) :
    Outlook aimed lenient (fun _ => True) σ σ (fun _ => True)
      (fun t f => forHeader ⟨t, loop, function⟩ f) A := by
  have next (target : Expr) (a : Token) (rest : List Token) (suffix : a :: rest <:+ A) :
      Outlook aimed lenient (fun _ => True) σ σ (fun _ => True)
        (fun t f => loopedOver ⟨t, loop, function⟩ f target) (a :: rest) :=
    .of_prospect (prospect_loopedOver (fun x mem => inside x (suffix.mem mem)) target)
  rcases aim with aim | allowed
  · exact .checked (outlook_targets aim inside) next finishes_loopedOver
  · exact .condoned allowed rfl ((prospects loop function inside).sequence σ .sum) next
      finishes_loopedOver

/-- What follows a parameter. -/
theorem prospect_parametersRest {a : Token} {rest : List Token} {seen : List Parameter}
    (again : Prospect σ σ (isOp · ")")
      (fun t f => parameters ⟨t, loop, function⟩ f seen) rest) :
    Prospect σ σ (isOp · ")")
      (fun t f => parametersRest ⟨t, loop, function⟩ f seen) (a :: rest) :=
  .eatOp rfl (fun _ => again) fun _ => .pure _

theorem finishes_parametersRest {seen : α → List Parameter} :
    Finishes σ σ (fun x => isOp x ")" = true) (isOp · ")")
      (fun v t f => parametersRest ⟨t, loop, function⟩ f (seen v)) :=
  (Secures.pure (fun v => (seen v).reverse) fun _ ok => ok).eatOp fun x ends => by
    simp [isOp_of_kind (kind_of_isOp ends)]

theorem finishes_parameters (seen : α → List Parameter) :
    Finishes σ σ (isOp · ")") (isOp · ")")
      (fun v t f => parameters ⟨t, loop, function⟩ f (seen v)) :=
  .nothing (fun _ ends => ends) fun v t ts ends => .succ (.of_eq (v := (seen v).reverse) fun f => by
    rw [parameters, run_atOp, if_pos ends]
    rfl)

theorem prospect_parameters (inside : ∀ x ∈ A, isEnd x = false) (seen : List Parameter) :
    Prospect σ σ (isOp · ")") (fun t f => parameters ⟨t, loop, function⟩ f seen) A := by
  induction A, inside using left_induction generalizing seen with
  | step A inside ih =>
    cases A with
    | nil => exact .of_finishes (finishes_parameters fun _ => seen)
    | cons a A =>
      have onward (p : Parameter) {b : Token} {rest : List Token} (suffix : b :: rest <:+ A) :=
        prospect_parametersRest (a := b)
          (ih b rest (suffix.trans (List.suffix_cons a A)) (p :: seen))
      refine .unfold (fun t f => by rw [parameters]) (.atOp (fun _ => .pure _) fun _ =>
        .identifier_bind (inside a (by simp)) fun name kind => ?_)
      dsimp only
      by_cases repeated : (seen.any fun x => x.name == name) = true
      · simp only [repeated, if_true]
        exact .fail_bind rfl _
      simp only [repeated]
      cases A with
      | nil =>
        -- Behind a default a parameter needs one too.
        refine .of_finishes (.eatOp_present (by decide) rfl (((finishes_expression
          .conditional).map some).bind (finishes_parametersRest.mono ?_)))
        exact fun x ends => .of_kind (kind_of_isOp ends) rfl
      | cons b A =>
        refine .eatOp rfl (fun _ => ?_) fun _ => ?_
        · have inside : ∀ x ∈ A, isEnd x = false := fun x mem => inside x (by simp [mem])
          refine .bind (.map some ((prospects loop function inside).expression σ .conditional))
            (fun default c rest suffix => ?_) ?_
          · exact onward ⟨name, default⟩ (suffix.trans (List.suffix_cons b A))
          · exact finishes_parametersRest.mono fun x ends => .of_kind (kind_of_isOp ends) rfl
        · by_cases behind : (seen.any fun x => x.default.isSome) = true
          · simp only [behind, if_true]
            exact .fail_bind rfl _
          · simp only [behind]
            exact onward ⟨name, none⟩ (List.suffix_refl _)

theorem prospect_baseClasses (inside : ∀ x ∈ A, isEnd x = false) :
    Prospect σ σ (isOp · ")") (fun t f => baseClasses ⟨t, loop, function⟩ f) A := by
  induction A, inside using left_induction with
  | step A inside ih =>
    exact prospect_items (fun t f => by rw [baseClasses])
      ((prospects loop function inside).expression σ .conditional)
      (fun x ends => .of_kind (kind_of_isOp ends) rfl) (by decide) ih

theorem prospect_classHeader (inside : ∀ x ∈ A, isEnd x = false) :
    Prospect σ σ (fun _ => True) (fun t f => classHeader ⟨t, loop, function⟩ f) A := by
  unfold classHeader
  refine .bind (.identifier inside) (fun name a rest suffix => .eatOp rfl (fun _ => ?_) fun _ =>
    prospect_colon _ fun x mem => inside x (suffix.mem mem)) ?_
  · have inside : ∀ x ∈ rest, isEnd x = false := fun x mem => inside x (suffix.mem (by simp [mem]))
    exact bracketed (prospect_baseClasses inside) inside ⟨by decide, rfl⟩
      (fun x kind => by simp [isOp, kind])
      (fun _ left suffix => prospect_colon _ fun x mem => inside x (suffix.mem mem))
      ((finishes_colon _).mono fun _ _ => trivial)
  · exact ((finishes_colon _).eatOp fun x kind => by simp [isOp, kind]).mono fun _ _ => trivial

theorem prospect_functionHeader (unclosed : Unclosed (aimed ∨ lenient) A) :
    Prospect σ σ (fun _ => True) (fun t f => functionHeader ⟨t, loop, function⟩ f) A := by
  obtain ⟨a, rest, rfl, inside⟩ := unclosed.cons
  unfold functionHeader
  refine .identifier_bind inside fun name kind => ?_
  obtain ⟨b, rest, rfl, inside⟩ := (unclosed.tail (nest_of_kind (by simp [kind]) _)).cons
  refine .expectOp_bind inside rfl fun _ => ?_
  have inside : ∀ x ∈ rest, isEnd x = false := fun x mem => unclosed.inside x (by simp [mem])
  have result {α : Type} (make : α → String × List Parameter) :
      Finishes σ σ (fun x => x.kind = .op ":") (fun _ => True)
        (fun v t f => eatOp "->" >>= fun b =>
          if b = true then
            (discard <| Parse.expression ⟨t, loop, function⟩ f .conditional) >>= fun _ =>
              expectOp ⟨t, loop, function⟩ ":" >>= fun _ => pure (make v)
          else expectOp ⟨t, loop, function⟩ ":" >>= fun _ => pure (make v)) :=
    (finishes_colon make).eatOp fun x kind => by simp [isOp, kind]
  refine bracketed (prospect_parameters inside []) inside ⟨by decide, rfl⟩
    (fun x kind => by simp [isOp, kind]) (fun parameters left suffix => ?_)
    ((result _).mono fun _ _ => trivial)
  have inside : ∀ x ∈ left, isEnd x = false := fun x mem => inside x (suffix.mem mem)
  cases left with
  | nil => exact .of_finishes (result fun _ => (name, parameters))
  | cons c left =>
    refine .eatOp rfl (fun _ => ?_) fun _ => prospect_colon _ inside
    have inside : ∀ x ∈ left, isEnd x = false := fun x mem => inside x (by simp [mem])
    exact .bind (.map _ ((prospects loop function inside).expression σ .conditional))
      (fun _ d rest'' suffix'' => prospect_colon _ fun x mem => inside x (suffix''.mem mem))
      ((finishes_colon _).mono fun x kind => .of_kind kind rfl)

end Prospects

end Console.Parse
