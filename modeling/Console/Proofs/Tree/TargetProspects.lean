import Console.Proofs.Tree.ExpressionProspects

/-!
# Prospects of targets

What is assigned, deleted or looped over has to be a target. A target that is cut off inside a bracket
is completed with an attribute, whatever stands before it; one that an operator has joined to something,
or a sign stands before, is no target for good.
-/

namespace Console.Parse

open Token Filter

variable {A : List Token} {loop function : Bool} {σ : List Bracket} {aimed lenient : Prop}
  {goal : Expr → Prop}

/-- A goal that names and attributes meet, and nothing but targets. -/
structure Targeted (goal : Expr → Prop) : Prop where
  assignable : ∀ {e}, goal e → e.isAssignable = true
  name : goal (.name "x")
  member : ∀ e name, goal (.attribute e name)

theorem targeted_assignable : Targeted (·.isAssignable = true) := ⟨id, rfl, fun _ _ => rfl⟩

theorem targeted_place : Targeted (·.isPlace = true) where
  assignable {e} place := by
    cases e with
    | name => rfl
    | «attribute» => rfl
    | subscript => rfl
    | _ => cases place
  name := rfl
  member _ _ := rfl

namespace Prospects

open Outlook

/-- Nothing of this make is a target. -/
theorem missed_make {τ : List Bracket} {follow : Token → Prop} (targeted : Targeted goal)
    (aim : aimed) {make : Expr → Expr} (never : ∀ e, (make e).isAssignable = false)
    (p : Bool → Nat → Parser Expr) :
    Outlook aimed lenient goal σ τ follow (fun t f => p t f >>= fun e => pure (make e)) A := by
  refine .missed aim fun t D => .of_forall fun f v rest read meets => ?_
  obtain ⟨e, mid, -, made⟩ := bind_ok read
  cases made
  have assignable := targeted.assignable meets
  rw [never] at assignable
  cases assignable

/-- An attribute may be added. -/
theorem secures_trailers {α : Type} (targeted : Targeted goal) (value : α → Expr) :
    Secures goal σ σ (fun x => x.kind = .op ".") (Stops .trailer)
      (fun v t f => Parse.trailers ⟨t, loop, function⟩ f (value v)) := by
  have last : Secures goal σ σ (fun _ => True) (Stops .trailer)
      (fun (x : α × String) t f =>
        Parse.trailers ⟨t, loop, function⟩ f (.attribute (value x.1) x.2)) :=
    .nothing (fun _ _ => trivial) fun x _ _ stops =>
      ⟨.attribute (value x.1) x.2, targeted.member _ _, reads_trailers stops⟩
  refine .unfold (fun _ t f => by rw [Parse.trailers]) (.eatOp (.eatOp (.eatOp_present (by decide) rfl
    (Secures.identifier.bind last)) ?_) ?_)
  · exact fun x kind => by simp [isOp, kind]
  · exact fun x kind => by simp [isOp, kind]

theorem outlook_trailers (targeted : Targeted goal) (aim : aimed) (inside : ∀ x ∈ A, isEnd x = false)
    (value : Expr) :
    Outlook aimed lenient goal σ σ (Stops .trailer)
      (fun t f => Parse.trailers ⟨t, loop, function⟩ f value) A := by
  induction A, inside using left_induction generalizing value with
  | step A inside ih =>
    cases A with
    | nil => exact .of_finishes (secures_trailers targeted fun _ => value)
    | cons a A =>
      have inside : ∀ x ∈ A, isEnd x = false := fun x mem => inside x (by simp [mem])
      have further (value : Expr) {left : List Token} (suffix : left <:+ A) :
          Outlook aimed lenient goal σ σ (Stops .trailer)
            (fun t f => Parse.trailers ⟨t, loop, function⟩ f value) left := by
        obtain ⟨b, behind⟩ := exists_cons_suffix (a := a) suffix
        exact ih b left behind value
      have again {α : Type} (value : α → Expr) : Secures goal σ σ (fun _ => True) (Stops .trailer)
          (fun v t f => Parse.trailers ⟨t, loop, function⟩ f (value v)) :=
        (secures_trailers targeted value).mono fun _ _ => trivial
      have readings := prospects loop function inside
      refine .unfold (fun t f => by rw [Parse.trailers]) (.eatOp rfl (fun _ => ?call) fun _ =>
        .eatOp rfl (fun _ => ?subscript) fun _ => .eatOp rfl (fun _ => ?member) fun _ =>
          pure_or_missed fun _ => aim)
      case call =>
        exact bracketed (readings.arguments (.round :: σ) [] []) inside ⟨by decide, rfl⟩
          (fun x kind => by simp [isOp, kind]) (fun v left suffix => further _ suffix) (again _)
      case subscript =>
        have closing : nestWord? (.square :: σ) (.op "]") = some σ := rfl
        refine .bind (readings.sequence (.square :: σ) .conditional) (fun index b left suffix => ?_)
          ((((Secures.expectOp (by decide) closing).bind (again _)).atOp ?_).mono ?_)
        · have inside : ∀ x ∈ b :: left, isEnd x = false := fun x mem => inside x (suffix.mem mem)
          exact .atOp (fun _ => .fail_bind rfl _) fun _ =>
            .bind (.expectOp inside (by decide) closing)
              (fun _ c rest suffix' => further _ (suffix'.trans suffix)) (again _)
        · intro x kind
          simp [isOp, kind]
        · exact fun x kind => ⟨.of_kind kind rfl, by simp [isOp, kind]⟩
      case member =>
        exact .bind (.identifier inside) (fun name b left suffix => further _ suffix) (again _)

theorem isAssignable_joined {level : Level} (grouped : level = .sum ∨ level = .product)
    {kind : TokenKind} {join : Expr → Expr → Expr} (joins : level.joiner? kind = some join)
    (left right : Expr) : (join left right).isAssignable = false := by
  rcases grouped with rfl | rfl
  · unfold Level.joiner? at joins
    split at joins <;> cases joins <;> rfl
  · unfold Level.joiner? at joins
    split at joins <;> cases joins <;> rfl

/-- What operands are joined to is no target. -/
theorem operands_assignable {level : Level} (grouped : level = .sum ∨ level = .product) {ctx : Context}
    {f : Nat} {left v : Expr} {ts rest : List Token}
    (read : Parse.operands ctx f level left ts = .ok (v, rest)) (assignable : v.isAssignable = true) :
    v = left := by
  induction f generalizing left ts with
  | zero => cases read
  | succ f ih =>
    rw [Parse.operands, run_current] at read
    cases joins : level.joiner? (front ts).kind with
    | none =>
      rw [joins] at read
      cases read
      rfl
    | some join =>
      rw [joins] at read
      obtain ⟨_, _, _, read⟩ := bind_ok read
      obtain ⟨right, mid, _, read⟩ := bind_ok read
      rw [ih read, isAssignable_joined grouped joins] at assignable
      cases assignable

theorem outlook_operands (targeted : Targeted goal) (aim : aimed) {level : Level}
    (grouped : level = .sum ∨ level = .product) {left : Expr} (meets : goal left) :
    Outlook aimed lenient goal σ σ (Stops level)
      (fun t f => Parse.operands ⟨t, loop, function⟩ f level left) A := by
  cases A with
  | nil =>
    refine .completed [] (by simp) rfl ?_
    rintro t ts _ rfl stops
    exact ⟨left, meets, reads_operands stops⟩
  | cons a A =>
    refine .unfold (fun t f => by rw [Parse.operands]) (.current ?_)
    cases joins : level.joiner? a.kind with
    | none => exact .pure_to left meets
    | some join =>
      refine .missed aim fun t D => .of_forall fun f v rest read meets => ?_
      obtain ⟨_, _, _, read⟩ := bind_ok read
      obtain ⟨right, mid, _, read⟩ := bind_ok read
      have assignable := targeted.assignable meets
      rw [operands_assignable grouped read assignable, isAssignable_joined grouped joins] at assignable
      cases assignable

section Levels

variable {a : Token} (targeted : Targeted goal) (aim : aimed)
include targeted aim

theorem outlook_trailer (inside : ∀ x ∈ a :: A, isEnd x = false) :
    Outlook aimed lenient goal σ σ (Stops .trailer)
      (fun t f => Parse.expression ⟨t, loop, function⟩ f .trailer) (a :: A) := by
  refine .unfold (fun t f => by rw [Parse.expression]) ?_
  refine .bind ((prospects loop function inside).expression σ .atom)
    (fun value b rest suffix => ?_)
    ((secures_trailers targeted fun value => value).mono fun x _ => stops_atom x)
  exact outlook_trailers targeted aim (fun x mem => inside x (suffix.mem mem)) value

theorem outlook_power (tighter : Outlook aimed lenient goal σ σ (Stops .trailer)
      (fun t f => Parse.expression ⟨t, loop, function⟩ f .trailer) (a :: A)) :
    Outlook aimed lenient goal σ σ (Stops .power)
      (fun t f => Parse.expression ⟨t, loop, function⟩ f .power) (a :: A) := by
  refine .unfold (fun t f => by rw [Parse.expression]) (.bind_to tighter ?implied ?next ?finishes)
  case implied =>
    intro t base f mid v rest read meets
    obtain ⟨raised, mid', -, read⟩ := bind_ok read
    cases raised with
    | true =>
      obtain ⟨exponent, _, -, made⟩ := bind_ok read
      cases made
      cases targeted.assignable meets
    | false =>
      cases read
      exact meets
  case next =>
    intro base b rest meets suffix _
    exact .eatOp rfl (fun _ => missed_make targeted aim (fun _ => rfl) _) fun _ => .pure_to base meets
  case finishes =>
    refine ((Secures.pure_to Subtype.val Subtype.property fun _ stops => stops).eatOp ?_).mono ?_
    · exact fun x (stops : Stops .power x) => stops.isOp_eq_false rfl (by decide)
    · exact fun x stops => stops.mono (by decide)

theorem outlook_sign (tighter : Outlook aimed lenient goal σ σ (Stops .power)
      (fun t f => Parse.expression ⟨t, loop, function⟩ f .power) (a :: A)) :
    Outlook aimed lenient goal σ σ (Stops .sign)
      (fun t f => Parse.expression ⟨t, loop, function⟩ f .sign) (a :: A) := by
  refine .unfold (fun t f => by rw [Parse.expression]) ?_
  exact .eatOp rfl (fun _ => missed_make targeted aim (fun _ => rfl) _) fun _ =>
    .eatOp rfl (fun _ => missed_make targeted aim (fun _ => rfl) _) fun _ =>
      tighter.mono fun _ stops => stops.mono (by decide)

theorem outlook_grouped {level : Level} (grouped : level = .sum ∨ level = .product)
    (tighter : Outlook aimed lenient goal σ σ (Stops level.tighter)
      (fun t f => Parse.expression ⟨t, loop, function⟩ f level.tighter) (a :: A)) :
    Outlook aimed lenient goal σ σ (Stops level)
      (fun t f => Parse.expression ⟨t, loop, function⟩ f level) (a :: A) := by
  have groups : Simulation.groups level = true := by rcases grouped with rfl | rfl <;> rfl
  refine .unfold (fun t f => Simulation.expression_of_groups groups _ f)
    (.bind_to tighter ?implied ?next ?finishes)
  case implied =>
    intro t left f mid v rest read meets
    rwa [← operands_assignable grouped read (targeted.assignable meets)]
  case next =>
    intro left b rest meets suffix _
    exact outlook_operands targeted aim grouped meets
  case finishes =>
    exact .nothing (fun _ stops => stops.mono (rank_tighter_le level)) fun left _ _ stops =>
      ⟨left.1, left.2, reads_operands stops⟩

/-- A target, as it is deleted or looped over. -/
theorem outlook_target (inside : ∀ x ∈ A, isEnd x = false) :
    Outlook aimed lenient goal σ σ (Stops .sum)
      (fun t f => Parse.expression ⟨t, loop, function⟩ f .sum) A := by
  cases A with
  | nil =>
    refine .completed [.name "x"] (by decide) rfl fun t ts rest spells stops => ?_
    exact ⟨.name "x", targeted.name, reads_filler .sum _ _ _ spells stops⟩
  | cons a A =>
    refine outlook_grouped targeted aim (.inl rfl) ?_
    refine outlook_grouped targeted aim (.inr rfl) ?_
    refine outlook_sign targeted aim ?_
    refine outlook_power targeted aim ?_
    exact outlook_trailer targeted aim inside

end Levels

theorem outlook_sequenceRest (aim : aimed) (inside : ∀ x ∈ A, isEnd x = false) :
    Outlook aimed lenient (Expr.allAssignable · = true) σ σ
      (fun x => Stops .sum x ∧ isOp x "," = false)
      (fun t f => Parse.sequenceRest ⟨t, loop, function⟩ f .sum) A := by
  induction A, inside using left_induction with
  | step A inside ih =>
    cases A with
    | nil =>
      refine .completed [] (by simp) rfl ?_
      rintro t ts _ rfl ⟨-, alone⟩
      exact ⟨[], rfl, reads_sequenceRest_end alone⟩
    | cons a A =>
      refine .unfold (fun t f => by rw [Parse.sequenceRest]) (.eatOp rfl (fun separates => ?_)
        fun _ => .pure_to [] rfl)
      cases A with
      | nil =>
        refine .completed [.name "x"] (by decide) rfl ?_
        rintro t ts rest spells ⟨stops, alone⟩
        exact ⟨[.name "x"], rfl, reads_lastItem spells stops alone⟩
      | cons b A =>
        refine .current ?_
        by_cases starts : startsExpression b = true
        · simp only [starts, if_true]
          refine .bind_to
            (outlook_target targeted_assignable aim fun x mem => inside x (by simp [mem]))
            ?implied ?next ?finishes
          case implied =>
            intro t item f mid items rest read meets
            obtain ⟨others, _, -, made⟩ := bind_ok read
            cases made
            exact (Bool.and_eq_true_iff.1 meets).1
          case next =>
            intro item c rest meets suffix _
            obtain ⟨d, behind⟩ := exists_cons_suffix (a := a) suffix
            refine .bind_to (ih d (c :: rest) behind) ?_ ?_ ?_
            · intro t others f mid items rest read meets
              cases read
              exact (Bool.and_eq_true_iff.1 meets).2
            · exact fun others d rest meets' _ _ => .pure_to _ (Bool.and_eq_true_iff.2 ⟨meets, meets'⟩)
            · exact .pure_to _ (fun others => Bool.and_eq_true_iff.2 ⟨meets, others.2⟩) fun _ ok => ok
          case finishes =>
            exact .nothing (fun _ ok => ok.1) fun item t ts ok => ⟨[item.1],
              Bool.and_eq_true_iff.2 ⟨item.2, rfl⟩,
              (reads_sequenceRest_end ok.2).map fun items => item.1 :: items⟩
        · simp only [starts]
          exact .pure_to [] rfl

/-- The targets of a loop. -/
theorem outlook_targets (aim : aimed) (inside : ∀ x ∈ A, isEnd x = false) :
    Outlook aimed lenient (·.isAssignable = true) σ σ (fun x => Stops .sum x ∧ isOp x "," = false)
      (fun t f => Parse.sequence ⟨t, loop, function⟩ f .sum) A := by
  refine .unfold (fun t f => by rw [Parse.sequence])
    (.bind_to (outlook_target targeted_assignable aim inside) ?implied ?next ?finishes)
  case implied =>
    intro t first f mid v rest read meets
    obtain ⟨separated, _, -, read⟩ := bind_ok read
    cases separated with
    | true =>
      obtain ⟨others, _, -, made⟩ := bind_ok read
      cases made
      exact (Bool.and_eq_true_iff.1 meets).1
    | false =>
      cases read
      exact meets
  case next =>
    intro first a rest meets suffix _
    refine .atOp (fun _ => ?_) fun _ => .pure_to first meets
    refine .bind_to (outlook_sequenceRest aim fun x mem => inside x (suffix.mem mem)) ?_ ?_ ?_
    · intro t others f mid v rest made meets
      cases made
      exact (Bool.and_eq_true_iff.1 meets).2
    · exact fun others b rest meets' _ _ => .pure_to _ (Bool.and_eq_true_iff.2 ⟨meets, meets'⟩)
    · exact .pure_to _ (fun others => Bool.and_eq_true_iff.2 ⟨meets, others.2⟩) fun _ ok => ok
  case finishes =>
    exact ((Secures.pure_to Subtype.val Subtype.property fun _ ok => ok).atOp fun x ok => ok.2).mono
      fun x ok => ok.1

end Prospects

end Console.Parse
