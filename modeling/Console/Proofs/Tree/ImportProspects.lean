import Console.Proofs.Program
import Console.Proofs.Tree.ExpressionProspects

/-!
# Prospects of imports

An import that is cut off is completed with the feature `division`, which may be imported from any
module. It goes astray only if the module read before the cut is `__future__`: then the names have to
be features, and no other statement may stand in front.
-/

namespace Console

open Token Parse

namespace Program

theorem addFeatures_ok_iff (line : Nat) (features : Features) {names : List String} :
    (∃ future, addFeatures line features names = .ok future) ↔
      ∀ name ∈ names, (Feature.ofName? name).isSome = true := by
  induction names generalizing features with
  | nil => simp [addFeatures]
  | cons name names ih =>
    rw [addFeatures, List.forall_mem_cons]
    by_cases braces : name = "braces"
    · subst braces
      simp [show Feature.ofName? "braces" = none by decide]
    · rw [if_neg braces]
      cases known : Feature.ofName? name with
      | none => simp
      | some feature => simp [ih]

/-- Whether the imports are in order does not depend on the features before. -/
theorem futureFrom_any {features : Features} {body : List Statement} (features' : Features)
    (read : ∃ future, futureFrom features body = .ok future) :
    ∃ future, futureFrom features' body = .ok future := by
  induction body generalizing features features' with
  | nil => exact ⟨features', rfl⟩
  | cons s rest ih =>
    simp only [futureFrom] at read ⊢
    cases imports : futureNames? s with
    | some names =>
      rw [imports] at read
      obtain ⟨future, read⟩ := read
      dsimp only at read ⊢
      cases added : addFeatures s.line features names with
      | error e =>
        rw [added] at read
        cases read
      | ok more =>
        rw [added] at read
        obtain ⟨more', added'⟩ := (addFeatures_ok_iff _ _).2 ((addFeatures_ok_iff _ _).1 ⟨more, added⟩)
        rw [added']
        exact ih more' ⟨future, read⟩
    | none =>
      rw [imports] at read
      dsimp only at read ⊢
      cases late : rest.find? fun s => (futureNames? s).isSome with
      | some s' =>
        rw [late] at read
        obtain ⟨_, read⟩ := read
        cases read
      | none => exact ⟨features', rfl⟩

theorem futureNames_import (line : Nat) (module : String) (names : List String) :
    futureNames? (.simple line (.importNames module names)) =
      if module = "__future__" then some names else none := by
  unfold futureNames?
  split
  · rename_i same
    cases same
    rw [if_pos rfl]
  · rename_i other
    rw [if_neg]
    rintro rfl
    exact other _ _ rfl

end Program

namespace Parse

/-- Where a statement stands, as far as imports from the future go. -/
inductive Stage
  /-- In a block, where nothing is asked of them. -/
  | inside
  /-- Behind nothing but imports from the future. -/
  | leading
  /-- Behind another statement. -/
  | late

namespace Stage

/-- The module holds the name, so far as anything is asked of it. -/
def Knows (stage : Stage) (module name : String) : Prop :=
  module = "__future__" → stage = .leading → (Feature.ofName? name).isSome = true

/-- The statement may stand there. -/
def Permits (stage : Stage) : Simple → Prop
  | .importNames module names =>
    (module = "__future__" → stage ≠ .late) ∧ ∀ name ∈ names, stage.Knows module name
  | _ => True

/-- The stage behind a statement. -/
def behind : Stage → Simple → Stage
  | .leading, .importNames module _ => if module = "__future__" then .leading else .late
  | .leading, _ => .late
  | stage, _ => stage

/-- The statements may stand there one behind the other. -/
def Keeps : Stage → List Statement → Prop
  | .inside, _ => True
  | .leading, body => ∃ future, Program.futureFrom .none body = .ok future
  | .late, body => ∀ s ∈ body, Program.futureNames? s = none

theorem keeps_nil (stage : Stage) : stage.Keeps [] := by
  cases stage with
  | inside => trivial
  | leading => exact ⟨_, rfl⟩
  | late => simp [Keeps]

theorem keeps_other {line : Nat} {s : Simple} {rest : List Statement}
    (other : Program.futureNames? (.simple line s) = .none) :
    Stage.leading.Keeps (.simple line s :: rest) ↔ Stage.late.Keeps rest := by
  simp only [Keeps, Program.futureFrom, other]
  cases found : rest.find? fun s => (Program.futureNames? s).isSome with
  | none => simpa using found
  | some late =>
    have inside := List.mem_of_find?_eq_some found
    have future := List.find?_some found
    constructor
    · rintro ⟨_, read⟩
      cases read
    · intro all
      simp [all late inside] at future

/-- Behind an import from the future the next one may stand too. -/
theorem keeps_future {line : Nat} {names : List String} {rest : List Statement} :
    Stage.leading.Keeps (.simple line (.importNames "__future__" names) :: rest) ↔
      (∀ name ∈ names, (Feature.ofName? name).isSome = true) ∧ Stage.leading.Keeps rest := by
  simp only [Keeps, Program.futureFrom, Program.futureNames_import, if_true, Statement.line]
  rw [← Program.addFeatures_ok_iff line .none]
  constructor
  · rintro ⟨future, read⟩
    cases added : Program.addFeatures line .none names with
    | error e =>
      rw [added] at read
      cases read
    | ok more =>
      rw [added] at read
      exact ⟨⟨more, rfl⟩, Program.futureFrom_any .none ⟨future, read⟩⟩
  · rintro ⟨⟨more, added⟩, read⟩
    rw [added]
    exact Program.futureFrom_any more read

theorem keeps_cons (stage : Stage) (line : Nat) (s : Simple) (rest : List Statement) :
    stage.Keeps (.simple line s :: rest) ↔ stage.Permits s ∧ (stage.behind s).Keeps rest := by
  cases stage with
  | inside => cases s <;> simp [Keeps, Permits, Knows, behind]
  | late =>
    cases s with
    | importNames module names => simp [Keeps, Permits, Knows, behind, Program.futureNames_import]
    | _ => simp [Keeps, Permits, behind, Program.futureNames?]
  | leading =>
    cases s with
    | importNames module names =>
      by_cases future : module = "__future__"
      · subst future
        rw [keeps_future]
        simp [Permits, Knows, behind]
      · rw [keeps_other (by rw [Program.futureNames_import, if_neg future])]
        simp [Permits, Knows, behind, future]
    | _ => exact (keeps_other rfl).trans (by simp [Permits, behind])

end Stage

namespace Prospects

open Outlook

variable {A : List Token} {loop function : Bool} {σ : List Bracket} {aimed lenient : Prop}

theorem isOp_of_newline {x : Token} (newline : isNewline x = true) (symbol : String) :
    isOp x symbol = false := by
  simp [isOp, kind_of_isNewline newline]

theorem prospect_dottedName (inside : ∀ x ∈ A, isEnd x = false) :
    Prospect σ σ (isOp · "." = false) (fun t f => dottedName ⟨t, loop, function⟩ f) A := by
  induction A, inside using left_induction with
  | step A inside ih =>
    refine .unfold (fun t f => by rw [dottedName]) (.bind (.identifier inside)
      (fun first a rest suffix => .eatOp rfl (fun _ => ?_) fun _ => .pure first) ?_)
    · exact .bind (ih a rest suffix) (fun _ _ _ _ => .pure _) (.pure _ fun _ ok => ok)
    · exact ((Secures.pure id fun _ ok => ok).eatOp fun _ ok => ok).mono fun _ _ => trivial

/-- A name with a point in it is another one. -/
theorem dotted_ne (first rest : String) : first ++ "." ++ rest ≠ "__future__" := by
  intro same
  have point : '.' ∈ (first ++ "." ++ rest).toList := by simp [String.toList_append]
  rw [same] at point
  exact absurd point (by decide)

theorem identifier_ok {ctx : Context} {ts rest : List Token} {word : String}
    (read : identifier ctx ts = .ok (word, rest)) :
    (front ts).kind = .name word ∧ rest = ts.tail := by
  rw [identifier, run_current] at read
  cases kind : (front ts).kind with
  | name text =>
    simp only [kind] at read
    split at read
    · cases read
    · cases read
      exact ⟨rfl, rfl⟩
  | _ =>
    simp only [kind] at read
    cases read

theorem front_of_future {ctx : Context} {f : Nat} {ts rest : List Token}
    (read : dottedName ctx f ts = .ok ("__future__", rest)) :
    (front ts).kind = .name "__future__" := by
  cases f with
  | zero => cases read
  | succ f =>
    rw [dottedName] at read
    obtain ⟨first, mid, named, read⟩ := bind_ok read
    obtain ⟨dotted, mid', -, read⟩ := bind_ok read
    cases dotted with
    | true =>
      obtain ⟨more, _, -, made⟩ := bind_ok read
      exact absurd (congrArg Prod.fst (Except.ok.inj made)) (dotted_ne first more)
    | false =>
      cases read
      exact (identifier_ok named).1

/-- A module that may be asked for. -/
theorem outlook_dottedName (asked : Prop) (inside : ∀ x ∈ A, isEnd x = false)
    (aim : ¬ asked → ∀ x ∈ A, x.kind = .name "__future__" → aimed) :
    Outlook aimed lenient (fun module => module = "__future__" → asked) σ σ (isOp · "." = false)
      (fun t f => dottedName ⟨t, loop, function⟩ f) A := by
  have completed (first : String) : Secures (fun module => module = "__future__" → asked) σ σ
      (fun x => x.kind = .name "x") (isOp · "." = false) fun (_ : Unit) t f =>
        dottedName ⟨t, loop, function⟩ f >>= fun rest => pure (first ++ "." ++ rest) := by
    have one : Finishes σ σ (fun x => x.kind = .name "x") (isOp · "." = false)
        fun (_ : Unit) t f => dottedName ⟨t, loop, function⟩ f :=
      .unfold (fun _ t f => by rw [dottedName]) (Secures.identifier.bind
        (((Secures.pure Prod.snd fun _ ok => ok).eatOp fun _ ok => ok).mono fun _ _ => trivial))
    exact one.bind (.pure_to _ (fun x same => absurd same (dotted_ne first x.2)) fun _ ok => ok)
  cases A with
  | nil =>
    refine .of_finishes (.one (by decide : isSpare (.name "x") = true) rfl ?_)
    intro _ t ts rest spells ok
    refine ⟨"x", by simp, .succ (.of_forall fun f => ?_)⟩
    rw [dottedName, run_bind (identifier_of_spells spells (by decide) _), run_bind (eatOp_absent ok)]
    rfl
  | cons a A =>
    refine .unfold (fun t f => by rw [dottedName])
      (.identifier_bind (inside a (by simp)) fun first kind => ?_)
    cases A with
    | nil =>
      exact .of_finishes (.eatOp_present (by decide) rfl (completed first))
    | cons b A =>
      refine .eatOp rfl (fun _ => ?_) fun _ => .pure_or_missed fun asks => ?_
      · refine .bind (prospect_dottedName fun x mem => inside x (by simp [mem]))
          (fun rest _ _ _ => .pure_to _ fun same => absurd same (dotted_ne first rest)) ?_
        exact .pure_to _ (fun rest same => absurd same (dotted_ne first rest)) fun _ ok => ok
      · obtain ⟨rfl, unasked⟩ := Classical.not_imp.1 asks
        exact aim unasked a (by simp) kind

variable {good : String → Prop}

theorem secures_importedNames {α : Type} (division : good "division") (bracketed : Bool) :
    Secures (fun names => ∀ name ∈ names, good name) σ σ (fun x => x.kind = .name "division")
      (isOp · "," = false)
      (fun (_ : α) t f => importedNames ⟨t, loop, function⟩ bracketed f) := by
  refine .one (by decide) rfl fun _ t ts rest spells ok =>
    ⟨["division"], by simpa using division, .succ (.of_forall fun f => ?_)⟩
  rw [importedNames, run_bind (identifier_of_spells spells (by decide) _), run_bind (eatOp_absent ok)]
  rfl

/-- What is read behind a first name. -/
def furtherNames (ctx : Context) (bracketed : Bool) (fuel : Nat) (first : String) :
    Parser (List String) := do
  if ← eatOp "," then
    if bracketed && (← atOp ")") then return [first]
    else return first :: (← importedNames ctx bracketed fuel)
  else return [first]

theorem mem_of_furtherNames {ctx : Context} {bracketed : Bool} {f : Nat} {first : String}
    {ts rest : List Token} {names : List String}
    (read : furtherNames ctx bracketed f first ts = .ok (names, rest)) : first ∈ names := by
  obtain ⟨more, _, -, read⟩ := bind_ok read
  cases more with
  | true =>
    obtain ⟨closes, _, -, read⟩ := bind_ok read
    by_cases ends : (bracketed && closes) = true
    · rw [if_pos ends] at read
      cases read
      exact List.mem_cons_self
    · rw [if_neg ends] at read
      obtain ⟨others, _, -, made⟩ := bind_ok read
      cases made
      exact List.mem_cons_self
  | false =>
    cases read
    exact List.mem_cons_self

theorem outlook_furtherNames {first : String} (division : good "division") (fine : good first)
    (bracketed : Bool)
    (names : ∀ b B, b :: B <:+ A → Outlook aimed lenient (∀ name ∈ ·, good name) σ σ
      (isOp · "," = false) (fun t f => importedNames ⟨t, loop, function⟩ bracketed f) B) :
    Outlook aimed lenient (∀ name ∈ ·, good name) σ σ (isOp · "," = false)
      (fun t f => furtherNames ⟨t, loop, function⟩ bracketed f first) A := by
  have alone (B : List Token) : Outlook aimed lenient (∀ name ∈ ·, good name) σ σ
      (isOp · "," = false) (fun _ _ => pure [first]) B := .pure_to _ (by simpa using fine)
  have added {others : List String} (all : ∀ name ∈ others, good name) :
      ∀ name ∈ first :: others, good name := List.forall_mem_cons.2 ⟨fine, all⟩
  cases A with
  | nil =>
    refine .of_finishes (.eatOp (.pure_to (fun _ => [first]) ?_ fun _ ok => ok) fun _ ok => ok)
    exact fun _ => by simpa using fine
  | cons b A =>
    refine .eatOp rfl (fun _ => ?_) fun _ => alone _
    have again : Outlook aimed lenient (∀ name ∈ ·, good name) σ σ (isOp · "," = false)
        (fun t f => do return first :: (← importedNames ⟨t, loop, function⟩ bracketed f)) A := by
      refine .bind_to (names b A (List.suffix_refl _)) ?_
        (fun others c rest all _ _ => .pure_to _ (added all))
        (.pure_to _ (fun others => added others.2) fun _ ok => ok)
      intro t others f mid names rest made all
      cases made
      exact (List.forall_mem_cons.1 all).2
    cases bracketed with
    | false => exact again
    | true =>
      cases A with
      | cons c A => exact .atOp (fun _ => alone _) fun _ => again
      | nil =>
        refine .of_finishes (((secures_importedNames division true).bind_to (.pure_to _
          (fun x => added x.2) fun _ ok => ok)).atOp ?_)
        exact fun x kind => by simp [isOp, kind]

theorem outlook_importedNames (division : good "division") (aim : ∀ name, ¬ good name → aimed)
    (inside : ∀ x ∈ A, isEnd x = false) (bracketed : Bool) :
    Outlook aimed lenient (fun names => ∀ name ∈ names, good name) σ σ (isOp · "," = false)
      (fun t f => importedNames ⟨t, loop, function⟩ bracketed f) A := by
  induction A, inside using left_induction with
  | step A inside ih =>
    cases A with
    | nil => exact .of_finishes (secures_importedNames division bracketed)
    | cons a A =>
      refine .unfold (fun t f => by rw [importedNames]) (.identifier_bind (inside a (by simp)) ?_)
      intro first kind
      by_cases fine : good first
      · exact outlook_furtherNames division fine bracketed fun b B suffix =>
          ih b B (suffix.trans (List.suffix_cons a A))
      · -- The name is one of those that are read, however many follow.
        refine .missed (aim first fine) fun t D => .of_forall fun f names rest read all => ?_
        exact fine (all first (mem_of_furtherNames read))

/-- What is read behind the name of a module. -/
def importedFrom (ctx : Context) (fuel : Nat) (module : String) : Parser Simple := do
  expectWord ctx "import"
  if ← eatOp "*" then return .importNames module ["*"]
  else
    let bracketed ← eatOp "("
    let names ← importedNames ctx bracketed fuel
    if bracketed then expectOp ctx ")"
    return .importNames module names

theorem importStatement_eq (ctx : Context) (f : Nat) :
    importStatement ctx f = dottedName ctx f >>= importedFrom ctx f := rfl

theorem importedFrom_ok {ctx : Context} {f : Nat} {module : String} {ts rest : List Token} {s : Simple}
    (read : importedFrom ctx f module ts = .ok (s, rest)) :
    ∃ names, s = .importNames module names := by
  obtain ⟨_, _, -, read⟩ := bind_ok read
  obtain ⟨star, _, -, read⟩ := bind_ok read
  cases star with
  | true =>
    cases read
    exact ⟨_, rfl⟩
  | false =>
    obtain ⟨bracketed, _, -, read⟩ := bind_ok read
    obtain ⟨names, _, -, read⟩ := bind_ok read
    cases bracketed with
    | true =>
      obtain ⟨_, _, -, made⟩ := bind_ok read
      cases made
      exact ⟨names, rfl⟩
    | false =>
      cases read
      exact ⟨names, rfl⟩

variable {stage : Stage}

theorem secures_names {α : Type} (module : α → String)
    (early : ∀ v, module v = "__future__" → stage ≠ .late) :
    Secures stage.Permits σ σ (fun x => x.kind = .name "division") (isNewline · = true)
      (fun v t f => eatOp "*" >>= fun b =>
        if b = true then pure (Simple.importNames (module v) ["*"])
        else eatOp "(" >>= fun bracketed =>
          importedNames ⟨t, loop, function⟩ bracketed f >>= fun names =>
            if bracketed = true then
              expectOp ⟨t, loop, function⟩ ")" >>= fun _ => pure (.importNames (module v) names)
            else pure (.importNames (module v) names)) := by
  have only : Secures (fun names => ∀ name ∈ names, name = "division") σ σ
      (fun x => x.kind = .name "division") (isOp · "," = false)
      (fun (_ : α) t f => importedNames ⟨t, loop, function⟩ false f) :=
    secures_importedNames (by rfl) false
  refine .eatOp (.eatOp_bind (only.bind_to (.pure_to _ ?_ ?_)) ?_) ?_
  · refine fun x => ⟨early _, fun name mem _ _ => ?_⟩
    rw [x.2 name mem]
    rfl
  · exact fun _ newline => isOp_of_newline newline ","
  · exact fun x kind => by simp [isOp, kind]
  · exact fun x kind => by simp [isOp, kind]

theorem secures_importedFrom {α : Type} (module : α → String)
    (early : ∀ v, module v = "__future__" → stage ≠ .late) :
    Secures stage.Permits σ σ (fun x => x.kind = .name "import") (isNewline · = true)
      (fun v t f => importedFrom ⟨t, loop, function⟩ f (module v)) := by
  have word : Finishes σ σ (fun x => x.kind = .name "import") (fun _ => True)
      (fun (_ : α) t (_ : Nat) => expectWord ⟨t, loop, function⟩ "import") :=
    .expectWord (by decide)
  unfold importedFrom
  exact word.bind ((secures_names (fun x : α × Unit => module x.1) fun x => early x.1).mono
    fun _ _ => trivial)

theorem outlook_importedFrom {module : String} (early : module = "__future__" → stage ≠ .late)
    (aim : stage ≠ .inside → module = "__future__" → aimed) (inside : ∀ x ∈ A, isEnd x = false) :
    Outlook aimed lenient stage.Permits σ σ (isNewline · = true)
      (fun t f => importedFrom ⟨t, loop, function⟩ f module) A := by
  have unknown (name : String) (stranger : ¬ stage.Knows module name) : aimed := by
    obtain ⟨future, others⟩ := Classical.not_imp.1 stranger
    refine aim (fun inside => others fun leading => ?_) future
    cases inside.symm.trans leading
  have permitted {names : List String} (known : ∀ name ∈ names, stage.Knows module name) :
      stage.Permits (.importNames module names) := ⟨early, known⟩
  unfold importedFrom
  refine .bind (.expectWord inside (by decide)) (fun _ a rest suffix => ?_)
    ((secures_names (fun _ => module) fun _ => early).mono fun _ _ => trivial)
  have inside : ∀ x ∈ a :: rest, isEnd x = false := fun x mem => inside x (suffix.mem mem)
  refine .eatOp rfl (fun _ => .pure_or_missed fun bad => ?_) fun _ => .eatOp_bind rfl (fun _ => ?_)
    fun _ => ?_
  · by_contra aimless
    exact bad (permitted fun name _ => by_contra fun stranger => aimless (unknown name stranger))
  · have inside : ∀ x ∈ rest, isEnd x = false := fun x mem => inside x (by simp [mem])
    refine .bind_to (outlook_importedNames (fun _ _ => rfl) unknown inside true) ?implied
      (fun names b left known suffix _ => ?_) ?_
    case implied =>
      intro t names f mid s rest read permits
      obtain ⟨_, _, -, made⟩ := bind_ok read
      cases made
      exact permits.2
    · have inside : ∀ x ∈ b :: left, isEnd x = false := fun x mem => inside x (suffix.mem mem)
      exact .bind (.expectOp inside (by decide) rfl) (fun _ _ _ _ => .pure_to _ (permitted known))
        (.pure_to _ (fun _ => permitted known) fun _ _ => trivial)
    · refine ((Secures.expectOp (by decide) rfl).bind (.pure_to _ ?_ fun _ _ => trivial)).mono ?_
      · exact fun x => permitted x.1.2
      · exact fun x kind => by simp [isOp, kind]
  · refine .bind_to (outlook_importedNames (fun _ _ => rfl) unknown inside false) ?implied
      (fun names _ _ known _ _ => .pure_to _ (permitted known))
      (.pure_to _ (fun names => permitted names.2) fun _ newline => isOp_of_newline newline ",")
    intro t names f mid s rest made permits
    cases made
    exact permits.2

theorem outlook_importStatement (inside : ∀ x ∈ A, isEnd x = false)
    (aim : stage ≠ .inside → ∀ x ∈ A, x.kind = .name "__future__" → aimed) :
    Outlook aimed lenient stage.Permits σ σ (isNewline · = true)
      (fun t f => importStatement ⟨t, loop, function⟩ f) A := by
  simp only [importStatement_eq]
  have early (late : ¬ stage ≠ .late) : ∀ x ∈ A, x.kind = .name "__future__" → aimed := by
    refine aim fun inside => late ?_
    rw [inside]
    exact nofun
  refine .bind_to (outlook_dottedName (stage ≠ .late) inside early) ?implied ?next ?finishes
  case implied =>
    intro t module f mid s rest read permits
    obtain ⟨names, rfl⟩ := importedFrom_ok read
    exact permits.1
  case next =>
    intro module a rest early suffix reads
    refine outlook_importedFrom early (fun asked future => ?_) fun x mem =>
      inside x (suffix.mem mem)
    subst future
    obtain ⟨f, read⟩ := (reads true []).once
    have kind := front_of_future read
    cases A with
    | nil => cases kind
    | cons b A => exact aim asked b (by simp) kind
  case finishes =>
    exact (secures_importedFrom Subtype.val Subtype.property).mono fun x kind => by simp [isOp, kind]

end Prospects

end Parse

end Console
