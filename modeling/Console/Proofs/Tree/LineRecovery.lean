import Mathlib.Order.Filter.Finite
import Console.Proofs.Text.Lines
import Console.Proofs.Tree.ExpressionRecovery

/-!
# Simple statements and headers read back

Every simple statement that is well formed is read back from its tokens up to the end of the line,
and so are the parameters of a function.
-/

namespace Console.Parse

open Text Token Filter Kinds

variable {ctx : Context} {ts mid rest : List Token} {level : Level} {e : Expr}

/-- An expression that is well formed is read at any level. -/
theorem readsAs_formed (formed : e.wellFormed = true) (asked : Level) :
    ReadsAs asked (e.kinds asked) e :=
  readsAs_kinds (leads_bare e formed) asked

/-- A token behind which there is no more of an expression, and no further item. -/
def Ends (t : Token) : Prop := continues? t.kind = none ∧ isOp t "," = false

theorem reads_value (formed : e.wellFormed = true) (spells : Spells (e.kinds .conditional) ts rest)
    (ends : Ends (front rest)) : Reads (fun f => sequence ctx f .conditional) ts e rest :=
  reads_sequence (readsAs_formed formed .conditional ctx ts rest spells (.of_kind rfl ends.1))
    ends.2

theorem startsExpression_of_sequence {f : Nat} (read : sequence ctx f level ts = .ok (e, rest)) :
    startsExpression (front ts) = true := by
  cases f with
  | zero => cases read
  | succ f =>
    obtain ⟨_, _, item, -⟩ := bind_ok read
    exact startsExpression_of_ok item

theorem atStatementEnd_of_starts (starts : startsExpression (front ts) = true) :
    atStatementEnd ts = .ok (false, ts) := by
  show Except.ok (isNewline (front ts) || isOp (front ts) ";", ts) = _
  have begins : (isNewline (front ts) || isOp (front ts) ";") = false := by
    cases kind : (front ts).kind with
    | op symbol =>
      simp only [startsExpression, kind] at starts
      simp only [isNewline, isOp, kind, Bool.false_or, beq_eq_false_iff_ne]
      rintro rfl
      cases starts
    | newline => simp [startsExpression, kind] at starts
    | _ => simp [isNewline, isOp, kind]
  rw [begins]

/-! ## Names -/

theorem intercalate_pieces (sep : Char) (s : List Char) : [sep].intercalate (pieces sep s) = s := by
  induction s with
  | nil => rfl
  | cons c s ih =>
    have nonempty := pieces_ne_nil sep s
    cases rest : pieces sep s with
    | nil => contradiction
    | cons p ps =>
      rw [rest] at ih
      by_cases same : c = sep
      · subst same
        rw [pieces_cons_sep, rest, List.intercalate_cons_cons, ih]
        rfl
      · rw [pieces_cons same rest]
        cases ps with
        | nil => simpa [List.intercalate] using ih
        | cons q ps =>
          rw [List.intercalate_cons_cons] at ih ⊢
          rw [List.cons_append, List.cons_append, ih]

theorem reads_dottedWords {words : List (List Char)} (nonempty : words ≠ [])
    (free : ∀ w ∈ words, isKeyword (String.ofList w) = false)
    (spells : Spells (joined "." (words.map fun w => word (String.ofList w))) ts rest)
    (stops : isOp (front rest) "." = false) {f : Nat} (enough : words.length ≤ f) :
    dottedName ctx f ts = .ok (String.ofList (['.'].intercalate words), rest) := by
  induction words generalizing ts f with
  | nil => contradiction
  | cons w words ih =>
    obtain ⟨f, rfl⟩ : ∃ f', f = f' + 1 := ⟨f - 1, by simp at enough; omega⟩
    cases words with
    | nil =>
      rw [dottedName, run_bind (identifier_of_spells spells (free w (by simp)) ctx),
        run_bind (eatOp_absent stops)]
      simp [List.intercalate]
      rfl
    | cons w' words =>
      simp only [List.map_cons, joined, spells_append] at spells
      obtain ⟨between, ⟨mid, first, dot⟩, onward⟩ := spells
      rw [dottedName, run_bind (identifier_of_spells first (free w (by simp)) ctx),
        run_bind (eatOp_of_spells dot), if_pos rfl,
        run_bind (ih (by simp) (fun w mem => free w (by simp [mem])) onward
          (by simpa using enough)),
        List.intercalate_cons_cons]
      simp [String.append_assoc]
      rfl

theorem isOp_eq_false_of_identifier {name : String} (read : identifier ctx ts = .ok (name, rest))
    (symbol : String) : isOp (front ts) symbol = false := by
  rw [identifier, run_current] at read
  cases kind : (front ts).kind with
  | name word => simp [isOp, kind]
  | _ =>
    simp only [kind] at read
    cases read

/-- A name with points is read from its words. -/
theorem reads_dottedName {name : String} (formed : Simple.dottedWellFormed name = true)
    (spells : Spells (dottedKinds name) ts rest) (stops : isOp (front rest) "." = false) {f : Nat}
    (enough : (dottedWords name).length ≤ f) : dottedName ctx f ts = .ok (name, rest) := by
  have read : dottedName ctx f ts =
      .ok (String.ofList (['.'].intercalate (pieces '.' name.toList)), rest) := by
    refine reads_dottedWords (pieces_ne_nil _ _) ?_ ?_ stops (by simpa [dottedWords] using enough)
    · simpa [Simple.dottedWellFormed, dottedWords] using formed
    · rwa [dottedKinds, dottedWords, List.map_map] at spells
  rwa [intercalate_pieces, String.ofList_toList] at read

/-- Items with commas between them. -/
theorem commaSeparated_of_spells {α : Type} {item : Parser α} {write : α → List TokenKind}
    (follows : Token → Prop) {items : List α} (nonempty : items ≠ [])
    (each : ∀ a ∈ items, ∀ ts rest, Spells (write a) ts rest → follows (front rest) →
      item ts = .ok (a, rest))
    (separates : ∀ t, t.kind = .op "," → follows t)
    (spells : Spells (joined "," (items.map write)) ts rest) (ends : follows (front rest))
    (stops : isOp (front rest) "," = false) {f : Nat} (enough : items.length ≤ f) :
    commaSeparated item f ts = .ok (items, rest) := by
  induction items generalizing ts f with
  | nil => contradiction
  | cons a items ih =>
    obtain ⟨f, rfl⟩ : ∃ f', f = f' + 1 := ⟨f - 1, by simp at enough; omega⟩
    cases items with
    | nil =>
      rw [commaSeparated, run_bind (each a (by simp) ts rest spells ends),
        run_bind (eatOp_absent stops)]
      rfl
    | cons b items =>
      simp only [List.map_cons, joined, spells_append] at spells
      obtain ⟨between, ⟨mid, first, comma⟩, onward⟩ := spells
      have next := separates (front mid) (front_of_op comma).1
      rw [commaSeparated, run_bind (each a (by simp) ts mid first next),
        run_bind (eatOp_of_spells comma), if_pos rfl,
        run_bind (ih (by simp) (fun b mem => each b (by simp [mem])) onward
          (by simpa using enough))]
      rfl

theorem reads_importedNames {names : List String} (nonempty : names ≠ [])
    (free : ∀ name ∈ names, isKeyword name = false)
    (spells : Spells (joined "," (names.map word)) ts rest)
    (stops : isOp (front rest) "," = false) : Reads (importedNames ctx false) ts names rest := by
  refine reads_joined (fun _ => identifier ctx) (fun _ => True) ?_ ?_ (fun _ _ => trivial) nonempty
    (fun name mem _ _ spells _ => .of_eq fun _ => identifier_of_spells spells (free name mem) ctx)
    spells trivial stops
  · intro ts name rest first stops
    refine .succ ?_
    filter_upwards [first] with f read
    rw [importedNames, run_bind read, run_bind (eatOp_absent stops)]
    rfl
  · intro ts name mid between names rest first comma onward
    refine .succ ?_
    filter_upwards [first, onward] with f read further
    rw [importedNames, run_bind read, run_bind (eatOp_of_spells comma), if_pos rfl, run_atOp,
      Bool.false_and, if_neg (by simp), run_bind further]
    rfl

/-! ## Lists of expressions -/

theorem reads_deletedPlaces {targets : List Expr} (nonempty : targets ≠ [])
    (formed : ∀ e ∈ targets, e.wellFormed = true)
    (spells : Spells (joined "," (targets.map (Expr.kinds .sum))) ts rest)
    (ends : Ends (front rest)) : Reads (deletedPlaces ctx) ts targets rest := by
  refine reads_joined (fun f => expression ctx f .sum) (Stops .sum) ?_ ?_
    (fun t comma => .of_kind comma rfl) nonempty
    (fun e mem ts rest => readsAs_formed (formed e mem) .sum ctx ts rest) spells
    (.of_kind rfl ends.1) ends.2
  · intro ts e rest first stops
    refine .succ ?_
    filter_upwards [first] with f read
    rw [deletedPlaces, run_bind read, run_bind (eatOp_absent stops)]
    rfl
  · intro ts e mid between targets rest first comma onward
    have starts : startsExpression (front between) = true := by
      obtain ⟨f, read⟩ := onward.once
      cases f with
      | zero => cases read
      | succ f =>
        obtain ⟨_, _, item, -⟩ := bind_ok read
        exact startsExpression_of_ok item
    refine .succ ?_
    filter_upwards [first, onward] with f read further
    rw [deletedPlaces, run_bind read, run_bind (eatOp_of_spells comma), if_pos rfl,
      run_bind (atStatementEnd_of_starts starts), if_neg (by simp), run_bind further]
    rfl

/-- Targets with equals signs behind them, and the value. -/
theorem reads_assigned {targets : List Expr} {value : Expr}
    (formed : ∀ e ∈ targets, e.wellFormed = true) (last : value.wellFormed = true)
    (spells : Spells (targets.flatMap (fun e => e.kinds .conditional ++ op "=") ++
      value.kinds .conditional) ts rest)
    (ends : Ends (front rest)) (stops : isOp (front rest) "=" = false) :
    Reads (assigned ctx) ts (targets, value) rest := by
  induction targets generalizing ts with
  | nil =>
    have read : Reads (fun f => sequence ctx f .conditional) ts value rest :=
      reads_value last spells ends
    refine .succ ?_
    filter_upwards [read] with f taken
    rw [assigned, run_bind taken, run_bind (eatOp_absent stops)]
    rfl
  | cons e targets ih =>
    simp only [List.flatMap_cons, List.append_assoc] at spells
    obtain ⟨mid, first, spells⟩ := (spells_append _ _ _ _).1 spells
    obtain ⟨between, equals, others⟩ := (spells_append _ _ _ _).1 spells
    have kind := (front_of_op equals).1
    have read : Reads (fun f => sequence ctx f .conditional) ts e mid :=
      reads_value (formed e (by simp)) first ⟨by rw [kind]; rfl, by simp [isOp_of_kind kind]⟩
    refine .succ ?_
    filter_upwards [read, ih (fun e mem => formed e (by simp [mem])) others] with f taken onward
    rw [assigned, run_bind taken, run_bind (eatOp_of_spells equals), if_pos rfl, run_bind onward]
    rfl

/-! ## Simple statements -/

theorem simpleStatement_of_starts (starts : startsExpression (front ts) = true) (f : Nat) :
    simpleStatement ctx f ts = expressionStatement ctx f ts := by
  rw [simpleStatement, run_current]
  refine congrFun ?_ ts
  split <;> simp_all [startsExpression, isKeyword, keywords]

theorem augmentedOp_symbol (o : BinaryOp) : augmentedOp? (.op (o.symbol ++ "=")) = some o := by
  cases o <;> rfl

/-- A statement that starts with an expression. -/
theorem reads_expressionStatement {s : Simple}
    (first : Reads (fun f => sequence ctx f .conditional) ts e mid)
    (h : ∀ᶠ f in atTop, expressionStatement ctx f ts = .ok (s, rest)) :
    Reads (simpleStatement ctx) ts s rest := by
  have starts : startsExpression (front ts) = true := by
    obtain ⟨f, read⟩ := first.once
    exact startsExpression_of_sequence read
  filter_upwards [h] with f read
  rw [simpleStatement_of_starts starts, read]

section

variable {value : Expr} (ends : Ends (front rest)) (plain : augmentedOp? (front rest).kind = none)
  (stops : isOp (front rest) "=" = false)
include ends stops

include plain in
theorem reads_expr (formed : e.wellFormed = true) (spells : Spells (e.kinds .conditional) ts rest) :
    Reads (simpleStatement ctx) ts (.expr e) rest := by
  have first : Reads (fun f => sequence ctx f .conditional) ts e rest :=
    reads_value formed spells ends
  refine reads_expressionStatement first ?_
  filter_upwards [first] with f read
  rw [expressionStatement, run_bind read, run_current]
  simp only [plain]
  rw [run_bind (eatOp_absent stops)]
  rfl

theorem reads_assign {targets : List Expr} (nonempty : targets ≠ [])
    (formed : ∀ e ∈ targets, e.wellFormed = true)
    (assignable : ∀ e ∈ targets, e.isAssignable = true) (last : value.wellFormed = true)
    (spells : Spells (targets.flatMap (fun e => e.kinds .conditional ++ op "=") ++
      value.kinds .conditional) ts rest) :
    Reads (simpleStatement ctx) ts (.assign targets value) rest := by
  cases targets with
  | nil => contradiction
  | cons e targets =>
    simp only [List.flatMap_cons, List.append_assoc] at spells
    obtain ⟨mid, before, spells⟩ := (spells_append _ _ _ _).1 spells
    obtain ⟨between, equals, others⟩ := (spells_append _ _ _ _).1 spells
    have kind := (front_of_op equals).1
    have first : Reads (fun f => sequence ctx f .conditional) ts e mid :=
      reads_value (formed e (by simp)) before ⟨by rw [kind]; rfl, by simp [isOp_of_kind kind]⟩
    have onward : Reads (assigned ctx) between (targets, value) rest :=
      reads_assigned (fun e mem => formed e (by simp [mem])) last others ends stops
    have all : (e :: targets).all Expr.isAssignable = true := List.all_eq_true.2 assignable
    refine reads_expressionStatement first ?_
    filter_upwards [first, onward] with f read further
    rw [expressionStatement, run_bind read, run_current]
    simp only [kind]
    rw [show augmentedOp? (.op "=") = none from rfl]
    dsimp only
    rw [run_bind (eatOp_of_spells equals), if_pos rfl, run_bind further]
    dsimp only
    rw [all, if_pos rfl]
    rfl

omit stops in
theorem reads_augment {o : BinaryOp} (formed : e.wellFormed = true) (place : e.isPlace = true)
    (last : value.wellFormed = true)
    (spells : Spells (e.kinds .conditional ++ op (o.symbol ++ "=") ++ value.kinds .conditional) ts
      rest) :
    Reads (simpleStatement ctx) ts (.augment e o value) rest := by
  simp only [spells_append] at spells
  obtain ⟨between, ⟨mid, before, sign⟩, after⟩ := spells
  have kind := (front_of_op sign).1
  have ends' : Ends (front mid) := by
    refine ⟨?_, ?_⟩
    · rw [kind]
      cases o <;> rfl
    · rw [isOp_of_kind kind]
      cases o <;> rfl
  have first : Reads (fun f => sequence ctx f .conditional) ts e mid :=
    reads_value formed before ends'
  have onward : Reads (fun f => sequence ctx f .conditional) between value rest :=
    reads_value last after ends
  refine reads_expressionStatement first ?_
  filter_upwards [first, onward] with f read further
  rw [expressionStatement, run_bind read, run_current]
  simp only [kind, augmentedOp_symbol]
  rw [place, if_pos rfl, run_advance, (front_of_op sign).2]
  exact (run_bind further).trans rfl

end

/-! ## Statements with a word of their own -/

/-- A statement that is told by its first word. -/
theorem reads_worded {text : String} {others : List TokenKind} {s : Simple}
    {p : Nat → Parser Simple}
    (same : ∀ f ts, (front ts).kind = .name text → simpleStatement ctx f ts = p f ts.tail)
    (spells : Spells (word text ++ others) ts rest)
    (read : ∀ {ts}, Spells others ts rest → Reads p ts s rest) :
    Reads (simpleStatement ctx) ts s rest := by
  obtain ⟨mid, first, after⟩ := (spells_append _ _ _ _).1 spells
  obtain ⟨kind, rfl⟩ := front_of_word first
  filter_upwards [read after] with f taken
  rw [same f ts kind, taken]

/-- A value that may be missing at the end of a line. -/
theorem reads_optionalValue {value : Option Expr} {p : Nat → Parser Expr}
    (given : ∀ e, value = some e → Reads p ts e rest ∧ startsExpression (front ts) = true)
    (absent : value = none → ts = rest) (newline : (front rest).kind = .newline) :
    Reads (fun f => optionalValue (p f)) ts value rest := by
  cases value with
  | none =>
    obtain rfl := absent rfl
    refine .of_eq fun f => ?_
    show (if (isNewline (front ts) || isOp (front ts) ";") = true then _ else _ : Parser _) ts = _
    rw [if_pos (by simp [isNewline, newline])]
    rfl
  | some e =>
    obtain ⟨read, starts⟩ := given e rfl
    filter_upwards [read] with f taken
    rw [optionalValue, run_bind (atStatementEnd_of_starts starts), if_neg (by simp),
      run_bind taken]
    rfl

theorem ends_of_newline {t : Token} (newline : t.kind = .newline) : Ends t := by
  simp [Ends, newline, continues?, isOp]

section

variable {value : Option Expr} (newline : (front rest).kind = .newline)
include newline

theorem reads_return (inside : ctx.inFunction = true) (formed : value.all Expr.wellFormed = true)
    (spells : Spells (word "return" ++ optionKinds [] value) ts rest) :
    Reads (simpleStatement ctx) ts (.return value) rest := by
  have read {ts} (after : Spells (optionKinds [] value) ts rest) :
      Reads (fun f => optionalValue (sequence ctx f .conditional)) ts value rest := by
    refine reads_optionalValue ?_ ?_ newline
    · rintro e rfl
      have whole : Reads (fun f => sequence ctx f .conditional) ts e rest :=
        reads_value formed after (ends_of_newline newline)
      obtain ⟨f, taken⟩ := whole.once
      exact ⟨whole, startsExpression_of_sequence taken⟩
    · rintro rfl
      exact after
  refine reads_worded (fun f ts kind => ?_) spells fun after => (read after).map Simple.return
  rw [simpleStatement, run_current]
  simp only [kind]
  rw [inside, if_pos rfl]
  rfl

theorem reads_raise (formed : value.all Expr.wellFormed = true)
    (spells : Spells (word "raise" ++ optionKinds [] value) ts rest) :
    Reads (simpleStatement ctx) ts (.raise value) rest := by
  have read {ts} (after : Spells (optionKinds [] value) ts rest) :
      Reads (fun f => optionalValue (expression ctx f .conditional)) ts value rest := by
    refine reads_optionalValue ?_ ?_ newline
    · rintro e rfl
      have whole := readsAs_formed formed .conditional ctx ts rest after (.of_kind newline rfl)
      obtain ⟨f, taken⟩ := whole.once
      exact ⟨whole, startsExpression_of_ok taken⟩
    · rintro rfl
      exact after
  refine reads_worded (fun f ts kind => ?_) spells fun after => (read after).map Simple.raise
  rw [simpleStatement, run_current]
  simp only [kind]
  rfl

theorem reads_assert {test : Expr} (formed : test.wellFormed = true)
    (formed' : value.all Expr.wellFormed = true)
    (spells : Spells (word "assert" ++ (test.kinds .conditional ++ optionKinds (op ",") value)) ts
      rest) :
    Reads (simpleStatement ctx) ts (.assert test value) rest := by
  have read {ts} (after : Spells (test.kinds .conditional ++ optionKinds (op ",") value) ts rest) :
      Reads (assertStatement ctx) ts (.assert test value) rest := by
    obtain ⟨mid, first, last⟩ := (spells_append _ _ _ _).1 after
    cases value with
    | none =>
      obtain rfl : mid = rest := last
      have tested := readsAs_formed formed .conditional ctx ts mid first (.of_kind newline rfl)
      filter_upwards [tested] with f taken
      rw [assertStatement, run_bind taken, run_bind (eatOp_absent (ends_of_newline newline).2)]
      rfl
    | some e =>
      obtain ⟨between, comma, after⟩ := (spells_append _ _ _ _).1 last
      have tested := readsAs_formed formed .conditional ctx ts mid first
        (.of_kind (front_of_op comma).1 rfl)
      have told := readsAs_formed formed' .conditional ctx between rest after
        (.of_kind newline rfl)
      filter_upwards [tested, told] with f taken taken'
      rw [assertStatement, run_bind taken, run_bind (eatOp_of_spells comma), if_pos rfl,
        run_bind taken']
      rfl
  refine reads_worded (fun f ts kind => ?_) spells read
  rw [simpleStatement, run_current]
  simp only [kind]
  rfl

theorem reads_global {names : List String} (nonempty : names ≠ [])
    (free : ∀ name ∈ names, isKeyword name = false)
    (spells : Spells (word "global" ++ joined "," (names.map word)) ts rest) :
    Reads (simpleStatement ctx) ts (.global names) rest := by
  have read {ts} (after : Spells (joined "," (names.map word)) ts rest) :
      Reads (fun f => commaSeparated (identifier ctx) f) ts names rest := by
    filter_upwards [eventually_ge_atTop names.length] with f enough
    exact commaSeparated_of_spells (fun _ => True) nonempty
      (fun name mem _ _ spells _ => identifier_of_spells spells (free name mem) ctx)
      (fun _ _ => trivial) after trivial (ends_of_newline newline).2 enough
  refine reads_worded (fun f ts kind => ?_) spells fun after => (read after).map Simple.global
  rw [simpleStatement, run_current]
  simp only [kind]
  rfl

theorem reads_delete {targets : List Expr} (nonempty : targets ≠ [])
    (formed : ∀ e ∈ targets, e.wellFormed = true) (places : ∀ e ∈ targets, e.isPlace = true)
    (spells : Spells (word "del" ++ joined "," (targets.map (Expr.kinds .sum))) ts rest) :
    Reads (simpleStatement ctx) ts (.delete targets) rest := by
  have all : targets.all Expr.isPlace = true := List.all_eq_true.2 places
  have read {ts} (after : Spells (joined "," (targets.map (Expr.kinds .sum))) ts rest) :
      Reads (deleteStatement ctx) ts (.delete targets) rest := by
    filter_upwards [reads_deletedPlaces nonempty formed after (ends_of_newline newline)] with f taken
    rw [deleteStatement, run_bind taken, all, if_pos rfl]
    rfl
  refine reads_worded (fun f ts kind => ?_) spells read
  rw [simpleStatement, run_current]
  simp only [kind]
  rfl

theorem reads_importModules {names : List String} (nonempty : names ≠ [])
    (formed : ∀ name ∈ names, Simple.dottedWellFormed name = true)
    (spells : Spells (word "import" ++ joined "," (names.map dottedKinds)) ts rest) :
    Reads (simpleStatement ctx) ts (.importModules names) rest := by
  have read {ts} (after : Spells (joined "," (names.map dottedKinds)) ts rest) :
      Reads (fun f => commaSeparated (dottedName ctx f) f) ts names rest := by
    have all : ∀ᶠ f in atTop, ∀ name ∈ names, (dottedWords name).length ≤ f :=
      (eventually_all_finite (List.finite_toSet names)).2 fun name _ => eventually_ge_atTop _
    filter_upwards [eventually_ge_atTop names.length, all] with f enough deep
    exact commaSeparated_of_spells (fun t => isOp t "." = false) nonempty
      (fun name mem _ _ spells stops =>
        reads_dottedName (formed name mem) spells stops (deep name mem))
      (fun t comma => by simp [isOp_of_kind comma]) after (by simp [isOp, newline])
      (ends_of_newline newline).2 enough
  refine reads_worded (fun f ts kind => ?_) spells
    fun after => (read after).map Simple.importModules
  rw [simpleStatement, run_current]
  simp only [kind]
  rfl

theorem reads_importNames {module : String} {names : List String} (nonempty : names ≠ [])
    (formed : Simple.dottedWellFormed module = true)
    (free : ∀ name ∈ names, isKeyword name = false)
    (spells : Spells (word "from" ++ (dottedKinds module ++ (word "import" ++
      if names = ["*"] then op "*" else joined "," (names.map word)))) ts rest) :
    Reads (simpleStatement ctx) ts (.importNames module names) rest := by
  have read {ts} (after : Spells (dottedKinds module ++ (word "import" ++
      if names = ["*"] then op "*" else joined "," (names.map word))) ts rest) :
      Reads (importStatement ctx) ts (.importNames module names) rest := by
    obtain ⟨mid, source, after⟩ := (spells_append _ _ _ _).1 after
    obtain ⟨between, imports, last⟩ := (spells_append _ _ _ _).1 after
    have named (f : Nat) (enough : (dottedWords module).length ≤ f) :
        dottedName ctx f ts = .ok (module, mid) :=
      reads_dottedName formed source (by simp [isOp, (front_of_word imports).1]) enough
    by_cases every : names = ["*"]
    · subst every
      rw [if_pos rfl] at last
      filter_upwards [eventually_ge_atTop (dottedWords module).length] with f enough
      rw [importStatement, run_bind (named f enough), run_bind (expectWord_of_spells imports ctx),
        run_bind (eatOp_of_spells last), if_pos rfl]
      rfl
    · rw [if_neg every] at last
      have chosen : Reads (importedNames ctx false) between names rest :=
        reads_importedNames nonempty free last (ends_of_newline newline).2
      have begins (symbol : String) : isOp (front between) symbol = false := by
        obtain ⟨f, taken⟩ := chosen.once
        cases f with
        | zero => cases taken
        | succ f =>
          obtain ⟨_, _, name, -⟩ := bind_ok taken
          exact isOp_eq_false_of_identifier name symbol
      filter_upwards [eventually_ge_atTop (dottedWords module).length, chosen] with f enough taken
      rw [importStatement, run_bind (named f enough), run_bind (expectWord_of_spells imports ctx),
        run_bind (eatOp_absent (begins _)), if_neg (by simp), run_bind (eatOp_absent (begins _)),
        run_bind taken]
      rfl
  refine reads_worded (fun f ts kind => ?_) spells read
  rw [simpleStatement, run_current]
  simp only [kind]
  rfl

/-- Every simple statement that is well formed is read up to the end of its line. -/
theorem reads_simpleStatement {s : Simple} (formed : s.wellFormed ctx.inLoop ctx.inFunction = true)
    (spells : Spells s.kinds ts rest) : Reads (simpleStatement ctx) ts s rest := by
  have ends := ends_of_newline newline
  have stops : isOp (front rest) "=" = false := by simp [isOp, newline]
  cases s with
  | pass =>
    obtain ⟨kind, rfl⟩ := front_of_word spells
    refine .of_eq fun f => ?_
    rw [simpleStatement, run_current]
    simp only [kind]
    rfl
  | «break» | «continue» =>
    obtain ⟨kind, rfl⟩ := front_of_word spells
    refine .of_eq fun f => ?_
    rw [simpleStatement, run_current]
    simp only [kind]
    rw [jump, show ctx.inLoop = true from formed]
    rfl
  | expr value => exact reads_expr ends (by rw [newline]; rfl) stops formed spells
  | assign targets value =>
    simp only [Simple.wellFormed, Bool.and_eq_true, Bool.not_eq_true', List.isEmpty_eq_false_iff,
      List.all_eq_true] at formed
    exact reads_assign ends stops formed.1.1 (fun e mem => (formed.1.2 e mem).1)
      (fun e mem => (formed.1.2 e mem).2) formed.2 spells
  | augment target o value =>
    simp only [Simple.wellFormed, Bool.and_eq_true] at formed
    exact reads_augment ends formed.1.1 formed.1.2 formed.2 spells
  | «return» value =>
    simp only [Simple.wellFormed, Bool.and_eq_true] at formed
    exact reads_return newline formed.1 formed.2 spells
  | raise value => exact reads_raise newline formed spells
  | assert test message =>
    simp only [Simple.wellFormed, Bool.and_eq_true] at formed
    rw [Simple.kinds, List.append_assoc] at spells
    exact reads_assert newline formed.1 formed.2 spells
  | global names =>
    simp only [Simple.wellFormed, Bool.and_eq_true, Bool.not_eq_true', List.isEmpty_eq_false_iff,
      List.all_eq_true] at formed
    exact reads_global newline formed.1 formed.2 spells
  | delete targets =>
    simp only [Simple.wellFormed, Bool.and_eq_true, Bool.not_eq_true', List.isEmpty_eq_false_iff,
      List.all_eq_true] at formed
    exact reads_delete newline formed.1 (fun e mem => (formed.2 e mem).1)
      (fun e mem => (formed.2 e mem).2) spells
  | importModules names =>
    simp only [Simple.wellFormed, Bool.and_eq_true, Bool.not_eq_true', List.isEmpty_eq_false_iff,
      List.all_eq_true] at formed
    exact reads_importModules newline formed.1 formed.2 spells
  | importNames module names =>
    simp only [Simple.wellFormed, Bool.and_eq_true, Bool.not_eq_true', List.isEmpty_eq_false_iff,
      List.all_eq_true] at formed
    rw [Simple.kinds, List.append_assoc, List.append_assoc] at spells
    exact reads_importNames newline formed.1.2 formed.1.1 formed.2 spells

end

/-! ## Parameters -/

/-- What follows a parameter. -/
def parametersRest (ctx : Context) (f : Nat) (seen : List Parameter) : Parser (List Parameter) := do
  if ← eatOp "," then parameters ctx f seen else return seen.reverse

theorem reads_parameter {p : Parameter} {seen whole : List Parameter}
    (free : isKeyword p.name = false) (formed : ∀ e ∈ p.default, e.wellFormed = true)
    (fresh : ∀ s ∈ seen, s.name ≠ p.name)
    (ordered : p.default = none → ∀ s ∈ seen, s.default.isSome = false)
    (spells : Spells p.kinds ts mid) (ends : continues? (front mid).kind = none)
    (stops : isOp (front mid) "=" = false)
    (more : Reads (fun f => parametersRest ctx f (p :: seen)) mid whole rest) :
    Reads (fun f => parameters ctx f seen) ts whole rest := by
  obtain ⟨name, default⟩ := p
  obtain ⟨between, id, value⟩ := (spells_append _ _ _ _).1 spells
  have kind := (front_of_word id).1
  have unseen : (seen.any fun s => s.name == name) = false := by simpa using fresh
  have opens : isOp (front ts) ")" = false := by simp [isOp, kind]
  cases default with
  | none =>
    obtain rfl : between = mid := value
    have unset : (seen.any fun s => s.default.isSome) = false := by simpa using ordered rfl
    refine .succ ?_
    filter_upwards [more] with f onward
    rw [parameters, run_atOp, opens, if_neg (by simp)]
    dsimp only
    rw [run_bind (identifier_of_spells id free ctx), unseen, if_neg (by simp),
      run_bind (eatOp_absent stops), if_neg (by simp), unset, if_neg (by simp)]
    exact onward
  | some e =>
    obtain ⟨start, equals, value⟩ := (spells_append _ _ _ _).1 value
    have read := readsAs_formed (formed e rfl) .conditional ctx start mid value (.of_kind rfl ends)
    refine .succ ?_
    filter_upwards [read, more] with f taken onward
    rw [parameters, run_atOp, opens, if_neg (by simp)]
    dsimp only
    have given : (some <$> expression ctx f .conditional) start = .ok (some e, mid) := by
      show (expression ctx f .conditional >>= fun e => pure (some e)) start = _
      rw [run_bind taken]
      rfl
    rw [run_bind (identifier_of_spells id free ctx), unseen, if_neg (by simp),
      run_bind (eatOp_of_spells equals), if_pos rfl, run_bind given]
    exact onward

/-- Parameters up to the closing bracket; behind a default there are only defaults. -/
theorem reads_parameters {ps seen : List Parameter}
    (free : ∀ p ∈ ps, isKeyword p.name = false)
    (formed : ∀ p ∈ ps, ∀ e ∈ p.default, e.wellFormed = true)
    (distinct : (ps.map Parameter.name).Nodup) (fresh : ∀ p ∈ ps, ∀ s ∈ seen, s.name ≠ p.name)
    (ordered : ps.Pairwise fun p q => p.default.isSome → q.default.isSome)
    (before : ∀ p ∈ ps, ∀ s ∈ seen, s.default.isSome → p.default.isSome)
    (spells : Spells (joined "," (ps.map Parameter.kinds)) ts rest)
    (closed : (front rest).kind = .op ")") :
    Reads (fun f => parameters ctx f seen) ts (seen.reverse ++ ps) rest := by
  induction ps generalizing ts seen with
  | nil =>
    obtain rfl : ts = rest := spells
    refine .succ (.of_forall fun f => ?_)
    rw [parameters, run_atOp, isOp_of_kind closed, if_pos (by simp), List.append_nil]
    rfl
  | cons p ps ih =>
    have alone : p.default = none → ∀ s ∈ seen, s.default.isSome = false := by
      intro undefaulted s mem
      cases given : s.default.isSome with
      | false => rfl
      | true =>
        have := before p (by simp) s mem given
        simp [undefaulted] at this
    have step {mid : List Token} (first : Spells p.kinds ts mid)
        (ends : continues? (front mid).kind = none) (stops : isOp (front mid) "=" = false)
        (more : Reads (fun f => parametersRest ctx f (p :: seen)) mid (seen.reverse ++ p :: ps)
          rest) : Reads (fun f => parameters ctx f seen) ts (seen.reverse ++ p :: ps) rest :=
      reads_parameter (free p (by simp)) (formed p (by simp)) (fresh p (by simp)) alone first ends
        stops more
    by_cases last : ps = []
    · subst last
      refine step spells (by rw [closed]; rfl) (by simp [isOp_of_kind closed]) (.of_eq fun f => ?_)
      rw [parametersRest, run_bind (eatOp_absent (by simp [isOp_of_kind closed])), if_neg (by simp),
        List.reverse_cons]
      rfl
    · rw [List.map_cons, joined_cons (by simpa using last)] at spells
      obtain ⟨between, spells, onward⟩ := (spells_append _ _ _ _).1 spells
      obtain ⟨mid, first, comma⟩ := (spells_append _ _ _ _).1 spells
      have kind := (front_of_op comma).1
      rw [List.map_cons, List.nodup_cons] at distinct
      rw [List.pairwise_cons] at ordered
      have other : ∀ q ∈ ps, p.name ≠ q.name := fun q mem same =>
        distinct.1 (same ▸ List.mem_map_of_mem mem)
      have next : Reads (fun f => parameters ctx f (p :: seen)) between
          ((p :: seen).reverse ++ ps) rest :=
        ih (fun q mem => free q (by simp [mem])) (fun q mem => formed q (by simp [mem])) distinct.2
          (fun q mem => List.forall_mem_cons.2 ⟨other q mem, fresh q (by simp [mem])⟩) ordered.2
          (fun q mem => List.forall_mem_cons.2 ⟨ordered.1 q mem, before q (by simp [mem])⟩) onward
      refine step first (by rw [kind]; rfl) (by simp [isOp_of_kind kind]) ?_
      filter_upwards [next] with f taken
      rw [parametersRest, run_bind (eatOp_of_spells comma), if_pos rfl, taken]
      simp

/-! ## Headers -/

theorem reads_baseClasses {bases : List Expr} (formed : ∀ e ∈ bases, e.wellFormed = true)
    (spells : Spells (joined "," (bases.map (Expr.kinds .conditional))) ts rest)
    (closed : (front rest).kind = .op ")") : Reads (baseClasses ctx) ts bases rest :=
  reads_bracketed (fun f => expression ctx f .conditional) (fun _ => by rw [baseClasses])
    (fun read => isOp_closing_eq_false read rfl)
    (fun e mem ts rest => readsAs_formed (formed e mem) .conditional ctx ts rest) spells closed rfl
    (by decide)

theorem reads_testHeader (formed : e.wellFormed = true)
    (spells : Spells (e.kinds .conditional ++ op ":") ts rest) :
    Reads (testHeader ctx) ts e rest := by
  obtain ⟨mid, test, colon⟩ := (spells_append _ _ _ _).1 spells
  have read := readsAs_formed formed .conditional ctx ts mid test
    (.of_kind (front_of_op colon).1 rfl)
  filter_upwards [read] with f taken
  rw [testHeader, run_bind taken, run_bind (expectOp_of_spells colon ctx)]
  rfl

theorem reads_forHeader {target iterable : Expr} (formed : target.wellFormed = true)
    (assignable : target.isAssignable = true) (formed' : iterable.wellFormed = true)
    (spells : Spells (target.kinds .sum ++ word "in" ++ iterable.kinds .conditional ++ op ":") ts
      rest) :
    Reads (forHeader ctx) ts (target, iterable) rest := by
  simp only [spells_append] at spells
  obtain ⟨m₃, ⟨m₂, ⟨m₁, place, among⟩, whole⟩, colon⟩ := spells
  have kind := (front_of_word among).1
  have kind' := (front_of_op colon).1
  have stops : Stops .sum (front m₁) := by
    intro l goes
    rw [kind] at goes
    cases goes
    decide
  have read : Reads (fun f => sequence ctx f .sum) ts target m₁ :=
    reads_sequence (readsAs_formed formed .sum ctx ts m₁ place stops) (by simp [isOp, kind])
  have read' : Reads (fun f => sequence ctx f .conditional) m₂ iterable m₃ :=
    reads_value formed' whole ⟨by rw [kind']; rfl, by simp [isOp_of_kind kind']⟩
  filter_upwards [read, read'] with f taken taken'
  rw [forHeader, run_bind taken, assignable, if_pos rfl]
  dsimp only
  rw [run_bind (expectWord_of_spells among ctx), run_bind taken',
    run_bind (expectOp_of_spells colon ctx)]
  rfl

theorem reads_functionHeader {id : String} {ps : List Parameter} (free : isKeyword id = false)
    (formed : Parameter.wellFormed ps = true)
    (spells : Spells (word id ++ op "(" ++ joined "," (ps.map Parameter.kinds) ++ op ")" ++ op ":")
      ts rest) :
    Reads (functionHeader ctx) ts (id, ps) rest := by
  simp only [Parameter.wellFormed, Bool.and_eq_true, List.all_eq_true, Bool.not_eq_true',
    decide_eq_true_eq] at formed
  simp only [spells_append] at spells
  obtain ⟨m₄, ⟨m₃, ⟨m₂, ⟨m₁, name, opening⟩, inside⟩, closing⟩, colon⟩ := spells
  obtain ⟨⟨each, distinct⟩, ordered⟩ := formed
  have defaults : ∀ p ∈ ps, ∀ e ∈ p.default, e.wellFormed = true := by
    intro p mem e given
    have := (each p mem).2
    rw [Option.mem_def.1 given] at this
    exact this
  have read : Reads (fun f => parameters ctx f []) m₂ ps m₃ :=
    reads_parameters (fun p mem => (each p mem).1) defaults distinct (by simp) ordered (by simp)
      inside (front_of_op closing).1
  filter_upwards [read] with f taken
  rw [functionHeader, run_bind (identifier_of_spells name free ctx),
    run_bind (expectOp_of_spells opening ctx), run_bind taken,
    run_bind (expectOp_of_spells closing ctx),
    run_bind (eatOp_absent (by simp [isOp_of_kind (front_of_op colon).1])), if_neg (by simp)]
  dsimp only
  rw [run_bind (expectOp_of_spells colon ctx)]
  rfl

theorem reads_classHeader {id : String} {bases : List Expr} (free : isKeyword id = false)
    (formed : ∀ e ∈ bases, e.wellFormed = true)
    (spells : Spells (word id ++ Statement.baseKinds bases ++ op ":") ts rest) :
    Reads (classHeader ctx) ts (id, bases) rest := by
  simp only [spells_append] at spells
  obtain ⟨m₂, ⟨m₁, name, classes⟩, colon⟩ := spells
  by_cases empty : bases = []
  · subst empty
    obtain rfl : m₁ = m₂ := classes
    refine .of_eq fun f => ?_
    rw [classHeader, run_bind (identifier_of_spells name free ctx),
      run_bind (eatOp_absent (by simp [isOp_of_kind (front_of_op colon).1])), if_neg (by simp)]
    show (expectOp ctx ":" >>= fun _ => pure (id, ([] : List Expr))) m₁ = _
    rw [run_bind (expectOp_of_spells colon ctx)]
    rfl
  · rw [Statement.baseKinds, if_neg (by simpa using empty)] at classes
    simp only [spells_append] at classes
    obtain ⟨m₄, ⟨m₃, opening, inside⟩, closing⟩ := classes
    filter_upwards [reads_baseClasses formed inside (front_of_op closing).1] with f taken
    rw [classHeader, run_bind (identifier_of_spells name free ctx),
      run_bind (eatOp_of_spells opening), if_pos rfl, run_bind taken,
      run_bind (expectOp_of_spells closing ctx)]
    show (expectOp ctx ":" >>= fun _ => pure (id, bases)) m₂ = _
    rw [run_bind (expectOp_of_spells colon ctx)]
    rfl

end Console.Parse
