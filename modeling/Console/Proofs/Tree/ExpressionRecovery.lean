import Console.Proofs.Tree.Reads

/-!
# Expressions read back

Every expression that is well formed is read back from its kinds, at any level of binding. There is
one lemma for each kind of expression and one for each list inside brackets.
-/

namespace Console.Parse

open Token Filter Kinds

variable {ctx : Context} {ts mid rest : List Token} {level : Level} {kinds : List TokenKind}
  {e : Expr}

/-! ## Atoms -/

theorem reads_atom (h : Reads (atom ctx) ts e rest) :
    Reads (fun f => expression ctx f .atom) ts e rest := by
  refine .succ (h.mono fun f read => ?_)
  rw [expression]
  exact read

/-- An atom ends with its last token, whatever follows. -/
theorem leads_atom (h : ∀ ctx ts rest, Spells kinds ts rest → Reads (atom ctx) ts e rest) :
    Leads .atom kinds e := by
  intro ctx ts mid rest whole spells _ more
  obtain ⟨rfl, rfl⟩ := more.unique (.of_eq fun _ => rfl)
  exact reads_atom (h ctx ts mid spells)

/-- An atom of one token. -/
theorem leads_literal {kind : TokenKind} (same : ∀ ctx f ts, (front ts).kind = kind →
    atom ctx (f + 1) ts = .ok (e, ts.tail)) : Leads .atom (literal kind) e := by
  refine leads_atom fun ctx ts rest spells => .succ (.of_forall fun f => ?_)
  obtain ⟨t, rfl, found⟩ := (spells_literal _ ts rest).1 spells
  exact same ctx f (t :: rest) found

theorem leads_word {text : String} (value : wordAtom? text = some e) :
    Leads .atom (word text) e := by
  refine leads_literal fun ctx f ts kind => ?_
  rw [atom, run_current]
  simp only [kind, value]
  rfl

theorem leads_int (n : Int64) : Leads .atom (literal (.int n)) (.int n) := by
  refine leads_literal fun ctx f ts kind => ?_
  rw [atom, run_current]
  simp only [kind]
  rfl

theorem leads_float (x : Float) : Leads .atom (literal (.float x)) (.float x) := by
  refine leads_literal fun ctx f ts kind => ?_
  rw [atom, run_current]
  simp only [kind]
  rfl

theorem leads_str (s : String) : Leads .atom (literal (.str s)) (.str s) := by
  refine leads_literal fun ctx f ts kind => ?_
  rw [atom, run_current]
  simp only [kind]
  rfl

/-! ## Parentheses -/

/-- No expression starts with a closing bracket. -/
theorem isOp_closing_eq_false {f : Nat} (read : expression ctx f level ts = .ok (e, rest))
    {symbol : String} (closes : startsExpression ⟨.op symbol, .start⟩ = false) :
    isOp (front ts) symbol = false := by
  have starts := startsExpression_of_ok read
  by_contra is
  have kind := kind_of_isOp (by simpa using is)
  have same : startsExpression (front ts) = startsExpression ⟨.op symbol, .start⟩ := by
    simp only [startsExpression, kind]
  rw [same, closes] at starts
  cases starts

theorem reads_sequence (h : Reads (fun f => expression ctx f level) ts e rest)
    (alone : isOp (front rest) "," = false) : Reads (fun f => sequence ctx f level) ts e rest := by
  refine .succ ?_
  filter_upwards [h] with f read
  rw [sequence, run_bind read]
  show (if isOp (front rest) "," = true then _ else _ : Parser Expr) rest = _
  rw [alone]
  rfl

/-- What stands in parentheses is read whole. -/
theorem leads_enclosed (reads : ∀ ctx ts rest, Spells kinds ts rest → (front rest).kind = .op ")" →
    Reads (fun f => sequence ctx f .conditional) ts e rest) :
    Leads .atom (op "(" ++ kinds ++ op ")") e := by
  refine leads_atom fun ctx ts rest spells => ?_
  simp only [spells_append] at spells
  obtain ⟨last, ⟨first, opening, inside⟩, closing⟩ := spells
  obtain ⟨kind, rfl⟩ := front_of_op opening
  have read := reads ctx ts.tail last inside (front_of_op closing).1
  have opens : isOp (front ts.tail) ")" = false := by
    obtain ⟨f, taken⟩ := read.once
    cases f with
    | zero => cases taken
    | succ f =>
      obtain ⟨_, _, item, -⟩ := bind_ok taken
      exact isOp_closing_eq_false item rfl
  refine .succ ?_
  filter_upwards [read] with f taken
  rw [atom, run_current]
  simp only [kind]
  rw [run_advance, run_bind (eatOp_absent opens), if_neg (by simp), run_bind taken,
    run_bind (expectOp_of_spells closing ctx)]
  rfl

theorem leads_parentheses (h : ReadsAs .conditional kinds e) :
    Leads .atom (op "(" ++ kinds ++ op ")") e :=
  leads_enclosed fun ctx ts rest inside closed =>
    reads_sequence (h ctx ts rest inside (.of_kind closed rfl)) (by simp [isOp_of_kind closed])

/-- An expression is read at every level from the kinds that the level asks for. -/
theorem leads_kinds (h : Leads e.level e.bare e) (asked : Level) :
    Leads asked (e.kinds asked) e := by
  unfold Expr.kinds Expr.enclosed
  split
  · exact h.mono ‹_›
  · have whole : ReadsAs .conditional e.bare e := (h.mono (by cases e.level <;> decide)).reads
    exact (leads_parentheses whole).mono (by cases asked <;> decide)

/-! ## Lists inside brackets -/

/-- A loop that reads an item, and goes on if a separator follows, reads items that are written with
separators between them. `follows` says what may stand behind an item. -/
theorem reads_joined {α : Type} {symbol : String} {loop : Nat → Parser (List α)}
    {write : α → List TokenKind} (item : Nat → Parser α) (follows : Token → Prop)
    (last : ∀ {ts a rest}, Reads item ts a rest → isOp (front rest) symbol = false →
      Reads loop ts [a] rest)
    (further : ∀ {ts a mid between as rest}, Reads item ts a mid →
      Spells (op symbol) mid between → Reads loop between as rest → Reads loop ts (a :: as) rest)
    (separates : ∀ t, t.kind = .op symbol → follows t) {items : List α} (nonempty : items ≠ [])
    (each : ∀ a ∈ items, ∀ ts rest, Spells (write a) ts rest → follows (front rest) →
      Reads item ts a rest)
    (spells : Spells (joined symbol (items.map write)) ts rest) (ends : follows (front rest))
    (stops : isOp (front rest) symbol = false) : Reads loop ts items rest := by
  induction items generalizing ts with
  | nil => contradiction
  | cons a items ih =>
    cases items with
    | nil => exact last (each a (by simp) ts rest spells ends) stops
    | cons b items =>
      simp only [List.map_cons, joined, spells_append] at spells
      obtain ⟨between, ⟨mid, first, separator⟩, more⟩ := spells
      have next := separates (front mid) (front_of_op separator).1
      exact further (each a (by simp) ts mid first next) separator
        (ih (by simp) (fun b mem => each b (by simp [mem])) more)

/-- A loop that ends at a closing bracket reads the items in front of it. -/
theorem reads_bracketed {α : Type} {closing : String} {loop : Nat → Parser (List α)}
    {write : α → List TokenKind} (item : Nat → Parser α)
    (same : ∀ f, loop (f + 1) = do
      if ← atOp closing then return []
      let a ← item f
      if ← eatOp "," then return a :: (← loop f) else return [a])
    (opens : ∀ {f ts a rest}, item f ts = .ok (a, rest) → isOp (front ts) closing = false)
    {items : List α} (each : ∀ a ∈ items, ∀ ts rest, Spells (write a) ts rest →
      Stops .conditional (front rest) → Reads item ts a rest)
    (spells : Spells (joined "," (items.map write)) ts rest)
    (closed : (front rest).kind = .op closing) (ends : continues? (.op closing) = none)
    (distinct : closing ≠ ",") : Reads loop ts items rest := by
  by_cases empty : items = []
  · subst empty
    obtain rfl : ts = rest := spells
    refine .succ (.of_forall fun f => ?_)
    rw [same, run_atOp, isOp_of_kind closed, if_pos (by simp)]
    rfl
  · refine reads_joined item (Stops .conditional) ?_ ?_ (fun t separator => .of_kind separator rfl)
      empty each spells (.of_kind closed ends) (by simpa [isOp_of_kind closed] using distinct)
    · intro ts a rest first stops
      refine .succ ?_
      filter_upwards [first] with f read
      rw [same, run_atOp, opens read, if_neg (by simp), run_bind read,
        run_bind (eatOp_absent stops)]
      rfl
    · intro ts a mid between as rest first separator onward
      refine .succ ?_
      filter_upwards [first, onward] with f read further
      rw [same, run_atOp, opens read, if_neg (by simp), run_bind read,
        run_bind (eatOp_of_spells separator), if_pos rfl, run_bind further]
      rfl

theorem parts_eq (es : List Expr) : Expr.parts es = es.map (Expr.kinds .conditional) := by
  induction es with
  | nil => rfl
  | cons e es ih => rw [Expr.parts, ih]; rfl

theorem reads_listItems {items : List Expr}
    (each : ∀ e ∈ items, ReadsAs .conditional (e.kinds .conditional) e)
    (spells : Spells (joined "," (items.map (Expr.kinds .conditional))) ts rest)
    (closed : (front rest).kind = .op "]") : Reads (listItems ctx) ts items rest :=
  reads_bracketed (fun f => expression ctx f .conditional) (fun _ => by rw [listItems])
    (fun read => isOp_closing_eq_false read rfl) (fun e mem ts rest => each e mem ctx ts rest)
    spells closed rfl (by decide)

/-- The kinds of an entry of a dictionary. -/
def entryKinds (entry : Expr × Expr) : List TokenKind :=
  entry.1.kinds .conditional ++ op ":" ++ entry.2.kinds .conditional

theorem entryParts_eq (entries : List (Expr × Expr)) :
    Expr.entryParts entries = entries.map entryKinds := by
  induction entries with
  | nil => rfl
  | cons entry entries ih =>
    obtain ⟨key, value⟩ := entry
    rw [Expr.entryParts, ih]
    rfl

/-- A key with its value. -/
def entry (ctx : Context) (f : Nat) : Parser (Expr × Expr) := do
  let key ← expression ctx f .conditional
  expectOp ctx ":"
  let value ← expression ctx f .conditional
  return (key, value)

theorem reads_dictEntries {entries : List (Expr × Expr)}
    (keys : ∀ e ∈ entries, ReadsAs .conditional (e.1.kinds .conditional) e.1)
    (values : ∀ e ∈ entries, ReadsAs .conditional (e.2.kinds .conditional) e.2)
    (spells : Spells (joined "," (entries.map entryKinds)) ts rest)
    (closed : (front rest).kind = .op "\x7d") : Reads (dictEntries ctx) ts entries rest := by
  refine reads_bracketed (entry ctx) (fun f => ?_) ?_ ?_ spells closed rfl (by decide)
  · rw [dictEntries]
    simp [entry]
  · intro f ts e rest read
    obtain ⟨key, mid, first, -⟩ := bind_ok read
    exact isOp_closing_eq_false first rfl
  · intro e mem ts rest spells stops
    simp only [entryKinds, spells_append] at spells
    obtain ⟨between, ⟨mid, first, colon⟩, last⟩ := spells
    have key := keys e mem ctx ts mid first (.of_kind (front_of_op colon).1 rfl)
    have value := values e mem ctx between rest last stops
    filter_upwards [key, value] with f read read'
    rw [entry, run_bind read, run_bind (expectOp_of_spells colon ctx), run_bind read']
    rfl

theorem reads_sequenceRest_end (stops : isOp (front ts) "," = false) :
    Reads (fun f => sequenceRest ctx f level) ts [] ts := by
  refine .succ (.of_forall fun f => ?_)
  rw [sequenceRest, run_bind (eatOp_absent stops)]
  rfl

/-- A last separator may stand without an item. -/
theorem reads_sequenceRest_separator (separator : Spells (op ",") ts rest)
    (stops : startsExpression (front rest) = false) :
    Reads (fun f => sequenceRest ctx f level) ts [] rest := by
  refine .succ (.of_forall fun f => ?_)
  rw [sequenceRest, run_bind (eatOp_of_spells separator), if_pos rfl, run_current, stops]
  rfl

theorem reads_sequenceRest_cons {between : List Token} {items : List Expr}
    (separator : Spells (op ",") ts between)
    (item : Reads (fun f => expression ctx f level) between e mid)
    (onward : Reads (fun f => sequenceRest ctx f level) mid items rest) :
    Reads (fun f => sequenceRest ctx f level) ts (e :: items) rest := by
  refine .succ ?_
  filter_upwards [item, onward] with f read further
  rw [sequenceRest, run_bind (eatOp_of_spells separator), if_pos rfl, run_current,
    startsExpression_of_ok read, if_pos rfl, run_bind read, run_bind further]
  rfl

/-- Further items of a tuple, with a separator in front of each. -/
theorem reads_sequenceRest {items : List Expr} (nonempty : items ≠ [])
    (each : ∀ e ∈ items, ReadsAs .conditional (e.kinds .conditional) e)
    (spells : Spells (op "," ++ joined "," (items.map (Expr.kinds .conditional))) ts rest)
    (closed : (front rest).kind = .op ")") :
    Reads (fun f => sequenceRest ctx f .conditional) ts items rest := by
  induction items generalizing ts with
  | nil => contradiction
  | cons e items ih =>
    have here := each e (by simp) ctx
    cases items with
    | nil =>
      obtain ⟨between, separator, item⟩ := (spells_append _ _ _ _).1 spells
      have read := here between rest item (.of_kind closed rfl)
      exact reads_sequenceRest_cons separator read
        (reads_sequenceRest_end (by simp [isOp_of_kind closed]))
    | cons e' items =>
      simp only [List.map_cons, joined, List.append_assoc] at spells
      obtain ⟨between, separator, spells⟩ := (spells_append _ _ _ _).1 spells
      obtain ⟨mid, item, spells⟩ := (spells_append _ _ _ _).1 spells
      obtain ⟨_, comma, -⟩ := (spells_append _ _ _ _).1 spells
      have read := here between mid item (.of_kind (front_of_op comma).1 rfl)
      exact reads_sequenceRest_cons separator read
        (ih (by simp) (fun e mem => each e (by simp [mem])) spells)

/-- A tuple is written in parentheses, and one item with a separator behind it. -/
theorem reads_tuple {items : List Expr}
    (each : ∀ e ∈ items, ReadsAs .conditional (e.kinds .conditional) e) (nonempty : items ≠ [])
    (spells : Spells (joined "," (items.map (Expr.kinds .conditional)) ++
      if items.length = 1 then op "," else []) ts rest)
    (closed : (front rest).kind = .op ")") :
    Reads (fun f => sequence ctx f .conditional) ts (.tuple items) rest := by
  have whole {e : Expr} {items : List Expr} {mid : List Token}
      (first : Reads (fun f => expression ctx f .conditional) ts e mid)
      (comma : (front mid).kind = .op ",")
      (others : Reads (fun f => sequenceRest ctx f .conditional) mid items rest) :
      Reads (fun f => sequence ctx f .conditional) ts (.tuple (e :: items)) rest := by
    refine .succ ?_
    filter_upwards [first, others] with f read further
    rw [sequence, run_bind read, run_atOp, isOp_of_kind comma, if_pos (by simp), run_bind further]
    rfl
  cases items with
  | nil => contradiction
  | cons e items =>
    have here := each e (by simp) ctx
    cases items with
    | nil =>
      obtain ⟨mid, item, comma⟩ := (spells_append _ _ _ _).1 spells
      have separator : Spells (op ",") mid rest := comma
      have kind := (front_of_op separator).1
      refine whole (here ts mid item (.of_kind kind rfl)) kind
        (reads_sequenceRest_separator separator ?_)
      simp [startsExpression, closed]
    | cons e' items =>
      simp only [List.map_cons, joined, List.length_cons, List.append_assoc] at spells
      rw [if_neg (by omega), List.append_nil] at spells
      obtain ⟨mid, item, spells⟩ := (spells_append _ _ _ _).1 spells
      obtain ⟨_, comma, -⟩ := (spells_append _ _ _ _).1 spells
      have kind := (front_of_op comma).1
      exact whole (here ts mid item (.of_kind kind rfl)) kind
        (reads_sequenceRest (by simp) (fun e mem => each e (by simp [mem])) spells closed)

/-! ## Arguments -/

theorem wordAtom_of_free {text : String} (free : isKeyword text = false) :
    wordAtom? text = some (.name text) := by
  unfold wordAtom?
  split
  case h_4 => simp [free]
  all_goals cases free

/-- An argument that is no keyword argument: an equals sign behind its first word would end it. -/
theorem keywordAt_eq_none (h : Reads (fun f => expression ctx f .conditional) ts e rest)
    (other : isOp (front rest) "=" = false) : keywordAt? ts = none := by
  cases found : keywordAt? ts with
  | none => rfl
  | some text =>
    unfold keywordAt? at found
    split at found
    · rename_i text' kind
      split at found
      · rename_i assigns
        cases found
        obtain ⟨free, equals⟩ : isKeyword text = false ∧ isOp (front ts.tail) "=" = true := by
          simpa using assigns
        have whole : ReadsAs .conditional (word text) (.name text) :=
          ((leads_word (wordAtom_of_free free)).mono (by decide)).reads
        have spells : Spells (word text) ts ts.tail := by
          cases ts with
          | nil => cases kind
          | cons t ts => exact (spells_literal _ _ _).2 ⟨t, rfl, kind⟩
        have alone := whole ctx ts ts.tail spells (.of_kind (kind_of_isOp equals) rfl)
        obtain ⟨-, rfl⟩ := alone.unique h
        rw [equals] at other
        cases other
      · cases found
    · cases found

/-- What follows an argument. -/
def argumentsRest (ctx : Context) (f : Nat) (args : List Expr) (keywords : List (String × Expr)) :
    Parser (List Expr × List (String × Expr)) := do
  if ← eatOp "," then arguments ctx f args keywords
  else return (args.reverse, keywords.reverse)

section

variable {args : List Expr} {keywords : List (String × Expr)}
  {whole : List Expr × List (String × Expr)}

theorem reads_argumentsRest_end (stops : isOp (front ts) "," = false) :
    Reads (fun f => argumentsRest ctx f args keywords) ts (args.reverse, keywords.reverse) ts := by
  refine .of_eq fun f => ?_
  rw [argumentsRest, run_bind (eatOp_absent stops)]
  rfl

theorem reads_argumentsRest_cons (separator : Spells (op ",") ts mid)
    (more : Reads (fun f => arguments ctx f args keywords) mid whole rest) :
    Reads (fun f => argumentsRest ctx f args keywords) ts whole rest := by
  filter_upwards [more] with f read
  rw [argumentsRest, run_bind (eatOp_of_spells separator), if_pos rfl, read]

theorem reads_argument (item : Reads (fun f => expression ctx f .conditional) ts e mid)
    (other : isOp (front mid) "=" = false)
    (more : Reads (fun f => argumentsRest ctx f (e :: args) []) mid whole rest) :
    Reads (fun f => arguments ctx f args []) ts whole rest := by
  have positional := keywordAt_eq_none item other
  refine .succ ?_
  filter_upwards [item, more] with f read onward
  rw [arguments, run_atOp, isOp_closing_eq_false read rfl, if_neg (by simp)]
  dsimp only
  rw [run_bind (show (get : Parser _) ts = .ok (ts, ts) from rfl), positional]
  exact (run_bind read).trans onward

theorem reads_keyword {between : List Token} {text : String}
    (begins : Spells (word text ++ op "=") ts between) (free : isKeyword text = false)
    (fresh : ∀ k ∈ keywords, k.1 ≠ text)
    (item : Reads (fun f => expression ctx f .conditional) between e mid)
    (more : Reads (fun f => argumentsRest ctx f args ((text, e) :: keywords)) mid whole rest) :
    Reads (fun f => arguments ctx f args keywords) ts whole rest := by
  obtain ⟨later, name, equals⟩ := (spells_append _ _ _ _).1 begins
  obtain ⟨kind, rfl⟩ := front_of_word name
  obtain ⟨kind', rfl⟩ := front_of_op equals
  have named : keywordAt? ts = some text := by
    simp [keywordAt?, kind, free, isOp_of_kind kind']
  have unseen : (keywords.any fun k => k.1 == text) = false := by simpa using fresh
  refine .succ ?_
  filter_upwards [item, more] with f read onward
  rw [arguments, run_atOp, show isOp (front ts) ")" = false by simp [isOp, kind], if_neg (by simp)]
  dsimp only
  rw [run_bind (show (get : Parser _) ts = .ok (ts, ts) from rfl), named]
  dsimp only
  rw [run_advance, run_advance, unseen, if_neg (by simp)]
  exact (run_bind read).trans onward

end

/-- The kinds of a keyword argument. -/
def keywordKinds (keyword : String × Expr) : List TokenKind :=
  word keyword.1 ++ op "=" ++ keyword.2.kinds .conditional

theorem keywordParts_eq (keywords : List (String × Expr)) :
    Expr.keywordParts keywords = keywords.map keywordKinds := by
  induction keywords with
  | nil => rfl
  | cons keyword keywords ih =>
    obtain ⟨text, value⟩ := keyword
    rw [Expr.keywordParts, ih]
    rfl

theorem joined_cons {symbol : String} {part : List TokenKind} {others : List (List TokenKind)}
    (more : others ≠ []) :
    joined symbol (part :: others) = part ++ op symbol ++ joined symbol others := by
  cases others with
  | nil => contradiction
  | cons other others => rfl

theorem reads_keywords {args : List Expr} {keywords seen : List (String × Expr)}
    (nonempty : keywords ≠ []) (free : ∀ k ∈ keywords, isKeyword k.1 = false)
    (distinct : (keywords.map Prod.fst).Nodup) (fresh : ∀ k ∈ keywords, ∀ s ∈ seen, s.1 ≠ k.1)
    (each : ∀ k ∈ keywords, ReadsAs .conditional (k.2.kinds .conditional) k.2)
    (spells : Spells (joined "," (keywords.map keywordKinds)) ts rest)
    (closed : (front rest).kind = .op ")") :
    Reads (fun f => arguments ctx f args seen) ts (args.reverse, seen.reverse ++ keywords)
      rest := by
  induction keywords generalizing ts seen with
  | nil => contradiction
  | cons k keywords ih =>
    have here := each k (by simp) ctx
    have unseen := fresh k (by simp)
    by_cases last : keywords = []
    · subst last
      obtain ⟨between, begins, value⟩ := (spells_append _ _ _ _).1 spells
      have read := here between rest value (.of_kind closed rfl)
      refine reads_keyword begins (free k (by simp)) unseen read ?_
      have done : Reads (fun f => argumentsRest ctx f args (k :: seen)) rest
          (args.reverse, (k :: seen).reverse) rest :=
        reads_argumentsRest_end (by simp [isOp_of_kind closed])
      simpa using done
    · rw [List.map_cons, joined_cons (by simpa using last)] at spells
      obtain ⟨_, spells, onward⟩ := (spells_append _ _ _ _).1 spells
      obtain ⟨mid, spells, separator⟩ := (spells_append _ _ _ _).1 spells
      obtain ⟨between, begins, value⟩ := (spells_append _ _ _ _).1 spells
      have read := here between mid value (.of_kind (front_of_op separator).1 rfl)
      refine reads_keyword begins (free k (by simp)) unseen read
        (reads_argumentsRest_cons separator ?_)
      rw [List.map_cons, List.nodup_cons] at distinct
      have other : ∀ k' ∈ keywords, k.1 ≠ k'.1 := fun k' mem same =>
        distinct.1 (same ▸ List.mem_map_of_mem mem)
      have unseen : ∀ k' ∈ keywords, ∀ s ∈ k :: seen, s.1 ≠ k'.1 := fun k' mem =>
        List.forall_mem_cons.2 ⟨other k' mem, fresh k' (by simp [mem])⟩
      simpa using ih last (fun k mem => free k (by simp [mem])) distinct.2 unseen
        (fun k mem => each k (by simp [mem])) onward

theorem reads_arguments {args seen : List Expr} {keywords : List (String × Expr)}
    (free : ∀ k ∈ keywords, isKeyword k.1 = false) (distinct : (keywords.map Prod.fst).Nodup)
    (eachArg : ∀ e ∈ args, ReadsAs .conditional (e.kinds .conditional) e)
    (eachKeyword : ∀ k ∈ keywords, ReadsAs .conditional (k.2.kinds .conditional) k.2)
    (spells : Spells (joined "," (args.map (Expr.kinds .conditional) ++ keywords.map keywordKinds))
      ts rest)
    (closed : (front rest).kind = .op ")") :
    Reads (fun f => arguments ctx f seen []) ts (seen.reverse ++ args, keywords) rest := by
  induction args generalizing ts seen with
  | nil =>
    by_cases empty : keywords = []
    · subst empty
      obtain rfl : ts = rest := spells
      refine .succ (.of_forall fun f => ?_)
      rw [arguments, run_atOp, isOp_of_kind closed, if_pos (by simp)]
      simp
      rfl
    · have unseen : ∀ k ∈ keywords, ∀ s ∈ ([] : List (String × Expr)), s.1 ≠ k.1 := by simp
      simpa using reads_keywords empty free distinct unseen eachKeyword spells closed
  | cons e args ih =>
    have here := eachArg e (by simp) ctx
    rw [List.map_cons, List.cons_append] at spells
    by_cases last : args.map (Expr.kinds .conditional) ++ keywords.map keywordKinds = []
    · rw [last] at spells
      obtain ⟨rfl, rfl⟩ : args = [] ∧ keywords = [] := by simpa using last
      have read := here ts rest spells (.of_kind closed rfl)
      have done : Reads (fun f => argumentsRest ctx f (e :: seen) []) rest
          ((e :: seen).reverse, []) rest :=
        reads_argumentsRest_end (by simp [isOp_of_kind closed])
      refine reads_argument read (by simp [isOp_of_kind closed]) ?_
      simpa using done
    · rw [joined_cons last] at spells
      obtain ⟨between, spells, onward⟩ := (spells_append _ _ _ _).1 spells
      obtain ⟨mid, value, separator⟩ := (spells_append _ _ _ _).1 spells
      have kind := (front_of_op separator).1
      have read := here ts mid value (.of_kind kind rfl)
      refine reads_argument read (by simp [isOp_of_kind kind])
        (reads_argumentsRest_cons separator ?_)
      have next : Reads (fun f => arguments ctx f (e :: seen) []) between
          ((e :: seen).reverse ++ args, keywords) rest :=
        ih (fun e mem => eachArg e (by simp [mem])) onward
      simpa using next

/-! ## Trailers -/

theorem stops_atom (t : Token) : Stops .atom t := by
  intro l goes
  unfold continues? at goes
  split at goes <;> cases goes <;> decide

section

variable {object : Expr}

theorem leads_call {args : List Expr} {keywords : List (String × Expr)}
    (h : Leads .trailer kinds object) (free : ∀ k ∈ keywords, isKeyword k.1 = false)
    (distinct : (keywords.map Prod.fst).Nodup)
    (eachArg : ∀ e ∈ args, ReadsAs .conditional (e.kinds .conditional) e)
    (eachKeyword : ∀ k ∈ keywords, ReadsAs .conditional (k.2.kinds .conditional) k.2) :
    Leads .trailer (kinds ++ op "(" ++ joined "," (Expr.parts args ++ Expr.keywordParts keywords) ++
      op ")") (.call object args keywords) := by
  intro ctx ts mid rest whole spells _ more
  rw [parts_eq, keywordParts_eq] at spells
  simp only [spells_append] at spells
  obtain ⟨last, ⟨first, ⟨m, callee, opening⟩, inside⟩, closing⟩ := spells
  have read : Reads (fun f => arguments ctx f [] []) first (args, keywords) last :=
    reads_arguments free distinct eachArg eachKeyword inside (front_of_op closing).1
  refine h ctx ts m rest whole callee (stops_atom _) (.succ ?_)
  filter_upwards [read, more] with f taken onward
  show trailers ctx (f + 1) object m = _
  rw [trailers, run_bind (eatOp_of_spells opening), if_pos rfl, run_bind taken]
  dsimp only
  rw [run_bind (expectOp_of_spells closing ctx)]
  exact onward

theorem leads_subscript {index : Expr} (h : Leads .trailer kinds object)
    (inner : ReadsAs .conditional (index.kinds .conditional) index) :
    Leads .trailer (kinds ++ op "[" ++ index.kinds .conditional ++ op "]")
      (.subscript object index) := by
  intro ctx ts mid rest whole spells _ more
  simp only [spells_append] at spells
  obtain ⟨last, ⟨first, ⟨m, place, opening⟩, inside⟩, closing⟩ := spells
  have kind := (front_of_op closing).1
  have read := reads_sequence (inner ctx first last inside (.of_kind kind rfl))
    (by simp [isOp_of_kind kind])
  refine h ctx ts m rest whole place (stops_atom _) (.succ ?_)
  filter_upwards [read, more] with f taken onward
  show trailers ctx (f + 1) object m = _
  rw [trailers, run_bind (eatOp_absent (by simp [isOp_of_kind (front_of_op opening).1])),
    if_neg (by simp), run_bind (eatOp_of_spells opening), if_pos rfl, run_bind taken, run_atOp,
    isOp_of_kind kind, if_neg (by simp)]
  dsimp only
  rw [run_bind (expectOp_of_spells closing ctx)]
  exact onward

theorem leads_attribute {text : String} (h : Leads .trailer kinds object)
    (free : isKeyword text = false) :
    Leads .trailer (kinds ++ op "." ++ word text) (.attribute object text) := by
  intro ctx ts mid rest whole spells _ more
  simp only [spells_append] at spells
  obtain ⟨last, ⟨m, place, dot⟩, id⟩ := spells
  have kind := (front_of_op dot).1
  refine h ctx ts m rest whole place (stops_atom _) (.succ ?_)
  filter_upwards [more] with f onward
  show trailers ctx (f + 1) object m = _
  rw [trailers, run_bind (eatOp_absent (by simp [isOp_of_kind kind])),
    if_neg (by simp), run_bind (eatOp_absent (by simp [isOp_of_kind kind])), if_neg (by simp),
    run_bind (eatOp_of_spells dot), if_pos rfl, run_bind (identifier_of_spells id free ctx)]
  exact onward

end

/-! ## Operators -/

theorem inner_of_groups (grouped : Simulation.groups level = true) :
    level.inner = level.tighter := by
  cases level <;> first | rfl | cases grouped

theorem onward_of_groups (grouped : Simulation.groups level = true) (ctx : Context) (f : Nat)
    (e : Expr) : onward ctx f level e = operands ctx f level e := by
  cases level <;> first | rfl | cases grouped

/-- An operator that groups to the left. -/
theorem leads_joined {kind : TokenKind} {join : Expr → Expr → Expr} {left right : Expr}
    {leftKinds rightKinds : List TokenKind} (grouped : Simulation.groups level = true)
    (joins : level.joiner? kind = some join) (first : Leads level leftKinds left)
    (second : ReadsAs level.tighter rightKinds right) :
    Leads level (leftKinds ++ literal kind ++ rightKinds) (join left right) := by
  intro ctx ts mid rest whole spells stops more
  simp only [spells_append] at spells
  obtain ⟨behind, ⟨m, before, joiner⟩, after⟩ := spells
  obtain ⟨t, rfl, same⟩ := (spells_literal _ _ _).1 joiner
  have read := second ctx behind mid after (inner_of_groups grouped ▸ stops)
  have next : Stops level.inner (front (t :: behind)) := by
    intro l goes
    have : continues? kind = some l := same ▸ goes
    rw [continues_of_joiner joins] at this
    cases this
    rw [inner_of_groups grouped]
    exact Simulation.rank_tighter_lt grouped
  refine first ctx ts (t :: behind) rest whole before next (.succ ?_)
  filter_upwards [read, more] with f taken further
  rw [onward_of_groups grouped] at further ⊢
  rw [operands, run_current]
  simp only [show (front (t :: behind)).kind = kind from same, joins]
  rw [run_advance]
  exact (run_bind taken).trans further

/-- A level that does not group is read whole. -/
theorem ReadsAs.leads (h : ReadsAs level kinds e) (flat : level.inner = level) :
    Leads level kinds e := by
  intro ctx ts mid rest whole spells stops more
  obtain ⟨rfl, rfl⟩ : e = whole ∧ mid = rest := by
    refine more.unique (.of_eq fun f => ?_)
    cases level <;> first | rfl | cases flat
  exact h ctx ts mid spells (flat ▸ stops)

theorem leads_sign {o : UnaryOp} {symbol : String}
    (same : o = .neg ∧ symbol = "-" ∨ o = .pos ∧ symbol = "+")
    (h : ReadsAs .sign kinds e) : Leads .sign (op symbol ++ kinds) (.unary o e) := by
  refine ReadsAs.leads (fun ctx ts rest spells stops => ?_) rfl
  obtain ⟨mid, sign, operand⟩ := (spells_append _ _ _ _).1 spells
  have kind := (front_of_op sign).1
  refine .succ ?_
  filter_upwards [h ctx mid rest operand stops] with f read
  rcases same with ⟨rfl, rfl⟩ | ⟨rfl, rfl⟩
  · rw [expression, run_bind (eatOp_of_spells sign), if_pos rfl, run_bind read]
    rfl
  · rw [expression, run_bind (eatOp_absent (by simp [isOp_of_kind kind])), if_neg (by simp),
      run_bind (eatOp_of_spells sign), if_pos rfl, run_bind read]
    rfl

theorem leads_not (h : ReadsAs .negation kinds e) :
    Leads .negation (word "not" ++ kinds) (.unary .not e) := by
  refine ReadsAs.leads (fun ctx ts rest spells stops => ?_) rfl
  obtain ⟨mid, negation, operand⟩ := (spells_append _ _ _ _).1 spells
  refine .succ ?_
  filter_upwards [h ctx mid rest operand stops] with f read
  rw [expression, run_bind (eatWord_of_spells negation), if_pos rfl, run_bind read]
  rfl

/-- The exponent may bear a sign; the operator groups to the right. -/
theorem leads_power {base exponent : Expr} {baseKinds exponentKinds : List TokenKind}
    (first : ReadsAs .trailer baseKinds base) (second : ReadsAs .sign exponentKinds exponent) :
    Leads .power (baseKinds ++ op "**" ++ exponentKinds) (.binary .pow base exponent) := by
  refine ReadsAs.leads (fun ctx ts rest spells stops => ?_) rfl
  simp only [spells_append] at spells
  obtain ⟨behind, ⟨m, before, power⟩, after⟩ := spells
  have next : Stops .trailer (front m) := by
    intro l goes
    rw [(front_of_op power).1] at goes
    cases goes
    decide
  have signed : Stops .sign (front rest) := by
    intro l goes
    have looser := stops l goes
    have powerless : l ≠ .sign := by
      rintro rfl
      unfold continues? at goes
      split at goes <;> cases goes
    have distinct : l.rank ≠ Level.sign.rank := fun same => powerless (eq_of_rank same)
    simp only [Level.rank] at looser distinct ⊢
    omega
  refine .succ ?_
  filter_upwards [first ctx ts m before next, second ctx behind rest after signed] with f read read'
  rw [expression, run_bind read, run_bind (eatOp_of_spells power), if_pos rfl, run_bind read']
  rfl

theorem leads_choose {test body orelse : Expr} {testKinds bodyKinds orelseKinds : List TokenKind}
    (first : ReadsAs .disjunction bodyKinds body) (second : ReadsAs .disjunction testKinds test)
    (third : ReadsAs .conditional orelseKinds orelse) :
    Leads .conditional (bodyKinds ++ word "if" ++ testKinds ++ word "else" ++ orelseKinds)
      (.choose test body orelse) := by
  refine ReadsAs.leads (fun ctx ts rest spells stops => ?_) rfl
  simp only [spells_append] at spells
  obtain ⟨m₄, ⟨m₃, ⟨m₂, ⟨m₁, before, choice⟩, between⟩, other⟩, after⟩ := spells
  have next : Stops .disjunction (front m₁) := by
    intro l goes
    rw [(front_of_word choice).1] at goes
    cases goes
    decide
  have read₁ := first ctx ts m₁ before next
  have read₂ := second ctx m₂ m₃ between (.of_kind (front_of_word other).1 rfl)
  refine .succ ?_
  filter_upwards [read₁, read₂, third ctx m₄ rest after stops] with f read read' read''
  rw [expression, run_atWord, isWord_lambda_eq_false read₁, if_neg (by simp)]
  dsimp only
  rw [run_bind read, run_bind (eatWord_of_spells choice), if_pos rfl, run_bind read',
    run_bind (expectWord_of_spells other ctx), run_bind read'']
  rfl

/-! ## Comparisons -/

/-- The kinds of a comparison operator are the tokens that it is found by. -/
theorem comparisonAt_of_spells {comparison : Comparison} (spells : Spells comparison.kinds ts mid)
    (plain : isWord (front mid) "not" = false) :
    continues? (front ts).kind = some .comparison ∧
      ∃ width, comparisonAt? ts = some (comparison, width) ∧ ts.drop width = mid := by
  have symbol {text : String} (spells : Spells (op text) ts mid)
      (goes : continues? (.op text) = some .comparison)
      (found : ∀ ts, (front ts).kind = .op text → comparisonAt? ts = some (comparison, 1)) :
      continues? (front ts).kind = some .comparison ∧
        ∃ width, comparisonAt? ts = some (comparison, width) ∧ ts.drop width = mid := by
    obtain ⟨kind, rfl⟩ := front_of_op spells
    exact ⟨by rw [kind, goes], 1, found ts kind, List.drop_one⟩
  have pair {first second : String} (spells : Spells (word first ++ word second) ts mid)
      (goes : continues? (.name first) = some .comparison)
      (found : ∀ ts, (front ts).kind = .name first → (front ts.tail).kind = .name second →
        comparisonAt? ts = some (comparison, 2)) :
      continues? (front ts).kind = some .comparison ∧
        ∃ width, comparisonAt? ts = some (comparison, width) ∧ ts.drop width = mid := by
    obtain ⟨between, spells, spells'⟩ := (spells_append _ _ _ _).1 spells
    obtain ⟨kind, rfl⟩ := front_of_word spells
    obtain ⟨kind', rfl⟩ := front_of_word spells'
    refine ⟨by rw [kind, goes], 2, found ts kind kind', ?_⟩
    cases ts <;> simp
  cases comparison with
  | eq | ne | lt | le | gt | ge =>
    exact symbol spells rfl fun ts kind => by simp [comparisonAt?, kind]
  | isIn =>
    obtain ⟨kind, rfl⟩ := front_of_word spells
    exact ⟨by rw [kind]; rfl, 1, by simp [comparisonAt?, kind], List.drop_one⟩
  | «is» =>
    obtain ⟨kind, rfl⟩ := front_of_word spells
    exact ⟨by rw [kind]; rfl, 1, by simp [comparisonAt?, kind, plain], List.drop_one⟩
  | notIn | isNot =>
    exact pair spells rfl fun ts kind kind' => by
      simp [comparisonAt?, kind, isWord_of_kind kind']

theorem reads_links {links : List (Comparison × Expr)}
    (each : ∀ l ∈ links, ReadsAs .sum (l.2.kinds .sum) l.2)
    (spells : Spells (Expr.linkKinds links) ts rest) (stops : Stops .comparison (front rest)) :
    Stops .sum (front ts) ∧ Reads (comparisonLinks ctx) ts links rest := by
  induction links generalizing ts with
  | nil =>
    obtain rfl : ts = rest := spells
    exact ⟨stops.mono (by decide), reads_comparisonLinks stops⟩
  | cons l links ih =>
    obtain ⟨comparison, e⟩ := l
    simp only [Expr.linkKinds, spells_append] at spells
    obtain ⟨m₂, ⟨m₁, sign, right⟩, others⟩ := spells
    obtain ⟨next, further⟩ := ih (fun l mem => each l (by simp [mem])) others
    have read := each (comparison, e) (by simp) ctx m₁ m₂ right next
    obtain ⟨goes, width, found, rfl⟩ :=
      comparisonAt_of_spells sign (isWord_prefix_eq_false read rfl (by decide))
    refine ⟨fun l goes' => ?_, .succ ?_⟩
    · rw [goes] at goes'
      cases goes'
      decide
    · filter_upwards [read, further] with f taken onward
      rw [comparisonLinks, run_bind (show (get : Parser _) ts = .ok (ts, ts) from rfl), found]
      show (expression ctx f .sum >>= fun right => comparisonLinks ctx f >>= fun others =>
        pure ((comparison, right) :: others)) (ts.drop width) = _
      rw [run_bind taken, run_bind onward]
      rfl

theorem leads_compare {left : Expr} {links : List (Comparison × Expr)} (nonempty : links ≠ [])
    (first : ReadsAs .sum kinds left) (each : ∀ l ∈ links, ReadsAs .sum (l.2.kinds .sum) l.2) :
    Leads .comparison (kinds ++ Expr.linkKinds links) (.compare left links) := by
  refine ReadsAs.leads (fun ctx ts rest spells stops => ?_) rfl
  obtain ⟨mid, before, chain⟩ := (spells_append _ _ _ _).1 spells
  obtain ⟨next, read⟩ := reads_links each chain stops
  refine .succ ?_
  filter_upwards [first ctx ts mid before next, read] with f taken onward
  rw [expression, run_bind taken, run_bind onward]
  cases links with
  | nil => contradiction
  | cons link links => rfl

/-! ## All expressions -/

theorem leads_binary {o : BinaryOp} {left right : Expr}
    (first : Leads left.level left.bare left) (second : Leads right.level right.bare right) :
    Leads o.level (Expr.binary o left right).bare (.binary o left right) := by
  have grouped (group : Simulation.groups o.level = true)
      (joins : o.level.joiner? (.op o.symbol) = some (.binary o)) :
      Leads o.level (left.kinds o.level ++ literal (.op o.symbol) ++ right.kinds o.level.tighter)
        (.binary o left right) :=
    leads_joined group joins (leads_kinds first _) (leads_kinds second _).reads
  cases o with
  | pow => exact leads_power (leads_kinds first _).reads (leads_kinds second _).reads
  | _ => exact grouped rfl rfl

/-- A container that is read by a loop between its brackets. -/
theorem leads_container {α : Type} {opening closing : String} (loop : Context → Nat → Parser α)
    {make : α → Expr} {a : α}
    (items : ∀ ctx ts rest, Spells kinds ts rest → (front rest).kind = .op closing →
      Reads (loop ctx) ts a rest)
    (same : ∀ ctx f ts, (front ts).kind = .op opening → atom ctx (f + 1) ts =
      (do let a ← loop ctx f; expectOp ctx closing; return make a : Parser Expr) ts.tail) :
    Leads .atom (op opening ++ kinds ++ op closing) (make a) := by
  refine leads_atom fun ctx ts rest spells => ?_
  simp only [spells_append] at spells
  obtain ⟨last, ⟨first, opens, inside⟩, closes⟩ := spells
  obtain ⟨kind, rfl⟩ := front_of_op opens
  refine .succ ?_
  filter_upwards [items ctx ts.tail last inside (front_of_op closes).1] with f taken
  rw [same ctx f ts kind, run_bind taken, run_bind (expectOp_of_spells closes ctx)]
  rfl

theorem leads_list {items : List Expr}
    (each : ∀ e ∈ items, ReadsAs .conditional (e.kinds .conditional) e) :
    Leads .atom (Expr.list items).bare (.list items) := by
  rw [Expr.bare, parts_eq]
  refine leads_container listItems (fun ctx ts rest => reads_listItems each) fun ctx f ts kind => ?_
  rw [atom, run_current]
  simp only [kind]
  rfl

theorem leads_dict {entries : List (Expr × Expr)}
    (keys : ∀ e ∈ entries, ReadsAs .conditional (e.1.kinds .conditional) e.1)
    (values : ∀ e ∈ entries, ReadsAs .conditional (e.2.kinds .conditional) e.2) :
    Leads .atom (Expr.dict entries).bare (.dict entries) := by
  rw [Expr.bare, entryParts_eq]
  refine leads_container dictEntries (fun ctx ts rest => reads_dictEntries keys values)
    fun ctx f ts kind => ?_
  rw [atom, run_current]
  simp only [kind]
  rfl

theorem leads_tuple {items : List Expr}
    (each : ∀ e ∈ items, ReadsAs .conditional (e.kinds .conditional) e) :
    Leads .atom (Expr.tuple items).bare (.tuple items) := by
  rw [Expr.bare, parts_eq, List.append_assoc (op "(")]
  by_cases empty : items = []
  · subst empty
    refine leads_atom fun ctx ts rest spells => .succ (.of_forall fun f => ?_)
    obtain ⟨last, opening, closing⟩ := (spells_append (op "(") (op ")") _ _).1 spells
    obtain ⟨kind, rfl⟩ := front_of_op opening
    rw [atom, run_current]
    simp only [kind]
    rw [run_advance, run_bind (eatOp_of_spells closing), if_pos rfl]
    rfl
  · exact leads_enclosed fun ctx ts rest => reads_tuple each empty

/-- An expression is read at any level from the kinds that the level asks for. -/
theorem readsAs_kinds (h : Leads e.level e.bare e) (asked : Level) :
    ReadsAs asked (e.kinds asked) e :=
  (leads_kinds h asked).reads

mutual

/-- Every expression that is well formed is read from its kinds, at its own level and all looser
ones. -/
theorem leads_bare : (e : Expr) → e.wellFormed = true → Leads e.level e.bare e
  | .name id, formed => leads_word (wordAtom_of_free (by simpa [Expr.wellFormed] using formed))
  | .int n, _ => leads_int n
  | .float x, _ => leads_float x
  | .str s, _ => leads_str s
  | .bool b, _ => by cases b <;> exact leads_word rfl
  | .none, _ => leads_word rfl
  | .list items, formed => by
    rw [Expr.wellFormed] at formed
    exact leads_list fun e mem => readsAs_kinds (leads_all items formed e mem) _
  | .tuple items, formed => by
    rw [Expr.wellFormed] at formed
    exact leads_tuple fun e mem => readsAs_kinds (leads_all items formed e mem) _
  | .dict entries, formed => by
    rw [Expr.wellFormed] at formed
    have each := leads_entries entries formed
    exact leads_dict (fun e mem => readsAs_kinds (each e mem).1 _)
      fun e mem => readsAs_kinds (each e mem).2 _
  | .unary o e, formed => by
    rw [Expr.wellFormed] at formed
    have operand := leads_bare e formed
    cases o with
    | neg => exact leads_sign (.inl ⟨rfl, rfl⟩) (readsAs_kinds operand _)
    | pos => exact leads_sign (.inr ⟨rfl, rfl⟩) (readsAs_kinds operand _)
    | not => exact leads_not (readsAs_kinds operand _)
  | .binary o left right, formed => by
    simp only [Expr.wellFormed, Bool.and_eq_true] at formed
    exact leads_binary (leads_bare left formed.1) (leads_bare right formed.2)
  | .connect o left right, formed => by
    simp only [Expr.wellFormed, Bool.and_eq_true] at formed
    have first := leads_kinds (leads_bare left formed.1) o.level
    have second := readsAs_kinds (leads_bare right formed.2) o.level.tighter
    cases o with
    | and => exact leads_joined rfl rfl first second
    | or => exact leads_joined rfl rfl first second
  | .compare left links, formed => by
    simp only [Expr.wellFormed, Bool.and_eq_true, Bool.not_eq_true',
      List.isEmpty_eq_false_iff] at formed
    have each := leads_links links formed.2
    exact leads_compare formed.1.2 (readsAs_kinds (leads_bare left formed.1.1) _)
      fun l mem => readsAs_kinds (each l mem) _
  | .choose test body orelse, formed => by
    simp only [Expr.wellFormed, Bool.and_eq_true] at formed
    exact leads_choose (readsAs_kinds (leads_bare body formed.1.2) _)
      (readsAs_kinds (leads_bare test formed.1.1) _) (readsAs_kinds (leads_bare orelse formed.2) _)
  | .call callee args keywords, formed => by
    simp only [Expr.wellFormed, Bool.and_eq_true, decide_eq_true_eq] at formed
    obtain ⟨⟨⟨first, second⟩, third⟩, distinct⟩ := formed
    have each := leads_keywords keywords third
    exact leads_call (leads_kinds (leads_bare callee first) _) (fun k mem => (each k mem).1)
      distinct (fun e mem => readsAs_kinds (leads_all args second e mem) _)
      fun k mem => readsAs_kinds (each k mem).2 _
  | .attribute object id, formed => by
    simp only [Expr.wellFormed, Bool.and_eq_true, Bool.not_eq_true'] at formed
    exact leads_attribute (leads_kinds (leads_bare object formed.1) _) formed.2
  | .subscript object index, formed => by
    simp only [Expr.wellFormed, Bool.and_eq_true] at formed
    exact leads_subscript (leads_kinds (leads_bare object formed.1) _)
      (readsAs_kinds (leads_bare index formed.2) _)

theorem leads_all : (es : List Expr) → Expr.allWellFormed es = true →
    ∀ e ∈ es, Leads e.level e.bare e
  | [], _ => by simp
  | e :: es, formed => by
    simp only [Expr.allWellFormed, Bool.and_eq_true] at formed
    exact List.forall_mem_cons.2 ⟨leads_bare e formed.1, leads_all es formed.2⟩

theorem leads_entries : (entries : List (Expr × Expr)) → Expr.entriesWellFormed entries = true →
    ∀ e ∈ entries, Leads e.1.level e.1.bare e.1 ∧ Leads e.2.level e.2.bare e.2
  | [], _ => by simp
  | (key, value) :: entries, formed => by
    simp only [Expr.entriesWellFormed, Bool.and_eq_true] at formed
    exact List.forall_mem_cons.2 ⟨⟨leads_bare key formed.1.1, leads_bare value formed.1.2⟩,
      leads_entries entries formed.2⟩

theorem leads_keywords : (keywords : List (String × Expr)) →
    Expr.keywordsWellFormed keywords = true →
    ∀ k ∈ keywords, isKeyword k.1 = false ∧ Leads k.2.level k.2.bare k.2
  | [], _ => by simp
  | (id, value) :: keywords, formed => by
    simp only [Expr.keywordsWellFormed, Bool.and_eq_true, Bool.not_eq_true'] at formed
    exact List.forall_mem_cons.2 ⟨⟨formed.1.1, leads_bare value formed.1.2⟩,
      leads_keywords keywords formed.2⟩

theorem leads_links : (links : List (Comparison × Expr)) → Expr.linksWellFormed links = true →
    ∀ l ∈ links, Leads l.2.level l.2.bare l.2
  | [], _ => by simp
  | (_, e) :: links, formed => by
    simp only [Expr.linksWellFormed, Bool.and_eq_true] at formed
    exact List.forall_mem_cons.2 ⟨leads_bare e formed.1, leads_links links formed.2⟩

end

end Console.Parse
