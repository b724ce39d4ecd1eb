import Console.Proofs.Tree.StatementProspects
import Console.Proofs.Tree.Joining

/-!
# Prospects of units

Tokens that end inside a bracket end within a line. So a block that is open there is completed by the
words that complete its last line, the end of this line and the ends of the blocks around it. A unit
whose statement has ended before the bracket is rejected for good.
-/

namespace Console.Parse

open Token Filter

variable {α β : Type} {A X D ts rest : List Token} {C : List TokenKind} {ρ σ τ : List Bracket}
  {follow : Token → Prop} {d d' m m' : Nat} {loop function : Bool} {aimed lenient : Prop}
  {goal : α → Prop}

/-! ## Brackets of words -/

/-- Where the brackets of words match, no line begins or ends. -/
theorem words_of_nesting (nested : nesting? σ (ts.map Token.kind) = some τ) :
    (∀ x ∈ ts, isLayout x = false) ∧ ts.foldlM nest? σ = some τ := by
  induction ts generalizing σ with
  | nil => exact ⟨by simp, nested⟩
  | cons x ts ih =>
    obtain ⟨ρ, first, others⟩ := nesting_cons nested
    obtain ⟨inline, onward⟩ := ih others
    rw [nestWord?] at first
    by_cases layout : isLayout ⟨x.kind, .start⟩ = true
    · simp [layout] at first
    · rw [if_neg layout] at first
      refine ⟨List.forall_mem_cons.2 ⟨by simpa [isLayout] using layout, inline⟩, ?_⟩
      rw [List.foldlM_cons, show nest? σ x = some ρ from first]
      exact onward

/-! ## Lines and blocks -/

/-- What becomes of a reading that closes `d` blocks when a stream goes on behind tokens that end
inside a bracket, and what is read has to meet a goal. -/
inductive BlockOutlook (aimed lenient : Prop) (goal : α → Prop) (d m : Nat) (p : Bool → Nat → Parser α)
    (known : List Token) : Prop
  /-- It fails, whatever follows. -/
  | rejected (fails : ∀ t D, Rejects (p t) known D)
  /-- It fails or misses the goal, whatever follows. -/
  | missed (aim : aimed) (misses : ∀ t D, Misses goal (p t) (known ++ D))
  /-- It has ended before that bracket. -/
  | done (taken left : List Token) (v : α) (cut : known = taken ++ left) (short : left.length < m)
      (closed : openBrackets? taken = some []) (blocks : depth taken = -d) (meets : goal v)
      (reads : ∀ t D, Reads (p t) (known ++ D) v (left ++ D))
  /-- It goes on, and some words, the end of their line and the ends of all blocks complete it. -/
  | opened (C : List TokenKind) (k : Nat) (spare : ∀ kind ∈ C, isSpare kind = true)
      (nested : ∃ ρ, openBrackets? known = some ρ ∧ nesting? ρ C = some [])
      (blocks : (k : Int) = depth known + d)
      (completes : ∀ t ts R S, Spells (C ++ [.newline]) ts R → Closes k R S → Sealed S →
        Reaches lenient goal (p t) (known ++ ts) S)

/-- What becomes of a reading of which nothing is asked. -/
abbrev BlockProspect (aimed lenient : Prop) (d m : Nat) (p : Bool → Nat → Parser α)
    (known : List Token) : Prop :=
  BlockOutlook aimed lenient (fun _ => True) d m p known

/-- Words, the end of their line and the ends of `d` blocks complete what is still to be read. -/
def Concludes (goal : β → Prop) (d : Nat) (follow : Token → Prop)
    (k : α → Bool → Nat → Parser β) : Prop :=
  ∃ C, (∀ kind ∈ C, isSpare kind = true) ∧ nesting? [] C = some [] ∧
    ∀ ts R S, Spells (C ++ [.newline]) ts R → Closes d R S → Sealed S →
      follow (front ts) ∧ ∀ v t, Attains goal (k v t) ts S

namespace BlockOutlook

variable {p q : Bool → Nat → Parser α}

theorem transfer (onward : ∀ t D, Onward (p t) (X ++ (A ++ D)) (q t) (A ++ D))
    (closed : openBrackets? X = some []) (blocks : depth X + d = d') (le : m ≤ m')
    (next : BlockOutlook aimed lenient goal d' m q A) :
    BlockOutlook aimed lenient goal d m' p (X ++ A) := by
  cases next with
  | rejected fails => exact .rejected fun t D => (fails t D).transfer (onward t D)
  | missed aim misses =>
    refine .missed aim fun t D => ?_
    rw [List.append_assoc]
    exact onward t D (fun r => ∀ v rest, r = .ok (v, rest) → ¬ goal v) (misses t D)
  | done taken left v cut short closed' blocks' meets reads =>
    subst cut
    refine .done (X ++ taken) left v (by simp) (by omega) ?_ ?_ meets fun t D => ?_
    · rwa [openBrackets_append closed]
    · rw [depth_append]
      omega
    · rw [List.append_assoc]
      exact onward t D (fun r => r = _) (reads t D)
  | opened C k spare nested blocks' completes =>
    refine .opened C k spare ?_ ?_ fun t ts R S spells closes sealed => ?_
    · rwa [openBrackets_append closed]
    · rw [depth_append]
      omega
    · rw [List.append_assoc]
      exact (completes t ts R S spells closes sealed).transfer (onward t ts)

theorem unfold (same : ∀ t f, p t (f + 1) = q t f) (h : BlockOutlook aimed lenient goal d m q A) :
    BlockOutlook aimed lenient goal d m p A :=
  transfer (X := [])
    (fun _ _ _ all => eventually_succ (by simpa only [same, List.nil_append] using all))
    rfl (Int.zero_add _) (Nat.le_refl _) h

theorem behind (same : ∀ t D, ∀ᶠ f in atTop, p t f (X ++ (A ++ D)) = q t f (A ++ D))
    (closed : openBrackets? X = some []) (blocks : depth X + d = d') (le : m ≤ m')
    (next : BlockOutlook aimed lenient goal d' m q A) :
    BlockOutlook aimed lenient goal d m' p (X ++ A) := by
  refine transfer (fun t D P all => ?_) closed blocks le next
  filter_upwards [all, same t D] with f holds same
  rwa [same]

theorem mono (h : BlockOutlook aimed lenient goal d m p A) (le : m ≤ m') :
    BlockOutlook aimed lenient goal d m' p A :=
  transfer (X := []) (fun _ _ _ all => all) rfl (Int.zero_add _) le h

/-- The same is read from here on. -/
theorem here (same : ∀ t D, ∀ᶠ f in atTop, p t f (A ++ D) = q t f (A ++ D))
    (next : BlockOutlook aimed lenient goal d m q A) : BlockOutlook aimed lenient goal d m p A :=
  behind (X := []) same rfl (Int.zero_add _) (Nat.le_refl _) next

/-- Whatever is read meets the goal. -/
theorem of_forall (h : BlockProspect aimed lenient d m p A)
    (meets : ∀ t f D v rest, p t f (A ++ D) = .ok (v, rest) → goal v) :
    BlockOutlook aimed lenient goal d m p A := by
  cases h with
  | rejected fails => exact .rejected fails
  | missed aim misses =>
    refine .missed aim fun t D => ?_
    filter_upwards [misses t D] with f nothing
    exact fun v rest read => absurd trivial (nothing v rest read)
  | done taken left v cut short closed blocks _ reads =>
    obtain ⟨f, read⟩ := (reads true []).once
    exact .done taken left v cut short closed blocks (meets true f [] v _ read) reads
  | opened C k spare nested blocks completes =>
    refine .opened C k spare nested blocks fun t ts R S spells closes sealed =>
      (completes t ts R S spells closes sealed).mono fun v reads _ => ?_
    obtain ⟨f, read⟩ := reads.once
    exact meets t f ts v S read

/-- Words at the beginning of a line, and what comes behind them. -/
theorem words {pre : β → Prop} {p : Bool → Nat → Parser β} {k : β → Bool → Nat → Parser α}
    (first : Outlook aimed lenient pre [] [] follow p A) (unclosed : Unclosed (aimed ∨ lenient) A)
    (implied : ∀ t v f mid w rest, k v t f mid = .ok (w, rest) → goal w → pre v)
    (next : ∀ v left, pre v → left <:+ A → Unclosed (aimed ∨ lenient) left →
      BlockOutlook aimed lenient goal d m (k v) left)
    (ends : Concludes goal d follow fun v : {v // pre v} => k v) :
    BlockOutlook aimed lenient goal d m (fun t f => p t f >>= fun v => k v t f) A := by
  cases first with
  | rejected fails => exact .rejected fun t D => (fails t D).bind
  | missed aim misses => exact .missed aim fun t D => (misses t D).bind (implied t)
  | done taken left v cut more nested meets reads =>
    subst cut
    obtain ⟨inline, closed⟩ := words_of_nesting nested
    refine behind (fun t D => ?_) closed (by rw [depth_words inline]; exact Int.zero_add _)
      (Nat.le_refl _) (next v left meets (List.suffix_append _ _) (unclosed.left closed))
    filter_upwards [reads t D] with f read
    rw [← List.append_assoc, run_bind read]
  | opened C spare nested completes =>
    obtain ⟨C', spare', nested', attains⟩ := ends
    obtain ⟨ρ, known, completed⟩ := nesting_split nested
    obtain ⟨inline, opened⟩ := words_of_nesting known
    refine .opened (C ++ C') d
      (fun kind mem => (List.mem_append.1 mem).elim (spare kind) (spare' kind))
      ⟨ρ, opened, nesting_append completed nested'⟩
      (by rw [depth_words inline]; exact (Int.zero_add _).symm)
      fun t ts R S spells closes sealed => ?_
    rw [List.append_assoc] at spells
    obtain ⟨mid, spells, spells'⟩ := (spells_append _ _ _ _).1 spells
    obtain ⟨follows, last⟩ := attains mid R S spells' closes sealed
    exact (completes t ts mid spells follows).bind fun v meets => last ⟨v, meets⟩ t

/-- Whole lines, and what comes behind them. -/
theorem lines {p : Bool → Nat → Parser β} {k : β → Bool → Nat → Parser α}
    (first : BlockProspect aimed lenient 0 m p A) (unclosed : Unclosed (aimed ∨ lenient) A)
    (next : ∀ v left, left <:+ A → left.length < m → Unclosed (aimed ∨ lenient) left →
      BlockProspect aimed lenient d (left.length + 1) (k v) left)
    (cured : ∀ v t S T, Closes d S T → Sealed T → Completes (k v t) S T) :
    BlockProspect aimed lenient d m (fun t f => p t f >>= fun v => k v t f) A := by
  cases first with
  | rejected fails => exact .rejected fun t D => (fails t D).bind
  | missed aim misses => exact .missed aim fun t D => (misses t D).bind fun _ _ _ _ _ _ _ => trivial
  | done taken left v cut short closed blocks _ reads =>
    subst cut
    refine behind (fun t D => ?_) closed (by rw [blocks]; simp) short
      (next v left (List.suffix_append _ _) short (unclosed.left closed))
    filter_upwards [reads t D] with f read
    rw [← List.append_assoc, run_bind read]
  | opened C n spare nested blocks completes =>
    refine .opened C (n + d) spare nested (by simp_all) fun t ts R T spells closes sealed => ?_
    obtain ⟨S, closes, closes'⟩ := closes.split
    exact (completes t ts R S spells closes (closes'.sealed sealed)).bind fun v _ =>
      cured v t S T closes' sealed

/-- What is made of a reading meets a goal where the reading meets its own. -/
theorem map_to {pre : β → Prop} {p : Bool → Nat → Parser β} (change : β → α)
    (same : ∀ v, goal (change v) ↔ pre v) (h : BlockOutlook aimed lenient pre d m p A) :
    BlockOutlook aimed lenient goal d m (fun t f => p t f >>= fun v => pure (change v)) A := by
  cases h with
  | rejected fails => exact .rejected fun t D => (fails t D).bind
  | missed aim misses =>
    refine .missed aim fun t D => (misses t D).bind fun v f mid w rest made meets => ?_
    cases made
    exact (same v).1 meets
  | done taken left v cut short closed blocks meets reads =>
    exact .done taken left (change v) cut short closed blocks ((same v).2 meets)
      fun t D => (reads t D).map change
  | opened C k spare nested blocks completes =>
    exact .opened C k spare nested blocks fun t ts R S spells closes sealed =>
      (completes t ts R S spells closes sealed).bind fun v meets =>
        ⟨change v, (same v).2 meets, .of_eq fun _ => rfl⟩

theorem map {p : Bool → Nat → Parser β} (change : β → α) (h : BlockProspect aimed lenient d m p A) :
    BlockProspect aimed lenient d m (fun t f => p t f >>= fun v => pure (change v)) A :=
  map_to change (fun _ => Iff.rfl) h

theorem pure (v : α) : BlockProspect aimed lenient 0 (A.length + 1) (fun _ _ => Pure.pure v) A :=
  .done [] A v rfl (by simp) rfl rfl trivial fun _ _ => .of_eq fun _ => rfl

section

variable {a : Token}

theorem unexpected (inside : isEnd a = false) :
    BlockOutlook aimed lenient goal d m
      (fun t _ => Parse.unexpected ⟨t, loop, function⟩ : Bool → Nat → Parser α) (a :: A) :=
  .rejected fun t _ => Outlook.rejects_unexpected inside t

theorem fail {fault : SyntaxFault} (final : fault.missing? = none) :
    BlockOutlook aimed lenient goal d m (fun _ _ => Parse.fail fault : Bool → Nat → Parser α) A :=
  .rejected fun _ _ => ⟨fault, 0, final, by omega, .of_forall fun _ => rfl⟩

theorem current {k : Bool → Nat → Token → Parser α}
    (next : BlockOutlook aimed lenient goal d m (fun t f => k t f a) (a :: A)) :
    BlockOutlook aimed lenient goal d m (fun t f => Parse.current >>= k t f) (a :: A) :=
  here (q := fun t f => k t f a) (fun _ _ => .of_forall fun _ => rfl) next

theorem advance {k : Bool → Nat → Unit → Parser α} (flat : nest? [] a = some [])
    (blocks : depthOf a.kind + d = d') (le : m ≤ m')
    (next : BlockOutlook aimed lenient goal d' m (fun t f => k t f ()) A) :
    BlockOutlook aimed lenient goal d m' (fun t f => Parse.advance >>= k t f) (a :: A) :=
  behind (X := [a]) (q := fun t f => k t f ()) (fun _ _ => .of_forall fun _ => rfl)
    ((List.foldlM_cons ..).trans (by rw [flat]; rfl)) (by simpa using blocks) le next

end

section

variable {a : Token} {text symbol : String} {y n : Bool → Nat → Parser α}

theorem atNewline (yes : isNewline a = true → BlockOutlook aimed lenient goal d m y (a :: A))
    (no : isNewline a = false → BlockOutlook aimed lenient goal d m n (a :: A)) :
    BlockOutlook aimed lenient goal d m
      (fun t f => Parse.atNewline >>= fun b => if b = true then y t f else n t f) (a :: A) := by
  cases line : isNewline a with
  | true => exact (yes line).here fun _ _ => .of_forall fun _ => congrFun (if_pos line) _
  | false => exact (no line).here fun _ _ => .of_forall fun _ =>
      congrFun (if_neg (by simp [front, line])) _

theorem atWord (yes : isWord a text = true → BlockOutlook aimed lenient goal d m y (a :: A))
    (no : isWord a text = false → BlockOutlook aimed lenient goal d m n (a :: A)) :
    BlockOutlook aimed lenient goal d m
      (fun t f => Parse.atWord text >>= fun b => if b = true then y t f else n t f) (a :: A) := by
  cases word : isWord a text with
  | true => exact (yes word).here fun _ _ => .of_forall fun _ => congrFun (if_pos word) _
  | false => exact (no word).here fun _ _ => .of_forall fun _ =>
      congrFun (if_neg (by simp [front, word])) _

theorem eatWord (taken : isWord a text = true → BlockOutlook aimed lenient goal d m y A)
    (left : isWord a text = false → BlockOutlook aimed lenient goal d m n (a :: A)) :
    BlockOutlook aimed lenient goal d m
      (fun t f => Parse.eatWord text >>= fun b => if b = true then y t f else n t f) (a :: A) := by
  cases word : isWord a text with
  | true =>
    have kind := kind_of_isWord word
    refine behind (X := [a]) (q := y) (fun t D => .of_forall fun f => ?_) ?_ ?_ (Nat.le_refl _)
      (taken word)
    · exact run_bind (eatWord_present (S := a :: (A ++ D)) word)
    · exact (List.foldlM_cons ..).trans (by rw [nest_of_kind (by simp [kind])]; rfl)
    · simp [depthOf, kind]
  | false =>
    exact (left word).here fun t D => .of_forall fun f =>
      run_bind (eatWord_absent (S := a :: A ++ D) word)

theorem eatOp (flat : nestWord? [] (.op symbol) = some [])
    (taken : isOp a symbol = true → BlockOutlook aimed lenient goal d m y A)
    (left : isOp a symbol = false → BlockOutlook aimed lenient goal d m n (a :: A)) :
    BlockOutlook aimed lenient goal d m
      (fun t f => Parse.eatOp symbol >>= fun b => if b = true then y t f else n t f) (a :: A) := by
  cases op : isOp a symbol with
  | true =>
    have kind := kind_of_isOp op
    refine behind (X := [a]) (q := y) (fun t D => .of_forall fun f => ?_) ?_ ?_ (Nat.le_refl _)
      (taken op)
    · exact run_bind (eatOp_present (S := a :: (A ++ D)) op)
    · have nested : nesting? [] ([a].map Token.kind) = some [] := by
        rw [List.map_singleton, nesting_one, kind, flat]
      exact (words_of_nesting nested).2
    · simp [depthOf, kind]
  | false =>
    exact (left op).here fun t D => .of_forall fun f =>
      run_bind (eatOp_absent (S := a :: A ++ D) op)

/-- A line ends here or is rejected. -/
theorem lineEnd (inside : isEnd a = false) (v : α) (meets : goal v) :
    BlockOutlook aimed lenient goal 0 (A.length + 1)
      (fun t _ => expectNewline ⟨t, loop, function⟩ >>= fun _ => Pure.pure v) (a :: A) := by
  cases line : isNewline a with
  | true =>
    have kind := kind_of_isNewline line
    refine .done [a] A v rfl (by simp) ?_ (by simp [depthOf, kind]) meets
      fun t D => .of_eq fun f => ?_
    · exact (List.foldlM_cons ..).trans (by rw [nest_of_kind (by simp [kind])]; rfl)
    · exact run_bind (congrFun (if_pos line) _)
  | false =>
    refine .rejected fun t D => .bind (.of_same (fun f => congrFun (if_neg ?_) _)
      (Outlook.rejects_unexpected inside t))
    simp [front, line]

theorem advanceName {word : String} {k : Bool → Nat → Unit → Parser α} (kind : a.kind = .name word)
    (next : BlockOutlook aimed lenient goal d m (fun t f => k t f ()) A) :
    BlockOutlook aimed lenient goal d m (fun t f => Parse.advance >>= k t f) (a :: A) :=
  advance (nest_of_kind (by simp [kind]) _) (by simp [depthOf, kind]) (Nat.le_refl _) next

end

end BlockOutlook

/-! ## Lines -/

open BlockOutlook Prospects

/-- What is read behind a simple statement on its line. -/
def restOfLine (ctx : Context) (fuel line : Nat) (s : Simple) : Parser (List Statement) := do
  if ← eatOp ";" then
    if ← atNewline then
      expectNewline ctx
      return [.simple line s]
    else return .simple line s :: (← simpleLine ctx fuel)
  else
    expectNewline ctx
    return [.simple line s]

theorem restOfLine_ok {ctx : Context} {f line : Nat} {s : Simple} {body : List Statement}
    (read : restOfLine ctx f line s ts = .ok (body, rest)) :
    ∃ more, body = .simple line s :: more := by
  obtain ⟨semicolon, _, -, read⟩ := bind_ok read
  cases semicolon with
  | false =>
    obtain ⟨_, _, -, made⟩ := bind_ok read
    cases made
    exact ⟨[], rfl⟩
  | true =>
    obtain ⟨newline, _, -, read⟩ := bind_ok read
    cases newline with
    | true =>
      obtain ⟨_, _, -, made⟩ := bind_ok read
      cases made
      exact ⟨[], rfl⟩
    | false =>
      obtain ⟨more, _, -, made⟩ := bind_ok read
      cases made
      exact ⟨more, rfl⟩

theorem outlook_simpleLine (stage : Stage) (strict : stage ≠ .inside → ¬ lenient)
    (unclosed : Unclosed (aimed ∨ lenient) A) :
    BlockOutlook aimed lenient stage.Keeps 0 A.length
      (fun t f => simpleLine ⟨t, loop, function⟩ f) A := by
  induction length : A.length using Nat.strongRecOn generalizing A stage with
  | ind n ih =>
    subst length
    obtain ⟨a, rest, rfl, -⟩ := unclosed.cons
    have alone {stage : Stage} {s : Simple} (permits : stage.Permits s) :
        stage.Keeps [.simple a.pos.line s] :=
      (stage.keeps_cons ..).2 ⟨permits, Stage.keeps_nil _⟩
    refine .unfold (fun t f => by rw [simpleLine]) (.current (.words
      (k := fun s t f => restOfLine ⟨t, loop, function⟩ f a.pos.line s)
      (outlook_simpleStatement stage strict unclosed.inside unclosed.aims) unclosed
      ?implied ?next ?ends))
    case implied =>
      intro t s f mid body rest read keeps
      obtain ⟨more, rfl⟩ := restOfLine_ok read
      exact ((stage.keeps_cons ..).1 keeps).1
    case next =>
      intro s left permits suffix unclosed
      obtain ⟨b, left, rfl, inside⟩ := unclosed.cons
      have shorter := suffix.length_le
      refine .eatOp rfl (fun semicolon => ?_) fun _ => ?_
      · have unclosed : Unclosed (aimed ∨ lenient) left :=
          unclosed.tail (by simp [nest?, kind_of_isOp semicolon]; decide)
        obtain ⟨c, left, rfl, inside⟩ := unclosed.cons
        simp only [List.length_cons] at shorter ⊢
        refine .atNewline (fun _ => (lineEnd inside _ (alone permits)).mono (by omega)) fun _ => ?_
        have strict : stage.behind s ≠ .inside → ¬ lenient :=
          fun outside => strict fun inside => outside (by rw [inside]; rfl)
        refine .mono (.map_to _ (fun more => ?_)
          (ih _ (by simp; omega) (stage.behind s) strict unclosed rfl)) (by simp; omega)
        rw [stage.keeps_cons, and_iff_right permits]
      · exact (lineEnd inside _ (alone permits)).mono (by simpa using shorter)
    case ends =>
      refine ⟨[], by simp, rfl, fun ts R S spells closes _ => ?_⟩
      obtain ⟨x, rfl, kind⟩ := (spells_literal .newline ts R).1 spells
      obtain ⟨closed, -, count, rfl⟩ := closes
      obtain rfl : closed = [] := List.length_eq_zero_iff.1 count
      have newline : isNewline x = true := by simp [isNewline, kind]
      refine ⟨newline, fun s t => ⟨[.simple a.pos.line s], alone s.2, .of_eq fun f => ?_⟩⟩
      exact (run_bind (eatOp_absent (S := x :: S) (isOp_of_newline newline ";"))).trans
        (run_bind (congrFun (if_pos newline) (x :: S)))

/-- In a block nothing is asked of a line. -/
theorem prospect_simpleLine (unclosed : Unclosed (aimed ∨ lenient) A) :
    BlockProspect aimed lenient 0 A.length (fun t f => simpleLine ⟨t, loop, function⟩ f) A :=
  outlook_simpleLine .inside (absurd rfl) unclosed

/-! ## Blocks -/

/-- What becomes of every reading of statements. -/
structure BlockProspects (aimed lenient : Prop) (A : List Token) : Prop where
  statement : ∀ loop function, BlockProspect aimed lenient 0 A.length
    (fun t f => statement ⟨t, loop, function⟩ f) A
  ifStatement : (∃ word, (front A).kind = .name word) → ∀ loop function,
    BlockProspect aimed lenient 0 A.length (fun t f => ifStatement ⟨t, loop, function⟩ f) A
  elseBlock : ∀ loop function, BlockProspect aimed lenient 0 (A.length + 1)
    (fun t f => elseBlock ⟨t, loop, function⟩ f) A
  block : ∀ loop function, BlockProspect aimed lenient 0 A.length
    (fun t f => block ⟨t, loop, function⟩ f) A
  blockRest : ∀ loop function, BlockProspect aimed lenient 1 A.length
    (fun t f => blockRest ⟨t, loop, function⟩ f) A

/-- A body of one word. -/
theorem completes_block {ctx : Context} {R S : List Token}
    (spells : Spells [.name "pass", .newline] ts R) (closes : Closes 0 R S) :
    Completes (block ctx) ts S := by
  obtain ⟨⟨kind, p⟩, _, rfl, pass, ⟨kind', p'⟩, rest, rfl, line, rfl⟩ := spells
  obtain ⟨closed, -, count, rfl⟩ := closes
  obtain rfl : closed = [] := List.length_eq_zero_iff.1 count
  subst pass line
  exact .succ (.succ (.of_eq (v := [.simple p.line .pass]) fun f => rfl))

theorem completes_elseBlock {ctx : Context} (sealed : Sealed ts) :
    Completes (elseBlock ctx) ts ts :=
  .succ (.of_eq fun f => elseBlock_absent sealed.2 ctx f)

section

variable (later : ∀ A', A' <:+ A → Unclosed (aimed ∨ lenient) A' → BlockProspects aimed lenient A')
  (unclosed : Unclosed (aimed ∨ lenient) A)
include later unclosed

/-- A header, its body and what may come behind it. -/
theorem prospect_compound {header : Bool → Nat → Parser α}
    {k : α → List Statement → Bool → Nat → Parser β}
    (first : Outlook aimed lenient (fun _ => True) [] [] (fun _ => True) header A)
    (next : ∀ v body left, left <:+ A → Unclosed (aimed ∨ lenient) left →
      BlockProspect aimed lenient 0 (left.length + 1) (k v body) left)
    (closed : ∀ v body t S, Sealed S → Completes (k v body t) S S) :
    BlockProspect aimed lenient 0 A.length (fun t f => header t f >>= fun v =>
      block ⟨t, loop, function⟩ f >>= fun body => k v body t f) A := by
  refine .words first unclosed (fun _ _ _ _ _ _ _ _ => trivial)
    (fun v left _ suffix unclosed => ?_) ?_
  · refine .mono (.lines ((later left suffix unclosed).block loop function) unclosed ?_ ?_)
      suffix.length_le
    · exact fun body left' suffix' _ => next v body left' (suffix'.trans suffix)
    · rintro body t S T ⟨ended, -, empty, rfl⟩ sealed
      obtain rfl : ended = [] := List.length_eq_zero_iff.1 empty
      exact closed v body t T sealed
  · refine ⟨[.name "pass"], by decide, rfl, fun ts R S spells closes sealed => ⟨trivial, ?_⟩⟩
    exact fun v t => (completes_block spells closes).bind fun body _ => closed v body t S sealed

/-- A header, its body and the branch behind it. -/
theorem prospect_loop {header : Bool → Nat → Parser α}
    (make : α → List Statement → List Statement → β) (loop' function' : Bool)
    (first : Outlook aimed lenient (fun _ => True) [] [] (fun _ => True) header A) :
    BlockProspect aimed lenient 0 A.length (fun t f => header t f >>= fun v =>
      block ⟨t, loop, function⟩ f >>= fun body =>
        elseBlock ⟨t, loop', function'⟩ f >>= fun orelse => pure (make v body orelse)) A := by
  refine prospect_compound later unclosed first (fun v body left suffix unclosed => ?_) ?_
  · exact .map _ ((later left suffix unclosed).elseBlock loop' function')
  · exact fun v body t S sealed => (completes_elseBlock sealed).bind fun orelse _ =>
      .of_eq fun f => rfl

end

section

variable {a : Token}
  (later : ∀ A', A' <:+ A → Unclosed (aimed ∨ lenient) A' → BlockProspects aimed lenient A')
  (unclosed : Unclosed (aimed ∨ lenient) (a :: A))
include later unclosed

theorem prospect_elseBlock :
    BlockProspect aimed lenient 0 (A.length + 2)
      (fun t f => elseBlock ⟨t, loop, function⟩ f) (a :: A) := by
  refine .unfold (fun t f => by rw [elseBlock]) (.eatWord (fun word => ?_) fun _ =>
    BlockOutlook.pure (A := a :: A) [])
  have unclosed : Unclosed (aimed ∨ lenient) A :=
    unclosed.tail (nest_of_kind (by simp [kind_of_isWord word]) _)
  refine .mono ?_ (Nat.le_add_right A.length 2)
  simpa only [bind_pure] using prospect_compound later unclosed
    (k := fun (_ : Unit) body _ _ => pure body)
    (.of_prospect (.expectOp unclosed.inside (by decide) rfl))
    (fun _ body left _ _ => .pure body) fun _ body _ _ _ => .of_eq fun _ => rfl

theorem prospect_ifStatement {word : String} (kind : a.kind = .name word) :
    BlockProspect aimed lenient 0 (A.length + 1) (fun t f => ifStatement ⟨t, loop, function⟩ f)
      (a :: A) := by
  have unclosed : Unclosed (aimed ∨ lenient) A := unclosed.tail (nest_of_kind (by simp [kind]) _)
  refine .unfold (fun t f => by rw [ifStatement]) (.current (.advanceName kind (.mono
    (prospect_compound later unclosed (.of_prospect (prospect_testHeader unclosed.inside)) ?_ ?_)
    (Nat.le_succ _))))
  · intro test body left suffix unclosed
    obtain ⟨b, left, rfl, -⟩ := unclosed.cons
    refine .atWord (fun branch => .map _ ?_) fun _ =>
      .map _ ((later _ suffix unclosed).elseBlock loop function)
    exact ((later _ suffix unclosed).ifStatement ⟨_, kind_of_isWord branch⟩ loop function).mono
      (Nat.le_succ _)
  · intro test body t S sealed
    exact .of_same (fun f => congrFun (if_neg (by simp [sealed.1])) S)
      ((completes_elseBlock sealed).bind fun orelse _ => .of_eq fun f => rfl)

theorem prospect_statement :
    BlockProspect aimed lenient 0 (A.length + 1)
      (fun t f => statement ⟨t, loop, function⟩ f) (a :: A) := by
  have named {word : String} (kind : a.kind = .name word) : Unclosed (aimed ∨ lenient) A :=
    unclosed.tail (nest_of_kind (by simp [kind]) _)
  refine .unfold (fun t f => by rw [statement]) (.current (.current ?_))
  split
  case h_1 kind => exact .map _ (prospect_ifStatement later unclosed kind)
  case h_2 kind =>
    exact .advanceName kind (.mono (prospect_loop later (named kind)
      (fun test body orelse => [Statement.whileLoop a.pos.line test body orelse]) loop function
      (.of_prospect (prospect_testHeader (named kind).inside))) (Nat.le_succ _))
  case h_3 kind =>
    have aim := unclosed.aims a (by simp) (by rw [kind]; rfl)
    exact .advanceName kind (.mono (prospect_loop later (named kind)
      (fun header body orelse => [Statement.forLoop a.pos.line header.1 header.2 body orelse])
      loop function (outlook_forHeader aim (named kind).inside)) (Nat.le_succ _))
  case h_4 kind =>
    refine .advanceName kind (.mono (prospect_compound later (named kind)
      (.of_prospect (prospect_functionHeader (named kind))) ?_ ?_) (Nat.le_succ _))
    · exact fun header body left _ _ => .pure _
    · exact fun header body _ _ _ => .of_eq fun _ => rfl
  case h_5 kind =>
    refine .advanceName kind (.mono (prospect_compound later (named kind)
      (.of_prospect (prospect_classHeader (named kind).inside)) ?_ ?_) (Nat.le_succ _))
    · exact fun header body left _ _ => .pure _
    · exact fun header body _ _ _ => .of_eq fun _ => rfl
  case h_6 | h_7 | h_8 => exact .unexpected (unclosed.inside a (by simp))
  case h_9 => exact prospect_simpleLine unclosed

theorem prospect_block :
    BlockProspect aimed lenient 0 (A.length + 1)
      (fun t f => block ⟨t, loop, function⟩ f) (a :: A) := by
  refine .unfold (fun t f => by rw [block]) (.atNewline (fun newline => ?_) fun _ =>
    prospect_simpleLine unclosed)
  have kind := kind_of_isNewline newline
  have flat : nest? [] a = some [] := nest_of_kind (by simp [kind]) _
  have unclosed := unclosed.tail flat
  obtain ⟨b, A, rfl, inside⟩ := unclosed.cons
  refine .advance flat (by rw [kind]; rfl) (Nat.le_succ _) (.current ?_)
  split
  case h_1 kind =>
    have flat : nest? [] b = some [] := nest_of_kind (by simp [kind]) _
    have unclosed := unclosed.tail flat
    exact .advance flat (by rw [kind]; rfl) (Nat.le_succ _)
      ((later A (List.suffix_cons b A) unclosed).blockRest loop function)
  case h_2 kind => simp [isEnd, kind] at inside
  case h_3 => exact .fail rfl

theorem prospect_blockRest
    (statement : BlockProspect aimed lenient 0 (A.length + 1)
      (fun t f => statement ⟨t, loop, function⟩ f) (a :: A)) :
    BlockProspect aimed lenient 1 (A.length + 1)
      (fun t f => blockRest ⟨t, loop, function⟩ f) (a :: A) := by
  refine .unfold (fun t f => by rw [blockRest]) (.current ?_)
  split
  case h_1 kind =>
    exact .advance (nest_of_kind (by simp [kind]) _) (by rw [kind]; rfl) (Nat.le_refl _) (.pure _)
  case h_2 kind => exact .unexpected (unclosed.inside a (by simp))
  case h_3 =>
    refine .lines statement unclosed (fun first left suffix short unclosed => .map _ ?_) ?_
    · have further : left <:+ A := (List.suffix_cons_iff.1 suffix).resolve_left fun same => by
        simp [same] at short
      exact ((later left further unclosed).blockRest loop function).mono (Nat.le_succ _)
    · exact fun first t S T closes _ => .succ (.bind
        (.of_eq fun f => blockRest_closed closes ⟨t, loop, function⟩ f)
          fun rest _ => .of_eq fun _ => rfl)

end

theorem blockProspects (unclosed : Unclosed (aimed ∨ lenient) A) : BlockProspects aimed lenient A := by
  induction length : A.length using Nat.strongRecOn generalizing A with
  | ind n ih =>
    obtain ⟨a, A, rfl, -⟩ := unclosed.cons
    have later (A' : List Token) (suffix : A' <:+ A) (unclosed : Unclosed (aimed ∨ lenient) A') :
        BlockProspects aimed lenient A' :=
      ih A'.length (by have := suffix.length_le; simp at length; omega) unclosed rfl
    exact {
      statement := fun _ _ => prospect_statement later unclosed
      ifStatement := fun ⟨_, kind⟩ _ _ => prospect_ifStatement later unclosed kind
      elseBlock := fun _ _ => prospect_elseBlock later unclosed
      block := fun _ _ => prospect_block later unclosed
      blockRest := fun _ _ => prospect_blockRest later unclosed (prospect_statement later unclosed) }

/-! ## Whole units -/

/-- What a statement at the beginning of a unit imports from the future may be at fault. -/
theorem outlook_statement (strict : ¬ lenient) (unclosed : Unclosed (aimed ∨ lenient) A) :
    BlockOutlook aimed lenient Stage.leading.Keeps 0 A.length
      (fun t f => statement ⟨t, false, false⟩ f) A := by
  obtain ⟨a, rest, rfl, -⟩ := unclosed.cons
  cases simple : startsSimple a.kind with
  | true =>
    have line : BlockOutlook aimed lenient Stage.leading.Keeps 0 (a :: rest).length
        (fun t f => simpleLine ⟨t, false, false⟩ f) (a :: rest) :=
      outlook_simpleLine .leading (fun _ => strict) unclosed
    refine line.transfer (X := []) (fun t D P all => eventually_succ ?_) rfl (Int.zero_add _)
      (Nat.le_refl _)
    filter_upwards [all] with f holds
    rwa [List.nil_append, statement_simple (show startsSimple (front (a :: rest ++ D)).kind from simple)]
  | false =>
    refine .of_forall ((blockProspects unclosed).statement false false) ?_
    intro t f D body left read
    cases f with
    | zero => cases read
    | succ f =>
      exact ⟨_, futureFrom_compound (show startsSimple (front (a :: rest ++ D)).kind = false from simple)
        read⟩

/-- What becomes of the reading of a unit: it fails whatever follows, or misses what is aimed at, or
something completes it. -/
theorem outlook_oneStatement {goal : List Statement → Prop} (unclosed : Unclosed (aimed ∨ lenient) A)
    (first : BlockOutlook aimed lenient goal 0 A.length (fun t f => statement ⟨t, false, false⟩ f) A) :
    (∀ t D, Rejects (fun f => oneStatement ⟨t, false, false⟩ f) A D) ∨
      (aimed ∧ ∀ t D, Misses goal (fun f => oneStatement ⟨t, false, false⟩ f) (A ++ D)) ∨
      ∃ (C : List TokenKind) (k : Nat), (∀ kind ∈ C, isSpare kind = true) ∧
        (∃ ρ, openBrackets? A = some ρ ∧ nesting? ρ C = some []) ∧ (k : Int) = depth A ∧
        ∀ t ts R S, Spells (C ++ [.newline]) ts R → Closes k R S → isEnd (front S) = true →
          Reaches lenient goal (fun f => oneStatement ⟨t, false, false⟩ f) (A ++ ts) S := by
  obtain ⟨a, rest, rfl, inside⟩ := unclosed.cons
  have inside (D : List Token) : isEnd (front (a :: rest ++ D)) = false := inside
  cases first with
  | rejected fails =>
    refine .inl fun t D => ?_
    obtain ⟨fault, n, final, near, failed⟩ := fails t D
    refine ⟨fault, n, final, near, ?_⟩
    filter_upwards [failed] with f failed
    exact oneStatement_error (inside _) failed
  | missed aim misses =>
    refine .inr (.inl ⟨aim, fun t D => ?_⟩)
    filter_upwards [misses t D] with f misses
    intro body left read
    cases taken : statement ⟨t, false, false⟩ f (a :: rest ++ D) with
    | error e =>
      rw [oneStatement_error (inside D) taken] at read
      cases read
    | ok x =>
      rw [oneStatement_ok (inside D) taken] at read
      split at read
      · cases read
        exact misses _ _ taken
      · cases read
  | done taken left v cut short closed blocks _ reads =>
    rw [cut] at unclosed
    obtain ⟨b, left, rfl, inside'⟩ := (unclosed.left closed).cons
    refine .inl fun t D => ⟨.multipleStatements, taken.length, rfl, ?_, ?_⟩
    · rw [cut, List.length_append]
      omega
    · filter_upwards [reads t D] with f read
      rw [oneStatement_ok (inside _) read, if_neg (by simp [front, inside']), cut, List.append_assoc,
        List.drop_left]
  | opened C k spare nested blocks completes =>
    refine .inr (.inr ⟨C, k, spare, nested, by simpa using blocks, ?_⟩)
    intro t ts R S spells closes ending
    have sealed : Sealed S := sealed_of_kind fun word => by simp [kind_of_isEnd ending]
    rcases completes t ts R S spells closes sealed with ⟨v, meets, read⟩ | ⟨allowed, e, fault, failed⟩
    · refine .inl ⟨v, meets, ?_⟩
      filter_upwards [read] with f read
      rw [oneStatement_ok (inside _) read, if_pos ending]
    · refine .inr ⟨allowed, e, fault, ?_⟩
      filter_upwards [failed] with f failed
      exact oneStatement_error (inside _) failed

/-- Blank lines before a unit are passed, and any depth that suffices tells what all of them do. -/
theorem program_eventually {lines ts : List Token} {t : Bool}
    {P : Except SyntaxError (List Statement × List Token) → Prop}
    (newlines : ∀ x ∈ lines, isNewline x = true) (more : isNewline (front ts) = false)
    (all : ∀ᶠ f in atTop, P (oneStatement ⟨t, false, false⟩ f ts)) :
    ∃ r, P r ∧ program (lines ++ ts) .single t = r.map Prod.fst := by
  have skipped : (lines ++ ts).dropWhile isNewline = ts := by
    rw [List.dropWhile_append_of_pos newlines]
    cases ts with
    | nil => rfl
    | cons x ts => rw [List.dropWhile_cons_of_neg (by simpa [front] using more)]
  obtain ⟨f, holds, deep⟩ := (all.and (eventually_gt_atTop (16 * ts.length + 14))).exists
  have within : Within f (enoughFuel (lines ++ ts)) (16 * ts.length + 14) := by
    simp only [Within, enoughFuel, List.length_append]
    omega
  refine ⟨_, holds, ?_⟩
  rw [program_single (skipNewlines_eq (length_le_enoughFuel _)), skipped]
  cases taken : oneStatement ⟨t, false, false⟩ f ts with
  | error e => rw [(same_oneStatement within false false).error rfl taken]
  | ok x => rw [((same_oneStatement within false false).ok taken).1]

theorem openBrackets_newlines {lines : List Token} (newlines : ∀ x ∈ lines, isNewline x = true) :
    openBrackets? lines = some [] := by
  induction lines with
  | nil => rfl
  | cons x lines ih =>
    obtain ⟨newline, newlines⟩ := List.forall_mem_cons.1 newlines
    have flat : nest? [] x = some [] := nest_of_kind (by simp [kind_of_isNewline newline]) _
    have closed : openBrackets? [x] = some [] :=
      (List.foldlM_cons ..).trans (by rw [flat]; rfl)
    exact (openBrackets_append closed lines).trans (ih newlines)

/-- Tokens that begin no unit: one of them, or one of the next two, is a fault that no text can
cure. -/
def Hopeless (ts : List Token) : Prop :=
  ∀ t D, ∃ fault n, SyntaxFault.missing? fault = none ∧ n ≤ ts.length + 1 ∧
    program (ts ++ D) .single t = .error (.of fault (front ((ts ++ D).drop n)).pos)

/-- Words complete the tokens: they close their brackets, and behind them the line and the blocks may
end. What all of it comes to has a property. -/
def Completed (P : Except SyntaxError (List Statement) → Prop) (ts : List Token) : Prop :=
  ∃ (C : List TokenKind) (k : Nat), (∀ kind ∈ C, isSpare kind = true) ∧
    (∃ ρ, openBrackets? ts = some ρ ∧ nesting? ρ C = some []) ∧ (k : Int) = depth ts ∧
      ∀ t tail R S, Spells (C ++ [.newline]) tail R → Closes k R S → isEnd (front S) = true →
        P (program (ts ++ tail) .single t)

/-- What becomes of a unit that ends inside a bracket, if it is known what becomes of its statement. -/
theorem outlook_program {goal : List Statement → Prop} (unclosed : Unclosed (aimed ∨ lenient) ts)
    (first : ∀ A, Unclosed (aimed ∨ lenient) A →
      BlockOutlook aimed lenient goal 0 A.length (fun t f => statement ⟨t, false, false⟩ f) A) :
    Hopeless ts ∨ (aimed ∧ ∀ t D body, program (ts ++ D) .single t = .ok body → ¬ goal body) ∨
      Completed (fun r => (∃ body, goal body ∧ r = .ok body) ∨
        lenient ∧ ∃ e : SyntaxError, isMisdirected e.fault = true ∧ r = .error e) ts := by
  obtain ⟨lines, A, rfl, newlines, begins⟩ : ∃ lines A, ts = lines ++ A ∧
      (∀ x ∈ lines, isNewline x = true) ∧ ∀ x ∈ A.head?, isNewline x = false :=
    ⟨ts.takeWhile isNewline, ts.dropWhile isNewline, List.takeWhile_append_dropWhile.symm,
      fun x mem => List.mem_takeWhile_imp mem, fun x mem => by
        have := List.head?_dropWhile_not isNewline ts
        rwa [Option.mem_def.1 mem] at this⟩
  have closed := openBrackets_newlines newlines
  have unclosed := unclosed.left closed
  obtain ⟨a, rest, rfl, -⟩ := unclosed.cons
  have more (D : List Token) : isNewline (front (a :: rest ++ D)) = false := begins a rfl
  rcases outlook_oneStatement unclosed (first _ unclosed) with
    fails | ⟨aim, misses⟩ | ⟨C, k, spare, nested, blocks, completes⟩
  · refine .inl fun t D => ?_
    obtain ⟨fault, n, final, near, failed⟩ := fails t D
    refine ⟨fault, lines.length + n, final, by simp only [List.length_append]; omega, ?_⟩
    obtain ⟨r, rfl, same⟩ := program_eventually (P := (· = _)) newlines (more D) failed
    rw [List.append_assoc, same, ← List.drop_drop, List.drop_left]
    rfl
  · refine .inr (.inl ⟨aim, fun t D body read => ?_⟩)
    obtain ⟨r, misses, same⟩ := program_eventually
      (P := fun r => ∀ body left, r = .ok (body, left) → ¬ goal body) newlines (more D) (misses t D)
    rw [List.append_assoc, same] at read
    cases r with
    | error e => cases read
    | ok x =>
      cases read
      exact misses x.1 x.2 rfl
  · refine .inr (.inr ⟨C, k, spare, ?_, ?_, fun t tail R S spells closes ending => ?_⟩)
    · rwa [openBrackets_append closed]
    · rw [depth_append, depth_newlines newlines, Int.zero_add, blocks]
    · rw [List.append_assoc]
      rcases completes t tail R S spells closes ending with
        ⟨body, meets, read⟩ | ⟨allowed, e, fault, failed⟩
      · obtain ⟨r, rfl, same⟩ := program_eventually (P := (· = _)) newlines (more tail) read
        exact .inl ⟨body, meets, same⟩
      · obtain ⟨r, rfl, same⟩ := program_eventually (P := (· = _)) newlines (more tail) failed
        exact .inr ⟨allowed, e, fault, same⟩

/-- A unit that ends inside a bracket is hopeless, or words complete it, unless it has aimed at
something: then it may be lost whatever follows. -/
theorem program_prospect (unclosed : Unclosed aimed ts) :
    Hopeless ts ∨
      (aimed ∧ ∀ t D body, program (ts ++ D) .single t = .ok body → ¬ Stage.leading.Keeps body) ∨
      Completed (fun r => ∃ body, Stage.leading.Keeps body ∧ r = .ok body) ts := by
  have unclosed : Unclosed (aimed ∨ False) ts := unclosed.mono .inl
  have outlook := outlook_program unclosed fun A => outlook_statement not_false
  simpa using outlook

/-- Words complete a unit that ends inside a bracket and is not hopeless, if a fault of targets is put
up with. -/
theorem program_completed (unclosed : Unclosed aimed ts) (hopeful : ¬ Hopeless ts) :
    Completed (fun r => (∃ body, r = .ok body) ∨
      ∃ e : SyntaxError, isMisdirected e.fault = true ∧ r = .error e) ts := by
  have unclosed : Unclosed (False ∨ True) ts := unclosed.mono fun _ => .inr trivial
  have outlook := outlook_program unclosed fun A unclosed =>
    (blockProspects unclosed).statement false false
  simpa using outlook.resolve_left hopeful

end Console.Parse
