import Console.Proofs.Token.Stream
import Console.Proofs.Tree.ExpressionRecovery

/-!
# What becomes of an open stream

The tokens of a stream are known up to some point, and what follows them is not. A reading of it fails
whatever follows, has ended before that point, or goes on behind it, and then some words complete it.
Each step of a reading keeps this, and so does one reading behind another. Where something is asked of
what is read, as of the targets of an assignment, a reading may also miss that whatever follows.
-/

namespace Console.Parse

open Token Filter

variable {α β : Type} {A A' X D ts rest : List Token} {C C' : List TokenKind}
  {ρ σ τ : List Bracket} {follow follow' : Token → Prop} {aimed lenient : Prop} {goal : α → Prop}

/-! ## Words and brackets -/

/-- What a word of a line makes of the open brackets, innermost first; nothing if it closes a
bracket other than the innermost, or if it is no word. -/
def nestWord? (opened : List Bracket) (kind : TokenKind) : Option (List Bracket) :=
  if isLayout ⟨kind, .start⟩ then none else nest? opened ⟨kind, .start⟩

/-- The brackets open behind words of some kinds. -/
def nesting? (opened : List Bracket) (kinds : List TokenKind) : Option (List Bracket) :=
  kinds.foldlM nestWord? opened

theorem nesting_one (kind : TokenKind) : nesting? σ [kind] = nestWord? σ kind := by
  cases read : nestWord? σ kind with
  | none => exact congrArg (Option.bind · some) read
  | some opened => exact congrArg (Option.bind · some) read

theorem nest_of_same {t : Token} {kind : TokenKind} (same : t.kind = kind) :
    nestWord? σ t.kind = nestWord? σ kind := by
  rw [same]

theorem nesting_append {kinds kinds' : List TokenKind} (first : nesting? σ kinds = some ρ)
    (second : nesting? ρ kinds' = some τ) : nesting? σ (kinds ++ kinds') = some τ := by
  unfold nesting? at *
  rw [List.foldlM_append, first]
  exact second

theorem nesting_split {kinds : List TokenKind} (nested : nesting? σ (kinds ++ C) = some τ) :
    ∃ ρ, nesting? σ kinds = some ρ ∧ nesting? ρ C = some τ := by
  unfold nesting? at *
  rw [List.foldlM_append] at nested
  exact Option.bind_eq_some_iff.1 nested

theorem nesting_cons {kind : TokenKind} (nested : nesting? σ (kind :: C) = some τ) :
    ∃ ρ, nestWord? σ kind = some ρ ∧ nesting? ρ C = some τ :=
  Option.bind_eq_some_iff.1 nested

/-! ## Completions -/

/-- A kind of token that completions are made of. -/
def isSpare : TokenKind → Bool
  | .name text => ["x", "else", "in", "pass", "import", "division"].contains text
  | .op symbol => [")", "]", "\x7d", ":", "=", "."].contains symbol
  | _ => false

/-- A token behind which targets may stand, or before which they do, or the module that features are
imported from. -/
def isAim : TokenKind → Bool
  | .name text => ["for", "del", "__future__"].contains text
  | .op symbol => symbol == "="
  | _ => false

/-- The fault of something assigned or deleted that is no target. -/
def isMisdirected : SyntaxFault → Bool
  | .cannotAssign | .cannotDelete => true
  | _ => false

/-- What `q` comes to from `mid`, at every depth that suffices, `p` comes to from `ts`. -/
def Onward (p : Nat → Parser α) (ts : List Token) (q : Nat → Parser α) (mid : List Token) : Prop :=
  ∀ P : Except SyntaxError (α × List Token) → Prop,
    (∀ᶠ f in atTop, P (q f mid)) → ∀ᶠ f in atTop, P (p f ts)

/-- Something that meets the goal is read up to the rest. -/
def Attains (goal : α → Prop) (p : Nat → Parser α) (ts rest : List Token) : Prop :=
  ∃ v, goal v ∧ Reads p ts v rest

/-- Something is read up to the rest. -/
abbrev Completes (p : Nat → Parser α) (ts rest : List Token) : Prop :=
  Attains (fun _ => True) p ts rest

/-- Something that meets the goal is read, or a fault of targets is found where one is lenient. -/
def Reaches (lenient : Prop) (goal : α → Prop) (p : Nat → Parser α) (ts rest : List Token) : Prop :=
  Attains goal p ts rest ∨
    lenient ∧ ∃ e : SyntaxError, isMisdirected e.fault = true ∧ ∀ᶠ f in atTop, p f ts = .error e

/-- Nothing is read that meets the goal. -/
def Misses (goal : α → Prop) (p : Nat → Parser α) (ts : List Token) : Prop :=
  ∀ᶠ f in atTop, ∀ v rest, p f ts = .ok (v, rest) → ¬ goal v

/-- What is known of a stream is rejected when it is followed by `D`: the fault lies in it, or at
one of the next two tokens. -/
def Rejects (p : Nat → Parser α) (known D : List Token) : Prop :=
  ∃ fault n, SyntaxFault.missing? fault = none ∧ n ≤ known.length + 1 ∧
    ∀ᶠ f in atTop, p f (known ++ D) = .error (.of fault (front ((known ++ D).drop n)).pos)

/-- What is rejected is so whatever would be read behind it. -/
theorem Rejects.bind {p : Nat → Parser α} {k : Nat → α → Parser β} (h : Rejects p A D) :
    Rejects (fun f => p f >>= k f) A D := by
  obtain ⟨fault, n, final, near, failed⟩ := h
  refine ⟨fault, n, final, near, ?_⟩
  filter_upwards [failed] with f failed
  exact run_bind_error failed

theorem Rejects.of_same {p q : Nat → Parser α} (same : ∀ f, p f (A ++ D) = q f (A ++ D))
    (h : Rejects q A D) : Rejects p A D := by
  simpa only [Rejects, same] using h

theorem Rejects.transfer {p q : Nat → Parser α}
    (onward : Onward p (X ++ (A ++ D)) q (A ++ D)) (h : Rejects q A D) : Rejects p (X ++ A) D := by
  obtain ⟨fault, n, final, near, failed⟩ := h
  refine ⟨fault, X.length + n, final, by simp only [List.length_append]; omega, ?_⟩
  rw [List.append_assoc, ← List.drop_drop, List.drop_left]
  exact onward (fun r => r = _) failed

/-- What misses a goal misses what would be read behind it, if that implies the goal. -/
theorem Misses.bind {pre : β → Prop} {p : Nat → Parser β} {k : β → Nat → Parser α}
    (implied : ∀ v f mid w rest, k v f mid = .ok (w, rest) → goal w → pre v) (h : Misses pre p ts) :
    Misses goal (fun f => p f >>= fun v => k v f) ts := by
  filter_upwards [h] with f misses
  intro w rest read meets
  obtain ⟨v, mid, first, second⟩ := bind_ok read
  exact misses v mid first (implied v f mid w rest second meets)

/-- What becomes of a reading when a stream goes on behind tokens that are known, and what is read has
to meet a goal. Only where something is `aimed` at may a reading miss it; where one is `lenient`, a
fault of targets completes it too. -/
inductive Outlook (aimed lenient : Prop) (goal : α → Prop) (σ τ : List Bracket) (follow : Token → Prop)
    (p : Bool → Nat → Parser α) (known : List Token) : Prop
  /-- It fails, whatever follows. -/
  | rejected (fails : ∀ t D, Rejects (p t) known D)
  /-- It fails or misses the goal, whatever follows. -/
  | missed (aim : aimed) (misses : ∀ t D, Misses goal (p t) (known ++ D))
  /-- It has ended before the last of them. -/
  | done (taken left : List Token) (v : α) (cut : known = taken ++ left) (more : left ≠ [])
      (nested : nesting? σ (taken.map Token.kind) = some τ) (meets : goal v)
      (reads : ∀ t D, Reads (p t) (known ++ D) v (left ++ D))
  /-- It goes on behind them, and some kinds of tokens complete it. -/
  | opened (C : List TokenKind) (spare : ∀ kind ∈ C, isSpare kind = true)
      (nested : nesting? σ (known.map Token.kind ++ C) = some τ)
      (completes : ∀ t ts rest, Spells C ts rest → follow (front rest) →
        Reaches lenient goal (p t) (known ++ ts) rest)

/-- What becomes of a reading of which nothing is asked. -/
abbrev Prospect (σ τ : List Bracket) (follow : Token → Prop) (p : Bool → Nat → Parser α)
    (known : List Token) : Prop :=
  Outlook False False (fun _ => True) σ τ follow p known

/-- Some kinds of tokens complete what is still to be read behind an open reading. -/
def Secures (goal : β → Prop) (ρ τ : List Bracket) (follow follow' : Token → Prop)
    (k : α → Bool → Nat → Parser β) : Prop :=
  ∃ C, (∀ kind ∈ C, isSpare kind = true) ∧ nesting? ρ C = some τ ∧
    ∀ ts rest, Spells C ts rest → follow' (front rest) →
      follow (front ts) ∧ ∀ v t, Attains goal (k v t) ts rest

abbrev Finishes (ρ τ : List Bracket) (follow follow' : Token → Prop)
    (k : α → Bool → Nat → Parser β) : Prop :=
  Secures (fun _ => True) ρ τ follow follow' k

theorem eventually_succ {P : Nat → Prop} (h : ∀ᶠ f in atTop, P (f + 1)) : ∀ᶠ f in atTop, P f := by
  rwa [← map_add_atTop_eq_nat 1, eventually_map]

namespace Attains

variable {p : Nat → Parser α} {k : β → Nat → Parser α} {mid : List Token}

theorem of_reads {v : α} (reads : Reads p ts v rest) : Completes p ts rest := ⟨v, trivial, reads⟩

theorem of_eq {v : α} (h : ∀ f, p f ts = .ok (v, rest)) : Completes p ts rest :=
  .of_reads (.of_eq h)

theorem transfer {q : Nat → Parser α} (onward : Onward p ts q mid) (h : Attains goal q mid rest) :
    Attains goal p ts rest := by
  obtain ⟨v, meets, reads⟩ := h
  exact ⟨v, meets, onward (fun r => r = _) reads⟩

theorem succ (h : Attains goal (fun f => p (f + 1)) ts rest) : Attains goal p ts rest :=
  h.transfer fun P all => eventually_succ (P := fun f => P (p f ts)) all

theorem of_same {q : Nat → Parser α} (same : ∀ f, p f ts = q f mid)
    (h : Attains goal q mid rest) : Attains goal p ts rest :=
  h.transfer fun _ all => by simpa only [same] using all

theorem bind {pre : β → Prop} {p : Nat → Parser β} (first : Attains pre p ts mid)
    (next : ∀ v, pre v → Attains goal (k v) mid rest) :
    Attains goal (fun f => p f >>= fun v => k v f) ts rest := by
  obtain ⟨v, meets, read⟩ := first
  obtain ⟨w, meets', read'⟩ := next v meets
  refine ⟨w, meets', ?_⟩
  filter_upwards [read, read'] with f read read'
  rwa [run_bind read]

end Attains

namespace Reaches

variable {p : Nat → Parser α} {k : β → Nat → Parser α} {mid : List Token}

theorem transfer {q : Nat → Parser α} (onward : Onward p ts q mid)
    (h : Reaches lenient goal q mid rest) : Reaches lenient goal p ts rest := by
  rcases h with attains | ⟨allowed, e, fault, failed⟩
  · exact .inl (attains.transfer onward)
  · exact .inr ⟨allowed, e, fault, onward (fun r => r = _) failed⟩

theorem bind {pre : β → Prop} {p : Nat → Parser β} (first : Reaches lenient pre p ts mid)
    (next : ∀ v, pre v → Attains goal (k v) mid rest) :
    Reaches lenient goal (fun f => p f >>= fun v => k v f) ts rest := by
  rcases first with attains | ⟨allowed, e, fault, failed⟩
  · exact .inl (attains.bind next)
  · refine .inr ⟨allowed, e, fault, ?_⟩
    filter_upwards [failed] with f failed
    exact run_bind_error failed

theorem mono {goal' : α → Prop} {p : Nat → Parser α} (h : Reaches lenient goal p ts rest)
    (le : ∀ v, Reads p ts v rest → goal v → goal' v) : Reaches lenient goal' p ts rest := by
  rcases h with ⟨v, meets, reads⟩ | fails
  · exact .inl ⟨v, le v reads meets, reads⟩
  · exact .inr fails

end Reaches

namespace Secures

variable {γ : Type} {goal : β → Prop} {p q : α → Bool → Nat → Parser β} {between : Token → Prop}
  {symbol text : String} {loop function : Bool}

/-- Nothing more is needed where the reading goes on without taking a token. -/
theorem nothing (follows : ∀ t, follow' t → follow t)
    (attains : ∀ v t ts, follow' (front ts) → Attains goal (p v t) ts ts) :
    Secures goal σ σ follow follow' p := by
  refine ⟨[], by simp, rfl, ?_⟩
  rintro ts _ rfl ok
  exact ⟨follows _ ok, fun v t => attains v t ts ok⟩

theorem pure_to (make : α → β) (meets : ∀ v, goal (make v)) (follows : ∀ t, follow' t → follow t) :
    Secures goal σ σ follow follow' (fun v _ _ => Pure.pure (make v)) :=
  nothing follows fun v _ _ _ => ⟨make v, meets v, .of_eq fun _ => rfl⟩

theorem pure (make : α → β) (follows : ∀ t, follow' t → follow t) :
    Finishes σ σ follow follow' (fun v _ _ => Pure.pure (make v)) :=
  pure_to make (fun _ => trivial) follows

theorem mono {weaker : Token → Prop} (h : Secures goal ρ τ follow follow' p)
    (le : ∀ x, follow x → weaker x) : Secures goal ρ τ weaker follow' p := by
  obtain ⟨C, spare, nested, attains⟩ := h
  exact ⟨C, spare, nested, fun ts rest spells ok =>
    ⟨le _ (attains ts rest spells ok).1, (attains ts rest spells ok).2⟩⟩

theorem one {kind : TokenKind} (spare : isSpare kind = true)
    (nested : nestWord? ρ kind = some τ)
    (attains : ∀ v t ts rest, Spells [kind] ts rest → follow' (front rest) →
      Attains goal (p v t) ts rest) : Secures goal ρ τ (fun x => x.kind = kind) follow' p := by
  refine ⟨[kind], by simpa using spare, (nesting_one _).trans nested, fun ts rest spells ok => ?_⟩
  refine ⟨?_, fun v t => attains v t ts rest spells ok⟩
  obtain ⟨x, _, rfl, same, rfl⟩ := spells
  exact same

/-- What is read between may have to meet a goal too. -/
theorem bind_to {pre : β → Prop} {goal : γ → Prop} {k : α → β → Bool → Nat → Parser γ}
    (first : Secures pre ρ σ follow between p)
    (second : Secures goal σ τ between follow' fun x : {x : α × β // pre x.2} => k x.1.1 x.1.2) :
    Secures goal ρ τ follow follow' fun v t f => p v t f >>= fun w => k v w t f := by
  obtain ⟨C, spare, nested, attains⟩ := first
  obtain ⟨C', spare', nested', attains'⟩ := second
  refine ⟨C ++ C', fun kind mem => (List.mem_append.1 mem).elim (spare kind) (spare' kind),
    nesting_append nested nested', fun ts rest spells ok => ?_⟩
  obtain ⟨mid, spells, spells'⟩ := (spells_append _ _ _ _).1 spells
  obtain ⟨between, last⟩ := attains' mid rest spells' ok
  obtain ⟨follows, first⟩ := attains ts mid spells between
  exact ⟨follows, fun v t => (first v t).bind fun w meets => last ⟨(v, w), meets⟩ t⟩

theorem comp (h : Secures goal ρ τ follow follow' p) (g : γ → α) :
    Secures goal ρ τ follow follow' fun v => p (g v) := by
  obtain ⟨C, spare, nested, attains⟩ := h
  exact ⟨C, spare, nested, fun ts rest spells ok =>
    ⟨(attains ts rest spells ok).1, fun v => (attains ts rest spells ok).2 (g v)⟩⟩

theorem bind {goal : γ → Prop} {k : α → β → Bool → Nat → Parser γ}
    (first : Finishes ρ σ follow between p)
    (second : Secures goal σ τ between follow' fun x : α × β => k x.1 x.2) :
    Secures goal ρ τ follow follow' fun v t f => p v t f >>= fun w => k v w t f :=
  bind_to first (second.comp Subtype.val)

theorem of_same {q : α → Bool → Nat → Parser β}
    (same : ∀ v t f ts, follow (front ts) → q v t f ts = p v t f ts)
    (h : Secures goal ρ τ follow follow' p) : Secures goal ρ τ follow follow' q := by
  obtain ⟨C, spare, nested, attains⟩ := h
  refine ⟨C, spare, nested, fun ts rest spells ok => ?_⟩
  obtain ⟨follows, attains⟩ := attains ts rest spells ok
  exact ⟨follows, fun v t => .of_same (fun f => same v t f ts follows) (attains v t)⟩

theorem unfold (same : ∀ v t f, p v t (f + 1) = q v t f) (h : Secures goal ρ τ follow follow' q) :
    Secures goal ρ τ follow follow' p := by
  obtain ⟨C, spare, nested, attains⟩ := h
  refine ⟨C, spare, nested, fun ts rest spells ok => ?_⟩
  obtain ⟨follows, attains⟩ := attains ts rest spells ok
  exact ⟨follows, fun v t => .succ (.of_same (fun f => by rw [same]) (attains v t))⟩

/-- An operator may be added. -/
theorem eatOp_present {y n : α → Bool → Nat → Parser β} (spare : isSpare (.op symbol) = true)
    (nested : nestWord? ρ (.op symbol) = some σ) (next : Secures goal σ τ follow follow' y) :
    Secures goal ρ τ (fun x => x.kind = .op symbol) follow'
      fun v t f => Parse.eatOp symbol >>= fun b => if b = true then y v t f else n v t f := by
  obtain ⟨C, spare', nested', attains⟩ := next
  refine ⟨.op symbol :: C, List.forall_mem_cons.2 ⟨spare, spare'⟩,
    nesting_append ((nesting_one _).trans nested) nested', ?_⟩
  rintro _ rest ⟨x, ts, rfl, kind, spells⟩ ok
  have present : isOp (front (x :: ts)) symbol = true := by simp [front, isOp_of_kind kind]
  exact ⟨kind, fun v t => .of_same (fun f => run_bind (Parse.eatOp_present present))
    ((attains ts rest spells ok).2 v t)⟩

/-- An operator that does not come next is not taken. -/
theorem eatOp_bind {k : α → Bool → Nat → Bool → Parser β}
    (next : Secures goal ρ τ follow follow' fun v t f => k v t f false)
    (absent : ∀ x, follow x → isOp x symbol = false) :
    Secures goal ρ τ follow follow' fun v t f => Parse.eatOp symbol >>= k v t f :=
  next.of_same fun _ _ _ _ ok => run_bind (eatOp_absent (absent _ ok))

section

variable {y n : α → Bool → Nat → Parser β} (next : Secures goal ρ τ follow follow' n)
include next

/-- What does not come next is left out. -/
theorem atOp (absent : ∀ x, follow x → isOp x symbol = false) :
    Secures goal ρ τ follow follow'
      fun v t f => Parse.atOp symbol >>= fun b => if b = true then y v t f else n v t f :=
  next.of_same fun _ _ _ ts ok => congrFun (if_neg (by simp [absent _ ok])) ts

theorem eatOp (absent : ∀ x, follow x → isOp x symbol = false) :
    Secures goal ρ τ follow follow'
      fun v t f => Parse.eatOp symbol >>= fun b => if b = true then y v t f else n v t f :=
  next.eatOp_bind absent

theorem eatWord (absent : ∀ x, follow x → isWord x text = false) :
    Secures goal ρ τ follow follow'
      fun v t f => Parse.eatWord text >>= fun b => if b = true then y v t f else n v t f :=
  next.of_same fun _ _ _ _ ok => run_bind (eatWord_absent (absent _ ok))

end

theorem expectOp (spare : isSpare (.op symbol) = true)
    (nested : nestWord? ρ (.op symbol) = some τ) :
    Finishes ρ τ (fun x => x.kind = .op symbol) (fun _ => True)
      fun (_ : α) t (_ : Nat) => Parse.expectOp ⟨t, loop, function⟩ symbol :=
  .one spare nested fun _ _ _ _ spells _ => .of_eq fun _ => expectOp_of_spells spells _

theorem expectWord (spare : isSpare (.name text) = true) :
    Finishes σ σ (fun x => x.kind = .name text) (fun _ => True)
      fun (_ : α) t (_ : Nat) => Parse.expectWord ⟨t, loop, function⟩ text :=
  .one spare rfl fun _ _ _ _ spells _ => .of_eq fun _ => expectWord_of_spells spells _

theorem identifier :
    Finishes σ σ (fun x => x.kind = .name "x") (fun _ => True)
      fun (_ : α) t (_ : Nat) => Parse.identifier ⟨t, loop, function⟩ :=
  .one (by decide) rfl fun _ _ _ _ spells _ => .of_eq fun _ =>
    identifier_of_spells spells (by decide) _

theorem map (change : β → γ) (h : Finishes ρ τ follow follow' p) :
    Finishes ρ τ follow follow' fun v t f => change <$> p v t f :=
  bind (k := fun _ w _ _ => Pure.pure (change w)) h
    (pure (fun x : α × β => change x.2) fun _ ok => ok)

end Secures

namespace Outlook

variable {p q : Bool → Nat → Parser α} {k : β → Bool → Nat → Parser α}

theorem completed (C : List TokenKind) (spare : ∀ kind ∈ C, isSpare kind = true)
    (nested : nesting? σ (A.map Token.kind ++ C) = some τ)
    (attains : ∀ t ts rest, Spells C ts rest → follow (front rest) →
      Attains goal (p t) (A ++ ts) rest) : Outlook aimed lenient goal σ τ follow p A :=
  .opened C spare nested fun t ts rest spells ok => .inl (attains t ts rest spells ok)

theorem mono (h : Outlook aimed lenient goal σ τ follow p A) (stronger : ∀ t, follow' t → follow t) :
    Outlook aimed lenient goal σ τ follow' p A := by
  cases h with
  | rejected fails => exact .rejected fails
  | missed aim misses => exact .missed aim misses
  | done taken left v cut more nested meets reads =>
    exact .done taken left v cut more nested meets reads
  | opened C spare nested completes =>
    exact .opened C spare nested fun t ts rest spells ok =>
      completes t ts rest spells (stronger _ ok)

theorem of_prospect (h : Prospect σ τ follow p A) :
    Outlook aimed lenient (fun _ => True) σ τ follow p A := by
  cases h with
  | rejected fails => exact .rejected fails
  | missed aim _ => exact aim.elim
  | done taken left v cut more nested meets reads =>
    exact .done taken left v cut more nested meets reads
  | opened C spare nested completes =>
    exact .completed C spare nested fun t ts rest spells ok =>
      (completes t ts rest spells ok).resolve_right fun fails => fails.1

/-! ## Rules -/

/-- Behind words that are taken in any case, what another reading comes to is what this one comes
to. -/
theorem transfer (onward : ∀ t D, Onward (p t) (X ++ (A ++ D)) (q t) (A ++ D))
    (nested : nesting? σ (X.map Token.kind) = some ρ)
    (next : Outlook aimed lenient goal ρ τ follow q A) :
    Outlook aimed lenient goal σ τ follow p (X ++ A) := by
  cases next with
  | rejected fails => exact .rejected fun t D => (fails t D).transfer (onward t D)
  | missed aim misses =>
    refine .missed aim fun t D => ?_
    rw [List.append_assoc]
    exact onward t D (fun r => ∀ v rest, r = .ok (v, rest) → ¬ goal v) (misses t D)
  | done taken left v cut more nested' meets reads =>
    subst cut
    refine .done (X ++ taken) left v (by simp) more ?_ meets fun t D => ?_
    · rw [List.map_append]
      exact nesting_append nested nested'
    · rw [List.append_assoc]
      exact onward t D (fun r => r = _) (reads t D)
  | opened C spare nested' completes =>
    refine .opened C spare ?_ fun t ts rest spells ok => ?_
    · rw [List.map_append, List.append_assoc]
      exact nesting_append nested nested'
    · rw [List.append_assoc]
      exact (completes t ts rest spells ok).transfer (onward t ts)

theorem unfold (same : ∀ t f, p t (f + 1) = q t f) (h : Outlook aimed lenient goal σ τ follow q A) :
    Outlook aimed lenient goal σ τ follow p A :=
  transfer (X := [])
    (fun _ _ _ all => eventually_succ (by simpa only [same, List.nil_append] using all)) rfl h

/-- A reading may go deeper than asked for. -/
theorem deeper (h : Outlook aimed lenient goal σ τ follow p A) (n : Nat) :
    Outlook aimed lenient goal σ τ follow (fun t f => p t (f + n)) A :=
  transfer (X := []) (fun _ _ _ all => (tendsto_add_atTop_nat n).eventually all) rfl h

theorem behind (same : ∀ t D, ∀ᶠ f in atTop, p t f (X ++ (A ++ D)) = q t f (A ++ D))
    (nested : nesting? σ (X.map Token.kind) = some ρ)
    (next : Outlook aimed lenient goal ρ τ follow q A) :
    Outlook aimed lenient goal σ τ follow p (X ++ A) := by
  refine transfer (fun t D P all => ?_) nested next
  filter_upwards [all, same t D] with f holds same
  rwa [same]

theorem pure_to (v : α) (meets : goal v) :
    Outlook aimed lenient goal σ σ follow (fun _ _ => Pure.pure v) A := by
  cases A with
  | nil =>
    refine .completed [] (by simp) rfl fun t ts rest spells _ => ?_
    obtain rfl : ts = rest := spells
    exact ⟨v, meets, .of_eq fun _ => rfl⟩
  | cons a A => exact .done [] (a :: A) v rfl (by simp) rfl meets fun t D => .of_eq fun _ => rfl

/-- What is read either meets the goal or misses it for good. -/
theorem pure_or_missed {v : α} (aim : ¬ goal v → aimed) :
    Outlook aimed lenient goal σ σ follow (fun _ _ => Pure.pure v) A := by
  by_cases meets : goal v
  · exact .pure_to v meets
  · refine .missed (aim meets) fun t D => .of_forall fun f w rest read => ?_
    cases read
    exact meets

theorem pure (v : α) : Outlook aimed lenient (fun _ => True) σ σ follow (fun _ _ => Pure.pure v) A :=
  pure_to v trivial

theorem of_finishes (h : Secures goal σ τ follow follow' fun _ : Unit => p) :
    Outlook aimed lenient goal σ τ follow' p [] := by
  obtain ⟨C, spare, nested, attains⟩ := h
  exact .completed C spare nested fun t ts rest spells ok => (attains ts rest spells ok).2 () t

/-- One reading behind another, which has to meet a goal of its own. -/
theorem bind_to {pre : β → Prop} {p : Bool → Nat → Parser β}
    (first : Outlook aimed lenient pre σ ρ follow p A)
    (implied : ∀ t v f mid w rest, k v t f mid = .ok (w, rest) → goal w → pre v)
    (next : ∀ v a left, pre v → a :: left <:+ A →
      (∀ t D, Reads (p t) (A ++ D) v (a :: left ++ D)) →
        Outlook aimed lenient goal ρ τ follow' (k v) (a :: left))
    (finishes : Secures goal ρ τ follow follow' fun v : {v // pre v} => k v) :
    Outlook aimed lenient goal σ τ follow' (fun t f => p t f >>= fun v => k v t f) A := by
  cases first with
  | rejected fails => exact .rejected fun t D => (fails t D).bind
  | missed aim misses => exact .missed aim fun t D => (misses t D).bind (implied t)
  | done taken left v cut more nested meets reads =>
    obtain ⟨a, left, rfl⟩ := List.exists_cons_of_ne_nil more
    have further := next v a left meets ⟨taken, cut.symm⟩ reads
    subst cut
    refine behind (fun t D => ?_) nested further
    filter_upwards [reads t D] with f read
    rw [← List.append_assoc, run_bind read]
  | opened C spare nested completes =>
    obtain ⟨C', spare', nested', attains⟩ := finishes
    refine .opened (C ++ C')
      (fun kind mem => (List.mem_append.1 mem).elim (spare kind) (spare' kind)) ?_
      fun t ts rest spells ok => ?_
    · rw [← List.append_assoc]
      exact nesting_append nested nested'
    · obtain ⟨mid, spells, spells'⟩ := (spells_append _ _ _ _).1 spells
      obtain ⟨follows, last⟩ := attains mid rest spells' ok
      exact (completes t ts mid spells follows).bind fun v meets => last ⟨v, meets⟩ t

theorem bind {p : Bool → Nat → Parser β} (first : Prospect σ ρ follow p A)
    (next : ∀ v a left, a :: left <:+ A → Outlook aimed lenient goal ρ τ follow' (k v) (a :: left))
    (finishes : Secures goal ρ τ follow follow' k) :
    Outlook aimed lenient goal σ τ follow' (fun t f => p t f >>= fun v => k v t f) A :=
  bind_to (of_prospect first) (fun _ _ _ _ _ _ _ _ => trivial)
    (fun v a left _ suffix _ => next v a left suffix) (finishes.comp Subtype.val)

/-- What is read has to pass a check, or nothing behind it is read. -/
theorem checked {p : Bool → Nat → Parser β} {c : β → Bool} {fault : SyntaxFault} {γ : Type}
    {k : β → Bool → Nat → Parser α} {other : β → Bool → Nat → γ → Parser α}
    (first : Outlook aimed lenient (c · = true) σ ρ follow p A)
    (next : ∀ v a left, a :: left <:+ A → Outlook aimed lenient goal ρ τ follow' (k v) (a :: left))
    (finishes : Secures goal ρ τ follow follow' k) :
    Outlook aimed lenient goal σ τ follow' (fun t f => p t f >>= fun v =>
      if c v = true then k v t f else Parse.fail fault >>= other v t f) A := by
  refine .bind_to first ?implied ?next ?finishes
  case implied =>
    intro t v f mid w rest read _
    by_contra fails
    rw [if_neg fails] at read
    cases read
  case next =>
    intro v a left passes suffix _
    simp only [passes, if_true]
    exact next v a left suffix
  case finishes =>
    exact (finishes.comp Subtype.val).of_same fun v _ _ ts _ => congrFun (if_pos v.2) ts

/-- A check of targets may fail where one is lenient. -/
theorem condoned {p : Bool → Nat → Parser β} {c : β → Bool} {fault : SyntaxFault} {γ : Type}
    {k : β → Bool → Nat → Parser α} {other : β → Bool → Nat → γ → Parser α} (allowed : lenient)
    (misdirected : isMisdirected fault = true) (first : Prospect σ ρ follow p A)
    (next : ∀ v a left, a :: left <:+ A → Outlook aimed lenient goal ρ τ follow' (k v) (a :: left))
    (finishes : Secures goal ρ τ follow follow' k) :
    Outlook aimed lenient goal σ τ follow' (fun t f => p t f >>= fun v =>
      if c v = true then k v t f else Parse.fail fault >>= other v t f) A := by
  have final : SyntaxFault.missing? fault = none := by
    cases fault <;> first | rfl | cases misdirected
  cases first with
  | rejected fails => exact .rejected fun t D => (fails t D).bind
  | missed aim _ => exact aim.elim
  | done taken left v cut more nested _ reads =>
    obtain ⟨a, left, rfl⟩ := List.exists_cons_of_ne_nil more
    have further := next v a left ⟨taken, cut.symm⟩
    subst cut
    by_cases passes : c v = true
    · refine behind (fun t D => ?_) nested further
      filter_upwards [reads t D] with f read
      rw [← List.append_assoc, run_bind read, if_pos passes]
    · refine .rejected fun t D => ⟨fault, taken.length, final, by simp; omega, ?_⟩
      filter_upwards [reads t D] with f read
      rw [run_bind read, if_neg passes, List.append_assoc, List.drop_left]
      rfl
  | opened C spare nested completes =>
    obtain ⟨C', spare', nested', attains⟩ := finishes
    refine .opened (C ++ C')
      (fun kind mem => (List.mem_append.1 mem).elim (spare kind) (spare' kind)) ?_
      fun t ts rest spells ok => ?_
    · rw [← List.append_assoc]
      exact nesting_append nested nested'
    · obtain ⟨mid, spells, spells'⟩ := (spells_append _ _ _ _).1 spells
      obtain ⟨follows, last⟩ := attains mid rest spells' ok
      obtain ⟨v, -, reads⟩ := (completes t ts mid spells follows).resolve_right fun fails => fails.1
      by_cases passes : c v = true
      · obtain ⟨w, meets, reads'⟩ := last v t
        refine .inl ⟨w, meets, ?_⟩
        filter_upwards [reads, reads'] with f read read'
        rwa [run_bind read, if_pos passes]
      · refine .inr ⟨allowed, .of fault (front mid).pos, misdirected, ?_⟩
        filter_upwards [reads] with f read
        rw [run_bind read, if_neg passes]
        rfl

theorem map {p : Bool → Nat → Parser β} (change : β → α) (h : Prospect σ τ follow p A) :
    Prospect σ τ follow (fun t f => change <$> p t f) A :=
  bind h (fun v _ _ _ => pure (change v)) (.pure change fun _ ok => ok)

/-! ## Faults -/

section

variable {fault : SyntaxFault} {loop function : Bool} {a : Token}

theorem fail_bind (final : fault.missing? = none) (k : Bool → Nat → β → Parser α) :
    Outlook aimed lenient goal σ τ follow (fun t f => Parse.fail fault >>= k t f) A :=
  .rejected fun _ _ => ⟨fault, 0, final, by omega, .of_forall fun _ => rfl⟩

/-- The end of what is known is no fault, but none of its tokens is an end. -/
theorem rejects_unexpected (inside : isEnd a = false) (t : Bool) :
    Rejects (fun _ => Parse.unexpected ⟨t, loop, function⟩ : Nat → Parser α) (a :: A) D := by
  refine ⟨unexpectedFault t a.kind, 0, ?_, by omega, .of_forall fun _ => rfl⟩
  unfold unexpectedFault
  split <;> simp_all [isEnd, SyntaxFault.missing?]

theorem unexpected (inside : isEnd a = false) :
    Outlook aimed lenient goal σ τ follow
      (fun t _ => Parse.unexpected ⟨t, loop, function⟩ : Bool → Nat → Parser α) (a :: A) :=
  .rejected fun t _ => rejects_unexpected inside t

/-- What cannot stand here is rejected, whatever would be read behind it. -/
theorem unexpected_bind (loop function : Bool) {k : Bool → Nat → β → Parser α}
    {p : Bool → Nat → Parser β} (inside : isEnd a = false) (same : ∀ t f D, p t f (a :: A ++ D) =
      Parse.unexpected ⟨t, loop, function⟩ (a :: A ++ D)) :
    Outlook aimed lenient goal σ τ follow (fun t f => p t f >>= k t f) (a :: A) :=
  .rejected fun t D => .bind (.of_same (fun f => same t f D) (rejects_unexpected inside t))

end

/-! ## The next token -/

section

variable {a : Token} {symbol text : String} {y n : Bool → Nat → Parser α} {loop function : Bool}

theorem get {k : Bool → Nat → List Token → Parser α} (same : ∀ t f D, k t f (A ++ D) = y t f)
    (next : Outlook aimed lenient goal σ τ follow y A) :
    Outlook aimed lenient goal σ τ follow (fun t f => MonadState.get >>= k t f) A :=
  behind (X := []) (q := y) (fun t D => .of_forall fun f => congrFun (same t f D) (A ++ D)) rfl next

theorem current {k : Bool → Nat → Token → Parser α}
    (next : Outlook aimed lenient goal σ τ follow (fun t f => k t f a) (a :: A)) :
    Outlook aimed lenient goal σ τ follow (fun t f => Parse.current >>= k t f) (a :: A) :=
  behind (X := []) (q := fun t f => k t f a) (fun _ _ => .of_forall fun _ => rfl) rfl next

theorem advance {k : Bool → Nat → Unit → Parser α} (nested : nestWord? σ a.kind = some ρ)
    (next : Outlook aimed lenient goal ρ τ follow (fun t f => k t f ()) A) :
    Outlook aimed lenient goal σ τ follow (fun t f => Parse.advance >>= k t f) (a :: A) :=
  behind (X := [a]) (q := fun t f => k t f ()) (fun _ _ => .of_forall fun _ => rfl)
    ((nesting_one _).trans nested) next

theorem atOp (yes : isOp a symbol = true → Outlook aimed lenient goal σ τ follow y (a :: A))
    (no : isOp a symbol = false → Outlook aimed lenient goal σ τ follow n (a :: A)) :
    Outlook aimed lenient goal σ τ follow
      (fun t f => Parse.atOp symbol >>= fun b => if b = true then y t f else n t f) (a :: A) := by
  cases next : isOp a symbol with
  | true =>
    refine behind (X := []) (fun t D => .of_forall fun f => ?_) rfl (yes next)
    exact congrFun (if_pos next) _
  | false =>
    refine behind (X := []) (fun t D => .of_forall fun f => ?_) rfl (no next)
    exact congrFun (if_neg (by simp [front, next])) _

theorem atWord (yes : isWord a text = true → Outlook aimed lenient goal σ τ follow y (a :: A))
    (no : isWord a text = false → Outlook aimed lenient goal σ τ follow n (a :: A)) :
    Outlook aimed lenient goal σ τ follow
      (fun t f => Parse.atWord text >>= fun b => if b = true then y t f else n t f) (a :: A) := by
  cases next : isWord a text with
  | true =>
    refine behind (X := []) (fun t D => .of_forall fun f => ?_) rfl (yes next)
    exact congrFun (if_pos next) _
  | false =>
    refine behind (X := []) (fun t D => .of_forall fun f => ?_) rfl (no next)
    exact congrFun (if_neg (by simp [front, next])) _

/-- An operator is taken if it comes next. -/
theorem eatOp_bind {k : Bool → Nat → Bool → Parser α}
    (nested : nestWord? σ (.op symbol) = some ρ)
    (taken : isOp a symbol = true → Outlook aimed lenient goal ρ τ follow (fun t f => k t f true) A)
    (left : isOp a symbol = false →
      Outlook aimed lenient goal σ τ follow (fun t f => k t f false) (a :: A)) :
    Outlook aimed lenient goal σ τ follow (fun t f => Parse.eatOp symbol >>= k t f) (a :: A) := by
  cases next : isOp a symbol with
  | true =>
    refine behind (X := [a]) (fun t D => .of_forall fun f => ?_) ?_ (taken next)
    · exact run_bind (eatOp_present (S := a :: (A ++ D)) next)
    · rw [List.map_singleton, kind_of_isOp next]
      exact (nesting_one _).trans nested
  | false =>
    refine behind (X := []) (fun t D => .of_forall fun f => ?_) rfl (left next)
    exact run_bind (eatOp_absent (S := a :: A ++ D) next)

theorem eatOp (nested : nestWord? σ (.op symbol) = some ρ)
    (taken : isOp a symbol = true → Outlook aimed lenient goal ρ τ follow y A)
    (left : isOp a symbol = false → Outlook aimed lenient goal σ τ follow n (a :: A)) :
    Outlook aimed lenient goal σ τ follow
      (fun t f => Parse.eatOp symbol >>= fun b => if b = true then y t f else n t f) (a :: A) :=
  eatOp_bind nested taken left

theorem eatWord (taken : isWord a text = true → Outlook aimed lenient goal σ τ follow y A)
    (left : isWord a text = false → Outlook aimed lenient goal σ τ follow n (a :: A)) :
    Outlook aimed lenient goal σ τ follow
      (fun t f => Parse.eatWord text >>= fun b => if b = true then y t f else n t f) (a :: A) := by
  cases next : isWord a text with
  | true =>
    refine behind (X := [a]) (fun t D => .of_forall fun f => ?_) ?_ (taken next)
    · rw [List.singleton_append, run_bind (eatWord_present (S := a :: (A ++ D)) next)]
      rfl
    · rw [List.map_singleton, kind_of_isWord next]
      rfl
  | false =>
    refine behind (X := []) (fun t D => .of_forall fun f => ?_) rfl (left next)
    rw [List.nil_append, run_bind (eatWord_absent (S := a :: A ++ D) next)]
    rfl

theorem atStatementEnd (yes : Outlook aimed lenient goal σ τ follow y (a :: A))
    (no : Outlook aimed lenient goal σ τ follow n (a :: A)) :
    Outlook aimed lenient goal σ τ follow
      (fun t f => Parse.atStatementEnd >>= fun b => if b = true then y t f else n t f) (a :: A) := by
  cases ends : isNewline a || isOp a ";" with
  | true => exact behind (X := []) (fun t D => .of_forall fun f => congrFun (if_pos ends) _) rfl yes
  | false =>
    refine behind (X := []) (fun t D => .of_forall fun f => ?_) rfl no
    exact congrFun (if_neg (by simp [front, ends])) _

theorem expectOp (inside : ∀ x ∈ A, isEnd x = false) (spare : isSpare (.op symbol) = true)
    (nested : nestWord? σ (.op symbol) = some ρ) :
    Prospect σ ρ (fun _ => True) (fun t _ => Parse.expectOp ⟨t, loop, function⟩ symbol) A := by
  cases A with
  | nil =>
    exact .of_finishes (.expectOp spare nested)
  | cons a A =>
    exact .eatOp nested (fun _ => .pure ()) fun _ => .unexpected (inside a (by simp))

theorem expectWord (inside : ∀ x ∈ A, isEnd x = false) (spare : isSpare (.name text) = true) :
    Prospect σ σ (fun _ => True) (fun t _ => Parse.expectWord ⟨t, loop, function⟩ text) A := by
  cases A with
  | nil =>
    exact .of_finishes (.expectWord spare)
  | cons a A => exact .eatWord (fun _ => .pure ()) fun _ => .unexpected (inside a (by simp))

theorem expectOp_bind {k : Bool → Nat → Unit → Parser α} (inside : isEnd a = false)
    (nested : nestWord? σ (.op symbol) = some ρ)
    (next : isOp a symbol = true → Outlook aimed lenient goal ρ τ follow (fun t f => k t f ()) A) :
    Outlook aimed lenient goal σ τ follow
      (fun t f => Parse.expectOp ⟨t, loop, function⟩ symbol >>= k t f) (a :: A) := by
  cases taken : isOp a symbol with
  | true =>
    refine behind (X := [a]) (fun t D => .of_forall fun f => ?_) ?_ (next taken)
    · exact run_bind (run_bind (eatOp_present (S := a :: (A ++ D)) taken))
    · rw [List.map_singleton, kind_of_isOp taken]
      exact (nesting_one _).trans nested
  | false =>
    exact unexpected_bind loop function inside fun t f D =>
      run_bind (eatOp_absent (S := a :: A ++ D) taken)

theorem identifier_bind {k : Bool → Nat → String → Parser α} (inside : isEnd a = false)
    (next : ∀ word, a.kind = .name word →
      Outlook aimed lenient goal σ τ follow (fun t f => k t f word) A) :
    Outlook aimed lenient goal σ τ follow (fun t f => Parse.identifier ⟨t, loop, function⟩ >>= k t f)
      (a :: A) := by
  simp only [Parse.identifier, bind_assoc]
  refine .current ?_
  split
  · rename_i word kind
    split
    · exact unexpected_bind loop function inside fun _ _ _ => rfl
    · simp only [bind_assoc]
      exact .advance (nest_of_same kind) (next word kind)
  · exact unexpected_bind loop function inside fun _ _ _ => rfl

theorem identifier (inside : ∀ x ∈ A, isEnd x = false) :
    Prospect σ σ (fun _ => True) (fun t _ => Parse.identifier ⟨t, loop, function⟩) A := by
  cases A with
  | nil =>
    exact .of_finishes .identifier
  | cons a A =>
    have inside := inside a (by simp)
    refine .current ?_
    split
    · rename_i word kind
      split
      · exact .unexpected inside
      · exact .advance (nest_of_same kind) (.pure word)
    · exact .unexpected inside

end

end Outlook

end Console.Parse
