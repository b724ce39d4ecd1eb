import Mathlib.Data.List.Nodup
import Console.Proofs.Token.Settled
import Console.Proofs.Tree.Placement
import Console.Proofs.Tree.Rendering

/-!
# The shape of expressions

Every expression that is read off a settled stream is well formed: a comparison has two sides at least,
the keywords of a call differ, and no name is reserved. One lemma for each reading, and one induction on
the depth of reading for all of them.
-/

namespace Console.Parse

open Token Text

variable {α β : Type} {P : α → Prop} {Q : β → Prop}

/-- What the parser takes off a settled stream has the property, and the rest is settled. -/
def Takes (P : α → Prop) (p : Parser α) : Prop :=
  ∀ ts v rest, Settled ts → p ts = .ok (v, rest) → P v ∧ Settled rest

namespace Takes

variable {p : Parser α} {f : α → Parser β}

theorem pure {v : α} (value : P v) : Takes P (Pure.pure v : Parser α) := by
  intro ts w rest settled read
  cases read
  exact ⟨value, settled⟩

theorem fail (fault : SyntaxFault) : Takes P (Parse.fail fault : Parser α) := by
  intro ts v rest settled read
  cases read

theorem unexpected (ctx : Context) : Takes P (Parse.unexpected ctx : Parser α) := by
  intro ts v rest settled read
  cases read

theorem bind (first : Takes P p) (next : ∀ v, P v → Takes Q (f v)) : Takes Q (p >>= f) := by
  intro ts w rest settled read
  obtain ⟨v, between, taken, onward⟩ := bind_ok read
  obtain ⟨value, left⟩ := first ts v between settled taken
  exact next v value between w rest left onward

theorem mono {P' : α → Prop} (h : Takes P p) (weaker : ∀ v, P v → P' v) : Takes P' p := by
  intro ts v rest settled read
  obtain ⟨value, left⟩ := h ts v rest settled read
  exact ⟨weaker v value, left⟩

theorem map (h : Takes P p) {g : α → β} (value : ∀ v, P v → Q (g v)) : Takes Q (g <$> p) := by
  rw [map_eq_pure_bind]
  exact h.bind fun v holds => pure (value v holds)

/-- What is read behind a check is read where the check held. -/
theorem check {c : Bool} {fault : SyntaxFault} {q : Unit → Parser β}
    (next : c = true → Takes Q (q ())) :
    Takes Q (if c = true then q () else Parse.fail fault >>= q) := by
  split
  · next held => exact next held
  · exact bind (fail fault) fun _ => False.elim

/-- What is read behind a check that fails is read where it did not. -/
theorem refuse {c : Bool} {fault : SyntaxFault} {q : Unit → Parser β}
    (next : c = false → Takes Q (q ())) :
    Takes Q (if c = true then Parse.fail fault >>= q else q ()) := by
  split
  · exact bind (fail fault) fun _ => False.elim
  · next held => exact next (Bool.eq_false_iff.2 held)

/-- The next token is spelled as tokens are, and stays. -/
theorem current : Takes Spelled Parse.current := by
  intro ts t rest settled read
  cases read
  refine ⟨?_, settled⟩
  cases ts with
  | nil => exact .of_kind (by simp [front])
  | cons t ts => exact settled.names t List.mem_cons_self

theorem step {change : List Token → List Token} (suffix : ∀ ts, change ts <:+ ts) :
    Takes (fun _ => True) (modify change : Parser Unit) := by
  intro ts v rest settled read
  cases read
  exact ⟨trivial, settled.of_suffix (suffix ts)⟩

theorem advance : Takes (fun _ => True) Parse.advance := step List.tail_suffix

theorem stream : Takes Settled (get : Parser (List Token)) := by
  intro ts v rest settled read
  cases read
  exact ⟨settled, settled⟩

theorem atOp (symbol : String) : Takes (fun _ => True) (Parse.atOp symbol) :=
  current.bind fun _ _ => pure trivial

theorem atWord (word : String) : Takes (fun _ => True) (Parse.atWord word) :=
  current.bind fun _ _ => pure trivial

theorem atNewline : Takes (fun _ => True) Parse.atNewline :=
  current.bind fun _ _ => pure trivial

theorem eatOp (symbol : String) : Takes (fun _ => True) (Parse.eatOp symbol) := by
  refine (atOp symbol).bind fun present _ => ?_
  split
  · exact advance.bind fun _ _ => pure trivial
  · exact pure trivial

theorem eatWord (word : String) : Takes (fun _ => True) (Parse.eatWord word) := by
  refine (atWord word).bind fun present _ => ?_
  split
  · exact advance.bind fun _ _ => pure trivial
  · exact pure trivial

theorem expectOp (ctx : Context) (symbol : String) : Takes (fun _ => True) (Parse.expectOp ctx symbol) := by
  refine (eatOp symbol).bind fun present _ => ?_
  split
  · exact pure trivial
  · exact unexpected ctx

theorem expectWord (ctx : Context) (word : String) :
    Takes (fun _ => True) (Parse.expectWord ctx word) := by
  refine (eatWord word).bind fun present _ => ?_
  split
  · exact pure trivial
  · exact unexpected ctx

theorem expectNewline (ctx : Context) : Takes (fun _ => True) (Parse.expectNewline ctx) := by
  refine atNewline.bind fun present _ => ?_
  split
  · exact advance
  · exact unexpected ctx

/-- A word that is not reserved, spelled as names are. -/
theorem identifier (ctx : Context) :
    Takes (fun word => isKeyword word = false ∧ ∀ ch ∈ word.toList, isNamePart ch = true)
      (Parse.identifier ctx) := by
  refine current.bind fun t spelled => ?_
  split
  · next word kind =>
    split
    · exact unexpected ctx
    · next free =>
      exact advance.bind fun _ _ => pure ⟨Bool.eq_false_iff.2 free, spelled word kind⟩
  · exact unexpected ctx

end Takes

theorem wellFormed_of_joiner {level : Level} {kind : TokenKind} {join : Expr → Expr → Expr}
    (joins : level.joiner? kind = some join) {left right : Expr} (first : left.wellFormed = true)
    (second : right.wellFormed = true) : (join left right).wellFormed = true := by
  unfold Level.joiner? at joins
  split at joins <;> cases joins <;> simp [Expr.wellFormed, first, second]

theorem wellFormed_of_wordAtom {word : String} {e : Expr} (is : wordAtom? word = some e) :
    e.wellFormed = true := by
  unfold wordAtom? at is
  split at is
  · cases is; rfl
  · cases is; rfl
  · cases is; rfl
  · split at is
    · cases is
    · next free =>
      cases is
      simpa [Expr.wellFormed] using free

theorem keyword_free {ts : List Token} {name : String} (found : keywordAt? ts = some name) :
    isKeyword name = false := by
  unfold keywordAt? at found
  split at found
  · next word _ =>
    cases free : isKeyword word with
    | true => simp [free] at found
    | false =>
      simp only [free, Bool.not_false, Bool.true_and] at found
      split at found <;> cases found
      exact free
  · cases found

/-- The arguments of a call are well formed, in whatever order they are listed. -/
structure GivenFormed (given : List Expr × List (String × Expr)) : Prop where
  positional : ∀ e ∈ given.1, e.wellFormed = true
  named : ∀ k ∈ given.2, isKeyword k.1 = false ∧ k.2.wellFormed = true
  differ : (given.2.map Prod.fst).Nodup

namespace GivenFormed

variable {args : List Expr} {keywords : List (String × Expr)} (given : GivenFormed (args, keywords))
include given

theorem reverse : GivenFormed (args.reverse, keywords.reverse) := by
  refine ⟨by simpa using given.positional, by simpa using given.named, ?_⟩
  rw [List.map_reverse, List.nodup_reverse]
  exact given.differ

theorem call {callee : Expr} (formed : callee.wellFormed = true) :
    (Expr.call callee args keywords).wellFormed = true := by
  have named (name : String) (e : Expr) (inside : (name, e) ∈ keywords) := given.named _ inside
  simp only [Expr.wellFormed, formed, Expr.allWellFormed_eq, Expr.keywordsWellFormed_eq]
  simpa [given.differ] using ⟨given.positional, named⟩

end GivenFormed

/-- All readings of expressions at a depth take well-formed ones. -/
structure Expresses (f : Nat) : Prop where
  expression : ∀ ctx level, Takes (fun e => e.wellFormed = true) (expression ctx f level)
  operands : ∀ ctx level left, left.wellFormed = true →
    Takes (fun e => e.wellFormed = true) (operands ctx f level left)
  comparisonLinks : ∀ ctx,
    Takes (fun links => Expr.linksWellFormed links = true) (comparisonLinks ctx f)
  trailers : ∀ ctx value, value.wellFormed = true →
    Takes (fun e => e.wellFormed = true) (trailers ctx f value)
  arguments : ∀ ctx args keywords, GivenFormed (args, keywords) →
    Takes GivenFormed (arguments ctx f args keywords)
  sequence : ∀ ctx level, Takes (fun e => e.wellFormed = true) (sequence ctx f level)
  sequenceRest : ∀ ctx level,
    Takes (fun es => Expr.allWellFormed es = true) (sequenceRest ctx f level)
  listItems : ∀ ctx, Takes (fun es => Expr.allWellFormed es = true) (listItems ctx f)
  dictEntries : ∀ ctx,
    Takes (fun entries => Expr.entriesWellFormed entries = true) (dictEntries ctx f)
  atom : ∀ ctx, Takes (fun e => e.wellFormed = true) (atom ctx f)

namespace Expresses

variable {f : Nat} (ih : Expresses f)
include ih

theorem level (ctx : Context) (level : Level) :
    Takes (fun e => e.wellFormed = true) (Parse.expression ctx (f + 1) level) := by
  cases level with
  | conditional =>
    refine (Takes.atWord _).bind fun lambda _ => .refuse fun _ => ?_
    refine (ih.expression ctx _).bind fun body formed => (Takes.eatWord _).bind fun choice _ => ?_
    split
    · exact (ih.expression ctx _).bind fun test formed' => (Takes.expectWord ctx _).bind fun _ _ =>
        (ih.expression ctx _).bind fun orelse formed'' => .pure (by
          simp [Expr.wellFormed, formed, formed', formed''])
    · exact .pure formed
  | negation =>
    refine (Takes.eatWord _).bind fun negated _ => ?_
    split
    · exact (ih.expression ctx _).bind fun e formed => .pure formed
    · exact ih.expression ctx _
  | comparison =>
    refine (ih.expression ctx _).bind fun left formed =>
      (ih.comparisonLinks ctx).bind fun links formed' => ?_
    split
    · exact .pure formed
    · next some => exact .pure (by simpa [Expr.wellFormed, formed, formed'] using some)
  | sign =>
    refine (Takes.eatOp _).bind fun minus _ => ?_
    split
    · exact (ih.expression ctx _).bind fun e formed => .pure formed
    · refine (Takes.eatOp _).bind fun plus _ => ?_
      split
      · exact (ih.expression ctx _).bind fun e formed => .pure formed
      · exact ih.expression ctx _
  | power =>
    refine (ih.expression ctx _).bind fun base formed => (Takes.eatOp _).bind fun raised _ => ?_
    split
    · exact (ih.expression ctx _).bind fun e formed' => .pure (by
        simp [Expr.wellFormed, formed, formed'])
    · exact .pure formed
  | trailer => exact (ih.expression ctx _).bind fun value formed => ih.trailers ctx value formed
  | atom => exact ih.atom ctx
  | disjunction | conjunction | sum | product =>
    exact (ih.expression ctx _).bind fun left formed => ih.operands ctx _ left formed

theorem next_operands (ctx : Context) (level : Level) (left : Expr) (formed : left.wellFormed = true) :
    Takes (fun e => e.wellFormed = true) (Parse.operands ctx (f + 1) level left) := by
  refine Takes.current.bind fun t _ => ?_
  split
  · exact .pure formed
  · next join joins =>
    exact Takes.advance.bind fun _ _ => (ih.expression ctx _).bind fun right formed' =>
      ih.operands ctx level _ (wellFormed_of_joiner joins formed formed')

theorem next_links (ctx : Context) :
    Takes (fun links => Expr.linksWellFormed links = true) (Parse.comparisonLinks ctx (f + 1)) := by
  refine Takes.stream.bind fun ts _ => ?_
  split
  · exact .pure rfl
  · refine (Takes.step (List.drop_suffix _)).bind fun _ _ => (ih.expression ctx _).bind
      fun right formed => (ih.comparisonLinks ctx).bind fun links formed' => .pure ?_
    simp [Expr.linksWellFormed, formed, formed']

theorem next_trailers (ctx : Context) (value : Expr) (formed : value.wellFormed = true) :
    Takes (fun e => e.wellFormed = true) (Parse.trailers ctx (f + 1) value) := by
  refine (Takes.eatOp _).bind fun call _ => ?_
  split
  · exact (ih.arguments ctx [] [] ⟨by simp, by simp, by simp⟩).bind fun _ given =>
      (Takes.expectOp ctx _).bind fun _ _ => ih.trailers ctx _ (given.call formed)
  · refine (Takes.eatOp _).bind fun subscript _ => ?_
    split
    · refine (ih.sequence ctx _).bind fun index formed' => (Takes.atOp _).bind fun slice _ =>
        .refuse fun _ => (Takes.expectOp ctx _).bind fun _ _ => ih.trailers ctx _ ?_
      simp [Expr.wellFormed, formed, formed']
    · refine (Takes.eatOp _).bind fun point _ => ?_
      split
      · refine (Takes.identifier ctx).bind fun name free => ih.trailers ctx _ ?_
        simp [Expr.wellFormed, formed, free.1]
      · exact .pure formed

theorem next_arguments (ctx : Context) (args : List Expr) (keywords : List (String × Expr))
    (given : GivenFormed (args, keywords)) :
    Takes GivenFormed (Parse.arguments ctx (f + 1) args keywords) := by
  have onward (next : List Expr × List (String × Expr)) (kept : GivenFormed next) :
      Takes GivenFormed
        (do if ← eatOp "," then Parse.arguments ctx f next.1 next.2
            else return (next.1.reverse, next.2.reverse)) := by
    refine (Takes.eatOp _).bind fun more _ => ?_
    split
    · exact ih.arguments ctx next.1 next.2 kept
    · exact .pure kept.reverse
  refine (Takes.atOp _).bind fun closed _ => ?_
  split
  · exact .pure given.reverse
  · refine Takes.stream.bind fun ts _ => ?_
    dsimp only
    split
    · next name found =>
      refine Takes.advance.bind fun _ _ => Takes.advance.bind fun _ _ => .refuse fun fresh => ?_
      refine (ih.expression ctx _).bind fun value formed => .bind (.pure ?_) onward
      refine ⟨given.positional,
        List.forall_mem_cons.2 ⟨⟨keyword_free found, formed⟩, given.named⟩, ?_⟩
      rw [List.map_cons, List.nodup_cons]
      refine ⟨fun inside => ?_, given.differ⟩
      simp only [List.any_eq_false, beq_iff_eq] at fresh
      obtain ⟨k, mem, same⟩ := List.mem_map.1 inside
      exact fresh k mem same
    · refine .check fun _ => (ih.expression ctx _).bind fun value formed => .bind (.pure ?_) onward
      exact ⟨List.forall_mem_cons.2 ⟨formed, given.positional⟩, given.named, given.differ⟩

theorem next_sequence (ctx : Context) (level : Level) :
    Takes (fun e => e.wellFormed = true) (Parse.sequence ctx (f + 1) level) := by
  refine (ih.expression ctx level).bind fun first formed => (Takes.atOp _).bind fun comma _ => ?_
  split
  · exact (ih.sequenceRest ctx level).bind fun rest formed' => .pure (by
      simp [Expr.wellFormed, Expr.allWellFormed, formed, formed'])
  · exact .pure formed

theorem next_sequenceRest (ctx : Context) (level : Level) :
    Takes (fun es => Expr.allWellFormed es = true) (Parse.sequenceRest ctx (f + 1) level) := by
  refine (Takes.eatOp _).bind fun comma _ => ?_
  split
  · refine Takes.current.bind fun t _ => ?_
    split
    · exact (ih.expression ctx level).bind fun e formed => (ih.sequenceRest ctx level).bind
        fun rest formed' => .pure (by simp [Expr.allWellFormed, formed, formed'])
    · exact .pure rfl
  · exact .pure rfl

theorem next_listItems (ctx : Context) :
    Takes (fun es => Expr.allWellFormed es = true) (Parse.listItems ctx (f + 1)) := by
  refine (Takes.atOp _).bind fun closed _ => ?_
  split
  · exact .pure rfl
  · refine (ih.expression ctx _).bind fun e formed => (Takes.eatOp _).bind fun comma _ => ?_
    split
    · exact (ih.listItems ctx).bind fun rest formed' => .pure (by
        simp [Expr.allWellFormed, formed, formed'])
    · exact .pure (by simp [Expr.allWellFormed, formed])

theorem next_dictEntries (ctx : Context) :
    Takes (fun entries => Expr.entriesWellFormed entries = true) (Parse.dictEntries ctx (f + 1)) := by
  refine (Takes.atOp _).bind fun closed _ => ?_
  split
  · exact .pure rfl
  · refine (ih.expression ctx _).bind fun key formed => (Takes.expectOp ctx _).bind fun _ _ =>
      (ih.expression ctx _).bind fun value formed' => (Takes.eatOp _).bind fun comma _ => ?_
    split
    · exact (ih.dictEntries ctx).bind fun rest formed'' => .pure (by
        simp [Expr.entriesWellFormed, formed, formed', formed''])
    · exact .pure (by simp [Expr.entriesWellFormed, formed, formed'])

theorem next_atom (ctx : Context) :
    Takes (fun e => e.wellFormed = true) (Parse.atom ctx (f + 1)) := by
  refine Takes.current.bind fun t _ => ?_
  split
  · exact Takes.advance.bind fun _ _ => .pure rfl
  · exact Takes.advance.bind fun _ _ => .pure rfl
  · exact Takes.advance.bind fun _ _ => .pure rfl
  · split
    · next e is => exact Takes.advance.bind fun _ _ => .pure (wellFormed_of_wordAtom is)
    · exact .unexpected ctx
  · refine Takes.advance.bind fun _ _ => (Takes.eatOp _).bind fun closed _ => ?_
    split
    · exact .pure rfl
    · exact (ih.sequence ctx _).bind fun inner formed => (Takes.expectOp ctx _).bind fun _ _ =>
        .pure formed
  · exact Takes.advance.bind fun _ _ => (ih.listItems ctx).bind fun items formed =>
      (Takes.expectOp ctx _).bind fun _ _ => .pure formed
  · exact Takes.advance.bind fun _ _ => (ih.dictEntries ctx).bind fun entries formed =>
      (Takes.expectOp ctx _).bind fun _ _ => .pure formed
  · exact .unexpected ctx

end Expresses

theorem expresses (f : Nat) : Expresses f := by
  induction f with
  | zero => constructor <;> · intros; exact .fail _
  | succ f ih => exact {
      expression := ih.level
      operands := ih.next_operands
      comparisonLinks := ih.next_links
      trailers := ih.next_trailers
      arguments := ih.next_arguments
      sequence := ih.next_sequence
      sequenceRest := ih.next_sequenceRest
      listItems := ih.next_listItems
      dictEntries := ih.next_dictEntries
      atom := ih.next_atom }

end Console.Parse
