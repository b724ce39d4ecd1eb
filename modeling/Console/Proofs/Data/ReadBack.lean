import Console.Proofs.Data.Datum
import Console.Proofs.Data.Evaluation
import Console.Proofs.Data.Lexing
import Console.Proofs.Printing
import Console.Proofs.Token.Layout
import Console.Proofs.Tree.Recovery

/-!
# Plain data written and read back

A value that holds a datum is written as the text of the datum, and writing it changes nothing. No
container is met inside itself: whatever stands around a value has more layers than the value. The
text is a unit of one expression, whose value is the data again.
-/

namespace Console

namespace Datum

open Eval

variable {h : Heap} {m : Machine} {d d' : Datum} {v : Value} {caller : Caller} {depth : Nat}

theorem forall₂_unique {α β : Type} {R : α → β → Prop} {as as' : List α} {bs : List β}
    (each : List.Forall₂ R as bs) (each' : List.Forall₂ R as' bs)
    (unique : ∀ a ∈ as, ∀ a' b, R a b → R a' b → a = a') : as = as' := by
  induction each generalizing as' with
  | nil => cases each'; rfl
  | cons first _ ih =>
    cases each' with
    | cons first' others' =>
      rw [unique _ (by simp) _ _ first first', ih others' fun a mem => unique a (by simp [mem])]

/-- A value holds one datum at most. -/
theorem heldBy_unique (held : HeldBy h d v) (held' : HeldBy h d' v) : d = d' := by
  induction d generalizing d' v with
  | none | bool | int | str => cases held; cases held'; rfl
  | list items ih =>
    obtain ⟨r, vs, rfl, found, each⟩ := heldBy_list.1 held
    obtain - | - | - | - | ⟨found', each'⟩ := held'
    cases found.symm.trans found'
    rw [forall₂_unique each each' fun d mem _ _ => ih d mem]
  | tuple items ih =>
    obtain ⟨r, vs, rfl, found, each⟩ := heldBy_tuple.1 held
    obtain - | - | - | - | - | ⟨found', each'⟩ := held'
    cases found.symm.trans found'
    rw [forall₂_unique each each' fun d mem _ _ => ih d mem]
  | dict entries ih =>
    obtain ⟨r, es, rfl, found, each⟩ := heldBy_dict.1 held
    obtain - | - | - | - | - | - | ⟨found', keys', values'⟩ := held'
    cases found.symm.trans found'
    rw [forall₂_unique each (entriesHeldBy_iff.2 ⟨keys', values'⟩) fun e mem _ _ pair pair' =>
      Prod.ext ((ih e mem).1 pair.1 pair'.1) ((ih e mem).2 pair.2 pair'.2)]

/-- The containers around a value are no part of it: each of them has more layers. -/
def Within (h : Heap) (around : List Container) (d : Datum) : Prop :=
  ∀ c ∈ around, ∃ outer, HeldBy h outer c.value ∧ d.layers < outer.layers

theorem Within.part {around : List Container} (within : Within h around d)
    (smaller : d'.layers < d.layers) : Within h around d' :=
  fun c mem => (within c mem).imp fun _ above => ⟨above.1, Nat.lt_trans smaller above.2⟩

theorem Within.inside {around : List Container} {c : Container} (within : Within h around d)
    (held : HeldBy h d c.value) (smaller : d'.layers < d.layers) : Within h (c :: around) d' :=
  List.forall_mem_cons.2 ⟨⟨d, held, smaller⟩, within.part smaller⟩

theorem Within.contains {around : List Container} {c : Container} (within : Within h around d)
    (held : HeldBy h d c.value) : around.contains c = false := by
  rw [Bool.eq_false_iff, ne_eq, List.contains_iff_mem]
  intro mem
  obtain ⟨outer, held', above⟩ := within c mem
  rw [heldBy_unique held held'] at above
  exact Nat.lt_irrefl _ above

/-- The items of a container are written one by one. -/
theorem writes_items {around : List Container} {items : List Datum} {vs : List Value}
    (each : List.Forall₂ (HeldBy m.heap) items vs)
    (writes : ∀ d ∈ items, ∀ v, HeldBy m.heap d v →
      reprWithin caller depth around v m = .ok d.text m) :
    vs.mapM (reprWithin caller depth around) m = .ok (texts items) m := by
  rw [texts_eq]
  exact run_mapM (forall₂_of_mem each writes)

/-- The entries of a dict are written one by one, each side on its own. -/
theorem writes_entries {around : List Container} {entries : List (Datum × Datum)}
    {es : List (Value × Value)} (each : List.Forall₂ (EntryHeldBy m.heap) entries es)
    (writes : ∀ e ∈ entries, ∀ p : Value × Value, EntryHeldBy m.heap e p →
      reprWithin caller depth around p.1 m = .ok e.1.text m ∧
        reprWithin caller depth around p.2 m = .ok e.2.text m) :
    (es.mapM fun p : Value × Value => do
      let key ← attempt (reprWithin caller depth around p.1)
      let value ← attempt (reprWithin caller depth around p.2)
      return (← ofExcept key) ++ ": " ++ (← ofExcept value)) m = .ok (entryTexts entries) m := by
  rw [entryTexts_eq]
  refine run_mapM (forall₂_of_mem each fun e mem p part => ?_)
  obtain ⟨key, value⟩ := writes e mem p part
  exact Eval.run_entry key value

/-- A value is written as the text of its datum. -/
theorem reprWithin_eq {around : List Container} (held : HeldBy m.heap d v)
    (deep : d.layers ≤ depth) (within : Within m.heap around d) :
    reprWithin caller (depth + 1) around v m = .ok d.text m := by
  induction d generalizing v depth around with
  | none | int | str => cases held; rfl
  | bool b => cases held; cases b <;> rfl
  | list items ih =>
    obtain ⟨r, vs, rfl, found, each⟩ := heldBy_list.1 held
    rw [layers] at deep
    obtain ⟨depth, rfl⟩ : ∃ n, depth = n + 1 := ⟨depth - 1, by omega⟩
    have parts := writes_items each fun d mem v part => by
      have below := layers_le_itemLayers mem
      exact ih d mem part (Nat.le_trans below (Nat.le_of_succ_le_succ deep))
        (within.inside (c := .list r) held (Nat.lt_succ_of_le below))
    rw [reprWithin]
    rw [within.contains (c := .list r) held, if_neg Bool.false_ne_true, run_ask, Heap.list, found]
    exact run_bind parts _
  | tuple items ih =>
    obtain ⟨r, vs, rfl, found, each⟩ := heldBy_tuple.1 held
    rw [layers] at deep
    obtain ⟨depth, rfl⟩ : ∃ n, depth = n + 1 := ⟨depth - 1, by omega⟩
    have parts := writes_items each fun d mem v part => by
      have below := layers_le_itemLayers mem
      exact ih d mem part (Nat.le_trans below (Nat.le_of_succ_le_succ deep))
        (within.part (Nat.lt_succ_of_le below))
    rw [reprWithin]
    rw [run_ask, Heap.tuple, found]
    exact run_bind parts _
  | dict entries ih =>
    obtain ⟨r, es, rfl, found, each⟩ := heldBy_dict.1 held
    rw [layers] at deep
    obtain ⟨depth, rfl⟩ : ∃ n, depth = n + 1 := ⟨depth - 1, by omega⟩
    have side {d : Datum} (below : d.layers ≤ entryLayers entries) :=
      within.inside (c := .dict r) held (Nat.lt_succ_of_le below)
    have parts := writes_entries each fun e mem p part => by
      obtain ⟨key, value⟩ := layers_le_entryLayers mem
      have deep := Nat.le_of_succ_le_succ deep
      exact ⟨(ih e mem).1 part.1 (Nat.le_trans key deep) (side key),
        (ih e mem).2 part.2 (Nat.le_trans value deep) (side value)⟩
    rw [reprWithin]
    rw [within.contains (c := .dict r) held, if_neg Bool.false_ne_true, run_ask, Heap.dict, found]
    exact run_bind parts _

/-- Plain data is written as its text, whatever else the machine holds. -/
theorem repr_eq (held : HeldBy m.heap d v) (deep : d.layers < caller.depth) :
    repr caller v m = .ok d.text m := by
  obtain ⟨depth, same⟩ := Nat.exists_eq_add_of_lt
    (Nat.lt_of_lt_of_le deep (Nat.le_add_right _ m.heap.unfoldedDepth))
  rw [Eval.repr_eq, run_ask, same]
  exact reprWithin_eq held (Nat.le_add_right _ _) (List.forall_mem_nil _)

end Datum

end Console

namespace Console

open Token Parse Kinds Mark Filter

namespace Parse

variable {ts rest : List Token} {kind : TokenKind} {kinds : List TokenKind}

/-- The line of a statement is that of its first token. -/
theorem written_starting (spells : Spells (kind :: kinds) ts rest) :
    Written (starting (front ts).pos.line (kind :: kinds)) ts rest := by
  obtain ⟨t, later, rfl, same, others⟩ := spells
  refine ⟨t, later, rfl, ⟨same, ?_⟩, (written_plain _ _ _).2 others⟩
  rintro _ ⟨⟩
  rfl

/-- A line with one simple statement, and nothing behind it, is a unit. -/
theorem unit_of_line {action : Simple} {tokens : List Token} {line : Nat}
    (formed : action.wellFormed false false = true)
    (written : Written (starting line (action.kinds ++ literal .newline)) tokens rest)
    (ending : isEnd (front rest) = true) (terminated : Bool) :
    program tokens .single terminated = .ok [.simple line action] := by
  have unbranched : isBranch (front rest) = false := by
    simp [isBranch, isWord, kind_of_isEnd ending]
  have back : ReadBack (fun _ => true) (.simple line action) := readBack _
  have read : Reads (statement ⟨terminated, false, false⟩) tokens [.simple line action] rest :=
    back.statement formed written unbranched
  obtain ⟨f, taken, deep⟩ := (read.and (eventually_gt_atTop (16 * tokens.length + 14))).exists
  have within : Within f (enoughFuel tokens) (16 * tokens.length + 14) := by
    unfold Within enoughFuel
    omega
  have taken := (((reach terminated terminated f _).statement within false false).ok taken).1
  have begins := isBeginning_of_statement taken
  have skipped := skipNewlines_absent (isNewline_of_isBeginning begins) (enoughFuel tokens)
  have more := isEnd_of_isLayout (isLayout_of_isBeginning begins)
  rw [program_single skipped, oneStatement_ok more taken, if_pos ending]
  rfl

end Parse

namespace Datum

/-- No name in the expression of a datum is reserved, as there is none. -/
theorem wellFormed_expr (d : Datum) : d.expr.wellFormed = true := by
  induction d with
  | none | bool | str => rfl
  | int n =>
    rw [expr]
    split <;> rfl
  | list items ih | tuple items ih =>
    rw [expr, Expr.wellFormed, exprs_eq, Expr.allWellFormed_eq, List.all_eq_true,
      List.forall_mem_map]
    exact ih
  | dict entries ih =>
    rw [expr, Expr.wellFormed, entryExprs_eq, Expr.entriesWellFormed_eq, List.all_eq_true,
      List.forall_mem_map]
    exact fun e mem => Bool.and_eq_true_iff.2 (ih e mem)

/-- The text of a datum is a unit of its expression. -/
theorem compile_text {d : Datum} (formed : d.WellFormed) (nested : d.layers ≤ Bracket.maxDepth) :
    ∃ line, Program.compile d.text .single = .ok ⟨[.simple line (.expr d.expr)], .none⟩ := by
  obtain ⟨ch, tail, begins, opens⟩ := text_begins d
  obtain ⟨tokens, read, same⟩ :=
    tokenize_of_lexes (lexes_datum formed) nested begins opens .single
  have spells : Spells (d.expr.kinds .conditional ++ literal .newline ++ literal .endMarker) tokens []
      := by simpa using spells_of_map (same.trans (by simp [literal])) []
  obtain ⟨rest, line, ending⟩ := (spells_append _ _ _ _).1 spells
  have closed : isEnd (front rest) = true := by simp [isEnd, (front_of_literal ending).1]
  have written : Written (starting (front tokens).pos.line
      ((Simple.expr d.expr).kinds ++ literal .newline)) tokens rest := by
    cases kinds : (Simple.expr d.expr).kinds ++ literal .newline with
    | nil => simp [literal] at kinds
    | cons kind others =>
      rw [Simple.kinds] at kinds
      rw [kinds] at line
      exact written_starting line
  refine ⟨(front tokens).pos.line, ?_⟩
  have formed : (Simple.expr d.expr).wellFormed false false = true := wellFormed_expr d
  rw [Program.compile_of_tokenize read, Program.ofTokens,
    unit_of_line formed written closed]
  rfl

end Datum

/-- Plain data reads back: the text that writes a value is a unit of one expression, and the value of
that expression holds the same data, whatever the machine is that evaluates it and wherever it does.
Evaluating it adds containers and changes nothing else. -/
theorem plain_data_reads_back {m : Machine} {v : Value} {d : Datum} (held : d.HeldBy m.heap v)
    (formed : d.WellFormed) (nested : d.layers ≤ Bracket.maxDepth) :
    ∃ text line e, (∀ caller, d.layers < caller.depth → Eval.repr caller v m = .ok text m) ∧
      Program.compile text .single = .ok ⟨[.simple line (.expr e)], .none⟩ ∧
      ∀ frame m' steps, d.layers + 2 ≤ steps → ∃ v' h,
        Evaluator.eval steps frame e m' = .ok v' { m' with heap := h } ∧ m'.heap.Grows h ∧
          d.HeldBy h v' := by
  obtain ⟨line, compiled⟩ := Datum.compile_text formed nested
  refine ⟨d.text, line, d.expr, fun caller deep => Datum.repr_eq held deep, compiled, ?_⟩
  intro frame m' steps deep
  obtain ⟨v', h, run, grows, -, held'⟩ := Datum.makes_expr formed deep frame m'
  exact ⟨v', h, run, grows, held'⟩

/-- A list of a number below zero and a dict with a tuple of one text and a truth value as its keys;
the text holds a quote and a line end. -/
theorem list_with_dict_reads_back :
    ∃ m : Machine, m.heap.lists = #[#[.int (-5), .dict ⟨0⟩], #[]] ∧
      m.heap.tuples = #[#[.str "it's\n"]] ∧
      m.heap.dicts = #[#[(.tuple ⟨0⟩, .none), (.bool true, .list ⟨1⟩)]] ∧
      ∃ text line e, (∀ caller, 3 < caller.depth → Eval.repr caller (.list ⟨0⟩) m = .ok text m) ∧
        Program.compile text .single = .ok ⟨[.simple line (.expr e)], .none⟩ ∧
        ∀ frame m' steps, 5 ≤ steps → ∃ v' h,
          Evaluator.eval steps frame e m' = .ok v' { m' with heap := h } ∧ m'.heap.Grows h ∧
            Datum.HeldBy h (.list [.int (-5),
              .dict [(.tuple [.str "it's\n"], .none), (.bool true, .list [])]]) v' := by
  have held : Datum.HeldBy ⟨#[#[.int (-5), .dict ⟨0⟩], #[]], #[#[.str "it's\n"]],
      #[#[(.tuple ⟨0⟩, .none), (.bool true, .list ⟨1⟩)]], #[], #[], #[], #[], #[]⟩
      (.list [.int (-5), .dict [(.tuple [.str "it's\n"], .none), (.bool true, .list [])]])
      (.list ⟨0⟩) := by
    refine .list rfl (.cons (.int _) (.cons (.dict rfl ?_ ?_) .nil))
    · exact .cons (.tuple rfl (.cons (.str _) .nil)) (.cons (.bool _) .nil)
    · exact .cons .none (.cons (.list rfl .nil) .nil)
  have formed : Datum.WellFormed (.list [.int (-5),
      .dict [(.tuple [.str "it's\n"], .none), (.bool true, .list [])]]) := by
    simp [Datum.WellFormed, Datum.hashable, Datum.asKey]
  exact ⟨{ Machine.fresh with heap := _ }, rfl, rfl, rfl,
    plain_data_reads_back held formed (by decide)⟩

end Console
