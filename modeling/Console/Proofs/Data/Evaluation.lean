import Console.Evaluator
import Console.Proofs.Data.Datum
import Console.Proofs.Heap.Maps
import Console.Proofs.Machine

/-!
# The value of the expression of a datum

Evaluating the expression of a datum makes a value that holds the datum. Nothing else changes: the
heap grows, by one container at least for each layer, so that it is deep enough to tell keys apart.
-/

namespace Console.Datum

open Eval Evaluator

variable {h h' : Heap} {m : Machine} {d : Datum} {v : Value} {items : List Datum}
  {entries : List (Datum × Datum)}

/-- A value holds what it held when the heap has grown. -/
theorem heldBy_of_grows (grows : h.Grows h') (held : HeldBy h d v) : HeldBy h' d v := by
  induction d generalizing v with
  | none | bool | int | str => cases held; constructor
  | list items ih =>
    obtain ⟨r, vs, rfl, found, each⟩ := heldBy_list.1 held
    exact heldBy_list.2 ⟨r, vs, rfl, Heap.getElem?_of_prefix grows.lists found,
      forall₂_of_mem each fun d mem _ => ih d mem⟩
  | tuple items ih =>
    obtain ⟨r, vs, rfl, found, each⟩ := heldBy_tuple.1 held
    exact heldBy_tuple.2 ⟨r, vs, rfl, Heap.getElem?_of_prefix grows.tuples found,
      forall₂_of_mem each fun d mem _ => ih d mem⟩
  | dict entries ih =>
    obtain ⟨r, es, rfl, found, each⟩ := heldBy_dict.1 held
    exact heldBy_dict.2 ⟨r, es, rfl, Heap.getElem?_of_prefix grows.dicts found,
      forall₂_of_mem each fun e mem _ part => ⟨(ih e mem).1 part.1, (ih e mem).2 part.2⟩⟩

theorem entriesHeldBy_of_grows {es : List (Value × Value)} (grows : h.Grows h')
    (held : List.Forall₂ (EntryHeldBy h) entries es) : List.Forall₂ (EntryHeldBy h') entries es :=
  held.imp fun _ _ part => ⟨heldBy_of_grows grows part.1, heldBy_of_grows grows part.2⟩

/-- The evaluation makes a value that holds the datum, and containers are all that it adds. -/
def Makes (x : Eval Value) (d : Datum) (m : Machine) : Prop :=
  ∃ v h, x m = .ok v { m with heap := h } ∧ m.heap.Grows h ∧
    m.heap.containers + d.layers ≤ h.containers ∧ HeldBy h d v

theorem makes_items {f : Expr → Eval Value} (each : ∀ d ∈ items, ∀ m, Makes (f d.expr) d m)
    (m : Machine) :
    ∃ vs h, (exprs items).mapM f m = .ok vs { m with heap := h } ∧ m.heap.Grows h ∧
      m.heap.containers + itemLayers items ≤ h.containers ∧ List.Forall₂ (HeldBy h) items vs := by
  induction items generalizing m with
  | nil => exact ⟨[], m.heap, rfl, .refl _, Nat.le_refl _, .nil⟩
  | cons d items ih =>
    obtain ⟨v, h₁, first, grows₁, count₁, held⟩ := each d (by simp) m
    obtain ⟨vs, h₂, others, grows₂, count₂, all⟩ :=
      ih (fun d mem => each d (List.mem_cons_of_mem _ mem)) { m with heap := h₁ }
    refine ⟨v :: vs, h₂, ?_, grows₁.trans grows₂, ?_, .cons (heldBy_of_grows grows₂ held) all⟩
    · rw [exprs, List.mapM_cons, run_bind first, run_bind others]
      rfl
    · have := grows₁.containers_le
      have := grows₂.containers_le
      rw [itemLayers]
      dsimp only at count₂ this
      omega

/-- The parts come first, and then the container behind all that there is. -/
theorem makes_container {α : Type} {x : Eval α} {f : α → Eval Value} {a : α} {inner : Nat}
    (run : x m = .ok a { m with heap := h }) (grows : m.heap.Grows h)
    (count : m.heap.containers + inner ≤ h.containers)
    (new : f a { m with heap := h } = .ok v { m with heap := h' }) (added : h.Grows h')
    (one : h'.containers = h.containers + 1) (layers : d.layers = inner + 1)
    (held : HeldBy h' d v) : Makes (x >>= f) d m := by
  refine ⟨v, h', (run_bind run f).trans new, grows.trans added, ?_, held⟩
  rw [layers, one]
  omega

theorem makes_list {x : Eval (List Value)} {vs : List Value}
    (run : x m = .ok vs { m with heap := h }) (grows : m.heap.Grows h)
    (count : m.heap.containers + itemLayers items ≤ h.containers)
    (all : List.Forall₂ (HeldBy h) items vs) :
    Makes (x >>= fun vs => newList vs.toArray) (.list items) m := by
  have added : h.Grows { h with lists := h.lists.push vs.toArray } :=
    ⟨by simp, List.prefix_rfl, List.prefix_rfl⟩
  refine makes_container run grows count rfl added ?_ (by rw [layers]) ?_
  · simp only [Heap.containers, Array.size_push]
    omega
  · exact heldBy_list.2 ⟨_, vs.toArray, rfl, Array.getElem?_push_size,
      all.imp fun _ _ => heldBy_of_grows added⟩

theorem makes_tuple {x : Eval (List Value)} {vs : List Value}
    (run : x m = .ok vs { m with heap := h }) (grows : m.heap.Grows h)
    (count : m.heap.containers + itemLayers items ≤ h.containers)
    (all : List.Forall₂ (HeldBy h) items vs) :
    Makes (x >>= fun vs => newTuple vs.toArray) (.tuple items) m := by
  have added : h.Grows { h with tuples := h.tuples.push vs.toArray } :=
    ⟨List.prefix_rfl, by simp, List.prefix_rfl⟩
  refine makes_container run grows count rfl added ?_ (by rw [layers]) ?_
  · simp only [Heap.containers, Array.size_push]
    omega
  · exact heldBy_tuple.2 ⟨_, vs.toArray, rfl, Array.getElem?_push_size,
      all.imp fun _ _ => heldBy_of_grows added⟩

theorem makes_dict {x : Eval (Array (Value × Value))} {es : Array (Value × Value)}
    (run : x m = .ok es { m with heap := h }) (grows : m.heap.Grows h)
    (count : m.heap.containers + entryLayers entries ≤ h.containers)
    (all : List.Forall₂ (EntryHeldBy h) entries es.toList) :
    Makes (x >>= newDict) (.dict entries) m := by
  have added : h.Grows { h with dicts := h.dicts.push es } :=
    ⟨List.prefix_rfl, List.prefix_rfl, by simp⟩
  refine makes_container run grows count rfl added ?_ (by rw [layers]) ?_
  · simp only [Heap.containers, Array.size_push]
    omega
  · exact heldBy_dict.2 ⟨_, es, rfl, Array.getElem?_push_size, entriesHeldBy_of_grows added all⟩

/-- A key that is not among the keys comes behind them. -/
theorem insertEntry_new {done : Array (Value × Value)} {key value : Value}
    (all : List.Forall₂ (EntryHeldBy h) entries done.toList) (held : HeldBy h d key)
    (keys : ∀ e ∈ entries, e.1.hashable = true) (isKey : d.hashable = true)
    (new : ∀ e ∈ entries, e.1.asKey ≠ d.asKey) (deep : d.layers ≤ h.containers) :
    h.insertEntry done key value = some (done.push (key, value)) := by
  have other : ∀ p ∈ done.toList, h.equals p.1 key = some false :=
    forall_of_forall₂ all fun e mem p part => by
      obtain ⟨same, answer, meaning⟩ := equal_answers part.1 held (keys e mem) isKey
        (Nat.le_succ_of_le (Nat.le_trans deep h.containers_le_comparisons))
      cases same with
      | false => exact answer
      | true => exact absurd (meaning.1 rfl) (new e mem)
  exact Heap.insertEntry_none other value

theorem run_checkHashable (held : HeldBy m.heap d v) (isKey : d.hashable = true) :
    checkHashable v m = .ok () m := by
  rw [checkHashable, run_ask, Heap.unhashable?, unhashableIn_eq held isKey]
  rfl

/-- An entry with a new key comes behind the others. -/
theorem run_entry {f : Expr → Eval Value} {before : List (Datum × Datum)} {e : Datum × Datum}
    {done : Array (Value × Value)} (key : ∀ m, Makes (f e.1.expr) e.1 m)
    (value : ∀ m, Makes (f e.2.expr) e.2 m)
    (all : List.Forall₂ (EntryHeldBy m.heap) before done.toList)
    (keys : ∀ e ∈ before, e.1.hashable = true) (isKey : e.1.hashable = true)
    (new : ∀ e' ∈ before, e'.1.asKey ≠ e.1.asKey) :
    ∃ p h, entry f done (e.1.expr, e.2.expr) m = .ok (done.push p) { m with heap := h } ∧
      m.heap.Grows h ∧ m.heap.containers + max e.1.layers e.2.layers ≤ h.containers ∧
      EntryHeldBy h e p := by
  obtain ⟨v₁, h₁, run₁, grows₁, count₁, held₁⟩ := key m
  obtain ⟨v₂, h₂, run₂, grows₂, count₂, held₂⟩ := value { m with heap := h₁ }
  have grows := grows₁.trans grows₂
  have more₁ := grows₁.containers_le
  have more₂ := grows₂.containers_le
  have held := heldBy_of_grows grows₂ held₁
  dsimp only at count₂ more₂
  refine ⟨(v₁, v₂), h₂, ?_, grows, by omega, held, held₂⟩
  rw [entry, run_bind run₁, run_bind run₂, run_bind (run_checkHashable held isKey), insertInto,
    run_ask, insertEntry_new (entriesHeldBy_of_grows grows all) held keys isKey new (by omega)]
  rfl

/-- Entries are put behind those that are there already. -/
theorem makes_entries {f : Expr → Eval Value} (before : List (Datum × Datum))
    (done : Array (Value × Value))
    (each : ∀ e ∈ entries, (∀ m, Makes (f e.1.expr) e.1 m) ∧ ∀ m, Makes (f e.2.expr) e.2 m)
    (keys : ∀ e ∈ before ++ entries, e.1.hashable = true)
    (distinct : ((before ++ entries).map fun e => e.1.asKey).Nodup) (m : Machine)
    (all : List.Forall₂ (EntryHeldBy m.heap) before done.toList) :
    ∃ es h, (entryExprs entries).foldlM (entry f) done m = .ok es { m with heap := h } ∧
      m.heap.Grows h ∧ m.heap.containers + entryLayers entries ≤ h.containers ∧
      List.Forall₂ (EntryHeldBy h) (before ++ entries) es.toList := by
  induction entries generalizing before done m with
  | nil => exact ⟨done, m.heap, rfl, .refl _, Nat.le_refl _, by rwa [List.append_nil]⟩
  | cons e entries ih =>
    have new : ∀ e' ∈ before, e'.1.asKey ≠ e.1.asKey := by
      rw [List.map_append, List.map_cons, List.nodup_append] at distinct
      exact fun e' mem => distinct.2.2 _ (List.mem_map_of_mem mem) _ List.mem_cons_self
    obtain ⟨p, h₁, first, grows₁, count₁, part⟩ := run_entry (each e (by simp)).1
      (each e (by simp)).2 all (fun e mem => keys e (by simp [mem])) (keys e (by simp)) new
    have behind : List.Forall₂ (EntryHeldBy h₁) (before ++ [e]) (done.push p).toList := by
      rw [Array.toList_push]
      exact List.rel_append (entriesHeldBy_of_grows grows₁ all) (.cons part .nil)
    rw [List.append_cons] at keys distinct ⊢
    obtain ⟨es, h₂, others, grows₂, count₂, whole⟩ :=
      ih _ _ (fun e mem => each e (List.mem_cons_of_mem _ mem)) keys distinct { m with heap := h₁ }
        behind
    refine ⟨es, h₂, ?_, grows₁.trans grows₂, ?_, whole⟩
    · rw [entryExprs, List.foldlM_cons, run_bind first, others]
    · have := grows₁.containers_le
      have := grows₂.containers_le
      rw [entryLayers]
      dsimp only at count₂ this
      omega

theorem makes_plain {x : Eval Value} (run : x m = .ok v m) (plain : d.layers = 0)
    (held : HeldBy m.heap d v) : Makes x d m :=
  ⟨v, m.heap, run, .refl _, by rw [plain]; exact Nat.le_refl _, held⟩

theorem negate_magnitude {n : Int64} (other : n ≠ Int64.minValue) (negative : n.toInt < 0) :
    Arithmetic.negate (.int (Decimal.magnitude n)) = .ok (.int n) := by
  have back : -(n.toInt.natAbs : Int) = n.toInt := by omega
  rw [Arithmetic.negate, Decimal.toInt_magnitude other, back, Arithmetic.checked,
    Decimal.toInt64?_toInt]
  rfl

/-- The expression of a datum makes a value that holds it, in every frame and on every machine. -/
theorem makes_expr {steps : Nat} (formed : d.WellFormed) (deep : d.layers + 2 ≤ steps)
    (frame : Frame) (m : Machine) : Makes (eval steps frame d.expr) d m := by
  induction d generalizing steps m with
  | none | bool | str =>
    obtain ⟨steps, rfl⟩ := Nat.exists_eq_add_of_le' deep
    exact makes_plain rfl rfl (by constructor)
  | int n =>
    obtain ⟨steps, rfl⟩ := Nat.exists_eq_add_of_le' deep
    by_cases negative : n.toInt < 0
    · rw [expr, if_pos negative]
      refine makes_plain ?_ rfl (.int n)
      show ofFault (Arithmetic.negate (.int (Decimal.magnitude n))) m = _
      rw [negate_magnitude formed negative]
      rfl
    · rw [expr, if_neg negative]
      exact makes_plain rfl rfl (.int n)
  | list items ih =>
    rw [layers] at deep
    rw [WellFormed, allWellFormed_iff] at formed
    obtain ⟨steps, rfl⟩ : ∃ n, steps = n + 1 := ⟨steps - 1, by omega⟩
    obtain ⟨vs, h, run, grows, count, all⟩ := makes_items (f := eval steps frame) (fun d mem m =>
      ih d mem (formed d mem) (by have := layers_le_itemLayers mem; omega) m) m
    exact makes_list run grows count all
  | tuple items ih =>
    rw [layers] at deep
    rw [WellFormed, allWellFormed_iff] at formed
    obtain ⟨steps, rfl⟩ : ∃ n, steps = n + 1 := ⟨steps - 1, by omega⟩
    obtain ⟨vs, h, run, grows, count, all⟩ := makes_items (f := eval steps frame) (fun d mem m =>
      ih d mem (formed d mem) (by have := layers_le_itemLayers mem; omega) m) m
    exact makes_tuple run grows count all
  | dict entries ih =>
    rw [layers] at deep
    rw [WellFormed, entriesWellFormed_iff] at formed
    obtain ⟨each, distinct⟩ := formed
    obtain ⟨steps, rfl⟩ : ∃ n, steps = n + 1 := ⟨steps - 1, by omega⟩
    have sides (e) (mem : e ∈ entries) : (∀ m, Makes (eval steps frame e.1.expr) e.1 m) ∧
        ∀ m, Makes (eval steps frame e.2.expr) e.2 m := by
      have := layers_le_entryLayers mem
      obtain ⟨-, key, value⟩ := each e mem
      exact ⟨(ih e mem).1 key (by omega), (ih e mem).2 value (by omega)⟩
    obtain ⟨es, h, run, grows, count, all⟩ :=
      makes_entries [] #[] sides (fun e mem => (each e mem).1) distinct m .nil
    exact makes_dict run grows count all

end Console.Datum
