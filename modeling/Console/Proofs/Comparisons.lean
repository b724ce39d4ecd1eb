import Console.Builtin.Lists
import Console.Operators
import Console.Proofs.Evaluator.Jumps
import Console.Proofs.Heap.Questions

/-!
# Comparisons that end

A comparison ends with a result or with an exception unless it comes to the same question again while it
looks for the answer; then it goes on and on. The same holds of whatever looks for an item among others:
these are compared with it from the left until one is equal.
-/

namespace Console

namespace Heap

variable {h : Heap} {items : List Value} {u v w : Value}

/-- The value is among those that an item is compared with while it is looked for among them. -/
inductive Tries (h : Heap) (item : Value) : List Value → Value → Prop
  | here {v : Value} {rest : List Value} : Tries h item (v :: rest) v
  | later {v w : Value} {rest : List Value} (differ : h.Answers (.equal v item) false)
    (tries : Tries h item rest w) : Tries h item (v :: rest) w

/-- What is gone through when an item is looked for in a container. -/
def searched (h : Heap) (item : Value) : Value → List Value
  | .list r => (h.list r).toList
  | .tuple r => (h.tuple r).toList
  | .dict r => if (h.unhashable? item).isSome then [] else (h.dict r).toList.map (·.1)
  | _ => []

/-- A comparison comes to this question. -/
def Poses (h : Heap) (op : Comparison) (a b : Value) (q : Question) : Prop :=
  match op with
  | .eq | .ne => q = .equal a b
  | .lt | .le | .gt | .ge => q = .order a b
  | .isIn | .notIn => ∃ v, h.Tries a (h.searched a b) v ∧ q = .equal v a
  | .is | .isNot => False

theorem Tries.cons_iff : h.Tries u (v :: items) w ↔
    w = v ∨ h.Answers (.equal v u) false ∧ h.Tries u items w := by
  constructor
  · intro tries
    cases tries with
    | here => exact .inl rfl
    | later differ tries => exact .inr ⟨differ, tries⟩
  · rintro (rfl | ⟨differ, tries⟩)
    · exact .here
    · exact .later differ tries

/-- An item is found among others or found to be missing, if none it is compared with recurs. -/
theorem exists_findEqual_iff (h : Heap) (item : Value) (items : List Value) :
    (∃ found, findEqual (h.equals · item) items = some found) ↔
      ∀ v, h.Tries item items v → ¬h.Recurs (.equal v item) := by
  induction items with
  | nil =>
    refine ⟨fun _ v tries => ?_, fun _ => ⟨false, rfl⟩⟩
    cases tries
  | cons v items ih =>
    simp only [Tries.cons_iff, or_imp, forall_and, forall_eq, and_imp]
    rw [findEqual, ← exists_equals_iff, ← forall_comm, ← ih, answers_equal_iff]
    rcases h.equals v item with _ | _ | _ <;> simp

/-- An item is missing where nothing is equal to it. -/
theorem findEqual_eq_false_iff (h : Heap) (item : Value) (items : List Value) :
    findEqual (h.equals · item) items = some false ↔
      ∀ v ∈ items, h.Answers (.equal v item) false := by
  induction items with
  | nil => simp [findEqual]
  | cons v items ih =>
    rw [findEqual, List.forall_mem_cons, ← ih, answers_equal_iff]
    rcases h.equals v item with _ | _ | _ <;> simp

theorem indexOf_go_isSome {α : Type} (test : α → Option Bool) (items : List α) (i : Nat) :
    (indexOf.go test i items).map Option.isSome = findEqual test items := by
  induction items generalizing i with
  | nil => rfl
  | cons a items ih =>
    rw [indexOf.go, findEqual]
    rcases test a with _ | _ | _
    · rfl
    · exact ih (i + 1)
    · rfl

/-- A place is looked for just as the item is. -/
theorem exists_indexOf_iff {α : Type} (test : α → Option Bool) (items : List α) :
    (∃ found, indexOf test items = some found) ↔ ∃ found, findEqual test items = some found := by
  rw [← indexOf_go_isSome test items 0, indexOf]
  cases indexOf.go test 0 items <;> simp

theorem findEqual_map {α β : Type} (test : β → Option Bool) (f : α → β) (items : List α) :
    findEqual test (items.map f) = findEqual (fun a => test (f a)) items := by
  induction items with
  | nil => rfl
  | cons a items ih => rw [List.map_cons, findEqual, findEqual, ih]

/-- Of what is counted every item is compared. -/
theorem exists_countWhere_iff (h : Heap) (item : Value) (items : List Value) :
    (∃ n, ListMethod.countWhere (h.equals · item) items = some n) ↔
      ∀ v ∈ items, ¬h.Recurs (.equal v item) := by
  induction items with
  | nil => simp [ListMethod.countWhere]
  | cons v items ih =>
    rw [ListMethod.countWhere, List.forall_mem_cons, ← ih, ← exists_equals_iff]
    cases h.equals v item with
    | none => simp
    | some here => cases ListMethod.countWhere (h.equals · item) items <;> simp

/-- The items of lists that hold only themselves are compared as the lists are. -/
theorem recurs_of_loops {r s : Ref .list} (apart : r ≠ s) (loop : h.list r = #[.list r])
    (loop' : h.list s = #[.list s]) :
    h.Recurs (.equal (.list r) (.list s)) ∧ h.Recurs (.order (.list r) (.list s)) := by
  have again : h.Asks (.equal (.list r) (.list s)) (.equal (.list r) (.list s)) := by
    change (h.equalInquiry (.list r) (.list s)).Asks h.Answers _
    rw [equalInquiry, if_neg apart, loop, loop']
    exact .here
  have first : h.Asks (.order (.list r) (.list s)) (.equal (.list r) (.list s)) := by
    change (h.orderInquiry (.list r) (.list s)).Asks h.Answers _
    rw [orderInquiry, loop, loop']
    exact .here
  exact ⟨⟨_, .refl, .single again⟩, ⟨_, .single first, .single again⟩⟩

end Heap

/-- The list that a name stands for, if its one item is itself. -/
def Machine.loop? (m : Machine) (name : String) : Option (Ref .list) :=
  match m.globals.get? name with
  | some (.list r) =>
    match (m.heap.list r).toList with
    | [.list r'] => if r' = r then some r else none
    | _ => none
  | _ => none

theorem Machine.of_loop? {m : Machine} {name : String} {r : Ref .list} (found : m.loop? name = some r) :
    m.globals.get? name = some (.list r) ∧ m.heap.list r = #[.list r] := by
  unfold Machine.loop? at found
  split at found
  case h_2 => cases found
  next r' bound =>
    split at found
    case h_2 => cases found
    next r'' items =>
      split at found
      case isFalse => cases found
      next same =>
        obtain rfl := same
        obtain rfl := Option.some.inj found
        exact ⟨bound, Array.toList_inj.1 items⟩

namespace Eval

variable {α β : Type} {m m' : Machine} {x : Eval α}

/-- On this machine the evaluation ends, with a result or with an exception. -/
def Terminates (x : Eval α) (m : Machine) : Prop :=
  (∃ a m', x m = .ok a m') ∨ ∃ e m', x m = .error (.raised e) m'

namespace Terminates

theorem pure (a : α) (m : Machine) : Terminates (pure a) m := .inl ⟨a, m, rfl⟩

theorem fail (f : Fault) (m : Machine) : Terminates (fail f : Eval α) m := .inr ⟨_, m, rfl⟩

theorem not_exhausted (m : Machine) : ¬Terminates (exhausted : Eval α) m := by
  rintro (⟨_, _, ⟨⟩⟩ | ⟨_, _, ⟨⟩⟩)

theorem congr {y : Eval α} (same : x m = y m) : Terminates x m ↔ Terminates y m := by
  rw [Terminates, Terminates, same]

theorem ofDepth_bind_iff {answer : Option α} {f : α → Eval β} :
    Terminates (ofDepth answer >>= f) m ↔ ∃ a, answer = some a ∧ Terminates (f a) m := by
  cases answer with
  | none =>
    refine ⟨fun ends => absurd ends (not_exhausted m), ?_⟩
    rintro ⟨_, ⟨⟩, _⟩
  | some a =>
    refine ⟨fun ends => ⟨a, rfl, ends⟩, ?_⟩
    rintro ⟨_, ⟨⟩, ends⟩
    exact ends

theorem ofDepth_iff {answer : Option α} : Terminates (ofDepth answer) m ↔ ∃ a, answer = some a := by
  cases answer with
  | none =>
    refine ⟨fun ends => absurd ends (not_exhausted m), ?_⟩
    rintro ⟨_, ⟨⟩⟩
  | some a => exact ⟨fun _ => ⟨a, rfl⟩, fun _ => pure a m⟩

/-- What is done with a result does not matter if it always ends. -/
theorem bind_iff {f : α → Eval β} (always : ∀ a m', Terminates (f a) m') :
    Terminates (x >>= f) m ↔ Terminates x m := by
  cases run : x m with
  | ok a m' =>
    have here : Terminates (x >>= f) m := by
      rw [Terminates, run_bind run]
      exact always a m'
    exact ⟨fun _ => .inl ⟨a, m', run⟩, fun _ => here⟩
  | error stop m' => simp [Terminates, bind, EStateM.bind, run]

theorem map_iff (f : α → β) : Terminates (do return f (← x)) m ↔ Terminates x m :=
  bind_iff fun a => pure (f a)

theorem equals_iff {v w : Value} : Terminates (equals v w) m ↔ ¬m.heap.Recurs (.equal v w) := by
  rw [← Heap.exists_equals_iff, equals, congr (run_ask ..), ofDepth_iff]

theorem order_iff {v w : Value} : Terminates (order v w) m ↔ ¬m.heap.Recurs (.order v w) := by
  rw [← Heap.orders_eq_tooDeep_iff, order, congr (run_ask ..)]
  cases m.heap.orders v w with
  | order o => exact ⟨fun _ => nofun, fun _ => pure (some o) m⟩
  | unordered => exact ⟨fun _ => nofun, fun _ => pure none m⟩
  | unorderable left right => exact ⟨fun _ => nofun, fun _ => .fail _ m⟩
  | tooDeep => exact ⟨fun ends => absurd ends (not_exhausted m), fun found => absurd rfl found⟩

theorem placeOfKey?_iff {r : Ref .dict} {key : Value} : Terminates (placeOfKey? r key) m ↔
    (m.heap.unhashable? key = none →
      ∃ found, Heap.indexOf (m.heap.equals ·.1 key) (m.heap.dict r).toList = some found) := by
  rw [placeOfKey?, checkHashable, bind_assoc, congr (run_ask ..)]
  cases m.heap.unhashable? key with
  | none =>
    rw [pure_bind, congr (run_ask ..), ofDepth_iff]
    exact ⟨fun found _ => found, fun found => found rfl⟩
  | some type => exact ⟨fun _ => nofun, fun _ => fail (.unhashable type) m⟩

theorem contains_iff (container item : Value) : Terminates (contains container item) m ↔
    ∀ v, m.heap.Tries item (m.heap.searched item container) v → ¬m.heap.Recurs (.equal v item) := by
  have plain (ends : Terminates (contains container item) m)
      (nothing : m.heap.searched item container = []) :
      Terminates (contains container item) m ↔ ∀ v,
        m.heap.Tries item (m.heap.searched item container) v → ¬m.heap.Recurs (.equal v item) := by
    rw [nothing]
    exact ⟨fun _ _ tries => (nomatch tries), fun _ => ends⟩
  cases container with
  | list r | tuple r =>
    rw [contains, items, congr (run_ask ..), congr (run_ask ..), ofDepth_iff,
      Heap.exists_findEqual_iff, Heap.searched] <;> nofun
  | dict r =>
    rw [contains, map_iff Option.isSome, placeOfKey?_iff, Heap.exists_indexOf_iff,
      ← Heap.findEqual_map (m.heap.equals · item) Prod.fst, Heap.exists_findEqual_iff, Heap.searched]
    cases m.heap.unhashable? item with
    | none => simp
    | some type => exact ⟨fun _ _ tries => (nomatch tries), fun _ => nofun⟩
  | str s =>
    cases item with
    | str part => exact plain (pure _ m) rfl
    | _ => exact plain (.fail _ m) rfl
  | _ => exact plain (.fail _ m) rfl

end Terminates

theorem compare_terminates_iff (op : Comparison) (a b : Value) (m : Machine) :
    Terminates (compare op a b) m ↔ ∀ q, m.heap.Poses op a b q → ¬m.heap.Recurs q := by
  have search : (∀ q, (∃ v, m.heap.Tries a (m.heap.searched a b) v ∧ q = .equal v a) →
      ¬m.heap.Recurs q) ↔
        ∀ v, m.heap.Tries a (m.heap.searched a b) v → ¬m.heap.Recurs (.equal v a) := by
    constructor
    · exact fun all v tries => all _ ⟨v, tries, rfl⟩
    · rintro all _ ⟨v, tries, rfl⟩
      exact all v tries
  have alone (q : Question) : (∀ q', q' = q → ¬m.heap.Recurs q') ↔ ¬m.heap.Recurs q := forall_eq
  cases op with
  | eq => exact Terminates.equals_iff.trans (alone _).symm
  | ne => exact ((Terminates.map_iff _).trans Terminates.equals_iff).trans (alone _).symm
  | lt | le | gt | ge =>
    exact ((Terminates.map_iff _).trans Terminates.order_iff).trans (alone _).symm
  | isIn => exact (Terminates.contains_iff b a).trans search.symm
  | notIn => exact ((Terminates.map_iff _).trans (Terminates.contains_iff b a)).trans search.symm
  | «is» | isNot => exact ⟨fun _ _ => False.elim, fun _ => .pure _ m⟩

section

variable (caller : Caller) (r : Ref .list) (v : Value) (m : Machine)

theorem remove_terminates_iff : Terminates (ListMethod.call caller r .remove ⟨[v], []⟩) m ↔
    ∀ w, m.heap.Tries v (m.heap.list r).toList w → ¬m.heap.Recurs (.equal w v) := by
  have one : (⟨[v], []⟩ : Arguments).one "remove" = .ok v := rfl
  rw [ListMethod.call, ListMethod.callRemove, one, ofFault, pure_bind, ListMethod.placeOf?, bind_assoc,
    Terminates.congr (run_ask ..), Terminates.ofDepth_bind_iff, ← Heap.exists_findEqual_iff,
    ← Heap.exists_indexOf_iff]
  refine exists_congr fun found => and_iff_left ?_
  cases found with
  | none => exact .fail .notInListToRemove m
  | some i => exact .inl ⟨_, _, rfl⟩

/-- If the value is not found, it is written into the message. -/
theorem index_terminates_iff : Terminates (ListMethod.call caller r .index ⟨[v], []⟩) m ↔
    (∀ w, m.heap.Tries v (m.heap.list r).toList w → ¬m.heap.Recurs (.equal w v)) ∧
      ((∀ w ∈ (m.heap.list r).toList, m.heap.Answers (.equal w v) false) →
        Terminates (repr caller v) m) := by
  have one : (⟨[v], []⟩ : Arguments).one "index" = .ok v := rfl
  rw [ListMethod.call, ListMethod.callIndex, one, ofFault, pure_bind, ListMethod.placeOf?, bind_assoc,
    Terminates.congr (run_ask ..), Terminates.ofDepth_bind_iff, ← Heap.exists_findEqual_iff,
    ← Heap.exists_indexOf_iff, ← Heap.findEqual_eq_false_iff,
    ← Heap.indexOf_go_isSome (m.heap.equals · v) _ 0, Heap.indexOf]
  rcases Heap.indexOf.go (m.heap.equals · v) 0 (m.heap.list r).toList with _ | _ | i
  · simp
  · have missing : Terminates (do fail (.notInList (← repr caller v)) : Eval Value) m ↔
        Terminates (repr caller v) m := Terminates.bind_iff fun text => .fail (.notInList text)
    simp [missing]
  · have found : Terminates (Pure.pure (Value.int (.ofNat i)) : Eval Value) m := .pure _ m
    simp [found]

theorem count_terminates_iff : Terminates (ListMethod.call caller r .count ⟨[v], []⟩) m ↔
    ∀ w ∈ (m.heap.list r).toList, ¬m.heap.Recurs (.equal w v) := by
  have one : (⟨[v], []⟩ : Arguments).one "count" = .ok v := rfl
  rw [ListMethod.call, ListMethod.callCount, one, ofFault, pure_bind, Terminates.congr (run_ask ..),
    Terminates.ofDepth_bind_iff, ← Heap.exists_countWhere_iff]
  exact exists_congr fun n => and_iff_left (.pure _ m)

end

/-- A comparison, a search or a count ends with a result or an exception just if no question that it
comes to recurs; and what recurs is about two values with cycles in them. -/
theorem comparisons_end_unless_they_recur (m : Machine) :
    (∀ op a b, Terminates (compare op a b) m ↔ ∀ q, m.heap.Poses op a b q → ¬m.heap.Recurs q) ∧
    (∀ caller r v,
      (Terminates (ListMethod.call caller r .remove ⟨[v], []⟩) m ↔
        ∀ w, m.heap.Tries v (m.heap.list r).toList w → ¬m.heap.Recurs (.equal w v)) ∧
      (Terminates (ListMethod.call caller r .index ⟨[v], []⟩) m ↔
        (∀ w, m.heap.Tries v (m.heap.list r).toList w → ¬m.heap.Recurs (.equal w v)) ∧
          ((∀ w ∈ (m.heap.list r).toList, m.heap.Answers (.equal w v) false) →
            Terminates (repr caller v) m)) ∧
      (Terminates (ListMethod.call caller r .count ⟨[v], []⟩) m ↔
        ∀ w ∈ (m.heap.list r).toList, ¬m.heap.Recurs (.equal w v))) ∧
    ∀ q, m.heap.Recurs q → ¬m.heap.Acyclic q.left ∧ ¬m.heap.Acyclic q.right :=
  ⟨fun op a b => compare_terminates_iff op a b m, fun caller r v => ⟨remove_terminates_iff caller r v m,
    index_terminates_iff caller r v m, count_terminates_iff caller r v m⟩, fun _ => Heap.Recurs.cyclic⟩

theorem lists_in_themselves_are_never_compared :
    ∃ m : Machine, m.Reached ∧ ∃ r s, m.globals.get? "a" = some (.list r) ∧
      m.globals.get? "b" = some (.list s) ∧ m.heap.list r = #[.list r] ∧ m.heap.list s = #[.list s] ∧
      (∀ depth, m.heap.equal depth (.list r) (.list s) = none) ∧
      ∀ op ∈ [.eq, .ne, .lt, .le, .gt, .ge], ¬Terminates (compare op (.list r) (.list s)) m := by
  obtain ⟨m, reached, made⟩ := Machine.exists_reached
    "a = []\na.append(a)\nb = []\nb.append(b)\n" 9
    (fun m => decide (m.loop? "a" = some ⟨0⟩ ∧ m.loop? "b" = some ⟨1⟩)) (by decide +kernel)
  obtain ⟨made, made'⟩ := of_decide_eq_true made
  obtain ⟨bound, loop⟩ := Machine.of_loop? made
  obtain ⟨bound', loop'⟩ := Machine.of_loop? made'
  obtain ⟨equal, order⟩ := Heap.recurs_of_loops (by decide) loop loop'
  refine ⟨m, reached, _, _, bound, bound', loop, loop', equal.answer_eq_none, fun op mem ends => ?_⟩
  have onward := (compare_terminates_iff ..).1 ends
  simp only [List.mem_cons, List.not_mem_nil, or_false] at mem
  rcases mem with rfl | rfl | rfl | rfl | rfl | rfl
  · exact onward _ rfl equal
  · exact onward _ rfl equal
  · exact onward _ rfl order
  · exact onward _ rfl order
  · exact onward _ rfl order
  · exact onward _ rfl order

end Eval

end Console
