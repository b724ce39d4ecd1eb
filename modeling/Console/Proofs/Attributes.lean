import Console.Builtin.Call
import Console.Proofs.Evaluator.SafeEvaluator

/-!
# Attributes and their names

An attribute of an instance or a class stands in itself or in a class that the bases lead to. The search
for one goes depth first, and the names are collected along all ways; both reach every class there is
above, as bases come before the classes that have them.
-/

namespace Console

open Relation

namespace Names

section

variable {α : Type} [DecidableEq α]

theorem eraseReps_loop (a : α) (rest done : List α) :
    List.eraseRepsBy.loop (· == ·) a rest done = done.reverse ++ (a :: rest).eraseReps := by
  have whole (a : α) (rest : List α) :
      (a :: rest).eraseReps = List.eraseRepsBy.loop (· == ·) a rest [] := rfl
  induction rest generalizing a done with
  | nil => simp [whole, List.eraseRepsBy.loop]
  | cons b rest ih =>
    rw [whole, List.eraseRepsBy.loop, List.eraseRepsBy.loop]
    split
    · rw [ih, ih]
      rfl
    · rw [ih, ih]
      simp

/-- Of equal neighbours one is left. -/
theorem eraseReps_cons_cons (a b : α) (rest : List α) : (a :: b :: rest).eraseReps =
    if a = b then (b :: rest).eraseReps else a :: (b :: rest).eraseReps := by
  change List.eraseRepsBy.loop (· == ·) a (b :: rest) [] = _
  rw [List.eraseRepsBy.loop]
  by_cases same : a = b
  · subst same
    simp [eraseReps_loop]
  · simp [same, beq_false_of_ne same, eraseReps_loop]

theorem mem_eraseReps {x : α} (l : List α) : x ∈ l.eraseReps ↔ x ∈ l := by
  induction l with
  | nil => rfl
  | cons a rest ih =>
    cases rest with
    | nil => rfl
    | cons b rest =>
      rw [eraseReps_cons_cons]
      by_cases same : a = b
      · simp [same, ih]
      · simp [same, ih]

end

theorem pairwise_eraseReps {l : List String} (sorted : l.Pairwise (· ≤ ·)) :
    l.eraseReps.Pairwise (· < ·) := by
  induction l with
  | nil => exact .nil
  | cons a rest ih =>
    obtain ⟨first, others⟩ := List.pairwise_cons.1 sorted
    cases rest with
    | nil => exact List.pairwise_singleton _ _
    | cons b rest =>
      rw [eraseReps_cons_cons]
      by_cases same : a = b
      · rw [if_pos same]
        exact ih others
      · rw [if_neg same]
        have below : a < b := Std.lt_of_le_of_ne (first b List.mem_cons_self) same
        refine List.pairwise_cons.2 ⟨fun x mem => ?_, ih others⟩
        rcases List.mem_cons.1 ((mem_eraseReps _).1 mem) with rfl | mem
        · exact below
        · exact Std.lt_of_lt_of_le below ((List.pairwise_cons.1 others).1 x mem)

theorem mem_inOrder {name : String} {names : List String} :
    name ∈ Builtin.inOrder names ↔ name ∈ names := by
  rw [Builtin.inOrder, mem_eraseReps, List.mem_mergeSort]

theorem pairwise_inOrder (names : List String) : (Builtin.inOrder names).Pairwise (· < ·) := by
  have trans (a b c : String) :
      decide (a ≤ b) = true → decide (b ≤ c) = true → decide (a ≤ c) = true := by
    simpa using String.le_trans
  have total (a b : String) : (decide (a ≤ b) || decide (b ≤ a)) = true := by
    simpa using String.le_total a b
  have sorted := List.pairwise_mergeSort trans total names
  exact pairwise_eraseReps (by simpa using sorted)

end Names

namespace Heap

variable {h : Heap} {name : String}

/-- A class has another one among its bases, or is led to it by them. -/
def Inherits (h : Heap) : Ref .cls → Ref .cls → Prop :=
  ReflTransGen fun r base => base ∈ (h.cls r).bases

/-- The search finds a name if it is among those collected, in as many steps. -/
theorem isSome_findInClass? (name : String) (steps : Nat) (r : Ref .cls) :
    (h.findInClass? name steps r).isSome ↔ name ∈ h.collectNames steps r := by
  induction steps generalizing r with
  | zero => simp [findInClass?, collectNames]
  | succ steps ih =>
    have own := Bindings.isSome_get? (h.cls r).attrs name
    rw [findInClass?, collectNames, List.mem_append, List.mem_flatMap, ← own]
    cases (h.cls r).attrs.get? name with
    | some v => simp
    | none => simp [List.findSome?_isSome_iff, ih]

theorem Sound.base_before (sound : h.Sound) {r base : Ref .cls} (mem : base ∈ (h.cls r).bases) :
    base.index < r.index := by
  unfold Heap.cls at mem
  cases found : h.classes[r.index]? with
  | none =>
    rw [found] at mem
    cases mem
  | some c =>
    rw [found] at mem
    exact (sound .cls r c found).before base mem

theorem inherits_of_collected (steps : Nat) (r : Ref .cls) (mem : name ∈ h.collectNames steps r) :
    ∃ c, h.Inherits r c ∧ name ∈ (h.cls c).attrs.names := by
  induction steps generalizing r with
  | zero => cases mem
  | succ steps ih =>
    rw [collectNames, List.mem_append, List.mem_flatMap] at mem
    rcases mem with own | ⟨base, first, mem⟩
    · exact ⟨r, .refl, own⟩
    · obtain ⟨c, inherits, bound⟩ := ih base mem
      exact ⟨c, .head first inherits, bound⟩

/-- Each base comes before the class that has it, so no chain of bases is longer than the index. -/
theorem collected_of_inherits (sound : h.Sound) {r c : Ref .cls} (inherits : h.Inherits r c)
    (bound : name ∈ (h.cls c).attrs.names) (steps : Nat) (enough : r.index < steps) :
    name ∈ h.collectNames steps r := by
  -- at each class of the chain the index is still below the steps that are left
  induction inherits using ReflTransGen.head_induction_on generalizing steps with
  | refl =>
    cases steps with
    | zero => cases enough
    | succ steps => exact List.mem_append_left _ bound
  | head first _ ih =>
    cases steps with
    | zero => cases enough
    | succ steps =>
      have before := sound.base_before first
      exact List.mem_append_right _ (List.mem_flatMap.2 ⟨_, first, ih steps (by omega)⟩)

theorem mem_classNames (sound : h.Sound) (r : Ref .cls) :
    name ∈ h.classNames r ↔ ∃ c, h.Inherits r c ∧ name ∈ (h.cls c).attrs.names :=
  ⟨inherits_of_collected _ r, fun ⟨_, inherits, bound⟩ =>
    collected_of_inherits sound inherits bound _ (Nat.lt_succ_self _)⟩

/-- What is an attribute of an instance, a class or a value with built-in methods. -/
def HasAttribute (h : Heap) (name : String) : Value → Prop
  | .instance r => name ∈ (h.inst r).attrs.names ∨
      ∃ c, h.Inherits (h.inst r).cls c ∧ name ∈ (h.cls c).attrs.names
  | .cls r => ∃ c, h.Inherits r c ∧ name ∈ (h.cls c).attrs.names
  | .list _ => ∃ method : ListMethod, method.name = name
  | .str _ => ∃ method : StrMethod, method.name = name
  | .dict _ => ∃ method : DictMethod, method.name = name
  | _ => False

end Heap

theorem ListMethod.mem_all (method : ListMethod) : method ∈ all := by cases method <;> decide

theorem StrMethod.mem_all (method : StrMethod) : method ∈ all := by cases method <;> decide

theorem DictMethod.mem_all (method : DictMethod) : method ∈ all := by cases method <;> decide

/-- Instances, classes and values with built-in methods: what has the attributes that are listed for
it, a class its name besides. -/
def Value.Listed : Value → Prop
  | .instance _ | .cls _ | .list _ | .str _ | .dict _ => True
  | _ => False

namespace Builtin

variable {m : Machine} {v : Value} {name : String}

/-- The names that are listed are those of the attributes there are. -/
theorem mem_namesOf (sound : m.heap.Sound) (listed : v.Listed) :
    name ∈ namesOf m (some v) ↔ m.heap.HasAttribute name v := by
  cases v with
  | «instance» r => simp only [namesOf, List.mem_append, Heap.HasAttribute, Heap.mem_classNames sound]
  | cls r => exact Heap.mem_classNames sound r
  | list r => simp [namesOf, Heap.HasAttribute, Eval.builtinMethodNames, ListMethod.mem_all]
  | str r => simp [namesOf, Heap.HasAttribute, Eval.builtinMethodNames, StrMethod.mem_all]
  | dict r => simp [namesOf, Heap.HasAttribute, Eval.builtinMethodNames, DictMethod.mem_all]
  | _ => exact listed.elim

/-- An attribute is found if its name is listed. -/
theorem run_attr (listed : v.Listed) (unnamed : ∀ r, v = .cls r → name ≠ "__name__") (m : Machine) :
    ∃ found, Eval.attr? v name m = .ok found m ∧ (found.isSome ↔ name ∈ namesOf m (some v)) := by
  cases v with
  | «instance» r =>
    refine ⟨Eval.instanceAttr? m.heap r name, rfl, ?_⟩
    rw [namesOf, List.mem_append, ← Bindings.isSome_get?, Heap.classNames,
      ← Heap.isSome_findInClass?, Eval.instanceAttr?]
    cases (m.heap.inst r).attrs.get? name with
    | some v => simp
    | none => simp [Heap.classAttr?]
  | cls r =>
    refine ⟨m.heap.classAttr? r name, ?_, Heap.isSome_findInClass? name _ r⟩
    rw [Eval.attr?, if_neg (unnamed r rfl)]
    rfl
  | list r =>
    refine ⟨_, rfl, ?_⟩
    simp [namesOf, Eval.builtinMethodNames, Eval.builtinMethod?, ListMethod.ofName?]
  | str r =>
    refine ⟨_, rfl, ?_⟩
    simp [namesOf, Eval.builtinMethodNames, Eval.builtinMethod?, StrMethod.ofName?]
  | dict r =>
    refine ⟨_, rfl, ?_⟩
    simp [namesOf, Eval.builtinMethodNames, Eval.builtinMethod?, DictMethod.ofName?]
  | _ => exact listed.elim

theorem run_dir (v : Value) (caller : Caller) (m : Machine) :
    ∃ r m', call caller .dir ⟨[v], []⟩ m = .ok (.list r) m' ∧
      m'.heap.list r = ((inOrder (namesOf m (some v))).map Value.str).toArray := by
  refine ⟨⟨m.heap.lists.size⟩, _, rfl, ?_⟩
  simp [Heap.list]

theorem run_hasattr {found : Option Value} (run : Eval.attr? v name m = .ok found m) (caller : Caller) :
    call caller .hasattr ⟨[v, .str name], []⟩ m = .ok (.bool found.isSome) m := by
  change (Eval.attr? v name >>= fun found => pure (Value.bool found.isSome)) m = _
  rw [Eval.run_bind run]
  rfl

/-- What is listed for an instance, a class, a list, a text or a dict are the names of its attributes, in
order and each once: what the object itself binds at that moment and what any class binds that the bases
lead to. It is listed if and only if it is said to be an attribute, the name of a class apart. -/
theorem dir_lists_attributes (underway : m.Underway) (caller : Caller) (listed : v.Listed) :
    ∃ (r : Ref .list) (names : List String) (m' : Machine),
      call caller .dir ⟨[v], []⟩ m = .ok (.list r) m' ∧
      m'.heap.list r = (names.map Value.str).toArray ∧ names.Pairwise (· < ·) ∧
      (∀ name, name ∈ names ↔ m.heap.HasAttribute name v) ∧
      ∀ name, (∀ r, v = .cls r → name ≠ "__name__") →
        call caller .hasattr ⟨[v, .str name], []⟩ m =
          .ok (.bool (decide (name ∈ names))) m := by
  obtain ⟨r, m', run, lists⟩ := run_dir v caller m
  refine ⟨r, inOrder (namesOf m (some v)), m', run, lists, Names.pairwise_inOrder _, fun name => ?_,
    fun name unnamed => ?_⟩
  · rw [Names.mem_inOrder, mem_namesOf underway.sound.heap listed]
  · obtain ⟨found, run, same⟩ := run_attr listed unnamed m
    have listed : found.isSome = decide (name ∈ inOrder (namesOf m (some v))) := by
      rw [Bool.eq_iff_iff, same, decide_eq_true_iff, Names.mem_inOrder]
    rw [run_hasattr run, listed]

/-- Three classes, the last with the first as a base in two ways, and an instance of it. Then a name is
bound in the instance, one in the first class, and one is unbound in the second. -/
def comingAndGoing : Statement :=
  .ifElse 1 (.int 1) [
    .classBody 2 "A" [] [.simple 3 (.assign [.name "x"] (.int 1))],
    .classBody 4 "B" [.name "A"] [.simple 5 (.assign [.name "y"] (.int 2))],
    .classBody 6 "C" [.name "B", .name "A"] [.simple 7 .pass],
    .simple 8 (.assign [.name "c"] (.call (.name "C") [] [])),
    .simple 9 (.assign [.attribute (.name "c") "z"] (.int 3)),
    .simple 10 (.assign [.attribute (.name "A") "w"] (.int 4)),
    .simple 11 (.delete [.attribute (.name "B") "y"])] []

/-- What was bound above an instance and in it is listed for it, what was unbound is not. -/
theorem attributes_come_and_go : ∃ (m : Machine) (names : List String),
    m = (Evaluator.exec 9 (.module false) comingAndGoing).left .fresh ∧ m.Underway ∧
    (∃ r m', call ⟨Evaluator.call 9, 9⟩ .dir ⟨[.instance ⟨0⟩], []⟩ m = .ok (.list r) m' ∧
      m'.heap.list r = (names.map Value.str).toArray) ∧ names.Pairwise (· < ·) ∧
    "x" ∈ names ∧ "w" ∈ names ∧ "z" ∈ names ∧ "y" ∉ names := by
  obtain ⟨m, made⟩ : ∃ m, m = (Evaluator.exec 9 (.module false) comingAndGoing).left .fresh := ⟨_, rfl⟩
  have underway : m.Underway := made ▸ .executed _ _ trivial (.between .fresh)
  obtain ⟨r, names, m', run, lists, sorted, -, told⟩ :=
    dir_lists_attributes (v := .instance ⟨0⟩) underway ⟨Evaluator.call 9, 9⟩ trivial
  have listed {name : String} {b : Bool} (answer : call ⟨Evaluator.call 9, 9⟩ .hasattr
      ⟨[.instance ⟨0⟩, .str name], []⟩ m = .ok (.bool b) m) : decide (name ∈ names) = b := by
    have same := (told name nofun).symm.trans answer
    simpa using same
  have x : decide ("x" ∈ names) = true := listed (made ▸ rfl)
  have w : decide ("w" ∈ names) = true := listed (made ▸ rfl)
  have z : decide ("z" ∈ names) = true := listed (made ▸ rfl)
  have y : decide ("y" ∈ names) = false := listed (made ▸ rfl)
  exact ⟨m, names, made, underway, ⟨r, m', run, lists⟩, sorted, of_decide_eq_true x, of_decide_eq_true w,
    of_decide_eq_true z, of_decide_eq_false y⟩

end Builtin

end Console
